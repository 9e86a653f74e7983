import TreeLang.Node.Basic

/-!
# Signatures of macros

A macro is looked up by its name together with the kind of node that invokes it.  Four kinds are
invoked by a node itself: a bare word, an object, a list or an operation of that name.  Four more
are invoked on a receiver, through an accessor: their first parameter is the receiver, called
`self`, and their argument is a list of the receiver and, at most, one more node.

* `MacroKind` — the eight kinds.
* `Signature` — a name and a kind; signatures are ordered by name, then by kind.
-/

namespace TreeLang

/-- The kind of node that invokes a macro. -/
inductive MacroKind where
  | constant
  | object
  | list
  | operation
  /-- A receiver and a bare member. -/
  | access
  | objectFunction
  | listFunction
  | operationFunction
deriving Repr, DecidableEq, Inhabited

namespace MacroKind

/-- Whether the first parameter is the receiver. -/
def isFunction : MacroKind → Bool
  | access | objectFunction | listFunction | operationFunction => true
  | _ => false

/-- Whether arguments are chosen by key rather than by position. -/
def isKeyed : MacroKind → Bool
  | object | objectFunction => true
  | _ => false

/-- How many leading parameters are not written by the invoker: the receiver or none. -/
def implicit (kind : MacroKind) : Nat :=
  if kind.isFunction then 1 else 0

/-- The kind of receiver macro that a member of the given form invokes. -/
def ofMember : Node → MacroKind
  | .primitive _ _ => access
  | .object _ _ _ => objectFunction
  | .list _ _ true _ => operationFunction
  | .list _ _ false _ => listFunction

/-- The brackets that a kind is written with. -/
def brackets? : MacroKind → Option (String × String)
  | constant | access => none
  | object | objectFunction => some ("\x7b", "\x7d")
  | list | listFunction => some ("[", "]")
  | operation | operationFunction => some ("(", ")")

/-- The keyword that defines a macro of a kind. -/
def definingWord (kind : MacroKind) : String :=
  if kind.isFunction then "fn" else "macro"

/-- The name of a kind in JSON output. -/
def text : MacroKind → String
  | constant => "const"
  | object => "object"
  | list => "list"
  | operation => "operation"
  | access => "access"
  | objectFunction => "object-fn"
  | listFunction => "list-fn"
  | operationFunction => "operation-fn"

/-- All kinds, in order. -/
def all : List MacroKind :=
  [constant, object, list, operation, access, objectFunction, listFunction, operationFunction]

/-- The place of a kind in the order of kinds. -/
def rank : MacroKind → Nat
  | constant => 0
  | object => 1
  | list => 2
  | operation => 3
  | access => 4
  | objectFunction => 5
  | listFunction => 6
  | operationFunction => 7

/-- Kinds of one rank are the same. -/
theorem rank_injective {a b : MacroKind} (h : a.rank = b.rank) : a = b := by
  cases a <;> cases b <;> simp_all [rank]

end MacroKind

/-- What a macro is looked up by. -/
structure Signature where
  name : String
  kind : MacroKind
deriving Repr, DecidableEq, Inhabited

namespace Signature

/-- A signature as messages show it, without parameters. -/
def text (signature : Signature) : String :=
  signature.kind.definingWord ++ " " ++ signature.name ++
    match signature.kind.brackets? with
    | some (left, right) => left ++ right
    | none => ""

/-- The order of signatures: names by their characters, then kinds. -/
def le (a b : Signature) : Bool :=
  a.name < b.name || (a.name = b.name && a.kind.rank ≤ b.kind.rank)

end Signature

end TreeLang
