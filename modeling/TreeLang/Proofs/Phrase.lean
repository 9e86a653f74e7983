import TreeLang.Proofs.Making

/-!
# Phrases

A parser does two things at once: it reads tokens, and it makes nodes from what it has read.  A
*phrase* is what stands between the two: the tokens of a value in the shape in which they belong
together, before any node is made of them.

* `Head`, `Phrase` — what was read.
* **`Phrase.make`** — the nodes that are made of it, in the order in which the parser makes them.
* `nodewise_make` — making the nodes of a phrase does not read.
-/

namespace TreeLang

/-- What stands in front of a group. -/
structure Head where
  /-- The name, if it has one. -/
  name : Option Token
  opener : Token
  /-- Whether the group is offered to the macros. -/
  expands : Bool

namespace Head

/-- Where the group begins. -/
def start (head : Head) : Nat :=
  (head.name.map Token.start).getD head.opener.start

/-- The parameter that the group refers to by its name. -/
def reference (head : Head) : Parser (Option Nat) :=
  match head.name with
  | some name => if name.kind = .literal then Parser.parameterIndex? name.content else pure none
  | none => pure none

/-- The text of the name. -/
def text (head : Head) : String :=
  (head.name.map Token.content).getD ""

end Head

/-- The tokens of a value. -/
inductive Phrase where
  | word (token : Token) (expands : Bool)
  | object (head : Head) (entries : List (Token × Phrase)) (stop : Nat)
  | list (head : Head) (operation : Bool) (elements : List Phrase) (stop : Nat)
  /-- A prefix operator, from the end of the token in front of it. -/
  | prefixed (op : OperatorDefinition) (start : Nat) (operand : Phrase)
  | postfixed (op : OperatorDefinition) (operand : Phrase) (stop : Nat)
  | binary (op : OperatorDefinition) (left right : Phrase)

namespace Phrase

variable (options : CompileOptions)

mutual

/-- **The nodes made of a phrase.** -/
def make : Phrase → Parser Node
  | .word token expands => Parser.primitive token expands
  | .object head entries stop => do
    let reference ← head.reference
    let properties ← makeEntries entries []
    Parser.completeGroup options head.name head.start head.expands reference
      (.properties properties stop)
  | .list head operation elements stop => do
    let reference ← head.reference
    let values ← makeElements elements
    Parser.completeGroup options head.name head.start head.expands reference
      (.values values operation stop)
  | .prefixed op start operand => do
    let node ← make operand
    Parser.operatorNode op [node] ⟨start, node.span.stop⟩
  | .postfixed op operand stop => do
    let node ← make operand
    Parser.operatorNode op [node] ⟨node.span.start, stop⟩
  | .binary op left right => do
    let left ← make left
    let right ← make right
    Parser.binaryNode op left right

/-- The properties made of entries, behind those made already. -/
def makeEntries : List (Token × Phrase) → List (String × Node) → Parser (List (String × Node))
  | [], properties => return properties
  | (key, phrase) :: rest, properties => do
    let value ← make phrase
    let properties ← Parser.addProperty options key value properties
    makeEntries rest properties

/-- The values made of elements. -/
def makeElements : List Phrase → Parser (List Node)
  | [] => return []
  | phrase :: rest => do
    let node ← make phrase
    let nodes ← makeElements rest
    return node :: nodes

end

end Phrase

namespace Parser

lemma nodewise_reference (head : Head) : Nodewise head.reference := by
  rw [Head.reference]
  split
  · split
    · exact nodewise_parameterIndex? _
    · exact .pure _
  · exact .pure _

mutual

/-- **Making the nodes of a phrase does not read.** -/
theorem nodewise_make (options : CompileOptions) :
    (phrase : Phrase) → Nodewise (phrase.make options)
  | .word token expands => by
    rw [Phrase.make]
    exact nodewise_primitive token expands
  | .object head entries stop => by
    rw [Phrase.make]
    exact (nodewise_reference head).bind fun _ =>
      (nodewise_makeEntries options entries []).bind fun _ => nodewise_completeGroup _ _ _ _ _ _
  | .list head operation elements stop => by
    rw [Phrase.make]
    exact (nodewise_reference head).bind fun _ =>
      (nodewise_makeElements options elements).bind fun _ => nodewise_completeGroup _ _ _ _ _ _
  | .prefixed op start operand => by
    rw [Phrase.make]
    exact (nodewise_make options operand).bind fun _ => nodewise_operatorNode _ _ _
  | .postfixed op operand stop => by
    rw [Phrase.make]
    exact (nodewise_make options operand).bind fun _ => nodewise_operatorNode _ _ _
  | .binary op left right => by
    rw [Phrase.make]
    exact (nodewise_make options left).bind fun _ =>
      (nodewise_make options right).bind fun _ => nodewise_binaryNode _ _ _

theorem nodewise_makeEntries (options : CompileOptions) :
    (entries : List (Token × Phrase)) → (properties : List (String × Node)) →
      Nodewise (Phrase.makeEntries options entries properties)
  | [], properties => by
    rw [Phrase.makeEntries]
    exact .pure _
  | (key, phrase) :: rest, properties => by
    rw [Phrase.makeEntries]
    exact (nodewise_make options phrase).bind fun _ =>
      (nodewise_addProperty _ _ _ _).bind fun _ => nodewise_makeEntries options rest _

theorem nodewise_makeElements (options : CompileOptions) :
    (elements : List Phrase) → Nodewise (Phrase.makeElements options elements)
  | [] => by
    rw [Phrase.makeElements]
    exact .pure _
  | phrase :: rest => by
    rw [Phrase.makeElements]
    exact (nodewise_make options phrase).bind fun _ =>
      (nodewise_makeElements options rest).bind fun _ => .pure _

end

end Parser

end TreeLang
