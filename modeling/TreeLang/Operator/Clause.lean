import TreeLang.Operator.Registry
import TreeLang.Report.Basic

/-!
# The clauses of an operator statement

An operator statement describes its operator by clauses in any order: the fixity, the associativity,
whether it is an accessor, and behind any of them a priority.  Clauses may be repeated but must not
contradict each other.

* `Clause` — one clause as it is written.
* `ClauseSummary.add` — what a further clause adds to those before it.
* **`buildOperator`** — the operator that the clauses describe.
-/

namespace TreeLang

/-- A clause of an operator statement. -/
structure Clause where
  name : String
  /-- The priority in parentheses behind it. -/
  priority : Option Priority
  offset : Nat
deriving Repr, DecidableEq

/-- What clauses say together. -/
structure ClauseSummary where
  fixity : Option Fixity := none
  rightAssociative : Option Bool := none
  accessor : Bool := false
  priority : Option Priority := none
deriving Repr, DecidableEq

/-- The fixity that a clause names. -/
def Clause.fixity? (clause : Clause) : Option Fixity :=
  [Fixity.binary, .prefixed, .postfixed].find? fun fixity => fixity.text = clause.name

/-- The associativity that a clause names, `true` for the right one. -/
def Clause.rightAssociative? (clause : Clause) : Option Bool :=
  if clause.name = "left-associative" then some false
  else if clause.name = "right-associative" then some true
  else none

namespace ClauseSummary

/-- What a clause adds by its name. -/
def addName (summary : ClauseSummary) (clause : Clause) : Except Report ClauseSummary :=
  match clause.fixity?, clause.rightAssociative? with
  | some fixity, _ =>
    match summary.fixity with
    | some other =>
      if other = fixity then .ok summary
      else .error (Report.errorAt clause.offset (.conflictingFixities other fixity))
    | none => .ok { summary with fixity := some fixity }
  | none, some right =>
    if summary.rightAssociative = some !right then
      .error (Report.errorAt clause.offset .conflictingAssociativities)
    else .ok { summary with rightAssociative := some right }
  | none, none =>
    if clause.name = "accessor" then .ok { summary with accessor := true }
    else .error (Report.errorAt clause.offset (.unknownProperty clause.name))

/-- What a clause adds by its priority. -/
def addPriority (operator : String) (summary : ClauseSummary) (clause : Clause) :
    Except Report ClauseSummary :=
  match clause.priority, summary.priority with
  | none, _ => .ok summary
  | some priority, none => .ok { summary with priority := some priority }
  | some priority, some other =>
    if priority.agrees other then .ok summary
    else .error (Report.errorAt clause.offset (.conflictingPriorities operator))

/-- **What a further clause adds**, unless it contradicts those before it. -/
def add (operator : String) (summary : ClauseSummary) (clause : Clause) :
    Except Report ClauseSummary := do
  addPriority operator (← summary.addName clause) clause

/-- What is wrong with the clauses as a whole. -/
def mistake? (summary : ClauseSummary) : Option Cause :=
  let binary := summary.fixity.getD .binary = .binary
  if summary.rightAssociative.isSome ∧ !binary then some .associativityWithoutBinary
  else if summary.accessor ∧ !binary then some .accessorWithoutBinary
  else if summary.accessor ∧ summary.rightAssociative = some true then
    some .rightAssociativeAccessor
  else none

/-- The priority of an operator that states none. -/
def defaultPriority (summary : ClauseSummary) : Priority :=
  if summary.accessor then OperatorRegistry.accessorPriority
  else match summary.fixity.getD .binary with
    | .binary => OperatorRegistry.binaryPriority
    | .postfixed => OperatorRegistry.postfixedPriority
    | .prefixed => OperatorRegistry.prefixedPriority

end ClauseSummary

/-- **The operator that clauses describe.**  It is binary unless they say otherwise. -/
def buildOperator (name : String) (keyword : Bool) (clauses : List Clause)
    (aliasName : Option String) : Except Report OperatorDefinition := do
  let summary ← clauses.foldlM (ClauseSummary.add name) {}
  match summary.mistake? with
  | some cause =>
    throw (Report.errorAt ((clauses.head?.map Clause.offset).getD 0) cause)
  | none =>
    return {
      name := name
      keyword := keyword
      fixity := summary.fixity.getD .binary
      aliasName := aliasName
      rightAssociative := summary.rightAssociative.getD false
      accessor := summary.accessor
      priority := summary.priority.getD summary.defaultPriority }

end TreeLang
