import TreeLang.Operator.Basic

/-!
# Operator registries

A registry holds the operators that are in force, in the order they were registered.  Everything a
reader needs is computed from that list: which symbols begin with a character, longest first, and
the groups of operators of one priority, loosest first.

An operator enters only if it is in conflict with none that is there.  So in every registry built
by the operations below a name is either a symbol or a word, no name has two operators of one
fixity or is both binary and postfix, and the operators of one priority share their fixity and,
when binary, their associativity.

* `OperatorRegistry.conflict?` — the rule.
* `add`, `remove`, `removeDefinition`, `copyFrom` — the operations.
* `symbols`, `priorityGroups` — the views.
* `OperatorRegistry.defaults` — the operators every source starts with.
-/

namespace TreeLang

/-- The operators in force, oldest first. -/
structure OperatorRegistry where
  definitions : List OperatorDefinition
deriving Repr, DecidableEq, Inhabited

namespace OperatorRegistry

/-- The registry without an operator. -/
def empty : OperatorRegistry := ⟨[]⟩

/-! ## Conflicts -/

/-- The conflict of a new operator with one of its name. -/
def nameConflict? (new existing : OperatorDefinition) : Option OperatorConflict :=
  if existing.keyword ≠ new.keyword then some (.wordSymbolClash new.name existing.keyword)
  else if existing.fixity = new.fixity then some (.duplicate new.name new.fixity)
  else match existing.fixity, new.fixity with
    | .binary, .postfixed => some (.binaryPostfixAmbiguity new.name)
    | .postfixed, .binary => some (.binaryPostfixAmbiguity new.name)
    | _, _ => none

/-- The conflict of a new operator with one of its priority. -/
def priorityConflict? (new existing : OperatorDefinition) : Option OperatorConflict :=
  if existing.fixity ≠ new.fixity then some (.fixityClash new.priority existing.fixity)
  else if new.fixity = .binary ∧ existing.rightAssociative ≠ new.rightAssociative then
    some (.mixedAssociativity new.priority existing.rightAssociative)
  else none

/-- **Why an operator cannot be registered**, if it cannot.  Operators of its name are consulted
before operators of its priority, and older ones before newer ones. -/
def conflict? (registry : OperatorRegistry) (op : OperatorDefinition) : Option OperatorConflict :=
  if !op.priority.isFinite then some (.invalidPriority op.priority)
  else
    ((registry.definitions.filter (·.name = op.name)).findSome? (nameConflict? op)).or
      ((registry.definitions.filter (·.priority.agrees op.priority)).findSome?
        (priorityConflict? op))

/-! ## Operations -/

/-- Registers an operator behind the others. -/
def add (registry : OperatorRegistry) (op : OperatorDefinition) :
    Except OperatorConflict OperatorRegistry :=
  match registry.conflict? op with
  | some conflict => .error conflict
  | none => .ok ⟨registry.definitions ++ [op]⟩

/-- Takes every operator of a name and sort away; answers those taken and the rest. -/
def remove (registry : OperatorRegistry) (name : String) (keyword : Bool) :
    List OperatorDefinition × OperatorRegistry :=
  let (removed, kept) :=
    registry.definitions.partition fun op => op.name = name && op.keyword = keyword
  (removed, ⟨kept⟩)

/-- Takes one definition away; answers whether it was there. -/
def removeDefinition (registry : OperatorRegistry) (op : OperatorDefinition) :
    Bool × OperatorRegistry :=
  (registry.definitions.any op.agrees, ⟨registry.definitions.filter fun other => !op.agrees other⟩)

/-- One step of copying: an operator that is already there is passed over, one in conflict is
noted. -/
def copyOne (state : List OperatorConflict × OperatorRegistry) (op : OperatorDefinition) :
    List OperatorConflict × OperatorRegistry :=
  let (conflicts, registry) := state
  if registry.definitions.any op.agrees then state
  else match registry.add op with
    | .ok registry => (conflicts, registry)
    | .error conflict => (conflicts ++ [conflict], registry)

/-- **Registers everything another registry holds**, as far as there is no conflict; answers the
conflicts. -/
def copyFrom (registry other : OperatorRegistry) : List OperatorConflict × OperatorRegistry :=
  other.definitions.foldl copyOne ([], registry)

/-- The operator of a name, sort and fixity. -/
def find? (registry : OperatorRegistry) (name : String) (keyword : Bool) (fixity : Fixity) :
    Option OperatorDefinition :=
  registry.definitions.find? fun op =>
    op.name = name && op.keyword = keyword && op.fixity = fixity

/-- Whether a name of the given sort has an operator. -/
def contains (registry : OperatorRegistry) (name : String) (keyword : Bool) : Bool :=
  registry.definitions.any fun op => op.name = name && op.keyword = keyword

/-! ## Views -/

/-- Longer names come first, names of one length in the order of their characters. -/
def longerFirst (a b : String) : Bool :=
  b.length < a.length || (a.length = b.length && a ≤ b)

/-- **The symbols, or the words, that begin with a character**, longest first, each once. -/
def symbols (registry : OperatorRegistry) (keyword : Bool) (c : Char) : List String :=
  let names := (registry.definitions.filter fun op =>
    op.keyword = keyword && op.name.toList.head? = some c).map (·.name)
  names.eraseDups.mergeSort longerFirst

/-- The group of operators of a priority; fixity and associativity are those of the oldest. -/
def group? (registry : OperatorRegistry) (priority : Priority) : Option PriorityGroup :=
  match registry.definitions.filter (·.priority = priority) with
  | [] => none
  | first :: rest => some ⟨priority, first.fixity, first.rightAssociative, first :: rest⟩

/-- **The groups of operators of one priority**, from the loosest to the tightest binding. -/
def priorityGroups (registry : OperatorRegistry) : List PriorityGroup :=
  let priorities := (registry.definitions.map (·.priority)).eraseDups
  (priorities.mergeSort fun a b => !b.precedes a).filterMap registry.group?

/-! ## The default operators -/

/-- Binary symbol operators of one priority. -/
private def level (priority : Nat) (rightAssociative : Bool) (names : List String) :
    List OperatorDefinition :=
  names.map fun name =>
    { OperatorDefinition.symbol name .binary (.ofNat priority) with
      rightAssociative := rightAssociative }

/-- The priority of prefix operators that state none. -/
def prefixedPriority : Priority := .ofNat 1200

/-- The priority of accessors that state none. -/
def accessorPriority : Priority := .ofNat 1300

/-- The priority of binary operators that state none. -/
def binaryPriority : Priority := .ofNat 1000

/-- The priority of postfix operators that state none. -/
def postfixedPriority : Priority := .ofNat 1100

/-- **The operators every source starts with**, unless they are switched off: assignment, logic,
comparison, bits, arithmetic and the accessor, whose calls take the bare name of the member. -/
def defaults : OperatorRegistry :=
  ⟨level 100 true ["="] ++
    level 200 false ["||"] ++
    level 300 false ["&&"] ++
    level 400 false ["==", "!="] ++
    level 500 false ["<", ">", "<=", ">="] ++
    level 600 false ["&", "|", "^", "<<", ">>"] ++
    level 700 false ["+", "-"] ++
    level 800 false ["*", "/", "%"] ++
    level 900 true ["**"] ++
    ["!", "-", "~"].map (OperatorDefinition.symbol · .prefixed prefixedPriority) ++
    [{ OperatorDefinition.symbol "." .binary accessorPriority with
        accessor := true, aliasName := some "" }]⟩

end OperatorRegistry

end TreeLang
