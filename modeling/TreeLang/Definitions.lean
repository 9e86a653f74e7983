import TreeLang.Macro.Registry
import TreeLang.Operator.Registry

/-!
# Sets of definitions

What a source can use, and what it hands to those who import it, is a set of definitions: macros
and operators.  Importing copies a set into another one; taking an import back removes exactly what
came with it.

* `Definitions.copyFrom` — adds another set and answers the conflicts.
* `Definitions.removeAll` — removes another set and answers how much of it was there.
-/

namespace TreeLang

/-- Macros and operators. -/
structure Definitions where
  macros : MacroRegistry
  operators : OperatorRegistry
deriving Repr, Inhabited

namespace Definitions

/-- The set without a definition. -/
def empty : Definitions := ⟨.empty, .empty⟩

/-- Whether there is neither a macro nor an operator. -/
def isEmpty (definitions : Definitions) : Bool :=
  definitions.macros.definitions.isEmpty && definitions.operators.definitions.isEmpty

/-- **Adds everything another set holds**, as far as nothing is in its way; answers a report for
each conflict, macros first. -/
def copyFrom (definitions other : Definitions) : List Report × Definitions :=
  let (macroConflicts, macros) := definitions.macros.copyFrom other.macros
  let (operatorConflicts, operators) := definitions.operators.copyFrom other.operators
  (macroConflicts ++ operatorConflicts.map fun conflict => Report.of (.importedConflict conflict),
    ⟨macros, operators⟩)

/-- One step of removal, counting what was there. -/
private def countRemoved {α β : Type} (remove : β → α → Bool × β) (state : Nat × β) (entry : α) :
    Nat × β :=
  let (removed, rest) := remove state.2 entry
  (if removed then state.1 + 1 else state.1, rest)

/-- **Removes everything another set holds**; answers how many definitions were there. -/
def removeAll (definitions other : Definitions) : Nat × Definitions :=
  let (macrosRemoved, macros) :=
    other.macros.definitions.foldl (countRemoved MacroRegistry.removeDefinition)
      (0, definitions.macros)
  let (operatorsRemoved, operators) :=
    other.operators.definitions.foldl (countRemoved OperatorRegistry.removeDefinition)
      (0, definitions.operators)
  (macrosRemoved + operatorsRemoved, ⟨macros, operators⟩)

/-- The definitions as they are listed: macros in order, then operators. -/
def names (definitions : Definitions) : List String :=
  definitions.macros.definitions.map (·.value.header) ++
    definitions.operators.definitions.map (·.text)

end Definitions

end TreeLang
