import TreeLang.Macro.Binding
import TreeLang.Shared

/-!
# Macro registries

A registry holds the macros in force.  Macros of one signature are *overloads* of each other; they
differ in their parameters, and the one that fits an invocation best is used.  The macros stand in
the order of their signatures, overloads in the order they were registered.

* `MacroRegistry.add`, `remove`, `removeDefinition`, `copyFrom` — the operations.
* `group`, `named` — the views.
* **`MacroRegistry.resolve`** — the macro that an invocation means.
-/

namespace TreeLang

/-- The macros in force, in the order of their signatures. -/
structure MacroRegistry where
  definitions : List (Shared MacroDefinition)
deriving Repr, Inhabited

namespace MacroRegistry

/-- The registry without a macro. -/
def empty : MacroRegistry := ⟨[]⟩

/-! ## Views -/

/-- The overloads of a signature, oldest first. -/
def group (registry : MacroRegistry) (signature : Signature) : List (Shared MacroDefinition) :=
  registry.definitions.filter fun entry => entry.value.signature = signature

/-- The macros of a name, of every kind. -/
def named (registry : MacroRegistry) (name : String) : List (Shared MacroDefinition) :=
  registry.definitions.filter fun entry => entry.value.signature.name = name

/-- Whether a name has a macro of a kind. -/
def contains (registry : MacroRegistry) (name : String) (kind : MacroKind) : Bool :=
  !(registry.group ⟨name, kind⟩).isEmpty

/-! ## Operations -/

/-- A list in the order of signatures with one more macro, behind the overloads of its signature. -/
def insertOrdered (new : Shared MacroDefinition) :
    List (Shared MacroDefinition) → List (Shared MacroDefinition)
  | [] => [new]
  | entry :: rest =>
    if entry.value.signature.le new.value.signature then entry :: insertOrdered new rest
    else new :: entry :: rest

/-- **Registers a macro.**  An overload whose parameters are alike one by one is a duplicate. -/
def add (registry : MacroRegistry) (new : Shared MacroDefinition) : Except Report MacroRegistry :=
  match (registry.group new.value.signature).find? fun entry =>
      alikeParameters entry.value.parameters new.value.parameters with
  | some existing => .error (Report.of (.duplicateMacro existing.value.header))
  | none => .ok ⟨insertOrdered new registry.definitions⟩

/-- Takes every macro of a name and of the given kinds away; answers how many there were. -/
def remove (registry : MacroRegistry) (name : String) (kinds : List MacroKind) :
    Nat × MacroRegistry :=
  let (removed, kept) := registry.definitions.partition fun entry =>
    entry.value.signature.name = name && kinds.contains entry.value.signature.kind
  (removed.length, ⟨kept⟩)

/-- Takes this very macro away; answers whether it was there. -/
def removeDefinition (registry : MacroRegistry) (old : Shared MacroDefinition) :
    Bool × MacroRegistry :=
  (registry.definitions.any old.is, ⟨registry.definitions.filter fun entry => !old.is entry⟩)

/-- One step of copying: a macro that is already there is passed over, a duplicate of another one
is noted. -/
def copyOne (state : List Report × MacroRegistry) (entry : Shared MacroDefinition) :
    List Report × MacroRegistry :=
  let (conflicts, registry) := state
  if registry.definitions.any entry.is then state
  else match registry.add entry with
    | .ok registry => (conflicts, registry)
    | .error report => (conflicts ++ [report], registry)

/-- **Registers everything another registry holds**, as far as it is no duplicate; answers the
conflicts. -/
def copyFrom (registry other : MacroRegistry) : List Report × MacroRegistry :=
  other.definitions.foldl copyOne ([], registry)

/-! ## The choice of an overload -/

/-- The overloads that admit an invocation, with their scores. -/
def admitting (overloads : List (Shared MacroDefinition)) (argument : Node) :
    List (Nat × Shared MacroDefinition) :=
  overloads.filterMap fun entry => (entry.value.score argument).map fun score => (score, entry)

/-- **The macro that an invocation means**: nothing when its signature has none, the overload of
the least score otherwise.  It is a mistake when no overload admits the invocation, and when
several have the least score. -/
def resolve (registry : MacroRegistry) (name : String) (kind : MacroKind) (argument : Node) :
    Except Report (Option (Shared MacroDefinition)) :=
  let overloads := registry.group ⟨name, kind⟩
  if overloads.isEmpty then .ok none
  else
    let scored := admitting overloads argument
    match (scored.map Prod.fst).min? with
    | none =>
      .error (Report.of (.wrongUsage name ((registry.named name).map (·.value.header))))
    | some best =>
      match (scored.filter fun entry => entry.1 = best).map Prod.snd with
      | [winner] => .ok (some winner)
      | winners => .error (Report.of (.ambiguousInvocation name (winners.map (·.value.header))))

end MacroRegistry

end TreeLang
