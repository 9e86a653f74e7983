import Mathlib.Data.List.Forall2
import Mathlib.Order.Basic
import TreeLang.Definitions

/-!
# Definitions up to their identities

Two sets of definitions that were made in different runs of the compiler may say the same and still
differ in the identities of their macros.  What counts is the pattern: which macros are the same and
which are only alike.  A pairing of identities keeps track of it, and every operation on definitions
does the same on both sides of a pairing that is one to one.

* `Pairing`, `Pairing.OneToOne` — which identities correspond to each other.
* `Shared.Paired`, **`Definitions.Matched`** — values, and sets of definitions, that correspond.
* `Matched.copyFrom`, `Matched.removeAll`, … — the operations.
* `Definitions.Same` — sets that differ in identities alone.
-/

namespace TreeLang

/-! ## Pairings -/

/-- Which identities of one run correspond to which of another. -/
abbrev Pairing := Nat → Nat → Prop

namespace Pairing

/-- **Identities that differ correspond to ones that differ.** -/
structure OneToOne (R : Pairing) : Prop where
  rightUnique : ∀ ⦃a b c⦄, R a b → R a c → b = c
  leftUnique : ∀ ⦃a b c⦄, R a c → R b c → a = b

lemma OneToOne.eq_iff {R : Pairing} (one : R.OneToOne) {a b c d : Nat} (first : R a b)
    (second : R c d) : a = c ↔ b = d := by
  constructor
  · rintro rfl
    exact one.rightUnique first second
  · rintro rfl
    exact one.leftUnique first second

/-- The pairing in which nothing corresponds. -/
def empty : Pairing := fun _ _ => False

/-- A pairing with one more pair. -/
def insert (R : Pairing) (a b : Nat) : Pairing := fun c d => R c d ∨ (c = a ∧ d = b)

lemma le_insert (R : Pairing) (a b : Nat) : R ≤ R.insert a b := fun _ _ => .inl

/-- Two identities that correspond to none may correspond to each other. -/
lemma OneToOne.insert {R : Pairing} (one : R.OneToOne) {a b : Nat} (left : ∀ c, ¬ R a c)
    (right : ∀ c, ¬ R c b) : (R.insert a b).OneToOne where
  rightUnique := by
    rintro c d e (h | ⟨rfl, rfl⟩) (h' | ⟨h', rfl⟩)
    · exact one.rightUnique h h'
    · exact absurd (h' ▸ h) (left _)
    · exact absurd h' (left _)
    · rfl
  leftUnique := by
    rintro c d e (h | ⟨rfl, rfl⟩) (h' | ⟨rfl, h'⟩)
    · exact one.leftUnique h h'
    · exact absurd (h' ▸ h) (right _)
    · exact absurd h' (right _)
    · rfl

end Pairing

variable {α : Type} {R R' : Pairing}

/-! ## Values and registries -/

/-- Two values that correspond: they are equal, and so do their identities. -/
def Shared.Paired (R : Pairing) (a b : Shared α) : Prop :=
  R a.identity b.identity ∧ a.value = b.value

lemma Shared.Paired.mono {a b : Shared α} (paired : a.Paired R b) (le : R ≤ R') : a.Paired R' b :=
  ⟨le _ _ paired.1, paired.2⟩

namespace MacroRegistry

/-- What a registry says, whatever the identities of its macros. -/
def values (registry : MacroRegistry) : List MacroDefinition :=
  registry.definitions.map (·.value)

/-- Registers a macro as far as it is no duplicate; answers the conflict if there is one. -/
def enlist (registry : MacroRegistry) (new : Shared MacroDefinition) :
    Option Report × MacroRegistry :=
  match registry.add new with
  | .error report => (some report, registry)
  | .ok registry => (none, registry)

/-- Registries that correspond, entry by entry. -/
def Matched (R : Pairing) (a b : MacroRegistry) : Prop :=
  List.Forall₂ (Shared.Paired R) a.definitions b.definitions

namespace Matched

variable {a b c d : MacroRegistry} {new new' : Shared MacroDefinition}

lemma mono (matched : a.Matched R b) (le : R ≤ R') : a.Matched R' b :=
  List.Forall₂.imp (fun _ _ paired => paired.mono le) matched

lemma values_eq (matched : a.Matched R b) : a.values = b.values :=
  List.forall₂_eq_eq_eq ▸ List.forall₂_map_left_iff.mpr (List.forall₂_map_right_iff.mpr
    (List.Forall₂.imp (fun _ _ paired => paired.2) matched))

/-- What is said of the identities of a registry is all that counts of a pairing. -/
lemma change (matched : a.Matched R b)
    (h : ∀ entry ∈ a.definitions, ∀ n, R entry.identity n → R' entry.identity n) :
    a.Matched R' b := by
  rw [Matched] at matched ⊢
  generalize a.definitions = entries, b.definitions = others at matched h
  induction matched with
  | nil => exact .nil
  | cons paired _ ih =>
    refine .cons ⟨h _ List.mem_cons_self _ paired.1, paired.2⟩ (ih fun entry mem => ?_)
    exact h entry (List.mem_cons_of_mem _ mem)

lemma exists_paired (matched : a.Matched R b) {entry : Shared MacroDefinition}
    (mem : entry ∈ a.definitions) : ∃ other, entry.Paired R other := by
  rw [Matched] at matched
  generalize a.definitions = entries, b.definitions = others at matched mem
  induction matched with
  | nil => cases mem
  | cons paired _ ih =>
    cases mem with
    | head => exact ⟨_, paired⟩
    | tail _ mem => exact ih mem

lemma insertOrdered {entries others : List (Shared MacroDefinition)}
    (matched : List.Forall₂ (Shared.Paired R) entries others) (paired : new.Paired R new') :
    List.Forall₂ (Shared.Paired R) (insertOrdered new entries) (insertOrdered new' others) := by
  induction matched with
  | nil => exact .cons paired .nil
  | cons first rest ih =>
    rw [MacroRegistry.insertOrdered, MacroRegistry.insertOrdered, first.2, paired.2]
    split
    · exact .cons first ih
    · exact .cons paired (.cons first rest)

/-- A macro clashes with another one on both sides or on neither. -/
lemma clash_eq (registry : MacroRegistry) (new : MacroDefinition) :
    ((registry.group new.signature).find? fun entry =>
        alikeParameters entry.value.parameters new.parameters).map (·.value)
      = (registry.values.filter (fun value => value.signature = new.signature)).find?
        fun value => alikeParameters value.parameters new.parameters := by
  rw [values, List.filter_map, List.find?_map]
  rfl

/-- **Registering the same macro on both sides** succeeds on both, or fails with one report. -/
theorem add (matched : a.Matched R b) (paired : new.Paired R new') :
    (∃ a' b', a.add new = .ok a' ∧ b.add new' = .ok b' ∧ a'.Matched R b') ∨
      ∃ report, a.add new = .error report ∧ b.add new' = .error report := by
  have clash := clash_eq a new.value
  rw [matched.values_eq, paired.2, ← clash_eq] at clash
  rw [MacroRegistry.add, MacroRegistry.add, ← paired.2]
  rw [← paired.2] at clash
  cases first : (a.group new.value.signature).find? fun entry =>
      alikeParameters entry.value.parameters new.value.parameters with
  | none =>
    rw [first] at clash
    rw [Option.map_eq_none_iff.mp clash.symm]
    exact .inl ⟨_, _, rfl, rfl, insertOrdered matched paired⟩
  | some existing =>
    rw [first] at clash
    obtain ⟨other, second, same⟩ := Option.map_eq_some_iff.mp clash.symm
    have same : other.value = existing.value := same
    refine .inr ⟨_, rfl, ?_⟩
    rw [second]
    show Except.error (Report.of (.duplicateMacro other.value.header)) = _
    rw [same]

lemma enlist (matched : a.Matched R b) (paired : new.Paired R new') :
    (a.enlist new).1 = (b.enlist new').1 ∧ (a.enlist new).2.Matched R (b.enlist new').2 := by
  rw [MacroRegistry.enlist, MacroRegistry.enlist]
  obtain ⟨a', b', first, second, matched⟩ | ⟨report, first, second⟩ := matched.add paired <;>
    rw [first, second]
  · exact ⟨rfl, matched⟩
  · exact ⟨rfl, matched⟩

lemma is_eq (one : R.OneToOne) {first second first' second' : Shared MacroDefinition}
    (paired : first.Paired R first') (other : second.Paired R second') :
    first.is second = first'.is second' := by
  rw [Shared.is, Shared.is, decide_eq_decide]
  exact one.eq_iff paired.1 other.1

lemma any_is (one : R.OneToOne) (matched : a.Matched R b) (paired : new.Paired R new') :
    a.definitions.any new.is = b.definitions.any new'.is := by
  rw [Matched] at matched
  generalize a.definitions = entries, b.definitions = others at matched
  induction matched with
  | nil => rfl
  | cons first _ ih => rw [List.any_cons, List.any_cons, is_eq one paired first, ih]

/-- What copying one macro after the other comes to, on both sides. -/
def Copied (R : Pairing) (first second : List Report × MacroRegistry) : Prop :=
  first.1 = second.1 ∧ first.2.Matched R second.2

lemma copyOne (one : R.OneToOne) {first second : List Report × MacroRegistry}
    (copied : Copied R first second) (paired : new.Paired R new') :
    Copied R (copyOne first new) (copyOne second new') := by
  obtain ⟨conflicts, a⟩ := first
  obtain ⟨_, b⟩ := second
  obtain ⟨rfl, matched⟩ := copied
  rw [MacroRegistry.copyOne, MacroRegistry.copyOne]
  dsimp only
  rw [any_is one matched paired]
  split
  · exact ⟨rfl, matched⟩
  · obtain ⟨a', b', first, second, matched⟩ | ⟨report, first, second⟩ := matched.add paired <;>
      rw [first, second]
    · exact ⟨rfl, matched⟩
    · exact ⟨rfl, matched⟩

lemma copyFrom (one : R.OneToOne) (matched : a.Matched R b) (other : c.Matched R d) :
    Copied R (a.copyFrom c) (b.copyFrom d) := by
  have start : Copied R ([], a) ([], b) := ⟨rfl, matched⟩
  have step : Relator.LiftFun (Copied R) (Relator.LiftFun (Shared.Paired R) (Copied R))
      MacroRegistry.copyOne MacroRegistry.copyOne :=
    fun _ _ copied _ _ paired => copyOne one copied paired
  exact List.rel_foldl step start other

lemma remove (matched : a.Matched R b) (name : String) (kinds : List MacroKind) :
    (a.remove name kinds).1 = (b.remove name kinds).1 ∧
      (a.remove name kinds).2.Matched R (b.remove name kinds).2 := by
  let named (entry : Shared MacroDefinition) : Bool :=
    entry.value.signature.name = name && kinds.contains entry.value.signature.kind
  have same {first second : Shared MacroDefinition} (paired : first.Paired R second) :
      named first = named second := by
    simp only [named, paired.2]
  simp only [MacroRegistry.remove, List.partition_eq_filter_filter]
  refine ⟨(List.rel_filter (fun _ _ paired => ?_) matched).length_eq,
    List.rel_filter (fun _ _ paired => ?_) matched⟩
  · exact iff_of_eq (congrArg (· = true) (same paired))
  · exact iff_of_eq (congrArg (fun named => (!named) = true) (same paired))

lemma removeDefinition (one : R.OneToOne) (matched : a.Matched R b) (paired : new.Paired R new') :
    (a.removeDefinition new).1 = (b.removeDefinition new').1 ∧
      (a.removeDefinition new).2.Matched R (b.removeDefinition new').2 := by
  refine ⟨any_is one matched paired, List.rel_filter (fun _ _ other => ?_) matched⟩
  exact iff_of_eq (congrArg (fun same => (!same) = true) (is_eq one paired other))

/-- Removing one macro after the other, while those that were there are counted. -/
lemma removeEach (one : R.OneToOne) (matched : a.Matched R b) (other : c.Matched R d)
    {step : Nat × MacroRegistry → Shared MacroDefinition → Nat × MacroRegistry}
    (h : ∀ state entry, step state entry =
      (if (state.2.removeDefinition entry).1 then state.1 + 1 else state.1,
        (state.2.removeDefinition entry).2)) (count : Nat) :
    (c.definitions.foldl step (count, a)).1 = (d.definitions.foldl step (count, b)).1 ∧
      (c.definitions.foldl step (count, a)).2.Matched R
        (d.definitions.foldl step (count, b)).2 := by
  rw [Matched] at other
  generalize c.definitions = entries, d.definitions = others at other
  induction other generalizing a b count with
  | nil => exact ⟨rfl, matched⟩
  | cons paired _ ih =>
    obtain ⟨there, rest⟩ := removeDefinition one matched paired
    rw [List.foldl_cons, List.foldl_cons, h, h, there]
    exact ih rest _

end Matched

end MacroRegistry

/-- Registers an operator as far as nothing is in its way; answers the conflict if there is one. -/
def OperatorRegistry.enlist (registry : OperatorRegistry) (op : OperatorDefinition) :
    Option OperatorConflict × OperatorRegistry :=
  match registry.add op with
  | .error conflict => (some conflict, registry)
  | .ok registry => (none, registry)

/-! ## Sets of definitions -/

namespace Definitions

/-- **Sets of definitions that correspond.** -/
structure Matched (R : Pairing) (a b : Definitions) : Prop where
  macros : a.macros.Matched R b.macros
  operators : a.operators = b.operators

/-- **Definitions that differ in identities alone.** -/
structure Same (a b : Definitions) : Prop where
  macros : b.macros.values = a.macros.values
  operators : b.operators = a.operators

lemma Same.refl (a : Definitions) : a.Same a := ⟨rfl, rfl⟩

namespace Matched

variable {a b c d : Definitions}

lemma mono (matched : a.Matched R b) (le : R ≤ R') : a.Matched R' b :=
  ⟨matched.macros.mono le, matched.operators⟩

lemma same (matched : a.Matched R b) : a.Same b :=
  ⟨matched.macros.values_eq.symm, matched.operators.symm⟩

/-- Without macros there is nothing to pair. -/
lemma of_operators (operators : OperatorRegistry) :
    Matched R ⟨.empty, operators⟩ ⟨.empty, operators⟩ :=
  ⟨.nil, rfl⟩

/-- **Copying corresponding sets** meets the same conflicts and leads to corresponding sets. -/
theorem copyFrom (one : R.OneToOne) (matched : a.Matched R b) (other : c.Matched R d) :
    (a.copyFrom c).1 = (b.copyFrom d).1 ∧ (a.copyFrom c).2.Matched R (b.copyFrom d).2 := by
  obtain ⟨conflicts, macros⟩ := matched.macros.copyFrom one other.macros
  simp only [Definitions.copyFrom, conflicts, matched.operators, other.operators, true_and]
  exact ⟨macros, rfl⟩

/-- **Removing corresponding sets** takes as many definitions and leads to corresponding sets. -/
theorem removeAll (one : R.OneToOne) (matched : a.Matched R b) (other : c.Matched R d) :
    (a.removeAll c).1 = (b.removeAll d).1 ∧ (a.removeAll c).2.Matched R (b.removeAll d).2 := by
  obtain ⟨count, macros⟩ :=
    MacroRegistry.Matched.removeEach one matched.macros other.macros (fun _ _ => rfl) 0
  simp only [Definitions.removeAll, matched.operators, other.operators]
  exact ⟨congrArg (· + _) count, macros, rfl⟩

end Matched

end Definitions

end TreeLang
