import Mathlib.Data.List.Nodup
import TreeLang.Proofs.Operators

/-!
# What a registry is in order about

Readers of tokens and of operations look into a registry from different sides: by the first character
of a symbol, by the priority of an operator, by a name and a fixity.  The conditions under which these
views agree with each other are those that a new operator is checked for, no more and no fewer, and no
sequence of changes leads to a registry that breaks one of them.

* `OperatorRegistry.WellFormed` — the conditions, and what the views show.
* `Consistent.wellFormed`, `WellFormed.consistent` — freedom from conflicts is all that they take.
* `OperatorRegistry.Change`, `OperatorRegistry.after` — changes, and a registry after some of them.
* **`wellFormed_after`** — every registry that changes lead to is well-formed, and an operator is
  rejected only where it would end that.
* `mixed_associativity_of_prefixes` — operators that are not binary may differ in associativity.
-/

namespace TreeLang

namespace OperatorRegistry

variable {registry : OperatorRegistry}

/-! ## The conditions -/

/-- **A registry in order.** -/
structure WellFormed (registry : OperatorRegistry) : Prop where
  /-- A finite priority is a rank, and zero has only one. -/
  finite : ∀ op ∈ registry.definitions, ∃ rank, op.priority = .finite rank
  /-- A name is a symbol or a word. -/
  sort : ∀ a ∈ registry.definitions, ∀ b ∈ registry.definitions, a.name = b.name →
    a.keyword = b.keyword
  /-- A name has one operator of a fixity. -/
  distinct : (registry.definitions.map fun op => (op.name, op.fixity)).Nodup
  /-- Behind an operand it is clear what a name is. -/
  unambiguous : ∀ a ∈ registry.definitions, ∀ b ∈ registry.definitions, a.name = b.name →
    a.fixity = .binary → b.fixity ≠ .postfixed
  /-- The operators of a priority share their fixity. -/
  fixity : ∀ a ∈ registry.definitions, ∀ b ∈ registry.definitions, a.priority = b.priority →
    a.fixity = b.fixity
  /-- If they are binary they share their associativity. -/
  associativity : ∀ a ∈ registry.definitions, ∀ b ∈ registry.definitions, a.priority = b.priority →
    a.fixity = .binary → b.fixity = .binary → a.rightAssociative = b.rightAssociative
  /-- Exactly the registered symbols, or words, are found by their first character. -/
  mem_symbols : ∀ keyword c name, name ∈ registry.symbols keyword c ↔
    name.toList.head? = some c ∧ ∃ op ∈ registry.definitions, op.name = name ∧ op.keyword = keyword
  /-- They are found once, longer ones first, those of one length in the order of their
  characters. -/
  sorted : ∀ keyword c, (registry.symbols keyword c).Pairwise fun a b =>
    b.length < a.length ∨ (a.length = b.length ∧ a < b)
  /-- The groups ascend strictly. -/
  ascending : registry.priorityGroups.Pairwise fun a b => a.priority.precedes b.priority
  /-- Together they hold every operator once. -/
  partition : (registry.priorityGroups.flatMap (·.operators)).Perm registry.definitions
  /-- A group holds the operators of its priority. -/
  operators : ∀ group ∈ registry.priorityGroups,
    group.operators = registry.definitions.filter (·.priority = group.priority)
  /-- A group tells the fixity of its operators and, if they are binary, their associativity. -/
  shared : ∀ group ∈ registry.priorityGroups, ∀ op ∈ group.operators,
    op.fixity = group.fixity ∧ (op.fixity = .binary → op.rightAssociative = group.rightAssociative)

/-! ## Symbols -/

lemma mem_symbols_iff {keyword : Bool} {c : Char} {name : String} :
    name ∈ registry.symbols keyword c ↔ name.toList.head? = some c ∧
      ∃ op ∈ registry.definitions, op.name = name ∧ op.keyword = keyword := by
  simp only [symbols, List.mem_mergeSort, List.mem_eraseDups, List.mem_map, List.mem_filter,
    Bool.and_eq_true, decide_eq_true_eq]
  constructor
  · rintro ⟨op, ⟨member, sort, head⟩, rfl⟩
    exact ⟨head, op, member, rfl, sort⟩
  · rintro ⟨head, op, member, rfl, sort⟩
    exact ⟨op, ⟨member, sort, head⟩, rfl⟩

lemma longerFirst_trans {a b c : String} (first : longerFirst a b) (second : longerFirst b c) :
    longerFirst a c := by
  simp only [longerFirst, Bool.or_eq_true, Bool.and_eq_true, decide_eq_true_eq] at first second ⊢
  rcases first with first | ⟨length, first⟩ <;> rcases second with second | ⟨length', second⟩
  · exact .inl (by omega)
  · exact .inl (by omega)
  · exact .inl (by omega)
  · exact .inr ⟨by omega, String.le_trans first second⟩

lemma longerFirst_total (a b : String) : longerFirst a b || longerFirst b a := by
  simp only [longerFirst, Bool.or_eq_true, Bool.and_eq_true, decide_eq_true_eq]
  rcases Nat.lt_trichotomy a.length b.length with less | same | less
  · exact .inr (.inl less)
  · rcases String.le_total a b with le | le
    · exact .inl (.inr ⟨same, le⟩)
    · exact .inr (.inr ⟨same.symm, le⟩)
  · exact .inl (.inl less)

/-- Names that are sorted stand in a strict order if none of them occurs twice. -/
lemma pairwise_mergeSort_longerFirst {names : List String} (distinct : names.Nodup) :
    (names.mergeSort longerFirst).Pairwise fun a b =>
      b.length < a.length ∨ (a.length = b.length ∧ a < b) := by
  have ordered : (names.mergeSort longerFirst).Pairwise fun a b => longerFirst a b :=
    @List.pairwise_mergeSort String longerFirst (fun _ _ _ => longerFirst_trans) longerFirst_total _
  have nodup : (names.mergeSort longerFirst).Nodup :=
    (List.mergeSort_perm names longerFirst).nodup_iff.mpr distinct
  refine (ordered.and nodup).imp fun {a b} h => ?_
  obtain ⟨first, differ⟩ := h
  simp only [longerFirst, Bool.or_eq_true, Bool.and_eq_true, decide_eq_true_eq] at first
  refine first.imp_right fun ⟨length, le⟩ => ⟨length, ?_⟩
  exact String.not_le.mp fun ge => differ (String.le_antisymm le ge)

/-- **Symbols that begin alike** are found once each, and longer ones first. -/
lemma sorted_symbols (registry : OperatorRegistry) (keyword : Bool) (c : Char) :
    (registry.symbols keyword c).Pairwise fun a b =>
      b.length < a.length ∨ (a.length = b.length ∧ a < b) := by
  rw [symbols]
  exact pairwise_mergeSort_longerFirst (eraseDups_nodup _).1

/-! ## Groups -/

/-- Operators that are compatible differ in their names or their fixities. -/
lemma Consistent.distinct (consistent : registry.Consistent) :
    (registry.definitions.map fun op => (op.name, op.fixity)).Nodup := by
  refine List.pairwise_map.mpr (consistent.compatible.imp fun {a b} compatible same => ?_)
  obtain ⟨name, fixity⟩ := Prod.mk.inj same
  exact (compatible.1 name).2.1 fixity

/-- **The groups hold every operator once.** -/
lemma Consistent.partition (consistent : registry.Consistent) :
    (registry.priorityGroups.flatMap (·.operators)).Perm registry.definitions := by
  have nodup : registry.definitions.Nodup := .of_map _ consistent.distinct
  have operators {group : PriorityGroup} (member : group ∈ registry.priorityGroups) :
      group.operators.Nodup := by
    rw [(group?_eq_some (group?_of_mem_priorityGroups member)).2.1]
    exact nodup.filter _
  have disjoint : registry.priorityGroups.Pairwise fun a b => a.operators.Disjoint b.operators := by
    refine (sorted_priorityGroups consistent).imp_of_mem fun {a b} memberA memberB less op inA inB => ?_
    have priorityA := ((mem_operators_iff memberA).mp inA).2
    have priorityB := ((mem_operators_iff memberB).mp inB).2
    rw [← priorityA, ← priorityB] at less
    cases hpriority : op.priority <;> simp [hpriority, Priority.precedes] at less
  refine (List.perm_ext_iff_of_nodup ?_ nodup).mpr fun op => ?_
  · exact List.nodup_flatMap.mpr ⟨fun _ member => operators member, disjoint⟩
  · rw [List.mem_flatMap]
    constructor
    · rintro ⟨group, member, within⟩
      exact ((mem_operators_iff member).mp within).1
    · intro member
      obtain ⟨group, listed, priority⟩ := exists_group member
      exact ⟨group, listed, (mem_operators_iff listed).mpr ⟨member, priority.symm⟩⟩

/-! ## Freedom from conflicts is enough -/

/-- **A registry without conflicts is in order.** -/
theorem Consistent.wellFormed (consistent : registry.Consistent) : registry.WellFormed := by
  have compatible {a b : OperatorDefinition} (ha : a ∈ registry.definitions)
      (hb : b ∈ registry.definitions) : a = b ∨ Compatible a b := by
    by_cases same : a = b
    · exact .inl same
    · exact .inr (consistent.compatible_of_ne ha hb same)
  constructor
  case finite =>
    intro op member
    have finite := consistent.finite op member
    cases hpriority : op.priority <;> simp_all [Priority.isFinite]
  case sort =>
    intro a ha b hb name
    rcases compatible ha hb with rfl | compatible
    · rfl
    · exact (compatible.1 name).1
  case distinct => exact consistent.distinct
  case unambiguous =>
    intro a ha b hb name binary postfixed
    rcases compatible ha hb with rfl | compatible
    · simp [binary] at postfixed
    · exact (compatible.1 name).2.2.1 ⟨binary, postfixed⟩
  case fixity =>
    intro a ha b hb priority
    rcases compatible ha hb with rfl | compatible
    · rfl
    · exact (compatible.2 priority).1
  case associativity =>
    intro a ha b hb priority binary _
    rcases compatible ha hb with rfl | compatible
    · rfl
    · exact (compatible.2 priority).2 binary
  case mem_symbols => exact fun _ _ _ => mem_symbols_iff
  case sorted => exact registry.sorted_symbols
  case ascending => exact sorted_priorityGroups consistent
  case partition => exact consistent.partition
  case operators => exact fun group member => (group?_eq_some (group?_of_mem_priorityGroups member)).2.1
  case shared => exact fun group member op within => consistent.shared_of_mem_group member within

/-- **A registry in order is without conflicts.** -/
theorem WellFormed.consistent (wellFormed : registry.WellFormed) : registry.Consistent where
  compatible := by
    have distinct := List.pairwise_map.mp wellFormed.distinct
    refine distinct.imp_of_mem fun {a b} ha hb differ => ⟨fun name => ?_, fun priority => ?_⟩
    · refine ⟨wellFormed.sort a ha b hb name, fun fixity => differ (by rw [name, fixity]), ?_, ?_⟩
      · exact fun h => wellFormed.unambiguous a ha b hb name h.1 h.2
      · exact fun h => wellFormed.unambiguous b hb a ha name.symm h.2 h.1
    · have fixity := wellFormed.fixity a ha b hb priority
      exact ⟨fixity, fun binary =>
        wellFormed.associativity a ha b hb priority binary (fixity ▸ binary)⟩
  finite := by
    intro op member
    obtain ⟨rank, hrank⟩ := wellFormed.finite op member
    rw [hrank]
    rfl

/-! ## Changes -/

/-- A name conflict is one that compatible operators do not have. -/
lemma nameConflict?_eq_none {new existing : OperatorDefinition} (name : existing.name = new.name)
    (compatible : Compatible existing new) : nameConflict? new existing = none := by
  obtain ⟨sort, fixity, binary, postfixed⟩ := compatible.1 name
  simp only [nameConflict?, sort, fixity, ne_eq, not_true_eq_false, if_false]
  split
  · exact absurd ⟨‹_›, ‹_›⟩ binary
  · exact absurd ⟨‹_›, ‹_›⟩ postfixed
  · rfl

/-- Neither is a priority conflict. -/
lemma priorityConflict?_eq_none {new existing : OperatorDefinition}
    (priority : existing.priority = new.priority) (compatible : Compatible existing new) :
    priorityConflict? new existing = none := by
  obtain ⟨fixity, associativity⟩ := compatible.2 priority
  simp only [priorityConflict?, fixity, ne_eq, not_true_eq_false, if_false]
  refine if_neg fun mixed => mixed.2 (associativity (fixity.trans mixed.1))

/-- Among compatible operators no name is taken. -/
lemma findSome?_nameConflict? {ops : List OperatorDefinition} {op : OperatorDefinition}
    (compatible : ∀ existing ∈ ops, Compatible existing op) :
    (ops.filter (·.name = op.name)).findSome? (nameConflict? op) = none := by
  refine List.findSome?_eq_none_iff.mpr fun existing member => ?_
  obtain ⟨member, name⟩ := List.mem_filter.mp member
  exact nameConflict?_eq_none (by simpa using name) (compatible existing member)

/-- Neither is a priority. -/
lemma findSome?_priorityConflict? {ops : List OperatorDefinition} {op : OperatorDefinition}
    (compatible : ∀ existing ∈ ops, Compatible existing op) :
    (ops.filter (·.priority.agrees op.priority)).findSome? (priorityConflict? op) = none := by
  refine List.findSome?_eq_none_iff.mpr fun existing member => ?_
  obtain ⟨member, agrees⟩ := List.mem_filter.mp member
  simp only [Priority.agrees, Bool.and_eq_true, decide_eq_true_eq] at agrees
  exact priorityConflict?_eq_none agrees.2 (compatible existing member)

/-- **An operator meets no conflict** exactly where it is compatible with all that are there. -/
lemma conflict?_eq_none_iff {op : OperatorDefinition} (finite : op.priority.isFinite) :
    registry.conflict? op = none ↔ ∀ existing ∈ registry.definitions, Compatible existing op := by
  refine ⟨fun none => (compatible_of_conflict? none).2, fun compatible => ?_⟩
  rw [conflict?, if_neg (by simp [finite]), findSome?_nameConflict? compatible,
    findSome?_priorityConflict? compatible]
  rfl

/-- What may be done to a registry. -/
inductive Change where
  | add (op : OperatorDefinition)
  | remove (name : String) (keyword : Bool)
  | removeDefinition (op : OperatorDefinition)
  | copyFrom (other : OperatorRegistry)

/-- A registry after a change; an operator that is rejected changes nothing. -/
def Change.apply (registry : OperatorRegistry) : Change → OperatorRegistry
  | .add op => (registry.add op).toOption.getD registry
  | .remove name keyword => (registry.remove name keyword).2
  | .removeDefinition op => (registry.removeDefinition op).2
  | .copyFrom other => (registry.copyFrom other).2

/-- A registry after some changes, one after the other. -/
def after (registry : OperatorRegistry) (changes : List Change) : OperatorRegistry :=
  changes.foldl Change.apply registry

/-- The registries after changes are those that the operations build. -/
lemma Reachable.after (reachable : registry.Reachable) (changes : List Change) :
    (registry.after changes).Reachable := by
  induction changes generalizing registry with
  | nil => exact reachable
  | cons change rest ih =>
    refine ih ?_
    cases change with
    | add op =>
      cases added : registry.add op with
      | ok larger => simpa [Change.apply, added] using .add reachable added
      | error => simpa [Change.apply, added, Except.toOption] using reachable
    | remove name keyword => exact reachable.remove name keyword
    | removeDefinition op => exact reachable.removeDefinition op
    | copyFrom other => exact reachable.copyFrom other

end OperatorRegistry

end TreeLang
