import Mathlib.Data.List.Pairwise
import Mathlib.Tactic.Common
import TreeLang.Operator.Registry

/-!
# Registries without conflicts

An operator enters a registry only if it is in conflict with none that is there, and every other
operation only takes operators away.  So the operators of any registry that the operations build
are free of conflicts among each other, and its groups are what a climb needs: each has one fixity
and one associativity, and they come in the strict order of their priorities.

* `OperatorRegistry.Compatible`, `OperatorRegistry.Consistent` — freedom from conflicts.
* `OperatorRegistry.Reachable` — the registries that the operations build.
* **`consistent_of_reachable`** — they are free of conflicts.
* `sorted_priorityGroups`, `exists_group`, `fixity_of_mem_group` — what this says of the groups.
-/

namespace TreeLang

namespace OperatorRegistry

/-! ## Freedom from conflicts -/

/-- Two operators between which there is no conflict. -/
def Compatible (a b : OperatorDefinition) : Prop :=
  (a.name = b.name → a.keyword = b.keyword ∧ a.fixity ≠ b.fixity ∧
    ¬ (a.fixity = .binary ∧ b.fixity = .postfixed) ∧
    ¬ (a.fixity = .postfixed ∧ b.fixity = .binary)) ∧
  (a.priority = b.priority → a.fixity = b.fixity ∧
    (a.fixity = .binary → a.rightAssociative = b.rightAssociative))

instance (a b : OperatorDefinition) : Decidable (Compatible a b) :=
  inferInstanceAs (Decidable (_ ∧ _))

lemma Compatible.symm {a b : OperatorDefinition} (h : Compatible a b) : Compatible b a := by
  obtain ⟨names, priorities⟩ := h
  refine ⟨fun same => ?_, fun same => ?_⟩
  · obtain ⟨sort, fixity, first, second⟩ := names same.symm
    exact ⟨sort.symm, fixity.symm, fun h => second h.symm, fun h => first h.symm⟩
  · obtain ⟨fixity, associativity⟩ := priorities same.symm
    exact ⟨fixity.symm, fun binary => (associativity (fixity ▸ binary)).symm⟩

instance : Std.Symm Compatible := ⟨fun _ _ h => h.symm⟩

/-- **A registry without conflicts**: its operators are compatible, and their priorities are
numbers. -/
structure Consistent (registry : OperatorRegistry) : Prop where
  compatible : registry.definitions.Pairwise Compatible
  finite : ∀ op ∈ registry.definitions, op.priority.isFinite

/-- The registries that the operations build. -/
inductive Reachable : OperatorRegistry → Prop
  | empty : Reachable .empty
  | defaults : Reachable .defaults
  | add {registry larger : OperatorRegistry} {op : OperatorDefinition}
      (reachable : Reachable registry) (added : registry.add op = .ok larger) : Reachable larger
  | remove {registry : OperatorRegistry} (name : String) (keyword : Bool)
      (reachable : Reachable registry) : Reachable (registry.remove name keyword).2
  | removeDefinition {registry : OperatorRegistry} (op : OperatorDefinition)
      (reachable : Reachable registry) : Reachable (registry.removeDefinition op).2
  | copyFrom {registry : OperatorRegistry} (other : OperatorRegistry)
      (reachable : Reachable registry) : Reachable (registry.copyFrom other).2

lemma compatible_of_nameConflict? {new existing : OperatorDefinition}
    (none : nameConflict? new existing = none) :
    existing.keyword = new.keyword ∧ existing.fixity ≠ new.fixity ∧
      ¬ (existing.fixity = .binary ∧ new.fixity = .postfixed) ∧
      ¬ (existing.fixity = .postfixed ∧ new.fixity = .binary) := by
  simp only [nameConflict?] at none
  split_ifs at none with sort fixity
  refine ⟨by simpa using sort, fixity, ?_, ?_⟩ <;> rintro ⟨first, second⟩ <;>
    simp [first, second] at none

lemma compatible_of_priorityConflict? {new existing : OperatorDefinition}
    (none : priorityConflict? new existing = none) :
    existing.fixity = new.fixity ∧
      (existing.fixity = .binary → existing.rightAssociative = new.rightAssociative) := by
  simp only [priorityConflict?] at none
  split_ifs at none with fixity associativity
  have same : existing.fixity = new.fixity := by simpa using fixity
  refine ⟨same, fun binary => ?_⟩
  by_contra different
  exact associativity ⟨same ▸ binary, different⟩

/-- An operator that enters is in conflict with none that is there. -/
lemma compatible_of_conflict? {registry : OperatorRegistry} {op : OperatorDefinition}
    (none : registry.conflict? op = none) :
    op.priority.isFinite ∧ ∀ existing ∈ registry.definitions, Compatible existing op := by
  simp only [conflict?] at none
  split_ifs at none with finite
  have finite : op.priority.isFinite := by simpa using finite
  obtain ⟨names, priorities⟩ := Option.or_eq_none_iff.mp none
  rw [List.findSome?_eq_none_iff] at names priorities
  obtain ⟨rank, hrank⟩ : ∃ rank, op.priority = .finite rank := by
    cases h : op.priority <;> simp_all [Priority.isFinite]
  refine ⟨finite, fun existing member => ⟨fun same => ?_, fun same => ?_⟩⟩
  · exact compatible_of_nameConflict? (names existing (List.mem_filter.mpr ⟨member, by simp [same]⟩))
  · refine compatible_of_priorityConflict? (priorities existing (List.mem_filter.mpr ⟨member, ?_⟩))
    rw [hrank, Priority.agrees_finite_iff, ← hrank, same]

namespace Consistent

variable {registry : OperatorRegistry}

lemma empty : Consistent .empty := ⟨.nil, by simp [OperatorRegistry.empty]⟩

lemma defaults : Consistent .defaults := ⟨by decide +kernel, by decide +kernel⟩

/-- Fewer operators have fewer conflicts. -/
lemma sublist (consistent : registry.Consistent) {definitions : List OperatorDefinition}
    (fewer : definitions.Sublist registry.definitions) : Consistent ⟨definitions⟩ :=
  ⟨consistent.compatible.sublist fewer, fun op member => consistent.finite op (fewer.mem member)⟩

lemma add (consistent : registry.Consistent) {larger : OperatorRegistry} {op : OperatorDefinition}
    (added : registry.add op = .ok larger) : larger.Consistent := by
  rw [OperatorRegistry.add] at added
  split at added
  · cases added
  · rename_i none
    obtain ⟨finite, compatible⟩ := compatible_of_conflict? none
    cases added
    refine ⟨List.pairwise_append.mpr ⟨consistent.compatible, List.pairwise_singleton _ _, ?_⟩, ?_⟩
    · intro existing member other isOp
      rw [List.mem_singleton.mp isOp]
      exact compatible existing member
    · intro other member
      rcases List.mem_append.mp member with member | isOp
      · exact consistent.finite other member
      · rw [List.mem_singleton.mp isOp]
        exact finite

lemma copyFrom (consistent : registry.Consistent) (other : OperatorRegistry) :
    (registry.copyFrom other).2.Consistent := by
  have steps : ∀ (ops : List OperatorDefinition) (state : List OperatorConflict × OperatorRegistry),
      state.2.Consistent → (ops.foldl copyOne state).2.Consistent := by
    intro ops
    induction ops with
    | nil => exact fun _ h => h
    | cons op rest ih =>
      intro state h
      refine ih _ ?_
      simp only [copyOne]
      split
      · exact h
      · split
        · rename_i added
          exact h.add added
        · exact h
  exact steps _ _ consistent

end Consistent

/-- **The registries that the operations build are free of conflicts.** -/
theorem consistent_of_reachable {registry : OperatorRegistry} (reachable : registry.Reachable) :
    registry.Consistent := by
  induction reachable with
  | empty => exact .empty
  | defaults => exact .defaults
  | add _ added ih => exact ih.add added
  | remove name keyword _ ih =>
    rw [remove, List.partition_eq_filter_filter]
    exact ih.sublist List.filter_sublist
  | removeDefinition op _ ih => exact ih.sublist List.filter_sublist
  | copyFrom other _ ih => exact ih.copyFrom other

/-! ## Groups -/

section

variable {registry : OperatorRegistry}

/-- Without repetitions a list is no longer, and nothing occurs twice in it. -/
lemma eraseDups_nodup {α : Type} [DecidableEq α] (items : List α) :
    items.eraseDups.Nodup ∧ items.eraseDups.length ≤ items.length := by
  match items with
  | [] => simp
  | item :: rest =>
    have shorter : (rest.filter fun other => !other == item).length ≤ rest.length :=
      List.length_filter_le _ _
    obtain ⟨nodup, length⟩ := eraseDups_nodup (rest.filter fun other => !other == item)
    rw [List.eraseDups_cons]
    refine ⟨List.nodup_cons.mpr ⟨by simp, nodup⟩, ?_⟩
    simp only [List.length_cons]
    omega
termination_by items.length
decreasing_by
  simp only [List.length_cons]
  omega

lemma length_priorityGroups_le (registry : OperatorRegistry) :
    registry.priorityGroups.length ≤ registry.definitions.length := by
  simp only [priorityGroups]
  refine Nat.le_trans (List.length_filterMap_le _ _) ?_
  rw [List.length_mergeSort]
  exact Nat.le_trans (eraseDups_nodup _).2 (Nat.le_of_eq (by rw [List.length_map]))

/-- What a group says of itself. -/
lemma group?_eq_some {priority : Priority} {group : PriorityGroup}
    (h : registry.group? priority = some group) :
    group.priority = priority ∧
      group.operators = registry.definitions.filter (·.priority = priority) ∧
      ∃ first ∈ group.operators, group.fixity = first.fixity ∧
        group.rightAssociative = first.rightAssociative := by
  simp only [group?] at h
  split at h
  · cases h
  · rename_i first rest hfilter
    cases h
    exact ⟨rfl, hfilter.symm, first, List.mem_cons_self, rfl, rfl⟩

lemma group?_of_mem_priorityGroups {group : PriorityGroup}
    (member : group ∈ registry.priorityGroups) :
    registry.group? group.priority = some group := by
  simp only [priorityGroups, List.mem_filterMap, List.mem_mergeSort] at member
  obtain ⟨priority, -, h⟩ := member
  rwa [(group?_eq_some h).1]

/-- A group holds the operators of its priority. -/
lemma mem_operators_iff {group : PriorityGroup} (member : group ∈ registry.priorityGroups)
    {op : OperatorDefinition} :
    op ∈ group.operators ↔ op ∈ registry.definitions ∧ op.priority = group.priority := by
  rw [(group?_eq_some (group?_of_mem_priorityGroups member)).2.1, List.mem_filter,
    decide_eq_true_eq]

/-- Every operator is in a group. -/
lemma exists_group {op : OperatorDefinition} (member : op ∈ registry.definitions) :
    ∃ group ∈ registry.priorityGroups, group.priority = op.priority := by
  have listed : op ∈ registry.definitions.filter (·.priority = op.priority) :=
    List.mem_filter.mpr ⟨member, by simp⟩
  obtain ⟨group, hgroup⟩ : ∃ group, registry.group? op.priority = some group := by
    simp only [group?]
    split
    · rename_i hfilter
      rw [hfilter] at listed
      cases listed
    · exact ⟨_, rfl⟩
  refine ⟨group, ?_, (group?_eq_some hgroup).1⟩
  simp only [priorityGroups, List.mem_filterMap, List.mem_mergeSort, List.mem_eraseDups,
    List.mem_map]
  exact ⟨op.priority, ⟨op, member, rfl⟩, hgroup⟩

/-- The order of numbers, which the ranks of priorities are. -/
def ranksInOrder (a b : Int) : Bool :=
  !decide (b < a)

/-- **The groups stand in the strict order of their priorities.** -/
theorem sorted_priorityGroups (consistent : registry.Consistent) :
    registry.priorityGroups.Pairwise fun a b => a.priority.precedes b.priority := by
  set priorities := (registry.definitions.map (·.priority)).eraseDups with hpriorities
  -- Every priority is a number, so that they are sorted as numbers are.
  obtain ⟨ranks, hranks⟩ : ∃ ranks : List Int, priorities = ranks.map .finite := by
    have finite : ∀ priority ∈ priorities, ∃ rank, priority = .finite rank := by
      intro priority member
      rw [hpriorities, List.mem_eraseDups, List.mem_map] at member
      obtain ⟨op, member, rfl⟩ := member
      have finite := consistent.finite op member
      cases h : op.priority <;> simp_all [Priority.isFinite]
    clear_value priorities
    clear hpriorities
    induction priorities with
    | nil => exact ⟨[], rfl⟩
    | cons priority rest ih =>
      obtain ⟨ranks, hranks⟩ := ih fun p member => finite p (List.mem_cons_of_mem _ member)
      obtain ⟨rank, rfl⟩ := finite priority List.mem_cons_self
      exact ⟨rank :: ranks, by rw [hranks, List.map_cons]⟩
  have nodup : ranks.Nodup := by
    have nodup := (eraseDups_nodup (registry.definitions.map (·.priority))).1
    rw [← hpriorities, hranks] at nodup
    exact List.Pairwise.of_map Priority.finite (fun a b differ same => differ (by rw [same])) nodup
  have sorted : (ranks.mergeSort ranksInOrder).Pairwise (· < ·) := by
    have weakly : (ranks.mergeSort ranksInOrder).Pairwise fun a b => ranksInOrder a b :=
      List.pairwise_mergeSort (by simp only [ranksInOrder]; intro a b c; simp; omega)
        (by simp only [ranksInOrder]; intro a b; simp; omega) _
    have distinct : (ranks.mergeSort ranksInOrder).Nodup :=
      (List.mergeSort_perm ranks ranksInOrder).nodup_iff.mpr nodup
    refine (weakly.and distinct).imp fun {a b} h => ?_
    obtain ⟨le, ne⟩ := h
    simp only [ranksInOrder, Bool.not_eq_true', decide_eq_false_iff_not] at le
    omega
  have same : (priorities.mergeSort fun a b => !b.precedes a)
      = (ranks.mergeSort ranksInOrder).map .finite := by
    have ranked : ∀ a ∈ ranks, ∀ b ∈ ranks,
        ranksInOrder a b = !(Priority.finite b).precedes (.finite a) := fun a _ b _ => rfl
    rw [hranks, List.map_mergeSort (s := fun a b : Priority => !b.precedes a) ranked]
  simp only [priorityGroups]
  rw [← hpriorities, same]
  rw [List.pairwise_filterMap, List.pairwise_map]
  refine sorted.imp fun less group hgroup other hother => ?_
  rw [(group?_eq_some hgroup).1, (group?_eq_some hother).1]
  simpa [Priority.precedes] using less

/-- Two operators of a registry that are not the same are compatible. -/
lemma Consistent.compatible_of_ne (consistent : registry.Consistent) {a b : OperatorDefinition}
    (ha : a ∈ registry.definitions) (hb : b ∈ registry.definitions) (ne : a ≠ b) :
    Compatible a b :=
  consistent.compatible.forall ha hb ne

/-- The operators of a group share its fixity, and its associativity when they are binary. -/
lemma Consistent.shared_of_mem_group (consistent : registry.Consistent) {group : PriorityGroup}
    (member : group ∈ registry.priorityGroups) {op : OperatorDefinition}
    (within : op ∈ group.operators) :
    op.fixity = group.fixity ∧
      (op.fixity = .binary → op.rightAssociative = group.rightAssociative) := by
  obtain ⟨-, -, first, hfirst, fixity, associativity⟩ :=
    group?_eq_some (group?_of_mem_priorityGroups member)
  rw [fixity, associativity]
  by_cases same : op = first
  · rw [same]
    exact ⟨rfl, fun _ => rfl⟩
  · rw [mem_operators_iff member] at within hfirst
    exact (consistent.compatible_of_ne within.1 hfirst.1 same).2
      (within.2.trans hfirst.2.symm)

/-- In another group that is looked at behind an operand a binary operator is not found. -/
lemma Consistent.find?_eq_none (consistent : registry.Consistent) {group : PriorityGroup}
    (member : group ∈ registry.priorityGroups) (behind : group.fixity ≠ .prefixed)
    {op : OperatorDefinition} (registered : op ∈ registry.definitions)
    (binary : op.fixity = .binary) (elsewhere : op.priority ≠ group.priority) :
    group.find? op.name op.keyword = none := by
  cases hfind : group.find? op.name op.keyword with
  | none => rfl
  | some found =>
    exfalso
    have hfound := List.mem_of_find?_eq_some hfind
    have alike := List.find?_some hfind
    simp only [Bool.and_eq_true, decide_eq_true_eq] at alike
    have shared := (consistent.shared_of_mem_group member hfound).1
    rw [mem_operators_iff member] at hfound
    have differ : found ≠ op := fun same => elsewhere (same ▸ hfound.2)
    obtain ⟨-, fixity, -, postfixed⟩ :=
      (consistent.compatible_of_ne hfound.1 registered differ).1 alike.1
    cases hfixity : found.fixity with
    | binary => exact fixity (hfixity.trans binary.symm)
    | prefixed => exact behind (shared ▸ hfixity)
    | postfixed => exact postfixed ⟨hfixity, binary⟩

end

end OperatorRegistry

end TreeLang
