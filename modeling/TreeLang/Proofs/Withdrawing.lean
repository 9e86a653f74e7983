import TreeLang.Proofs.Copying

/-!
# Taking an import back

Taking a set of definitions back removes whatever of it is there.  A copy of it brought those of its
definitions that met no conflict, and these are found again: macros because each is the very one that
came, operators because no other one is equal to it.  What was there before is none of them, so that it
is left as it was.

* `Ledger.Independent.countP_has` — behind a copy as many are there as met no conflict.
* `foldl_withdraw` — removing one after the other is leaving out all of them.
* `MacroRegistry.removeEach_copyFrom`, `OperatorRegistry.removeEach_copyFrom` — each of the two kinds.
* **`Definitions.removeAll_copyFrom`** — what was copied is removed, and nothing else.
-/

namespace TreeLang

variable {α ρ κ : Type}

/-! ## What is there, and what met a conflict -/

/-- **Each of the entries is there, or met a conflict**, if none of them was there before. -/
lemma Ledger.Independent.countP_has {ledger : Ledger ρ α κ} {apart : α → α → Prop} [Std.Symm apart]
    (independent : ledger.Independent apart) {entries : List α} (ordered : entries.Pairwise apart)
    {registry : ρ} (new : ∀ entry ∈ entries, ledger.has registry entry = false) :
    entries.countP (ledger.has ((entries.filter (ledger.admits registry)).foldl ledger.enter registry))
      + ((entries.filter (ledger.refuses registry)).filterMap (ledger.conflict? registry)).length
      = entries.length := by
  have there : entries.countP
        (ledger.has ((entries.filter (ledger.admits registry)).foldl ledger.enter registry))
      = entries.countP (ledger.admits registry) := by
    refine List.countP_congr fun entry member => ?_
    cases admits : ledger.admits registry entry with
    | true => simp [independent.has_of_admits ordered member admits]
    | false =>
      rw [(independent.judged_of_not_admits ordered member admits).1, new entry member]
  have refused : ((entries.filter (ledger.refuses registry)).filterMap
      (ledger.conflict? registry)).length = entries.countP (!ledger.admits registry ·) := by
    rw [← List.length_map some, ledger.map_some_conflicts, List.length_map, ← List.countP_eq_length_filter]
    refine List.countP_congr fun entry member => ?_
    rw [refuses, admits, new entry member]
    cases ledger.conflict? registry entry <;> simp
  rw [there, refused, List.length_eq_countP_add_countP (ledger.admits registry)]
  simp only [Bool.not_eq_true, Bool.decide_eq_false]

/-! ## Removing one after the other -/

/-- **Removing one after the other is leaving out all of them**, and those that are there at first are
counted, if no entry is two of them. -/
lemma foldl_withdraw {is : α → α → Bool} {make : List α → ρ} {step : Nat × ρ → α → Nat × ρ}
    (h : ∀ count entries old, step (count, make entries) old
      = (if entries.any (is old) then count + 1 else count, make (entries.filter (!is old ·))))
    {olds : List α} (apart : olds.Pairwise fun a b => ∀ entry, is a entry = true → is b entry = false)
    (count : Nat) (entries : List α) :
    olds.foldl step (count, make entries)
      = (count + olds.countP (entries.any <| is ·), make (entries.filter fun entry => !olds.any (is · entry))) := by
  induction olds generalizing count entries with
  | nil => simp
  | cons old rest ih =>
    obtain ⟨front, apart⟩ := List.pairwise_cons.mp apart
    -- That one is gone does not count for the others.
    have others : rest.countP ((entries.filter (!is old ·)).any <| is ·)
        = rest.countP (entries.any <| is ·) := by
      refine List.countP_congr fun other member => ?_
      rw [List.any_filter, List.any_eq_true, List.any_eq_true]
      refine exists_congr fun entry => and_congr_right fun _ => ?_
      have not := front other member entry
      cases old_is : is old entry <;> simp_all
    have left : (fun entry => (!rest.any (is · entry)) && !is old entry)
        = fun entry => !(old :: rest).any (is · entry) := by
      funext entry
      rw [List.any_cons, Bool.not_or, Bool.and_comm]
    rw [List.foldl_cons, h, ih apart, others, List.filter_filter, left, List.countP_cons]
    refine Prod.ext ?_ rfl
    dsimp only
    split <;> omega

namespace MacroRegistry

variable {registry other : MacroRegistry} {entries : List (Shared MacroDefinition)}

/-- What does not look at macros that enter does not see them. -/
lemma filter_foldl_enter {p : Shared MacroDefinition → Bool} (registry : MacroRegistry)
    (aside : ∀ entry ∈ entries, p entry = false) :
    (entries.foldl ledger.enter registry).definitions.filter p = registry.definitions.filter p := by
  induction entries generalizing registry with
  | nil => rfl
  | cons entry rest ih =>
    obtain ⟨first, aside⟩ := List.forall_mem_cons.mp aside
    rw [List.foldl_cons, ih _ aside]
    exact filter_insertOrdered first

/-- **Macros that were copied are found and removed**, and no others: each is removed, or met a conflict
when it was to be copied. -/
theorem removeEach_copyFrom {step : Nat × MacroRegistry → Shared MacroDefinition → Nat × MacroRegistry}
    (h : ∀ state entry, step state entry =
      (if (state.2.removeDefinition entry).1 then state.1 + 1 else state.1,
        (state.2.removeDefinition entry).2))
    (others : other.Orderly)
    (apart : ∀ own ∈ registry.definitions, ∀ entry ∈ other.definitions,
      own.identity ≠ entry.identity) :
    ∃ removed, other.definitions.foldl step (0, (registry.copyFrom other).2) = (removed, registry) ∧
      removed + (registry.copyFrom other).1.length = other.definitions.length := by
  have new : ∀ entry ∈ other.definitions, ledger.has registry entry = false := by
    intro entry member
    refine List.any_eq_false.mpr fun own mem same => ?_
    exact apart own mem entry member (of_decide_eq_true same).symm
  have separate : other.definitions.Pairwise fun a b => ∀ entry, a.is entry = true → b.is entry = false :=
    others.apart.imp fun apart entry same => decide_eq_false fun same' =>
      apart.1 ((of_decide_eq_true same).trans same'.symm)
  have gone : (registry.copyFrom other).2.definitions.filter (fun entry =>
      !other.definitions.any (·.is entry)) = registry.definitions := by
    rw [copyFrom_eq registry others, filter_foldl_enter]
    · refine List.filter_eq_self.mpr fun own mem => ?_
      rw [Bool.not_eq_true', List.any_eq_false]
      exact fun entry member same => apart own mem entry member (of_decide_eq_true same).symm
    · intro entry member
      rw [Bool.not_eq_false', List.any_eq_true]
      exact ⟨entry, List.mem_of_mem_filter member, decide_eq_true rfl⟩
  have each (count : Nat) (entries : List (Shared MacroDefinition)) (old : Shared MacroDefinition) :
      step (count, ⟨entries⟩) old = (if entries.any old.is then count + 1 else count,
        ⟨entries.filter (!old.is ·)⟩) := h (count, ⟨entries⟩) old
  have withdrawn := foldl_withdraw each separate 0 (registry.copyFrom other).2.definitions
  rw [gone, Nat.zero_add] at withdrawn
  refine ⟨_, withdrawn, ?_⟩
  rw [copyFrom_eq registry others]
  exact independent_ledger.countP_has others.apart new

end MacroRegistry

/-- **Operators that were copied are found and removed**, and no others: each is removed, or met a
conflict when it was to be copied. -/
theorem OperatorRegistry.removeEach_copyFrom {registry other : OperatorRegistry}
    {step : Nat × OperatorRegistry → OperatorDefinition → Nat × OperatorRegistry}
    (h : ∀ state op, step state op =
      (if (state.2.removeDefinition op).1 then state.1 + 1 else state.1,
        (state.2.removeDefinition op).2))
    (others : other.Consistent) (apart : ∀ own ∈ registry.definitions, own ∉ other.definitions) :
    ∃ removed, other.definitions.foldl step (0, (registry.copyFrom other).2) = (removed, registry) ∧
      removed + (registry.copyFrom other).1.length = other.definitions.length := by
  have equal {a b : OperatorDefinition} (agrees : a.agrees b = true) : a = b := by
    rw [OperatorDefinition.agrees, Bool.and_eq_true] at agrees
    exact of_decide_eq_true agrees.1
  have new : ∀ op ∈ other.definitions, ledger.has registry op = false := by
    refine fun op member => List.any_eq_false.mpr fun own mem agrees => ?_
    exact apart own mem (equal agrees ▸ member)
  have separate : other.definitions.Pairwise fun a b => ∀ op, a.agrees op = true → b.agrees op = false := by
    refine others.compatible.imp fun {a b} compatible op agrees => ?_
    rw [← Bool.not_eq_true]
    exact fun agrees' => compatible.ne ((equal agrees).trans (equal agrees').symm)
  have gone : (registry.copyFrom other).2.definitions.filter (fun op =>
      !other.definitions.any (·.agrees op)) = registry.definitions := by
    have kept : registry.definitions.filter (fun op => !other.definitions.any (·.agrees op))
        = registry.definitions := by
      refine List.filter_eq_self.mpr fun own mem => ?_
      rw [Bool.not_eq_true', List.any_eq_false]
      exact fun op member agrees => apart own mem (equal agrees ▸ member)
    have left : (other.definitions.filter (registry.Admits ·)).filter (fun op =>
        !other.definitions.any (·.agrees op)) = [] := by
      refine List.filter_eq_nil_iff.mpr fun op member => ?_
      have member := List.mem_of_mem_filter member
      rw [Bool.not_eq_true', Bool.not_eq_false, List.any_eq_true]
      exact ⟨op, member, (agrees_iff (others.finite op member)).mpr rfl⟩
    rw [definitions_copyFrom registry others, List.filter_append, kept, left, List.append_nil]
  have each (count : Nat) (ops : List OperatorDefinition) (old : OperatorDefinition) :
      step (count, ⟨ops⟩) old = (if ops.any old.agrees then count + 1 else count,
        ⟨ops.filter (!old.agrees ·)⟩) := h (count, ⟨ops⟩) old
  have withdrawn := foldl_withdraw each separate 0 (registry.copyFrom other).2.definitions
  rw [gone, Nat.zero_add] at withdrawn
  refine ⟨_, withdrawn, ?_⟩
  have there := independent_ledger.countP_has others.compatible new
  rw [foldl_enter] at there
  rw [copyFrom_eq registry others]
  exact there

namespace Definitions

variable {made : Nat → MacroDefinition} {target source : Definitions}

lemma Reachable.removeAll (reachable : target.Reachable made) (source : Definitions) :
    (target.removeAll source).2.Reachable made where
  macros := List.foldlRecOn (motive := fun state : Nat × MacroRegistry => state.2.Reachable made)
    _ _ reachable.macros fun _ left entry _ => left.removeDefinition entry
  operators := List.foldlRecOn (motive := fun state : Nat × OperatorRegistry => state.2.Reachable)
    _ _ reachable.operators fun _ left op _ => left.removeDefinition op

/-- **Taking an import back undoes it**: of two sets that share nothing, one is copied into the other and
removed again.  What is left is what was there, with all that is read off it, and as many definitions
were removed as met no conflict when they were copied. -/
theorem removeAll_copyFrom (other : source.Reachable made)
    (macros : ∀ own ∈ target.macros.definitions, ∀ entry ∈ source.macros.definitions,
      own.identity ≠ entry.identity)
    (operators : ∀ own ∈ target.operators.definitions, own ∉ source.operators.definitions) :
    ∃ removed, (target.copyFrom source).2.removeAll source = (removed, target) ∧
      removed + (target.copyFrom source).1.length
        = source.macros.definitions.length + source.operators.definitions.length := by
  obtain ⟨macrosRemoved, macrosGone, macrosCount⟩ :=
    MacroRegistry.removeEach_copyFrom (fun _ _ => rfl) other.macros.orderly macros
  obtain ⟨operatorsRemoved, operatorsGone, operatorsCount⟩ :=
    OperatorRegistry.removeEach_copyFrom (fun _ _ => rfl)
      (OperatorRegistry.consistent_of_reachable other.operators) operators
  refine ⟨macrosRemoved + operatorsRemoved, ?_, ?_⟩
  · exact Prod.ext (congrArg₂ (· + ·) (congrArg Prod.fst macrosGone) (congrArg Prod.fst operatorsGone))
      (congrArg₂ Definitions.mk (congrArg Prod.snd macrosGone) (congrArg Prod.snd operatorsGone))
  · rw [Definitions.copyFrom, List.length_append, List.length_map]
    omega

theorem removeAll_copyFrom_of_conflicts :
    let source := built someMacros [2, 3] [.symbol "?" .binary (.ofNat 2),
      .symbol "~" .prefixed (.ofNat 3)]
    source.Reachable someMacros ∧
      (∀ own ∈ someTarget.macros.definitions, ∀ entry ∈ source.macros.definitions,
        own.identity ≠ entry.identity) ∧
      (∀ own ∈ someTarget.operators.definitions, own ∉ source.operators.definitions) ∧
      (someTarget.copyFrom source).1.length = 2 ∧
      (someTarget.copyFrom source).2.removeAll source = (2, someTarget) := by
  intro source
  have reachable : source.Reachable someMacros := reachable_built _ _ _
  have macros : ∀ own ∈ someTarget.macros.definitions, ∀ entry ∈ source.macros.definitions,
      own.identity ≠ entry.identity := by decide +kernel
  have operators : ∀ own ∈ someTarget.operators.definitions, own ∉ source.operators.definitions := by
    decide +kernel
  have conflicts : (someTarget.copyFrom source).1.length = 2 := by decide +kernel
  have size : source.macros.definitions.length + source.operators.definitions.length = 4 := by
    decide +kernel
  obtain ⟨removed, gone, count⟩ := removeAll_copyFrom reachable macros operators
  obtain rfl : removed = 2 := by omega
  exact ⟨reachable, macros, operators, conflicts, gone⟩

end Definitions

end TreeLang
