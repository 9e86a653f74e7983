import TreeLang.Proofs.Growing
import TreeLang.Proofs.Pairing
import TreeLang.Proofs.Registering

/-!
# Copying one set of definitions into another

Copying enters one definition after the other, and each is held against a set that has grown by those
before it.  Nothing comes of that: definitions of one set are not in each other's way, so that each is
judged as if it were the only one, and copying the same set again finds all of it judged as before.

* `Ledger` — what entries are entered in, one after the other.
* **`Ledger.foldl_record`**, `Ledger.foldl_record_again` — entries that are apart from each other are
  judged against what was there before the first of them.
* `MacroRegistry.Reachable`, **`MacroRegistry.Reachable.orderly`** — the registries that the operations
  build are in order, where every identity stands for one macro.
* `MacroRegistry.Admits`, `OperatorRegistry.Admits`, … — what may enter, and what is refused.
* **`Definitions.copyFrom_of_reachable`** — what a copy holds, and what it reports.
-/

namespace TreeLang

/-! ## Entering one after the other -/

/-- **What entries are entered in**: whether one is there already, what is in its way, and what comes of
entering it. -/
structure Ledger (ρ α κ : Type) where
  has : ρ → α → Bool
  conflict? : ρ → α → Option κ
  enter : ρ → α → ρ

namespace Ledger

variable {ρ α κ : Type} (ledger : Ledger ρ α κ) {apart : α → α → Prop}

/-- Whether an entry is new and nothing is in its way. -/
def admits (registry : ρ) (entry : α) : Bool :=
  !ledger.has registry entry && (ledger.conflict? registry entry).isNone

/-- Whether an entry is new and something is in its way. -/
def refuses (registry : ρ) (entry : α) : Bool :=
  !ledger.has registry entry && (ledger.conflict? registry entry).isSome

/-- Enters an entry, unless it is there; notes what is in its way. -/
def record (state : List κ × ρ) (entry : α) : List κ × ρ :=
  if ledger.has state.2 entry then state
  else match ledger.conflict? state.2 entry with
    | none => (state.1, ledger.enter state.2 entry)
    | some conflict => (state.1 ++ [conflict], state.2)

/-- **Entries that are apart do not count for each other**, and one that was entered is there. -/
structure Independent (apart : α → α → Prop) : Prop where
  has : ∀ registry a b, apart a b →
    ledger.has (ledger.enter registry a) b = ledger.has registry b
  conflict : ∀ registry a b, apart a b →
    ledger.conflict? (ledger.enter registry a) b = ledger.conflict? registry b
  entered : ∀ registry a, ledger.conflict? registry a = none →
    ledger.has (ledger.enter registry a) a = true

variable {ledger} {registry : ρ} {entry : α} {entries news : List α}

lemma admits_iff : ledger.admits registry entry = true ↔
    ledger.has registry entry = false ∧ ledger.conflict? registry entry = none := by
  simp [admits]

lemma refuses_iff : ledger.refuses registry entry = true ↔
    ledger.has registry entry = false ∧ (ledger.conflict? registry entry).isSome = true := by
  simp [refuses]

/-- What is refused is not admitted. -/
lemma admits_of_refuses (refuses : ledger.refuses registry entry = true) :
    ledger.admits registry entry = false := by
  refine Bool.eq_false_iff.mpr fun admits => ?_
  have some := (refuses_iff.mp refuses).2
  rw [(admits_iff.mp admits).2] at some
  cases some

/-- What is refused has a conflict each. -/
lemma map_some_conflicts (ledger : Ledger ρ α κ) (registry : ρ) (entries : List α) :
    ((entries.filter (ledger.refuses registry)).filterMap (ledger.conflict? registry)).map some
      = (entries.filter (ledger.refuses registry)).map (ledger.conflict? registry) := by
  rw [List.map_filterMap_some_eq_filter_map_isSome, List.filter_eq_self]
  intro conflict member
  obtain ⟨entry, listed, rfl⟩ := List.mem_map.mp member
  exact (refuses_iff.mp (List.mem_filter.mp listed).2).2

namespace Independent

/-- Entries that are all apart from one do not count for it. -/
lemma foldl_enter (independent : ledger.Independent apart) (registry : ρ)
    (away : ∀ new ∈ news, apart new entry) :
    ledger.has (news.foldl ledger.enter registry) entry = ledger.has registry entry ∧
      ledger.conflict? (news.foldl ledger.enter registry) entry = ledger.conflict? registry entry := by
  induction news generalizing registry with
  | nil => exact ⟨rfl, rfl⟩
  | cons new rest ih =>
    obtain ⟨first, away⟩ := List.forall_mem_cons.mp away
    obtain ⟨has, conflict⟩ := ih (ledger.enter registry new) away
    exact ⟨has.trans (independent.has registry new entry first),
      conflict.trans (independent.conflict registry new entry first)⟩

/-- **Entries that are apart from each other are judged by what was there before them.** -/
theorem foldl_record (independent : ledger.Independent apart) (ordered : entries.Pairwise apart)
    (conflicts : List κ) (registry : ρ) :
    entries.foldl ledger.record (conflicts, registry)
      = (conflicts ++ (entries.filter (ledger.refuses registry)).filterMap
            (ledger.conflict? registry),
          (entries.filter (ledger.admits registry)).foldl ledger.enter registry) := by
  induction entries generalizing conflicts registry with
  | nil => simp
  | cons entry rest ih =>
    obtain ⟨front, ordered⟩ := List.pairwise_cons.mp ordered
    rw [List.foldl_cons, record]
    cases has : ledger.has registry entry with
    | true =>
      have admits : ledger.admits registry entry = false := by simp [admits, has]
      have refuses : ledger.refuses registry entry = false := by simp [refuses, has]
      rw [if_pos rfl, ih ordered, List.filter_cons, List.filter_cons, admits, refuses]
      rfl
    | false =>
      rw [if_neg Bool.false_ne_true]
      cases conflict : ledger.conflict? registry entry with
      | some report =>
        have admits : ledger.admits registry entry = false := by simp [admits, conflict]
        have refuses : ledger.refuses registry entry = true := by simp [refuses, has, conflict]
        rw [List.filter_cons, List.filter_cons, admits, refuses, if_pos rfl, if_neg Bool.false_ne_true,
          List.filterMap_cons_some conflict, ← List.singleton_append, ← List.append_assoc]
        exact ih ordered _ registry
      | none =>
        have admits : ledger.admits registry entry = true := by simp [admits, has, conflict]
        have refuses : ledger.refuses registry entry = false := by simp [refuses, conflict]
        -- Those behind the entry are judged as they are without it.
        have later (other : α) (member : other ∈ rest) :
            ledger.has (ledger.enter registry entry) other = ledger.has registry other ∧
              ledger.conflict? (ledger.enter registry entry) other
                = ledger.conflict? registry other :=
          ⟨independent.has _ _ _ (front other member), independent.conflict _ _ _ (front other member)⟩
        have sameAdmits : rest.filter (ledger.admits (ledger.enter registry entry))
            = rest.filter (ledger.admits registry) :=
          List.filter_congr fun other member => by
            rw [Ledger.admits, Ledger.admits, (later other member).1, (later other member).2]
        have sameRefuses : rest.filter (ledger.refuses (ledger.enter registry entry))
            = rest.filter (ledger.refuses registry) :=
          List.filter_congr fun other member => by
            rw [Ledger.refuses, Ledger.refuses, (later other member).1, (later other member).2]
        have sameConflicts : (rest.filter (ledger.refuses registry)).filterMap
              (ledger.conflict? (ledger.enter registry entry))
            = (rest.filter (ledger.refuses registry)).filterMap (ledger.conflict? registry) :=
          List.filterMap_congr fun other member => (later other (List.mem_of_mem_filter member)).2
        rw [List.filter_cons, List.filter_cons, admits, refuses, if_pos rfl, if_neg Bool.false_ne_true,
          List.foldl_cons, ← sameConflicts, ← sameRefuses, ← sameAdmits]
        exact ih ordered _ _

/-- What was entered is there. -/
lemma has_of_admits [Std.Symm apart] (independent : ledger.Independent apart)
    (ordered : entries.Pairwise apart) (member : entry ∈ entries)
    (admits : ledger.admits registry entry = true) :
    ledger.has ((entries.filter (ledger.admits registry)).foldl ledger.enter registry) entry
      = true := by
  obtain ⟨front, behind, split⟩ := List.append_of_mem (List.mem_filter.mpr ⟨member, admits⟩)
  have ordered := ordered.filter (ledger.admits registry)
  rw [split] at ordered
  obtain ⟨-, fromHere, across⟩ := List.pairwise_append.mp ordered
  have before : ∀ new ∈ front, apart new entry :=
    fun new within => across new within entry List.mem_cons_self
  have after : ∀ new ∈ behind, apart new entry :=
    fun new within => Std.Symm.symm _ _ ((List.pairwise_cons.mp fromHere).1 new within)
  have free : ledger.conflict? (front.foldl ledger.enter registry) entry = none := by
    rw [(independent.foldl_enter registry before).2]
    exact (admits_iff.mp admits).2
  rw [split, List.foldl_append, List.foldl_cons, (independent.foldl_enter _ after).1]
  exact independent.entered _ _ free

/-- What was not entered is judged as before. -/
lemma judged_of_not_admits [Std.Symm apart] (independent : ledger.Independent apart)
    (ordered : entries.Pairwise apart) (member : entry ∈ entries)
    (not : ledger.admits registry entry = false) :
    let entered := (entries.filter (ledger.admits registry)).foldl ledger.enter registry
    ledger.has entered entry = ledger.has registry entry ∧
      ledger.conflict? entered entry = ledger.conflict? registry entry := by
  refine independent.foldl_enter registry fun new within => ?_
  obtain ⟨listed, admits⟩ := List.mem_filter.mp within
  refine ordered.forall listed member ?_
  rintro rfl
  exact absurd admits (by simp [not])

/-- **Entered once more, they are judged as before**, and nothing is new. -/
theorem foldl_record_again [Std.Symm apart] (independent : ledger.Independent apart)
    (ordered : entries.Pairwise apart) (conflicts : List κ) (registry : ρ) :
    let entered := (entries.filter (ledger.admits registry)).foldl ledger.enter registry
    entries.foldl ledger.record (conflicts, entered)
      = (conflicts ++ (entries.filter (ledger.refuses registry)).filterMap
            (ledger.conflict? registry), entered) := by
  intro entered
  have nothing : entries.filter (ledger.admits entered) = [] := by
    refine List.filter_eq_nil_iff.mpr fun entry member => ?_
    cases admits : ledger.admits registry entry with
    | true => simp [Ledger.admits, entered, independent.has_of_admits ordered member admits]
    | false =>
      obtain ⟨has, conflict⟩ := independent.judged_of_not_admits ordered member admits
      rw [Ledger.admits, has, conflict, ← Ledger.admits, admits]
      exact Bool.false_ne_true
  have same : entries.filter (ledger.refuses entered) = entries.filter (ledger.refuses registry) := by
    refine List.filter_congr fun entry member => ?_
    cases admits : ledger.admits registry entry with
    | true =>
      have has := independent.has_of_admits ordered member admits
      simp [Ledger.refuses, entered, has, (admits_iff.mp admits).2]
    | false =>
      obtain ⟨has, conflict⟩ := independent.judged_of_not_admits ordered member admits
      rw [Ledger.refuses, has, conflict, ← Ledger.refuses]
  rw [independent.foldl_record ordered, nothing, same, List.foldl_nil]
  refine Prod.ext (congrArg (conflicts ++ ·) (List.filterMap_congr fun entry member => ?_)) rfl
  obtain ⟨listed, refuses⟩ := List.mem_filter.mp member
  exact (independent.judged_of_not_admits ordered listed (admits_of_refuses refuses)).2

end Independent

end Ledger

/-! ## Macros -/

lemma alikeParameters_refl (parameters : List Parameter) :
    alikeParameters parameters parameters = true := by
  induction parameters with
  | nil => rfl
  | cons parameter rest ih => simp [alikeParameters, Parameter.alike, ih]

lemma alikeParameters_comm (ps qs : List Parameter) :
    alikeParameters ps qs = alikeParameters qs ps := by
  induction ps generalizing qs with
  | nil => cases qs <;> rfl
  | cons p ps ih =>
    cases qs with
    | nil => rfl
    | cons q qs => simp only [alikeParameters, Parameter.alike, ih, eq_comm]

namespace MacroRegistry

variable {registry larger other : MacroRegistry} {new entry : Shared MacroDefinition}
  {entries : List (Shared MacroDefinition)} {made : Nat → MacroDefinition}

/-- Two macros of one signature whose lists of parameters are alike. -/
def Clashes (a b : Shared MacroDefinition) : Prop :=
  a.value.signature = b.value.signature ∧
    alikeParameters a.value.parameters b.value.parameters = true

instance (a b : Shared MacroDefinition) : Decidable (Clashes a b) :=
  inferInstanceAs (Decidable (_ ∧ _))

lemma Clashes.symm {a b : Shared MacroDefinition} (clashes : Clashes a b) : Clashes b a :=
  ⟨clashes.1.symm, (alikeParameters_comm _ _).trans clashes.2⟩

lemma Clashes.of_value {a b : Shared MacroDefinition} (same : a.value = b.value) : Clashes a b :=
  ⟨congrArg _ same, same ▸ alikeParameters_refl _⟩

/-- Whether this very macro is in a registry. -/
def Has (registry : MacroRegistry) (entry : Shared MacroDefinition) : Prop :=
  ∃ own ∈ registry.definitions, own.identity = entry.identity

/-- **A macro that may enter**: it is not there, and it clashes with none. -/
def Admits (registry : MacroRegistry) (entry : Shared MacroDefinition) : Prop :=
  ¬ registry.Has entry ∧ ∀ own ∈ registry.definitions, ¬ Clashes own entry

/-- **A macro that may not enter**: it is not there, but it clashes with one. -/
def Refuses (registry : MacroRegistry) (entry : Shared MacroDefinition) : Prop :=
  ¬ registry.Has entry ∧ ∃ own ∈ registry.definitions, Clashes own entry

instance (registry : MacroRegistry) (entry : Shared MacroDefinition) : Decidable (registry.Has entry) :=
  inferInstanceAs (Decidable (∃ own ∈ _, _))

instance (registry : MacroRegistry) (entry : Shared MacroDefinition) :
    Decidable (registry.Admits entry) :=
  inferInstanceAs (Decidable (_ ∧ _))

instance (registry : MacroRegistry) (entry : Shared MacroDefinition) :
    Decidable (registry.Refuses entry) :=
  inferInstanceAs (Decidable (_ ∧ _))

/-- The report about the oldest macro that one clashes with. -/
def complaint? (registry : MacroRegistry) (entry : Shared MacroDefinition) : Option Report :=
  (registry.definitions.find? (Clashes · entry)).map fun own =>
    Report.of (.duplicateMacro own.value.header)

/-- Macros are entered in the order of their signatures. -/
def ledger : Ledger MacroRegistry (Shared MacroDefinition) Report where
  has registry entry := registry.definitions.any entry.is
  conflict? := complaint?
  enter registry entry := ⟨insertOrdered entry registry.definitions⟩

/-- Registering a macro is entering it, if there is no complaint. -/
lemma add_eq (registry : MacroRegistry) (new : Shared MacroDefinition) :
    registry.add new = match registry.complaint? new with
      | some report => .error report
      | none => .ok ⟨insertOrdered new registry.definitions⟩ := by
  have same : (registry.group new.value.signature).find? (fun entry =>
        alikeParameters entry.value.parameters new.value.parameters)
      = registry.definitions.find? (Clashes · new) := by
    rw [group, List.find?_filter]
    refine congrArg (List.find? · registry.definitions) (funext fun own => ?_)
    rw [decide_eq_decide, decide_eq_true_iff]
    rfl
  rw [add, same, complaint?]
  cases registry.definitions.find? (Clashes · new) <;> rfl

lemma copyOne_eq (state : List Report × MacroRegistry) (entry : Shared MacroDefinition) :
    copyOne state entry = ledger.record state entry := by
  have conflict : ledger.conflict? state.2 entry = state.2.complaint? entry := rfl
  rw [copyOne, Ledger.record, add_eq, conflict]
  refine ite_congr rfl (fun _ => rfl) fun _ => ?_
  cases state.2.complaint? entry <;> rfl

/-- Two macros that are not the same and do not clash. -/
def Apart (a b : Shared MacroDefinition) : Prop :=
  a.identity ≠ b.identity ∧ ¬ Clashes a b

instance : Std.Symm Apart := ⟨fun _ _ apart => ⟨apart.1.symm, fun clashes => apart.2 clashes.symm⟩⟩

lemma Orderly.apart (orderly : registry.Orderly) : registry.definitions.Pairwise Apart :=
  List.Pairwise.imp (fun before => ⟨before.distinct, fun clashes => before.unlike clashes.1 clashes.2⟩)
    orderly

/-- What does not look at a macro does not see it enter. -/
lemma filter_insertOrdered {p : Shared MacroDefinition → Bool} (aside : p new = false) :
    (insertOrdered new entries).filter p = entries.filter p := by
  induction entries with
  | nil => rw [insertOrdered, List.filter_cons, aside]; rfl
  | cons first rest ih =>
    rw [insertOrdered]
    split
    · rw [List.filter_cons, ih, ← List.filter_cons]
    · rw [List.filter_cons, aside]
      rfl

lemma find?_insertOrdered {p : Shared MacroDefinition → Bool} (aside : p new = false) :
    (insertOrdered new entries).find? p = entries.find? p := by
  rw [← List.head?_filter, filter_insertOrdered aside, List.head?_filter]

/-- **Macros that are apart do not count for each other.** -/
lemma independent_ledger : ledger.Independent Apart where
  has registry a b apart := by
    have aside : b.is a = false := decide_eq_false apart.1.symm
    show (insertOrdered a registry.definitions).any b.is = registry.definitions.any b.is
    rw [← List.isSome_find?, find?_insertOrdered aside, List.isSome_find?]
  conflict registry a b apart := by
    show Option.map _ ((insertOrdered a registry.definitions).find? (Clashes · b)) = _
    rw [find?_insertOrdered (decide_eq_false apart.2)]
    rfl
  entered registry a _ :=
    List.any_eq_true.mpr ⟨a, mem_insertOrdered.mpr (.inl rfl), decide_eq_true rfl⟩

/-! ### Reachable registries -/

/-- **The registries that the operations build**, where every identity stands for one macro. -/
inductive Reachable (made : Nat → MacroDefinition) : MacroRegistry → Prop
  | empty : Reachable made .empty
  | add {registry larger : MacroRegistry} (identity : Nat) (reachable : Reachable made registry)
      (added : registry.add ⟨identity, made identity⟩ = .ok larger) : Reachable made larger
  | remove {registry : MacroRegistry} (name : String) (kinds : List MacroKind)
      (reachable : Reachable made registry) : Reachable made (registry.remove name kinds).2
  | removeDefinition {registry : MacroRegistry} (old : Shared MacroDefinition)
      (reachable : Reachable made registry) : Reachable made (registry.removeDefinition old).2
  | copyFrom {registry other : MacroRegistry} (reachable : Reachable made registry)
      (others : Reachable made other) : Reachable made (registry.copyFrom other).2

/-- Macros registered one after the other, as far as they are no duplicates. -/
def registered (made : Nat → MacroDefinition) (identities : List Nat) : MacroRegistry :=
  identities.foldl (fun registry identity => (registry.enlist ⟨identity, made identity⟩).2) .empty

lemma Reachable.enlist (reachable : registry.Reachable made) (identity : Nat) :
    (registry.enlist ⟨identity, made identity⟩).2.Reachable made := by
  rw [MacroRegistry.enlist]
  cases added : registry.add ⟨identity, made identity⟩ with
  | ok larger => exact reachable.add identity added
  | error report => exact reachable

lemma reachable_registered (made : Nat → MacroDefinition) (identities : List Nat) :
    (registered made identities).Reachable made :=
  List.foldlRecOn identities _ .empty fun _ reachable identity _ => reachable.enlist identity

/-- In a registry every macro is the one that its identity stands for. -/
lemma Reachable.value_eq (reachable : registry.Reachable made) :
    ∀ entry ∈ registry.definitions, entry.value = made entry.identity := by
  induction reachable with
  | empty => exact List.forall_mem_nil _
  | add identity _ added ih =>
    intro entry member
    rcases mem_of_add added member with rfl | member
    · rfl
    · exact ih entry member
  | remove name kinds _ ih => exact fun entry member => ih entry (mem_of_remove member)
  | removeDefinition old _ ih => exact fun entry member => ih entry (List.mem_of_mem_filter member)
  | copyFrom _ _ ih ihOther =>
    intro entry member
    rcases mem_of_copyFrom member with member | member
    · exact ih entry member
    · exact ihOther entry member

lemma Orderly.sublist (orderly : registry.Orderly) (fewer : entries.Sublist registry.definitions) :
    Orderly ⟨entries⟩ :=
  List.Pairwise.sublist fewer orderly

/-- A macro that is not there enters in order. -/
lemma Orderly.enter (orderly : registry.Orderly) (admits : ledger.admits registry entry = true) :
    Orderly (ledger.enter registry entry) := by
  obtain ⟨absent, free⟩ := Ledger.admits_iff.mp admits
  have free : registry.complaint? entry = none := free
  have added : registry.add entry = .ok (ledger.enter registry entry) := by
    rw [add_eq, free]
    rfl
  refine orderly.add (fun own member same => ?_) added
  exact absurd (decide_eq_true same.symm) (List.any_eq_false.mp absent own member)

/-- **The registries that the operations build are in order.** -/
theorem Reachable.orderly (reachable : registry.Reachable made) : registry.Orderly := by
  induction reachable with
  | empty => exact .nil
  | @add registry larger identity reachable added ih =>
    refine ih.add (fun entry member same => ?_) added
    -- The macro of this identity would be a duplicate of itself.
    have clashes : Clashes entry ⟨identity, made identity⟩ :=
      .of_value ((reachable.value_eq entry member).trans (congrArg made same))
    exact (unlike_of_add added).2 entry member clashes.1 clashes.2
  | remove name kinds _ ih =>
    rw [MacroRegistry.remove, List.partition_eq_filter_filter]
    exact ih.sublist List.filter_sublist
  | removeDefinition old _ ih => exact ih.sublist List.filter_sublist
  | @copyFrom registry other _ _ ih _ =>
    have steps (entries : List (Shared MacroDefinition)) (state : List Report × MacroRegistry)
        (orderly : state.2.Orderly) : (entries.foldl copyOne state).2.Orderly := by
      induction entries generalizing state with
      | nil => exact orderly
      | cons entry rest ih =>
        refine ih _ ?_
        rw [copyOne_eq, Ledger.record]
        cases has : ledger.has state.2 entry with
        | true => exact orderly
        | false =>
          cases conflict : ledger.conflict? state.2 entry with
          | some report => exact orderly
          | none => exact orderly.enter (Ledger.admits_iff.mpr ⟨has, conflict⟩)
    exact steps other.definitions ([], registry) ih

/-! ### What a copy holds -/

lemma has_iff : ledger.has registry entry = true ↔ registry.Has entry := by
  refine List.any_eq_true.trans (exists_congr fun own => and_congr_right fun _ => ?_)
  rw [Shared.is, decide_eq_true_iff, eq_comm]

lemma complaint?_eq_none_iff :
    registry.complaint? entry = none ↔ ∀ own ∈ registry.definitions, ¬ Clashes own entry := by
  rw [complaint?, Option.map_eq_none_iff, List.find?_eq_none]
  exact forall₂_congr fun own _ => by rw [decide_eq_true_iff]

lemma admits_eq (registry : MacroRegistry) (entry : Shared MacroDefinition) :
    ledger.admits registry entry = decide (registry.Admits entry) := by
  rw [Bool.eq_iff_iff, decide_eq_true_iff, Ledger.admits_iff, Admits, ← has_iff,
    ← complaint?_eq_none_iff, Bool.not_eq_true]
  rfl

lemma refuses_eq (registry : MacroRegistry) (entry : Shared MacroDefinition) :
    ledger.refuses registry entry = decide (registry.Refuses entry) := by
  have some : (registry.complaint? entry).isSome = true
      ↔ ∃ own ∈ registry.definitions, Clashes own entry := by
    rw [Option.isSome_iff_ne_none, Ne, complaint?_eq_none_iff]
    simp only [not_forall, not_not, exists_prop]
  rw [Bool.eq_iff_iff, decide_eq_true_iff, Ledger.refuses_iff, Refuses, ← has_iff, ← some,
    Bool.not_eq_true]
  rfl

/-- A macro comes behind the overloads of its signature. -/
lemma filter_insertOrdered_self (ordered : entries.Pairwise Before) :
    (insertOrdered new entries).filter (·.value.signature = new.value.signature)
      = entries.filter (·.value.signature = new.value.signature) ++ [new] := by
  induction entries with
  | nil => simp [insertOrdered]
  | cons first rest ih =>
    obtain ⟨front, ordered⟩ := List.pairwise_cons.mp ordered
    rw [insertOrdered]
    split
    · rw [List.filter_cons, List.filter_cons, ih ordered]
      split <;> rfl
    · rename_i behind
      -- What stands behind a larger signature has a larger one, too.
      have others : (first :: rest).filter (·.value.signature = new.value.signature) = [] := by
        refine List.filter_eq_nil_iff.mpr fun entry member same => behind ?_
        rw [← of_decide_eq_true same]
        rcases List.mem_cons.mp member with rfl | member
        · exact Signature.le_iff.mpr (.inr ⟨rfl, le_refl _⟩)
        · exact (front entry member).le
      rw [List.filter_cons, decide_eq_true rfl, if_pos rfl, others]
      rfl

lemma group_enter (orderly : registry.Orderly) (entry : Shared MacroDefinition)
    (signature : Signature) :
    (ledger.enter registry entry).group signature
      = registry.group signature ++ [entry].filter (·.value.signature = signature) := by
  by_cases same : entry.value.signature = signature
  · subst same
    rw [List.filter_singleton, decide_eq_true rfl]
    exact filter_insertOrdered_self orderly
  · rw [List.filter_singleton, decide_eq_false same, cond_false, List.append_nil]
    exact filter_insertOrdered (decide_eq_false same)

/-- **Macros that enter come behind the overloads of their signatures**, in their order. -/
lemma group_foldl_enter (orderly : registry.Orderly) (ordered : entries.Pairwise Apart)
    (admitted : ∀ entry ∈ entries, ledger.admits registry entry = true) (signature : Signature) :
    (entries.foldl ledger.enter registry).group signature
      = registry.group signature ++ entries.filter (·.value.signature = signature) := by
  induction entries generalizing registry with
  | nil => exact (List.append_nil _).symm
  | cons entry rest ih =>
    obtain ⟨front, ordered⟩ := List.pairwise_cons.mp ordered
    obtain ⟨first, admitted⟩ := List.forall_mem_cons.mp admitted
    have later : ∀ other ∈ rest, ledger.admits (ledger.enter registry entry) other = true := by
      intro other member
      rw [Ledger.admits, independent_ledger.has _ _ _ (front other member),
        independent_ledger.conflict _ _ _ (front other member)]
      exact admitted other member
    rw [List.foldl_cons, ih (orderly.enter first) ordered later, group_enter orderly,
      List.append_assoc, ← List.filter_append, List.singleton_append]

lemma sublist_insertOrdered (new : Shared MacroDefinition) (entries : List (Shared MacroDefinition)) :
    entries.Sublist (insertOrdered new entries) := by
  induction entries with
  | nil => exact List.nil_sublist _
  | cons first rest ih =>
    rw [insertOrdered]
    split
    · exact ih.cons_cons first
    · exact List.sublist_cons_self _ _

/-- Macros that were there stay in place. -/
lemma sublist_foldl_enter (registry : MacroRegistry) (entries : List (Shared MacroDefinition)) :
    registry.definitions.Sublist (entries.foldl ledger.enter registry).definitions := by
  induction entries generalizing registry with
  | nil => exact List.Sublist.refl _
  | cons entry rest ih => exact (sublist_insertOrdered entry registry.definitions).trans (ih _)

/-- **What copying a registry comes to**: what it holds is judged by what was there before. -/
lemma copyFrom_eq (registry : MacroRegistry) (others : other.Orderly) :
    registry.copyFrom other
      = ((other.definitions.filter (ledger.refuses registry)).filterMap registry.complaint?,
          (other.definitions.filter (ledger.admits registry)).foldl ledger.enter registry) := by
  rw [copyFrom, funext₂ copyOne_eq, independent_ledger.foldl_record others.apart]
  rfl

/-- Macros that were there stay in place. -/
lemma sublist_copyFrom (registry : MacroRegistry) (others : other.Orderly) :
    registry.definitions.Sublist (registry.copyFrom other).2.definitions := by
  rw [copyFrom_eq registry others]
  exact sublist_foldl_enter _ _

/-- **Those that may enter come behind the overloads of their signatures**, in their order. -/
theorem group_copyFrom (orderly : registry.Orderly) (others : other.Orderly) (signature : Signature) :
    (registry.copyFrom other).2.group signature
      = registry.group signature ++ (other.group signature).filter (registry.Admits ·) := by
  rw [copyFrom_eq registry others, group_foldl_enter orderly (others.apart.filter _)
    fun entry member => (List.mem_filter.mp member).2, funext (admits_eq registry), group, group,
    List.filter_comm]

/-- **Those that may not enter have a complaint each**, which is that of the registry as it was. -/
theorem conflicts_copyFrom (registry : MacroRegistry) (others : other.Orderly) :
    (registry.copyFrom other).1.map some
      = (other.definitions.filter (registry.Refuses ·)).map registry.complaint? := by
  rw [copyFrom_eq registry others, ← funext (refuses_eq registry)]
  exact ledger.map_some_conflicts registry other.definitions

/-- **Copied again, a registry brings nothing**, and meets the same conflicts. -/
theorem copyFrom_again (registry : MacroRegistry) (others : other.Orderly) :
    (registry.copyFrom other).2.copyFrom other = registry.copyFrom other := by
  rw [copyFrom_eq registry others, copyFrom, funext₂ copyOne_eq]
  exact independent_ledger.foldl_record_again others.apart [] registry

end MacroRegistry

/-! ## Operators -/

namespace OperatorRegistry

variable {registry other : OperatorRegistry} {op : OperatorDefinition}

/-- **An operator that may enter**: it is not there, and it is in conflict with none. -/
def Admits (registry : OperatorRegistry) (op : OperatorDefinition) : Prop :=
  op ∉ registry.definitions ∧ ∀ own ∈ registry.definitions, Compatible own op

/-- **An operator that may not enter**: it is not there, but it is in conflict with one. -/
def Refuses (registry : OperatorRegistry) (op : OperatorDefinition) : Prop :=
  op ∉ registry.definitions ∧ ∃ own ∈ registry.definitions, ¬ Compatible own op

instance (registry : OperatorRegistry) (op : OperatorDefinition) : Decidable (registry.Admits op) :=
  inferInstanceAs (Decidable (_ ∧ _))

instance (registry : OperatorRegistry) (op : OperatorDefinition) : Decidable (registry.Refuses op) :=
  inferInstanceAs (Decidable (_ ∧ _))

/-- The report about the conflict of an operator. -/
def complaint? (registry : OperatorRegistry) (op : OperatorDefinition) : Option Report :=
  (registry.conflict? op).map fun conflict => Report.of (.importedConflict conflict)

/-- Operators are entered behind each other. -/
def ledger : Ledger OperatorRegistry OperatorDefinition OperatorConflict where
  has registry op := registry.definitions.any op.agrees
  conflict? := conflict?
  enter registry op := ⟨registry.definitions ++ [op]⟩

lemma copyOne_eq (state : List OperatorConflict × OperatorRegistry) (op : OperatorDefinition) :
    copyOne state op = ledger.record state op := by
  have conflict : ledger.conflict? state.2 op = state.2.conflict? op := rfl
  rw [copyOne, Ledger.record, add, conflict]
  refine ite_congr rfl (fun _ => rfl) fun _ => ?_
  cases state.2.conflict? op <;> rfl

lemma Compatible.ne {a b : OperatorDefinition} (compatible : Compatible a b) : a ≠ b := by
  rintro rfl
  exact (compatible.1 rfl).2.1 rfl

/-- An operator that another one is compatible with does not meet it. -/
lemma conflict?_append {own : OperatorDefinition} (compatible : Compatible own op) :
    conflict? ⟨registry.definitions ++ [own]⟩ op = registry.conflict? op := by
  have alone : ∀ existing ∈ [own], Compatible existing op := List.forall_mem_singleton.mpr compatible
  rw [conflict?, conflict?, List.filter_append, List.filter_append, List.findSome?_append,
    List.findSome?_append, findSome?_nameConflict? alone, findSome?_priorityConflict? alone,
    Option.or_none, Option.or_none]

lemma agrees_iff (finite : op.priority.isFinite) {own : OperatorDefinition} :
    op.agrees own = true ↔ op = own := by
  rw [OperatorDefinition.agrees, Bool.and_eq_true, decide_eq_true_iff]
  refine ⟨And.left, fun same => ⟨same, ?_⟩⟩
  subst same
  cases hpriority : op.priority <;> simp_all [Priority.isFinite, Priority.agrees]

/-- **Operators that are compatible do not count for each other.** -/
lemma independent_ledger : ledger.Independent Compatible where
  has registry a b compatible := by
    have other : b.agrees a = false := by
      rw [OperatorDefinition.agrees, decide_eq_false compatible.ne.symm, Bool.false_and]
    show (registry.definitions ++ [a]).any b.agrees = registry.definitions.any b.agrees
    rw [List.any_append, List.any_cons, other, List.any_nil, Bool.or_false, Bool.or_false]
  conflict registry a b compatible := conflict?_append compatible
  entered registry a free := by
    have finite := (compatible_of_conflict? free).1
    exact List.any_eq_true.mpr ⟨a, by simp [ledger], (agrees_iff finite).mpr rfl⟩

lemma has_iff (finite : op.priority.isFinite) :
    ledger.has registry op = true ↔ op ∈ registry.definitions := by
  refine List.any_eq_true.trans ⟨?_, fun member => ⟨op, member, (agrees_iff finite).mpr rfl⟩⟩
  rintro ⟨own, member, agrees⟩
  exact (agrees_iff finite).mp agrees ▸ member

lemma admits_eq (registry : OperatorRegistry) (finite : op.priority.isFinite) :
    ledger.admits registry op = decide (registry.Admits op) := by
  rw [Bool.eq_iff_iff, decide_eq_true_iff, Ledger.admits_iff, Admits, ← has_iff finite,
    ← conflict?_eq_none_iff finite, Bool.not_eq_true]
  rfl

lemma refuses_eq (registry : OperatorRegistry) (finite : op.priority.isFinite) :
    ledger.refuses registry op = decide (registry.Refuses op) := by
  have some : (registry.conflict? op).isSome = true
      ↔ ∃ own ∈ registry.definitions, ¬ Compatible own op := by
    rw [Option.isSome_iff_ne_none, Ne, conflict?_eq_none_iff finite]
    simp only [not_forall, exists_prop]
  rw [Bool.eq_iff_iff, decide_eq_true_iff, Ledger.refuses_iff, Refuses, ← has_iff finite, ← some,
    Bool.not_eq_true]
  rfl

lemma foldl_enter (registry : OperatorRegistry) (ops : List OperatorDefinition) :
    ops.foldl ledger.enter registry = ⟨registry.definitions ++ ops⟩ := by
  induction ops generalizing registry with
  | nil => rw [List.append_nil]; rfl
  | cons op rest ih =>
    rw [List.foldl_cons, ih, List.append_cons]
    rfl

lemma copyFrom_eq (registry : OperatorRegistry) (others : other.Consistent) :
    registry.copyFrom other
      = ((other.definitions.filter (ledger.refuses registry)).filterMap registry.conflict?,
          ⟨registry.definitions ++ other.definitions.filter (ledger.admits registry)⟩) := by
  rw [copyFrom, funext₂ copyOne_eq, independent_ledger.foldl_record others.compatible, foldl_enter]
  rfl

/-- **Those that may enter come last**, in their order. -/
theorem definitions_copyFrom (registry : OperatorRegistry) (others : other.Consistent) :
    (registry.copyFrom other).2.definitions
      = registry.definitions ++ other.definitions.filter (registry.Admits ·) := by
  rw [copyFrom_eq registry others]
  exact congrArg (registry.definitions ++ ·) (List.filter_congr fun op member =>
    admits_eq registry (others.finite op member))

/-- **Those that may not enter have a conflict each**, which is that with the registry as it was. -/
theorem conflicts_copyFrom (registry : OperatorRegistry) (others : other.Consistent) :
    (registry.copyFrom other).1.map some
      = (other.definitions.filter (registry.Refuses ·)).map registry.conflict? := by
  have same : other.definitions.filter (registry.Refuses ·)
      = other.definitions.filter (ledger.refuses registry) :=
    List.filter_congr fun op member => (refuses_eq registry (others.finite op member)).symm
  rw [copyFrom_eq registry others, same]
  exact ledger.map_some_conflicts registry other.definitions

/-- **Copied again, a registry brings nothing**, and meets the same conflicts. -/
theorem copyFrom_again (registry : OperatorRegistry) (others : other.Consistent) :
    (registry.copyFrom other).2.copyFrom other = registry.copyFrom other := by
  rw [copyFrom_eq registry others, ← foldl_enter, copyFrom, funext₂ copyOne_eq]
  exact independent_ledger.foldl_record_again others.compatible [] registry

end OperatorRegistry

/-! ## Sets of definitions -/

namespace Definitions

variable {made : Nat → MacroDefinition} {target source : Definitions}

/-- **The sets that the operations build**, where every identity stands for one macro. -/
structure Reachable (made : Nat → MacroDefinition) (definitions : Definitions) : Prop where
  macros : definitions.macros.Reachable made
  operators : definitions.operators.Reachable

lemma Reachable.copyFrom (reachable : target.Reachable made) (other : source.Reachable made) :
    (target.copyFrom source).2.Reachable made :=
  ⟨reachable.macros.copyFrom other.macros, reachable.operators.copyFrom source.operators⟩

/-- **What copying a set comes to.**  What was there stays in place, and what may enter comes behind it,
in its order; each definition that is refused is reported, as it is by what was there; and copying the
set again changes nothing, and reports the same. -/
theorem copyFrom_of_reachable (reachable : target.Reachable made) (other : source.Reachable made) :
    ∃ conflicts copied, target.copyFrom source = (conflicts, copied) ∧
      target.macros.definitions.Sublist copied.macros.definitions ∧
      (∀ signature, copied.macros.group signature = target.macros.group signature ++
        (source.macros.group signature).filter (target.macros.Admits ·)) ∧
      copied.operators.definitions = target.operators.definitions ++
        source.operators.definitions.filter (target.operators.Admits ·) ∧
      conflicts.map some
        = (source.macros.definitions.filter (target.macros.Refuses ·)).map target.macros.complaint? ++
          (source.operators.definitions.filter (target.operators.Refuses ·)).map
            target.operators.complaint? ∧
      copied.copyFrom source = (conflicts, copied) := by
  have orderly := other.macros.orderly
  have consistent := OperatorRegistry.consistent_of_reachable other.operators
  refine ⟨_, _, rfl, MacroRegistry.sublist_copyFrom _ orderly,
    MacroRegistry.group_copyFrom reachable.macros.orderly orderly,
    OperatorRegistry.definitions_copyFrom _ consistent, ?_, ?_⟩
  · let reported (conflict : OperatorConflict) : Report := .of (.importedConflict conflict)
    calc ((target.macros.copyFrom source.macros).1
          ++ (target.operators.copyFrom source.operators).1.map reported).map some
      _ = (target.macros.copyFrom source.macros).1.map some
          ++ ((target.operators.copyFrom source.operators).1.map some).map (Option.map reported) := by
        rw [List.map_append, List.map_map, List.map_map]
        rfl
      _ = _ := by
        rw [MacroRegistry.conflicts_copyFrom _ orderly, OperatorRegistry.conflicts_copyFrom _ consistent,
          List.map_map]
        rfl
  · show (Definitions.copyFrom ⟨(target.macros.copyFrom source.macros).2,
      (target.operators.copyFrom source.operators).2⟩ source) = target.copyFrom source
    rw [Definitions.copyFrom, MacroRegistry.copyFrom_again _ orderly,
      OperatorRegistry.copyFrom_again _ consistent]
    rfl

/-- Macros and operators that were registered one after the other. -/
def built (made : Nat → MacroDefinition) (identities : List Nat) (ops : List OperatorDefinition) :
    Definitions :=
  ⟨.registered made identities, OperatorRegistry.empty.after (ops.map .add)⟩

lemma reachable_built (made : Nat → MacroDefinition) (identities : List Nat)
    (ops : List OperatorDefinition) : (built made identities ops).Reachable made :=
  ⟨MacroRegistry.reachable_registered made identities, .after .empty _⟩

/-- Four macros, of which the second and the third are alike. -/
def someMacros (identity : Nat) : MacroDefinition :=
  let taking (name : String) (parameters : List String) : MacroDefinition :=
    ⟨⟨name, .list⟩, parameters.map .plain, .plain name, [], []⟩
  match identity with
  | 0 => taking "f" ["x"]
  | 1 | 2 => taking "g" ["x"]
  | _ => taking "g" ["x", "y"]

/-- A set into which another one is copied. -/
def someTarget : Definitions :=
  built someMacros [0, 1] [.symbol "+" .binary (.ofNat 1), .symbol "!" .prefixed (.ofNat 2)]

/-- Of its macros and of its operators one is there already, one is refused, and one may enter. -/
def someSource : Definitions :=
  built someMacros [0, 2, 3] [.symbol "+" .binary (.ofNat 1), .symbol "?" .binary (.ofNat 2),
    .symbol "~" .prefixed (.ofNat 3)]

theorem copyFrom_of_reachable_partly :
    someTarget.Reachable someMacros ∧ someSource.Reachable someMacros ∧
      (someTarget.copyFrom someSource).1.length = 2 ∧
      (someTarget.copyFrom someSource).2.macros.definitions.map (·.identity) = [0, 1, 3] ∧
      (someTarget.copyFrom someSource).2.operators.definitions.map (·.name) = ["+", "!", "~"] ∧
      (someTarget.copyFrom someSource).2.copyFrom someSource = someTarget.copyFrom someSource := by
  have target : someTarget.Reachable someMacros := reachable_built _ _ _
  have source : someSource.Reachable someMacros := reachable_built _ _ _
  obtain ⟨conflicts, copied, same, -, -, -, -, again⟩ := copyFrom_of_reachable target source
  refine ⟨target, source, by decide +kernel, by decide +kernel, by decide +kernel, ?_⟩
  rw [same]
  exact again

end Definitions

end TreeLang
