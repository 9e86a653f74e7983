import TreeLang.Proofs.Copying

/-!
# The choice among overloads

A node is offered to all overloads of its signature, and the scores of those that admit it are compared.
The one that is chosen is better than every other one; where several are best nothing is chosen, and all
of them are named.  None of this looks at the order in which macros were registered, as one that tells
overloads apart would.

* `MacroRegistry.leads`, `MacroRegistry.leaders` — the overloads of least score.
* `resolve_eq` — the answer, by how many of them there are.
* `leaders_eq_singleton_iff` — there is one if it is better than every other one.
* `SameAnswer`, `sameAnswer_of_perm` — answers that differ in the order of hints alone.
* `exists_registered` — in whatever order macros are registered, all of them are.
* **`resolve_of_reachable`** — the answer for a reachable registry.
-/

namespace TreeLang

/-- **Reports that differ in the order of their hints** alone. -/
structure Report.SameUpToHints (a b : Report) : Prop where
  severity : a.severity = b.severity
  category : a.category = b.category
  message : a.message = b.message
  offset : a.offset = b.offset
  hints : a.hints.Perm b.hints

namespace MacroRegistry

variable {registry other : MacroRegistry} {name : String} {kind : MacroKind} {argument : Node}
  {overloads entries : List (Shared MacroDefinition)} {entry found : Shared MacroDefinition}
  {made : Nat → MacroDefinition}

/-! ## The overloads of least score -/

/-- **Whether an overload admits a node**, and none does with a smaller score. -/
def leads (overloads : List (Shared MacroDefinition)) (argument : Node)
    (entry : Shared MacroDefinition) : Bool :=
  (entry.value.score argument).any fun score =>
    overloads.all fun other => (other.value.score argument).all (score ≤ ·)

/-- The overloads of least score, oldest first. -/
def leaders (registry : MacroRegistry) (name : String) (kind : MacroKind) (argument : Node) :
    List (Shared MacroDefinition) :=
  (registry.group ⟨name, kind⟩).filter (leads (registry.group ⟨name, kind⟩) argument)

lemma leads_iff : leads overloads argument entry = true ↔
    ∃ score, entry.value.score argument = some score ∧
      ∀ other ∈ overloads, ∀ n, other.value.score argument = some n → score ≤ n := by
  simp only [leads, Option.any_eq_true, List.all_eq_true, Option.all_eq_true, decide_eq_true_eq]

lemma map_fst_admitting (overloads : List (Shared MacroDefinition)) (argument : Node) :
    (admitting overloads argument).map Prod.fst = overloads.filterMap (·.value.score argument) := by
  rw [admitting, List.map_filterMap]
  refine List.filterMap_congr fun entry _ => ?_
  cases entry.value.score argument <;> rfl

lemma filter_admitting (overloads : List (Shared MacroDefinition)) (argument : Node) (best : Nat) :
    ((admitting overloads argument).filter fun entry => entry.1 = best).map Prod.snd
      = overloads.filter (·.value.score argument = some best) := by
  induction overloads with
  | nil => rfl
  | cons entry rest ih =>
    rw [admitting] at ih
    rw [admitting, List.filterMap_cons, List.filter_cons]
    cases score : entry.value.score argument with
    | none => simpa using ih
    | some n => by_cases same : n = best <;> simpa [same] using ih

/-- **The answer**, by how many overloads have the least score. -/
lemma resolve_eq (registry : MacroRegistry) (name : String) (kind : MacroKind) (argument : Node) :
    registry.resolve name kind argument =
      if (registry.group ⟨name, kind⟩).isEmpty then .ok none
      else match registry.leaders name kind argument with
        | [] => .error (Report.of (.wrongUsage name ((registry.named name).map (·.value.header))))
        | [winner] => .ok (some winner)
        | winners => .error (Report.of (.ambiguousInvocation name (winners.map (·.value.header)))) := by
  rw [resolve, leaders]
  refine ite_congr rfl (fun _ => rfl) fun _ => ?_
  generalize registry.group ⟨name, kind⟩ = overloads
  dsimp only
  rw [map_fst_admitting]
  cases least : (overloads.filterMap (·.value.score argument)).min? with
  | none =>
    have none : overloads.filter (leads overloads argument) = [] := by
      refine List.filter_eq_nil_iff.mpr fun entry member leading => ?_
      obtain ⟨score, admits, -⟩ := leads_iff.mp leading
      have listed : score ∈ overloads.filterMap (·.value.score argument) :=
        List.mem_filterMap.mpr ⟨entry, member, admits⟩
      rw [List.min?_eq_none_iff.mp least] at listed
      cases listed
    rw [none]
  | some best =>
    obtain ⟨listed, minimal⟩ := List.min?_eq_some_iff.mp least
    obtain ⟨first, member, admits⟩ := List.mem_filterMap.mp listed
    have lower : ∀ other ∈ overloads, ∀ n, other.value.score argument = some n → best ≤ n :=
      fun other within n score => minimal n (List.mem_filterMap.mpr ⟨other, within, score⟩)
    have same : overloads.filter (·.value.score argument = some best)
        = overloads.filter (leads overloads argument) := by
      refine List.filter_congr fun entry within => ?_
      rw [Bool.eq_iff_iff, decide_eq_true_iff, leads_iff]
      refine ⟨fun score => ⟨best, score, lower⟩, ?_⟩
      rintro ⟨score, admitted, below⟩
      rw [admitted, Nat.le_antisymm (below first member best admits) (lower entry within score admitted)]
    have some : first ∈ overloads.filter (leads overloads argument) :=
      List.mem_filter.mpr ⟨member, leads_iff.mpr ⟨best, admits, lower⟩⟩
    dsimp only
    rw [filter_admitting, same]
    cases leaders : overloads.filter (leads overloads argument) with
    | nil =>
      rw [leaders] at some
      cases some
    | cons winner rest => cases rest <;> rfl

/-- Where an overload admits a node, one has the least score. -/
lemma leaders_eq_nil_iff : registry.leaders name kind argument = [] ↔
    ∀ entry ∈ registry.group ⟨name, kind⟩, entry.value.score argument = none := by
  rw [leaders]
  generalize registry.group ⟨name, kind⟩ = overloads
  rw [List.filter_eq_nil_iff]
  constructor
  · intro nobody entry member
    by_contra admits
    obtain ⟨n, admits⟩ := Option.ne_none_iff_exists'.mp admits
    cases least : (overloads.filterMap (·.value.score argument)).min? with
    | none =>
      have listed : n ∈ overloads.filterMap (·.value.score argument) :=
        List.mem_filterMap.mpr ⟨entry, member, admits⟩
      rw [List.min?_eq_none_iff.mp least] at listed
      cases listed
    | some best =>
      obtain ⟨listed, minimal⟩ := List.min?_eq_some_iff.mp least
      obtain ⟨first, within, score⟩ := List.mem_filterMap.mp listed
      refine nobody first within (leads_iff.mpr ⟨best, score, fun other among m larger => ?_⟩)
      exact minimal m (List.mem_filterMap.mpr ⟨other, among, larger⟩)
  · intro nobody entry member leading
    obtain ⟨score, admits, -⟩ := leads_iff.mp leading
    rw [nobody entry member] at admits
    cases admits

/-- In a registry in order a macro is told by its identity. -/
lemma Orderly.eq_of_identity (orderly : registry.Orderly) {a b : Shared MacroDefinition}
    (ha : a ∈ registry.definitions) (hb : b ∈ registry.definitions)
    (same : a.identity = b.identity) : a = b := by
  by_contra differ
  exact (orderly.apart.forall ha hb differ).1 same

lemma mem_group {signature : Signature} : entry ∈ registry.group signature ↔
    entry ∈ registry.definitions ∧ entry.value.signature = signature := by
  rw [group, List.mem_filter, decide_eq_true_iff]

/-- **One overload has the least score** if every other one that admits the node has a larger one. -/
lemma leaders_eq_singleton_iff (orderly : registry.Orderly) :
    registry.leaders name kind argument = [found] ↔
      found ∈ registry.group ⟨name, kind⟩ ∧
      ∃ score, found.value.score argument = some score ∧
        ∀ other ∈ registry.group ⟨name, kind⟩, other.identity ≠ found.identity →
          ∀ n, other.value.score argument = some n → score < n := by
  constructor
  · intro alone
    have leading : found ∈ registry.leaders name kind argument := alone ▸ List.mem_singleton_self found
    obtain ⟨member, leads⟩ := List.mem_filter.mp leading
    obtain ⟨score, admits, lower⟩ := leads_iff.mp leads
    refine ⟨member, score, admits, fun other among differ n larger => ?_⟩
    refine Nat.lt_of_le_of_ne (lower other among n larger) fun same => differ ?_
    have tied : other ∈ registry.leaders name kind argument :=
      List.mem_filter.mpr ⟨among, leads_iff.mpr ⟨n, larger, same ▸ lower⟩⟩
    rw [alone, List.mem_singleton] at tied
    rw [tied]
  · rintro ⟨member, score, admits, better⟩
    have leading : found ∈ registry.leaders name kind argument := by
      refine List.mem_filter.mpr ⟨member, leads_iff.mpr ⟨score, admits, fun other among n larger => ?_⟩⟩
      by_cases same : other.identity = found.identity
      · have same := orderly.eq_of_identity (mem_group.mp among).1 (mem_group.mp member).1 same
        rw [same, admits] at larger
        exact Nat.le_of_eq (Option.some.inj larger)
      · exact (better other among same n larger).le
    have all : ∀ other ∈ registry.leaders name kind argument, other = found := by
      intro other tied
      obtain ⟨among, leads⟩ := List.mem_filter.mp tied
      obtain ⟨n, larger, lower⟩ := leads_iff.mp leads
      by_contra differ
      refine absurd (better other among (fun same => differ ?_) n larger)
        (Nat.not_lt.mpr (lower found member score admits))
      exact orderly.eq_of_identity (mem_group.mp among).1 (mem_group.mp member).1 same
    have distinct : (registry.leaders name kind argument).Nodup := by
      have nodup : registry.definitions.Nodup :=
        orderly.apart.imp fun apart same => apart.1 (congrArg _ same)
      exact (nodup.filter _).filter _
    refine List.perm_singleton.mp ((List.perm_ext_iff_of_nodup distinct (List.nodup_singleton _)).mpr
      fun other => ?_)
    rw [List.mem_singleton]
    exact ⟨all other, fun same => same ▸ leading⟩

/-! ## The order of registration -/

/-- **The same answer**, up to the order of hints. -/
def SameAnswer : Except Report (Option (Shared MacroDefinition)) →
    Except Report (Option (Shared MacroDefinition)) → Prop
  | .ok a, .ok b => a = b
  | .error a, .error b => a.SameUpToHints b
  | _, _ => False

lemma sameUpToHints_wrongUsage (name : String) {declared others : List String}
    (same : declared.Perm others) :
    (Report.of (.wrongUsage name declared)).SameUpToHints (Report.of (.wrongUsage name others)) :=
  ⟨rfl, rfl, rfl, rfl, same.map _⟩

lemma sameUpToHints_ambiguousInvocation (name : String) {candidates others : List String}
    (same : candidates.Perm others) :
    (Report.of (.ambiguousInvocation name candidates)).SameUpToHints
      (Report.of (.ambiguousInvocation name others)) :=
  ⟨rfl, rfl, rfl, rfl, same.map _⟩

lemma perm_leaders (same : other.definitions.Perm registry.definitions) (name : String)
    (kind : MacroKind) (argument : Node) :
    (other.leaders name kind argument).Perm (registry.leaders name kind argument) := by
  have group : (other.group ⟨name, kind⟩).Perm (registry.group ⟨name, kind⟩) := same.filter _
  have leads : leads (other.group ⟨name, kind⟩) argument
      = MacroRegistry.leads (registry.group ⟨name, kind⟩) argument := by
    funext entry
    simp only [MacroRegistry.leads, group.all_eq]
  rw [leaders, leaders, leads]
  exact group.filter _

/-- **Registries of the same macros give the same answers**, in whatever order these stand. -/
theorem sameAnswer_of_perm (same : other.definitions.Perm registry.definitions) (name : String)
    (kind : MacroKind) (argument : Node) :
    SameAnswer (other.resolve name kind argument) (registry.resolve name kind argument) := by
  have group : (other.group ⟨name, kind⟩).Perm (registry.group ⟨name, kind⟩) := same.filter _
  have leaders := perm_leaders same name kind argument
  rw [resolve_eq, resolve_eq, group.isEmpty_eq]
  split
  · rfl
  · generalize other.leaders name kind argument = others, registry.leaders name kind argument = own
      at leaders
    cases own with
    | nil =>
      rw [leaders.eq_nil]
      exact sameUpToHints_wrongUsage name ((same.filter _).map _)
    | cons winner rest =>
      cases rest with
      | nil =>
        rw [leaders.eq_singleton]
        rfl
      | cons second rest =>
        have many : 2 ≤ others.length := by
          rw [leaders.length_eq, List.length_cons, List.length_cons]
          omega
        rcases others with - | ⟨first, - | ⟨next, others⟩⟩
        · exact absurd many (by simp)
        · exact absurd many (by simp)
        · exact sameUpToHints_ambiguousInvocation name (leaders.map _)

lemma perm_insertOrdered (new : Shared MacroDefinition) (entries : List (Shared MacroDefinition)) :
    (insertOrdered new entries).Perm (new :: entries) := by
  induction entries with
  | nil => exact List.Perm.refl _
  | cons first rest ih =>
    rw [insertOrdered]
    split
    · exact (ih.cons first).trans (List.Perm.swap new first rest)
    · exact List.Perm.refl _

/-- Macros that are apart from each other, and from those that are there, are all registered. -/
lemma exists_foldlM_add (registry : MacroRegistry) (ordered : entries.Pairwise Apart)
    (away : ∀ own ∈ registry.definitions, ∀ entry ∈ entries, Apart own entry) :
    ∃ larger, entries.foldlM add registry = .ok larger ∧
      larger.definitions.Perm (entries ++ registry.definitions) := by
  induction entries generalizing registry with
  | nil => exact ⟨registry, rfl, List.Perm.refl _⟩
  | cons entry rest ih =>
    obtain ⟨front, ordered⟩ := List.pairwise_cons.mp ordered
    have free : registry.complaint? entry = none :=
      complaint?_eq_none_iff.mpr fun own member => (away own member entry List.mem_cons_self).2
    obtain ⟨larger, registered, perm⟩ := ih ⟨insertOrdered entry registry.definitions⟩ ordered (by
      intro own member other among
      rcases mem_insertOrdered.mp member with rfl | member
      · exact front other among
      · exact away own member other (List.mem_cons_of_mem _ among))
    refine ⟨larger, ?_, perm.trans ?_⟩
    · rw [List.foldlM_cons, add_eq, free]
      exact registered
    · exact ((perm_insertOrdered entry registry.definitions).append_left rest).trans List.perm_middle

/-- **In whatever order macros are registered, all of them are**, if they can be in one. -/
lemma exists_registered (orderly : registry.Orderly) {order : List (Shared MacroDefinition)}
    (same : order.Perm registry.definitions) :
    ∃ other, order.foldlM add .empty = .ok other ∧ other.definitions.Perm registry.definitions := by
  have ordered : order.Pairwise Apart := same.symm.pairwise orderly.apart (Std.Symm.symm _ _)
  obtain ⟨other, registered, perm⟩ := exists_foldlM_add .empty ordered (List.forall_mem_nil _)
  refine ⟨other, registered, perm.trans ?_⟩
  rw [empty, List.append_nil]
  exact same

/-! ## The answer -/

lemma leaders_of_group_eq_nil (nobody : registry.group ⟨name, kind⟩ = []) :
    registry.leaders name kind argument = [] := by
  rw [leaders, nobody, List.filter_nil]

lemma resolve_eq_none_iff :
    registry.resolve name kind argument = .ok none ↔ registry.group ⟨name, kind⟩ = [] := by
  rw [resolve_eq]
  split
  case isTrue empty => exact iff_of_true rfl (List.isEmpty_iff.mp empty)
  case isFalse some =>
    refine iff_of_false ?_ fun empty => some (List.isEmpty_iff.mpr empty)
    split <;> nofun

lemma resolve_eq_some_iff :
    registry.resolve name kind argument = .ok (some found)
      ↔ registry.leaders name kind argument = [found] := by
  by_cases empty : registry.group ⟨name, kind⟩ = []
  · rw [resolve_eq_none_iff.mpr empty, leaders_of_group_eq_nil empty]
    exact iff_of_false nofun nofun
  · rw [resolve_eq, if_neg (List.isEmpty_iff.not.mpr empty)]
    generalize registry.leaders name kind argument = leading
    cases leading with
    | nil => exact iff_of_false nofun nofun
    | cons winner rest => cases rest <;> simp

lemma resolve_eq_error_iff {report : Report} :
    registry.resolve name kind argument = .error report ↔
      (registry.group ⟨name, kind⟩ ≠ [] ∧ registry.leaders name kind argument = [] ∧
        report = .of (.wrongUsage name ((registry.named name).map (·.value.header)))) ∨
      (2 ≤ (registry.leaders name kind argument).length ∧
        report = .of (.ambiguousInvocation name
          ((registry.leaders name kind argument).map (·.value.header)))) := by
  by_cases empty : registry.group ⟨name, kind⟩ = []
  · rw [resolve_eq_none_iff.mpr empty, leaders_of_group_eq_nil empty]
    simp [empty]
  · rw [resolve_eq, if_neg (List.isEmpty_iff.not.mpr empty)]
    generalize registry.leaders name kind argument = leading
    cases leading with
    | nil => simp [empty, eq_comm (b := report)]
    | cons winner rest => cases rest <;> simp [eq_comm (b := report)]

/-- **The answer to a node.**  There is none if no macro has its signature.  Otherwise it is the overload
that admits the node with a smaller score than every other one, a mistake if none admits it, and a
mistake that names all of the least score if there are several.  Registered in another order, the same
macros give the same answer. -/
theorem resolve_of_reachable (reachable : registry.Reachable made) (name : String) (kind : MacroKind)
    (argument : Node) :
    (registry.resolve name kind argument = .ok none ↔
      ∀ entry ∈ registry.definitions, entry.value.signature ≠ ⟨name, kind⟩) ∧
    (∀ found, registry.resolve name kind argument = .ok (some found) ↔
      found ∈ registry.group ⟨name, kind⟩ ∧
      ∃ score, found.value.score argument = some score ∧
        ∀ other ∈ registry.group ⟨name, kind⟩, other.identity ≠ found.identity →
          ∀ n, other.value.score argument = some n → score < n) ∧
    (∀ report, registry.resolve name kind argument = .error report ↔
      (registry.group ⟨name, kind⟩ ≠ [] ∧
        (∀ entry ∈ registry.group ⟨name, kind⟩, entry.value.score argument = none) ∧
        report = .of (.wrongUsage name ((registry.named name).map (·.value.header)))) ∨
      (2 ≤ (registry.leaders name kind argument).length ∧
        report = .of (.ambiguousInvocation name
          ((registry.leaders name kind argument).map (·.value.header))))) ∧
    (∀ other : MacroRegistry, other.definitions.Perm registry.definitions →
      SameAnswer (other.resolve name kind argument) (registry.resolve name kind argument)) ∧
    ∀ order : List (Shared MacroDefinition), order.Perm registry.definitions →
      ∃ other, order.foldlM add .empty = .ok other ∧
        SameAnswer (other.resolve name kind argument) (registry.resolve name kind argument) := by
  have orderly := reachable.orderly
  refine ⟨?_, fun found => ?_, fun report => ?_, fun other same => ?_, fun order same => ?_⟩
  · rw [resolve_eq_none_iff, group, List.filter_eq_nil_iff]
    exact forall₂_congr fun entry _ => by rw [decide_eq_true_iff]
  · rw [← leaders_eq_singleton_iff orderly, resolve_eq_some_iff]
  · rw [← leaders_eq_nil_iff, resolve_eq_error_iff]
  · exact sameAnswer_of_perm same name kind argument
  · obtain ⟨other, registered, perm⟩ := exists_registered orderly same
    exact ⟨other, registered, sameAnswer_of_perm perm name kind argument⟩

theorem resolve_of_reachable_overloads :
    let registry := registered Definitions.someMacros [3, 0, 1]
    let argument := Node.listOf "g" [.plain "1", .plain "2"] false
    registry.Reachable Definitions.someMacros ∧
      registry.resolve "g" .list argument = .ok (some ⟨3, Definitions.someMacros 3⟩) ∧
      ∃ score, (Definitions.someMacros 3).score argument = some score ∧
        ∀ other ∈ registry.group ⟨"g", .list⟩, other.identity ≠ 3 →
          ∀ n, other.value.score argument = some n → score < n := by
  intro registry argument
  have reachable : registry.Reachable Definitions.someMacros := reachable_registered _ _
  have answer : registry.resolve "g" .list argument = .ok (some ⟨3, Definitions.someMacros 3⟩) := rfl
  obtain ⟨-, chosen, -⟩ := resolve_of_reachable reachable "g" .list argument
  obtain ⟨-, better⟩ := (chosen _).mp answer
  exact ⟨reachable, answer, better⟩

end MacroRegistry

end TreeLang
