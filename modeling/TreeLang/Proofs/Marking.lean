import TreeLang.Proofs.Invoking
import TreeLang.Proofs.Totality

/-!
# The marks of a template

While a template is read its nodes are taken apart, wrapped, dropped and replaced, and marks are
put on some of them by their numbers.  What keeps the marks right is one invariant about all nodes
at hand: a marked number was given out since the template began, and occurs once among them.

A node that a macro brings in may spoil it.  Templates have forgotten their numbers, but the
fallback of a parameter has not, and one that was imported carries numbers of another compilation.
As long as none of these is given out again nothing is confused.

* `Node.occurrences` — how often a number occurs among some nodes.
* `Exact` — every mark is on one node that is at hand.
* `Exact.make`, `Exact.refer`, `Exact.defer`, `Exact.drop` — what the steps of reading do to it.
* `Clash` — a foreign number was given out again.
* `Tracks` — what is kept up while a template is read.
* **`upkeep_tracks`** — every step keeps it up.
-/

namespace TreeLang

namespace Node

/-! ## Occurrences of numbers -/

/-- How often a number occurs among some nodes. -/
def occurrences (nodes : List Node) (number : Nat) : Nat :=
  (nodes.flatMap numbers).count number

variable {number : Nat} {nodes others : List Node}

@[simp] lemma occurrences_cons (node : Node) (nodes : List Node) (number : Nat) :
    occurrences (node :: nodes) number = node.numbers.count number + occurrences nodes number := by
  simp [occurrences]

@[simp] lemma occurrences_append (nodes others : List Node) (number : Nat) :
    occurrences (nodes ++ others) number
      = occurrences nodes number + occurrences others number := by
  simp [occurrences]

lemma occurrences_perm (perm : nodes.Perm others) (number : Nat) :
    occurrences nodes number = occurrences others number :=
  (perm.flatMap_right numbers).count_eq number

lemma occurrences_pos {node : Node} (member : node ∈ nodes) (inside : number ∈ node.numbers) :
    0 < occurrences nodes number :=
  List.count_pos_iff.mpr (List.mem_flatMap.mpr ⟨node, member, inside⟩)

lemma occurrences_eq_zero (h : ∀ node ∈ nodes, number ∉ node.numbers) :
    occurrences nodes number = 0 := by
  refine List.count_eq_zero_of_not_mem fun member => ?_
  obtain ⟨node, member, inside⟩ := List.mem_flatMap.mp member
  exact h node member inside

/-- A number that occurs once is in one of the nodes. -/
lemma apart {node other : Node} (single : occurrences (node :: nodes) number = 1)
    (here : number ∈ node.numbers) (member : other ∈ nodes) : number ∉ other.numbers := by
  intro there
  have first : 0 < node.numbers.count number := List.count_pos_iff.mpr here
  have second := occurrences_pos member there
  rw [occurrences_cons] at single
  omega

end Node

open Node (occurrences)

/-! ## Marks that are exact -/

/-- **Every mark is on one node that is at hand.**  The marked numbers were given out behind `floor`
and up to `top`, and an invocation that waits depends on a parameter. -/
structure Exact (floor top : Nat) (references deferred : List Nat) (held : List Node) : Prop where
  references_nodup : references.Nodup
  deferred_nodup : deferred.Nodup
  recent : ∀ number, number ∈ references ∨ number ∈ deferred → floor < number ∧ number ≤ top
  once : ∀ number, number ∈ references ∨ number ∈ deferred → occurrences held number = 1
  depends : ∀ node ∈ held, (∃ number ∈ node.numbers, number ∈ deferred) →
    ∃ number ∈ node.numbers, number ∈ references
  leaves : ∀ value origin, Node.primitive value origin ∈ held → origin.id ∉ deferred

namespace Exact

variable {floor top : Nat} {references deferred kept : List Nat} {node : Node}
  {held others parts : List Node}

lemma start (floor top : Nat) : Exact floor top [] [] [] :=
  ⟨.nil, .nil, by simp, by simp, by simp, by simp⟩

lemma perm (exact : Exact floor top references deferred held) (perm : held.Perm others) :
    Exact floor top references deferred others where
  references_nodup := exact.references_nodup
  deferred_nodup := exact.deferred_nodup
  recent := exact.recent
  once := fun number marked => Node.occurrences_perm perm number ▸ exact.once number marked
  depends := fun node member => exact.depends node (perm.mem_iff.mpr member)
  leaves := fun value origin member => exact.leaves value origin (perm.mem_iff.mpr member)

lemma raise {higher : Nat} (exact : Exact floor top references deferred held)
    (le : top ≤ higher) : Exact floor higher references deferred held where
  references_nodup := exact.references_nodup
  deferred_nodup := exact.deferred_nodup
  recent := fun number marked =>
    ⟨(exact.recent number marked).1, Nat.le_trans (exact.recent number marked).2 le⟩
  once := exact.once
  depends := exact.depends
  leaves := exact.leaves

/-- A number of a node that refers to nothing is not marked. -/
lemma unmarked (exact : Exact floor top references deferred (node :: held))
    (free : ∀ number ∈ node.numbers, number ∉ references) {number : Nat}
    (member : number ∈ node.numbers) : ¬ (number ∈ references ∨ number ∈ deferred) := by
  rintro (marked | marked)
  · exact free number member marked
  · obtain ⟨other, member, marked⟩ := exact.depends node List.mem_cons_self ⟨number, member, marked⟩
    exact free other member marked

/-- A node that refers to nothing can be left out. -/
lemma leave (exact : Exact floor top references deferred (node :: held))
    (free : ∀ number ∈ node.numbers, number ∉ references) :
    Exact floor top references deferred held where
  references_nodup := exact.references_nodup
  deferred_nodup := exact.deferred_nodup
  recent := exact.recent
  once := by
    intro number marked
    have single := exact.once number marked
    have absent : node.numbers.count number = 0 :=
      List.count_eq_zero_of_not_mem fun member => exact.unmarked free member marked
    rw [Node.occurrences_cons] at single
    omega
  depends := fun other member => exact.depends other (List.mem_cons_of_mem _ member)
  leaves := fun value origin member => exact.leaves value origin (List.mem_cons_of_mem _ member)

/-- A node without a mark can be brought in. -/
lemma bring (exact : Exact floor top references deferred held)
    (free : ∀ number ∈ node.numbers, ¬ (number ∈ references ∨ number ∈ deferred)) :
    Exact floor top references deferred (node :: held) where
  references_nodup := exact.references_nodup
  deferred_nodup := exact.deferred_nodup
  recent := exact.recent
  once := by
    intro number marked
    have single := exact.once number marked
    have absent : node.numbers.count number = 0 :=
      List.count_eq_zero_of_not_mem fun member => free number member marked
    rw [Node.occurrences_cons]
    omega
  depends := by
    rintro other member ⟨number, inside, marked⟩
    rcases List.mem_cons.mp member with rfl | member
    · exact absurd (.inr marked) (free number inside)
    · exact exact.depends other member ⟨number, inside, marked⟩
  leaves := by
    intro value origin member marked
    rcases List.mem_cons.mp member with rfl | member
    · exact free origin.id (Node.id_mem_numbers _) (.inr marked)
    · exact exact.leaves value origin member marked

/-- **A new node is made around some parts.** -/
lemma make (exact : Exact floor top references deferred (parts ++ held))
    (numbers : node.numbers = node.id :: parts.flatMap Node.numbers)
    (free : ¬ (node.id ∈ references ∨ node.id ∈ deferred)) :
    Exact floor top references deferred (node :: held) where
  references_nodup := exact.references_nodup
  deferred_nodup := exact.deferred_nodup
  recent := exact.recent
  once := by
    intro number marked
    have other : node.id ≠ number := fun same => free (same ▸ marked)
    rw [Node.occurrences_cons, numbers, List.count_cons_of_ne other, ← exact.once number marked,
      Node.occurrences_append]
    rfl
  depends := by
    rintro other member ⟨number, inside, marked⟩
    rcases List.mem_cons.mp member with rfl | member
    · rw [numbers] at inside ⊢
      rcases List.mem_cons.mp inside with rfl | inside
      · exact absurd (.inr marked) free
      obtain ⟨part, member, inside⟩ := List.mem_flatMap.mp inside
      obtain ⟨target, inside, refers⟩ :=
        exact.depends part (List.mem_append_left _ member) ⟨number, inside, marked⟩
      exact ⟨target, List.mem_cons_of_mem _ (List.mem_flatMap.mpr ⟨part, member, inside⟩), refers⟩
    · exact exact.depends other (List.mem_append_right _ member) ⟨number, inside, marked⟩
  leaves := by
    intro value origin member marked
    rcases List.mem_cons.mp member with rfl | member
    · exact free (.inr marked)
    · exact exact.leaves value origin (List.mem_append_right _ member) marked

/-- **A node becomes a reference**; references inside it may be given up. -/
lemma refer (exact : Exact floor top references deferred (node :: held))
    (sublist : kept.Sublist references)
    (given : ∀ number ∈ references, number ∉ kept → number ∈ node.numbers)
    (single : occurrences (node :: held) node.id = 1) (recent : floor < node.id ∧ node.id ≤ top) :
    Exact floor top (node.id :: kept.filter (· ≠ node.id)) deferred (node :: held) where
  references_nodup :=
    List.nodup_cons.mpr ⟨by simp, (exact.references_nodup.sublist sublist).filter _⟩
  deferred_nodup := exact.deferred_nodup
  recent := by
    rintro number (marked | marked)
    · rcases List.mem_cons.mp marked with rfl | marked
      · exact recent
      · exact exact.recent number (.inl (sublist.subset (List.mem_of_mem_filter marked)))
    · exact exact.recent number (.inr marked)
  once := by
    rintro number (marked | marked)
    · rcases List.mem_cons.mp marked with rfl | marked
      · exact single
      · exact exact.once number (.inl (sublist.subset (List.mem_of_mem_filter marked)))
    · exact exact.once number (.inr marked)
  depends := by
    intro other member waiting
    rcases List.mem_cons.mp member with rfl | member
    · exact ⟨other.id, other.id_mem_numbers, List.mem_cons_self⟩
    obtain ⟨number, inside, refers⟩ := exact.depends other (List.mem_cons_of_mem _ member) waiting
    have stays : number ∈ kept := by
      by_contra gone
      exact Node.apart (exact.once number (.inl refers)) (given number refers gone) member inside
    have differs : number ≠ node.id := by
      rintro rfl
      exact Node.apart single node.id_mem_numbers member inside
    exact ⟨number, inside, List.mem_cons_of_mem _ (List.mem_filter.mpr ⟨stays, by simpa⟩)⟩
  leaves := exact.leaves

/-- **A node that depends on a parameter waits** to be expanded. -/
lemma defer (exact : Exact floor top references deferred (node :: held))
    (depends : ∃ number ∈ node.numbers, number ∈ references)
    (group : ∀ value origin, node ≠ .primitive value origin)
    (single : occurrences (node :: held) node.id = 1) (recent : floor < node.id ∧ node.id ≤ top) :
    Exact floor top references (node.id :: deferred.filter (· ≠ node.id)) (node :: held) where
  references_nodup := exact.references_nodup
  deferred_nodup := List.nodup_cons.mpr ⟨by simp, exact.deferred_nodup.filter _⟩
  recent := by
    rintro number (marked | marked)
    · exact exact.recent number (.inl marked)
    · rcases List.mem_cons.mp marked with rfl | marked
      · exact recent
      · exact exact.recent number (.inr (List.mem_of_mem_filter marked))
  once := by
    rintro number (marked | marked)
    · exact exact.once number (.inl marked)
    · rcases List.mem_cons.mp marked with rfl | marked
      · exact single
      · exact exact.once number (.inr (List.mem_of_mem_filter marked))
  depends := by
    rintro other member ⟨number, inside, marked⟩
    rcases List.mem_cons.mp member with rfl | member'
    · exact depends
    · rcases List.mem_cons.mp marked with rfl | marked
      · exact absurd inside (Node.apart single node.id_mem_numbers member')
      · exact exact.depends other member ⟨number, inside, List.mem_of_mem_filter marked⟩
  leaves := by
    intro value origin member marked
    rcases List.mem_cons.mp marked with same | marked
    · rcases List.mem_cons.mp member with rfl | member
      · exact group value origin rfl
      · exact Node.apart single node.id_mem_numbers member (by simp [same])
    · exact exact.leaves value origin member (List.mem_of_mem_filter marked)

/-- **A node is dropped**, and the marks on it and below it are forgotten. -/
lemma drop (exact : Exact floor top references deferred (node :: held)) :
    Exact floor top (references.filter (· ∉ node.numbers)) (deferred.filter (· ∉ node.numbers))
      held := by
  have kept : ∀ number, number ∈ references.filter (· ∉ node.numbers) ∨
      number ∈ deferred.filter (· ∉ node.numbers) →
        (number ∈ references ∨ number ∈ deferred) ∧ number ∉ node.numbers := by
    intro number marked
    simp only [List.mem_filter, decide_eq_true_eq] at marked
    tauto
  refine ⟨exact.references_nodup.filter _, exact.deferred_nodup.filter _,
    fun number marked => exact.recent number (kept number marked).1, ?_, ?_, ?_⟩
  · intro number marked
    have single := exact.once number (kept number marked).1
    rw [Node.occurrences_cons, List.count_eq_zero_of_not_mem (kept number marked).2] at single
    omega
  · rintro other member ⟨number, inside, marked⟩
    obtain ⟨target, inside, refers⟩ := exact.depends other (List.mem_cons_of_mem _ member)
      ⟨number, inside, List.mem_of_mem_filter marked⟩
    refine ⟨target, inside, List.mem_filter.mpr ⟨refers, decide_eq_true fun here => ?_⟩⟩
    exact Node.apart (exact.once target (.inl refers)) here member inside
  · intro value origin member marked
    exact exact.leaves value origin (List.mem_cons_of_mem _ member) (List.mem_of_mem_filter marked)

end Exact

/-! ## Marks and scopes -/

namespace TemplateScope

lemma mentionsParameter_iff {scope : TemplateScope} {node : Node} :
    scope.mentionsParameter node = true
      ↔ ∃ number ∈ node.numbers, number ∈ scope.references.keys := by
  simp only [mentionsParameter, List.any_eq_true, Marks.contains_iff, Node.numbers, List.mem_map]
  constructor
  · rintro ⟨entry, member, marked⟩
    exact ⟨_, ⟨entry, member, rfl⟩, marked⟩
  · rintro ⟨_, ⟨entry, member, rfl⟩, marked⟩
    exact ⟨entry, member, marked⟩

/-- The marks on some nodes are forgotten one after the other. -/
lemma foldl_erase (visited : List (Path × Node)) (scope : TemplateScope) :
    visited.foldl (fun scope (_, inner) => { scope with
        references := scope.references.erase inner.id
        deferred := scope.deferred.erase inner.id }) scope = ⟨scope.parameters,
      ⟨scope.references.entries.filter fun entry => entry.1 ∉ visited.map (·.2.id)⟩,
      ⟨scope.deferred.entries.filter fun entry => entry.1 ∉ visited.map (·.2.id)⟩⟩ := by
  induction visited generalizing scope with
  | nil => simp
  | cons entry rest ih =>
    rw [List.foldl_cons, ih]
    simp only [Marks.erase, List.filter_filter, List.map_cons, List.mem_cons, not_or,
      Bool.decide_and, Bool.and_comm, ne_eq, decide_not]

/-- Dropping a node forgets the marks on its numbers, and no others. -/
lemma drop_eq (scope : TemplateScope) (node : Node) :
    scope.drop node = ⟨scope.parameters,
      ⟨scope.references.entries.filter fun entry => entry.1 ∉ node.numbers⟩,
      ⟨scope.deferred.entries.filter fun entry => entry.1 ∉ node.numbers⟩⟩ :=
  foldl_erase node.nodes scope

end TemplateScope

/-! ## Keeping track while a template is read -/

/-- **A foreign number was given out again**, behind `floor` and up to `top`. -/
def Clash (foreign : Nat → Prop) (floor top : Nat) : Prop :=
  ∃ number, foreign number ∧ floor < number ∧ number ≤ top

lemma Clash.raise {foreign : Nat → Prop} {floor top higher : Nat} (clash : Clash foreign floor top)
    (le : top ≤ higher) : Clash foreign floor higher := by
  obtain ⟨number, brought, above, below⟩ := clash
  exact ⟨number, brought, above, Nat.le_trans below le⟩

/-- The state after one more number was given out. -/
abbrev ParserState.numbered (s : ParserState) : ParserState :=
  { s with lastId := s.lastId + 1 }

/-- The state after a change to the marks. -/
abbrev ParserState.remarked (s : ParserState) (change : TemplateScope → TemplateScope) :
    ParserState :=
  { s with scope := s.scope.map change }

namespace Parser

/-- **What is kept up while a template is read** whose first new number comes behind `floor`.  The
marks are exact unless a number that a macro in force brings with it was given out again.  Where no
template is read there are no marks. -/
structure Tracks (names : List String) (foreign : Nat → Prop) (floor : Nat) (s : ParserState)
    (held : List Node) : Prop where
  sound : ∀ entry ∈ s.visible.macros.definitions,
    entry.value.Sound ∧ entry.value.Fallbacks (Node.Within foreign)
  shallow : s.depth = 0
  above : floor ≤ s.lastId
  known : ∀ node ∈ held, node.Within fun number => number ≤ s.lastId ∨ foreign number
  parameters : ∀ scope ∈ s.scope, scope.parameters = names
  named : ∀ scope ∈ s.scope, ∀ mark ∈ scope.references.entries, mark.2.parameter < names.length
  marks : ∀ scope ∈ s.scope, Clash foreign floor s.lastId ∨
    Exact floor s.lastId scope.references.keys scope.deferred.keys held

/-- A node whose number was given out behind `floor`, and occurs once unless there is a clash. -/
structure Newest (foreign : Nat → Prop) (floor : Nat) (s : ParserState) (node : Node)
    (held : List Node) : Prop where
  recent : floor < node.id ∧ node.id ≤ s.lastId
  single : Clash foreign floor s.lastId ∨ occurrences (node :: held) node.id = 1

variable {names : List String} {foreign : Nat → Prop} {floor : Nat} {s t : ParserState}
  {held others parts : List Node} {node receiver member : Node}

namespace Tracks

lemma unmade (tracks : Tracks names foreign floor s held) (unmade : Unmade s t) :
    Tracks names foreign floor t held := by
  obtain ⟨sound, shallow, above, known, parameters, named, marks⟩ := tracks
  refine ⟨unmade.visible ▸ sound, unmade.depth.trans shallow, ?_, ?_, unmade.scope ▸ parameters,
    unmade.scope ▸ named, ?_⟩
  · rwa [unmade.lastId]
  · rwa [unmade.lastId]
  · rwa [unmade.scope, unmade.lastId]

lemma perm (tracks : Tracks names foreign floor s held) (perm : held.Perm others) :
    Tracks names foreign floor s others where
  sound := tracks.sound
  shallow := tracks.shallow
  above := tracks.above
  known := fun node member => tracks.known node (perm.mem_iff.mpr member)
  parameters := tracks.parameters
  named := tracks.named
  marks := fun scope inside => (tracks.marks scope inside).imp_right fun exact => exact.perm perm

/-- A new number is in no node that is at hand, unless there is a clash. -/
lemma fresh (tracks : Tracks names foreign floor s held) :
    Clash foreign floor (s.lastId + 1) ∨ occurrences held (s.lastId + 1) = 0 := by
  refine or_iff_not_imp_left.mpr fun apart => Node.occurrences_eq_zero fun node member inside => ?_
  rcases tracks.known node member _ inside with old | brought
  · exact absurd old (Nat.not_succ_le_self _)
  · exact apart ⟨_, brought, Nat.lt_succ_of_le tracks.above, Nat.le_refl _⟩

/-- A node gets the new number. -/
lemma make (tracks : Tracks names foreign floor s (parts ++ held)) (new : node.id = s.lastId + 1)
    (numbers : node.numbers = node.id :: parts.flatMap Node.numbers) :
    Tracks names foreign floor s.numbered (node :: held) where
  sound := tracks.sound
  shallow := tracks.shallow
  above := Nat.le_succ_of_le tracks.above
  known := by
    intro other member number inside
    have old : ∀ part ∈ parts ++ held, number ∈ part.numbers →
        number ≤ s.lastId + 1 ∨ foreign number := fun part member inside =>
      (tracks.known part member number inside).imp_left Nat.le_succ_of_le
    rcases List.mem_cons.mp member with rfl | member
    · rw [numbers] at inside
      rcases List.mem_cons.mp inside with rfl | inside
      · exact .inl (Nat.le_of_eq new)
      · obtain ⟨part, member, inside⟩ := List.mem_flatMap.mp inside
        exact old part (List.mem_append_left _ member) inside
    · exact old other (List.mem_append_right _ member) inside
  parameters := tracks.parameters
  named := tracks.named
  marks := by
    intro scope inside
    rcases tracks.marks scope inside with clash | exact
    · exact .inl (clash.raise (Nat.le_succ _))
    · refine .inr ((exact.raise (Nat.le_succ _)).make numbers fun marked => ?_)
      have below := (exact.recent _ marked).2
      omega

/-- It occurs nowhere else. -/
lemma newest (tracks : Tracks names foreign floor s (parts ++ held)) (new : node.id = s.lastId + 1)
    (numbers : node.numbers = node.id :: parts.flatMap Node.numbers) :
    Newest foreign floor s.numbered node held where
  recent := ⟨new ▸ Nat.lt_succ_of_le tracks.above, Nat.le_of_eq new⟩
  single := by
    refine tracks.fresh.imp_right fun absent => ?_
    rw [← new, Node.occurrences_append] at absent
    have parts : (parts.flatMap Node.numbers).count node.id = occurrences parts node.id := rfl
    rw [Node.occurrences_cons, numbers, List.count_cons_self, parts]
    omega

/-- **The marks change.** -/
lemma remark (tracks : Tracks names foreign floor s held)
    {change : TemplateScope → TemplateScope}
    (parameters : ∀ scope ∈ s.scope, (change scope).parameters = scope.parameters)
    (named : ∀ scope ∈ s.scope, ∀ mark ∈ (change scope).references.entries,
      mark.2.parameter < names.length)
    (known : ∀ node ∈ others, node.Within fun number => number ≤ s.lastId ∨ foreign number)
    (marks : ∀ scope ∈ s.scope,
      Exact floor s.lastId scope.references.keys scope.deferred.keys held →
        Clash foreign floor s.lastId ∨
          Exact floor s.lastId (change scope).references.keys (change scope).deferred.keys others) :
    Tracks names foreign floor (s.remarked change) others where
  sound := tracks.sound
  shallow := tracks.shallow
  above := tracks.above
  known := known
  parameters := by
    intro changed inside
    obtain ⟨scope, here, rfl⟩ := Option.map_eq_some_iff.mp inside
    exact (parameters scope here).trans (tracks.parameters scope here)
  named := by
    intro changed inside
    obtain ⟨scope, here, rfl⟩ := Option.map_eq_some_iff.mp inside
    exact named scope here
  marks := by
    intro changed inside
    obtain ⟨scope, here, rfl⟩ := Option.map_eq_some_iff.mp inside
    rcases tracks.marks scope here with clash | exact
    · exact .inl clash
    · exact marks scope here exact

lemma named_insert {references : Marks Reference} {kept : Marks Reference} {id parameter : Nat}
    {target : ReplacementTarget} (sublist : kept.entries.Sublist references.entries)
    (named : ∀ mark ∈ references.entries, mark.2.parameter < names.length)
    (parameter_lt : parameter < names.length) :
    ∀ mark ∈ (kept.insert id ⟨parameter, target⟩).entries, mark.2.parameter < names.length := by
  intro mark member
  rcases List.mem_cons.mp member with rfl | member
  · exact parameter_lt
  · exact named mark (sublist.subset (List.mem_of_mem_filter member))

/-- A new node becomes a reference. -/
lemma refer (tracks : Tracks names foreign floor s (node :: held))
    (newest : Newest foreign floor s node held) {parameter : Nat}
    (parameter_lt : parameter < names.length) (target : ReplacementTarget) :
    Tracks names foreign floor (s.remarked fun scope =>
      { scope with references := scope.references.insert node.id ⟨parameter, target⟩ })
      (node :: held) := by
  refine tracks.remark (fun _ _ => rfl)
    (fun scope inside => named_insert (List.Sublist.refl _) (tracks.named scope inside)
      parameter_lt) tracks.known fun scope _ exact => newest.single.imp_right fun single => ?_
  rw [Marks.keys_insert]
  exact exact.refer (List.Sublist.refl _) (fun number here gone => absurd here gone) single
    newest.recent

/-- A new node waits to be expanded. -/
lemma defer (tracks : Tracks names foreign floor s (node :: held))
    (newest : Newest foreign floor s node held)
    (group : ∀ value origin, node ≠ .primitive value origin) (kind : MacroKind)
    (depends : ∀ scope ∈ s.scope, scope.mentionsParameter node = true) :
    Tracks names foreign floor (s.remarked fun scope =>
      { scope with deferred := scope.deferred.insert node.id kind }) (node :: held) := by
  refine tracks.remark (fun _ _ => rfl) tracks.named tracks.known
    fun scope inside exact => newest.single.imp_right fun single => ?_
  rw [Marks.keys_insert]
  exact exact.defer (TemplateScope.mentionsParameter_iff.mp (depends scope inside)) group single
    newest.recent

/-- A node is dropped with its marks. -/
lemma drop (tracks : Tracks names foreign floor s (node :: held)) :
    Tracks names foreign floor (s.remarked (·.drop node)) held := by
  refine tracks.remark (fun scope _ => by rw [TemplateScope.drop_eq]) ?_
    (fun other member => tracks.known other (List.mem_cons_of_mem _ member))
    fun scope _ exact => .inr ?_
  · intro scope inside mark member
    rw [TemplateScope.drop_eq] at member
    exact tracks.named scope inside mark (List.mem_of_mem_filter member)
  · rw [TemplateScope.drop_eq]
    have dropped := exact.drop
    simp only [Marks.keys, List.filter_map] at dropped
    exact dropped

end Tracks

/-! ## Expanding -/

lemma Makes.behind {α : Type} {holds : ParserState → List Node → Prop} {first : Parser α}
    {next : α → Parser Node} {value : α} (step : first s = .ok value t)
    (makes : Makes holds (next value) t held) : Makes holds (first >>= next) s held := by
  obtain ⟨made, u, hnext, h⟩ := makes
  exact ⟨made, u, by rw [bind_ok step, hnext], h⟩

lemma Makes.of_pure {holds : ParserState → List Node → Prop} (h : holds s (node :: held)) :
    Makes holds (pure node) s held :=
  ⟨node, s, rfl, h⟩

/-- **A node that refers to nothing is offered to the macros in force.** -/
lemma makes_invoke (tracks : Tracks names foreign floor s (node :: held)) (kind : MacroKind)
    (free : ∀ scope ∈ s.scope,
      Clash foreign floor s.lastId ∨ scope.mentionsParameter node = false) :
    Makes (Tracks names foreign floor) (invoke node kind) s held := by
  set good : ParserState → Node → Prop := fun t made => s.lastId ≤ t.lastId ∧
    made.Within fun number => number ∈ node.numbers ∨ number = 0 ∨ foreign number ∨
      (s.lastId < number ∧ number ≤ t.lastId)
  have inherits : Inherits good := by
    refine ⟨fun t => ?_, ?_, ?_⟩
    · have within := Node.inherited_within fun number => number ∈ node.numbers ∨ number = 0 ∨
        foreign number ∨ (s.lastId < number ∧ number ≤ t.lastId)
      exact ⟨fun h found => ⟨h.1, within.child h.2 found⟩,
        fun h changed brought => ⟨h.1, within.modifyChild h.2 changed fun old new hold same =>
          (brought old new ⟨h.1, hold⟩ same).2⟩,
        fun name h => ⟨h.1, within.rename name h.2⟩,
        fun span h => ⟨h.1, within.withSpan span h.2⟩⟩
    · rintro t u made ⟨le, within⟩ later
      refine ⟨Nat.le_trans le later.lastId, within.mono fun number origin => ?_⟩
      have le := later.lastId
      rcases origin with old | zero | brought | ⟨above, below⟩
      · exact .inl old
      · exact .inr (.inl zero)
      · exact .inr (.inr (.inl brought))
      · exact .inr (.inr (.inr ⟨above, Nat.le_trans below le⟩))
    · rintro t u other offset ⟨le, -⟩ later new
      exact ⟨Nat.le_trans le later.lastId, Node.within_primitive
        (.inr (.inr (.inr ⟨new ▸ Nat.lt_succ_of_le le, Nat.le_refl _⟩)))⟩
  have armed : Armed good s := by
    intro entry member
    obtain ⟨sound, fallbacks⟩ := tracks.sound entry member
    exact ⟨sound, ⟨Nat.le_refl _, sound.forgets.mono fun _ zero => .inr (.inl zero)⟩,
      fun parameter member fallback has => ⟨Nat.le_refl _,
        (fallbacks parameter member fallback has).mono fun _ brought => .inr (.inr (.inl brought))⟩⟩
  obtain ⟨made, t, invoked, later, depth, le, within⟩ : Expands good (invoke node kind) s :=
    expands_invoke inherits armed (tracks.shallow ▸ Nat.zero_le _)
      ⟨Nat.le_refl _, fun number inside => Or.inl inside⟩
  refine ⟨made, t, invoked, ?_, depth.trans tracks.shallow, Nat.le_trans tracks.above le, ?_,
    later.scope ▸ tracks.parameters, later.scope ▸ tracks.named, ?_⟩
  · rw [later.visible]
    exact tracks.sound
  · intro other member number inside
    rcases List.mem_cons.mp member with rfl | member
    · rcases within number inside with old | zero | brought | ⟨-, below⟩
      · exact (tracks.known node List.mem_cons_self number old).imp_left (Nat.le_trans · le)
      · exact .inl (zero ▸ Nat.zero_le _)
      · exact .inr brought
      · exact .inl below
    · exact (tracks.known other (List.mem_cons_of_mem _ member) number inside).imp_left
        (Nat.le_trans · le)
  · intro scope inside
    rw [later.scope] at inside
    refine or_iff_not_imp_left.mpr fun apart => ?_
    have exact := (tracks.marks scope inside).resolve_left fun clash => apart (clash.raise le)
    have unreferred : ∀ number ∈ node.numbers, number ∉ scope.references.keys := by
      intro number inside' marked
      have mentions := TemplateScope.mentionsParameter_iff.mpr ⟨number, inside', marked⟩
      rw [(free scope inside).resolve_left fun clash => apart (clash.raise le)] at mentions
      cases mentions
    refine ((exact.leave unreferred).raise le).bring fun number inside marked => ?_
    obtain ⟨above, below⟩ := exact.recent number marked
    rcases within number inside with old | zero | brought | ⟨new, -⟩
    · exact exact.unmarked unreferred old marked
    · omega
    · exact apart ⟨number, brought, above, Nat.le_trans below le⟩
    · omega

/-- **A new node is expanded**, or waits for it. -/
lemma makes_expand (tracks : Tracks names foreign floor s (node :: held))
    (newest : Newest foreign floor s node held)
    (group : ∀ value origin, node ≠ .primitive value origin) (kind : MacroKind) :
    Makes (Tracks names foreign floor) (expand node kind) s held := by
  cases hscope : s.scope with
  | none =>
    have step : expand node kind s = invoke node kind s := by
      rw [expand, bind_get, hscope]
    obtain ⟨made, t, invoked, h⟩ := makes_invoke tracks kind (by simp [hscope])
    exact ⟨made, t, step.trans invoked, h⟩
  | some scope =>
    by_cases mentions : scope.mentionsParameter node = true
    · have waits := tracks.defer newest group kind fun other inside => by
        rw [hscope] at inside
        cases inside
        exact mentions
      refine ⟨node, _, ?_, waits⟩
      rw [expand, bind_get, hscope]
      dsimp only
      rw [if_pos mentions, bind_modify]
      simp [pure, EStateM.pure, ParserState.remarked, hscope]
    · have step : expand node kind s = invoke node kind s := by
        rw [expand, bind_get, hscope]
        dsimp only
        rw [if_neg mentions]
      obtain ⟨made, t, invoked, h⟩ := makes_invoke tracks kind fun other inside => by
        rw [hscope] at inside
        cases inside
        exact .inr (Bool.eq_false_iff.mpr mentions)
      exact ⟨made, t, step.trans invoked, h⟩

/-! ## The steps that make nodes -/

lemma noted (s : ParserState) (report : Report) :
    ∃ t, note report s = .ok () t ∧ Unmade s t := by
  refine ⟨_, note_eq _ s, ?_⟩
  split
  · exact ⟨rfl, rfl, rfl, rfl, List.prefix_refl _⟩
  · exact ⟨rfl, rfl, rfl, rfl, by simp⟩

lemma makes_refusal (tracks : Tracks names foreign floor s held) (offset : Nat) (cause : Cause) :
    Makes (Tracks names foreign floor) (do complain offset cause; placeholderAt offset) s held := by
  obtain ⟨t, noted, unmade⟩ := noted s (Report.errorAt offset cause)
  have bare : Tracks names foreign floor t ([] ++ held) := tracks.unmade unmade
  have made : Tracks names foreign floor t.numbered
      (.primitive placeholder ⟨t.lastId + 1, ⟨offset, offset⟩⟩ :: held) := bare.make rfl rfl
  exact ⟨_, _, by rw [complain, bind_ok noted]; rfl, made⟩

lemma freshId_eq (s : ParserState) : freshId s = .ok (s.lastId + 1) s.numbered := rfl

lemma parameterIndex?_eq (word : String) (s : ParserState) :
    parameterIndex? word s
      = .ok (s.scope.bind fun scope => scope.parameters.findIdx? (· = word)) s := rfl

lemma markReference_eq (id : Nat) (reference : Reference) (s : ParserState) :
    markReference id reference s = .ok () (s.remarked fun scope =>
      { scope with references := scope.references.insert id reference }) := rfl

/-- The index of a parameter is that of one of the names. -/
lemma Tracks.parameter (tracks : Tracks names foreign floor s held) {word : String} {index : Nat}
    (found : (s.scope.bind fun scope => scope.parameters.findIdx? (· = word)) = some index) :
    index < names.length := by
  obtain ⟨scope, inside, found⟩ := Option.bind_eq_some_iff.mp found
  rw [← tracks.parameters scope inside]
  exact (List.findIdx?_eq_some_iff_findIdx_eq.mp found).1

/-- A new node around no marked part refers to nothing. -/
lemma Tracks.free_of_new (tracks : Tracks names foreign floor s held) (value : String)
    (span : Span) : ∀ scope ∈ s.numbered.scope, Clash foreign floor s.numbered.lastId ∨
      scope.mentionsParameter (.primitive value ⟨s.lastId + 1, span⟩) = false := by
  intro scope inside
  rcases tracks.marks scope inside with clash | exact
  · exact .inl (clash.raise (Nat.le_succ _))
  · refine .inr (Bool.eq_false_iff.mpr fun mentions => ?_)
    obtain ⟨number, inside, marked⟩ := TemplateScope.mentionsParameter_iff.mp mentions
    have new : number = s.lastId + 1 := List.mem_singleton.mp inside
    have below := (exact.recent number (.inl marked)).2
    omega

lemma makes_primitive (tracks : Tracks names foreign floor s held) (token : Token)
    (expands : Bool) : Makes (Tracks names foreign floor) (primitive token expands) s held := by
  set node := Node.primitive token.content ⟨s.lastId + 1, ⟨token.start, token.stop⟩⟩
  have bare : Tracks names foreign floor s ([] ++ held) := tracks
  have made : Tracks names foreign floor s.numbered (node :: held) := bare.make rfl rfl
  have newest : Newest foreign floor s.numbered node held := bare.newest rfl rfl
  refine .behind (freshId_eq s) ?_
  dsimp only
  split
  · exact .of_pure made
  refine .behind (parameterIndex?_eq _ _) ?_
  cases found : s.numbered.scope.bind fun scope =>
      scope.parameters.findIdx? (· = token.content) with
  | some index =>
    exact .behind (markReference_eq _ _ _)
      (.of_pure (made.refer newest (tracks.parameter found) .value))
  | none =>
    dsimp only
    split
    · exact makes_invoke made .constant (tracks.free_of_new _ _)
    · exact .of_pure made

lemma makes_operatorNode (op : OperatorDefinition) (operands : List Node) (span : Span)
    (tracks : Tracks names foreign floor s (operands ++ held)) :
    Makes (Tracks names foreign floor) (operatorNode op operands span) s held := by
  have numbers : ∀ origin : Origin, (Node.list op.nodeName operands true origin).numbers
      = origin.id :: operands.flatMap Node.numbers := fun origin => Node.numbers_list _ _ _ _
  exact makes_expand (tracks.make rfl (numbers ⟨s.lastId + 1, span⟩))
    (tracks.newest rfl (numbers _)) (by simp) .operation

/-- The values of the call that an accessor builds. -/
def callValues (receiver : Node) : Node → List Node
  | .primitive _ _ => [receiver]
  | operand => [receiver, operand.rename ""]

/-- The text that a reference puts in front of a name. -/
def leadOf : ReplacementTarget → String
  | .name lead => lead
  | .value => ""

lemma accessorCall_eq (op : OperatorDefinition) (receiver member : Node) (span : Span)
    (s : ParserState) :
    accessorCall op receiver member span s =
      (let call := Node.list (op.nodeName ++ invokedName member) (callValues receiver member) false
        ⟨s.lastId + 1, span⟩
      let erased := (s.remarked fun scope =>
        { scope with references := scope.references.erase member.id }).numbered
      match s.scope.bind fun scope => scope.references.find? member.id with
      | some reference => expand call (.ofMember member) (erased.remarked fun scope =>
          { scope with references := scope.references.insert call.id ⟨reference.parameter,
            .name (op.nodeName ++ leadOf reference.target)⟩ })
      | none => expand call (.ofMember member) erased) := by
  rw [accessorCall.eq_def, bind_get]
  dsimp only
  rw [bind_modify, bind_ok (freshId_eq _)]
  cases s.scope.bind fun scope => scope.references.find? member.id <;> cases member <;> rfl

/-- A node that refers to nothing is left out. -/
lemma Tracks.leave (tracks : Tracks names foreign floor s (node :: held))
    (free : ∀ scope ∈ s.scope, ∀ number ∈ node.numbers, number ∉ scope.references.keys) :
    Tracks names foreign floor s held where
  sound := tracks.sound
  shallow := tracks.shallow
  above := tracks.above
  known := fun other member => tracks.known other (List.mem_cons_of_mem _ member)
  parameters := tracks.parameters
  named := tracks.named
  marks := fun scope inside =>
    (tracks.marks scope inside).imp_right fun exact => exact.leave (free scope inside)

lemma callValues_primitive {value : String} {origin : Origin} :
    callValues receiver (.primitive value origin) = [receiver] := rfl

lemma callValues_group (group : ∀ value origin, member ≠ .primitive value origin) :
    callValues receiver member = [receiver, member.rename ""] := by
  cases member with
  | primitive value origin => exact absurd rfl (group value origin)
  | _ => rfl

/-- A call has the numbers of its receiver, and of its member unless that is a primitive. -/
lemma numbers_callValues (group : ∀ value origin, member ≠ .primitive value origin) :
    (callValues receiver member).flatMap Node.numbers
      = [receiver, member].flatMap Node.numbers := by
  simp [callValues_group group]

/-- Where the member refers to nothing, no mark is lost. -/
lemma Tracks.erase (tracks : Tracks names foreign floor s held)
    (absent : ∀ scope ∈ s.scope, member.id ∉ scope.references.keys) :
    Tracks names foreign floor (s.remarked fun scope =>
      { scope with references := scope.references.erase member.id }) held := by
  refine tracks.remark (fun _ _ => rfl)
    (fun scope inside mark member => tracks.named scope inside mark (List.mem_of_mem_filter member))
    tracks.known fun scope inside exact => .inr ?_
  rw [Marks.keys_erase, List.filter_eq_self.mpr]
  · exact exact
  · intro number marked
    exact decide_eq_true fun same => absent scope inside (same ▸ marked)

/-- A primitive that is a reference gives its mark away and is gone. -/
lemma Tracks.consume {value : String} {origin : Origin}
    (tracks : Tracks names foreign floor s (.primitive value origin :: held)) :
    Tracks names foreign floor (s.remarked fun scope =>
      { scope with references := scope.references.erase origin.id }) held := by
  refine tracks.remark (fun _ _ => rfl)
    (fun scope inside mark member => tracks.named scope inside mark (List.mem_of_mem_filter member))
    (fun other member => tracks.known other (List.mem_cons_of_mem _ member))
    fun scope inside exact => .inr ?_
  have waiting : scope.deferred.keys.filter (· ∉ [origin.id]) = scope.deferred.keys := by
    refine List.filter_eq_self.mpr fun number marked => decide_eq_true fun same => ?_
    rw [List.mem_singleton.mp same] at marked
    exact exact.leaves value origin List.mem_cons_self marked
  have dropped := exact.drop
  rw [Node.numbers_primitive, waiting] at dropped
  simpa only [Marks.keys_erase, List.mem_singleton, ne_eq] using dropped

/-- A new node takes over the mark of one inside it. -/
lemma Tracks.takeOver (tracks : Tracks names foreign floor s (node :: held))
    (newest : Newest foreign floor s node held) {id : Nat} (inside : id ∈ node.numbers)
    {parameter : Nat} (parameter_lt : parameter < names.length) (target : ReplacementTarget) :
    Tracks names foreign floor (s.remarked fun scope => { scope with
      references := (scope.references.erase id).insert node.id ⟨parameter, target⟩ })
      (node :: held) := by
  refine tracks.remark (fun _ _ => rfl)
    (fun scope here => named_insert List.filter_sublist (tracks.named scope here) parameter_lt)
    tracks.known fun scope _ exact => newest.single.imp_right fun single => ?_
  rw [Marks.keys_insert]
  refine exact.refer (by rw [Marks.keys_erase]; exact List.filter_sublist)
    (fun number marked gone => ?_) single newest.recent
  rw [Marks.keys_erase] at gone
  by_cases same : number = id
  · exact same ▸ inside
  · exact absurd (List.mem_filter.mpr ⟨marked, decide_eq_true same⟩) gone

/-- **The call of an accessor is a new node**, with the mark that its member had. -/
lemma makes_accessorCall (op : OperatorDefinition) (receiver member : Node) (span : Span)
    (tracks : Tracks names foreign floor s (receiver :: member :: held)) :
    Makes (Tracks names foreign floor) (accessorCall op receiver member span) s held := by
  set call := Node.list (op.nodeName ++ invokedName member) (callValues receiver member) false
    ⟨s.lastId + 1, span⟩ with hcall
  have numbers : call.numbers = call.id :: (callValues receiver member).flatMap Node.numbers :=
    Node.numbers_list _ _ _ _
  have group : ∀ value origin, call ≠ .primitive value origin := by simp [call]
  have swapped := tracks.perm (.swap member receiver held)
  rw [Makes, accessorCall_eq]
  cases found : s.scope.bind fun scope => scope.references.find? member.id with
  | none =>
    have absent : ∀ scope ∈ s.scope, member.id ∉ scope.references.keys := by
      intro scope inside marked
      rw [inside, Option.bind_some] at found
      have contains := Marks.contains_iff.mpr marked
      rw [Marks.contains, found] at contains
      cases contains
    by_cases leaf : ∃ value origin, member = .primitive value origin
    · obtain ⟨value, origin, rfl⟩ := leaf
      have kept : Tracks names foreign floor _ ([receiver] ++ held) :=
        (swapped.leave fun scope inside number here =>
          List.mem_singleton.mp here ▸ absent scope inside).erase absent
      exact makes_expand (kept.make rfl numbers) (kept.newest rfl numbers) group _
    · have leaf : ∀ value origin, member ≠ .primitive value origin := by simpa using leaf
      rw [numbers_callValues leaf] at numbers
      have kept : Tracks names foreign floor _ ([receiver, member] ++ held) := tracks.erase absent
      exact makes_expand (kept.make rfl numbers) (kept.newest rfl numbers) group _
  | some reference =>
    have parameter_lt : reference.parameter < names.length := by
      obtain ⟨scope, inside, found⟩ := Option.bind_eq_some_iff.mp found
      exact tracks.named scope inside _ (Marks.mem_of_find? found)
    by_cases leaf : ∃ value origin, member = .primitive value origin
    · obtain ⟨value, origin, rfl⟩ := leaf
      have kept : Tracks names foreign floor _ ([receiver] ++ held) := swapped.consume
      have newest := kept.newest rfl numbers
      exact makes_expand ((kept.make rfl numbers).refer newest parameter_lt _)
        ⟨newest.recent, newest.single⟩ group _
    · have leaf : ∀ value origin, member ≠ .primitive value origin := by simpa using leaf
      rw [numbers_callValues leaf] at numbers
      have parts : Tracks names foreign floor s ([receiver, member] ++ held) := tracks
      have newest := parts.newest rfl numbers
      have inside : member.id ∈ member.numbers := member.id_mem_numbers
      have made := (parts.make rfl numbers).takeOver newest
        (show member.id ∈ _ by simp [numbers, inside]) parameter_lt
        (.name (op.nodeName ++ match reference.target with
          | .name lead => lead
          | .value => ""))
      have same : ∀ (f g : TemplateScope → TemplateScope),
          ((s.remarked f).numbered.remarked g) = s.numbered.remarked (g ∘ f) := by
        intro f g
        simp only [ParserState.remarked, Option.map_map]
      dsimp only
      rw [same]
      exact makes_expand made ⟨newest.recent, newest.single⟩ group _

lemma makes_addProperty {options : CompileOptions} (key : Token) (value : Node)
    (properties : List (String × Node))
    (tracks : Tracks names foreign floor s (value :: properties.map Prod.snd ++ held)) :
    ∃ extended t, addProperty options key value properties s = .ok extended t ∧
      Tracks names foreign floor t (extended.map Prod.snd ++ held) := by
  by_cases taken : Node.hasKey properties key.content = true
  · obtain ⟨t, noted, unmade⟩ := noted s ((Report.errorAt key.start
      (.duplicateKey key.content)).withSeverity options.duplicatePropertySeverity)
    refine ⟨properties, _, ?_, (tracks.unmade unmade).drop⟩
    rw [addProperty]
    simp only [taken, if_true, Node.insertNew]
    exact bind_ok noted
  · refine ⟨properties ++ [(key.content, value)], s, ?_, ?_⟩
    · rw [addProperty]
      simp only [taken, Node.insertNew]
      rfl
    · rw [List.map_append]
      refine tracks.perm ?_
      simpa using (@List.perm_middle _ value (properties.map Prod.snd) held).symm

lemma makes_completeGroup {options : CompileOptions} (name : Option Token) (start : Nat)
    (expands : Bool) (reference : Option Nat) (content : GroupContent)
    (referred : ∀ index ∈ reference, index < names.length)
    (tracks : Tracks names foreign floor s (content.nodes ++ held)) :
    Makes (Tracks names foreign floor)
      (completeGroup options name start expands reference content) s held := by
  have numbers : ∀ text id, (content.node text id start).numbers
      = (content.node text id start).id :: content.nodes.flatMap Node.numbers := by
    intro text id
    cases content <;> simp [GroupContent.node, GroupContent.nodes, Node.id, Node.origin]
  have same : ∀ text, (content.node text (s.lastId + 1) start).id = s.lastId + 1 := by
    intro text
    cases content <;> rfl
  have group : ∀ text value origin,
      content.node text (s.lastId + 1) start ≠ .primitive value origin := by
    cases content <;> simp [GroupContent.node]
  unfold completeGroup
  dsimp only
  split
  · exact .of_pure tracks
  have made := tracks.make (same ((name.map Token.content).getD "")) (numbers _ _)
  have newest := tracks.newest (same ((name.map Token.content).getD "")) (numbers _ _)
  refine .behind (freshId_eq s) ?_
  have offered : ∀ {node : Node}, (∀ value origin, node ≠ .primitive value origin) →
      ∀ {t : ParserState} kind, Tracks names foreign floor t (node :: held) →
      Newest foreign floor t node held → Makes (Tracks names foreign floor)
        (if expands then expand node kind else pure node) t held := by
    intro node group t kind made newest
    split
    · exact makes_expand made newest group _
    · exact .of_pure made
  cases reference with
  | none => exact offered (group _) _ made newest
  | some index =>
    exact .behind (markReference_eq _ _ _) (offered (group _) _
      (made.refer newest (referred index rfl) _) ⟨newest.recent, newest.single⟩)

/-- **Every step that makes a node keeps track.** -/
theorem upkeep_tracks (options : CompileOptions) (names : List String) (foreign : Nat → Prop)
    (floor : Nat) : Upkeep options (Tracks names foreign floor) (· < names.length) where
  unmade := Tracks.unmade
  perm := Tracks.perm
  parameter := fun tracks found => tracks.parameter found
  refusal := fun offset cause tracks _ => makes_refusal tracks offset cause
  primitive := fun token expands tracks => makes_primitive tracks token expands
  operatorNode := makes_operatorNode
  accessorCall := makes_accessorCall
  addProperty := fun key value properties tracks _ => makes_addProperty key value properties tracks
  completeGroup := fun name start expands reference content referred _ =>
    makes_completeGroup name start expands reference content referred

end Parser

end TreeLang
