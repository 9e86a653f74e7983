import Mathlib.Data.List.Nodup
import TreeLang.Proofs.Keeping

/-!
# Where paths lead

The paths of a definition are found in one walk over its template, and followed later in trees that were
changed meanwhile.  What a path leads to is changed by changes at it and below it alone; a change further
up may take it away, and elsewhere none can.

* `Node.child?_modifyChild?_self`, `Node.child?_modifyChild?_of_ne` — one step behind a change.
* `Node.get?_of_mem_nodes` — a path leads where the walk found it.
* `Node.nodup_paths` — no path is found twice.
* `Node.get?_modify?_append`, **`Node.get?_modify?_of_apart`** — at a change and below it, and elsewhere.
* **`Node.isSome_get?_modify?`** — what leads somewhere still does, unless it led into what is gone.
-/

namespace TreeLang

namespace Node

variable {node changed : Node} {step other : PathStep} {path : Path} {change : Node → Option Node}

/-! ## Children behind a change -/

lemma lookup_modifyKey?_self {key : String} {properties changed : List (String × Node)}
    (h : modifyKey? change key properties = some changed) :
    lookup changed key = (lookup properties key).bind change := by
  induction properties generalizing changed with
  | nil => cases h
  | cons property rest ih =>
    obtain ⟨name, value⟩ := property
    rw [modifyKey?] at h
    split at h <;> rename_i same
    · obtain ⟨new, made, rfl⟩ := Option.map_eq_some_iff.mp h
      simp [lookup, same, made]
    · obtain ⟨kept, made, rfl⟩ := Option.map_eq_some_iff.mp h
      simpa [lookup, same] using ih made

lemma lookup_modifyKey?_of_ne {key other : String} {properties changed : List (String × Node)}
    (h : modifyKey? change key properties = some changed) (ne : other ≠ key) :
    lookup changed other = lookup properties other := by
  induction properties generalizing changed with
  | nil => cases h
  | cons property rest ih =>
    obtain ⟨name, value⟩ := property
    rw [modifyKey?] at h
    split at h <;> rename_i same
    · obtain ⟨new, -, rfl⟩ := Option.map_eq_some_iff.mp h
      have apart : name ≠ other := fun equal => ne (equal.symm.trans same)
      simp [lookup, apart]
    · obtain ⟨kept, made, rfl⟩ := Option.map_eq_some_iff.mp h
      have rest := ih made
      rw [lookup, lookup] at rest ⊢
      by_cases here : name = other <;> simp [here, rest]

lemma getElem?_modifyIndex?_self {index : Nat} {values changed : List Node}
    (h : modifyIndex? change index values = some changed) :
    changed[index]? = values[index]?.bind change := by
  induction values generalizing index changed with
  | nil => cases index <;> cases h
  | cons value rest ih =>
    cases index with
    | zero =>
      obtain ⟨new, made, rfl⟩ := Option.map_eq_some_iff.mp h
      simp [made]
    | succ index =>
      obtain ⟨kept, made, rfl⟩ := Option.map_eq_some_iff.mp h
      simpa using ih made

lemma getElem?_modifyIndex?_of_ne {index other : Nat} {values changed : List Node}
    (h : modifyIndex? change index values = some changed) (ne : other ≠ index) :
    changed[other]? = values[other]? := by
  induction values generalizing index other changed with
  | nil => cases index <;> cases h
  | cons value rest ih =>
    cases index with
    | zero =>
      obtain ⟨new, -, rfl⟩ := Option.map_eq_some_iff.mp h
      cases other with
      | zero => exact absurd rfl ne
      | succ other => rfl
    | succ index =>
      obtain ⟨kept, made, rfl⟩ := Option.map_eq_some_iff.mp h
      cases other with
      | zero => rfl
      | succ other => simpa using ih made fun same => ne (congrArg _ same)

/-- What a change of a child makes of the child. -/
lemma child?_modifyChild?_self (h : node.modifyChild? change step = some changed) :
    changed.child? step = (node.child? step).bind change := by
  cases node <;> cases step <;> first
    | cases h
    | obtain ⟨parts, made, rfl⟩ := Option.map_eq_some_iff.mp h
      first
        | exact lookup_modifyKey?_self made
        | exact getElem?_modifyIndex?_self made

/-- A change of a child leaves the other children. -/
lemma child?_modifyChild?_of_ne (h : node.modifyChild? change step = some changed) (ne : other ≠ step) :
    changed.child? other = node.child? other := by
  cases node <;> cases step <;> first
    | cases h
    | obtain ⟨parts, made, rfl⟩ := Option.map_eq_some_iff.mp h
      cases other <;> first
        | rfl
        | exact lookup_modifyKey?_of_ne made fun same => ne (congrArg _ same)
        | exact getElem?_modifyIndex?_of_ne made fun same => ne (congrArg _ same)

/-! ## Paths of a walk -/

lemma get?_append (node : Node) (path rest : Path) :
    node.get? (path ++ rest) = (node.get? path).bind (get? · rest) := by
  induction path generalizing node with
  | nil => rfl
  | cons step path ih =>
    rw [List.cons_append, get?, get?, Option.bind_assoc]
    exact congrArg _ (funext ih)

/-- Below a text there is nothing. -/
lemma eq_nil_of_isSome_get? {value : String} {origin : Origin}
    (present : ((primitive value origin).get? path).isSome) : path = [] := by
  cases path with
  | nil => rfl
  | cons step rest => cases step <;> cases present

/-- **A path leads where the walk found it**, if keys are distinct. -/
theorem get?_of_mem_nodes (keyed : node.Keyed) :
    ∀ entry ∈ node.nodes, node.get? entry.1 = some entry.2 := by
  induction node using induct_parts with
  | primitive value origin => exact List.forall_mem_singleton.mpr rfl
  | object name properties origin ih =>
    obtain ⟨distinct, inside⟩ := keyed_object.mp keyed
    rw [nodes_object]
    refine List.forall_mem_cons.mpr ⟨rfl, List.forall_mem_flatMap.mpr fun property member => ?_⟩
    refine List.forall_mem_map.mpr fun entry below => ?_
    have child : lookup properties property.1 = some property.2 := lookup_of_mem distinct member
    rw [under, get?, child?, child]
    exact ih property member (inside property member) entry below
  | list name values operation origin ih =>
    rw [nodes_list]
    refine List.forall_mem_cons.mpr ⟨rfl, List.forall_mem_flatMap.mpr fun value member => ?_⟩
    refine List.forall_mem_map.mpr fun entry below => ?_
    have child : values[value.2]? = some value.1 := List.mk_mem_zipIdx_iff_getElem?.mp member
    have inside := List.mem_of_getElem? child
    rw [under, get?, child?, child]
    exact ih value.1 inside (keyed_list.mp keyed value.1 inside) entry below

/-- The paths to a node and to those below it, which are found by distinct steps. -/
lemma nodup_paths_of_parts {α : Type} {parts : List α} {step : α → PathStep} (node : Node)
    (inner : α → Node) (distinct : (parts.map step).Nodup)
    (below : ∀ part ∈ parts, ((inner part).nodes.map Prod.fst).Nodup) :
    ((([], node) :: parts.flatMap fun part =>
      (inner part).nodes.map (under (step part))).map Prod.fst).Nodup := by
  have paths (part : α) : ((inner part).nodes.map (under (step part))).map Prod.fst
      = ((inner part).nodes.map Prod.fst).map (step part :: ·) := by
    simp only [List.map_map]
    rfl
  rw [List.map_cons, List.map_flatMap]
  simp only [paths]
  refine List.nodup_cons.mpr ⟨?_, List.nodup_flatMap.mpr ⟨fun part member => ?_, ?_⟩⟩
  · simp
  · exact (below part member).map List.cons_injective
  · refine (List.pairwise_map.mp distinct).imp fun apart path first second => ?_
    obtain ⟨_, -, rfl⟩ := List.mem_map.mp first
    obtain ⟨_, -, same⟩ := List.mem_map.mp second
    exact apart (List.cons.inj same).1.symm

/-- **No path is found twice**, if keys are distinct. -/
theorem nodup_paths (keyed : node.Keyed) : (node.nodes.map Prod.fst).Nodup := by
  induction node using induct_parts with
  | primitive value origin => exact List.nodup_singleton _
  | object name properties origin ih =>
    obtain ⟨distinct, inside⟩ := keyed_object.mp keyed
    have steps : (properties.map fun property => PathStep.key property.1).Nodup := by
      have keys := distinct.map (f := PathStep.key) fun _ _ same => PathStep.key.inj same
      rwa [List.map_map] at keys
    rw [nodes_object]
    exact nodup_paths_of_parts _ Prod.snd steps fun property member =>
      ih property member (inside property member)
  | list name values operation origin ih =>
    have steps : (values.zipIdx.map fun value => PathStep.index value.2).Nodup := by
      have indices := (List.nodup_range' (s := 0) (n := values.length)).map (f := PathStep.index)
        fun _ _ same => PathStep.index.inj same
      rwa [← List.zipIdx_map_snd, List.map_map] at indices
    rw [nodes_list]
    refine nodup_paths_of_parts _ Prod.fst steps fun value member => ?_
    have inside := List.fst_mem_of_mem_zipIdx member
    exact ih value.1 inside (keyed_list.mp keyed value.1 inside)

lemma child?_clearIds (node : Node) (step : PathStep) :
    node.clearIds.child? step = (node.child? step).map clearIds := by
  cases node with
  | primitive => cases step <;> rfl
  | object name properties origin =>
    cases step with
    | index => rfl
    | key key =>
      rw [clearIds, clearPropertyIds_eq_map, child?, child?, lookup, lookup, List.find?_map]
      simp only [Option.map_map]
      rfl
  | list name values operation origin =>
    cases step with
    | key => rfl
    | index index => simp [clearIds, clearValueIds_eq_map, child?]

/-- Forgetting the numbers leaves the paths. -/
lemma get?_clearIds (node : Node) (path : Path) :
    node.clearIds.get? path = (node.get? path).map clearIds := by
  induction path generalizing node with
  | nil => rfl
  | cons step rest ih =>
    rw [get?, get?, child?_clearIds]
    cases node.child? step with
    | none => rfl
    | some child => exact ih child

/-! ## Paths behind a change -/

/-- Where something was changed there was something. -/
lemma exists_of_modify? (h : node.modify? change path = some changed) :
    ∃ old new, node.get? path = some old ∧ change old = some new := by
  have there : ((node.get? path).bind change).isSome :=
    modify?_isSome change node path ▸ Option.isSome_of_eq_some h
  obtain ⟨new, made⟩ := Option.isSome_iff_exists.mp there
  obtain ⟨old, found, made⟩ := Option.bind_eq_some_iff.mp made
  exact ⟨old, new, found, made⟩

/-- A change further down is one of a child. -/
lemma exists_child_of_modify? (h : node.modify? change (step :: path) = some changed) :
    ∃ child new, node.child? step = some child ∧ child.modify? change path = some new ∧
      changed.child? step = some new := by
  have present : (changed.child? step).isSome := by
    rw [child?_modifyChild?_self h]
    have changes : (node.modifyChild? (modify? change · path) step).isSome :=
      Option.isSome_of_eq_some h
    cases node <;> cases step <;> first
      | cases changes
      | simpa [modifyChild?, child?, modifyKey?_isSome, modifyIndex?_isSome] using changes
  obtain ⟨new, behind⟩ := Option.isSome_iff_exists.mp present
  obtain ⟨child, found, made⟩ :=
    Option.bind_eq_some_iff.mp ((child?_modifyChild?_self h).symm.trans behind)
  exact ⟨child, new, found, made, behind⟩

/-- At a path that was changed, and below it. -/
theorem get?_modify?_append (h : node.modify? change path = some changed) (rest : Path) :
    changed.get? (path ++ rest) = ((node.get? path).bind change).bind (get? · rest) := by
  induction path generalizing node changed with
  | nil =>
    have made : change node = some changed := h
    rw [get?, Option.bind_some, made]
    rfl
  | cons step path ih =>
    obtain ⟨child, new, found, made, behind⟩ := exists_child_of_modify? h
    rw [List.cons_append, get?, get?, found, behind]
    exact ih made

/-- **A change leaves every path that does not lead to it, and that it does not lie on.** -/
theorem get?_modify?_of_apart (h : node.modify? change path = some changed) {other : Path}
    (above : ¬ other <+: path) (below : ¬ path <+: other) : changed.get? other = node.get? other := by
  induction path generalizing node changed other with
  | nil => exact absurd List.nil_prefix below
  | cons step path ih =>
    cases other with
    | nil => exact absurd List.nil_prefix above
    | cons first other =>
      rw [List.cons_prefix_cons, not_and] at above below
      rw [get?, get?]
      by_cases same : first = step
      · subst same
        obtain ⟨child, new, found, made, behind⟩ := exists_child_of_modify? h
        rw [found, behind]
        exact ih made (above rfl) (below rfl)
      · rw [child?_modifyChild?_of_ne h same]

/-- **A path still leads somewhere behind a change**, unless it led into what was changed and there is
nothing any more. -/
theorem isSome_get?_modify? (h : node.modify? change path = some changed) {other : Path}
    (present : (node.get? other).isSome)
    (kept : ∀ rest old new, other = path ++ rest → node.get? path = some old → change old = some new →
      (new.get? rest).isSome) : (changed.get? other).isSome := by
  obtain ⟨old, new, found, made⟩ := exists_of_modify? h
  by_cases below : path <+: other
  · obtain ⟨rest, rfl⟩ := below
    rw [get?_modify?_append h, found, Option.bind_some, made]
    exact kept rest old new rfl found made
  by_cases above : other <+: path
  · -- The change is found at its path behind it, so there is a way to it.
    obtain ⟨rest, rfl⟩ := above
    have root := get?_modify?_append h []
    rw [List.append_nil, found, Option.bind_some, made, get?_append] at root
    obtain ⟨inner, found, -⟩ := Option.bind_eq_some_iff.mp root
    exact Option.isSome_of_eq_some found
  · rw [get?_modify?_of_apart h above below]
    exact present

/-- Renaming leaves every path. -/
lemma get?_rename (node : Node) (name : String) {rest : Path} (below : rest ≠ []) :
    (node.rename name).get? rest = node.get? rest := by
  cases rest with
  | nil => exact absurd rfl below
  | cons step rest => cases node <;> cases step <;> rfl

end Node

end TreeLang
