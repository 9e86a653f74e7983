import Mathlib.Data.List.Perm.Basic
import Mathlib.Tactic.Common
import TreeLang.Macro.Marks
import TreeLang.Node.Walk

/-!
# The numbers of a tree

Every node carries a number, and the marks of a template are attached to numbers.  This file lists
the numbers of a tree in the order of a walk, and says how they go along when a tree is taken apart
or changed.

* `Node.induct_parts` — induction from the parts of a node to the node.
* `Node.nodes_object`, `Node.nodes_list` — what a walk finds, part by part.
* `Node.numbers` — the numbers of a tree; `Node.numbers_object`, `Node.numbers_list`.
* `Node.Within` — all numbers of a tree have a property, and what is made of such trees.
* `Marks.keys` — the numbers that are marked.
* **`Marks.perm_keys`** — where every marked number occurs once, the marked ones are the marks.
-/

namespace TreeLang

namespace Node

/-- **The numbers of a tree**, in the order of a walk. -/
def numbers (node : Node) : List Nat :=
  node.nodes.map fun entry => entry.2.id

/-- **Induction over a tree**, from the parts of a node to the node. -/
@[elab_as_elim]
theorem induct_parts {motive : Node → Prop}
    (primitive : ∀ value origin, motive (.primitive value origin))
    (object : ∀ name properties origin, (∀ entry ∈ properties, motive entry.2) →
      motive (.object name properties origin))
    (list : ∀ name values operation origin, (∀ value ∈ values, motive value) →
      motive (.list name values operation origin)) : (node : Node) → motive node
  | .primitive value origin => primitive value origin
  | .object name properties origin => object name properties origin fun entry member => by
    have smaller := List.sizeOf_lt_of_mem member
    exact induct_parts primitive object list entry.2
  | .list name values operation origin => list name values operation origin fun value member => by
    have smaller := List.sizeOf_lt_of_mem member
    exact induct_parts primitive object list value
termination_by node => sizeOf node
decreasing_by
  · obtain ⟨key, value⟩ := entry
    simp only [Prod.mk.sizeOf_spec] at smaller
    simp only [Node.object.sizeOf_spec]
    omega
  · simp only [Node.list.sizeOf_spec]
    omega

/-! ## The nodes of a tree, part by part -/

/-- A node that a walk has found, seen from one step above. -/
def under (step : PathStep) (entry : Path × Node) : Path × Node :=
  (step :: entry.1, entry.2)

mutual

/-- A walk that visits everything finds the same nodes wherever it starts. -/
theorem walkFrom_enter : (node : Node) → (path : Path) →
    walkFrom (fun _ _ => .enter) path node
      = ⟨node.nodes.map fun entry => (path ++ entry.1, entry.2), false⟩
  | .primitive value origin, path => by simp [walkFrom, nodes, walk]
  | .object name properties origin, path => by
    have here := walkProperties_enter properties path
    have root := walkProperties_enter properties []
    simp only [nodes, walk, walkFrom, Walk.andThen, here, root, Bool.false_eq_true, if_false,
      List.map_append, List.map_cons, List.map_nil, List.append_nil, List.map_flatMap, List.map_map]
    rfl
  | .list name values operation origin, path => by
    have here := walkValues_enter values path 0
    have root := walkValues_enter values [] 0
    simp only [nodes, walk, walkFrom, Walk.andThen, here, root, Bool.false_eq_true, if_false,
      List.map_append, List.map_cons, List.map_nil, List.append_nil, List.map_flatMap, List.map_map]
    rfl

theorem walkProperties_enter : (properties : List (String × Node)) → (path : Path) →
    walkProperties (fun _ _ => .enter) path properties
      = ⟨properties.flatMap fun property => property.2.nodes.map fun entry =>
          (path ++ .key property.1 :: entry.1, entry.2), false⟩
  | [], path => rfl
  | (key, value) :: rest, path => by
    have first := walkFrom_enter value (path ++ [.key key])
    have others := walkProperties_enter rest path
    simp only [walkProperties, Walk.andThen, first, others, Bool.false_eq_true, if_false,
      List.flatMap_cons, List.append_assoc, List.singleton_append]

theorem walkValues_enter : (values : List Node) → (path : Path) → (index : Nat) →
    walkValues (fun _ _ => .enter) path index values
      = ⟨(values.zipIdx index).flatMap fun value => value.1.nodes.map fun entry =>
          (path ++ .index value.2 :: entry.1, entry.2), false⟩
  | [], path, index => rfl
  | value :: rest, path, index => by
    have first := walkFrom_enter value (path ++ [.index index])
    have others := walkValues_enter rest path (index + 1)
    simp only [walkValues, Walk.andThen, first, others, Bool.false_eq_true, if_false,
      List.zipIdx_cons, List.flatMap_cons, List.append_assoc, List.singleton_append]

end

lemma nodes_primitive (value : String) (origin : Origin) :
    (primitive value origin).nodes = [([], primitive value origin)] := rfl

lemma nodes_object (name : String) (properties : List (String × Node)) (origin : Origin) :
    (object name properties origin).nodes = ([], object name properties origin) ::
      properties.flatMap fun property => property.2.nodes.map (under (.key property.1)) := by
  have inside := walkProperties_enter properties []
  simp only [nodes, walk, walkFrom, Walk.andThen, inside, Bool.false_eq_true, if_false]
  rfl

lemma nodes_list (name : String) (values : List Node) (operation : Bool) (origin : Origin) :
    (list name values operation origin).nodes = ([], list name values operation origin) ::
      values.zipIdx.flatMap fun value => value.1.nodes.map (under (.index value.2)) := by
  have inside := walkValues_enter values [] 0
  simp only [nodes, walk, walkFrom, Walk.andThen, inside, Bool.false_eq_true, if_false]
  rfl

/-! ## The numbers, part by part -/

@[simp] lemma numbers_primitive (value : String) (origin : Origin) :
    (primitive value origin).numbers = [origin.id] := rfl

@[simp] lemma numbers_object (name : String) (properties : List (String × Node))
    (origin : Origin) :
    (object name properties origin).numbers
      = origin.id :: (properties.map Prod.snd).flatMap numbers := by
  rw [numbers, nodes_object, List.map_cons, List.map_flatMap, List.flatMap_map]
  simp only [List.map_map]
  rfl

/-- Where a value stands does not matter to what is found in it. -/
lemma flatMap_zipIdx {α β : Type} (each : α → List β) (items : List α) (start : Nat) :
    (items.zipIdx start).flatMap (fun item => each item.1) = items.flatMap each := by
  rw [← List.flatMap_map Prod.fst each, List.zipIdx_map_fst]

@[simp] lemma numbers_list (name : String) (values : List Node) (operation : Bool)
    (origin : Origin) :
    (list name values operation origin).numbers = origin.id :: values.flatMap numbers := by
  rw [numbers, nodes_list, List.map_cons, List.map_flatMap]
  simp only [List.map_map]
  exact congrArg _ (flatMap_zipIdx numbers values 0)

/-- The first number of a tree is that of its root. -/
lemma id_mem_numbers (node : Node) : node.id ∈ node.numbers := by
  cases node <;> simp [id, origin]

@[simp] lemma numbers_rename (node : Node) (name : String) :
    (node.rename name).numbers = node.numbers := by
  cases node <;> simp [rename]

@[simp] lemma numbers_withSpan (node : Node) (span : Span) :
    (node.withSpan span).numbers = node.numbers := by
  cases node <;> simp [withSpan, withOrigin, origin]

/-! ## Trees whose numbers have a property -/

/-- **All numbers of a tree have a property.** -/
def Within (property : Nat → Prop) (node : Node) : Prop :=
  ∀ number ∈ node.numbers, property number

variable {property weaker : Nat → Prop}

lemma Within.mono {node : Node} (within : node.Within property)
    (h : ∀ number, property number → weaker number) : node.Within weaker :=
  fun number member => h number (within number member)

lemma within_primitive {value : String} {origin : Origin} (h : property origin.id) :
    (primitive value origin).Within property := by
  simpa [Within] using h

lemma within_object {name : String} {properties : List (String × Node)} {origin : Origin} :
    (object name properties origin).Within property ↔
      property origin.id ∧ ∀ entry ∈ properties, entry.2.Within property := by
  simp only [Within, numbers_object, List.mem_cons, List.mem_flatMap, List.mem_map]
  constructor
  · exact fun h => ⟨h _ (.inl rfl), fun entry member number inside =>
      h number (.inr ⟨_, ⟨entry, member, rfl⟩, inside⟩)⟩
  · rintro ⟨root, inside⟩ number (rfl | ⟨_, ⟨entry, member, rfl⟩, mem⟩)
    · exact root
    · exact inside entry member number mem

lemma within_list {name : String} {values : List Node} {operation : Bool} {origin : Origin} :
    (list name values operation origin).Within property ↔
      property origin.id ∧ ∀ value ∈ values, value.Within property := by
  simp only [Within, numbers_list, List.mem_cons, List.mem_flatMap]
  constructor
  · exact fun h => ⟨h _ (.inl rfl), fun value member number inside =>
      h number (.inr ⟨value, member, inside⟩)⟩
  · rintro ⟨root, inside⟩ number (rfl | ⟨value, member, mem⟩)
    · exact root
    · exact inside value member number mem

lemma Within.rename {node : Node} (within : node.Within property) (name : String) :
    (node.rename name).Within property := by
  simpa [Within] using within

lemma Within.withSpan {node : Node} (within : node.Within property) (span : Span) :
    (node.withSpan span).Within property := by
  simpa [Within] using within

lemma mem_of_lookup {properties : List (String × Node)} {key : String} {value : Node}
    (found : lookup properties key = some value) : ∃ name, (name, value) ∈ properties := by
  obtain ⟨⟨name, inner⟩, hfind, rfl⟩ := Option.map_eq_some_iff.mp found
  exact ⟨name, List.mem_of_find?_eq_some hfind⟩

/-- A child has no other numbers than its parent. -/
lemma Within.child {node child : Node} {step : PathStep} (within : node.Within property)
    (found : node.child? step = some child) : child.Within property := by
  cases node with
  | primitive => cases step <;> cases found
  | object name properties origin =>
    cases step with
    | index => cases found
    | key key =>
      obtain ⟨name, member⟩ := mem_of_lookup found
      exact (within_object.mp within).2 _ member
  | list name values operation origin =>
    cases step with
    | key => cases found
    | index index => exact (within_list.mp within).2 _ (List.mem_of_getElem? found)

lemma mem_modifyKey? {change : Node → Option Node} {key : String}
    {properties changed : List (String × Node)} {entry : String × Node}
    (h : modifyKey? change key properties = some changed) (member : entry ∈ changed) :
    entry ∈ properties ∨ ∃ old ∈ properties, change old.2 = some entry.2 := by
  induction properties generalizing changed with
  | nil => cases h
  | cons property rest ih =>
    obtain ⟨other, value⟩ := property
    simp only [modifyKey?] at h
    split at h
    · obtain ⟨new, hnew, rfl⟩ := Option.map_eq_some_iff.mp h
      rcases List.mem_cons.mp member with rfl | member
      · exact .inr ⟨_, List.mem_cons_self, hnew⟩
      · exact .inl (List.mem_cons_of_mem _ member)
    · obtain ⟨kept, hkept, rfl⟩ := Option.map_eq_some_iff.mp h
      rcases List.mem_cons.mp member with rfl | member
      · exact .inl List.mem_cons_self
      · rcases ih hkept member with member | ⟨old, member, hold⟩
        · exact .inl (List.mem_cons_of_mem _ member)
        · exact .inr ⟨old, List.mem_cons_of_mem _ member, hold⟩

lemma mem_modifyIndex? {change : Node → Option Node} {index : Nat} {values changed : List Node}
    {node : Node} (h : modifyIndex? change index values = some changed) (member : node ∈ changed) :
    node ∈ values ∨ ∃ old ∈ values, change old = some node := by
  induction values generalizing index changed with
  | nil => simp [modifyIndex?] at h
  | cons value rest ih =>
    cases index with
    | zero =>
      obtain ⟨new, hnew, rfl⟩ := Option.map_eq_some_iff.mp h
      rcases List.mem_cons.mp member with rfl | member
      · exact .inr ⟨_, List.mem_cons_self, hnew⟩
      · exact .inl (List.mem_cons_of_mem _ member)
    | succ index =>
      obtain ⟨kept, hkept, rfl⟩ := Option.map_eq_some_iff.mp h
      rcases List.mem_cons.mp member with rfl | member
      · exact .inl List.mem_cons_self
      · rcases ih hkept member with member | ⟨old, member, hold⟩
        · exact .inl (List.mem_cons_of_mem _ member)
        · exact .inr ⟨old, List.mem_cons_of_mem _ member, hold⟩

/-- Changing a child brings in the numbers of the changed child alone. -/
lemma Within.modifyChild {change : Node → Option Node} {node changed : Node} {step : PathStep}
    (within : node.Within property) (h : node.modifyChild? change step = some changed)
    (brought : ∀ old new, old.Within property → change old = some new → new.Within property) :
    changed.Within property := by
  cases node with
  | primitive => cases step <;> cases h
  | object name properties origin =>
    cases step with
    | index => cases h
    | key key =>
      obtain ⟨entries, hentries, rfl⟩ := Option.map_eq_some_iff.mp h
      obtain ⟨root, inside⟩ := within_object.mp within
      refine within_object.mpr ⟨root, fun entry member => ?_⟩
      rcases mem_modifyKey? hentries member with kept | ⟨old, member, new⟩
      · exact inside entry kept
      · exact brought old.2 _ (inside old member) new
  | list name values operation origin =>
    cases step with
    | key => cases h
    | index index =>
      obtain ⟨entries, hentries, rfl⟩ := Option.map_eq_some_iff.mp h
      obtain ⟨root, inside⟩ := within_list.mp within
      refine within_list.mpr ⟨root, fun node member => ?_⟩
      rcases mem_modifyIndex? hentries member with kept | ⟨old, member, new⟩
      · exact inside node kept
      · exact brought old _ (inside old member) new

/-! ## Trees without numbers -/

lemma clearPropertyIds_eq_map (properties : List (String × Node)) :
    clearPropertyIds properties = properties.map fun entry => (entry.1, entry.2.clearIds) := by
  induction properties with
  | nil => rfl
  | cons entry rest ih => rw [clearPropertyIds, ih, List.map_cons]

lemma clearValueIds_eq_map (values : List Node) : clearValueIds values = values.map clearIds := by
  induction values with
  | nil => rfl
  | cons value rest ih => rw [clearValueIds, ih, List.map_cons]

/-- A tree that was made to forget has no number but zero. -/
theorem within_clearIds (node : Node) : node.clearIds.Within (· = 0) := by
  induction node using induct_parts with
  | primitive value origin => exact within_primitive rfl
  | object name properties origin ih =>
    rw [clearIds, clearPropertyIds_eq_map]
    exact within_object.mpr ⟨rfl, List.forall_mem_map.mpr ih⟩
  | list name values operation origin ih =>
    rw [clearIds, clearValueIds_eq_map]
    exact within_list.mpr ⟨rfl, List.forall_mem_map.mpr ih⟩

end Node

/-! ## Marked numbers -/

namespace Marks

variable {α : Type}

/-- The numbers that are marked. -/
def keys (marks : Marks α) : List Nat :=
  marks.entries.map Prod.fst

@[simp] lemma keys_empty : (empty : Marks α).keys = [] := rfl

@[simp] lemma keys_erase (marks : Marks α) (id : Nat) :
    (marks.erase id).keys = marks.keys.filter (· ≠ id) := by
  simp only [keys, erase, List.filter_map]
  rfl

@[simp] lemma keys_insert (marks : Marks α) (id : Nat) (mark : α) :
    (marks.insert id mark).keys = id :: marks.keys.filter (· ≠ id) := by
  rw [← keys_erase]
  rfl

lemma length_keys (marks : Marks α) : marks.keys.length = marks.size := by
  simp [keys, size]

lemma mem_of_find? {marks : Marks α} {id : Nat} {mark : α} (h : marks.find? id = some mark) :
    (id, mark) ∈ marks.entries := by
  obtain ⟨⟨key, value⟩, hfind, rfl⟩ := Option.map_eq_some_iff.mp h
  have same : key = id := by simpa using List.find?_some hfind
  exact same ▸ List.mem_of_find?_eq_some hfind

lemma contains_iff {marks : Marks α} {id : Nat} : marks.contains id = true ↔ id ∈ marks.keys := by
  simp only [contains, find?, Option.isSome_map, List.find?_isSome, keys, List.mem_map,
    decide_eq_true_eq]

/-- **Where every marked number occurs once, the marked ones are the marks.** -/
theorem perm_keys {marks : Marks α} {numbers : List Nat} (distinct : marks.keys.Nodup)
    (once : ∀ id ∈ marks.keys, numbers.count id = 1) :
    (numbers.filter marks.contains).Perm marks.keys := by
  refine (List.perm_ext_iff_of_nodup ?_ distinct).mpr fun id => ?_
  · refine List.nodup_iff_count.mpr fun id => ?_
    by_cases marked : marks.contains id = true
    · rw [List.count_filter marked]
      exact Nat.le_of_eq (once id (contains_iff.mp marked))
    · rw [List.count_eq_zero_of_not_mem fun member => marked (List.mem_filter.mp member).2]
      exact Nat.zero_le _
  · rw [List.mem_filter, contains_iff, and_iff_right_iff_imp]
    intro marked
    exact List.count_pos_iff.mp (by rw [once id marked]; exact Nat.one_pos)

end Marks

end TreeLang
