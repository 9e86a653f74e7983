import TreeLang.Proofs.Equating
import TreeLang.Proofs.RoundTrip
import TreeLang.Proofs.Upholding

/-!
# Printing and reading again

Where single elements are taken out of their parentheses, a text cannot say everything that a tree can:
an accessor takes the name off the member that it calls, and a macro gives the name of its invocation to
what it makes, after the place where a group of one element gave way to that element.  So the root of a
compilation may hold unnamed operations of one element, and when it is printed and read these give way.
That is all that is lost, and it is lost at once: what was read is printed and read as it is.

* `groupTree_cases` — a group gives way to its only element, or there was nothing to take out of it.
* `Node.all_uncollapsed_collapsed` — afterwards there is nothing left to take out of parentheses.
* `Node.shrinks` — a tree is as large as before only if there was nothing to take out.
* `Node.SettlesWhenRead` — printing and reading loses the parentheses of single elements, once.
* **`compile_settlesWhenRead`** — so it is with the root of every compilation.
-/

namespace TreeLang

variable {options : CompileOptions}

/-- **A group gives way to its only element**, or is a node of its own, with nothing to take out of it
but what stands further inside. -/
lemma groupTree_cases (options : CompileOptions) (name : String) (operation : Bool)
    (values : List Node) :
    (∃ only, values = [only] ∧ groupTree options name operation values = only) ∨
      (groupTree options name operation values = .listOf name values operation ∧
        (options.collapseUnaryOperation = true →
          (Node.listOf name values operation).Uncollapsed)) := by
  unfold groupTree
  split
  · exact .inl ⟨_, rfl, rfl⟩
  · rename_i differs
    refine .inr ⟨rfl, fun collapses ⟨operator, unnamed, only, single⟩ => ?_⟩
    obtain rfl : name = "" := Option.some.inj unnamed
    exact differs only (by rw [collapses]; rfl) operator (Option.some.inj single)

namespace Node

variable {a b node tree value : Node} {properties : List (String × Node)} {values : List Node}

/-! ## What is left of a tree -/

lemma collapsedProperties_eq_map (options : CompileOptions) (properties : List (String × Node)) :
    collapsedProperties options properties =
      properties.map fun property => (property.1, property.2.collapsed options) := by
  induction properties with
  | nil => rfl
  | cons property rest ih => rw [collapsedProperties, ih, List.map_cons]

lemma collapsedValues_eq_map (options : CompileOptions) (values : List Node) :
    collapsedValues options values = values.map (collapsed options) := by
  induction values with
  | nil => rfl
  | cons value rest ih => rw [collapsedValues, ih, List.map_cons]

/-- What is left of a tree has no origins. -/
lemma strip_collapsed (options : CompileOptions) (node : Node) :
    (node.collapsed options).strip = node.collapsed options := by
  induction node using induct_parts with
  | primitive value origin => rfl
  | object name properties origin ih =>
    rw [collapsed, objectOf, strip, collapsedProperties_eq_map, stripProperties_eq_map, List.map_map]
    exact congrArg (objectOf _) (List.map_congr_left fun entry member =>
      congrArg (Prod.mk _) (ih entry member))
  | list name values operation origin ih =>
    have inside : (collapsedValues options values).map strip = collapsedValues options values := by
      rw [collapsedValues_eq_map, List.map_map]
      exact List.map_congr_left ih
    rw [collapsed]
    obtain ⟨only, single, group⟩ | ⟨group, -⟩ :=
      groupTree_cases options name operation (collapsedValues options values)
    · rw [single] at inside
      rw [group]
      exact (List.cons.inj inside).1
    · rw [group, listOf, strip, stripValues_eq_map, inside]
      rfl

/-- Being an operation of one element has nothing to do with origins. -/
lemma uncollapsed_strip (node : Node) : node.strip.Uncollapsed ↔ node.Uncollapsed := by
  cases node with
  | primitive | object => exact Iff.rfl
  | list name values operation origin =>
    refine not_congr (and_congr Iff.rfl (and_congr Iff.rfl ?_))
    simp only [strip, listOf, values?, Option.some.injEq, stripValues_eq_map, List.map_eq_singleton_iff]
    constructor
    · rintro ⟨_, only, single, -⟩
      exact ⟨only, single⟩
    · rintro ⟨only, single⟩
      exact ⟨_, only, single, rfl⟩

/-- **Afterwards there is nothing left** to take out of parentheses. -/
theorem all_uncollapsed_collapsed (collapses : options.collapseUnaryOperation = true) (node : Node) :
    (node.collapsed options).All Uncollapsed := by
  induction node using induct_parts with
  | primitive value origin => exact fun operation => Bool.false_ne_true operation.1
  | object name properties origin ih =>
    refine ⟨fun operation => Bool.false_ne_true operation.1, ?_⟩
    rw [collapsedProperties_eq_map, allProperties_iff, List.forall_mem_map]
    exact ih
  | list name values operation origin ih =>
    have inside : ∀ value ∈ collapsedValues options values, value.All Uncollapsed := by
      rw [collapsedValues_eq_map, List.forall_mem_map]
      exact ih
    rw [collapsed]
    obtain ⟨only, single, group⟩ | ⟨group, uncollapsed⟩ :=
      groupTree_cases options name operation (collapsedValues options values)
    · rw [group]
      exact inside only (single ▸ List.mem_singleton_self only)
    · rw [group]
      exact ⟨uncollapsed collapses, allValues_iff.mpr inside⟩

/-- Distinct keys stay distinct. -/
theorem Keyed.collapsed (keyed : node.Keyed) (options : CompileOptions) :
    (node.collapsed options).Keyed := by
  induction node using induct_parts with
  | primitive value origin => exact keyed_primitive _ _
  | object name properties origin ih =>
    obtain ⟨distinct, inside⟩ := keyed_object.mp keyed
    refine keyed_object.mpr ⟨?_, ?_⟩
    · rw [collapsedProperties_eq_map, List.map_map]
      exact distinct
    · rw [collapsedProperties_eq_map, List.forall_mem_map]
      exact fun property member => ih property member (inside property member)
  | list name values operation origin ih =>
    have inside : ∀ value ∈ collapsedValues options values, value.Keyed := by
      rw [collapsedValues_eq_map, List.forall_mem_map]
      exact fun value member => ih value member (keyed_list.mp keyed value member)
    rw [Node.collapsed]
    obtain ⟨only, single, group⟩ | ⟨group, -⟩ :=
      groupTree_cases options name operation (collapsedValues options values)
    · rw [group]
      exact inside only (single ▸ List.mem_singleton_self only)
    · rw [group]
      exact keyed_list.mpr inside

/-! ## How large it is -/

/-- How many nodes a tree has. -/
def count (node : Node) : Nat :=
  node.numbers.length

/-- How many nodes trees have together. -/
def countAll (trees : List Node) : Nat :=
  (trees.flatMap numbers).length

@[simp] lemma countAll_nil : countAll [] = 0 :=
  rfl

@[simp] lemma countAll_cons (first : Node) (rest : List Node) :
    countAll (first :: rest) = first.count + countAll rest := by
  rw [countAll, List.flatMap_cons, List.length_append]
  rfl

@[simp] lemma count_primitive (text : String) (origin : Origin) : (primitive text origin).count = 1 :=
  rfl

@[simp] lemma count_object (name : String) (properties : List (String × Node)) (origin : Origin) :
    (object name properties origin).count = 1 + countAll (properties.map Prod.snd) := by
  rw [count, numbers_object, List.length_cons, countAll, List.flatMap_map, Nat.add_comm]

@[simp] lemma count_list (name : String) (values : List Node) (operation : Bool) (origin : Origin) :
    (list name values operation origin).count = 1 + countAll values := by
  rw [count, numbers_list, List.length_cons, countAll, Nat.add_comm]

/-- Trees of lists that are related one by one, related trees being of one size. -/
lemma countAll_eq_of_related {α : Type} {R : α → α → Prop} {xs ys : List α} (tree : α → Node)
    (related : List.Forall₂ R xs ys)
    (each : ∀ x ∈ xs, ∀ y, R x y → (tree x).count = (tree y).count) :
    countAll (xs.map tree) = countAll (ys.map tree) := by
  induction related with
  | nil => rfl
  | cons first _ ih =>
    rw [List.forall_mem_cons] at each
    rw [List.map_cons, List.map_cons, countAll_cons, countAll_cons, each.1 _ first, ih each.2]

/-- Origins do not count. -/
lemma count_strip (node : Node) : node.strip.count = node.count := by
  -- Together, trees that do not change their size are of one size.
  have parts {trees : List Node} (same : ∀ tree ∈ trees, tree.strip.count = tree.count) :
      countAll (trees.map strip) = countAll trees := by
    induction trees with
    | nil => rfl
    | cons first rest ih =>
      rw [List.forall_mem_cons] at same
      rw [List.map_cons, countAll_cons, countAll_cons, same.1, ih same.2]
  induction node using induct_parts with
  | primitive text origin => rfl
  | object name properties origin ih =>
    rw [strip, objectOf, count_object, count_object, stripProperties_eq_map,
      ← parts (List.forall_mem_map.mpr ih), List.map_map, List.map_map]
    rfl
  | list name values operation origin ih =>
    rw [strip, listOf, count_list, count_list, stripValues_eq_map, parts ih]

/-- Rearranged trees are of one size. -/
theorem Rearranged.count_eq (rearranged : a.Rearranged b) : a.count = b.count := by
  induction a using induct_parts generalizing b with
  | primitive text origin =>
    cases rearranged
    rfl
  | object name ps origin ih =>
    cases rearranged with
    | object values order =>
      have counts := countAll_eq_of_related Prod.snd values fun property member other related => by
        cases related with
        | mk same => exact ih _ member same
      rw [count_object, count_object, counts]
      exact congrArg (1 + ·) ((order.map Prod.snd).flatMap_right numbers).length_eq
  | list name vs operation origin ih =>
    cases rearranged with
    | list values =>
      have counts := countAll_eq_of_related (fun tree => tree) values fun value member other same =>
        ih value member same
      rw [List.map_id', List.map_id'] at counts
      rw [count_list, count_list, counts]

/-- **What is left of a tree is no larger**, and as large only if there was nothing to take out of
parentheses. -/
def Shrinks (options : CompileOptions) (node : Node) : Prop :=
  (node.collapsed options).count ≤ node.count ∧
    ((node.collapsed options).count = node.count → options.collapseUnaryOperation = true →
      node.All Uncollapsed)

/-- Parts that shrink. -/
lemma shrinks_together {parts : List Node} (shrinks : ∀ part ∈ parts, part.Shrinks options) :
    countAll (parts.map (collapsed options)) ≤ countAll parts ∧
      (countAll (parts.map (collapsed options)) = countAll parts →
        options.collapseUnaryOperation = true → ∀ part ∈ parts, part.All Uncollapsed) := by
  induction parts with
  | nil => exact ⟨le_rfl, fun _ _ => nofun⟩
  | cons part rest ih =>
    obtain ⟨⟨le, whole⟩, others⟩ := List.forall_mem_cons.mp shrinks
    obtain ⟨le', wholes⟩ := ih others
    simp only [List.map_cons, countAll_cons]
    refine ⟨Nat.add_le_add le le', fun equal collapses => ?_⟩
    exact List.forall_mem_cons.mpr
      ⟨whole (by omega) collapses, wholes (by omega) collapses⟩

/-- **Every tree shrinks.** -/
theorem shrinks (options : CompileOptions) (node : Node) : node.Shrinks options := by
  induction node using induct_parts with
  | primitive text origin =>
    exact ⟨le_rfl, fun _ _ operation => Bool.false_ne_true operation.1⟩
  | object name properties origin ih =>
    obtain ⟨le, whole⟩ := shrinks_together (List.forall_mem_map.mpr ih)
    have values : (collapsedProperties options properties).map Prod.snd =
        (properties.map Prod.snd).map (collapsed options) := by
      rw [collapsedProperties_eq_map, List.map_map, List.map_map]
      rfl
    rw [Shrinks, collapsed, objectOf, count_object, count_object, values]
    refine ⟨Nat.add_le_add_left le 1, fun equal collapses =>
      ⟨fun operation => Bool.false_ne_true operation.1, allProperties_iff.mpr ?_⟩⟩
    exact List.forall_mem_map.mp (whole (Nat.add_left_cancel equal) collapses)
  | list name values operation origin ih =>
    obtain ⟨le, whole⟩ := shrinks_together ih
    rw [Shrinks, collapsed, count_list]
    obtain ⟨only, single, group⟩ | ⟨group, uncollapsed⟩ :=
      groupTree_cases options name operation (collapsedValues options values)
    · -- Without its parentheses the element is smaller than the group was.
      rw [← collapsedValues_eq_map, single, countAll_cons, countAll_nil] at le
      rw [group]
      exact ⟨by omega, fun equal => by omega⟩
    · rw [group, listOf, count_list, collapsedValues_eq_map]
      refine ⟨Nat.add_le_add_left le 1, fun equal collapses =>
        ⟨?_, allValues_iff.mpr (whole (Nat.add_left_cancel equal) collapses)⟩⟩
      rintro ⟨operator, unnamed, only, single⟩
      obtain rfl : values = [only] := Option.some.inj single
      exact uncollapsed collapses ⟨operator, unnamed, only.collapsed options, rfl⟩

/-! ## Printing and reading -/

/-- What agrees with a list without its origins is one. -/
lemma list_of_strip {name : String} {operation : Bool}
    (stripped : value.strip = .listOf name values operation) :
    ∃ items origin, value = .list name items operation origin := by
  cases value with
  | primitive | object => cases stripped
  | list known items bracket origin =>
    obtain ⟨rfl, -, rfl, -⟩ := list.inj stripped
    exact ⟨items, origin, rfl⟩

/-- Whatever agrees with what is left of a tree has distinct keys, as the tree has. -/
lemma Keyed.of_collapsed (keyed : tree.Keyed) (left : value.strip = tree.collapsed options) :
    value.Keyed := by
  rw [Keyed, ← all_strip distinctKeys_strip, left]
  exact keyed.collapsed options

/-- **What is left of a tree is equal to it** only if there was nothing to take out of parentheses. -/
theorem same_iff_of_collapsed (keyed : tree.Keyed) (left : value.strip = tree.collapsed options) :
    value.same tree = true ↔ (options.collapseUnaryOperation = true → tree.All Uncollapsed) := by
  have keyed' := keyed.of_collapsed left
  constructor
  · intro equal
    refine (shrinks options tree).2 ?_
    rw [← left, count_strip value]
    exact ((same_iff_rearranged keyed' keyed).1.mp equal).count_eq
  · intro uncollapsed
    rw [collapsed_eq_strip tree uncollapsed] at left
    exact (same_of_strip_eq value tree left keyed').1

/-- **What printing and reading does to a tree.**  Its text compiles without a report to a single value,
what a text can say of the tree; that is equal to the tree if there was nothing to take out of
parentheses, and only then.  The text of that value compiles without a report to the same value again. -/
def SettlesWhenRead (options : CompileOptions) (tree : Node) : Prop :=
  ∀ name imports, let again := (compileAlone options ⟨name, tree.text⟩ imports).1
    again.reports = [] ∧ ∃ value, again.values = [value] ∧ value.strip = tree.collapsed options ∧
      (value.same tree = true ↔ (options.collapseUnaryOperation = true → tree.All Uncollapsed)) ∧
      ∀ name imports, let further := (compileAlone options ⟨name, value.text⟩ imports).1
        further.reports = [] ∧ ∃ other, further.values = [other] ∧ other.strip = value.strip ∧
          other.same value = true

/-- **A list whose objects have distinct keys** settles when it is printed and read. -/
theorem settlesWhenRead (options : CompileOptions)
    (root : ∃ values origin, tree = .list "" values false origin) (keyed : tree.Keyed) :
    tree.SettlesWhenRead options := by
  intro name imports
  obtain ⟨reports, value, values, left⟩ := compileAlone_printed options name imports root keyed
  refine ⟨reports, value, values, left, same_iff_of_collapsed keyed left, fun name imports => ?_⟩
  have keyed' := keyed.of_collapsed left
  have uncollapsed : options.collapseUnaryOperation = true → value.All Uncollapsed := fun collapses => by
    rw [← all_strip uncollapsed_strip, left]
    exact all_uncollapsed_collapsed collapses tree
  have root' : ∃ values origin, value = .list "" values false origin := by
    obtain ⟨items, origin, rfl⟩ := root
    rw [collapsed, groupTree_list] at left
    exact list_of_strip left
  obtain ⟨reports', other, others, left'⟩ := compileAlone_printed options name imports root' keyed'
  refine ⟨reports', other, others, ?_, (same_iff_of_collapsed keyed' left').mpr uncollapsed⟩
  rw [left', collapsed_eq_strip value uncollapsed]

end Node

/-- **What of the root of a compilation survives its print.**  With any table of definitions whose trees
have distinct keys, and with imports compiled on demand, the root settles when it is printed and read:
all that is lost is the parentheses of unnamed operations of one element. -/
theorem compile_settlesWhenRead (options : CompileOptions) :
    (∀ table, (∀ entry ∈ table, entry.2.value.Carries Node.Keyed) → ∀ source imports,
      (compile options (tableResolver table) source imports).1.root.SettlesWhenRead options) ∧
    ∀ inner loader depth source imports, ImportState.Carries Node.Keyed imports →
      (compile options (loadingResolver inner loader depth) source imports).1.root.SettlesWhenRead
        options := by
  have grown := Node.grown_keyed.grownFrom
  have settles {J : ImportState → Prop} {resolver : Resolver} (honest : Honest Node.Keyed J resolver)
      (source : Source) {imports : ImportState} (known : J imports) :
      (compile options resolver source imports).1.root.SettlesWhenRead options :=
    Node.settlesWhenRead options ⟨_, _, rfl⟩ (carries_compile grown honest source known).1
  exact ⟨fun table carries source imports => settles (honest_table carries) source trivial,
    fun inner loader depth source imports known =>
      settles (honest_loading grown inner loader depth) source known⟩

/-- For instance, what an accessor makes of `(a.f(x))`: the operand of the member that it calls stays in
its parentheses, and the print is read without them. -/
example :
    let root := Node.listOf "" [.listOf "f" [.plain "a", .listOf "" [.plain "x"] true] false] false
    root.text = "[f[a, (x)]]" ∧ (root.collapsed {}).text = "[f[a, x]]" := by
  decide

end TreeLang
