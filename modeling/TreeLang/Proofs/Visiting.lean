import Mathlib.Data.List.Infix
import TreeLang.Proofs.Addressing

/-!
# What a walk visits

A walk, a look at a path and a change at a path name the nodes of a tree in the same way, as long as the
keys of every object are distinct.  The walk that visits everything lists what the paths of the tree lead
to, in pre-order; any other walk is cut out of this one by the answers of its visitor; and what is put at
a path is found at that path and nowhere else.

The answers of a visitor are taken as a function of the path.  No path is visited twice, so a visitor
that has a memory could not answer more freely.

* `upTo`, `Walk.along` — the entries up to where a walk is ended.
* `Node.Unskipped` — the visitor did not skip a node above a path.
* **`Node.walk_eq`** — a walk, by the answers of its visitor.
* `Node.Before` — pre-order; `Node.eq_nodes_of_before` — there is one list of the nodes in it.
* `Node.mem_nodes_iff` — the walk lists what the paths lead to.
* **`Node.walk_get?_set?`** — walks, paths and changes.
-/

namespace TreeLang

/-! ## Where a walk is ended -/

/-- The entries of a list up to the first one that ends it, that one included. -/
def upTo {α : Type} (ends : α → Bool) : List α → List α
  | [] => []
  | entry :: rest => if ends entry then [entry] else entry :: upTo ends rest

/-- The walk along some entries. -/
def Walk.along (ends : Path × Node → Bool) (entries : List (Path × Node)) : Walk :=
  ⟨upTo ends entries, entries.any ends⟩

lemma Walk.along_cons (ends : Path × Node → Bool) (entry : Path × Node) (rest : List (Path × Node)) :
    along ends (entry :: rest)
      = (if ends entry then ⟨[entry], true⟩ else Walk.andThen ⟨[entry], false⟩ fun _ => along ends rest) := by
  cases h : ends entry <;> simp [along, upTo, andThen, h]

/-- Entries behind others. -/
lemma Walk.along_append (ends : Path × Node → Bool) (first second : List (Path × Node)) :
    along ends (first ++ second) = (along ends first).andThen fun _ => along ends second := by
  induction first with
  | nil => rfl
  | cons entry rest ih =>
    rw [List.cons_append, along_cons, along_cons, ih]
    cases h : ends entry <;> cases stopped : (along ends rest).stopped <;>
      simp [andThen, stopped]

namespace Node

variable {visit : Path → Node → Visit} {tree child node : Node} {step : PathStep} {path rest : Path}

/-! ## What a visitor skips -/

/-- **No node strictly above a path was skipped.** -/
def Unskipped (visit : Path → Node → Visit) (tree : Node) (path : Path) : Prop :=
  ∀ above, above <+: path → above ≠ path → ∀ node ∈ tree.get? above, visit above node ≠ .skipChildren

instance (visit : Path → Node → Visit) (tree : Node) : DecidablePred (Unskipped visit tree) := fun path =>
  decidable_of_iff
    (∀ above ∈ path.inits, above ≠ path → ∀ node ∈ tree.get? above, visit above node ≠ .skipChildren)
    (forall_congr' fun above => imp_congr_left (List.mem_inits above path))

lemma unskipped_nil : Unskipped visit tree [] :=
  fun _ above strict => absurd (List.prefix_nil.mp above) strict

/-- Below a child: the node itself was not skipped, and nothing on the way from the child was. -/
lemma unskipped_cons (found : tree.child? step = some child) :
    Unskipped visit tree (step :: rest)
      ↔ visit [] tree ≠ .skipChildren ∧ Unskipped (fun inner => visit (step :: inner)) child rest := by
  have below (above : Path) : tree.get? (step :: above) = child.get? above := by
    rw [get?, found, Option.bind_some]
  constructor
  · intro unskipped
    refine ⟨unskipped [] List.nil_prefix (List.cons_ne_nil _ _).symm tree rfl,
      fun above inside strict node found => ?_⟩
    exact unskipped (step :: above) (List.cons_prefix_cons.mpr ⟨rfl, inside⟩)
      (fun same => strict (List.cons.inj same).2) node (by rwa [below])
  · rintro ⟨root, inner⟩ above inside strict node there
    cases above with
    | nil =>
      obtain rfl : tree = node := Option.some.inj there
      exact root
    | cons first above =>
      obtain ⟨rfl, further⟩ := List.cons_prefix_cons.mp inside
      rw [below] at there
      exact inner above further (fun same => strict (congrArg _ same)) node there

/-! ## Walks -/

/-- An entry of a walk through a part of a tree, seen from the root of the tree. -/
def beneath (path : Path) (entry : Path × Node) : Path × Node :=
  (path ++ entry.1, entry.2)

/-- The entries of a part of a tree that a visitor does not skip. -/
def kept (visit : Path → Node → Visit) (path : Path) (node : Node) : List (Path × Node) :=
  (node.nodes.filter fun entry => Unskipped (fun inner => visit (path ++ inner)) node entry.1).map
    (beneath path)

/-- Where a walk is ended. -/
def stopsAt (visit : Path → Node → Visit) (entry : Path × Node) : Bool :=
  visit entry.1 entry.2 = .stop

lemma kept_primitive (visit : Path → Node → Visit) (path : Path) (value : String) (origin : Origin) :
    kept visit path (primitive value origin) = [(path, primitive value origin)] := by
  simp [kept, nodes_primitive, beneath, unskipped_nil]

/-- The entries of a node that has parts: none below it where it is skipped, else those of its parts. -/
lemma kept_of_parts {α : Type} {parts : List α} {step : α → PathStep} {inner : α → Node}
    (nodes : node.nodes = ([], node) :: parts.flatMap fun part => (inner part).nodes.map (under (step part)))
    (found : ∀ part ∈ parts, node.child? (step part) = some (inner part)) (path : Path) :
    kept visit path node = (path, node) :: if visit path node = .skipChildren then []
      else parts.flatMap fun part => kept visit (path ++ [step part]) (inner part) := by
  set answer : Path → Node → Visit := fun inner => visit (path ++ inner) with hanswer
  have root : answer [] node = visit path node := congrArg (visit · node) (List.append_nil path)
  have inside (part : α) (member : part ∈ parts) (entry : Path × Node) :
      Unskipped answer node (step part :: entry.1) ↔ visit path node ≠ .skipChildren ∧
        Unskipped (fun rest => visit (path ++ [step part] ++ rest)) (inner part) entry.1 := by
    rw [unskipped_cons (found part member), root]
    simp only [hanswer, List.append_assoc, List.singleton_append]
  have first : decide (Unskipped answer node []) = true := decide_eq_true unskipped_nil
  rw [kept, ← hanswer, nodes, List.filter_cons, if_pos first, List.map_cons, List.filter_flatMap,
    List.map_flatMap]
  refine congrArg₂ List.cons (by simp [beneath]) ?_
  split
  · rename_i skipped
    refine List.flatMap_eq_nil_iff.mpr fun part member => ?_
    rw [List.filter_map, List.map_map, List.map_eq_nil_iff, List.filter_eq_nil_iff]
    intro entry _
    simp only [Function.comp_apply, under, decide_eq_true_eq, inside part member entry, skipped, ne_eq,
      not_true_eq_false, false_and, not_false_eq_true]
  · rename_i entered
    refine List.flatMap_congr fun part member => ?_
    rw [kept, List.filter_map, List.map_map]
    have same : (inner part).nodes.filter ((fun entry => decide (Unskipped answer node entry.1)) ∘
          under (step part))
        = (inner part).nodes.filter fun entry => Unskipped
            (fun rest => visit (path ++ [step part] ++ rest)) (inner part) entry.1 := by
      refine List.filter_congr fun entry _ => ?_
      simp only [Function.comp_apply, under, inside part member entry, ne_eq, entered, not_false_eq_true,
        true_and]
    rw [same]
    refine List.map_congr_left fun entry _ => ?_
    simp [beneath, under]

lemma kept_object (visit : Path → Node → Visit) (path : Path) {name : String}
    {properties : List (String × Node)} {origin : Origin} (distinct : (properties.map Prod.fst).Nodup) :
    kept visit path (object name properties origin) = (path, object name properties origin) ::
      if visit path (object name properties origin) = .skipChildren then []
      else properties.flatMap fun property => kept visit (path ++ [.key property.1]) property.2 :=
  kept_of_parts (nodes_object name properties origin)
    (fun _ member => lookup_of_mem distinct member) path

lemma kept_list (visit : Path → Node → Visit) (path : Path) (name : String) (values : List Node)
    (operation : Bool) (origin : Origin) :
    kept visit path (list name values operation origin) = (path, list name values operation origin) ::
      if visit path (list name values operation origin) = .skipChildren then []
      else values.zipIdx.flatMap fun value => kept visit (path ++ [.index value.2]) value.1 :=
  kept_of_parts (nodes_list name values operation origin)
    (fun _ member => List.mk_mem_zipIdx_iff_getElem?.mp member) path

mutual

/-- **A walk goes along what its visitor does not skip**, wherever it starts. -/
theorem walkFrom_eq (visit : Path → Node → Visit) : (node : Node) → node.Keyed → (path : Path) →
    walkFrom visit path node = Walk.along (stopsAt visit) (kept visit path node)
  | .primitive value origin, _, path => by
    rw [kept_primitive, walkFrom]
    simp [Walk.along, upTo, stopsAt]
  | .object name properties origin, keyed, path => by
    obtain ⟨distinct, inside⟩ := keyed_object.mp keyed
    rw [kept_object visit path distinct, Walk.along_cons, walkFrom]
    cases answer : visit path (object name properties origin) with
    | stop => simp [stopsAt, answer]
    | skipChildren => simp [stopsAt, answer, Walk.along, Walk.andThen, upTo]
    | enter => simp [stopsAt, answer, walkProperties_eq visit properties inside path]
  | .list name values operation origin, keyed, path => by
    rw [kept_list, Walk.along_cons, walkFrom]
    cases answer : visit path (list name values operation origin) with
    | stop => simp [stopsAt, answer]
    | skipChildren => simp [stopsAt, answer, Walk.along, Walk.andThen, upTo]
    | enter => simp [stopsAt, answer, walkValues_eq visit values (keyed_list.mp keyed) path 0]

theorem walkProperties_eq (visit : Path → Node → Visit) : (properties : List (String × Node)) →
    (∀ property ∈ properties, property.2.Keyed) → (path : Path) →
    walkProperties visit path properties = Walk.along (stopsAt visit)
      (properties.flatMap fun property => kept visit (path ++ [.key property.1]) property.2)
  | [], _, path => rfl
  | (key, value) :: rest, keyed, path => by
    obtain ⟨first, others⟩ := List.forall_mem_cons.mp keyed
    rw [List.flatMap_cons, Walk.along_append, ← walkProperties_eq visit rest others path,
      ← walkFrom_eq visit value first, walkProperties]

theorem walkValues_eq (visit : Path → Node → Visit) : (values : List Node) →
    (∀ value ∈ values, value.Keyed) → (path : Path) → (index : Nat) →
    walkValues visit path index values = Walk.along (stopsAt visit)
      ((values.zipIdx index).flatMap fun value => kept visit (path ++ [.index value.2]) value.1)
  | [], _, path, index => rfl
  | value :: rest, keyed, path, index => by
    obtain ⟨first, others⟩ := List.forall_mem_cons.mp keyed
    rw [List.zipIdx_cons, List.flatMap_cons, Walk.along_append,
      ← walkValues_eq visit rest others path (index + 1), ← walkFrom_eq visit value first, walkValues]

end

/-- **What a walk visits**: in the order of the walk that visits everything, the nodes below no skipped
one, up to the first at which the visitor ends the walk. -/
theorem walk_eq (visit : Path → Node → Visit) (keyed : tree.Keyed) :
    tree.walk visit
      = upTo (stopsAt visit) (tree.nodes.filter fun entry => Unskipped visit tree entry.1) := by
  rw [walk, walkFrom_eq visit tree keyed []]
  exact congrArg (upTo _) (List.map_id _)

/-! ## Pre-order -/

/-- The steps from a node to its children, in their order. -/
def steps : Node → List PathStep
  | .primitive _ _ => []
  | .object _ properties _ => properties.map fun property => .key property.1
  | .list _ values _ _ => values.zipIdx.map fun value => .index value.2

/-- **Pre-order**: a node stands before what is below it, and all that is below a child before all that
is below a later one. -/
inductive Before : Node → Path → Path → Prop where
  | root (tree : Node) (step : PathStep) (rest : Path) : Before tree [] (step :: rest)
  | beside {tree : Node} {first second : PathStep} (order : [first, second].Sublist tree.steps)
      (path other : Path) : Before tree (first :: path) (second :: other)
  | inner {tree child : Node} {step : PathStep} {path other : Path} (found : tree.child? step = some child)
      (inside : Before child path other) : Before tree (step :: path) (step :: other)

lemma nodup_steps (keyed : tree.Keyed) : tree.steps.Nodup := by
  cases tree with
  | primitive => exact List.nodup_nil
  | object name properties origin =>
    have keys := (keyed_object.mp keyed).1.map (f := PathStep.key) fun _ _ same => PathStep.key.inj same
    rwa [List.map_map] at keys
  | list name values operation origin =>
    have indices := (List.nodup_range' (s := 0) (n := values.length)).map (f := PathStep.index)
      fun _ _ same => PathStep.index.inj same
    rwa [← List.zipIdx_map_snd, List.map_map] at indices

/-- Of two members of a list without repetitions one comes first. -/
lemma not_sublist_of_sublist {α : Type} {a b : α} {entries : List α} (nodup : entries.Nodup)
    (order : [a, b].Sublist entries) : ¬ [b, a].Sublist entries := by
  induction entries with
  | nil => cases order
  | cons entry entries ih =>
    obtain ⟨fresh, nodup⟩ := List.nodup_cons.mp nodup
    intro reverse
    cases order with
    | cons _ order =>
      cases reverse with
      | cons _ reverse => exact ih nodup order reverse
      | cons_cons _ reverse => exact fresh (order.subset (List.mem_cons_of_mem _ List.mem_cons_self))
    | cons_cons _ order =>
      cases reverse with
      | cons _ reverse => exact fresh (reverse.subset (List.mem_cons_of_mem _ List.mem_cons_self))
      | cons_cons _ reverse => exact fresh (order.subset List.mem_cons_self)

/-- Pre-order has no circles. -/
theorem Before.asymm {first second : Path} (keyed : tree.Keyed) (order : tree.Before first second) :
    ¬ tree.Before second first := by
  induction order with
  | root => exact nofun
  | beside order =>
    have nodup := nodup_steps keyed
    intro reverse
    cases reverse with
    | beside reverse => exact not_sublist_of_sublist nodup order reverse
    | inner => exact List.nodup_iff_sublist.mp nodup _ order
  | inner found inside ih =>
    intro reverse
    cases reverse with
    | beside reverse => exact List.nodup_iff_sublist.mp (nodup_steps keyed) _ reverse
    | inner found' reverse =>
      obtain rfl := Option.some.inj (found.symm.trans found')
      exact ih (keyed.child found) reverse

lemma pairwise_before_of_parts {α : Type} {parts : List α} {step : α → PathStep} {inner : α → Node}
    (steps : node.steps = parts.map step)
    (found : ∀ part ∈ parts, node.child? (step part) = some (inner part))
    (below : ∀ part ∈ parts,
      (inner part).nodes.Pairwise fun first second => (inner part).Before first.1 second.1) :
    (([], node) :: parts.flatMap fun part => (inner part).nodes.map (under (step part))).Pairwise
      fun first second => node.Before first.1 second.1 := by
  refine List.pairwise_cons.mpr ⟨List.forall_mem_flatMap.mpr fun part _ => ?_,
    List.pairwise_flatMap.mpr ⟨fun part member => ?_, ?_⟩⟩
  · exact List.forall_mem_map.mpr fun entry _ => .root node _ entry.1
  · exact List.pairwise_map.mpr ((below part member).imp (.inner (found part member)))
  · refine List.pairwise_iff_forall_sublist.mpr fun {first second} order => ?_
    refine List.forall_mem_map.mpr fun entry _ => List.forall_mem_map.mpr fun other _ => ?_
    exact .beside (steps ▸ order.map step) entry.1 other.1

/-- **The walk that visits everything goes in pre-order.** -/
theorem pairwise_before (keyed : tree.Keyed) :
    tree.nodes.Pairwise fun first second => tree.Before first.1 second.1 := by
  induction tree using induct_parts with
  | primitive value origin => exact List.pairwise_singleton _ _
  | object name properties origin ih =>
    obtain ⟨distinct, inside⟩ := keyed_object.mp keyed
    rw [nodes_object]
    exact pairwise_before_of_parts rfl (fun _ member => lookup_of_mem distinct member)
      fun property member => ih property member (inside property member)
  | list name values operation origin ih =>
    rw [nodes_list]
    refine pairwise_before_of_parts rfl
      (fun _ member => List.mk_mem_zipIdx_iff_getElem?.mp member) fun value member => ?_
    have inside := List.fst_mem_of_mem_zipIdx member
    exact ih value.1 inside (keyed_list.mp keyed value.1 inside)

/-! ## What the paths lead to -/

/-- The walk that visits everything comes to whatever a path leads to. -/
theorem mem_nodes_of_get? (found : tree.get? path = some node) : (path, node) ∈ tree.nodes := by
  induction path generalizing tree with
  | nil =>
    obtain rfl : tree = node := Option.some.inj found
    cases tree <;> simp [nodes_primitive, nodes_object, nodes_list]
  | cons step rest ih =>
    obtain ⟨child, first, found⟩ := Option.bind_eq_some_iff.mp found
    have inside := List.mem_map_of_mem (f := under step) (ih found)
    cases tree with
    | primitive => cases step <;> cases first
    | object name properties origin =>
      cases step with
      | index => cases first
      | key key =>
        obtain ⟨property, known, rfl⟩ := Option.map_eq_some_iff.mp first
        obtain rfl : property.1 = key := by simpa using List.find?_some known
        rw [nodes_object]
        exact List.mem_cons_of_mem _ (List.mem_flatMap_of_mem (List.mem_of_find?_eq_some known) inside)
    | list name values operation origin =>
      cases step with
      | key => cases first
      | index index =>
        rw [nodes_list]
        exact List.mem_cons_of_mem _
          (List.mem_flatMap_of_mem (List.mk_mem_zipIdx_iff_getElem?.mpr first) inside)

/-- **The walk lists what the paths lead to.** -/
theorem mem_nodes_iff (keyed : tree.Keyed) : (path, node) ∈ tree.nodes ↔ tree.get? path = some node :=
  ⟨get?_of_mem_nodes keyed (path, node), mem_nodes_of_get?⟩

/-- There is one list in pre-order of what the paths lead to. -/
theorem eq_nodes_of_before (keyed : tree.Keyed) {entries : List (Path × Node)}
    (order : entries.Pairwise fun first second => tree.Before first.1 second.1)
    (complete : ∀ path node, (path, node) ∈ entries ↔ tree.get? path = some node) :
    entries = tree.nodes := by
  have strict {entries : List (Path × Node)}
      (order : entries.Pairwise fun first second => tree.Before first.1 second.1) : entries.Nodup :=
    order.imp fun before same => (same ▸ before).asymm keyed (same ▸ before)
  have members : entries.Perm tree.nodes :=
    (List.perm_ext_iff_of_nodup (strict order) (strict (pairwise_before keyed))).mpr fun entry =>
      (complete entry.1 entry.2).trans (mem_nodes_iff keyed).symm
  exact members.eq_of_pairwise (fun _ _ _ _ before after => absurd after (before.asymm keyed)) order
    (pairwise_before keyed)

/-! ## What is put at a path -/

/-- **What is put at a path is found there**, and nowhere else. -/
theorem get?_set? {old : Node} (found : tree.get? path = some old) (value : Node) :
    ∃ changed, tree.set? path value = some changed ∧ changed.get? path = some value ∧
      (∀ rest, changed.get? (path ++ rest) = value.get? rest) ∧
      ∀ other, ¬ other <+: path → ¬ path <+: other → changed.get? other = tree.get? other := by
  have possible : (tree.set? path value).isSome := by
    rw [set?, modify?_isSome, found]
    rfl
  obtain ⟨changed, put⟩ := Option.isSome_iff_exists.mp possible
  have below (rest : Path) : changed.get? (path ++ rest) = value.get? rest := by
    rw [get?_modify?_append put, found, Option.bind_some, Option.bind_some]
  refine ⟨changed, put, ?_, below, fun other => get?_modify?_of_apart put⟩
  rw [← List.append_nil path, below]
  rfl

/-- **Walks, paths and changes name the nodes of a tree in the same way**, if its keys are distinct.  The
walk that visits everything lists in pre-order what the paths lead to, each path once; the answers of a
visitor leave of it the nodes that have no skipped one above them, up to the first at which the walk is
ended; and what is put at a path that leads somewhere is found there and below, and changes no path that
neither leads to it nor lies on the way. -/
theorem walk_get?_set? (tree : Node) (keyed : tree.Keyed) :
    (tree.nodes.Pairwise (fun first second => tree.Before first.1 second.1) ∧
      (tree.nodes.map Prod.fst).Nodup ∧
      (∀ path node, (path, node) ∈ tree.nodes ↔ tree.get? path = some node) ∧
      ∀ entries, entries.Pairwise (fun first second => tree.Before first.1 second.1) →
        (∀ path node, (path, node) ∈ entries ↔ tree.get? path = some node) → entries = tree.nodes) ∧
    (∀ visit, tree.walk visit
      = upTo (stopsAt visit) (tree.nodes.filter fun entry => Unskipped visit tree entry.1)) ∧
    ∀ path old value, tree.get? path = some old →
      ∃ changed, tree.set? path value = some changed ∧ changed.get? path = some value ∧
        (∀ rest, changed.get? (path ++ rest) = value.get? rest) ∧
        ∀ other, ¬ other <+: path → ¬ path <+: other → changed.get? other = tree.get? other :=
  ⟨⟨pairwise_before keyed, nodup_paths keyed, fun _ _ => mem_nodes_iff keyed,
      fun _ => eq_nodes_of_before keyed⟩,
    fun visit => walk_eq visit keyed, fun _ _ value found => get?_set? found value⟩

/-- For instance, a walk that skips a list and ends behind it, and a change inside the list. -/
theorem walk_get?_set?_of_skipped_list :
    let inner := Node.listOf "f" [.plain "1", .plain "2"] true
    let tree := Node.objectOf "" [("a", inner), ("b", .plain "3"), ("c", .plain "4")]
    let visit : Path → Node → Visit := fun path node =>
      if path = [.key "b"] then .stop else if node.isOperation then .skipChildren else .enter
    tree.Keyed ∧ tree.get? [.key "a", .index 1] = some (.plain "2") ∧
      tree.walk visit = [([], tree), ([.key "a"], inner), ([.key "b"], .plain "3")] ∧
      ∃ changed, tree.set? [.key "a", .index 1] (.objectOf "" [("k", .plain "5")]) = some changed ∧
        changed.get? [.key "a", .index 1, .key "k"] = some (.plain "5") ∧
        changed.get? [.key "a", .index 0] = tree.get? [.key "a", .index 0] := by
  intro inner tree visit
  have keyed : tree.Keyed := by
    simp [tree, inner, Keyed, All, AllProperties, AllValues, DistinctKeys, objectOf, listOf, plain,
      properties?]
  obtain ⟨-, walks, changes⟩ := walk_get?_set? tree keyed
  obtain ⟨changed, put, -, below, apart⟩ :=
    changes [.key "a", .index 1] (.plain "2") (.objectOf "" [("k", .plain "5")]) rfl
  exact ⟨keyed, rfl, (walks visit).trans rfl, changed, put, below [.key "k"],
    apart _ (by decide) (by decide)⟩

end Node

end TreeLang
