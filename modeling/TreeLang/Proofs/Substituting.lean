import TreeLang.Proofs.Invoking
import TreeLang.Proofs.Templates

/-!
# Substitution

Using a macro means following paths: one after the other the recorded nodes of the template are
replaced or renamed.  What comes of it is a substitution, which replaces everything at once: no
path leads into what another one put there, for a replaced node is a text and has nothing below it.

* `Node.substitute` — texts replaced and names changed, all at once.
* `Node.referrals` — the references in a tree, by their paths.
* `Node.Hole` — a tree around one of its children.
* **`MacroDefinition.foldlM_referrals`** — following the paths of the references substitutes.
* `Node.strip_substitute` — origins do not matter to it.
-/

namespace TreeLang

variable {names : List String} {references : Marks Reference}

/-! ## Substitution -/

namespace Node

variable (given : String → Option Node)

/-- The name that takes the place of another one: the text of what is given for it. -/
def substituteName (name : String) : String :=
  ((given name).bind value?).getD name

mutual

/-- **A tree with something given for its words**: a text gives way to it, a name to its text. -/
def substitute : Node → Node
  | .primitive value origin => (given value).getD (.primitive value origin)
  | .object name properties origin =>
    .object (substituteName given name) (substituteProperties properties) origin
  | .list name values operation origin =>
    .list (substituteName given name) (substituteValues values) operation origin

/-- `substitute` at every property. -/
def substituteProperties : List (String × Node) → List (String × Node)
  | [] => []
  | (key, value) :: rest => (key, value.substitute) :: substituteProperties rest

/-- `substitute` at every value. -/
def substituteValues : List Node → List Node
  | [] => []
  | value :: rest => value.substitute :: substituteValues rest

end

lemma substituteProperties_eq_map (properties : List (String × Node)) :
    substituteProperties given properties
      = properties.map fun entry => (entry.1, entry.2.substitute given) := by
  induction properties with
  | nil => rfl
  | cons entry rest ih => rw [substituteProperties, ih, List.map_cons]

lemma substituteValues_eq_map (values : List Node) :
    substituteValues given values = values.map (substitute given) := by
  induction values with
  | nil => rfl
  | cons value rest ih => rw [substituteValues, ih, List.map_cons]

/-- **Origins do not matter to a substitution.** -/
theorem strip_substitute (node : Node) :
    (node.substitute given).strip = node.strip.substitute fun word => (given word).map strip := by
  have name (word : String) : substituteName given word
      = substituteName (fun word => (given word).map strip) word := by
    rw [substituteName, substituteName]
    cases given word with
    | none => rfl
    | some node => cases node <;> rfl
  induction node using induct_parts with
  | primitive value origin =>
    rw [substitute, strip, plain, substitute]
    cases given value <;> rfl
  | object word properties origin ih =>
    rw [substitute, strip, strip, objectOf, objectOf, substitute, ← name,
      substituteProperties_eq_map, substituteProperties_eq_map, stripProperties_eq_map,
      stripProperties_eq_map, List.map_map, List.map_map]
    refine congrArg (object _ · _) (List.map_congr_left fun entry member => ?_)
    simp only [Function.comp_apply, ih entry member]
  | list word values operation origin ih =>
    rw [substitute, strip, strip, listOf, listOf, substitute, ← name, substituteValues_eq_map,
      substituteValues_eq_map, stripValues_eq_map, stripValues_eq_map, List.map_map, List.map_map]
    refine congrArg (list _ · _ _) (List.map_congr_left fun value member => ?_)
    simp only [Function.comp_apply, ih value member]

variable {given}

/-- What all nodes of a tree and of everything given have, those of the substituted tree have. -/
theorem All.substitute {good : Node → Prop} {node : Node} (all : node.All good)
    (argument : ∀ word value, given word = some value → value.All good)
    (object : ∀ name properties origin, good (.object name properties origin) →
      good (.object (substituteName given name) (substituteProperties given properties) origin))
    (list : ∀ name values operation origin, good (.list name values operation origin) →
      good (.list (substituteName given name) (substituteValues given values) operation origin)) :
    (node.substitute given).All good := by
  induction node using induct_parts with
  | primitive value origin =>
    rw [Node.substitute]
    cases h : given value with
    | none => exact all
    | some replacing => exact argument value replacing h
  | object name properties origin ih =>
    rw [Node.substitute, All, allProperties_iff]
    refine ⟨object _ _ _ all.1, ?_⟩
    rw [substituteProperties_eq_map]
    exact List.forall_mem_map.mpr fun entry member =>
      ih entry member (allProperties_iff.mp all.2 entry member)
  | list name values operation origin ih =>
    rw [Node.substitute, All, allValues_iff]
    refine ⟨list _ _ _ _ all.1, ?_⟩
    rw [substituteValues_eq_map]
    exact List.forall_mem_map.mpr fun value member =>
      ih value member (allValues_iff.mp all.2 value member)

end Node

/-! ## References by their paths -/

namespace Replacement

/-- A replacement, seen from one step above. -/
def under (step : PathStep) (replacement : Replacement) : Replacement :=
  { replacement with path := step :: replacement.path }

end Replacement

namespace Node

/-- What all nodes of a tree have, those that a walk finds have. -/
theorem All.of_mem_nodes {good : Node → Prop} {node : Node} (all : node.All good) :
    ∀ entry ∈ node.nodes, good entry.2 := by
  induction node using induct_parts with
  | primitive value origin => exact List.forall_mem_singleton.mpr all
  | object name properties origin ih =>
    rw [nodes_object]
    refine List.forall_mem_cons.mpr ⟨all.1, List.forall_mem_flatMap.mpr fun entry member => ?_⟩
    exact List.forall_mem_map.mpr (ih entry member (allProperties_iff.mp all.2 entry member))
  | list name values operation origin ih =>
    rw [nodes_list]
    refine List.forall_mem_cons.mpr ⟨all.1, List.forall_mem_flatMap.mpr fun entry member => ?_⟩
    have inside := List.fst_mem_of_mem_zipIdx member
    exact List.forall_mem_map.mpr (ih entry.1 inside (allValues_iff.mp all.2 entry.1 inside))

/-- What those nodes of a tree have that a walk finds, all have. -/
theorem all_of_mem_nodes {good : Node → Prop} {node : Node}
    (found : ∀ entry ∈ node.nodes, good entry.2) : node.All good := by
  induction node using induct_parts with
  | primitive value origin => exact found _ List.mem_cons_self
  | object name properties origin ih =>
    rw [nodes_object] at found
    obtain ⟨root, inner⟩ := List.forall_mem_cons.mp found
    rw [All, allProperties_iff]
    refine ⟨root, fun entry member => ih entry member fun below inside => ?_⟩
    exact List.forall_mem_flatMap.mp inner entry member (under _ below) (List.mem_map_of_mem inside)
  | list name values operation origin ih =>
    rw [nodes_list] at found
    obtain ⟨root, inner⟩ := List.forall_mem_cons.mp found
    rw [All, allValues_iff]
    refine ⟨root, fun value member => ih value member fun below inside => ?_⟩
    obtain ⟨index, known⟩ := List.mem_iff_getElem?.mp member
    exact List.forall_mem_flatMap.mp inner (value, index) (List.mk_mem_zipIdx_iff_getElem?.mpr known)
      (under _ below) (List.mem_map_of_mem inside)

/-- The replacement that a node at some path calls for, if it is a reference. -/
def replacementAt (refer : Node → Option Reference) (entry : Path × Node) : Option Replacement :=
  (refer entry.2).map fun reference => ⟨entry.1, reference.parameter, reference.target⟩

/-- The replacements that the nodes of a tree call for, in the order of a walk. -/
def gather (refer : Node → Option Reference) (node : Node) : List Replacement :=
  node.nodes.filterMap (replacementAt refer)

lemma gather_eq (refer : Node → Option Reference) {node : Node} {inner : List (Path × Node)}
    (parts : node.nodes = ([], node) :: inner) :
    node.gather refer
      = (replacementAt refer ([], node)).toList ++ inner.filterMap (replacementAt refer) := by
  rw [gather, parts, List.filterMap_cons]
  cases replacementAt refer ([], node) <;> rfl

lemma gather_under (refer : Node → Option Reference) (step : PathStep) (node : Node) :
    (node.nodes.map (under step)).filterMap (replacementAt refer)
      = (node.gather refer).map (·.under step) := by
  rw [List.filterMap_map, gather, List.map_filterMap]
  refine List.filterMap_congr fun entry _ => ?_
  rw [replacementAt, Option.map_map]
  rfl

lemma gather_primitive (refer : Node → Option Reference) (value : String) (origin : Origin) :
    (primitive value origin).gather refer
      = (replacementAt refer ([], primitive value origin)).toList := by
  rw [gather_eq refer (nodes_primitive value origin), List.filterMap_nil, List.append_nil]

lemma gather_object (refer : Node → Option Reference) (name : String)
    (properties : List (String × Node)) (origin : Origin) :
    (object name properties origin).gather refer
      = (replacementAt refer ([], object name properties origin)).toList ++
        properties.flatMap fun property =>
          (property.2.gather refer).map (·.under (.key property.1)) := by
  rw [gather_eq refer (nodes_object name properties origin), List.filterMap_flatMap]
  simp only [gather_under]

lemma gather_list (refer : Node → Option Reference) (name : String) (values : List Node)
    (operation : Bool) (origin : Origin) :
    (list name values operation origin).gather refer
      = (replacementAt refer ([], list name values operation origin)).toList ++
        values.zipIdx.flatMap fun value =>
          (value.1.gather refer).map (·.under (.index value.2)) := by
  rw [gather_eq refer (nodes_list name values operation origin), List.filterMap_flatMap]
  simp only [gather_under]

/-- The reference that a node at some path is, if it is one. -/
def referral? (names : List String) (entry : Path × Node) : Option Replacement :=
  (entry.2.referenceIn names).map fun reference =>
    ⟨entry.1, reference.parameter, reference.target⟩

/-- **The references in a tree**: the nodes that refer to one of the names, by their paths. -/
def referrals (names : List String) (node : Node) : List Replacement :=
  node.nodes.filterMap (referral? names)

lemma referrals_primitive (value : String) (origin : Origin) :
    (primitive value origin).referrals names
      = (referral? names ([], primitive value origin)).toList :=
  gather_primitive (referenceIn names) value origin

lemma referrals_object (name : String) (properties : List (String × Node)) (origin : Origin) :
    (object name properties origin).referrals names
      = (referral? names ([], object name properties origin)).toList ++
        properties.flatMap fun property =>
          (property.2.referrals names).map (·.under (.key property.1)) :=
  gather_object (referenceIn names) name properties origin

lemma referrals_list (name : String) (values : List Node) (operation : Bool) (origin : Origin) :
    (list name values operation origin).referrals names
      = (referral? names ([], list name values operation origin)).toList ++
        values.zipIdx.flatMap fun value =>
          (value.1.referrals names).map (·.under (.index value.2)) :=
  gather_list (referenceIn names) name values operation origin

/-- **The marks on a template lead to its references.** -/
theorem Marked.findReplacements_eq {node : Node} (marked : node.Marked names references) :
    MacroDefinition.findReplacements node references = node.referrals names :=
  List.filterMap_congr fun entry member => by
    rw [referral?, ← All.of_mem_nodes marked entry member]

/-- Forgetting numbers leaves the references. -/
theorem referrals_clearIds (node : Node) :
    node.clearIds.referrals names = node.referrals names := by
  induction node using induct_parts with
  | primitive value origin => rfl
  | object name properties origin ih =>
    rw [clearIds, referrals_object, referrals_object, clearPropertyIds_eq_map, List.flatMap_map]
    exact congrArg _ (List.flatMap_congr fun entry member => by rw [ih entry member])
  | list name values operation origin ih =>
    rw [clearIds, referrals_list, referrals_list, clearValueIds_eq_map, List.zipIdx_map,
      List.flatMap_map]
    refine congrArg _ (List.flatMap_congr fun entry member => ?_)
    rw [← ih entry.1 (List.fst_mem_of_mem_zipIdx member)]
    rfl

/-! ## A tree around one of its children -/

/-- **A tree around one of its children**: the step leads there, and changes it. -/
structure Hole (step : PathStep) (around : Node → Node) : Prop where
  child : ∀ inner, (around inner).child? step = some inner
  modifyChild : ∀ change inner,
    (around inner).modifyChild? change step = (change inner).map around

variable {step : PathStep} {around : Node → Node}

lemma Hole.get? (hole : Hole step around) (inner : Node) (path : Path) :
    (around inner).get? (step :: path) = inner.get? path := by
  rw [Node.get?, hole.child]
  rfl

lemma Hole.modify? (hole : Hole step around) (change : Node → Option Node) (inner : Node)
    (path : Path) :
    (around inner).modify? change (step :: path) = (inner.modify? change path).map around := by
  rw [Node.modify?, hole.modifyChild]

/-- The place of a property among distinct keys. -/
lemma hole_key (name key : String) {front : List (String × Node)} (behind : List (String × Node))
    (origin : Origin) (new : ∀ entry ∈ front, entry.1 ≠ key) :
    Hole (.key key) fun inner => .object name (front ++ (key, inner) :: behind) origin := by
  refine ⟨fun inner => ?_, fun change inner => ?_⟩
  · rw [child?, lookup, List.find?_append,
      List.find?_eq_none.mpr fun entry member => by simpa using new entry member]
    simp
  · have modified : modifyKey? change key (front ++ (key, inner) :: behind)
        = (change inner).map fun inner => front ++ (key, inner) :: behind := by
      induction front with
      | nil => simp [modifyKey?]
      | cons entry rest ih =>
        rw [List.cons_append, modifyKey?, if_neg (new entry List.mem_cons_self),
          ih fun entry member => new entry (List.mem_cons_of_mem _ member), Option.map_map]
        rfl
    rw [modifyChild?, modified, Option.map_map]
    rfl

/-- The place of a value. -/
lemma hole_index (name : String) (front behind : List Node) (operation : Bool) (origin : Origin) :
    Hole (.index front.length) fun inner =>
      .list name (front ++ inner :: behind) operation origin := by
  refine ⟨fun inner => by simp [child?], fun change inner => ?_⟩
  have modified : modifyIndex? change front.length (front ++ inner :: behind)
      = (change inner).map fun inner => front ++ inner :: behind := by
    induction front with
    | nil => rfl
    | cons value rest ih =>
      rw [List.length_cons, List.cons_append, modifyIndex?, ih, Option.map_map]
      rfl
  rw [modifyChild?, modified, Option.map_map]
  rfl

end Node

/-! ## Following the paths -/

namespace MacroDefinition

variable {definition : MacroDefinition} {arguments : List Node} {step : PathStep}
  {around : Node → Node}

/-- A replacement in a child leaves what is around it. -/
lemma replace_under (hole : Node.Hole step around) {inner changed : Node} {replacement : Replacement}
    (replaced : definition.replace arguments inner replacement = .ok changed) :
    definition.replace arguments (around inner) (replacement.under step) = .ok (around changed) := by
  obtain ⟨path, parameter, target⟩ := replacement
  have put (change : Node → Option Node) : ((around inner).modify? change (step :: path)).getD
      (around inner) = around ((inner.modify? change path).getD inner) := by
    rw [hole.modify?, Option.getD_map]
  unfold replace at replaced ⊢
  simp only [Replacement.under, hole.get?, Node.set?, put] at replaced ⊢
  cases found : inner.get? path with
  | none =>
    rw [found] at replaced
    cases replaced
  | some node =>
    simp only [found] at replaced ⊢
    cases given : arguments[parameter]? with
    | none =>
      rw [given] at replaced
      cases replaced
    | some value =>
      simp only [given] at replaced ⊢
      cases target with
      | value =>
        cases replaced
        rfl
      | name lead =>
        dsimp only at replaced ⊢
        cases named : value.value? with
        | none =>
          rw [named] at replaced
          cases replaced
        | some text =>
          rw [named] at replaced
          cases replaced
          rfl

lemma foldlM_under (hole : Node.Hole step around) {replacements : List Replacement}
    {inner changed : Node}
    (replaced : replacements.foldlM (definition.replace arguments) inner = .ok changed) :
    (replacements.map (·.under step)).foldlM (definition.replace arguments) (around inner)
      = .ok (around changed) := by
  induction replacements generalizing inner with
  | nil =>
    cases replaced
    rfl
  | cons replacement rest ih =>
    rw [List.foldlM_cons] at replaced
    rw [List.map_cons, List.foldlM_cons]
    cases first : definition.replace arguments inner replacement with
    | error failure =>
      rw [first] at replaced
      cases replaced
    | ok next =>
      rw [first] at replaced
      rw [replace_under hole first]
      exact ih replaced

/-- **What is given for a word**: the argument of the parameter of that name. -/
def given (names : List String) (arguments : List Node) (word : String) : Option Node :=
  (names.findIdx? (· = word)).bind (arguments[·]?)

/-- Whether a tree uses as a name only what a primitive is given for. -/
def Nameable (names : List String) (arguments : List Node) (node : Node) : Prop :=
  ∀ name ∈ node.name?, ∀ value ∈ given names arguments name, value.isNameable = false

lemma nameable_strip (node : Node) :
    Nameable names arguments node.strip ↔ Nameable names arguments node := by
  rw [Nameable, Nameable, node.name?_strip]

variable (bound : arguments.length = names.length)

include bound

/-- There is an argument for each parameter. -/
lemma exists_argument {word : String} {index : Nat}
    (found : names.findIdx? (· = word) = some index) :
    ∃ value, arguments[index]? = some value ∧ given names arguments word = some value := by
  have inside : index < arguments.length := by
    rw [bound]
    exact (List.findIdx?_eq_some_iff_getElem.mp found).1
  refine ⟨arguments[index], List.getElem?_eq_getElem inside, ?_⟩
  rw [given, found, Option.bind_some, List.getElem?_eq_getElem inside]

/-- The replacement at the root of a text puts the argument there. -/
lemma foldlM_root_primitive (value : String) (origin : Origin) :
    (Node.referral? names ([], .primitive value origin)).toList.foldlM
        (definition.replace arguments) (.primitive value origin)
      = .ok ((Node.primitive value origin).substitute (given names arguments)) := by
  rw [Node.referral?, Node.referenceIn, Node.substitute]
  cases found : names.findIdx? (· = value) with
  | none =>
    rw [given, found]
    rfl
  | some index =>
    obtain ⟨argument, known, same⟩ := exists_argument bound found
    rw [same]
    simp only [Option.map_some, Option.toList_some, List.foldlM_cons, List.foldlM_nil, replace,
      Node.get?, known]
    rfl

/-- The replacement at the root of a group renames it. -/
lemma foldlM_root_group {node : Node} {name : String} (named : node.name? = some name)
    (nameable : Nameable names arguments node) :
    (Node.referral? names ([], node)).toList.foldlM (definition.replace arguments) node
      = .ok (node.rename (Node.substituteName (given names arguments) name)) := by
  have reference : node.referenceIn names
      = (names.findIdx? (· = name)).map (⟨·, .name ""⟩) := by
    cases node <;> cases named <;> rfl
  have kept : node.rename name = node := by
    cases node <;> cases named <;> rfl
  rw [Node.referral?, reference, Node.substituteName]
  cases found : names.findIdx? (· = name) with
  | none =>
    rw [given, found, Option.bind_none, Option.bind_none, Option.getD_none, kept]
    rfl
  | some index =>
    obtain ⟨argument, known, same⟩ := exists_argument bound found
    have primitive := nameable name named argument same
    cases argument with
    | object | list => cases primitive
    | primitive text origin =>
      rw [same]
      simp only [Option.map_some, Option.toList_some, List.foldlM_cons, List.foldlM_nil, replace,
        Node.get?, known, Node.value?, Option.bind_some, Option.getD_some]
      rw [String.empty_append]
      rfl

omit bound in
/-- The properties of an object are changed one after the other. -/
lemma foldlM_properties {found : Node → List Replacement} (start : Node → Node) {each : Node → Node}
    (name : String) (origin : Origin) (front behind : List (String × Node))
    (distinct : ((front ++ behind).map Prod.fst).Nodup)
    (replaced : ∀ entry ∈ behind, (found entry.2).foldlM (definition.replace arguments)
      (start entry.2) = .ok (each entry.2)) :
    (behind.flatMap fun entry => (found entry.2).map (·.under (.key entry.1))).foldlM
        (definition.replace arguments)
        (.object name (front ++ behind.map fun entry => (entry.1, start entry.2)) origin)
      = .ok (.object name (front ++ behind.map fun entry => (entry.1, each entry.2)) origin) := by
  induction behind generalizing front with
  | nil => rfl
  | cons entry rest ih =>
    obtain ⟨first, others⟩ := List.forall_mem_cons.mp replaced
    have new : ∀ earlier ∈ front, earlier.1 ≠ entry.1 := fun earlier member => by
      rw [List.map_append, List.map_cons] at distinct
      exact (List.nodup_append.mp distinct).2.2 _ (List.mem_map_of_mem member) _
        List.mem_cons_self
    rw [List.flatMap_cons, List.foldlM_append, List.map_cons,
      foldlM_under (Node.hole_key name entry.1 _ origin new) first]
    have moved := ih (front ++ [(entry.1, each entry.2)]) (by simpa using distinct) others
    rw [List.append_assoc, List.append_assoc] at moved
    exact moved

omit bound in
/-- The values of a list are changed one after the other. -/
lemma foldlM_values {found : Node → List Replacement} (start : Node → Node) {each : Node → Node}
    (name : String) (operation : Bool) (origin : Origin) (front behind : List Node)
    (replaced : ∀ value ∈ behind, (found value).foldlM (definition.replace arguments) (start value)
      = .ok (each value)) :
    ((behind.zipIdx front.length).flatMap fun entry =>
        (found entry.1).map (·.under (.index entry.2))).foldlM
          (definition.replace arguments) (.list name (front ++ behind.map start) operation origin)
      = .ok (.list name (front ++ behind.map each) operation origin) := by
  induction behind generalizing front with
  | nil => rfl
  | cons value rest ih =>
    obtain ⟨first, others⟩ := List.forall_mem_cons.mp replaced
    rw [List.zipIdx_cons, List.flatMap_cons, List.foldlM_append, List.map_cons,
      foldlM_under (Node.hole_index name front _ operation origin) first]
    have moved := ih (front ++ [each value]) others
    rw [List.append_assoc, List.append_assoc, List.length_append] at moved
    exact moved

/-- **Following the paths of the references substitutes** the arguments for the parameters. -/
theorem foldlM_referrals (node : Node) (distinct : node.All Node.DistinctKeys)
    (nameable : node.All (Nameable names arguments)) :
    (node.referrals names).foldlM (definition.replace arguments) node
      = .ok (node.substitute (given names arguments)) := by
  induction node using Node.induct_parts with
  | primitive value origin =>
    rw [Node.referrals_primitive]
    exact foldlM_root_primitive bound value origin
  | object name properties origin ih =>
    rw [Node.referrals_object, List.foldlM_append,
      foldlM_root_group bound rfl nameable.1, Node.substitute, Node.substituteProperties_eq_map]
    have inner := foldlM_properties id (Node.substituteName (given names arguments) name)
      origin [] properties (distinct.1 properties rfl) fun entry member =>
        ih entry member (Node.allProperties_iff.mp distinct.2 entry member)
          (Node.allProperties_iff.mp nameable.2 entry member)
    rw [show properties.map (fun entry => (entry.1, id entry.2)) = properties from List.map_id' _]
      at inner
    exact inner
  | list name values operation origin ih =>
    rw [Node.referrals_list, List.foldlM_append,
      foldlM_root_group bound rfl nameable.1, Node.substitute, Node.substituteValues_eq_map]
    have inner := foldlM_values id (Node.substituteName (given names arguments) name)
      operation origin [] values fun value member =>
        ih value member (Node.allValues_iff.mp distinct.2 value member)
          (Node.allValues_iff.mp nameable.2 value member)
    rw [List.map_id] at inner
    exact inner

end MacroDefinition

end TreeLang
