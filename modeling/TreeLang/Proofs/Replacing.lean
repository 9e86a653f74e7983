import Mathlib.Data.Nat.Find
import TreeLang.Proofs.Applying

/-!
# Filling a template

The replacements of a definition are paths that were collected in one walk over the template, and a
use of the macro follows them one after the other in a tree that they change on the way.  What comes
of it is the template filled at once: every text that refers to a parameter gives way to its
argument, every name that does is put together from it, and everything else stays.  No path leads
into an argument, for only texts give way; and a name is always a text, for the parameter was
narrowed to texts when the definition was built.

* `Node.fill` — the template filled.
* `Marks.Refer` — the references of a template, each to one of its nodes.
* **`foldlM_findReplacements`** — following the paths fills the template.
* `mismatch?_eq_some` — the complaint is about the first argument that is refused.
* **`apply_fills`** — what using a definition comes to, for every template and all references.
-/

namespace TreeLang

/-- Whether a node can be what a reference to a parameter is: a text to be replaced, or an object or
a list to be named. -/
def ReplacementTarget.Suits (node : Node) : ReplacementTarget → Prop
  | .value => node.isNameable = false
  | .name _ => node.isNameable = true

/-- **The references of a template**: each marked number is that of a node in it, and the node is
what the mark says. -/
structure Marks.Refer (references : Marks Reference) (template : Node) : Prop where
  once : references.keys.Nodup
  present : ∀ id ∈ references.keys, id ∈ template.numbers
  suits : ∀ entry ∈ template.nodes, ∀ reference, references.find? entry.2.id = some reference →
    reference.target.Suits entry.2

/-- The parameters that an invocation of a kind gives arguments for: none for a constant, and for
an access the receiver alone. -/
def MacroKind.binds (kind : MacroKind) (parameters : List Parameter) : List Parameter :=
  match kind with
  | .constant => []
  | .access => parameters.take 1
  | _ => parameters

/-! ## Filling -/

namespace Node

variable (references : Marks Reference) (arguments : List Node)

/-- The name of a node with a number: put together from an argument if the node refers to one. -/
def fillName (id : Nat) (name : String) : String :=
  match references.find? id with
  | some ⟨parameter, .name lead⟩ =>
    match arguments[parameter]?.bind value? with
    | some text => lead ++ text
    | none => name
  | _ => name

/-- The node in the place of a text. -/
def fillText (value : String) (origin : Origin) : Node :=
  match references.find? origin.id with
  | some ⟨parameter, .value⟩ =>
    arguments[parameter]?.getD (.primitive value { origin with id := 0 })
  | _ => .primitive value { origin with id := 0 }

mutual

/-- **A template filled with arguments**, all at once. -/
def fill : Node → Node
  | .primitive value origin => fillText references arguments value origin
  | .object name properties origin =>
    .object (fillName references arguments origin.id name) (fillProperties properties)
      { origin with id := 0 }
  | .list name values operation origin =>
    .list (fillName references arguments origin.id name) (fillValues values) operation
      { origin with id := 0 }

/-- `fill` at every property. -/
def fillProperties : List (String × Node) → List (String × Node)
  | [] => []
  | (key, value) :: rest => (key, value.fill) :: fillProperties rest

/-- `fill` at every value. -/
def fillValues : List Node → List Node
  | [] => []
  | value :: rest => value.fill :: fillValues rest

end

lemma fillProperties_eq_map (properties : List (String × Node)) :
    fillProperties references arguments properties
      = properties.map fun entry => (entry.1, entry.2.fill references arguments) := by
  induction properties with
  | nil => rfl
  | cons entry rest ih => rw [fillProperties, ih, List.map_cons]

lemma fillValues_eq_map (values : List Node) :
    fillValues references arguments values = values.map (fill references arguments) := by
  induction values with
  | nil => rfl
  | cons value rest ih => rw [fillValues, ih, List.map_cons]

end Node

namespace MacroDefinition

variable {definition : MacroDefinition} {references : Marks Reference} {arguments : List Node}
  {template : Node}

/-! ## Following the paths -/

/-- What a reference needs of the arguments: one for its parameter, and a text for a name. -/
def Serves (arguments : List Node) (reference : Reference) : Prop :=
  ∃ value, arguments[reference.parameter]? = some value ∧
    ∀ lead, reference.target = .name lead → value.isNameable = false

/-- The replacements of a template are those that its marked nodes call for. -/
lemma findReplacements_eq_gather (template : Node) (references : Marks Reference) :
    findReplacements template references = template.gather fun node => references.find? node.id :=
  rfl

variable (serves : ∀ id reference, references.find? id = some reference →
  Serves arguments reference)

include serves

/-- A marked text gives way to its argument. -/
lemma foldlM_fillText {value : String} {origin : Origin}
    (suits : ∀ reference, references.find? origin.id = some reference →
      reference.target.Suits (.primitive value origin)) :
    (Node.replacementAt (fun node => references.find? node.id)
        ([], .primitive value origin)).toList.foldlM
        (definition.replace arguments) (.primitive value { origin with id := 0 })
      = .ok (Node.fillText references arguments value origin) := by
  rw [Node.replacementAt, Node.fillText]
  show (((references.find? origin.id).map _).toList).foldlM _ _ = _
  cases found : references.find? origin.id with
  | none => rfl
  | some reference =>
    obtain ⟨argument, known, -⟩ := serves _ _ found
    have suit := suits _ found
    obtain ⟨parameter, target⟩ := reference
    cases target with
    | name lead => cases suit
    | value =>
      simp only [Option.map_some, Option.toList_some, List.foldlM_cons, List.foldlM_nil, replace,
        Node.get?, known]
      rfl

/-- A marked group is renamed. -/
lemma foldlM_fillName {node cleared : Node} {name : String} (named : cleared.name? = some name)
    (suits : ∀ reference, references.find? node.id = some reference → reference.target.Suits node)
    (nameable : node.isNameable = true) :
    (Node.replacementAt (fun node => references.find? node.id) ([], node)).toList.foldlM
        (definition.replace arguments) cleared
      = .ok (cleared.rename (Node.fillName references arguments node.id name)) := by
  have kept : cleared.rename name = cleared := by
    cases cleared <;> cases named <;> rfl
  rw [Node.replacementAt, Node.fillName]
  dsimp only
  cases found : references.find? node.id with
  | none =>
    rw [kept]
    rfl
  | some reference =>
    obtain ⟨argument, known, text⟩ := serves _ _ found
    have suit := suits _ found
    obtain ⟨parameter, target⟩ := reference
    cases target with
    | value => simp [ReplacementTarget.Suits, nameable] at suit
    | name lead =>
      cases argument with
      | object | list => cases text lead rfl
      | primitive word origin =>
        simp only [Option.map_some, Option.toList_some, List.foldlM_cons, List.foldlM_nil, replace,
          Node.get?, known, Node.value?, Option.bind_some]
        rfl

/-- **Following the paths fills the template.** -/
theorem foldlM_findReplacements (node : Node) (keyed : node.All Node.DistinctKeys)
    (suits : node.All fun node => ∀ reference, references.find? node.id = some reference →
      reference.target.Suits node) :
    (findReplacements node references).foldlM (definition.replace arguments) node.clearIds
      = .ok (node.fill references arguments) := by
  rw [findReplacements_eq_gather]
  induction node using Node.induct_parts with
  | primitive value origin =>
    rw [Node.gather_primitive]
    exact foldlM_fillText serves suits
  | object name properties origin ih =>
    rw [Node.gather_object, List.foldlM_append, Node.clearIds, Node.fill,
      foldlM_fillName serves (show _ = some name from rfl) suits.1 rfl, Node.clearPropertyIds_eq_map,
      Node.fillProperties_eq_map]
    exact foldlM_properties Node.clearIds _ _ [] properties (keyed.1 properties rfl) fun entry member =>
      ih entry member (Node.allProperties_iff.mp keyed.2 entry member)
        (Node.allProperties_iff.mp suits.2 entry member)
  | list name values operation origin ih =>
    rw [Node.gather_list, List.foldlM_append, Node.clearIds, Node.fill,
      foldlM_fillName serves (show _ = some name from rfl) suits.1 rfl, Node.clearValueIds_eq_map,
      Node.fillValues_eq_map]
    exact foldlM_values Node.clearIds _ operation _ [] values fun value member =>
      ih value member (Node.allValues_iff.mp keyed.2 value member)
        (Node.allValues_iff.mp suits.2 value member)

omit serves

/-! ## Refused arguments -/

/-- A set narrowed to texts accepts texts alone. -/
lemma isNameable_of_accepts_narrowed {set : ShapeSet} {value : Node}
    (accepted : (set.inter (.only .primitive)).accepts value = true) : value.isNameable = false := by
  rw [ShapeSet.accepts, ShapeSet.contains_inter, Bool.and_eq_true] at accepted
  have text : (ShapeSet.any.inter (.only .primitive)).accepts value = true := by
    rw [ShapeSet.accepts, ShapeSet.contains_inter, accepted.2, Bool.and_true]
    exact accepts_any value
  simpa [accepts_narrowed] using text

/-- Whether the argument at an index, if there is one, has a shape that its parameter accepts. -/
def Accepts (definition : MacroDefinition) (arguments : List Node) (index : Nat) : Prop :=
  ∀ parameter value, definition.parameters[index]? = some parameter →
    arguments[index]? = some value → parameter.inferred.accepts value = true

/-- Without a refused argument there is no complaint. -/
lemma mismatch?_eq_none (accepted : ∀ index, definition.Accepts arguments index) :
    definition.mismatch? arguments = none := by
  refine List.findSome?_eq_none_iff.mpr fun entry member => ?_
  obtain ⟨index, known⟩ := List.mem_iff_getElem?.mp member
  obtain ⟨parameter, value⟩ := List.getElem?_zip_eq_some.mp known
  exact if_pos (accepted index _ _ parameter value)

/-- **The complaint is about the first argument that is refused.** -/
lemma mismatch?_eq_some {index : Nat} {parameter : Parameter} {value : Node}
    (here : definition.parameters[index]? = some parameter) (given : arguments[index]? = some value)
    (refused : parameter.inferred.accepts value = false)
    (before : ∀ earlier < index, definition.Accepts arguments earlier) :
    definition.mismatch? arguments = some (.mismatchedArgument parameter.name definition.signature
      parameter.inferred (Shape.of value)) := by
  have known : (definition.parameters.zip arguments)[index]? = some (parameter, value) :=
    List.getElem?_zip_eq_some.mpr ⟨here, given⟩
  obtain ⟨inside, same⟩ := List.getElem?_eq_some_iff.mp known
  refine List.findSome?_eq_some_iff.mpr ⟨(definition.parameters.zip arguments).take index,
    (parameter, value), (definition.parameters.zip arguments).drop (index + 1), ?_, ?_, ?_⟩
  · rw [← same, ← List.drop_eq_getElem_cons inside, List.take_append_drop]
  · simp [refused]
  · intro entry member
    obtain ⟨earlier, known⟩ := List.mem_iff_getElem?.mp member
    rw [List.getElem?_take] at known
    split at known
    · rename_i less
      obtain ⟨parameter, value⟩ := List.getElem?_zip_eq_some.mp known
      exact if_pos (before earlier less _ _ parameter value)
    · cases known

/-- If not all arguments are accepted there is a first one that is refused. -/
lemma exists_refused (refused : ¬ ∀ index, definition.Accepts arguments index) :
    ∃ index parameter value, definition.parameters[index]? = some parameter ∧
      arguments[index]? = some value ∧ parameter.inferred.accepts value = false ∧
        ∀ earlier < index, definition.Accepts arguments earlier := by
  classical
  have some : ∃ index, ¬ definition.Accepts arguments index := not_forall.mp refused
  obtain ⟨index, first, before⟩ : ∃ index, ¬ definition.Accepts arguments index ∧
      ∀ earlier < index, definition.Accepts arguments earlier :=
    ⟨Nat.find some, Nat.find_spec some, fun _ less => not_not.mp (Nat.find_min some less)⟩
  simp only [Accepts, not_forall, Bool.not_eq_true] at first
  obtain ⟨parameter, value, here, given, refused⟩ := first
  exact ⟨index, parameter, value, here, given, refused, before⟩

/-! ## Arguments for the parameters -/

/-- A call that is bound to an access has one argument, its receiver. -/
lemma length_of_bind_access (kind : definition.signature.kind = .access) {argument : Node}
    {binding : Binding} (bound : definition.bind argument = .ok binding) :
    binding.arguments.length = 1 := by
  rw [bind, kind] at bound
  cases called : definition.receiverCall argument with
  | error failure =>
    rw [called] at bound
    cases bound
  | ok call =>
    obtain ⟨receiver, operand⟩ := call
    rw [called] at bound
    cases operand <;> cases bound
    rfl

/-- **There is an argument for each parameter that a kind binds.** -/
lemma length_binds_le {argument : Node} {binding : Binding}
    (bound : definition.bind argument = .ok binding) :
    (definition.signature.kind.binds definition.parameters).length ≤ binding.arguments.length := by
  by_cases none : definition.parameters = []
  · cases kind : definition.signature.kind <;> simp [MacroKind.binds, none]
  have positive := List.length_pos_iff.mpr none
  have bind (arity : definition.signature.kind.Takes definition.parameters.length) :
      binding.arguments.length = definition.parameters.length := by
    have inherited : Node.Inherited fun _ => True :=
      ⟨fun _ _ => trivial, fun _ _ _ => trivial, fun _ _ => trivial, fun _ _ => trivial⟩
    have yields : Yields (definition.Binds fun _ => True) (definition.bind argument) :=
      yields_bind inherited (fun _ _ _ _ => trivial) arity trivial
    rw [bound] at yields
    exact yields.1
  cases kind : definition.signature.kind
  case constant => exact Nat.zero_le _
  case access =>
    rw [length_of_bind_access kind bound]
    exact List.length_take_le 1 _
  case object | list | operation =>
    rw [kind] at bind
    exact Nat.le_of_eq (bind (Nat.zero_le _)).symm
  case objectFunction | listFunction | operationFunction =>
    rw [kind] at bind
    exact Nat.le_of_eq (bind positive).symm

/-! ## What using a definition comes to -/

lemma length_binds_congr (kind : MacroKind) {parameters others : List Parameter}
    (length : parameters.length = others.length) :
    (kind.binds parameters).length = (kind.binds others).length := by
  cases kind <;> simp [MacroKind.binds, length]

lemma length_binds_le_length (kind : MacroKind) (parameters : List Parameter) :
    (kind.binds parameters).length ≤ parameters.length := by
  cases kind <;> simp [MacroKind.binds]

/-- A parameter that the template names something by is narrowed to texts. -/
lemma isNameable_of_named (refer : references.Refer template) {parameters : List Parameter}
    {id parameter : Nat} {lead : String}
    (marked : references.find? id = some ⟨parameter, .name lead⟩)
    (inside : parameter < parameters.length) {value : Node}
    (accepted : ∀ narrowed, (narrow (findReplacements template references) parameters)[parameter]?
      = some narrowed → narrowed.inferred.accepts value = true) : value.isNameable = false := by
  have used : usesAsName (findReplacements template references) parameter = true := by
    obtain ⟨entry, member, same⟩ := List.mem_map.mp (refer.present id
      (Marks.contains_iff.mp (by rw [Marks.contains, marked]; rfl)))
    refine List.any_eq_true.mpr ⟨⟨entry.1, parameter, .name lead⟩, ?_, by simp⟩
    refine List.mem_filterMap.mpr ⟨entry, member, ?_⟩
    dsimp only
    rw [same, marked]
    rfl
  have narrowed : (narrow (findReplacements template references) parameters)[parameter]?
      = some { parameters[parameter] with
          inferred := parameters[parameter].inferred.inter (.only .primitive) } := by
    rw [narrow, List.getElem?_mapIdx, List.getElem?_eq_getElem inside, Option.map_some, if_pos used]
  exact isNameable_of_accepts_narrowed (accepted _ narrowed)

/-- As many references are found as were made. -/
lemma length_findReplacements_of_refer (refer : references.Refer template)
    (distinct : template.numbers.Nodup) :
    (findReplacements template references).length = references.size := by
  rw [length_findReplacements, ← Marks.length_keys]
  exact (Marks.perm_keys refer.once fun id marked =>
    List.count_eq_one_of_mem distinct (refer.present id marked)).length_eq

/-- A template with its references is built into a definition. -/
lemma build_of_refer (refer : references.Refer template) (distinct : template.numbers.Nodup)
    (signature : Signature) (parameters : List Parameter) (deferred : Marks MacroKind) :
    ∃ definition warnings,
      build signature parameters template references deferred = .ok (definition, warnings) ∧
        definition.signature = signature ∧
        definition.parameters = narrow (findReplacements template references) parameters ∧
        definition.template = template.clearIds ∧
        definition.replacements = findReplacements template references := by
  have found := length_findReplacements_of_refer refer distinct
  rw [build]
  dsimp only
  rw [found, if_neg (Nat.lt_irrefl _), if_neg (Nat.lt_irrefl _)]
  exact ⟨_, _, rfl, rfl, rfl, rfl, rfl⟩

/-- Arguments that are accepted serve every reference of the template. -/
lemma serves_of_accepts (refer : references.Refer template) {parameters : List Parameter}
    (narrowed : definition.parameters = narrow (findReplacements template references) parameters)
    (inRange : ∀ id reference, references.find? id = some reference →
      reference.parameter < (definition.signature.kind.binds parameters).length)
    {argument : Node} {binding : Binding} (bound : definition.bind argument = .ok binding)
    (accepted : ∀ index, definition.Accepts binding.arguments index) (id : Nat)
    (reference : Reference) (marked : references.find? id = some reference) :
    Serves binding.arguments reference := by
  have enough := length_binds_le bound
  rw [length_binds_congr _ (show _ = parameters.length by simp [narrowed, narrow])] at enough
  have within := inRange id reference marked
  have given := List.getElem?_eq_getElem (Nat.lt_of_lt_of_le within enough)
  refine ⟨_, given, fun lead named => ?_⟩
  obtain ⟨parameter, target⟩ := reference
  cases named
  refine isNameable_of_named refer marked
    (Nat.lt_of_lt_of_le within (length_binds_le_length _ parameters)) fun parameter here => ?_
  exact accepted _ parameter _ (narrowed ▸ here) given

/-- **Using a definition fills its template.**  A template whose objects have distinct keys and whose
nodes have distinct numbers, with references to parameters that the kind binds, is built into a
definition.  Whatever node is bound to it, either all arguments are accepted and the template is
filled with them, or the complaint is about the first one that is refused: neither is a path ever
missed, nor an argument, nor is a name put together from what is no text. -/
theorem apply_fills {signature : Signature} {parameters : List Parameter}
    (deferred : Marks MacroKind) (keyed : template.All Node.DistinctKeys)
    (distinct : template.numbers.Nodup) (refer : references.Refer template)
    (inRange : ∀ id reference, references.find? id = some reference →
      reference.parameter < (signature.kind.binds parameters).length) :
    ∃ definition warnings,
      build signature parameters template references deferred = .ok (definition, warnings) ∧
      ∀ argument binding, definition.bind argument = .ok binding →
        ((∀ index, definition.Accepts binding.arguments index) ∧ definition.apply argument
            = ⟨binding.warnings, .ok (template.fill references binding.arguments)⟩) ∨
        ∃ index parameter value, definition.parameters[index]? = some parameter ∧
          binding.arguments[index]? = some value ∧ parameter.inferred.accepts value = false ∧
          (∀ earlier < index, definition.Accepts binding.arguments earlier) ∧
          definition.apply argument = ⟨binding.warnings, .error (.of (.mismatchedArgument
            parameter.name signature parameter.inferred (Shape.of value)))⟩ := by
  obtain ⟨definition, warnings, built, rfl, narrowed, cleared, replacements⟩ :=
    build_of_refer refer distinct signature parameters deferred
  refine ⟨definition, warnings, built, fun argument binding bound => ?_⟩
  rw [apply, bound]
  by_cases accepted : ∀ index, definition.Accepts binding.arguments index
  · refine .inl ⟨accepted, ?_⟩
    dsimp only
    rw [mismatch?_eq_none accepted, replacements, cleared]
    refine congrArg (Application.mk binding.warnings) ?_
    exact foldlM_findReplacements (serves_of_accepts refer narrowed inRange bound accepted) template
      keyed (Node.all_of_mem_nodes refer.suits)
  · obtain ⟨index, parameter, value, here, given, refused, before⟩ := exists_refused accepted
    refine .inr ⟨index, parameter, value, here, given, refused, before, ?_⟩
    dsimp only
    rw [mismatch?_eq_some here given refused before]

/-- A list that is named by one parameter and holds another one. -/
theorem apply_fills_of_list :
    let template := Node.list "a" [.primitive "b" ⟨2, ⟨2, 3⟩⟩, .primitive "c" ⟨3, ⟨5, 6⟩⟩] false
      ⟨1, ⟨0, 7⟩⟩
    let references : Marks Reference := ⟨[(1, ⟨0, .name "x-"⟩), (2, ⟨1, .value⟩)]⟩
    let group := Node.listOf "" [.plain "z"] false
    references.Refer template ∧ ∃ definition warnings,
      build ⟨"m", .list⟩ [.plain "a", .plain "b"] template references .empty
        = .ok (definition, warnings) ∧
      (definition.apply (.listOf "m" [.plain "y", group] false)).result
        = .ok (.list "x-y" [group, .primitive "c" ⟨0, ⟨5, 6⟩⟩] false ⟨0, ⟨0, 7⟩⟩) := by
  intro template references group
  have refer : references.Refer template := by
    refine ⟨by decide, by decide, fun entry member reference marked => ?_⟩
    have nodes : template.nodes = [([], template), ([.index 0], .primitive "b" ⟨2, ⟨2, 3⟩⟩),
      ([.index 1], .primitive "c" ⟨3, ⟨5, 6⟩⟩)] := by rfl
    rw [nodes] at member
    rcases List.mem_cons.mp member with rfl | member
    · cases marked
      rfl
    · rcases List.mem_cons.mp member with rfl | member
      · cases marked
        rfl
      · cases List.mem_singleton.mp member
        cases marked
  have inRange (id : Nat) (reference : Reference) (marked : references.find? id = some reference) :
      reference.parameter < 2 := by
    have known : ∀ mark ∈ references.entries, mark.2.parameter < 2 := by decide
    exact known _ (Marks.mem_of_find? marked)
  have keyed : template.All Node.DistinctKeys := by
    simp [template, Node.All, Node.AllValues, Node.DistinctKeys, Node.properties?]
  obtain ⟨definition, warnings, built, applied⟩ :=
    @apply_fills references template ⟨"m", .list⟩ [.plain "a", .plain "b"] .empty keyed (by decide)
      refer inRange
  refine ⟨refer, definition, warnings, built, ?_⟩
  have same : build ⟨"m", .list⟩ [.plain "a", .plain "b"] template references .empty
      = .ok (⟨⟨"m", .list⟩, narrow (findReplacements template references) [.plain "a", .plain "b"],
          template.clearIds, findReplacements template references,
          findDeferred template .empty⟩, []) := by rfl
  rw [built] at same
  cases same
  rcases applied (.listOf "m" [.plain "y", group] false) ⟨[.plain "y", group], []⟩ rfl with
    ⟨-, result⟩ | ⟨index, parameter, value, here, given, refused, -⟩
  · rw [result]
    rfl
  · have narrowed : narrow (findReplacements template references) [.plain "a", .plain "b"]
        = [{ Parameter.plain "a" with inferred := ShapeSet.any.inter (.only .primitive) },
          .plain "b"] := by rfl
    rw [narrowed] at here
    rcases index with - | - | index
    · cases here
      cases given
      cases (accepts_narrowed _).symm.trans refused
    · cases here
      cases (accepts_any value).symm.trans refused
    · cases here

end MacroDefinition

end TreeLang
