import Mathlib.Data.List.Nodup
import TreeLang.Proofs.Substituting

/-!
# Macros with plain parameters

A macro whose parameters have neither annotation nor fallback and that is invoked by a list takes
one value for each parameter.  Its template is built without a warning, and using it substitutes
the values for the parameters, unless a name is to come from a value that is no text.

* `Node.Offends` — a parameter that is used as a name and given no text.
* `Drafts.build_eq` — the definition that a template gives rise to.
* `MacroDefinition.bind_list` — the values are bound in their order.
* **`MacroDefinition.apply_plain`** — what comes of using such a macro.
-/

namespace TreeLang

variable {names : List String} {arguments : List Node} {node : Node}

/-! ## Building the definition -/

namespace MacroDefinition

/-- The macro of a template under plain parameters, invoked by lists. -/
def ofList (name : String) (names : List String) (template : Node)
    (deferred : List DeferredInvocation) : MacroDefinition :=
  ⟨⟨name, .list⟩, narrow (template.referrals names) (names.map .plain), template.clearIds,
    template.referrals names, deferred⟩

/-- As many references are found as there are marked numbers in the template. -/
lemma length_findReplacements (template : Node) (references : Marks Reference) :
    (findReplacements template references).length
      = (template.numbers.filter references.contains).length := by
  rw [findReplacements, List.length_filterMap_eq_countP, Node.numbers, List.filter_map,
    List.length_map, List.countP_eq_length_filter]
  congr 2
  funext entry
  rw [Option.isSome_map]
  rfl

/-- **Every mark is found again.** -/
theorem length_findReplacements_of_exact {floor top : Nat} {references : Marks Reference}
    {deferred : List Nat} (exact : Exact floor top references.keys deferred [node]) :
    (findReplacements node references).length = references.size := by
  rw [length_findReplacements, ← Marks.length_keys]
  refine (Marks.perm_keys exact.references_nodup fun id marked => ?_).length_eq
  simpa [Node.occurrences] using exact.once id (.inl marked)

/-- A parameter that is narrowed to texts can still be given one. -/
lemma narrowWarnings_plain (signature : Signature) (name : String) :
    narrowWarnings signature
      { Parameter.plain name with inferred := ShapeSet.any.inter (.only .primitive) } = [] := by
  have nonempty : (ShapeSet.any.inter (.only .primitive)).isEmpty = false := by decide
  rw [narrowWarnings, nonempty]
  rfl

/-- **A template gives rise to a definition**, without a warning. -/
theorem build_plain {references : Marks Reference} (deferred : Marks MacroKind) (name : String)
    (marked : node.Marked names references)
    (found : (findReplacements node references).length = references.size) :
    build ⟨name, .list⟩ (names.map .plain) node references deferred
      = .ok (ofList name names node (findDeferred node deferred), []) := by
  rw [build]
  dsimp only
  rw [found, if_neg (lt_irrefl _), if_neg (lt_irrefl _), marked.findReplacements_eq]
  have silent : ((List.range (names.map Parameter.plain).length).flatMap fun index =>
      if usesAsName (node.referrals names) index then
        ((narrow (node.referrals names) (names.map .plain))[index]?.map
          (narrowWarnings ⟨name, .list⟩)).getD []
      else []) = [] := by
    refine List.flatMap_eq_nil_iff.mpr fun index _ => ?_
    split
    · rename_i used
      rw [narrow, List.getElem?_mapIdx, List.getElem?_map]
      cases names[index]? with
      | none => rfl
      | some word =>
        simp only [Option.map_some, Option.getD_some, used, if_true]
        exact narrowWarnings_plain _ word
    · rfl
  rw [silent]
  rfl

end MacroDefinition

/-! ## Arguments that are no names -/

namespace Node

/-- Whether a word is the name of a node in a tree. -/
def Names (word : String) (node : Node) : Prop :=
  ∃ entry ∈ node.nodes, entry.2.name? = some word

lemma names_iff {word : String} : node.Names word ↔ ¬ node.All fun inner => inner.name? ≠ some word := by
  constructor
  · rintro ⟨entry, member, named⟩ all
    exact all.of_mem_nodes entry member named
  · intro some
    by_contra none
    exact some (all_of_mem_nodes fun entry member named => none ⟨entry, member, named⟩)

/-- **An offending parameter**: it is the name of a node in the template, and what is given for it
is no text. -/
def Offends (names : List String) (arguments : List Node) (template : Node) (word : String) : Prop :=
  template.Names word ∧
    ∃ value, MacroDefinition.given names arguments word = some value ∧ value.isNameable = true

instance (word : String) (node : Node) : Decidable (node.Names word) :=
  inferInstanceAs (Decidable (∃ entry ∈ node.nodes, entry.2.name? = some word))

instance (names : List String) (arguments : List Node) (template : Node) (word : String) :
    Decidable (template.Offends names arguments word) :=
  decidable_of_iff (template.Names word ∧
      (MacroDefinition.given names arguments word).any isNameable = true)
    (and_congr_right fun _ => by rw [Option.any_eq_true])

/-- Only parameters offend. -/
lemma Offends.mem {template : Node} {word : String} (offends : template.Offends names arguments word) :
    word ∈ names := by
  obtain ⟨-, value, given, -⟩ := offends
  obtain ⟨index, found, -⟩ := Option.bind_eq_some_iff.mp given
  obtain ⟨inside, same, -⟩ := List.findIdx?_eq_some_iff_getElem.mp found
  exact List.mem_iff_getElem.mpr ⟨index, inside, by simpa using same⟩

/-- Without an offending parameter all names are given texts. -/
lemma all_nameable {template : Node} (fine : ∀ word, ¬ template.Offends names arguments word) :
    template.All (MacroDefinition.Nameable names arguments) := by
  refine all_of_mem_nodes fun entry member name named value given => ?_
  by_contra nameable
  exact fine name ⟨⟨entry, member, named⟩, value, given, by simpa using nameable⟩

end Node

namespace MacroDefinition

/-- Among distinct names each is found at its own place. -/
lemma findIdx?_eq_some_iff (distinct : names.Nodup) {index : Nat} {word : String} :
    names.findIdx? (· = word) = some index ↔ names[index]? = some word := by
  rw [List.findIdx?_eq_some_iff_getElem, List.getElem?_eq_some_iff]
  constructor
  · rintro ⟨inside, same, -⟩
    exact ⟨inside, by simpa using same⟩
  · rintro ⟨inside, rfl⟩
    refine ⟨inside, by simp, fun earlier before same => ?_⟩
    have : earlier = index := (List.Nodup.getElem_inj_iff distinct).mp (by simpa using same)
    omega

/-- **A parameter counts as a name where its word is the name of a node.** -/
lemma usesAsName_referrals (distinct : names.Nodup) {index : Nat} {word : String}
    (known : names[index]? = some word) (template : Node) :
    usesAsName (template.referrals names) index = true ↔ template.Names word := by
  rw [usesAsName, List.any_eq_true]
  constructor
  · rintro ⟨replacement, member, used⟩
    obtain ⟨entry, inside, refers⟩ := List.mem_filterMap.mp member
    refine ⟨entry, inside, ?_⟩
    obtain ⟨path, inner⟩ := entry
    obtain ⟨reference, mark, rfl⟩ := Option.map_eq_some_iff.mp refers
    cases inner with
    | primitive value origin =>
      obtain ⟨_, _, rfl⟩ := Option.map_eq_some_iff.mp mark
      simp at used
    | object name | list name =>
      obtain ⟨place, found, rfl⟩ := Option.map_eq_some_iff.mp mark
      obtain rfl : place = index := by simpa using used
      rw [findIdx?_eq_some_iff distinct, known] at found
      exact found.symm
  · rintro ⟨⟨path, inner⟩, inside, named⟩
    have found := (findIdx?_eq_some_iff distinct).mpr known
    have mark : inner.referenceIn names = some ⟨index, .name ""⟩ := by
      cases inner <;> cases named <;> rw [Node.referenceIn, found] <;> rfl
    refine ⟨⟨path, index, .name ""⟩, List.mem_filterMap.mpr ⟨_, inside, ?_⟩, by simp⟩
    rw [Node.referral?, mark]
    rfl

/-- What a narrowed parameter accepts. -/
lemma accepts_narrowed (value : Node) :
    (ShapeSet.any.inter (.only .primitive)).accepts value = !value.isNameable := by
  have narrowed (shape : Shape) :
      (ShapeSet.any.inter (.only .primitive)).contains shape = decide (shape = .primitive) := by
    cases shape <;> decide
  have text : Shape.of value = .primitive ↔ value.isNameable = false := by
    unfold Shape.of
    split
    · exact ⟨fun _ => rfl, fun _ => rfl⟩
    · split <;> simp [Node.isNameable]
    · split <;> simp [Node.isNameable]
  rw [ShapeSet.accepts, narrowed, Bool.eq_iff_iff, decide_eq_true_iff, text, Bool.not_eq_true']

lemma accepts_any (value : Node) : ShapeSet.any.accepts value = true := by
  rw [ShapeSet.accepts]
  cases Shape.of value <;> decide

/-! ## Using the macro -/

variable {deferred : List DeferredInvocation} {name : String} {origin : Origin}

/-- A parameter of the macro, by its place. -/
lemma parameters_ofList (template : Node) (index : Nat) :
    (ofList name names template deferred).parameters[index]?
      = names[index]?.map fun word =>
        if usesAsName (template.referrals names) index then
          { Parameter.plain word with inferred := ShapeSet.any.inter (.only .primitive) }
        else .plain word := by
  rw [ofList, narrow, List.getElem?_mapIdx, List.getElem?_map]
  cases names[index]? <;> rfl

/-- No parameter is optional. -/
lemma required_ofList (template : Node) :
    ∀ parameter ∈ (ofList name names template deferred).parameters, parameter.fallback = none := by
  intro parameter member
  obtain ⟨index, known⟩ := List.mem_iff_getElem?.mp member
  rw [parameters_ofList] at known
  obtain ⟨word, -, rfl⟩ := Option.map_eq_some_iff.mp known
  split <;> rfl

/-- Each value is the argument of the parameter at its place. -/
lemma mapM_argumentOr (missing : Parameter → Cause) (front : List Node) {values : List Node}
    {parameters : List Parameter} (bound : values.length = parameters.length) :
    ((parameters.zipIdx front.length).mapM fun (parameter, index) =>
      argumentOr (front ++ values)[index]? parameter (missing parameter)) = .ok values := by
  induction parameters generalizing front values with
  | nil =>
    rw [List.length_eq_zero_iff.mp bound]
    rfl
  | cons parameter rest ih =>
    cases values with
    | nil => cases bound
    | cons value others =>
      have behind := ih (front ++ [value]) (Nat.succ.inj bound)
      rw [List.append_assoc, List.length_append] at behind
      have here : argumentOr (front ++ value :: others)[front.length]? parameter
          (missing parameter) = .ok value := by
        simp [argumentOr]
      rw [List.zipIdx_cons, List.mapM_cons]
      dsimp only
      rw [here]
      exact congrArg (Except.map (value :: ·)) behind

/-- Where no parameter is optional all are required. -/
lemma requiredAfter_zero {definition : MacroDefinition}
    (required : ∀ parameter ∈ definition.parameters, parameter.fallback = none) :
    definition.requiredAfter 0 = definition.parameters.length := by
  rw [requiredAfter, List.drop_zero, List.countP_eq_length]
  exact fun parameter member => by rw [Parameter.isOptional, required parameter member]; rfl

/-- A list of as many values as there are parameters fits best. -/
lemma score_ofList (template : Node) (bound : arguments.length = names.length) :
    (ofList name names template deferred).score (.list name arguments false origin) = some 0 := by
  have count : (ofList name names template deferred).requiredAfter 0 = arguments.length := by
    rw [requiredAfter_zero (required_ofList template), bound]
    simp [ofList, narrow]
  show (ofList name names template deferred).positionalScore 0 arguments.length = some 0
  rw [positionalScore, count, if_pos le_rfl, Nat.sub_self]

/-- **The values are bound in their order.** -/
lemma bind_list (definition : MacroDefinition) (kind : definition.signature.kind = .list)
    (required : ∀ parameter ∈ definition.parameters, parameter.fallback = none)
    (bound : arguments.length = definition.parameters.length) :
    definition.bind (.list name arguments false origin) = .ok ⟨arguments, []⟩ := by
  have count : definition.requiredAfter 0 = arguments.length :=
    (requiredAfter_zero required).trans bound.symm
  have each := mapM_argumentOr (fun parameter => .unboundParameter parameter.name) [] bound
  rw [bind, kind]
  show definition.bindPositional 0 [] arguments = _
  rw [bindPositional, if_neg (Nat.not_lt_zero _), count]
  dsimp only
  rw [if_neg (lt_irrefl _), List.drop_zero]
  have unused : arguments.length - (definition.parameters.length - 0) = 0 := by omega
  rw [unused]
  exact congrArg (Except.map fun values => (⟨values, []⟩ : Binding)) each

/-- A value is refused as the argument of a parameter that is used as a name, if it is no text. -/
lemma accepts_ofList (distinct : names.Nodup) (template : Node) {index : Nat} {parameter : Parameter}
    (known : (ofList name names template deferred).parameters[index]? = some parameter)
    (value : Node) :
    names[index]? = some parameter.name ∧ (parameter.inferred.accepts value = false ↔
      template.Names parameter.name ∧ value.isNameable = true) ∧
        (parameter.inferred.accepts value = false →
          parameter.inferred = ShapeSet.any.inter (.only .primitive)) := by
  rw [parameters_ofList] at known
  obtain ⟨word, place, rfl⟩ := Option.map_eq_some_iff.mp known
  have uses := usesAsName_referrals distinct place template
  split
  · rename_i used
    refine ⟨place, ?_, fun _ => rfl⟩
    rw [accepts_narrowed, Bool.not_eq_false']
    exact ⟨fun nameable => ⟨uses.mp used, nameable⟩, And.right⟩
  · rename_i unused
    refine ⟨place, ?_, fun refused => ?_⟩ <;> simp only [Parameter.plain, accepts_any] at *
    · exact ⟨nofun, fun offends => absurd (uses.mpr offends.1) unused⟩
    · cases refused

variable (deferred name) in
/-- **An argument is refused exactly where a parameter offends.** -/
theorem mismatch?_ofList (distinct : names.Nodup) (template : Node) :
    ((∀ word, ¬ template.Offends names arguments word) ∧
        (ofList name names template deferred).mismatch? arguments = none) ∨
      ∃ word value, template.Offends names arguments word ∧
        (ofList name names template deferred).mismatch? arguments
          = some (.mismatchedArgument word ⟨name, .list⟩ (ShapeSet.any.inter (.only .primitive))
            (Shape.of value)) := by
  have count : (ofList name names template deferred).parameters.length = names.length := by
    simp [ofList, narrow]
  cases refused : (ofList name names template deferred).mismatch? arguments with
  | none =>
    refine .inl ⟨fun word offends => ?_, rfl⟩
    obtain ⟨named, value, hgiven, nameable⟩ := offends
    obtain ⟨index, found, argument⟩ := Option.bind_eq_some_iff.mp hgiven
    obtain ⟨parameter, known⟩ : ∃ parameter,
        (ofList name names template deferred).parameters[index]? = some parameter :=
      ⟨_, List.getElem?_eq_getElem (by
        rw [count]
        exact (List.findIdx?_eq_some_iff_getElem.mp found).1)⟩
    obtain ⟨place, accepts, -⟩ := accepts_ofList distinct template known value
    obtain rfl : parameter.name = word :=
      Option.some.inj (place.symm.trans ((findIdx?_eq_some_iff distinct).mp found))
    have accepted := List.findSome?_eq_none_iff.mp refused (parameter, value)
      (List.mem_iff_getElem?.mpr ⟨index, List.getElem?_zip_eq_some.mpr ⟨known, argument⟩⟩)
    simp [accepts.mpr ⟨named, nameable⟩] at accepted
  | some cause =>
    obtain ⟨⟨parameter, value⟩, member, complained⟩ := List.exists_of_findSome?_eq_some refused
    obtain ⟨index, both⟩ := List.mem_iff_getElem?.mp member
    obtain ⟨known, argument⟩ := List.getElem?_zip_eq_some.mp both
    obtain ⟨place, accepts, inferred⟩ := accepts_ofList distinct template known value
    dsimp only at complained known argument
    split at complained
    · cases complained
    · rename_i rejected
      have rejected : parameter.inferred.accepts value = false := by simpa using rejected
      obtain ⟨named, nameable⟩ := accepts.mp rejected
      cases complained
      refine .inr ⟨parameter.name, value, ⟨named, value, ?_, nameable⟩, by rw [inferred rejected]; rfl⟩
      rw [given, (findIdx?_eq_some_iff distinct).mpr place, Option.bind_some, argument]

variable (deferred name origin) in
/-- **What comes of using a macro with plain parameters**: its template with the values substituted
for the parameters, or a complaint about an offending one. -/
theorem apply_ofList (distinct : names.Nodup) {template : Node}
    (keys : template.All Node.DistinctKeys) (bound : arguments.length = names.length) :
    ((∀ word, ¬ template.Offends names arguments word) ∧
        (ofList name names template deferred).apply (.list name arguments false origin)
          = ⟨[], .ok (template.clearIds.substitute (given names arguments))⟩) ∨
      ∃ word value, template.Offends names arguments word ∧
        (ofList name names template deferred).apply (.list name arguments false origin)
          = ⟨[], .error (.of (.mismatchedArgument word ⟨name, .list⟩
            (ShapeSet.any.inter (.only .primitive)) (Shape.of value)))⟩ := by
  have binding : (ofList name names template deferred).bind (.list name arguments false origin)
      = .ok ⟨arguments, []⟩ :=
    bind_list _ rfl (required_ofList template) (by simpa [ofList, narrow] using bound)
  rcases mismatch?_ofList deferred name distinct template with
    ⟨fine, accepted⟩ | ⟨word, value, offends, refused⟩
  · refine .inl ⟨fine, ?_⟩
    rw [apply, binding]
    dsimp only
    rw [accepted]
    refine congrArg (Application.mk []) ?_
    dsimp only [ofList]
    rw [← template.referrals_clearIds]
    exact foldlM_referrals bound template.clearIds
      ((Node.all_clearIds Node.distinctKeys_strip).mpr keys)
      ((Node.all_clearIds nameable_strip).mpr (Node.all_nameable fine))
  · refine .inr ⟨word, value, offends, ?_⟩
    rw [apply, binding]
    dsimp only
    rw [refused]

end MacroDefinition

end TreeLang
