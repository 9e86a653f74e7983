import TreeLang.Proofs.Marking
import TreeLang.Proofs.RoundTrip

/-!
# What all trees have

A property of trees may be kept by every way in which trees are made: texts have it, groups have it
whose parts do, and it goes along when trees are taken apart and put together.  Then every tree that
is read has it, as long as the templates and the fallbacks of the macros in force do.

* `Node.Grown` — such a property.
* `Kept` — the nodes at hand and the macros in force have it.
* **`upkeep_kept`** — every step keeps it up.
* `Upkeep.and` — two things that are kept up are kept up together.
* `Node.grown_keyed` — the objects of a tree have distinct keys.
-/

namespace TreeLang

/-- **A property that trees have by the way they are made.** -/
structure Node.Grown (good : Node → Prop) : Prop where
  inherited : Node.Inherited good
  text : ∀ value origin, good (.primitive value origin)
  object : ∀ name properties origin, (properties.map Prod.fst).Nodup →
    (∀ property ∈ properties, good property.2) → good (.object name properties origin)
  list : ∀ name values operation origin, (∀ value ∈ values, good value) →
    good (.list name values operation origin)
  forgetful : ∀ {node}, good node → good node.clearIds

lemma Node.Grown.inherits {good : Node → Prop} (grown : Node.Grown good) :
    Parser.Inherits fun _ => good :=
  ⟨fun _ => grown.inherited, fun h _ => h, fun _ _ _ _ => grown.text _ _⟩

/-! ## Distinct keys -/

namespace Node

/-- Changing the value of a key leaves the keys. -/
lemma keys_modifyKey? {change : Node → Option Node} {key : String}
    {properties changed : List (String × Node)}
    (h : modifyKey? change key properties = some changed) :
    changed.map Prod.fst = properties.map Prod.fst := by
  induction properties generalizing changed with
  | nil => cases h
  | cons property rest ih =>
    obtain ⟨other, value⟩ := property
    simp only [modifyKey?] at h
    split at h
    · obtain ⟨new, -, rfl⟩ := Option.map_eq_some_iff.mp h
      rfl
    · obtain ⟨kept, hkept, rfl⟩ := Option.map_eq_some_iff.mp h
      rw [List.map_cons, List.map_cons, ih hkept]

/-- **All objects of a tree have distinct keys.** -/
abbrev Keyed (node : Node) : Prop :=
  node.All DistinctKeys

lemma keyed_object {name : String} {properties : List (String × Node)} {origin : Origin} :
    (object name properties origin).Keyed ↔
      (properties.map Prod.fst).Nodup ∧ ∀ property ∈ properties, property.2.Keyed := by
  simp [Keyed, All, DistinctKeys, properties?, allProperties_iff]

lemma keyed_list {name : String} {values : List Node} {operation : Bool} {origin : Origin} :
    (list name values operation origin).Keyed ↔ ∀ value ∈ values, value.Keyed := by
  simp [Keyed, All, DistinctKeys, properties?, allValues_iff]

lemma Keyed.child {node child : Node} {step : PathStep} (keyed : node.Keyed)
    (found : node.child? step = some child) : child.Keyed := by
  cases node with
  | primitive => cases step <;> cases found
  | object name properties origin =>
    cases step with
    | index => cases found
    | key key =>
      obtain ⟨name, member⟩ := mem_of_lookup found
      exact (keyed_object.mp keyed).2 _ member
  | list name values operation origin =>
    cases step with
    | key => cases found
    | index index => exact keyed_list.mp keyed _ (List.mem_of_getElem? found)

lemma Keyed.modifyChild {change : Node → Option Node} {node changed : Node} {step : PathStep}
    (keyed : node.Keyed) (h : node.modifyChild? change step = some changed)
    (brought : ∀ old new, old.Keyed → change old = some new → new.Keyed) : changed.Keyed := by
  cases node with
  | primitive => cases step <;> cases h
  | object name properties origin =>
    cases step with
    | index => cases h
    | key key =>
      obtain ⟨entries, hentries, rfl⟩ := Option.map_eq_some_iff.mp h
      obtain ⟨distinct, inside⟩ := keyed_object.mp keyed
      refine keyed_object.mpr ⟨keys_modifyKey? hentries ▸ distinct, fun entry member => ?_⟩
      rcases mem_modifyKey? hentries member with kept | ⟨old, member, new⟩
      · exact inside entry kept
      · exact brought old.2 _ (inside old member) new
  | list name values operation origin =>
    cases step with
    | key => cases h
    | index index =>
      obtain ⟨entries, hentries, rfl⟩ := Option.map_eq_some_iff.mp h
      refine keyed_list.mpr fun node member => ?_
      rcases mem_modifyIndex? hentries member with kept | ⟨old, member, new⟩
      · exact keyed_list.mp keyed node kept
      · exact brought old _ (keyed_list.mp keyed old member) new

lemma keyed_primitive (value : String) (origin : Origin) : (primitive value origin).Keyed := by
  simp [Keyed, All, DistinctKeys, properties?]

lemma Keyed.rename {node : Node} (keyed : node.Keyed) (name : String) : (node.rename name).Keyed := by
  cases node with
  | primitive => exact keyed
  | object => exact keyed_object.mpr (keyed_object.mp keyed)
  | list => exact keyed_list.mpr (keyed_list.mp keyed)

lemma Keyed.withSpan {node : Node} (keyed : node.Keyed) (span : Span) : (node.withSpan span).Keyed := by
  cases node with
  | primitive => exact keyed_primitive _ _
  | object => exact keyed_object.mpr (keyed_object.mp keyed)
  | list => exact keyed_list.mpr (keyed_list.mp keyed)

/-- **Distinct keys come from the way trees are made.** -/
theorem grown_keyed : Grown Keyed where
  inherited :=
    ⟨fun keyed found => keyed.child found, fun keyed changed brought => keyed.modifyChild changed brought,
      fun name keyed => keyed.rename name, fun span keyed => keyed.withSpan span⟩
  text := keyed_primitive
  object := fun _ _ _ distinct inside => keyed_object.mpr ⟨distinct, inside⟩
  list := fun _ _ _ _ inside => keyed_list.mpr inside
  forgetful := fun keyed => (all_clearIds distinctKeys_strip).mpr keyed

end Node

namespace Parser

variable {good : Node → Prop} {options : CompileOptions} {s t : ParserState}
  {held others : List Node} {node receiver member : Node}

/-- **The nodes at hand have a property**, and so have the templates and the fallbacks of the macros
in force. -/
structure Kept (good : Node → Prop) (s : ParserState) (held : List Node) : Prop where
  armed : Armed (fun _ => good) s
  shallow : s.depth ≤ maxNesting
  nodes : ∀ node ∈ held, good node

namespace Kept

/-- What trees are made of may change elsewhere. -/
lemma change (kept : Kept good s held) (visible : t.visible = s.visible) (depth : t.depth = s.depth)
    (nodes : ∀ node ∈ others, good node) : Kept good t others :=
  ⟨fun entry member => kept.armed entry (visible ▸ member), depth ▸ kept.shallow, nodes⟩

lemma cons (kept : Kept good s held) (h : good node) : Kept good s (node :: held) :=
  kept.change rfl rfl (List.forall_mem_cons.mpr ⟨h, kept.nodes⟩)

lemma invoke (grown : Node.Grown good) (kept : Kept good s (node :: held)) (kind : MacroKind) :
    Makes (Kept good) (invoke node kind) s held := by
  obtain ⟨good, nodes⟩ := List.forall_mem_cons.mp kept.nodes
  obtain ⟨made, t, invoked, later, depth, h⟩ :=
    expands_invoke grown.inherits kept.armed kept.shallow good
  exact ⟨made, t, invoked, kept.change later.visible depth (List.forall_mem_cons.mpr ⟨h, nodes⟩)⟩

lemma expand (grown : Node.Grown good) (kept : Kept good s (node :: held)) (kind : MacroKind) :
    Makes (Kept good) (expand node kind) s held := by
  have invoked := kept.invoke grown kind
  rw [Makes, Parser.expand, bind_get]
  cases hscope : s.scope with
  | none => exact invoked
  | some scope =>
    dsimp only
    split
    · exact ⟨node, _, rfl, kept.change rfl rfl kept.nodes⟩
    · exact invoked

lemma refusal (grown : Node.Grown good) (kept : Kept good s held) (offset : Nat) (cause : Cause) :
    Makes (Kept good) (do complain offset cause; placeholderAt offset) s held := by
  obtain ⟨t, noted, unmade⟩ := noted s (Report.errorAt offset cause)
  have made : Kept good t.numbered
      (.primitive placeholder ⟨t.lastId + 1, ⟨offset, offset⟩⟩ :: held) :=
    kept.change unmade.visible unmade.depth (List.forall_mem_cons.mpr ⟨grown.text _ _, kept.nodes⟩)
  exact ⟨_, _, by rw [complain, bind_ok noted]; rfl, made⟩

lemma primitive (grown : Node.Grown good) (kept : Kept good s held) (token : Token)
    (expands : Bool) : Makes (Kept good) (primitive token expands) s held := by
  have made := kept.cons (grown.text token.content ⟨s.lastId + 1, ⟨token.start, token.stop⟩⟩)
  have numbered : Kept good s.numbered _ := made.change rfl rfl made.nodes
  refine .behind (freshId_eq s) ?_
  dsimp only
  split
  · exact .of_pure numbered
  refine .behind (parameterIndex?_eq _ _) ?_
  split
  · exact .behind (markReference_eq _ _ _) (.of_pure (numbered.change rfl rfl numbered.nodes))
  · split
    · exact numbered.invoke grown .constant
    · exact .of_pure numbered

lemma operatorNode (grown : Node.Grown good) (op : OperatorDefinition) (operands : List Node)
    (span : Span) (kept : Kept good s (operands ++ held)) :
    Makes (Kept good) (operatorNode op operands span) s held := by
  obtain ⟨parts, nodes⟩ := List.forall_mem_append.mp kept.nodes
  refine .behind (freshId_eq s) (Kept.expand grown ?_ .operation)
  exact kept.change rfl rfl (List.forall_mem_cons.mpr ⟨grown.list _ _ _ _ parts, nodes⟩)

lemma accessorCall (grown : Node.Grown good) (op : OperatorDefinition) (receiver member : Node)
    (span : Span) (kept : Kept good s (receiver :: member :: held)) :
    Makes (Kept good) (accessorCall op receiver member span) s held := by
  obtain ⟨first, second, nodes⟩ : good receiver ∧ good member ∧ ∀ node ∈ held, good node := by
    simpa using kept.nodes
  have values : ∀ value ∈ callValues receiver member, good value := by
    cases member with
    | primitive => exact List.forall_mem_singleton.mpr first
    | object | list =>
      exact List.forall_mem_cons.mpr ⟨first,
        List.forall_mem_singleton.mpr (grown.inherited.rename "" second)⟩
  have offered : ∀ t : ParserState, t.visible = s.visible → t.depth = s.depth →
      Makes (Kept good) (Parser.expand (.list (op.nodeName ++ invokedName member)
        (callValues receiver member) false ⟨s.lastId + 1, span⟩) (.ofMember member)) t held :=
    fun t visible depth => Kept.expand grown (kept.change visible depth
      (List.forall_mem_cons.mpr ⟨grown.list _ _ _ _ values, nodes⟩)) _
  rw [Makes, accessorCall_eq]
  dsimp only
  split
  · exact offered _ rfl rfl
  · exact offered _ rfl rfl

lemma addProperty (key : Token) (value : Node) (properties : List (String × Node))
    (kept : Kept good s (value :: properties.map Prod.snd ++ held)) :
    ∃ extended t, addProperty options key value properties s = .ok extended t ∧
      Kept good t (extended.map Prod.snd ++ held) := by
  obtain ⟨h, nodes⟩ := List.forall_mem_cons.mp kept.nodes
  by_cases taken : Node.hasKey properties key.content = true
  · obtain ⟨t, noted, unmade⟩ := noted s ((Report.errorAt key.start
      (.duplicateKey key.content)).withSeverity options.duplicatePropertySeverity)
    refine ⟨properties, t.remarked (·.drop value), ?_, kept.change unmade.visible unmade.depth nodes⟩
    rw [Parser.addProperty]
    simp only [taken, if_true, Node.insertNew]
    exact bind_ok noted
  · refine ⟨properties ++ [(key.content, value)], s, ?_, kept.change rfl rfl ?_⟩
    · rw [Parser.addProperty]
      simp only [taken, Node.insertNew]
      rfl
    · rw [List.map_append, List.map_singleton]
      obtain ⟨others, nodes⟩ := List.forall_mem_append.mp nodes
      exact List.forall_mem_append.mpr
        ⟨List.forall_mem_append.mpr ⟨others, List.forall_mem_singleton.mpr h⟩, nodes⟩

lemma completeGroup (grown : Node.Grown good) (name : Option Token) (start : Nat) (expands : Bool)
    (reference : Option Nat) (content : GroupContent) (keyed : content.Keyed)
    (kept : Kept good s (content.nodes ++ held)) :
    Makes (Kept good) (completeGroup options name start expands reference content) s held := by
  obtain ⟨parts, nodes⟩ := List.forall_mem_append.mp kept.nodes
  have group : ∀ text id, good (content.node text id start) := by
    intro text id
    cases content with
    | properties entries stop => exact grown.object _ _ _ keyed (List.forall_mem_map.mp parts)
    | values elements operation stop => exact grown.list _ _ _ _ parts
  unfold Parser.completeGroup
  dsimp only
  split
  · exact .of_pure kept
  refine .behind (freshId_eq s) ?_
  have offered : ∀ {t : ParserState} {node : Node} kind, good node → t.visible = s.visible →
      t.depth = s.depth → Makes (Kept good) (if expands then Parser.expand node kind else pure node) t
        held := by
    intro t node kind h visible depth
    have kept : Kept good t (node :: held) :=
      kept.change visible depth (List.forall_mem_cons.mpr ⟨h, nodes⟩)
    split
    · exact kept.expand grown kind
    · exact .of_pure kept
  cases reference with
  | none => exact offered _ (group _ _) rfl rfl
  | some index => exact .behind (markReference_eq _ _ _) (offered _ (group _ _) rfl rfl)

end Kept

/-- **Every step keeps up what trees have by the way they are made.** -/
theorem upkeep_kept (options : CompileOptions) (grown : Node.Grown good) :
    Upkeep options (Kept good) fun _ => True where
  unmade := fun kept unmade => kept.change unmade.visible unmade.depth kept.nodes
  perm := fun kept perm => kept.change rfl rfl fun node member => kept.nodes node (perm.mem_iff.mpr member)
  parameter := fun _ _ => trivial
  refusal := fun offset cause kept _ => kept.refusal grown offset cause
  primitive := fun token expands kept => kept.primitive grown token expands
  operatorNode := fun op operands span kept => kept.operatorNode grown op operands span
  accessorCall := fun op receiver member span kept => kept.accessorCall grown op receiver member span
  addProperty := fun key value properties kept _ => kept.addProperty key value properties
  completeGroup := fun name start expands reference content _ keyed kept =>
    kept.completeGroup grown name start expands reference content keyed

/-- **What is kept up separately is kept up together.** -/
theorem Upkeep.and {first second : ParserState → List Node → Prop} {named other : Nat → Prop}
    (one : Upkeep options first named) (two : Upkeep options second other) :
    Upkeep options (fun s held => first s held ∧ second s held) fun index =>
      named index ∧ other index := by
  -- Both say of the same run what they keep up.
  have both : ∀ {step : Parser Node} {s : ParserState} {held : List Node},
      Makes first step s held → Makes second step s held →
        Makes (fun s held => first s held ∧ second s held) step s held := by
    rintro step s held ⟨node, t, made, h⟩ ⟨node', t', made', h'⟩
    obtain ⟨rfl, rfl⟩ := ok_unique made made'
    exact ⟨node, t, made, h, h'⟩
  exact {
    unmade := fun h unmade => ⟨one.unmade h.1 unmade, two.unmade h.2 unmade⟩
    perm := fun h perm => ⟨one.perm h.1 perm, two.perm h.2 perm⟩
    parameter := fun h found => ⟨one.parameter h.1 found, two.parameter h.2 found⟩
    refusal := fun offset cause h attends =>
      both (one.refusal offset cause h.1 attends) (two.refusal offset cause h.2 attends)
    primitive := fun token expands h =>
      both (one.primitive token expands h.1) (two.primitive token expands h.2)
    operatorNode := fun op operands span h =>
      both (one.operatorNode op operands span h.1) (two.operatorNode op operands span h.2)
    accessorCall := fun op receiver member span h =>
      both (one.accessorCall op receiver member span h.1)
        (two.accessorCall op receiver member span h.2)
    addProperty := fun key value properties h attends => by
      obtain ⟨extended, t, added, h₁⟩ := one.addProperty key value properties h.1 attends
      obtain ⟨extended', t', added', h₂⟩ := two.addProperty key value properties h.2 attends
      obtain ⟨rfl, rfl⟩ := ok_unique added added'
      exact ⟨extended, t, added, h₁, h₂⟩
    completeGroup := fun name start expands reference content referred keyed h =>
      both (one.completeGroup name start expands reference content
          (fun index inside => (referred index inside).1) keyed h.1)
        (two.completeGroup name start expands reference content
          (fun index inside => (referred index inside).2) keyed h.2) }

end Parser

end TreeLang
