import TreeLang.Proofs.Gathering
import TreeLang.Proofs.Keeping
import TreeLang.Proofs.Spanning

/-!
# What trees have where they grew from

Trees are made of texts, and macros make new trees of their templates, of their fallbacks and of the
nodes that invoke them.  So what all texts of some sort have, and what goes along when trees are put
together, all trees have that grew from such texts; it may be handed on by macros, by registries of
macros, and by what is imported from elsewhere.

* `Node.GrownFrom` — a property that trees have by the way they are made, from texts of some sort.
* `Node.Confines`, `Node.grownFrom_confines` — a text that only known primitives of a tree have, or that
  none of them has: `Node.Lacks`.
* `MacroDefinition.Carries`, **`MacroDefinition.Carries.apply`** — a macro all of whose nodes have a
  property, and what it makes of a node that has it.
* `Definitions.Every`, `Definitions.Carries` — sets of definitions of some sort; they stay so when they are
  changed by `add`, `copyFrom`, `removeAll`.
-/

namespace TreeLang

variable {α β : Type} {fits : String → Prop} {good : Node → Prop}

/-! ## Properties of trees -/

/-- **A property that trees have by the way they are made**, from texts of some sort. -/
structure Node.GrownFrom (fits : String → Prop) (good : Node → Prop) : Prop where
  inherited : Node.Inherited good
  text : ∀ value origin, fits value → good (.primitive value origin)
  object : ∀ name properties origin, (properties.map Prod.fst).Nodup →
    (∀ property ∈ properties, good property.2) → good (.object name properties origin)
  list : ∀ name values operation origin, (∀ value ∈ values, good value) →
    good (.list name values operation origin)
  forgetful : ∀ {node}, good node → good node.clearIds

/-- Some properties do not depend on the texts. -/
lemma Node.Grown.grownFrom (grown : Node.Grown good) : Node.GrownFrom (fun _ => True) good where
  inherited := grown.inherited
  text value origin _ := grown.text value origin
  object := grown.object
  list := grown.list
  forgetful := grown.forgetful

namespace Node

variable {text : String} {known : Nat → Prop}

/-- **A text that only known primitives of a tree have**: those with some numbers. -/
def Confines (text : String) (known : Nat → Prop) (node : Node) : Prop :=
  node.All fun inner => inner.value? = some text → known inner.id

/-- **A text that no primitive of a tree has.** -/
abbrev Lacks (text : String) (node : Node) : Prop :=
  node.Confines text fun _ => False

lemma confines_iff {node : Node} : node.Confines text known ↔
    (node.value? = some text → known node.id) ∧ ∀ child ∈ node.children, child.Confines text known :=
  all_iff

/-- Groups have no text of their own. -/
lemma confines_of_parts {node : Node} (group : node.value? = none)
    (inside : ∀ child ∈ node.children, child.Confines text known) : node.Confines text known :=
  confines_iff.mpr ⟨by simp [group], inside⟩

lemma mem_children_of_child? {node child : Node} {step : PathStep}
    (found : node.child? step = some child) : child ∈ node.children := by
  cases node with
  | primitive => cases step <;> cases found
  | object name properties origin =>
    cases step with
    | index => cases found
    | key key =>
      obtain ⟨name, member⟩ := mem_of_lookup found
      exact List.mem_map_of_mem member
  | list name values operation origin =>
    cases step with
    | key => cases found
    | index index => exact List.mem_of_getElem? found

/-- Behind a change of a child there are the other children, and what the child was changed to. -/
lemma mem_children_of_modifyChild? {change : Node → Option Node} {node changed child : Node}
    {step : PathStep} (h : node.modifyChild? change step = some changed)
    (member : child ∈ changed.children) :
    child ∈ node.children ∨ ∃ old ∈ node.children, change old = some child := by
  cases node with
  | primitive => cases step <;> cases h
  | object name properties origin =>
    cases step with
    | index => cases h
    | key key =>
      obtain ⟨entries, hentries, rfl⟩ := Option.map_eq_some_iff.mp h
      obtain ⟨entry, inside, rfl⟩ := List.mem_map.mp member
      rcases mem_modifyKey? hentries inside with kept | ⟨old, inside, new⟩
      · exact .inl (List.mem_map_of_mem kept)
      · exact .inr ⟨old.2, List.mem_map_of_mem inside, new⟩
  | list name values operation origin =>
    cases step with
    | key => cases h
    | index index =>
      obtain ⟨entries, hentries, rfl⟩ := Option.map_eq_some_iff.mp h
      exact mem_modifyIndex? hentries member

lemma value?_modifyChild? {change : Node → Option Node} {node changed : Node} {step : PathStep}
    (h : node.modifyChild? change step = some changed) : changed.value? = none := by
  cases node <;> cases step <;> first
    | cases h
    | obtain ⟨_, -, rfl⟩ := Option.map_eq_some_iff.mp h
      rfl

/-- A tree that was made to forget has no number but zero. -/
lemma Confines.clearIds (forgotten : ∀ id, known id → known 0) {node : Node}
    (confines : node.Confines text known) : node.clearIds.Confines text known := by
  induction node using induct_parts with
  | primitive value origin => exact fun same => forgotten _ (confines same)
  | object name properties origin ih =>
    rw [Node.clearIds, clearPropertyIds_eq_map]
    refine confines_of_parts rfl fun child member => ?_
    obtain ⟨_, cleared, rfl⟩ := List.mem_map.mp member
    obtain ⟨property, inside, rfl⟩ := List.mem_map.mp cleared
    exact ih property inside ((confines_iff.mp confines).2 _ (List.mem_map_of_mem inside))
  | list name values operation origin ih =>
    rw [Node.clearIds, clearValueIds_eq_map]
    refine confines_of_parts rfl fun child member => ?_
    obtain ⟨value, inside, rfl⟩ := List.mem_map.mp member
    exact ih value inside ((confines_iff.mp confines).2 _ inside)

/-- **A text that is none of those that a tree grew from** is brought in by known primitives alone, if
at all. -/
theorem grownFrom_confines (text : String) (forgotten : ∀ id, known id → known 0) :
    GrownFrom (· ≠ text) (Confines text known) where
  inherited :=
    { child := fun confines found =>
        (confines_iff.mp confines).2 _ (mem_children_of_child? found)
      modifyChild := fun confines changed brought => by
        refine confines_of_parts (value?_modifyChild? changed) fun child member => ?_
        rcases mem_children_of_modifyChild? changed member with kept | ⟨old, member, new⟩
        · exact (confines_iff.mp confines).2 child kept
        · exact brought old child ((confines_iff.mp confines).2 old member) new
      rename := fun {node} name confines => by
        cases node with
        | primitive => exact confines
        | object | list => exact confines_of_parts rfl (confines_iff.mp confines).2
      withSpan := fun {node} span confines => by cases node <;> exact confines }
  text value origin other same := absurd (Option.some.inj same) other
  object name properties origin _ inside := confines_of_parts rfl (List.forall_mem_map.mpr inside)
  list name values operation origin inside := confines_of_parts rfl inside
  forgetful confines := confines.clearIds forgotten

end Node

/-! ## Macros -/

/-- What a computation brings, if it is neither mistaken nor broken off. -/
def Brings (property : α → Prop) (step : Except Failure α) : Prop :=
  ∀ value, step = .ok value → property value

namespace Brings

lemma bind {step : Except Failure α} {next : α → Except Failure β} {property : α → Prop}
    {result : β → Prop} (first : Brings property step)
    (second : ∀ value, property value → Brings result (next value)) :
    Brings result (step >>= next) := by
  cases step with
  | ok value => exact second value (first value rfl)
  | error failure => nofun

lemma of_yields {step : Except Failure α} {property : α → Prop} (yields : Yields property step) :
    Brings property step := by
  rintro value rfl
  exact yields

lemma mapM {step : α → Except Failure β} {property : β → Prop} {items : List α}
    (h : ∀ item ∈ items, Brings property (step item)) :
    Brings (fun results => ∀ result ∈ results, property result) (items.mapM step) := by
  induction items with
  | nil =>
    rintro _ ⟨⟩
    nofun
  | cons item rest ih =>
    rw [List.mapM_cons]
    refine (h item List.mem_cons_self).bind fun first hfirst => ?_
    refine (ih fun item member => h item (List.mem_cons_of_mem _ member)).bind fun others hothers => ?_
    rintro _ ⟨⟩
    exact List.forall_mem_cons.mpr ⟨hfirst, hothers⟩

lemma foldlM {step : β → α → Except Failure β} {property : β → Prop} {items : List α} {start : β}
    (begun : property start)
    (h : ∀ value, property value → ∀ item ∈ items, Brings property (step value item)) :
    Brings property (items.foldlM step start) := by
  induction items generalizing start with
  | nil =>
    rintro _ ⟨⟩
    exact begun
  | cons item rest ih =>
    rw [List.foldlM_cons]
    refine (h start begun item List.mem_cons_self).bind fun value hvalue => ?_
    exact ih hvalue fun value has item member => h value has item (List.mem_cons_of_mem _ member)

end Brings

namespace MacroDefinition

variable {definition : MacroDefinition}

/-- **All nodes of a macro have a property**: its template, and the fallbacks of its parameters. -/
structure Carries (good : Node → Prop) (definition : MacroDefinition) : Prop where
  template : good definition.template
  fallbacks : definition.Fallbacks good

/-- Arguments are bound behind those that are bound already. -/
lemma brings_arguments {step : Except Failure (List Node)} {bound : List Node}
    {warnings : List Node → List Report} (before : ∀ node ∈ bound, good node)
    (arguments : Brings (fun nodes => ∀ node ∈ nodes, good node) step) :
    Brings (fun binding : Binding => ∀ node ∈ binding.arguments, good node)
      (step >>= fun nodes => pure (Binding.mk (bound ++ nodes) (warnings nodes))) := by
  refine arguments.bind fun nodes after => ?_
  rintro _ ⟨⟩
  exact List.forall_mem_append.mpr ⟨before, after⟩

lemma brings_bindKeyed (fallbacks : definition.Fallbacks good) (skip : Nat) {bound : List Node}
    {properties : List (String × Node)} (before : ∀ node ∈ bound, good node)
    (h : ∀ key value, Node.lookup properties key = some value → good value) :
    Brings (fun binding => ∀ node ∈ binding.arguments, good node)
      (definition.bindKeyed skip bound properties) := by
  rw [bindKeyed]
  refine brings_arguments before (.mapM fun parameter member => .of_yields ?_)
  exact yields_argumentOr _ (fun node given => h _ _ given)
    (fallbacks parameter (List.mem_of_mem_drop member))

lemma brings_bindPositional (fallbacks : definition.Fallbacks good) (skip : Nat)
    {bound values : List Node} (before : ∀ node ∈ bound, good node)
    (h : ∀ (index : Nat) value, values[index]? = some value → good value) :
    Brings (fun binding => ∀ node ∈ binding.arguments, good node)
      (definition.bindPositional skip bound values) := by
  rw [bindPositional]
  split
  · rintro _ ⟨⟩
  dsimp only
  split
  · rintro _ ⟨⟩
  refine brings_arguments before (.mapM fun entry member => .of_yields ?_)
  obtain ⟨parameter, index⟩ := entry
  exact yields_argumentOr _ (fun node given => h _ _ given)
    (fallbacks parameter (List.mem_of_mem_drop (List.fst_mem_of_mem_zipIdx member)))

/-- **What is bound comes from the node and from the fallbacks.** -/
theorem brings_bind (inherited : Node.Inherited good) (fallbacks : definition.Fallbacks good)
    {node : Node} (h : good node) :
    Brings (fun binding => ∀ node ∈ binding.arguments, good node) (definition.bind node) := by
  have properties {node : Node} (h : good node) : Brings (fun properties => ∀ key value,
      Node.lookup properties key = some value → good value) (definition.objectProperties node) := by
    unfold objectProperties
    split
    · rename_i holds
      rintro _ ⟨⟩ key value found
      exact inherited.property h holds key found
    · nofun
  have values {node : Node} (h : good node) : Brings (fun values => ∀ (index : Nat) value,
      values[index]? = some value → good value) (definition.listValues node) := by
    unfold listValues
    split
    · rename_i holds
      rintro _ ⟨⟩ index value found
      exact inherited.value h holds index found
    · nofun
  have call : Brings (fun call => good call.1 ∧ ∀ operand ∈ call.2, good operand)
      (definition.receiverCall node) := .of_yields (yields_receiverCall inherited h)
  have one {receiver : Node} (h : good receiver) : ∀ node ∈ [receiver], good node :=
    List.forall_mem_singleton.mpr h
  unfold bind
  split
  · rintro _ ⟨⟩
    nofun
  · exact (properties h).bind fun _ inside => brings_bindKeyed fallbacks 0 nofun inside
  · exact (values h).bind fun _ inside => brings_bindPositional fallbacks 0 nofun inside
  · exact (values h).bind fun _ inside => brings_bindPositional fallbacks 0 nofun inside
  · refine call.bind fun ⟨receiver, operand⟩ parts => ?_
    cases operand with
    | none =>
      rintro _ ⟨⟩
      exact one parts.1
    | some operand => nofun
  · refine call.bind fun ⟨receiver, operand⟩ parts => ?_
    cases operand with
    | none => exact brings_bindKeyed fallbacks 1 (one parts.1) nofun
    | some operand =>
      exact (properties (parts.2 operand rfl)).bind fun _ inside =>
        brings_bindKeyed fallbacks 1 (one parts.1) inside
  all_goals
    refine call.bind fun ⟨receiver, operand⟩ parts => ?_
    cases operand with
    | none => exact brings_bindPositional fallbacks 1 (one parts.1) (by simp)
    | some operand =>
      exact (values (parts.2 operand rfl)).bind fun _ inside =>
        brings_bindPositional fallbacks 1 (one parts.1) inside

/-- Putting an argument where a replacement says. -/
lemma brings_replace (inherited : Node.Inherited good) {arguments : List Node}
    (given : ∀ node ∈ arguments, good node) {tree : Node} (h : good tree)
    (replacement : Replacement) : Brings good (definition.replace arguments tree replacement) := by
  by_cases target : replacement.parameter < arguments.length
  · exact .of_yields (yields_replace inherited given h target)
  · intro value replaced
    unfold replace at replaced
    rw [List.getElem?_eq_none (Nat.le_of_not_lt target)] at replaced
    cases known : tree.get? replacement.path <;> simp [known] at replaced

/-- **What a macro makes of a node** grew from the node, the template and the fallbacks. -/
theorem Carries.apply (carries : definition.Carries good) (inherited : Node.Inherited good)
    {node : Node} (h : good node) : Brings good (definition.apply node).result := by
  have bound := brings_bind inherited carries.fallbacks h
  unfold MacroDefinition.apply
  cases hbind : definition.bind node with
  | error failure => nofun
  | ok binding =>
    dsimp only
    cases definition.mismatch? binding.arguments with
    | some cause => nofun
    | none =>
      exact .foldlM carries.template fun tree grown replacement _ =>
        brings_replace inherited (bound binding hbind) grown replacement

/-- What is built where as many references are found as were made, which is the only case. -/
lemma eq_of_build {signature : Signature} {parameters : List Parameter} {template : Node}
    {references : Marks Reference} {deferred : Marks MacroKind} {warnings : List Report}
    (built : build signature parameters template references deferred = .ok (definition, warnings)) :
    definition = ⟨signature, narrow (findReplacements template references) parameters, template.clearIds,
        findReplacements template references, findDeferred template deferred⟩ ∧
      (findReplacements template references).length = references.size := by
  simp only [build] at built
  split at built
  · cases built
  split at built
  · cases built
  cases built
  exact ⟨rfl, by omega⟩

/-- **A macro that was built carries what its template and its parameters do.** -/
theorem Carries.of_build {signature : Signature} {parameters : List Parameter} {template : Node}
    {references : Marks Reference} {deferred : Marks MacroKind} {warnings : List Report}
    (grown : Node.GrownFrom fits good) (node : good template)
    (fallbacks : ∀ parameter ∈ parameters, ∀ node ∈ parameter.fallback, good node)
    (built : build signature parameters template references deferred = .ok (definition, warnings)) :
    definition.Carries good := by
  obtain ⟨rfl, -⟩ := eq_of_build built
  refine ⟨grown.forgetful node, fun parameter member node fallback => ?_⟩
  obtain ⟨index, before, rfl⟩ := List.mem_mapIdx.mp member
  refine fallbacks _ (List.getElem_mem before) node ?_
  split at fallback <;> exact fallback

end MacroDefinition

/-! ## Definitions -/

/-- **All macros of a set of definitions are of some sort.** -/
def Definitions.Every (fine : MacroDefinition → Prop) (definitions : Definitions) : Prop :=
  ∀ entry ∈ definitions.macros.definitions, fine entry.value

/-- **All macros of a set of definitions carry a property.** -/
def Definitions.Carries (good : Node → Prop) (definitions : Definitions) : Prop :=
  ∀ entry ∈ definitions.macros.definitions, entry.value.Carries good

namespace MacroRegistry

variable {registry other : MacroRegistry}

lemma mem_of_add {new entry : Shared MacroDefinition} {added : MacroRegistry}
    (h : registry.add new = .ok added) (member : entry ∈ added.definitions) :
    entry = new ∨ entry ∈ registry.definitions := by
  rw [add] at h
  split at h
  · cases h
  · cases h
    exact mem_insertOrdered.mp member

lemma mem_of_copyFrom {entry : Shared MacroDefinition}
    (member : entry ∈ (registry.copyFrom other).2.definitions) :
    entry ∈ registry.definitions ∨ entry ∈ other.definitions := by
  have copied (new : List (Shared MacroDefinition)) : ∀ state : List Report × MacroRegistry,
      entry ∈ (new.foldl copyOne state).2.definitions →
        entry ∈ state.2.definitions ∨ entry ∈ new := by
    induction new with
    | nil => exact fun _ member => .inl member
    | cons first rest ih =>
      rintro ⟨conflicts, registry⟩ member
      rcases ih _ member with member | member
      · rw [copyOne] at member
        split at member
        · exact .inl member
        · split at member
          · rename_i added
            rcases mem_of_add added member with rfl | member
            · exact .inr List.mem_cons_self
            · exact .inl member
          · exact .inl member
      · exact .inr (List.mem_cons_of_mem _ member)
  exact copied other.definitions ([], registry) member

lemma mem_of_remove {name : String} {kinds : List MacroKind} {entry : Shared MacroDefinition}
    (member : entry ∈ (registry.remove name kinds).2.definitions) :
    entry ∈ registry.definitions := by
  simp only [remove, List.partition_eq_filter_filter] at member
  exact List.mem_of_mem_filter member

/-- Removing one macro after the other, while those that were there are counted. -/
lemma mem_of_removeEach
    {step : Nat × MacroRegistry → Shared MacroDefinition → Nat × MacroRegistry}
    (h : ∀ state entry, (step state entry).2 = (state.2.removeDefinition entry).2) (count : Nat)
    {entry : Shared MacroDefinition}
    (member : entry ∈ (other.definitions.foldl step (count, registry)).2.definitions) :
    entry ∈ registry.definitions := by
  have removed (old : List (Shared MacroDefinition)) : ∀ state : Nat × MacroRegistry,
      entry ∈ (old.foldl step state).2.definitions → entry ∈ state.2.definitions := by
    induction old with
    | nil => exact fun _ member => member
    | cons first rest ih =>
      intro state member
      have member := ih _ member
      rw [h] at member
      exact List.mem_of_mem_filter member
  exact removed _ _ member

end MacroRegistry

namespace Definitions.Every

variable {definitions other : Definitions} {fine : MacroDefinition → Prop}

lemma empty (fine : MacroDefinition → Prop) : Definitions.empty.Every fine := nofun

lemma add {new : Shared MacroDefinition} {macros : MacroRegistry}
    (every : definitions.Every fine) (one : fine new.value)
    (added : definitions.macros.add new = .ok macros) :
    Every fine { definitions with macros := macros } := by
  intro entry member
  rcases MacroRegistry.mem_of_add added member with rfl | member
  · exact one
  · exact every entry member

lemma copyFrom (every : definitions.Every fine) (others : other.Every fine) :
    (definitions.copyFrom other).2.Every fine := by
  intro entry member
  rcases MacroRegistry.mem_of_copyFrom member with member | member
  · exact every entry member
  · exact others entry member

lemma remove (every : definitions.Every fine) (name : String) (kinds : List MacroKind) :
    Every fine { definitions with macros := (definitions.macros.remove name kinds).2 } :=
  fun entry member => every entry (MacroRegistry.mem_of_remove member)

lemma removeAll (every : definitions.Every fine) (other : Definitions) :
    (definitions.removeAll other).2.Every fine :=
  fun entry member => every entry (MacroRegistry.mem_of_removeEach (fun _ _ => rfl) 0 member)

end Definitions.Every

end TreeLang
