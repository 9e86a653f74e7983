import Mathlib.Tactic.Common
import TreeLang.Macro.Registry
import TreeLang.Proofs.Pairing
import TreeLang.Proofs.Resembling

/-!
# Macros that differ in the origins of their nodes

The template of a macro and the fallbacks of its parameters are trees, and what a macro does depends
on what they say.  Where they came from shows only in the origins of what the macro makes.  So macros
that are alike are chosen alike, and make nodes that are alike of nodes that are alike.

* `ExceptRel` — two computations that have related results, or fail in the same way.
* **`MacroDefinition.Like`** — macros that differ in the origins of their nodes.
* `MacroDefinition.Like.apply` — what they make.
* `MacroRegistry.Like.resolve` — which one is meant.
* `MacroDefinition.like_build` — how they are built.
-/

namespace TreeLang

variable {α β γ δ ε : Type} {L : Likeness}

/-! ## Computations that may fail -/

/-- A report that has no place yet. -/
def Report.Unplaced (report : Report) : Prop :=
  report.offset = none

/-- A mistake that has no place yet, or a fault. -/
def Failure.Unplaced : Failure → Prop
  | .mistake report => report.Unplaced
  | .fault _ => True

/-- **Related results, or the same failure**, which has some property. -/
inductive ExceptRel (P : ε → Prop) (V : α → β → Prop) : Except ε α → Except ε β → Prop where
  | ok {a : α} {b : β} (related : V a b) : ExceptRel P V (.ok a) (.ok b)
  | error (e : ε) (h : P e) : ExceptRel P V (.error e) (.error e)

namespace ExceptRel

variable {P : ε → Prop} {V : α → β → Prop} {W : γ → δ → Prop}

lemma bind {x : Except ε α} {y : Except ε β} {f : α → Except ε γ} {g : β → Except ε δ}
    (first : ExceptRel P V x y) (second : ∀ {a b}, V a b → ExceptRel P W (f a) (g b)) :
    ExceptRel P W (x >>= f) (y >>= g) := by
  cases first with
  | ok related => exact second related
  | error e h => exact .error e h

lemma mapM {f : α → Except ε γ} {g : β → Except ε δ} {xs : List α} {ys : List β}
    (items : List.Forall₂ V xs ys) (h : ∀ {a b}, V a b → ExceptRel P W (f a) (g b)) :
    ExceptRel P (List.Forall₂ W) (xs.mapM f) (ys.mapM g) := by
  induction items with
  | nil => exact .ok .nil
  | cons first _ ih =>
    rw [List.mapM_cons, List.mapM_cons]
    exact (h first).bind fun made => ih.bind fun rest => .ok (.cons made rest)

lemma foldlM {ι : Type} {f : α → ι → Except ε α} {g : β → ι → Except ε β}
    (h : ∀ {a b}, V a b → ∀ item, ExceptRel P V (f a item) (g b item)) (items : List ι) {a : α}
    {b : β} (start : V a b) : ExceptRel P V (items.foldlM f a) (items.foldlM g b) := by
  induction items generalizing a b with
  | nil => exact .ok start
  | cons item rest ih => exact (h start item).bind ih

end ExceptRel

/-- What related items have in common is the same list. -/
lemma map_eq_of_forall₂ {R : α → β → Prop} {f : α → γ} {g : β → γ} {xs : List α} {ys : List β}
    (items : List.Forall₂ R xs ys) (h : ∀ {a b}, R a b → g b = f a) : ys.map g = xs.map f := by
  induction items with
  | nil => rfl
  | cons first _ ih => rw [List.map_cons, List.map_cons, h first, ih]

/-- Related lists have related items at every index. -/
lemma rel_getElem? {R : α → β → Prop} {xs : List α} {ys : List β} (items : List.Forall₂ R xs ys)
    (index : Nat) : Option.Rel R xs[index]? ys[index]? := by
  induction items generalizing index with
  | nil => exact .none
  | cons first _ ih =>
    cases index with
    | zero => exact .some first
    | succ index => exact ih index

/-! ## Parameters -/

namespace Parameter

/-- **Parameters with fallbacks that are alike.** -/
structure Like (L : Likeness) (p q : Parameter) : Prop where
  name : q.name = p.name
  declared : q.declared = p.declared
  inferred : q.inferred = p.inferred
  fallback : Node.LikeOption L p.fallback q.fallback

/-- What a parameter says apart from its fallback. -/
def outline (parameter : Parameter) : String × ShapeSet × ShapeSet × Bool :=
  (parameter.name, parameter.declared, parameter.inferred, parameter.isOptional)

variable {p q : Parameter} {ps qs rs ss : List Parameter}

lemma Like.isOptional_eq (like : p.Like L q) : q.isOptional = p.isOptional := by
  rw [isOptional, isOptional]
  generalize p.fallback = x, q.fallback = y, like.fallback = fallback
  cases fallback <;> rfl

lemma Like.outline_eq (like : p.Like L q) : q.outline = p.outline := by
  simp only [outline, like.name, like.declared, like.inferred, like.isOptional_eq]

lemma Like.text_eq (like : p.Like L q) : q.text = p.text := by
  simp only [Parameter.text, like.name, like.declared]
  generalize p.fallback = x, q.fallback = y, like.fallback = fallback
  cases fallback with
  | none => rfl
  | some node => simp only [node.text_eq]

lemma like_plain (name : String) : (plain name).Like L (plain name) :=
  ⟨rfl, rfl, rfl, .none⟩

lemma Like.withType (like : p.Like L q) (declared : ShapeSet) :
    (p.withType declared).Like L (q.withType declared) :=
  ⟨like.name, rfl, rfl, like.fallback⟩

/-- What is asked of outlines only has one answer. -/
lemma outlines_eq (related : List.Forall₂ (Like L) ps qs) : qs.map outline = ps.map outline :=
  map_eq_of_forall₂ related Like.outline_eq

lemma texts_eq (related : List.Forall₂ (Like L) ps qs) :
    parametersText qs = parametersText ps := by
  rw [parametersText, parametersText, map_eq_of_forall₂ related Like.text_eq]

lemma alikeParameters_eq (related : List.Forall₂ (Like L) ps qs)
    (others : List.Forall₂ (Like L) rs ss) : alikeParameters qs ss = alikeParameters ps rs := by
  induction related generalizing rs ss with
  | nil => cases others <;> rfl
  | cons first _ ih =>
    cases others with
    | nil => rfl
    | cons other others =>
      simp only [alikeParameters, alike, first.name, first.declared, first.isOptional_eq,
        other.name, other.declared, other.isOptional_eq, ih others]

/-- **The same lists of parameters are admissible.** -/
theorem like_checkParameters (kind : MacroKind) (related : List.Forall₂ (Like L) ps qs) :
    ExceptRel Report.Unplaced (List.Forall₂ (Like L)) (checkParameters kind ps) (checkParameters kind qs) := by
  have repeated (seen : List String) : repeatedName? seen qs = repeatedName? seen ps := by
    induction related generalizing seen with
    | nil => rfl
    | cons first _ ih => simp only [repeatedName?, first.name, ih]
  have misplaced : (misplacedRequired? qs).map (fun found => (found.1.name, found.2.name))
      = (misplacedRequired? ps).map (fun found => (found.1.name, found.2.name)) := by
    clear repeated
    induction related with
    | nil => rfl
    | cons first rest ih =>
      cases rest with
      | nil => rfl
      | cons second _ =>
        simp only [misplacedRequired?, first.isOptional_eq, second.isOptional_eq]
        split
        · simp only [Option.map_some, first.name, second.name]
        · exact ih
  rw [checkParameters, checkParameters, repeated]
  cases repeatedName? [] ps with
  | some name => exact .error _ rfl
  | none =>
    dsimp only
    by_cases keyed : kind.isKeyed = true
    · rw [if_pos keyed, if_pos keyed]
      exact .ok related
    rw [if_neg keyed, if_neg keyed]
    generalize misplacedRequired? ps = x, misplacedRequired? qs = y at misplaced
    cases x with
    | none =>
      rw [Option.map_none, Option.map_eq_none_iff] at misplaced
      subst misplaced
      exact .ok related
    | some found =>
      obtain ⟨other, rfl, same⟩ := Option.map_eq_some_iff.mp misplaced
      obtain ⟨required, optional⟩ := Prod.ext_iff.mp same
      dsimp only at required optional ⊢
      rw [required, optional]
      exact .error _ rfl

end Parameter

/-! ## Macros -/

namespace MacroDefinition

/-- **Macros that differ in the origins of their nodes.** -/
structure Like (L : Likeness) (d e : MacroDefinition) : Prop where
  signature : e.signature = d.signature
  parameters : List.Forall₂ (Parameter.Like L) d.parameters e.parameters
  template : Node.Like L d.template e.template
  replacements : e.replacements = d.replacements
  deferred : e.deferred = d.deferred

variable {d e : MacroDefinition} {a b : Node}

namespace Like

lemma refl_of (h : ∀ origin, L.Origins origin origin) (definition : MacroDefinition) :
    definition.Like L definition where
  signature := rfl
  parameters := List.forall₂_same.mpr fun p _ => ⟨rfl, rfl, rfl, by
    cases p.fallback with
    | none => exact .none
    | some node => exact .some (.refl_of h node)⟩
  template := .refl_of h _
  replacements := rfl
  deferred := rfl

lemma drop (like : d.Like L e) (skip : Nat) :
    List.Forall₂ (Parameter.Like L) (d.parameters.drop skip) (e.parameters.drop skip) :=
  List.forall₂_drop skip like.parameters

lemma header_eq (like : d.Like L e) : e.header = d.header := by
  have texts := Parameter.texts_eq (like.drop d.signature.kind.implicit)
  simp only [header, explicitParameters, like.signature, texts]

lemma requiredAfter_eq (like : d.Like L e) (skip : Nat) :
    e.requiredAfter skip = d.requiredAfter skip := by
  have outlines := congrArg (List.countP fun outline => !outline.2.2.2)
    (Parameter.outlines_eq (like.drop skip))
  rw [List.countP_map, List.countP_map] at outlines
  exact outlines

/-! ### The choice -/

lemma keyedScore_eq (like : d.Like L e) (skip : Nat) {ps qs : List (String × Node)}
    (related : Node.LikeProperties L ps qs) : e.keyedScore skip qs = d.keyedScore skip ps := by
  have outlines := congrArg (List.all · fun outline =>
    outline.2.2.2 || Node.hasKey ps outline.1) (Parameter.outlines_eq (like.drop skip))
  simp only [List.all_map] at outlines
  have keys (key : String) : Node.hasKey qs key = Node.hasKey ps key := related.hasKey_eq key
  simp only [keyedScore, like.requiredAfter_eq, keys, related.length_eq]
  exact congrArg (fun all : Bool => if all then some _ else none) outlines

lemma positionalScore_eq (like : d.Like L e) (skip supplied : Nat) :
    e.positionalScore skip supplied = d.positionalScore skip supplied := by
  simp only [positionalScore, like.requiredAfter_eq]

/-- The receiver of a call, and its operand if there is one. -/
lemma callOperand? (like : Node.Like L a b) :
    Option.Rel (Node.LikeOption L) (MacroDefinition.callOperand? a)
      (MacroDefinition.callOperand? b) := by
  have values := like.values?
  rw [MacroDefinition.callOperand?, MacroDefinition.callOperand?]
  generalize a.values? = x, b.values? = y at values
  cases values with
  | none => exact .none
  | some values =>
    cases values with
    | nil => exact .none
    | cons _ rest =>
      cases rest with
      | nil => exact .some .none
      | cons operand rest =>
        cases rest with
        | nil => exact .some (.some operand)
        | cons _ _ => exact .none

/-- **Macros that are alike fit nodes that are alike equally well.** -/
theorem score_eq (like : d.Like L e) (argument : Node.Like L a b) : e.score b = d.score a := by
  have values := argument.values?
  have properties := argument.properties?
  have operand := callOperand? argument
  rw [score, score, like.signature]
  cases d.signature.kind with
  | constant => rfl
  | object =>
    generalize a.properties? = x, b.properties? = y at properties
    cases properties with
    | none => rfl
    | some related => exact like.keyedScore_eq 0 related
  | list | operation =>
    generalize a.values? = x, b.values? = y at values
    cases values with
    | none => rfl
    | some related =>
      exact (like.positionalScore_eq 0 _).trans (congrArg _ related.length_eq.symm)
  | access =>
    generalize a.values? = x, b.values? = y at values
    cases values with
    | none => rfl
    | some related =>
      show (if _ then _ else _) = _
      rw [← related.length_eq]
      rfl
  | objectFunction =>
    dsimp only
    generalize MacroDefinition.callOperand? a = x, MacroDefinition.callOperand? b = y at operand
    cases operand with
    | none => rfl
    | some operand =>
      cases operand with
      | none => exact like.keyedScore_eq 1 .nil
      | @some a b operand =>
        have properties := operand.properties?
        show (b.properties?.bind _) = (a.properties?.bind _)
        generalize a.properties? = x, b.properties? = y at properties
        cases properties with
        | none => rfl
        | some related => exact like.keyedScore_eq 1 related
  | listFunction | operationFunction =>
    dsimp only
    generalize MacroDefinition.callOperand? a = x, MacroDefinition.callOperand? b = y at operand
    cases operand with
    | none => rfl
    | some operand =>
      cases operand with
      | none => exact like.positionalScore_eq 1 0
      | @some a b operand =>
        have values := operand.values?
        show (b.values?.bind _) = (a.values?.bind _)
        generalize a.values? = x, b.values? = y at values
        cases values with
        | none => rfl
        | some related =>
          exact (like.positionalScore_eq 1 _).trans (congrArg _ related.length_eq.symm)

/-! ### The arguments -/

/-- Bindings with arguments that are alike. -/
structure Bound (L : Likeness) (x y : Binding) : Prop where
  arguments : Node.LikeValues L x.arguments y.arguments
  warnings : y.warnings = x.warnings
  unplaced : ∀ warning ∈ x.warnings, warning.Unplaced

lemma argumentOr {given given' : Option Node} {p q : Parameter}
    (givenLike : Node.LikeOption L given given') (like : p.Like L q) (missing : Cause) :
    ExceptRel Failure.Unplaced (Node.Like L) (MacroDefinition.argumentOr given p missing)
      (MacroDefinition.argumentOr given' q missing) := by
  rw [argumentOr.eq_def, argumentOr.eq_def]
  cases givenLike with
  | some value => exact .ok value
  | none =>
    generalize p.fallback = x, q.fallback = y, like.fallback = fallback
    cases fallback with
    | some value => exact .ok value
    | none => exact .error _ rfl

lemma bindKeyed (like : d.Like L e) (skip : Nat) {vs ws : List Node}
    (bound : Node.LikeValues L vs ws) {ps qs : List (String × Node)}
    (related : Node.LikeProperties L ps qs) :
    ExceptRel Failure.Unplaced (Bound L) (d.bindKeyed skip vs ps) (e.bindKeyed skip ws qs) := by
  rw [MacroDefinition.bindKeyed, MacroDefinition.bindKeyed, like.signature]
  refine ExceptRel.bind (V := Node.LikeValues L)
    (.mapM (like.drop skip) fun {p q} parameter => ?_) fun arguments => ?_
  · rw [parameter.name]
    exact argumentOr (related.lookup p.name) parameter _
  · have names : e.parameters.map (·.name) = d.parameters.map (·.name) :=
      map_eq_of_forall₂ like.parameters Parameter.Like.name
    have index (key : String) : e.parameters.findIdx? (fun parameter => parameter.name = key)
        = d.parameters.findIdx? (fun parameter => parameter.name = key) := by
      have found := congrArg (List.findIdx? fun name => decide (name = key)) names
      rw [List.findIdx?_map, List.findIdx?_map] at found
      exact found
    refine .ok ⟨List.rel_append bound arguments, ?_, by
      simp only [List.mem_map]
      rintro _ ⟨_, -, rfl⟩
      rfl⟩
    have keys : qs.map Prod.fst = ps.map Prod.fst :=
      map_eq_of_forall₂ related Node.LikeProperty.key
    have unused := congrArg (fun keys : List String => (keys.filter fun key =>
      !((d.parameters.findIdx? fun parameter => parameter.name = key).any (skip ≤ ·))).map
        fun key => (Report.of (.unusedKey key d.signature)).asWarning) keys
    simpa only [List.filter_map, List.map_map, Function.comp_def, index] using unused

lemma bindPositional (like : d.Like L e) (skip : Nat) {bound bound' vs ws : List Node}
    (boundLike : Node.LikeValues L bound bound') (related : Node.LikeValues L vs ws) :
    ExceptRel Failure.Unplaced (Bound L) (d.bindPositional skip bound vs) (e.bindPositional skip bound' ws) := by
  rw [MacroDefinition.bindPositional, MacroDefinition.bindPositional, like.signature,
    like.requiredAfter_eq, ← like.parameters.length_eq, ← related.length_eq]
  dsimp only
  by_cases short : d.parameters.length < skip
  · rw [if_pos short, if_pos short]
    exact .error _ trivial
  by_cases few : vs.length < d.requiredAfter skip
  · rw [if_neg short, if_neg short, if_pos few, if_pos few]
    exact .error _ rfl
  rw [if_neg short, if_neg short, if_neg few, if_neg few]
  have indexed : List.Forall₂ (fun x y => Parameter.Like L x.1 y.1 ∧ y.2 = x.2)
      (d.parameters.drop skip).zipIdx (e.parameters.drop skip).zipIdx := by
    have parameters := like.drop skip
    generalize d.parameters.drop skip = ps, e.parameters.drop skip = qs, 0 = start at parameters
    induction parameters generalizing start with
    | nil => exact .nil
    | cons first _ ih => exact .cons ⟨first, rfl⟩ (ih _)
  refine ExceptRel.bind (V := Node.LikeValues L) (.mapM indexed fun {x y} pair => ?_)
    fun arguments => ?_
  · obtain ⟨parameter, index⟩ := x
    obtain ⟨parameter', index'⟩ := y
    obtain ⟨alike, rfl⟩ := pair
    dsimp only
    rw [alike.name]
    exact argumentOr (rel_getElem? related index') alike _
  · refine .ok ⟨List.rel_append boundLike arguments, rfl, fun warning mem => ?_⟩
    dsimp only at mem
    split at mem
    · cases mem
    · rw [List.mem_singleton.mp mem]
      rfl

lemma wrongShape_eq (like : d.Like L e) (argument : Node.Like L a b) (expected : String) :
    e.wrongShape expected b = d.wrongShape expected a := by
  rw [wrongShape, wrongShape, like.signature, argument.shape_eq]

lemma objectProperties (like : d.Like L e) (argument : Node.Like L a b) :
    ExceptRel Failure.Unplaced (Node.LikeProperties L) (d.objectProperties a) (e.objectProperties b) := by
  have properties := argument.properties?
  rw [MacroDefinition.objectProperties, MacroDefinition.objectProperties,
    like.wrongShape_eq argument]
  generalize a.properties? = x, b.properties? = y at properties
  cases properties with
  | none => exact .error _ rfl
  | some related => exact .ok related

lemma listValues (like : d.Like L e) (argument : Node.Like L a b) :
    ExceptRel Failure.Unplaced (Node.LikeValues L) (d.listValues a) (e.listValues b) := by
  have values := argument.values?
  rw [MacroDefinition.listValues, MacroDefinition.listValues, like.wrongShape_eq argument]
  generalize a.values? = x, b.values? = y at values
  cases values with
  | none => exact .error _ rfl
  | some related => exact .ok related

lemma receiverCall (like : d.Like L e) (argument : Node.Like L a b) :
    ExceptRel Failure.Unplaced (fun x y => Node.Like L x.1 y.1 ∧ Node.LikeOption L x.2 y.2) (d.receiverCall a)
      (e.receiverCall b) := by
  have values := argument.values?
  rw [MacroDefinition.receiverCall, MacroDefinition.receiverCall, like.wrongShape_eq argument]
  generalize a.values? = x, b.values? = y at values
  cases values with
  | none => exact .error _ rfl
  | some values =>
    cases values with
    | nil => exact .error _ rfl
    | cons receiver rest =>
      cases rest with
      | nil => exact .ok ⟨receiver, .none⟩
      | cons operand rest =>
        cases rest with
        | nil => exact .ok ⟨receiver, .some operand⟩
        | cons _ _ => exact .error _ rfl

/-- **The arguments are bound alike.** -/
theorem bind (like : d.Like L e) (argument : Node.Like L a b) :
    ExceptRel Failure.Unplaced (Bound L) (d.bind a) (e.bind b) := by
  rw [MacroDefinition.bind, MacroDefinition.bind, like.signature]
  have called := like.receiverCall argument
  cases d.signature.kind with
  | constant => exact .ok ⟨.nil, rfl, by simp⟩
  | object =>
    exact (like.objectProperties argument).bind fun related => like.bindKeyed 0 .nil related
  | list | operation =>
    exact (like.listValues argument).bind fun related => like.bindPositional 0 .nil related
  | access =>
    refine called.bind fun {x y} call => ?_
    obtain ⟨receiver, operand⟩ := x
    obtain ⟨receiver', operand'⟩ := y
    obtain ⟨same, operand⟩ := call
    cases operand with
    | none => exact .ok ⟨.cons same .nil, rfl, by simp⟩
    | some _ => exact .error _ rfl
  | objectFunction =>
    refine called.bind fun {x y} call => ?_
    obtain ⟨receiver, operand⟩ := x
    obtain ⟨receiver', operand'⟩ := y
    obtain ⟨same, operand⟩ := call
    cases operand with
    | none => exact like.bindKeyed 1 (.cons same .nil) .nil
    | some operand =>
      exact (like.objectProperties operand).bind fun related =>
        like.bindKeyed 1 (.cons same .nil) related
  | listFunction | operationFunction =>
    refine called.bind fun {x y} call => ?_
    obtain ⟨receiver, operand⟩ := x
    obtain ⟨receiver', operand'⟩ := y
    obtain ⟨same, operand⟩ := call
    cases operand with
    | none => exact like.bindPositional 1 (.cons same .nil) .nil
    | some operand =>
      exact (like.listValues operand).bind fun related =>
        like.bindPositional 1 (.cons same .nil) related

/-! ### The result -/

lemma mismatch?_eq (like : d.Like L e) {vs ws : List Node} (related : Node.LikeValues L vs ws) :
    e.mismatch? ws = d.mismatch? vs := by
  have parameters := like.parameters
  rw [mismatch?, mismatch?, like.signature]
  generalize d.parameters = ps, e.parameters = qs at parameters
  induction parameters generalizing vs ws with
  | nil => rfl
  | cons parameter _ ih =>
    cases related with
    | nil => rfl
    | cons value related =>
      rw [List.zip_cons_cons, List.zip_cons_cons, List.findSome?_cons, List.findSome?_cons,
        ih related]
      simp only [ShapeSet.accepts, parameter.inferred, parameter.name, value.shape_eq]
      rfl

lemma replace (like : d.Like L e) {vs ws : List Node} (related : Node.LikeValues L vs ws)
    (tree : Node.Like L a b) (replacement : Replacement) :
    ExceptRel Failure.Unplaced (Node.Like L) (d.replace vs a replacement) (e.replace ws b replacement) := by
  have found := tree.get? replacement.path
  have argument := rel_getElem? related replacement.parameter
  rw [MacroDefinition.replace, MacroDefinition.replace, like.signature]
  generalize a.get? replacement.path = x, b.get? replacement.path = y at found
  cases found with
  | none => exact .error _ rfl
  | some _ =>
    generalize vs[replacement.parameter]? = x, ws[replacement.parameter]? = y at argument
    cases argument with
    | none => exact .error _ trivial
    | some value =>
      dsimp only
      split
      · exact .ok (Node.Like.getD (tree.set? replacement.path value) tree)
      · rw [value.value?_eq]
        split
        · exact .ok (Node.Like.getD (Node.Like.modify? (fun inner => .some (inner.rename _)) tree
            replacement.path) tree)
        · rw [value.shape_eq]
          exact .error _ rfl

/-- **What is made is alike**, and the same is passed over. -/
theorem apply (like : d.Like L e) (argument : Node.Like L a b) :
    (e.apply b).warnings = (d.apply a).warnings ∧
      (∀ warning ∈ (d.apply a).warnings, warning.Unplaced) ∧
      ExceptRel Failure.Unplaced (Node.Like L) (d.apply a).result (e.apply b).result := by
  have bound := like.bind argument
  rw [MacroDefinition.apply, MacroDefinition.apply]
  generalize d.bind a = x, e.bind b = y at bound
  cases bound with
  | error failure unplaced => exact ⟨rfl, by simp, .error failure unplaced⟩
  | @ok x y bound =>
    refine ⟨bound.warnings, bound.unplaced, ?_⟩
    dsimp only
    rw [like.mismatch?_eq bound.arguments]
    split
    · exact .error _ rfl
    · rw [like.replacements]
      exact .foldlM (fun tree replacement => like.replace bound.arguments tree replacement) _
        like.template

end Like

/-! ### Building -/

/-- Marks find the same places in templates that are alike, where numbers count. -/
lemma filterMap_nodes_eq {ι κ : Type} (marks : Marks ι) (record : Path → ι → κ) (exact : L.exact)
    (template : Node.Like L a b) :
    (b.nodes.filterMap fun (path, node) => (marks.find? node.id).map (record path))
      = a.nodes.filterMap fun (path, node) => (marks.find? node.id).map (record path) := by
  have found := template.numbered_nodes exact
  generalize a.nodes = xs, b.nodes = ys at found
  induction found with
  | nil => rfl
  | cons first _ ih => simp only [List.filterMap_cons, first.1, first.2, ih]

lemma like_narrow (replacements : List Replacement) {ps qs : List Parameter}
    (related : List.Forall₂ (Parameter.Like L) ps qs) :
    List.Forall₂ (Parameter.Like L) (narrow replacements ps) (narrow replacements qs) := by
  refine List.forall₂_iff_get.mpr ⟨by simp [narrow, related.length_eq], fun index h h' => ?_⟩
  simp only [narrow, List.get_eq_getElem, List.getElem_mapIdx]
  have here := (List.forall₂_iff_get.mp related).2 index (by simpa [narrow] using h)
    (by simpa [narrow] using h')
  simp only [List.get_eq_getElem] at here
  split
  · exact ⟨here.name, here.declared, by rw [here.inferred], here.fallback⟩
  · exact here

lemma narrowWarnings_eq (signature : Signature) {p q : Parameter} (like : p.Like L q) :
    narrowWarnings signature q = narrowWarnings signature p := by
  simp only [narrowWarnings, like.inferred, like.name, like.declared]
  generalize p.fallback = x, q.fallback = y, like.fallback = fallback
  cases fallback with
  | none => rfl
  | some node =>
    simp only [ShapeSet.accepts, node.shape_eq]
    rfl

lemma unplaced_narrowWarnings {signature : Signature} {p : Parameter} {warning : Report}
    (mem : warning ∈ narrowWarnings signature p) : warning.Unplaced := by
  rw [narrowWarnings] at mem
  obtain ⟨report, found, rfl⟩ := List.mem_map.mp mem
  show report.offset = none
  rcases List.mem_append.mp found with mem | mem
  · split at mem
    · rw [List.mem_singleton.mp mem]
      rfl
    · cases mem
  · split at mem
    · split at mem
      · cases mem
      · rw [List.mem_singleton.mp mem]
        rfl
    · cases mem

/-- **Definitions are built alike** from templates that are, where numbers count. -/
theorem like_build (signature : Signature) {ps qs : List Parameter}
    (related : List.Forall₂ (Parameter.Like L) ps qs) (template : Node.Like L a b)
    (exact : L.exact) (references : Marks Reference) (deferred : Marks MacroKind) :
    ExceptRel Failure.Unplaced (fun x y => x.1.Like L y.1 ∧ y.2 = x.2 ∧
      ∀ warning ∈ x.2, warning.Unplaced) (build signature ps a references deferred)
      (build signature qs b references deferred) := by
  have found : findReplacements b references = findReplacements a references :=
    filterMap_nodes_eq references (fun path reference => (⟨path, reference.parameter,
      reference.target⟩ : Replacement)) exact template
  have waiting : findDeferred b deferred = findDeferred a deferred :=
    congrArg (fun found : List DeferredInvocation =>
        found.mergeSort fun a b => b.path.length ≤ a.path.length)
      (filterMap_nodes_eq deferred DeferredInvocation.mk exact template)
  rw [build, build, found, waiting]
  dsimp only
  split
  · exact .error _ rfl
  split
  · exact .error _ trivial
  have narrowed := like_narrow (findReplacements a references) related
  refine .ok ⟨⟨rfl, narrowed, template.clearIds, rfl, rfl⟩, ?_, fun warning mem => ?_⟩
  dsimp only
  · rw [← related.length_eq]
    refine List.flatMap_congr fun index _ => ?_
    split
    · have here := rel_getElem? narrowed index
      generalize (narrow (findReplacements a references) ps)[index]? = x,
        (narrow (findReplacements a references) qs)[index]? = y at here
      cases here with
      | none => rfl
      | some parameter => exact narrowWarnings_eq signature parameter
    · rfl
  · obtain ⟨index, -, mem⟩ := List.mem_flatMap.mp mem
    split at mem
    · cases here : (narrow (findReplacements a references) ps)[index]? with
      | none =>
        rw [here] at mem
        cases mem
      | some parameter =>
        rw [here] at mem
        exact unplaced_narrowWarnings mem
    · cases mem

end MacroDefinition

/-! ## Registries -/

/-- Macros that are alike, and the same one where identities count. -/
structure Shared.Like (L : Likeness) (a b : Shared MacroDefinition) : Prop where
  identity : L.exact → b.identity = a.identity
  value : a.value.Like L b.value

lemma Shared.Like.is_eq {a b c d : Shared MacroDefinition} (exact : L.exact) (first : a.Like L b)
    (second : c.Like L d) : b.is d = a.is c := by
  rw [is, is, first.identity exact, second.identity exact]

namespace MacroRegistry

/-- **Registries of macros that are alike**, one by one. -/
def Like (L : Likeness) (a b : MacroRegistry) : Prop :=
  List.Forall₂ (Shared.Like L) a.definitions b.definitions

variable {a b c d : MacroRegistry} {m n : Shared MacroDefinition} {u v : Node}

namespace Like

/-- What is asked of the signatures of macros is answered alike. -/
lemma filter (like : a.Like L b) {p q : Shared MacroDefinition → Bool}
    (h : ∀ {m n : Shared MacroDefinition}, m.Like L n → q n = p m) :
    List.Forall₂ (Shared.Like L) (a.definitions.filter p) (b.definitions.filter q) :=
  List.rel_filter (R := Shared.Like L)
    (fun _ _ related => iff_of_eq (congrArg (· = true) (h related).symm)) like

lemma group (like : a.Like L b) (signature : Signature) :
    List.Forall₂ (Shared.Like L) (a.group signature) (b.group signature) :=
  like.filter fun related => by rw [related.value.signature]

lemma headers_eq {ms ns : List (Shared MacroDefinition)}
    (related : List.Forall₂ (Shared.Like L) ms ns) :
    ns.map (·.value.header) = ms.map (·.value.header) :=
  map_eq_of_forall₂ related fun like => like.value.header_eq

/-- The overloads that admit an invocation, with their scores. -/
lemma admitting {ms ns : List (Shared MacroDefinition)}
    (related : List.Forall₂ (Shared.Like L) ms ns) (argument : Node.Like L u v) :
    List.Forall₂ (fun x y => y.1 = x.1 ∧ x.2.Like L y.2) (MacroRegistry.admitting ms u)
      (MacroRegistry.admitting ns v) := by
  induction related with
  | nil => exact .nil
  | @cons m n _ _ first _ ih =>
    simp only [MacroRegistry.admitting, List.filterMap_cons,
      first.value.score_eq argument] at ih ⊢
    cases m.value.score u with
    | none => exact ih
    | some score => exact .cons ⟨rfl, first⟩ ih

/-- **The same macro is meant** by invocations that are alike, or the same is wrong with them. -/
theorem resolve (like : a.Like L b) (name : String) (kind : MacroKind)
    (argument : Node.Like L u v) :
    ExceptRel Report.Unplaced (Option.Rel (Shared.Like L)) (a.resolve name kind u) (b.resolve name kind v) := by
  have overloads := like.group ⟨name, kind⟩
  have named : (b.named name).map (·.value.header) = (a.named name).map (·.value.header) :=
    headers_eq (like.filter fun related => by rw [related.value.signature])
  rw [MacroRegistry.resolve, MacroRegistry.resolve, named]
  generalize a.group ⟨name, kind⟩ = ms, b.group ⟨name, kind⟩ = ns at overloads
  have empty : ns.isEmpty = ms.isEmpty := by cases overloads <;> rfl
  have scored := admitting overloads argument
  have best : (MacroRegistry.admitting ns v).map Prod.fst
      = (MacroRegistry.admitting ms u).map Prod.fst := map_eq_of_forall₂ scored And.left
  dsimp only
  rw [empty, best]
  by_cases none : ms.isEmpty = true
  · rw [if_pos none, if_pos none]
    exact .ok .none
  rw [if_neg none, if_neg none]
  cases ((MacroRegistry.admitting ms u).map Prod.fst).min? with
  | none => exact .error _ rfl
  | some best =>
    have winners : List.Forall₂ (Shared.Like L)
        (((MacroRegistry.admitting ms u).filter fun entry => entry.1 = best).map Prod.snd)
        (((MacroRegistry.admitting ns v).filter fun entry => entry.1 = best).map Prod.snd) :=
      List.forall₂_map_left_iff.mpr (List.forall₂_map_right_iff.mpr ((List.rel_filter
        (fun _ _ related => by simp only [related.1]) scored).imp fun _ _ related => related.2))
    have headers := headers_eq winners
    dsimp only
    generalize ((MacroRegistry.admitting ms u).filter fun entry => entry.1 = best).map Prod.snd = xs,
      ((MacroRegistry.admitting ns v).filter fun entry => entry.1 = best).map Prod.snd = ys
      at winners headers
    cases winners with
    | nil => exact .error _ rfl
    | cons winner rest =>
      cases rest with
      | nil => exact .ok (.some winner)
      | cons _ _ =>
        dsimp only
        rw [headers]
        exact .error _ rfl

/-! ### Changes -/

/-- What copying or removing came to on both sides: the same, and registries that are alike. -/
def Alike (L : Likeness) {ι : Type} (first second : ι × MacroRegistry) : Prop :=
  second.1 = first.1 ∧ first.2.Like L second.2

lemma insertOrdered {ms ns : List (Shared MacroDefinition)}
    (related : List.Forall₂ (Shared.Like L) ms ns) (new : m.Like L n) :
    List.Forall₂ (Shared.Like L) (MacroRegistry.insertOrdered m ms)
      (MacroRegistry.insertOrdered n ns) := by
  induction related with
  | nil => exact .cons new .nil
  | cons first rest ih =>
    rw [MacroRegistry.insertOrdered, MacroRegistry.insertOrdered, first.value.signature,
      new.value.signature]
    split
    · exact .cons first ih
    · exact .cons new (.cons first rest)

/-- **Registering macros that are alike** succeeds on both sides, or fails with one report. -/
theorem add (like : a.Like L b) (new : m.Like L n) :
    ExceptRel Report.Unplaced (MacroRegistry.Like L) (a.add m) (b.add n) := by
  have overloads := like.group m.value.signature
  rw [MacroRegistry.add, MacroRegistry.add, new.value.signature]
  have clash : Option.Rel (Shared.Like L)
      ((a.group m.value.signature).find? fun entry =>
        alikeParameters entry.value.parameters m.value.parameters)
      ((b.group m.value.signature).find? fun entry =>
        alikeParameters entry.value.parameters n.value.parameters) := by
    generalize a.group m.value.signature = ms, b.group m.value.signature = ns at overloads
    induction overloads with
    | nil => exact .none
    | cons first _ ih =>
      rw [List.find?_cons, List.find?_cons,
        Parameter.alikeParameters_eq first.value.parameters new.value.parameters]
      split
      · exact .some first
      · exact ih
  generalize (a.group m.value.signature).find? _ = x, (b.group m.value.signature).find? _ = y
    at clash
  cases clash with
  | none => exact .ok (insertOrdered like new)
  | some existing =>
    dsimp only
    rw [existing.value.header_eq]
    exact .error _ rfl

lemma enlist (like : a.Like L b) (new : m.Like L n) :
    Alike L (a.enlist m) (b.enlist n) := by
  have added := like.add new
  rw [MacroRegistry.enlist, MacroRegistry.enlist]
  generalize a.add m = x, b.add n = y at added
  cases added with
  | ok registered => exact ⟨rfl, registered⟩
  | error report => exact ⟨rfl, like⟩

lemma any_is (like : a.Like L b) (exact : L.exact) (old : m.Like L n) :
    b.definitions.any n.is = a.definitions.any m.is := by
  rw [Like] at like
  generalize a.definitions = ms, b.definitions = ns at like
  induction like with
  | nil => rfl
  | cons first _ ih => rw [List.any_cons, List.any_cons, old.is_eq exact first, ih]

lemma copyOne {first second : List Report × MacroRegistry} (exact : L.exact)
    (copied : Alike L first second) (new : m.Like L n) :
    Alike L (MacroRegistry.copyOne first m) (MacroRegistry.copyOne second n) := by
  obtain ⟨conflicts, a⟩ := first
  obtain ⟨_, b⟩ := second
  obtain ⟨rfl, like⟩ := copied
  have added := like.add new
  rw [MacroRegistry.copyOne, MacroRegistry.copyOne]
  dsimp only at added ⊢
  rw [any_is like exact new]
  split
  · exact ⟨rfl, like⟩
  · generalize a.add m = x, b.add n = y at added
    cases added with
    | ok registered => exact ⟨rfl, registered⟩
    | error report => exact ⟨rfl, like⟩

lemma copyFrom (like : a.Like L b) (exact : L.exact) (other : c.Like L d) :
    Alike L (a.copyFrom c) (b.copyFrom d) := by
  have start : Alike L (([] : List Report), a) ([], b) := ⟨rfl, like⟩
  have step : Relator.LiftFun (Alike L) (Relator.LiftFun (Shared.Like L) (Alike L))
      MacroRegistry.copyOne MacroRegistry.copyOne :=
    fun _ _ copied _ _ related => copyOne exact copied related
  exact List.rel_foldl step start other

lemma remove (like : a.Like L b) (name : String) (kinds : List MacroKind) :
    Alike L (a.remove name kinds) (b.remove name kinds) := by
  simp only [MacroRegistry.remove, List.partition_eq_filter_filter]
  exact ⟨(like.filter fun related => by rw [related.value.signature]).length_eq.symm,
    like.filter fun related => by simp only [Function.comp, related.value.signature]⟩

lemma removeDefinition (like : a.Like L b) (exact : L.exact) (old : m.Like L n) :
    Alike L (a.removeDefinition m) (b.removeDefinition n) :=
  ⟨like.any_is exact old, like.filter fun related => by rw [old.is_eq exact related]⟩

/-- Removing one macro after the other, while those that were there are counted. -/
lemma removeEach (like : a.Like L b) (exact : L.exact) (other : c.Like L d)
    {step : Nat × MacroRegistry → Shared MacroDefinition → Nat × MacroRegistry}
    (h : ∀ state entry, step state entry =
      (if (state.2.removeDefinition entry).1 then state.1 + 1 else state.1,
        (state.2.removeDefinition entry).2)) :
    Alike L (c.definitions.foldl step (0, a)) (d.definitions.foldl step (0, b)) := by
  have start : Alike L (0, a) (0, b) := ⟨rfl, like⟩
  have each : Relator.LiftFun (Alike L) (Relator.LiftFun (Shared.Like L) (Alike L)) step step := by
    intro first second counted m n related
    obtain ⟨there, rest⟩ := removeDefinition counted.2 exact related
    rw [h, h, there, counted.1]
    exact ⟨rfl, rest⟩
  exact List.rel_foldl each start other

end Like

end MacroRegistry

/-! ## Sets of definitions -/

namespace Definitions

/-- **Sets of definitions that are alike**: the macros are, and the operators are the same. -/
structure Like (L : Likeness) (a b : Definitions) : Prop where
  macros : a.macros.Like L b.macros
  operators : b.operators = a.operators

namespace Like

variable {a b c d : Definitions}

lemma refl_of (h : ∀ origin, L.Origins origin origin) (definitions : Definitions) :
    definitions.Like L definitions :=
  ⟨List.forall₂_same.mpr fun definition _ => ⟨fun _ => rfl, .refl_of h definition.value⟩, rfl⟩

lemma copyFrom (like : a.Like L b) (exact : L.exact) (other : c.Like L d) :
    (b.copyFrom d).1 = (a.copyFrom c).1 ∧ (a.copyFrom c).2.Like L (b.copyFrom d).2 := by
  obtain ⟨conflicts, macros⟩ := like.macros.copyFrom exact other.macros
  simp only [Definitions.copyFrom, conflicts, like.operators, other.operators, true_and]
  exact ⟨macros, rfl⟩

lemma removeAll (like : a.Like L b) (exact : L.exact) (other : c.Like L d) :
    (b.removeAll d).1 = (a.removeAll c).1 ∧ (a.removeAll c).2.Like L (b.removeAll d).2 := by
  obtain ⟨count, macros⟩ := like.macros.removeEach exact other.macros fun _ _ => rfl
  simp only [Definitions.removeAll, like.operators, other.operators]
  exact ⟨congrArg (· + _) count, macros, rfl⟩

end Like

end Definitions

end TreeLang
