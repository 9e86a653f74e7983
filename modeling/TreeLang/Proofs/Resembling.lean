import Mathlib.Data.List.Forall2
import TreeLang.Node.Printer
import TreeLang.Proofs.Denotation
import TreeLang.Proofs.Numbers

/-!
# Trees that differ in their origins

A value that is read twice, from two places of a text or in two runs of a compiler, gives two trees
that say the same.  They differ in their origins: where the nodes were read, and perhaps which
numbers they carry.  What is done to such trees keeps them so.

* `Likeness` — what two origins have in common.
* **`Node.Like`** — trees that differ in their origins, and in those only as far as a likeness says.
* `Node.Like.strip_eq`, `Node.Like.text_eq`, … — what does not depend on origins.
* `Node.Like.get?`, `Node.Like.modify?`, … — what is done to trees.
-/

namespace TreeLang

/-! ## Origins -/

/-- **What two origins have in common.** -/
structure Likeness where
  /-- Whether the same numbers and the same identities are given out. -/
  exact : Prop
  /-- Which offsets correspond to each other. -/
  offset : Nat → Nat → Prop

namespace Likeness

/-- Spans that correspond. -/
structure Spans (L : Likeness) (a b : Span) : Prop where
  start : L.offset a.start b.start
  stop : L.offset a.stop b.stop

/-- Origins that correspond. -/
structure Origins (L : Likeness) (a b : Origin) : Prop where
  id : L.exact → b.id = a.id
  span : L.Spans a.span b.span

/-- Nothing but the same. -/
def identical : Likeness := ⟨True, Eq⟩

lemma Origins.of_identical {a b : Origin} (origins : identical.Origins a b) : b = a := by
  obtain ⟨id, start, stop⟩ := origins
  obtain ⟨_, _, _⟩ := a
  obtain ⟨_, _, _⟩ := b
  simp_all [identical]

end Likeness

variable {L : Likeness}

namespace Node

/-! ## Trees -/

mutual

/-- **Trees that differ in their origins**, and in those only as far as a likeness says. -/
inductive Like (L : Likeness) : Node → Node → Prop where
  | primitive {value : String} {o o' : Origin} (origins : L.Origins o o') :
    Like L (.primitive value o) (.primitive value o')
  | object {name : String} {ps qs : List (String × Node)} {o o' : Origin}
    (properties : List.Forall₂ (LikeProperty L) ps qs) (origins : L.Origins o o') :
    Like L (.object name ps o) (.object name qs o')
  | list {name : String} {vs ws : List Node} {operation : Bool} {o o' : Origin}
    (values : List.Forall₂ (Like L) vs ws) (origins : L.Origins o o') :
    Like L (.list name vs operation o) (.list name ws operation o')

/-- Properties of one key, with values that are alike. -/
inductive LikeProperty (L : Likeness) : String × Node → String × Node → Prop where
  | mk {key : String} {value value' : Node} (like : Like L value value') :
    LikeProperty L (key, value) (key, value')

end

/-- Values one by one alike. -/
abbrev LikeValues (L : Likeness) : List Node → List Node → Prop :=
  List.Forall₂ (Like L)

/-- Properties one by one alike. -/
abbrev LikeProperties (L : Likeness) : List (String × Node) → List (String × Node) → Prop :=
  List.Forall₂ (LikeProperty L)

/-- Nothing twice, or two trees that are alike. -/
abbrev LikeOption (L : Likeness) : Option Node → Option Node → Prop :=
  Option.Rel (Like L)

variable {a b c d : Node} {p q : String × Node} {ps qs : List (String × Node)} {vs ws : List Node}

lemma LikeProperty.key (like : LikeProperty L p q) : q.1 = p.1 := by
  cases like
  rfl

lemma LikeProperty.value (like : LikeProperty L p q) : Like L p.2 q.2 := by
  cases like
  assumption

namespace Like

/-- A tree is like itself where every origin is. -/
lemma refl_of (h : ∀ origin, L.Origins origin origin) (node : Node) : Like L node node := by
  induction node using Node.induct_parts with
  | primitive value origin => exact .primitive (h origin)
  | object name properties origin ih =>
    exact .object (List.forall₂_same.mpr fun p member => .mk (ih p member)) (h origin)
  | list name values operation origin ih =>
    exact .list (List.forall₂_same.mpr ih) (h origin)

/-- **Trees that are alike differ in their origins only.** -/
theorem strip_eq (like : Like L a b) : b.strip = a.strip := by
  induction a using Node.induct_parts generalizing b with
  | primitive value origin =>
    cases like
    rfl
  | object name properties origin ih =>
    cases like with
    | object related _ =>
      simp only [strip, stripProperties_eq_map]
      congr 1
      induction related with
      | nil => rfl
      | cons first _ rest =>
        rw [List.map_cons, List.map_cons, first.key, ih _ List.mem_cons_self first.value,
          rest fun p member => ih p (List.mem_cons_of_mem _ member)]
  | list name values operation origin ih =>
    cases like with
    | list related _ =>
      simp only [strip, stripValues_eq_map]
      congr 1
      induction related with
      | nil => rfl
      | cons first _ rest =>
        rw [List.map_cons, List.map_cons, ih _ List.mem_cons_self first,
          rest fun p member => ih p (List.mem_cons_of_mem _ member)]

/-- Where the likeness is identity, so is that of trees. -/
theorem eq_of_identical (like : Like .identical a b) : b = a := by
  induction a using Node.induct_parts generalizing b with
  | primitive value origin =>
    cases like with
    | primitive origins => rw [origins.of_identical]
  | object name properties origin ih =>
    cases like with
    | object related origins =>
      rw [origins.of_identical]
      congr 1
      induction related with
      | nil => rfl
      | cons first _ rest =>
        rw [Prod.ext first.key (ih _ List.mem_cons_self first.value),
          rest fun p member => ih p (List.mem_cons_of_mem _ member)]
  | list name values operation origin ih =>
    cases like with
    | list related origins =>
      rw [origins.of_identical]
      congr 1
      induction related with
      | nil => rfl
      | cons first _ rest =>
        rw [ih _ List.mem_cons_self first,
          rest fun p member => ih p (List.mem_cons_of_mem _ member)]

/-! ### What does not depend on origins -/

lemma origin (like : Like L a b) : L.Origins a.origin b.origin := by
  cases like <;> assumption

lemma span (like : Like L a b) : L.Spans a.span b.span := like.origin.span

lemma name?_eq (like : Like L a b) : b.name? = a.name? := by
  cases like <;> rfl

lemma value?_eq (like : Like L a b) : b.value? = a.value? := by
  cases like <;> rfl

lemma shape_eq (like : Like L a b) : Shape.of b = Shape.of a := by
  cases like <;> rfl

lemma invokedName_eq (like : Like L a b) : Parser.invokedName b = Parser.invokedName a := by
  simp only [Parser.invokedName, like.name?_eq, like.value?_eq]

lemma ofMember_eq (like : Like L a b) : MacroKind.ofMember b = MacroKind.ofMember a := by
  cases like with
  | primitive | object => rfl
  | @list _ _ _ operation => cases operation <;> rfl

lemma values? (like : Like L a b) : Option.Rel (LikeValues L) a.values? b.values? := by
  cases like with
  | primitive | object => exact .none
  | list values _ => exact .some values

lemma properties? (like : Like L a b) :
    Option.Rel (LikeProperties L) a.properties? b.properties? := by
  cases like with
  | primitive | list => exact .none
  | object properties _ => exact .some properties

/-- **The text of a tree does not depend on its origins.** -/
theorem printAt_eq (like : Like L a b) (position : Position) :
    b.printAt position = a.printAt position := by
  induction a using Node.induct_parts generalizing b position with
  | primitive value origin =>
    cases like
    rfl
  | object name properties origin ih =>
    cases like with
    | object related _ =>
      have parts : ∀ {ps qs : List (String × Node)}, LikeProperties L ps qs →
          (∀ p ∈ ps, ∀ {b : Node}, Like L p.2 b → ∀ position, b.printAt position
            = p.2.printAt position) → printProperties qs = printProperties ps := by
        intro ps qs related ih
        induction related with
        | nil => rfl
        | cons first _ rest =>
          simp only [printProperties]
          rw [first.key, ih _ List.mem_cons_self first.value,
            rest fun p member => ih p (List.mem_cons_of_mem _ member)]
      simp only [printAt, parts related fun p member _ => ih p member]
  | list name values operation origin ih =>
    cases like with
    | list related _ =>
      have parts (position : Position) : ∀ {vs ws : List Node}, LikeValues L vs ws →
          (∀ v ∈ vs, ∀ {b : Node}, Like L v b → ∀ position, b.printAt position
            = v.printAt position) → printValues position ws = printValues position vs := by
        intro vs ws related ih
        induction related with
        | nil => rfl
        | cons first _ rest =>
          simp only [printValues]
          rw [ih _ List.mem_cons_self first,
            rest fun v member => ih v (List.mem_cons_of_mem _ member)]
      simp only [printAt, parts _ related fun v member _ => ih v member]

lemma text_eq (like : Like L a b) : b.text = a.text := like.printAt_eq .value

/-! ### Other origins and names -/

lemma rename (like : Like L a b) (name : String) : Like L (a.rename name) (b.rename name) := by
  cases like with
  | primitive origins => exact .primitive origins
  | object properties origins => exact .object properties origins
  | list values origins => exact .list values origins

lemma withSpan {span span' : Span} (like : Like L a b) (spans : L.Spans span span') :
    Like L (a.withSpan span) (b.withSpan span') := by
  cases like with
  | primitive origins => exact .primitive ⟨origins.id, spans⟩
  | object properties origins => exact .object properties ⟨origins.id, spans⟩
  | list values origins => exact .list values ⟨origins.id, spans⟩

/-- Numbers that are forgotten are the same. -/
theorem clearIds (like : Like L a b) : Like L a.clearIds b.clearIds := by
  have cleared {o o' : Origin} (origins : L.Origins o o') :
      L.Origins { o with id := 0 } { o' with id := 0 } := ⟨fun _ => rfl, origins.span⟩
  induction a using Node.induct_parts generalizing b with
  | primitive value origin =>
    cases like with
    | primitive origins => exact .primitive (cleared origins)
  | object name properties origin ih =>
    cases like with
    | object related origins =>
      simp only [Node.clearIds, clearPropertyIds_eq_map]
      refine .object ?_ (cleared origins)
      refine List.forall₂_map_left_iff.mpr (List.forall₂_map_right_iff.mpr ?_)
      induction related with
      | nil => exact .nil
      | cons first _ rest =>
        cases first with
        | mk inner =>
          exact .cons (.mk (ih _ List.mem_cons_self inner))
            (rest fun p member => ih p (List.mem_cons_of_mem _ member))
  | list name values operation origin ih =>
    cases like with
    | list related origins =>
      simp only [Node.clearIds, clearValueIds_eq_map]
      refine .list ?_ (cleared origins)
      refine List.forall₂_map_left_iff.mpr (List.forall₂_map_right_iff.mpr ?_)
      induction related with
      | nil => exact .nil
      | cons first _ rest =>
        exact .cons (ih _ List.mem_cons_self first)
          (rest fun v member => ih v (List.mem_cons_of_mem _ member))

end Like

/-! ## Properties by key -/

namespace LikeProperties

lemma lookup (related : LikeProperties L ps qs) (key : String) :
    LikeOption L (Node.lookup ps key) (Node.lookup qs key) := by
  induction related with
  | nil => exact .none
  | @cons p q ps qs first _ rest =>
    simp only [Node.lookup, List.find?_cons, first.key] at rest ⊢
    by_cases here : p.1 = key
    · simpa [here] using Option.Rel.some first.value
    · simpa [here] using rest

lemma hasKey_eq (related : LikeProperties L ps qs) (key : String) :
    Node.hasKey qs key = Node.hasKey ps key := by
  have found := related.lookup key
  rw [Node.hasKey, Node.hasKey]
  generalize Node.lookup ps key = x, Node.lookup qs key = y at found
  cases found <;> rfl

lemma insertNew (related : LikeProperties L ps qs) (key : String) (like : Like L a b) :
    LikeProperties L (Node.insertNew ps key a) (Node.insertNew qs key b) := by
  rw [Node.insertNew, Node.insertNew, related.hasKey_eq]
  split
  · exact related
  · exact List.rel_append related (.cons (.mk like) .nil)

end LikeProperties

/-! ## Paths -/

namespace Like

lemma child? (like : Like L a b) (step : PathStep) :
    LikeOption L (a.child? step) (b.child? step) := by
  cases like with
  | primitive _ => cases step <;> exact .none
  | object properties _ =>
    cases step with
    | key name => exact LikeProperties.lookup properties name
    | index _ => exact .none
  | list values _ =>
    cases step with
    | key _ => exact .none
    | index position =>
      simp only [Node.child?]
      induction values generalizing position with
      | nil => exact .none
      | cons first _ rest =>
        cases position with
        | zero => exact .some first
        | succ position => exact rest position

/-- **A path leads to the same node in both trees.** -/
theorem get? (like : Like L a b) (path : Path) : LikeOption L (a.get? path) (b.get? path) := by
  induction path generalizing a b with
  | nil => exact .some like
  | cons step path ih =>
    have child := like.child? step
    rw [Node.get?, Node.get?]
    generalize a.child? step = x, b.child? step = y at child
    cases child with
    | none => exact .none
    | some inner => exact ih inner

section Modify

variable {change change' : Node → Option Node}
  (h : ∀ {a b : Node}, Like L a b → LikeOption L (change a) (change' b))

include h

lemma modifyKey? (related : LikeProperties L ps qs) (key : String) :
    Option.Rel (LikeProperties L) (Node.modifyKey? change key ps)
      (Node.modifyKey? change' key qs) := by
  induction related with
  | nil => exact .none
  | @cons p q ps qs first others rest =>
    obtain @⟨other, value, value', inner⟩ := first
    simp only [Node.modifyKey?]
    split
    · have here := h inner
      generalize change value = x, change' value' = y at here
      cases here with
      | none => exact .none
      | some new => exact .some (.cons (.mk new) others)
    · generalize Node.modifyKey? change key ps = x, Node.modifyKey? change' key qs = y at rest
      cases rest with
      | none => exact .none
      | some new => exact .some (.cons (.mk inner) new)

lemma modifyIndex? (related : LikeValues L vs ws) (position : Nat) :
    Option.Rel (LikeValues L) (Node.modifyIndex? change position vs)
      (Node.modifyIndex? change' position ws) := by
  induction related generalizing position with
  | nil => cases position <;> exact .none
  | @cons v w vs ws first others rest =>
    cases position with
    | zero =>
      have here := h first
      simp only [Node.modifyIndex?]
      generalize change v = x, change' w = y at here
      cases here with
      | none => exact .none
      | some new => exact .some (.cons new others)
    | succ position =>
      have there := rest position
      simp only [Node.modifyIndex?]
      generalize Node.modifyIndex? change position vs = x,
        Node.modifyIndex? change' position ws = y at there
      cases there with
      | none => exact .none
      | some new => exact .some (.cons first new)

/-- **What is changed at a path stays alike**, if what it is changed to is. -/
theorem modify? (like : Like L a b) (path : Path) :
    LikeOption L (a.modify? change path) (b.modify? change' path) := by
  induction path generalizing a b with
  | nil => exact h like
  | cons step path ih =>
    rw [Node.modify?, Node.modify?]
    cases like with
    | primitive _ => cases step <;> exact .none
    | @object _ ps qs _ _ properties origins =>
      cases step with
      | index _ => exact .none
      | key name =>
        have changed := modifyKey? ih properties name
        rw [modifyChild?, modifyChild?]
        generalize Node.modifyKey? (Node.modify? change · path) name ps = x,
          Node.modifyKey? (Node.modify? change' · path) name qs = y at changed
        cases changed with
        | none => exact .none
        | some new => exact .some (.object new origins)
    | @list _ vs ws _ _ _ values origins =>
      cases step with
      | key _ => exact .none
      | index position =>
        have changed := modifyIndex? ih values position
        rw [modifyChild?, modifyChild?]
        generalize Node.modifyIndex? (Node.modify? change · path) position vs = x,
          Node.modifyIndex? (Node.modify? change' · path) position ws = y at changed
        cases changed with
        | none => exact .none
        | some new => exact .some (.list new origins)

end Modify

lemma set? (like : Like L a b) (path : Path) (new : Like L c d) :
    LikeOption L (a.set? path c) (b.set? path d) :=
  modify? (fun _ => .some new) like path

/-- What stays where it is if a path leads nowhere stays alike. -/
lemma getD {x y : Option Node} (changed : LikeOption L x y) (like : Like L a b) :
    Like L (x.getD a) (y.getD b) := by
  cases changed with
  | none => exact like
  | some new => exact new

/-! ## Walks -/

/-- **A walk finds the same paths**, and nodes that are alike. -/
theorem nodes (like : Like L a b) :
    List.Forall₂ (fun x y => y.1 = x.1 ∧ Like L x.2 y.2) a.nodes b.nodes := by
  have below {step : PathStep} {xs ys : List (Path × Node)}
      (related : List.Forall₂ (fun x y => y.1 = x.1 ∧ Like L x.2 y.2) xs ys) :
      List.Forall₂ (fun x y => y.1 = x.1 ∧ Like L x.2 y.2) (xs.map (under step))
        (ys.map (under step)) :=
    List.forall₂_map_left_iff.mpr (List.forall₂_map_right_iff.mpr
      (related.imp fun _ _ h => ⟨congrArg (step :: ·) h.1, h.2⟩))
  induction a using Node.induct_parts generalizing b with
  | primitive value origin =>
    cases like with
    | primitive origins => exact .cons ⟨rfl, .primitive origins⟩ .nil
  | object name properties origin ih =>
    cases like with
    | object related origins =>
      rw [nodes_object, nodes_object]
      refine .cons ⟨rfl, .object related origins⟩ ?_
      induction related with
      | nil => exact .nil
      | cons first _ rest =>
        rw [List.flatMap_cons, List.flatMap_cons, first.key]
        exact List.rel_append (below (ih _ List.mem_cons_self first.value))
          (rest fun p member => ih p (List.mem_cons_of_mem _ member))
  | list name values operation origin ih =>
    cases like with
    | list related origins =>
      rw [nodes_list, nodes_list]
      refine .cons ⟨rfl, .list related origins⟩ ?_
      generalize 0 = start
      induction related generalizing start with
      | nil => exact .nil
      | cons first _ rest =>
        rw [List.zipIdx_cons, List.zipIdx_cons, List.flatMap_cons, List.flatMap_cons]
        exact List.rel_append (below (ih _ List.mem_cons_self first))
          (rest (fun v member => ih v (List.mem_cons_of_mem _ member)) (start + 1))

/-- Where numbers count, the same ones are found. -/
lemma numbered_nodes (like : Like L a b) (exact : L.exact) :
    List.Forall₂ (fun x y => y.1 = x.1 ∧ y.2.id = x.2.id) a.nodes b.nodes :=
  like.nodes.imp fun _ _ h => ⟨h.1, h.2.origin.id exact⟩

end Like

end Node

end TreeLang
