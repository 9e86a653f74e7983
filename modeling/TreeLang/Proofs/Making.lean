import TreeLang.Parse.Value
import TreeLang.Proofs.Lookahead

/-!
# Making nodes

Between two tokens a parser makes nodes: it numbers them, marks those that refer to parameters, and
offers them to the macros.  None of this reads the text.  So a step that makes nodes depends only on
a small part of the state, and changes only a small part of it; where the text goes on, which groups
are open and what was reported before have no influence on it.

* `Parser.Alike` — states between which making nodes cannot tell.
* `Parser.Change` — what making nodes does to a state.
* **`Parser.Nodewise`** — a step does the same to all states that are alike.
* `Parser.Nodewise.runs` — so it can be followed without what was read ahead.
* `nodewise_invoke`, `nodewise_expand`, … — the steps that make nodes are of this sort.
* `invokeWithin_answered`, `invokeWithin_unanswered`, `invokeWithin_undecided` — a node that is offered,
  by the answer of the macros.
-/

namespace TreeLang.Parser

variable {α β : Type}

/-- States between which making nodes cannot tell. -/
structure Alike (s t : ParserState) : Prop where
  lastId : t.lastId = s.lastId
  macros : t.visible.macros = s.visible.macros
  scope : t.scope = s.scope
  depth : t.depth = s.depth
  recovering : t.recovering = s.recovering

lemma Alike.refl (s : ParserState) : Alike s s := ⟨rfl, rfl, rfl, rfl, rfl⟩

lemma Alike.symm {s t : ParserState} (h : Alike s t) : Alike t s :=
  ⟨h.lastId.symm, h.macros.symm, h.scope.symm, h.depth.symm, h.recovering.symm⟩

lemma Alike.trans {s t u : ParserState} (first : Alike s t) (second : Alike t u) : Alike s u :=
  ⟨second.lastId.trans first.lastId, second.macros.trans first.macros,
    second.scope.trans first.scope, second.depth.trans first.depth,
    second.recovering.trans first.recovering⟩

/-- What making nodes does to a state: the reports are those that are added. -/
structure Change where
  lastId : Nat
  scope : Option TemplateScope
  depth : Nat
  reports : List Report

namespace Change

/-- The change that leaves a state as it is. -/
def none (s : ParserState) : Change := ⟨s.lastId, s.scope, s.depth, []⟩

/-- The state after a change. -/
def apply (change : Change) (s : ParserState) : ParserState :=
  { s with
    lastId := change.lastId
    scope := change.scope
    depth := change.depth
    reports := s.reports ++ change.reports }

/-- A change after another one. -/
def andThen (first second : Change) : Change :=
  { second with reports := first.reports ++ second.reports }

@[simp] lemma apply_none {s t : ParserState} (h : Alike s t) : (none s).apply t = t := by
  cases t
  obtain ⟨lastId, -, scope, depth, -⟩ := h
  simp_all [none, apply]

@[simp] lemma apply_andThen (first second : Change) (s : ParserState) :
    (first.andThen second).apply s = second.apply (first.apply s) := by
  simp only [andThen, apply, ParserState.mk.injEq, true_and, and_true]
  exact Array.ext' (by simp)

/-- The same change leads from states that are alike to states that are alike. -/
lemma alike_apply (change : Change) {s t : ParserState} (h : Alike s t) :
    Alike (change.apply s) (change.apply t) :=
  ⟨rfl, h.macros, rfl, rfl, h.recovering⟩

end Change

/-- A result as a step of a parser has it. -/
def conclude (result : Except Fault α) (s : ParserState) : EStateM.Result Fault ParserState α :=
  match result with
  | .ok value => .ok value s
  | .error fault => .error fault s

/-- **A step that makes nodes and does not read**: to states that are alike it does the same. -/
def Nodewise (step : Parser α) : Prop :=
  ∀ s, ∃ (result : Except Fault α) (change : Change),
    ∀ t, Alike s t → step t = conclude result (change.apply t)

namespace Nodewise

lemma pure (value : α) : Nodewise (Pure.pure value : Parser α) := fun s =>
  ⟨.ok value, .none s, fun t h => by rw [Change.apply_none h]; rfl⟩

lemma throw (fault : Fault) : Nodewise (MonadExcept.throw fault : Parser α) := fun s =>
  ⟨.error fault, .none s, fun t h => by rw [Change.apply_none h]; rfl⟩

lemma bind {step : Parser α} {f : α → Parser β} (first : Nodewise step)
    (second : ∀ value, Nodewise (f value)) : Nodewise (step >>= f) := by
  intro s
  obtain ⟨result, change, hstep⟩ := first s
  cases result with
  | error fault =>
    refine ⟨.error fault, change, fun t h => ?_⟩
    simp only [Bind.bind, EStateM.bind, hstep t h, conclude]
  | ok value =>
    obtain ⟨result, more, hnext⟩ := second value (change.apply s)
    refine ⟨result, change.andThen more, fun t h => ?_⟩
    rw [bind_ok (hstep t h), hnext _ (change.alike_apply h), Change.apply_andThen]

/-- A step that looks at the part of the state that nodes are made from. -/
lemma get {f : ParserState → Parser β} (same : ∀ s t, Alike s t → f t = f s)
    (step : ∀ s, Nodewise (f s)) : Nodewise (MonadState.get >>= f) := by
  intro s
  obtain ⟨result, change, h⟩ := step s s
  refine ⟨result, change, fun t alike => ?_⟩
  have look : (MonadState.get >>= f) t = f t t := rfl
  rw [look, same s t alike, h t alike]

/-- A step that makes a change. -/
lemma of_change {step : Parser α} (value : ParserState → α) (change : ParserState → Change)
    (h : ∀ s t, Alike s t → step t = .ok (value s) ((change s).apply t)) : Nodewise step :=
  fun s => ⟨.ok (value s), change s, fun t alike => h s t alike⟩

lemma note (report : Report) : Nodewise (Parser.note report) := by
  refine of_change (fun _ => ()) (fun s => { Change.none s with
    reports := if s.recovering then [] else [report] }) fun s t alike => ?_
  rw [note_eq, ← alike.recovering]
  have hnone := Change.apply_none alike
  by_cases h : t.recovering
  · simpa [h, Change.none] using hnone.symm
  · obtain ⟨lastId, -, scope, depth, -⟩ := alike
    simp [h, Change.none, Change.apply, lastId, scope, depth]

lemma freshId : Nodewise Parser.freshId := by
  refine of_change (fun s => s.lastId + 1) (fun s => { Change.none s with
    lastId := s.lastId + 1 }) fun s t alike => ?_
  obtain ⟨lastId, -, scope, depth, -⟩ := alike
  have step : Parser.freshId t = .ok (t.lastId + 1) { t with lastId := t.lastId + 1 } := rfl
  simp [step, Change.apply, Change.none, ← lastId, ← scope, ← depth]

/-- A step that changes the marks of a template. -/
lemma rescope (change : TemplateScope → TemplateScope) :
    Nodewise (modify fun s => { s with scope := s.scope.map change } : Parser Unit) := by
  refine of_change (fun _ => ()) (fun s => { Change.none s with
    scope := s.scope.map change }) fun s t alike => ?_
  obtain ⟨lastId, -, scope, depth, -⟩ := alike
  simp [modify_eq, Change.apply, Change.none, ← lastId, ← scope, ← depth]

lemma setScope (scope : Option TemplateScope) :
    Nodewise (modify fun s => { s with scope := scope } : Parser Unit) := by
  refine of_change (fun _ => ()) (fun s => { Change.none s with scope := scope })
    fun s t alike => ?_
  obtain ⟨lastId, -, -, depth, -⟩ := alike
  simp [modify_eq, Change.apply, Change.none, ← lastId, ← depth]

lemma deepen (change : Nat → Nat) :
    Nodewise (modify fun s => { s with depth := change s.depth } : Parser Unit) := by
  refine of_change (fun _ => ()) (fun s => { Change.none s with depth := change s.depth })
    fun s t alike => ?_
  obtain ⟨lastId, -, scope, depth, -⟩ := alike
  simp [modify_eq, Change.apply, Change.none, ← lastId, ← scope, ← depth]

lemma forM {items : List α} {step : α → Parser PUnit} (h : ∀ item, Nodewise (step item)) :
    Nodewise (items.forM step) := by
  induction items with
  | nil => exact Nodewise.pure _
  | cons item rest ih => exact (h item).bind fun _ => ih

lemma foldlM {items : List α} {step : β → α → Parser β} (h : ∀ b item, Nodewise (step b item))
    (b : β) : Nodewise (items.foldlM step b) := by
  induction items generalizing b with
  | nil => exact Nodewise.pure _
  | cons item rest ih => exact (h b item).bind fun b => ih b

/-- **A step that makes nodes does not see what was read ahead.** -/
theorem runs {step : Parser α} (nodewise : Nodewise step) {s t : ParserState} {value : α}
    (h : step s = .ok value t) : Runs step s value t := by
  obtain ⟨result, change, hstep⟩ := nodewise s
  have hs := hstep s (.refl s)
  rw [h] at hs
  cases result with
  | error fault => simp [conclude] at hs
  | ok value' =>
    obtain ⟨rfl, rfl⟩ : value = value' ∧ t = change.apply s := by simpa [conclude] using hs
    intro s₁ settled hbase
    subst hbase
    exact ⟨change.apply s₁, hstep s₁ ⟨rfl, rfl, rfl, rfl, rfl⟩,
      ⟨settled.handed, settled.coherent⟩, rfl⟩

end Nodewise

/-! ## The steps that make nodes -/

lemma nodewise_placeholderAt (offset : Nat) : Nodewise (placeholderAt offset) :=
  Nodewise.freshId.bind fun _ => .pure _

lemma nodewise_parameterIndex? (word : String) : Nodewise (parameterIndex? word) :=
  .get (fun s t alike => by rw [alike.scope]) fun _ => .pure _

lemma nodewise_markReference (id : Nat) (reference : Reference) :
    Nodewise (markReference id reference) :=
  .rescope fun scope => { scope with references := scope.references.insert id reference }

lemma nodewise_refuse (offset : Nat) (report : Report) : Nodewise (refuse offset report) :=
  (Nodewise.note _).bind fun _ => nodewise_placeholderAt offset

lemma nodewise_nested {step : Parser α} (h : Nodewise step) : Nodewise (nested step) :=
  (Nodewise.deepen (· + 1)).bind fun _ => h.bind fun _ =>
    (Nodewise.deepen (· - 1)).bind fun _ => .pure _

/-! ### Expansion -/

lemma nodewise_expandDeferred {expandOne : Node → MacroKind → Parser Node}
    (h : ∀ node kind, Nodewise (expandOne node kind)) (span : Span) (tree : Node)
    (waiting : List DeferredInvocation) :
    Nodewise (expandDeferred expandOne span tree waiting) := by
  refine Nodewise.foldlM (fun tree invocation => ?_) tree
  cases tree.get? invocation.path with
  | none => exact .pure _
  | some target => exact (h _ _).bind fun _ => .pure _

lemma nodewise_useMacro {expandOne : Node → MacroKind → Parser Node}
    (h : ∀ node kind, Nodewise (expandOne node kind)) (definition : MacroDefinition)
    (node : Node) : Nodewise (useMacro expandOne definition node) := by
  refine .get (fun s t alike => by rw [alike.depth]) fun s => ?_
  split
  · exact nodewise_refuse _ _
  · dsimp only
    cases (definition.apply node).result with
    | error failure =>
      cases failure with
      | fault fault => exact .throw _
      | mistake report =>
        exact (Nodewise.forM fun _ => .note _).bind fun _ => nodewise_refuse _ _
    | ok result =>
      refine (Nodewise.forM fun _ => .note _).bind fun _ => ?_
      split
      · exact .pure _
      · exact nodewise_nested (nodewise_expandDeferred h _ _ _)

lemma invokeWithin_undecided {levels : Nat} {node : Node} {kind : MacroKind} {report : Report}
    (undecided : s.visible.macros.resolve (invokedName node) kind node = .error report) :
    invokeWithin (levels + 1) node kind s = refuse node.span.start report s := by
  rw [invokeWithin, bind_get, undecided]

/-- What no macro answers to stays what it is, on any level but the last. -/
lemma invokeWithin_unanswered {levels : Nat} {node : Node} {kind : MacroKind}
    (unanswered : s.visible.macros.resolve (invokedName node) kind node = .ok none) :
    invokeWithin (levels + 1) node kind s = .ok node s := by
  rw [invokeWithin, bind_get, unanswered]
  rfl

lemma invokeWithin_answered {levels : Nat} {node : Node} {kind : MacroKind}
    {found : Shared MacroDefinition}
    (answered : s.visible.macros.resolve (invokedName node) kind node = .ok (some found)) :
    invokeWithin (levels + 1) node kind s = useMacro (invokeWithin levels) found.value node s := by
  rw [invokeWithin, bind_get, answered]

lemma nodewise_invokeWithin (levels : Nat) (node : Node) (kind : MacroKind) :
    Nodewise (invokeWithin levels node kind) := by
  induction levels generalizing node kind with
  | zero => exact .throw _
  | succ levels ih =>
    refine .get (fun s t alike => by rw [alike.macros]) fun s => ?_
    split
    · exact .pure _
    · exact nodewise_useMacro ih _ _
    · exact nodewise_refuse _ _

lemma nodewise_invoke (node : Node) (kind : MacroKind) : Nodewise (invoke node kind) :=
  .get (fun s t alike => by rw [alike.depth]) fun _ => nodewise_invokeWithin _ _ _

lemma nodewise_expand (node : Node) (kind : MacroKind) : Nodewise (expand node kind) := by
  refine .get (fun s t alike => by rw [alike.scope]) fun s => ?_
  split
  · split
    · exact (Nodewise.setScope _).bind fun _ => .pure _
    · exact nodewise_invoke _ _
  · exact nodewise_invoke _ _

/-! ### Nodes of every sort -/

lemma nodewise_primitive (token : Token) (expands : Bool) :
    Nodewise (primitive token expands) := by
  refine Nodewise.freshId.bind fun id => ?_
  split
  · exact .pure _
  · refine (nodewise_parameterIndex? _).bind fun index => ?_
    split
    · exact (nodewise_markReference _ _).bind fun _ => .pure _
    · split
      · exact nodewise_invoke _ _
      · exact .pure _

lemma nodewise_operatorNode (op : OperatorDefinition) (operands : List Node) (span : Span) :
    Nodewise (operatorNode op operands span) :=
  Nodewise.freshId.bind fun _ => nodewise_expand _ _

lemma nodewise_accessorCall (op : OperatorDefinition) (receiver member : Node) (span : Span) :
    Nodewise (accessorCall op receiver member span) := by
  refine .get (fun s t alike => by rw [alike.scope]) fun s => ?_
  refine (Nodewise.rescope fun scope =>
    { scope with references := scope.references.erase member.id }).bind fun _ => ?_
  refine Nodewise.freshId.bind fun id => ?_
  dsimp only
  cases s.scope.bind fun scope => scope.references.find? member.id with
  | none => exact nodewise_expand _ _
  | some reference => exact (nodewise_markReference _ _).bind fun _ => nodewise_expand _ _

lemma nodewise_binaryNode (op : OperatorDefinition) (left right : Node) :
    Nodewise (binaryNode op left right) := by
  rw [binaryNode]
  split
  · exact nodewise_accessorCall _ _ _ _
  · exact nodewise_operatorNode _ _ _

lemma nodewise_addProperty (options : CompileOptions) (key : Token) (value : Node)
    (properties : List (String × Node)) :
    Nodewise (addProperty options key value properties) := by
  rw [addProperty]
  split
  · exact (Nodewise.note _).bind fun _ =>
      (Nodewise.rescope (·.drop value)).bind fun _ => .pure _
  · exact (Nodewise.pure _).bind fun _ => .pure _

/-- **The node of a group**, as it is numbered, marked and offered to the macros. -/
def groupNode (text : String) (start : Nat) (expands : Bool) (reference : Option Nat)
    (content : GroupContent) : Parser Node := do
  let node := content.node text (← freshId) start
  match reference with
  | some parameter => markReference node.id ⟨parameter, .name ""⟩
  | none => pure ()
  if expands then expand node content.kind else return node

lemma nodewise_completeGroup (options : CompileOptions) (name : Option Token) (start : Nat)
    (expands : Bool) (reference : Option Nat) (content : GroupContent) :
    Nodewise (completeGroup options name start expands reference content) := by
  simp only [completeGroup]
  split
  · exact .pure _
  · refine Nodewise.freshId.bind fun id => ?_
    have offered : ∀ (node : Node) (kind : MacroKind), Nodewise
        (if expands then expand node kind else (Pure.pure node : Parser Node)) := by
      intro node kind
      split
      · exact nodewise_expand _ _
      · exact .pure _
    cases reference with
    | none => exact offered _ _
    | some parameter => exact (nodewise_markReference _ _).bind fun _ => offered _ _

end TreeLang.Parser
