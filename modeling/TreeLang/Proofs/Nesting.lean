import TreeLang.Proofs.Making

/-!
# The depth of expansion

The result of a macro may invoke macros, whose results invoke macros again.  How deep that goes is
bounded: at the limit an invocation is refused, with a report.  So the bound that `invoke` starts
with, one level for each depth up to the limit, is never used up; and an expansion that comes to an
end leaves the depth at which it began.

* `MacroDefinition.usual_apply`, `MacroDefinition.apply_ne_exhausted` — how using a macro may fail; it
  has no bound.
* `Shallow` — a step that runs into no bound and comes back to its depth.
* **`shallow_invoke`**, `shallow_expand`, … — the steps that make nodes are of this sort.
-/

namespace TreeLang

/-! ## Using a macro -/

/-- **How the use of a macro may fail**: with a mistake, which is an error, or for want of a parameter
or of a receiver. -/
inductive Failure.OfUse : Failure → Prop
  | mistake (cause : Cause) : OfUse (.of cause)
  | parameter (index : Nat) : OfUse (.fault (.missingParameter index))
  | receiver : OfUse (.fault .missingReceiver)

lemma Failure.OfUse.isError {report : Report} (failure : OfUse (.mistake report)) :
    report.isError = true := by
  cases failure
  rfl

namespace MacroDefinition

variable {α β : Type}

/-- A result that fails, if at all, as the use of a macro may. -/
def Usual (result : Except Failure α) : Prop :=
  ∀ failure, result = .error failure → failure.OfUse

namespace Usual

lemma ok (value : α) : Usual (.ok value) := by
  rintro _ ⟨⟩

lemma error {failure : Failure} (usual : failure.OfUse) : Usual (.error failure : Except Failure α) := by
  rintro _ ⟨⟩
  exact usual

lemma mistake (cause : Cause) : Usual (.error (.of cause) : Except Failure α) :=
  .error (.mistake cause)

lemma bind {result : Except Failure α} {next : α → Except Failure β} (first : Usual result)
    (second : ∀ value, Usual (next value)) : Usual (result >>= next) := by
  cases result with
  | ok value => exact second value
  | error failure => exact .error (first failure rfl)

lemma foldlM {items : List β} {step : α → β → Except Failure α}
    (h : ∀ value item, Usual (step value item)) (start : α) :
    Usual (items.foldlM step start) := by
  induction items generalizing start with
  | nil => exact .ok _
  | cons item rest ih => exact (h start item).bind ih

lemma mapM {items : List α} {step : α → Except Failure β} (h : ∀ item, Usual (step item)) :
    Usual (items.mapM step) := by
  induction items with
  | nil => exact .ok _
  | cons item rest ih =>
    rw [List.mapM_cons]
    exact (h item).bind fun _ => ih.bind fun _ => .ok _

end Usual

lemma usual_argumentOr (given : Option Node) (parameter : Parameter) (missing : Cause) :
    Usual (argumentOr given parameter missing) := by
  unfold argumentOr
  split
  · exact .ok _
  · exact .ok _
  · exact .mistake _

lemma usual_bindKeyed (definition : MacroDefinition) (skip : Nat) (bound : List Node)
    (properties : List (String × Node)) :
    Usual (definition.bindKeyed skip bound properties) :=
  (Usual.mapM fun _ => usual_argumentOr _ _ _).bind fun _ => .ok _

lemma usual_bindPositional (definition : MacroDefinition) (skip : Nat) (bound values : List Node) :
    Usual (definition.bindPositional skip bound values) := by
  rw [bindPositional]
  split
  · exact .error .receiver
  dsimp only
  split
  · exact .mistake _
  exact (Usual.mapM fun _ => usual_argumentOr _ _ _).bind fun _ => .ok _

lemma usual_bind (definition : MacroDefinition) (argument : Node) :
    Usual (definition.bind argument) := by
  have properties : ∀ node, Usual (definition.objectProperties node) := by
    intro node
    unfold objectProperties
    split
    · exact .ok _
    · exact .mistake _
  have values : ∀ node, Usual (definition.listValues node) := by
    intro node
    unfold listValues
    split
    · exact .ok _
    · exact .mistake _
  have receiver : Usual (definition.receiverCall argument) := by
    unfold receiverCall
    split
    · exact .ok _
    · exact .ok _
    · exact .mistake _
  rw [bind]
  split
  · exact .ok _
  · exact (properties _).bind fun _ => usual_bindKeyed _ _ _ _
  · exact (values _).bind fun _ => usual_bindPositional _ _ _ _
  · exact (values _).bind fun _ => usual_bindPositional _ _ _ _
  · refine receiver.bind fun found => ?_
    split
    · exact .ok _
    · exact .mistake _
  · refine receiver.bind fun found => ?_
    split
    · exact usual_bindKeyed _ _ _ _
    · exact (properties _).bind fun _ => usual_bindKeyed _ _ _ _
  all_goals
    refine receiver.bind fun found => ?_
    split
    · exact usual_bindPositional _ _ _ _
    · exact (values _).bind fun _ => usual_bindPositional _ _ _ _

lemma usual_replace (definition : MacroDefinition) (arguments : List Node) (tree : Node)
    (replacement : Replacement) : Usual (definition.replace arguments tree replacement) := by
  unfold replace
  split
  · split
    · split
      · exact .ok _
      · split
        · exact .ok _
        · exact .mistake _
    · exact .error (.parameter _)
  · exact .mistake _

/-- **How using a macro fails**, if it does. -/
theorem usual_apply (definition : MacroDefinition) (argument : Node) :
    Usual (definition.apply argument).result := by
  have bound := usual_bind definition argument
  rw [apply]
  cases hbind : definition.bind argument with
  | error failure => exact .error (bound failure hbind)
  | ok binding =>
    dsimp only
    split
    · exact .mistake _
    · exact Usual.foldlM (fun _ _ => usual_replace _ _ _ _) _

/-- **Using a macro runs into no bound.** -/
theorem apply_ne_exhausted (definition : MacroDefinition) (argument : Node) :
    (definition.apply argument).result ≠ .error (.fault .exhausted) := by
  intro exhausted
  cases usual_apply definition argument _ exhausted

end MacroDefinition

/-- Where no macro can be chosen, that is an error. -/
lemma MacroRegistry.isError_of_resolve {registry : MacroRegistry} {name : String} {kind : MacroKind}
    {argument : Node} {report : Report} (h : registry.resolve name kind argument = .error report) :
    report.isError = true := by
  simp only [resolve] at h
  split at h
  · cases h
  split at h
  · cases h
    rfl
  split at h
  · cases h
  · cases h
    rfl

/-! ## Steps that come back to their depth -/

namespace Parser

variable {α β : Type} {depth : Nat}

/-- **A step is shallow** at a depth: it runs into no bound, and where it comes to an end it leaves
the depth as it was. -/
def Shallow (depth : Nat) (step : Parser α) : Prop :=
  ∀ s, s.depth = depth →
    match step s with
    | .ok _ t => t.depth = depth
    | .error fault _ => fault ≠ .exhausted

namespace Shallow

lemma pure (value : α) : Shallow depth (Pure.pure value : Parser α) := fun _ h => h

lemma throw {fault : Fault} (h : fault ≠ .exhausted) :
    Shallow depth (MonadExcept.throw fault : Parser α) := fun _ _ => h

lemma bind {step : Parser α} {next : α → Parser β} (first : Shallow depth step)
    (second : ∀ value, Shallow depth (next value)) : Shallow depth (step >>= next) := by
  intro s h
  have outcome := first s h
  cases hstep : step s with
  | ok value t =>
    rw [hstep] at outcome
    rw [bind_ok hstep]
    exact second value t outcome
  | error fault t =>
    rw [hstep] at outcome
    simp only [Bind.bind, EStateM.bind, hstep]
    exact outcome

/-- A step that looks at the state first. -/
lemma get {next : ParserState → Parser β} (h : ∀ s, s.depth = depth → Shallow depth (next s)) :
    Shallow depth (MonadState.get >>= next) :=
  fun s same => h s same s same

lemma note (report : Report) : Shallow depth (Parser.note report) := by
  intro s h
  rw [note_eq]
  dsimp only
  split <;> exact h

lemma freshId : Shallow depth Parser.freshId := fun _ h => h

/-- A step that changes the marks of a template. -/
lemma rescope (change : ParserState → Option TemplateScope) :
    Shallow depth (modify fun s => { s with scope := change s } : Parser Unit) := fun _ h => h

lemma forM {items : List α} {step : α → Parser PUnit} (h : ∀ item, Shallow depth (step item)) :
    Shallow depth (items.forM step) := by
  induction items with
  | nil => exact Shallow.pure _
  | cons item rest ih => exact (h item).bind fun _ => ih

lemma foldlM {items : List α} {step : β → α → Parser β} (h : ∀ b item, Shallow depth (step b item))
    (b : β) : Shallow depth (items.foldlM step b) := by
  induction items generalizing b with
  | nil => exact Shallow.pure _
  | cons item rest ih => exact (h b item).bind fun b => ih b

end Shallow

/-- What is nested comes back to the depth it began at. -/
lemma shallow_nested {step : Parser α} (h : Shallow (depth + 1) step) :
    Shallow depth (nested step) := by
  intro s same
  have deeper : ParserState.depth { s with depth := s.depth + 1 } = depth + 1 := by rw [← same]
  have outcome := h _ deeper
  have run : nested step s = (step >>= fun result => do
      modify fun s => { s with depth := s.depth - 1 }
      return result) { s with depth := s.depth + 1 } := rfl
  rw [run]
  cases hstep : step { s with depth := s.depth + 1 } with
  | ok value t =>
    rw [hstep] at outcome
    rw [bind_ok hstep]
    have back : t.depth - 1 = depth := by rw [outcome, Nat.add_sub_cancel]
    exact back
  | error fault t =>
    rw [hstep] at outcome
    simp only [Bind.bind, EStateM.bind, hstep]
    exact outcome

/-! ## The steps that make nodes -/

lemma shallow_placeholderAt (offset : Nat) : Shallow depth (placeholderAt offset) :=
  Shallow.freshId.bind fun _ => .pure _

lemma shallow_parameterIndex? (word : String) : Shallow depth (parameterIndex? word) :=
  .get fun _ _ => .pure _

lemma shallow_markReference (id : Nat) (reference : Reference) :
    Shallow depth (markReference id reference) :=
  .rescope _

lemma shallow_refuse (offset : Nat) (report : Report) : Shallow depth (refuse offset report) :=
  (Shallow.note _).bind fun _ => shallow_placeholderAt offset

/-- Invocations one level deeper are expanded one level deeper. -/
lemma shallow_useMacro {expandOne : Node → MacroKind → Parser Node}
    (deeper : depth < maxNesting → ∀ node kind, Shallow (depth + 1) (expandOne node kind))
    (definition : MacroDefinition) (node : Node) :
    Shallow depth (useMacro expandOne definition node) := by
  refine .get fun s same => ?_
  rw [same]
  split
  · exact shallow_refuse _ _
  · rename_i below
    have unbounded := definition.apply_ne_exhausted node
    dsimp only
    cases hresult : (definition.apply node).result with
    | error failure =>
      cases failure with
      | fault fault => exact .throw fun same => unbounded (by rw [hresult, same])
      | mistake report => exact (Shallow.forM fun _ => .note _).bind fun _ => shallow_refuse _ _
    | ok result =>
      refine (Shallow.forM fun _ => .note _).bind fun _ => ?_
      split
      · exact .pure _
      · refine shallow_nested (.foldlM (fun tree invocation => ?_) _)
        cases tree.get? invocation.path with
        | none => exact .pure _
        | some target => exact (deeper (by omega) _ _).bind fun _ => .pure _

/-- **The levels of expansion are never used up**: at each depth up to the limit one is left. -/
theorem shallow_invokeWithin (levels : Nat) (left : maxNesting < depth + levels)
    (shallow : depth ≤ maxNesting) (node : Node) (kind : MacroKind) :
    Shallow depth (invokeWithin levels node kind) := by
  induction levels generalizing depth node kind with
  | zero => exact absurd left (by omega)
  | succ levels ih =>
    refine .get fun s same => ?_
    split
    · exact .pure _
    · exact shallow_useMacro (fun below => ih (by omega) below) _ _
    · exact shallow_refuse _ _

/-- **Offering a node to the macros is bounded by the limit alone.** -/
theorem shallow_invoke (shallow : depth ≤ maxNesting) (node : Node) (kind : MacroKind) :
    Shallow depth (invoke node kind) :=
  .get fun s same => shallow_invokeWithin _ (by omega) shallow _ _

lemma shallow_expand (shallow : depth ≤ maxNesting) (node : Node) (kind : MacroKind) :
    Shallow depth (expand node kind) := by
  refine .get fun s _ => ?_
  split
  · split
    · exact (Shallow.rescope fun _ => _).bind fun _ => .pure _
    · exact shallow_invoke shallow _ _
  · exact shallow_invoke shallow _ _

lemma shallow_primitive (shallow : depth ≤ maxNesting) (token : Token) (expands : Bool) :
    Shallow depth (primitive token expands) := by
  refine Shallow.freshId.bind fun id => ?_
  split
  · exact .pure _
  · refine (shallow_parameterIndex? _).bind fun index => ?_
    split
    · exact (shallow_markReference _ _).bind fun _ => .pure _
    · split
      · exact shallow_invoke shallow _ _
      · exact .pure _

lemma shallow_operatorNode (shallow : depth ≤ maxNesting) (op : OperatorDefinition)
    (operands : List Node) (span : Span) : Shallow depth (operatorNode op operands span) :=
  Shallow.freshId.bind fun _ => shallow_expand shallow _ _

lemma shallow_binaryNode (shallow : depth ≤ maxNesting) (op : OperatorDefinition)
    (left right : Node) : Shallow depth (binaryNode op left right) := by
  rw [binaryNode]
  split
  · refine .get fun s _ => ?_
    refine (Shallow.rescope _).bind fun _ => Shallow.freshId.bind fun id => ?_
    dsimp only
    cases s.scope.bind fun scope => scope.references.find? right.id with
    | none => exact shallow_expand shallow _ _
    | some reference => exact (shallow_markReference _ _).bind fun _ => shallow_expand shallow _ _
  · exact shallow_operatorNode shallow _ _ _

lemma shallow_addProperty (options : CompileOptions) (key : Token) (value : Node)
    (properties : List (String × Node)) :
    Shallow depth (addProperty options key value properties) := by
  rw [addProperty]
  split
  · exact (Shallow.note _).bind fun _ => (Shallow.rescope _).bind fun _ => .pure _
  · exact (Shallow.pure _).bind fun _ => .pure _

lemma shallow_completeGroup (shallow : depth ≤ maxNesting) (options : CompileOptions)
    (name : Option Token) (start : Nat) (expands : Bool) (reference : Option Nat)
    (content : GroupContent) :
    Shallow depth (completeGroup options name start expands reference content) := by
  simp only [completeGroup]
  split
  · exact .pure _
  · refine Shallow.freshId.bind fun id => ?_
    have offered : ∀ (node : Node) (kind : MacroKind), Shallow depth
        (if expands then expand node kind else (Pure.pure node : Parser Node)) := by
      intro node kind
      split
      · exact shallow_expand shallow _ _
      · exact .pure _
    cases reference with
    | none => exact offered _ _
    | some parameter => exact (shallow_markReference _ _).bind fun _ => offered _ _

end Parser

end TreeLang
