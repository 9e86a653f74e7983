import TreeLang.Proofs.Compiling
import TreeLang.Proofs.Joining

/-!
# Between two statements nothing is pending

While a statement is read the parser remembers what it is in the middle of: the template that it reads,
whether the member of an accessor is next, the groups that are open, and how deep invocations are nested.
None of that outlasts the statement.

* `ParserState.Calms`, **`Parser.StaysCalm`** — behind a step no template and no member is pending, if
  none was before it.
* `staysCalm_within`, `staysCalm_definitionStatement` — values and statements.
-/

namespace TreeLang

/-- **What was not pending is not pending later**: a template being read, which goes on if it was, and a
member being next. -/
structure ParserState.Calms (s t : ParserState) : Prop where
  scope : t.scope = none ↔ s.scope = none
  suppressed : s.suppressed = false → t.suppressed = false

namespace ParserState.Calms

variable {s t u : ParserState}

lemma refl (s : ParserState) : s.Calms s := ⟨.rfl, id⟩

lemma trans (first : s.Calms t) (second : t.Calms u) : s.Calms u :=
  ⟨second.scope.trans first.scope, second.suppressed ∘ first.suppressed⟩

lemma of_eq (scope : t.scope = s.scope) (suppressed : t.suppressed = s.suppressed) : s.Calms t :=
  ⟨by rw [scope], suppressed.trans⟩

end ParserState.Calms

namespace Parser

variable {α β γ : Type} {s t u : ParserState}

/-- **A step behind which nothing is pending** that was not pending before it. -/
class StaysCalm (step : Parser α) : Prop where
  calms : ∀ {s a t}, step s = .ok a t → s.Calms t

namespace StaysCalm

instance pure (a : α) : StaysCalm (Pure.pure a : Parser α) where
  calms h := by
    cases h
    exact .refl _

instance throw (fault : Fault) : StaysCalm (MonadExcept.throw fault : Parser α) where
  calms h := by cases h

instance bind {step : Parser α} {next : α → Parser β} [first : StaysCalm step]
    [second : ∀ a, StaysCalm (next a)] : StaysCalm (step >>= next) where
  calms h := by
    obtain ⟨a, u, hstep, hnext⟩ := bind_eq_ok.mp h
    exact (first.calms hstep).trans ((second a).calms hnext)

instance ite {condition : Prop} [Decidable condition] {yes no : Parser α} [StaysCalm yes]
    [StaysCalm no] : StaysCalm (if condition then yes else no) := by
  split <;> infer_instance

instance get : StaysCalm (MonadState.get : Parser ParserState) where
  calms h := by
    cases h
    exact .refl _

lemma look {next : ParserState → Parser β} (h : ∀ s, StaysCalm (next s)) :
    StaysCalm (MonadState.get >>= next) :=
  ⟨fun hnext => (h _).calms hnext⟩

lemma modifyGet {change : ParserState → α × ParserState} (h : ∀ s : ParserState, s.Calms (change s).2) :
    StaysCalm (MonadStateOf.modifyGet change : Parser α) where
  calms {s _ _} hstep := by
    cases hstep
    exact h s

lemma modify {change : ParserState → ParserState} (h : ∀ s : ParserState, s.Calms (change s)) :
    StaysCalm (modify change : Parser Unit) :=
  modifyGet h

/-- A step that neither begins nor ends anything. -/
lemma framed {change : ParserState → α × ParserState} (scope : ∀ s, (change s).2.scope = s.scope)
    (suppressed : ∀ s, (change s).2.suppressed = s.suppressed) :
    StaysCalm (MonadStateOf.modifyGet change : Parser α) :=
  modifyGet fun s => .of_eq (scope s) (suppressed s)

instance forM {items : List γ} {step : γ → Parser PUnit} [∀ item, StaysCalm (step item)] :
    StaysCalm (items.forM step) := by
  induction items with
  | nil => exact pure _
  | cons item rest ih => exact @bind _ _ (step item) (fun _ => rest.forM step) _ _

lemma foldlM {step : α → γ → Parser α} (h : ∀ value item, StaysCalm (step value item))
    (items : List γ) (value : α) : StaysCalm (items.foldlM step value) := by
  induction items generalizing value with
  | nil => exact pure _
  | cons item rest ih => exact @bind _ _ (step value item) (rest.foldlM step) _ _

end StaysCalm

/-! ## Tokens, reports and nodes -/

instance staysCalm_note (report : Report) : StaysCalm (note report) where
  calms h := by
    rw [note_eq] at h
    cases h
    split <;> exact ⟨.rfl, id⟩

instance (offset : Nat) (cause : Cause) : StaysCalm (complain offset cause) := staysCalm_note _

instance (skipBreaks : Bool) (mode : Mode) : StaysCalm (lookAhead skipBreaks mode) :=
  .framed (fun _ => rfl) fun _ => rfl

instance : StaysCalm rewind := .framed (fun _ => rfl) fun _ => rfl

instance : StaysCalm forget := .framed (fun _ => rfl) fun _ => rfl

instance : StaysCalm noteLexical where
  calms h := by
    rw [noteLexical_eq] at h
    cases h
    exact ⟨.rfl, id⟩

instance : StaysCalm commit where
  calms h := by
    rw [commit_eq] at h
    cases h
    exact ⟨.rfl, id⟩

instance (skipBreaks : Bool) (mode : Mode) : StaysCalm (peek skipBreaks mode) := .bind

instance (skipBreaks : Bool) (mode : Mode) : StaysCalm (advance skipBreaks mode) := .bind

instance (skipBreaks : Bool) (mode : Mode) : StaysCalm (skipToken skipBreaks mode) := .bind

instance : StaysCalm position := .bind

instance : StaysCalm remaining := .bind

instance : StaysCalm freshId := .framed (fun _ => rfl) fun _ => rfl

instance (offset : Nat) : StaysCalm (placeholderAt offset) := .bind

instance (word : String) : StaysCalm (parameterIndex? word) := .bind

/-- Marks are made on a template only. -/
lemma calms_mark (s : ParserState) (mark : TemplateScope → TemplateScope) :
    s.Calms { s with scope := s.scope.map mark } :=
  ⟨Option.map_eq_none_iff, id⟩

instance (id : Nat) (reference : Reference) : StaysCalm (markReference id reference) :=
  .modify fun s => calms_mark s _

instance : StaysCalm takeSuppressed := .modifyGet fun _ => ⟨.rfl, fun _ => rfl⟩

instance (closer : TokenKind) : StaysCalm (await closer) := .framed (fun _ => rfl) fun _ => rfl

instance : StaysCalm settle := .framed (fun _ => rfl) fun _ => rfl

instance (kind : TokenKind) : StaysCalm (closesAwaited kind) := .bind

/-! ### Recovery -/

instance (fuel : Nat) (closer : Option TokenKind) : StaysCalm (skipGroup fuel closer) := by
  induction fuel generalizing closer with
  | zero => exact .throw _
  | succ fuel ih =>
    unfold skipGroup
    infer_instance

instance (fuel : Nat) (closer : Option TokenKind) : StaysCalm (skipToSeparator fuel closer) := by
  induction fuel generalizing closer with
  | zero => exact .throw _
  | succ fuel ih =>
    unfold skipToSeparator
    infer_instance

instance (closer : Option TokenKind) : StaysCalm (recover closer) := by
  have recovering (b : Bool) : StaysCalm (modify fun s : ParserState => { s with recovering := b }) :=
    .framed (fun _ => rfl) fun _ => rfl
  unfold recover
  infer_instance

instance (offset : Nat) (cause : Cause) : StaysCalm (giveUp offset cause) := .bind

/-! ### Invocations -/

instance (offset : Nat) (report : Report) : StaysCalm (refuse offset report) := .bind

lemma staysCalm_expandDeferred {expandOne : Node → MacroKind → Parser Node}
    (h : ∀ node kind, StaysCalm (expandOne node kind)) (span : Span) (tree : Node)
    (waiting : List DeferredInvocation) : StaysCalm (expandDeferred expandOne span tree waiting) := by
  refine .foldlM (fun tree invocation => ?_) waiting tree
  split <;> infer_instance

instance {step : Parser α} [StaysCalm step] : StaysCalm (nested step) := by
  have sink (f : Nat → Nat) : StaysCalm (modify fun s : ParserState => { s with depth := f s.depth }) :=
    .framed (fun _ => rfl) fun _ => rfl
  exact @StaysCalm.bind _ _ _ _ (sink (· + 1)) fun _ =>
    @StaysCalm.bind _ _ _ _ inferInstance fun _ => @StaysCalm.bind _ _ _ _ (sink (· - 1)) fun _ => inferInstance

lemma staysCalm_useMacro {expandOne : Node → MacroKind → Parser Node}
    (h : ∀ node kind, StaysCalm (expandOne node kind)) (definition : MacroDefinition) (node : Node) :
    StaysCalm (useMacro expandOne definition node) := by
  have deferred := staysCalm_expandDeferred h
  rw [useMacro]
  refine .look fun s => @StaysCalm.ite _ _ _ _ _ inferInstance ?_
  dsimp only
  split <;> infer_instance

instance (levels : Nat) (node : Node) (kind : MacroKind) :
    StaysCalm (invokeWithin levels node kind) := by
  induction levels generalizing node kind with
  | zero => exact .throw _
  | succ levels ih =>
    have used := staysCalm_useMacro ih
    rw [invokeWithin]
    refine .look fun s => ?_
    split <;> infer_instance

instance (node : Node) (kind : MacroKind) : StaysCalm (invoke node kind) := .bind

instance (node : Node) (kind : MacroKind) : StaysCalm (expand node kind) where
  calms {s a t} h := by
    rw [expand] at h
    obtain ⟨_, _, look, h⟩ := bind_eq_ok.mp h
    cases look
    cases inside : s.scope with
    | none =>
      rw [inside] at h
      exact StaysCalm.calms h
    | some scope =>
      rw [inside] at h
      dsimp only at h
      split at h
      · cases h
        exact ⟨by simp [inside], id⟩
      · exact StaysCalm.calms h

/-! ## Values -/

instance (token : Token) (expands : Bool) : StaysCalm (primitive token expands) := by
  refine @StaysCalm.bind _ _ _ _ inferInstance fun id => @StaysCalm.ite _ _ _ _ _ inferInstance ?_
  refine @StaysCalm.bind _ _ _ _ inferInstance fun found => ?_
  cases found <;> infer_instance

instance (op : OperatorDefinition) (operands : List Node) (span : Span) :
    StaysCalm (operatorNode op operands span) := .bind

instance (op : OperatorDefinition) (receiver member : Node) (span : Span) :
    StaysCalm (accessorCall op receiver member span) := by
  unfold accessorCall
  refine .look fun s => @StaysCalm.bind _ _ _ _ (.modify fun s => calms_mark s _) fun _ => ?_
  refine @StaysCalm.bind _ _ _ _ inferInstance fun id => ?_
  dsimp only
  cases s.scope.bind fun scope => scope.references.find? member.id <;> infer_instance

instance (op : OperatorDefinition) (left right : Node) : StaysCalm (binaryNode op left right) := by
  rw [binaryNode]
  infer_instance

instance (nameMode : Mode) : StaysCalm (groupHead? nameMode) := by
  rw [groupHead?]
  infer_instance

instance (group : PriorityGroup) (skipBreaks : Bool) : StaysCalm (operatorOf? group skipBreaks) := by
  refine @StaysCalm.bind _ _ _ _ inferInstance fun token => ?_
  split
  · split <;> infer_instance
  · infer_instance

instance (mode : Mode) (closer : TokenKind) : StaysCalm (separator mode closer) := by
  rw [separator]
  infer_instance

instance (options : CompileOptions) (key : Token) (value : Node)
    (properties : List (String × Node)) : StaysCalm (addProperty options key value properties) := by
  rw [addProperty]
  refine @StaysCalm.ite _ _ _ _ _ ?_ inferInstance
  exact @StaysCalm.bind _ _ _ _ inferInstance fun _ =>
    @StaysCalm.bind _ _ _ _ (.modify fun s => calms_mark s _) fun _ => inferInstance

instance (options : CompileOptions) (name : Option Token) (start : Nat) (expands : Bool)
    (reference : Option Nat) (content : GroupContent) :
    StaysCalm (completeGroup options name start expands reference content) := by
  unfold completeGroup
  dsimp only
  split
  · infer_instance
  · refine @StaysCalm.bind _ _ _ _ inferInstance fun id => ?_
    cases reference <;> infer_instance

instance (head : Head) : StaysCalm head.reference := by
  rw [Head.reference]
  split <;> infer_instance

/-- Whether the member of an accessor is next is forgotten behind the member. -/
lemma staysCalm_member (accessor : Bool) {step : Parser α} {next : α → Parser β} [first : StaysCalm step]
    [second : ∀ a, StaysCalm (next a)] : StaysCalm (do
      setSuppressed accessor
      let member ← step
      setSuppressed false
      next member) where
  calms {s _ _} h := by
    obtain ⟨_, _, set, h⟩ := bind_eq_ok.mp h
    cases set
    obtain ⟨member, u, hstep, h⟩ := bind_eq_ok.mp h
    obtain ⟨_, _, reset, h⟩ := bind_eq_ok.mp h
    cases reset
    have behind : ParserState.Calms { u with suppressed := false } _ := (second member).calms h
    exact ⟨behind.scope.trans (first.calms hstep).scope,
      fun _ => behind.suppressed rfl⟩

/-! ### Rounds of reading -/

section Rounds

variable {options : CompileOptions} {calls : ∀ {γ : Type}, Reading γ → Parser γ}
  [h : ∀ {γ : Type} (next : Reading γ), StaysCalm (calls next)]

instance staysCalm_atomRound (nameMode mode : Mode) (missing : Token → Cause) :
    StaysCalm (Reading.atomRound calls nameMode mode missing) := by
  refine @StaysCalm.bind _ _ _ _ inferInstance fun suppressed => ?_
  refine @StaysCalm.bind _ _ _ _ inferInstance fun group => ?_
  cases group <;> infer_instance

instance staysCalm_groupRound (nameMode : Mode) (expands : Bool) :
    StaysCalm (Reading.groupRound options calls nameMode expands) := by
  have content (opener : TokenKind) (start : Nat) :
      StaysCalm (Reading.contentRound calls opener start) := by
    unfold Reading.contentRound
    infer_instance
  refine @StaysCalm.bind _ _ _ _ inferInstance fun head => ?_
  cases head <;> infer_instance

set_option synthInstance.maxSize 1024 in
instance staysCalm_propertiesRound (start : Nat) (known : List (String × Node)) :
    StaysCalm (Reading.propertiesRound options calls start known) := by
  unfold Reading.propertiesRound
  infer_instance

instance staysCalm_elementsRound (start : Nat) (mode : Mode) (closer : TokenKind)
    (known : List Node) : StaysCalm (Reading.elementsRound calls start mode closer known) := by
  unfold Reading.elementsRound Reading.elementRound
  infer_instance

instance staysCalm_levelRound (groups : List PriorityGroup) :
    StaysCalm (Reading.levelRound calls groups) := by
  cases groups with
  | nil => exact h _
  | cons ops tighter =>
    rw [Reading.levelRound]
    split
    · infer_instance
    · infer_instance
    · refine @StaysCalm.bind _ _ _ _ inferInstance fun start => ?_
      refine @StaysCalm.bind _ _ _ _ inferInstance fun found => ?_
      cases found <;> infer_instance

instance staysCalm_binaryRound (ops : PriorityGroup) (tighter : List PriorityGroup) (left : Node) :
    StaysCalm (Reading.binaryRound calls ops tighter left) := by
  refine @StaysCalm.bind _ _ _ _ inferInstance fun found => ?_
  cases found with
  | none => infer_instance
  | some op => exact @StaysCalm.ite _ _ _ _ _ inferInstance (staysCalm_member op.accessor)

instance staysCalm_postfixesRound (ops : PriorityGroup) (inner : Node) :
    StaysCalm (Reading.postfixesRound calls ops inner) := by
  refine @StaysCalm.bind _ _ _ _ inferInstance fun found => ?_
  cases found <;> infer_instance

instance (parameter : Parameter) : StaysCalm (parameterType parameter) := by
  rw [parameterType]
  refine @StaysCalm.bind _ _ _ _ inferInstance fun token => @StaysCalm.ite _ _ _ _ _ ?_ inferInstance
  refine @StaysCalm.bind _ _ _ _ inferInstance fun _ => @StaysCalm.bind _ _ _ _ inferInstance fun type => ?_
  split <;> infer_instance

instance (closer : TokenKind) (parameter : Parameter) :
    StaysCalm (parameterSeparator closer parameter) := by
  unfold parameterSeparator
  infer_instance

instance staysCalm_parametersRound (closer : TokenKind) (known : List Parameter) (complete : Bool) :
    StaysCalm (Reading.parametersRound calls closer known complete) := by
  have fallback (parameter : Parameter) : StaysCalm (Reading.fallbackRound calls parameter) := by
    unfold Reading.fallbackRound
    infer_instance
  unfold Reading.parametersRound
  infer_instance

instance : StaysCalm clausePriority := by
  unfold clausePriority
  refine @StaysCalm.bind _ _ _ _ inferInstance fun token => @StaysCalm.ite _ _ _ _ _ inferInstance ?_
  refine @StaysCalm.bind _ _ _ _ inferInstance fun _ => @StaysCalm.bind _ _ _ _ inferInstance fun number => ?_
  split <;> infer_instance

instance staysCalm_clausesRound (known : List Clause) :
    StaysCalm (Reading.clausesRound calls known) := by
  refine @StaysCalm.bind _ _ _ _ inferInstance fun word => @StaysCalm.ite _ _ _ _ _ inferInstance ?_
  refine @StaysCalm.bind _ _ _ _ inferInstance fun priority => ?_
  cases priority <;> infer_instance

instance staysCalm_round (call : Reading α) : StaysCalm (call.round options calls) := by
  cases call with
  | value | operand => exact staysCalm_atomRound _ _ _
  | expression =>
    rw [Reading.round]
    infer_instance
  | skipGroup closer =>
    unfold Reading.round Reading.skipGroupRound
    infer_instance
  | skipToSeparator closer =>
    unfold Reading.round Reading.skipToSeparatorRound
    infer_instance
  | group => exact staysCalm_groupRound _ _
  | properties => exact staysCalm_propertiesRound _ _
  | elements => exact staysCalm_elementsRound _ _ _ _
  | level => exact staysCalm_levelRound _
  | binary => exact staysCalm_binaryRound _ _ _
  | postfixes => exact staysCalm_postfixesRound _ _
  | parameters => exact staysCalm_parametersRound _ _ _
  | clauses => exact staysCalm_clausesRound _

end Rounds

/-- **Behind whatever is read inside a statement** nothing is pending. -/
instance staysCalm_within (options : CompileOptions) (fuel : Nat) (call : Reading α) :
    StaysCalm (call.within options fuel) := by
  induction fuel generalizing α call with
  | zero =>
    rw [Reading.within_zero]
    exact .throw _
  | succ fuel ih =>
    rw [Reading.within_succ]
    exact staysCalm_round (h := ih) call

instance (options : CompileOptions) (fuel : Nat) : StaysCalm (parseValue options fuel) :=
  staysCalm_within options fuel .value

/-! ## Statements -/

instance (options : CompileOptions) (closer : TokenKind) (fuel : Nat) (parameters : List Parameter)
    (complete : Bool) : StaysCalm (parameterList options closer fuel parameters complete) :=
  staysCalm_within options fuel (.parameters closer parameters complete)

instance (fuel : Nat) (clauses : List Clause) : StaysCalm (clauseList fuel clauses) :=
  staysCalm_within {} fuel (.clauses clauses)

instance (name : Token) : StaysCalm (attachedOpener? name) := .bind

instance (options : CompileOptions) (fuel : Nat) (function : Bool) (name : Token) :
    StaysCalm (macroHead options fuel function name) := by
  refine @StaysCalm.bind _ _ _ _ inferInstance fun opener => ?_
  cases opener <;> infer_instance

/-- Behind a template the parser is where it was before. -/
instance (options : CompileOptions) (fuel : Nat) (parameters : List Parameter) :
    StaysCalm (template options fuel parameters) where
  calms {s _ _} h := by
    obtain ⟨_, _, look, h⟩ := bind_eq_ok.mp h
    cases look
    obtain ⟨_, _, begins, h⟩ := bind_eq_ok.mp h
    cases begins
    obtain ⟨node, u, value, h⟩ := bind_eq_ok.mp h
    cases h
    exact ⟨.rfl, fun rests => (StaysCalm.calms value).suppressed rests⟩

instance (definition : MacroDefinition) (offset : Nat) :
    StaysCalm (registerMacro definition offset) := by
  rw [Harmony.registerMacro_eq]
  refine @StaysCalm.bind _ _ _ _ (.framed (fun _ => rfl) fun _ => rfl) fun macro_ => ?_
  refine @StaysCalm.bind _ _ _ _ (.framed (fun _ => rfl) fun _ => rfl) fun clash => ?_
  cases clash with
  | some report => infer_instance
  | none =>
    refine @StaysCalm.bind _ _ _ _ (.framed (fun _ => rfl) fun _ => rfl) fun clash => ?_
    cases clash <;> infer_instance

instance (options : CompileOptions) (fuel : Nat) (name : Token) (signature : Signature)
    (parameters : List Parameter) (checked : Except Report (List Parameter)) :
    StaysCalm (macroTemplate options fuel name signature parameters checked) := by
  refine .look fun s => @StaysCalm.bind _ _ _ _ inferInstance fun found => ?_
  obtain ⟨node, scope⟩ := found
  cases checked with
  | error report => infer_instance
  | ok parameters =>
    cases scope with
    | none => infer_instance
    | some scope =>
      refine .look fun s => @StaysCalm.ite _ _ _ _ _ inferInstance ?_
      split <;> infer_instance

instance (options : CompileOptions) (fuel : Nat) (name : Token) (signature : Signature)
    (parameters : List Parameter) : StaysCalm (macroBody options fuel name signature parameters) := by
  rw [macroBody_eq]
  split <;> infer_instance

instance (options : CompileOptions) (fuel : Nat) (function : Bool) :
    StaysCalm (macroStatement options fuel function) := by
  refine @StaysCalm.bind _ _ _ _ inferInstance fun word => ?_
  refine @StaysCalm.bind _ _ _ _ inferInstance fun name => @StaysCalm.ite _ _ _ _ _ inferInstance ?_
  refine @StaysCalm.bind _ _ _ _ inferInstance fun found => ?_
  cases found with
  | none => exact inferInstanceAs (StaysCalm (recover none))
  | some found => exact @StaysCalm.bind _ _ _ _ inferInstance fun colon => inferInstance

instance (op : OperatorDefinition) (options : CompileOptions) (offset : Nat) :
    StaysCalm (registerOperator options op offset) := by
  rw [Harmony.registerOperator_eq]
  refine @StaysCalm.bind _ _ _ _ (.framed (fun _ => rfl) fun _ => rfl) fun clash => ?_
  cases clash with
  | some conflict => infer_instance
  | none =>
    refine @StaysCalm.bind _ _ _ _ (.framed (fun _ => rfl) fun _ => rfl) fun clash => ?_
    cases clash <;> infer_instance

instance : StaysCalm operatorAlias := by
  unfold operatorAlias
  infer_instance

instance (options : CompileOptions) (fuel : Nat) (keyword : Bool) :
    StaysCalm (operatorStatement options fuel keyword) := by
  refine @StaysCalm.bind _ _ _ _ inferInstance fun word => ?_
  refine @StaysCalm.bind _ _ _ _ inferInstance fun symbol => @StaysCalm.ite _ _ _ _ _ inferInstance ?_
  refine @StaysCalm.bind _ _ _ _ inferInstance fun asWord => @StaysCalm.ite _ _ _ _ _ inferInstance ?_
  refine @StaysCalm.bind _ _ _ _ inferInstance fun clauses => ?_
  cases clauses with
  | none => infer_instance
  | some clauses =>
    refine @StaysCalm.bind _ _ _ _ inferInstance fun aliasName => ?_
    cases aliasName with
    | none => infer_instance
    | some aliasName =>
      dsimp only
      split <;> infer_instance

instance (name : Token) : StaysCalm (emptyShape name) := by
  refine @StaysCalm.bind _ _ _ _ inferInstance fun opener => ?_
  cases opener <;> infer_instance

instance : StaysCalm importPath? := by
  unfold importPath?
  infer_instance

instance : StaysCalm publicMark := by
  unfold publicMark
  infer_instance

instance (resolver : Resolver) (path : String) : StaysCalm (resolveImport resolver path) where
  calms {s a t} h := by
    rw [Harmony.resolveImport_eq] at h
    cases answer : resolver path s.imports with
    | ok _ _ =>
      rw [answer] at h
      cases h
      exact ⟨.rfl, id⟩
    | error _ _ =>
      rw [answer] at h
      cases h

instance (definitions : Definitions) : StaysCalm (importVisible definitions) :=
  .framed (fun _ => rfl) fun _ => rfl

instance (definitions : Definitions) : StaysCalm (importExported definitions) :=
  .framed (fun _ => rfl) fun _ => rfl

instance (definitions : Definitions) : StaysCalm (removeImported definitions) :=
  .framed (fun _ => rfl) fun _ => rfl

instance (name : String) (kinds : List MacroKind) : StaysCalm (removeMacros name kinds) :=
  .framed (fun _ => rfl) fun _ => rfl

instance (name : String) (keyword : Bool) : StaysCalm (removeOperators name keyword) :=
  .framed (fun _ => rfl) fun _ => rfl

instance (removed offset : Nat) (cause : Cause) : StaysCalm (warnIfNone removed offset cause) := by
  unfold warnIfNone
  infer_instance

instance (resolver : Resolver) : StaysCalm (useStatement resolver) := by
  refine @StaysCalm.bind _ _ _ _ inferInstance fun _ => ?_
  refine @StaysCalm.bind _ _ _ _ inferInstance fun isPublic => ?_
  refine @StaysCalm.bind _ _ _ _ inferInstance fun found => ?_
  match found with
  | none => infer_instance
  | some (path, offset) =>
    refine @StaysCalm.bind _ _ _ _ inferInstance fun answer => ?_
    cases answer <;> cases isPublic <;> infer_instance

instance (resolver : Resolver) : StaysCalm (undefineImport resolver) := by
  refine @StaysCalm.bind _ _ _ _ inferInstance fun found => ?_
  match found with
  | none => infer_instance
  | some (path, offset) =>
    refine @StaysCalm.bind _ _ _ _ inferInstance fun answer => ?_
    cases answer <;> infer_instance

instance (function : Bool) : StaysCalm (undefineMacro function) := by
  refine @StaysCalm.bind _ _ _ _ inferInstance fun name => @StaysCalm.ite _ _ _ _ _ inferInstance ?_
  refine @StaysCalm.bind _ _ _ _ inferInstance fun shape => ?_
  cases shape with
  | none => infer_instance
  | some shape => exact @StaysCalm.bind _ _ _ _ inferInstance fun _ => inferInstance

instance (word : String) (keyword : Bool) : StaysCalm (undefineOperator word keyword) := by
  unfold undefineOperator
  infer_instance

instance (resolver : Resolver) : StaysCalm (undefineStatement resolver) := by
  refine @StaysCalm.bind _ _ _ _ inferInstance fun _ => ?_
  refine @StaysCalm.bind _ _ _ _ inferInstance fun what => ?_
  split <;> infer_instance

/-- **Behind a definition statement** nothing is pending. -/
instance (options : CompileOptions) (resolver : Resolver) (fuel : Nat) (opening : StatementKeyword) :
    StaysCalm (definitionStatement options resolver fuel opening) := by
  cases opening <;> unfold definitionStatement <;> infer_instance

instance (token : Token) : StaysCalm (statementKeyword? token) := by
  unfold statementKeyword?
  split <;> infer_instance

instance : StaysCalm valueFuel := by
  unfold valueFuel
  infer_instance

instance (options : CompileOptions) (resolver : Resolver) (token : Token) :
    StaysCalm (parseStatement options resolver token) := by
  refine @StaysCalm.bind _ _ _ _ inferInstance fun fuel => ?_
  refine @StaysCalm.bind _ _ _ _ inferInstance fun opening => ?_
  cases opening <;> infer_instance

end Parser

/-! ## Between two statements -/

/-- **Nothing is pending**: no template is being read and no group, no member is next, and no invocation
is nested in another one. -/
structure ParserState.Resting (s : ParserState) : Prop where
  scope : s.scope = none
  depth : s.depth = 0
  suppressed : s.suppressed = false
  awaited : s.awaited = []
  attends : s.recovering = false

namespace ParserState.Resting

open TreeLang.Parser

variable {s t : ParserState}

lemma outside (resting : s.Resting) (settled : s.Settled) : Outside s :=
  ⟨⟨settled, resting.attends, by rw [resting.depth]; exact Nat.zero_le _⟩, resting.awaited⟩

lemma moved (resting : s.Resting) (moves : Moves s t) : t.Resting :=
  ⟨moves.scope.trans resting.scope, moves.depth.trans resting.depth,
    moves.suppressed.trans resting.suppressed, moves.awaited.trans resting.awaited,
    moves.recovering.trans resting.attends⟩

end ParserState.Resting

namespace Parser

variable {s t : ParserState} {options : CompileOptions} {resolver : Resolver}

lemma resting_initial (source : Source) (imports : ImportState) :
    (initial options source imports).Resting :=
  ⟨rfl, rfl, rfl, rfl, rfl⟩

/-- A statement is read from behind a look at its first token. -/
lemma moves_of_peek (settled : s.Settled) {token : Token} (looked : peek true .word s = .ok token t) :
    token = (t.reads true .word).token ∧ t.Settled ∧ Moves s t ∧ t.here = s.here := by
  obtain ⟨_, _, peeked, settled, rfl, moves, stays, -⟩ := ends_peek settled true .word
  obtain ⟨rfl, rfl⟩ := ok_unique looked peeked
  refine ⟨?_, settled, moves, stays⟩
  rw [ParserState.reads, ParserState.reads, moves.lexis, stays]

/-- Behind a statement nothing is pending. -/
lemma ends_parseStatement_resting (settled : s.Settled) (resting : s.Resting) {value : Option Node}
    (h : parseStatement options resolver (s.reads true .word).token s = .ok value t) :
    t.Settled ∧ t.Resting := by
  have advances : Advances (parseStatement options resolver (s.reads true .word).token) _ s :=
    advances_parseStatement (resting.outside settled).toBetween
  have outcome := advances.2
  rw [h] at outcome
  obtain ⟨settled, advanced⟩ := outcome
  have calms : s.Calms t := StaysCalm.calms h
  exact ⟨settled, calms.scope.mpr resting.scope, advanced.depth.trans resting.depth,
    calms.suppressed resting.suppressed, advanced.awaited.trans resting.awaited,
    advanced.recovering.trans resting.attends⟩

/-- Behind a fault neither is. -/
lemma ends_isolate_resting (offset : Nat) (fault : Fault) :
    Ends (isolate offset fault) s fun _ t => t.Resting ∧ t.tokens.policy = s.tokens.policy ∧
      s.here.Onward t.here ∧
      ((s.reads false .word).token.kind ≠ .endOfInput → t.here.rest.length < s.here.rest.length) := by
  set fresh : ParserState := { s with
    scope := none, depth := 0, recovering := false, suppressed := false, awaited := []
    tokens := s.tokens.forget }
  have settled : fresh.Settled := ⟨rfl, trivial⟩
  have resting : fresh.Resting := ⟨rfl, rfl, rfl, rfl, rfl⟩
  obtain ⟨_, t, left, settled, moves, past⟩ :=
    ends_giveUp_past settled rfl offset (.fault fault.detail)
  exact ⟨(), t, left, settled, resting.moved moves, moves.policy, moves.onward,
    fun more => past (Outside.going rfl more)⟩

/-- **A round leaves nothing pending**, and what follows is further on. -/
theorem ends_sourceRound_resting (settled : s.Settled) (resting : s.Resting) (values : List Node) :
    Ends (sourceRound options resolver pure values) s fun _ t => t.Resting ∧
      t.tokens.policy = s.tokens.policy ∧ ((s.reads true .word).token.kind ≠ .endOfInput → t.here.rest.length < s.here.rest.length) := by
  refine (ends_peek settled true .word).bind fun token t settled looked => ?_
  obtain ⟨rfl, moves, here, -⟩ := looked
  have same : t.reads true .word = s.reads true .word := by
    rw [ParserState.reads, moves.lexis, here]
  have resting := resting.moved moves
  split
  · rename_i ended
    refine ⟨values.reverse, t.flush, ?_, ⟨settled.handed, settled.coherent⟩, ⟨resting.scope,
      resting.depth, resting.suppressed, resting.awaited, resting.attends⟩, moves.policy,
      fun more => absurd ended more⟩
    rw [bind_ok (noteLexical_eq t)]
    rfl
  rename_i more
  have skips (cause : Option Cause) : Ends (skipToken true .word >>= fun _ =>
      cause.elim (pure values) fun cause =>
        complain (s.reads true .word).token.start cause >>= fun _ => pure values)
      t fun _ u => u.Resting ∧ u.tokens.policy = s.tokens.policy ∧ ((s.reads true .word).token.kind ≠ .endOfInput → u.here.rest.length < s.here.rest.length) := by
    refine (ends_skipToken settled true .word).bind fun _ u settled skipped => ?_
    obtain ⟨skipped, place, -⟩ := skipped
    have shorter : u.here.rest.length < s.here.rest.length := by
      rw [place, same]
      exact s.reads_shortens more
    cases cause with
    | none =>
      exact .pure settled ⟨resting.moved skipped, skipped.policy.trans moves.policy, fun _ => shorter⟩
    | some cause =>
      exact (ends_complain settled _ cause).bind fun _ v settled noted =>
        .pure settled ⟨(resting.moved skipped).moved noted.1,
          noted.1.policy.trans (skipped.policy.trans moves.policy), fun _ => Nat.lt_of_le_of_lt noted.1.onward.le shorter⟩
  split
  · exact skips (some .redundantComma)
  split
  · exact skips none
  split
  · exact skips (some (.unexpectedCloser _))
  have statement : Advances (parseStatement options resolver (t.reads true .word).token) _ t :=
    advances_parseStatement (resting.outside settled).toBetween
  have outcome := statement.2
  have ahead : (t.reads true .word).token.kind ≠ .endOfInput := by rwa [same]
  rw [← here, ← same]
  cases hstep : parseStatement options resolver (t.reads true .word).token t with
  | ok value u =>
    rw [hstep] at outcome
    obtain ⟨-, advanced⟩ := outcome
    have tried : attempt (parseStatement options resolver (t.reads true .word).token) t
        = .ok (.ok value) u := by simp only [attempt, hstep]
    obtain ⟨settled, resting⟩ := ends_parseStatement_resting settled resting hstep
    obtain ⟨_, v, left, settled, ended, past⟩ := ends_endStatement (resting.outside settled)
    refine ⟨_, v, by rw [bind_ok tried]; exact bind_ok left, settled, resting.moved ended,
      ended.policy.trans (advanced.policy.trans moves.policy), fun _ => ?_⟩
    rcases advanced.onward with stays | shorter
    · rw [← stays]
      exact past (more_of_stays advanced.policy stays ahead)
    · exact Nat.lt_of_le_of_lt ended.onward.le shorter
  | error fault u =>
    rw [hstep] at outcome
    have tried : attempt (parseStatement options resolver (t.reads true .word).token) t
        = .ok (.error fault) u := by simp only [attempt, hstep]
    obtain ⟨_, v, left, settled, resting, policy, onward, past⟩ := ends_isolate_resting (s := u) _ fault
    refine ⟨_, v, by rw [bind_ok tried]; exact bind_ok left, settled, resting,
      policy.trans (outcome.policy.trans moves.policy), fun _ => ?_⟩
    rcases outcome.onward with stays | shorter
    · rw [← stays]
      exact past (more_of_stays outcome.policy stays ahead)
    · exact Nat.lt_of_le_of_lt onward.le shorter

/-- **Between two statements nothing is pending**, whatever they were. -/
theorem resting_of_reaches (settled : s.Settled) (resting : s.Resting)
    (reaches : Reaches options resolver s t) : t.Settled ∧ t.Resting := by
  induction reaches with
  | here => exact ⟨settled, resting⟩
  | round more run others ih =>
    obtain ⟨_, _, round, settled, resting, -⟩ := ends_sourceRound_resting settled resting _
    obtain ⟨rfl, rfl⟩ := ok_unique round run
    exact ih settled resting

/-- Escapes are judged alike throughout a source. -/
lemma policy_of_reaches (settled : s.Settled) (resting : s.Resting)
    (reaches : Reaches options resolver s t) : t.tokens.policy = s.tokens.policy := by
  induction reaches with
  | here => rfl
  | round more run others ih =>
    obtain ⟨_, _, round, settled, resting, policy, -⟩ := ends_sourceRound_resting settled resting _
    obtain ⟨rfl, rfl⟩ := ok_unique round run
    exact (ih settled resting).trans policy

end Parser

end TreeLang
