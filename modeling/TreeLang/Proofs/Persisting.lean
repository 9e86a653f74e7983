import TreeLang.Proofs.Compiling

/-!
# What was reported stays reported

A report is never taken back.  Once a source has a report, or once something was wrong with a token
whose report still waits to be recorded, nothing that is read later makes the source one without a
report.  So where a source compiles without a report, nothing was wrong at any time.

* `ParserState.Loud` — something was reported, or is about to be.
* **`Parser.StaysLoud`** — a step after which what was reported before still is.
-/

namespace TreeLang

/-- **Something was reported, or is about to be.**  What was wrong with a token waits until the token
is taken; it is not reported then if tokens are being skipped. -/
def ParserState.Loud (s : ParserState) : Prop :=
  s.reports ≠ #[] ∨ (s.recovering = false ∧ s.tokens.reports ≠ [])

namespace Parser

variable {α β γ : Type} {s t : ParserState}

/-- **A step after which what was reported before still is.** -/
class StaysLoud (step : Parser α) : Prop where
  loud : ∀ {s a t}, step s = .ok a t → s.Loud → t.Loud

namespace StaysLoud

instance pure (a : α) : StaysLoud (Pure.pure a : Parser α) where
  loud h loud := by
    cases h
    exact loud

instance throw (fault : Fault) : StaysLoud (MonadExcept.throw fault : Parser α) where
  loud h := by cases h

instance bind {step : Parser α} {next : α → Parser β} [first : StaysLoud step]
    [second : ∀ a, StaysLoud (next a)] : StaysLoud (step >>= next) where
  loud h loud := by
    obtain ⟨a, u, hstep, hnext⟩ := bind_eq_ok.mp h
    exact (second a).loud hnext (first.loud hstep loud)

instance ite {condition : Prop} [Decidable condition] {yes no : Parser α} [StaysLoud yes]
    [StaysLoud no] : StaysLoud (if condition then yes else no) := by
  split <;> infer_instance

instance get : StaysLoud (MonadState.get : Parser ParserState) where
  loud h loud := by
    cases h
    exact loud

lemma look {next : ParserState → Parser β} [h : ∀ s, StaysLoud (next s)] :
    StaysLoud (MonadState.get >>= next) :=
  ⟨fun hnext loud => (h _).loud hnext loud⟩

/-- A step that changes a state apart from its reports. -/
lemma modifyGet {change : ParserState → α × ParserState}
    (h : ∀ s : ParserState, s.Loud → (change s).2.Loud) :
    StaysLoud (MonadStateOf.modifyGet change : Parser α) where
  loud {s _ _} hstep loud := by
    cases hstep
    exact h s loud

lemma modify {change : ParserState → ParserState} (h : ∀ s : ParserState, s.Loud → (change s).Loud) :
    StaysLoud (modify change : Parser Unit) :=
  modifyGet h

instance forM {items : List γ} {step : γ → Parser PUnit} [∀ item, StaysLoud (step item)] :
    StaysLoud (items.forM step) := by
  induction items with
  | nil => exact pure _
  | cons item rest ih => exact @bind _ _ (step item) (fun _ => rest.forM step) _ _

lemma foldlM {step : α → γ → Parser α} (h : ∀ value item, StaysLoud (step value item))
    (items : List γ) (value : α) : StaysLoud (items.foldlM step value) := by
  induction items generalizing value with
  | nil => exact pure _
  | cons item rest ih => exact @bind _ _ (step value item) (rest.foldlM step) _ _

end StaysLoud

/-! ## Tokens and reports -/

/-- Reports are nowhere empty where some of them are not. -/
lemma append_ne_empty {told : Array Report} {more : List Report} (some : told ≠ #[] ∨ more ≠ []) :
    told ++ more ≠ #[] := by
  intro empty
  have both : told.toList ++ more = [] := by simpa using congrArg Array.toList empty
  obtain ⟨first, second⟩ := List.append_eq_nil_iff.mp both
  exact some.elim (fun h => h (Array.toList_eq_nil_iff.mp first)) fun h => h second

instance staysLoud_note (report : Report) : StaysLoud (note report) where
  loud {s _ _} h loud := by
    rw [note_eq] at h
    cases h
    split
    · exact loud
    · exact .inl (by simp)

instance (offset : Nat) (cause : Cause) : StaysLoud (complain offset cause) :=
  staysLoud_note _

lemma loud_flush (loud : s.Loud) : s.flush.reports ≠ #[] := by
  rcases loud with told | ⟨attends, waits⟩
  · simp only [ParserState.flush]
    split
    · exact told
    · exact append_ne_empty (.inl told)
  · simp only [ParserState.flush, attends, Bool.false_eq_true, if_false]
    exact append_ne_empty (.inr waits)

lemma reports_prefix_absorb (tokens : TokenStream) (reports : List Report) :
    tokens.reports <+: (tokens.absorb reports).reports := by
  induction reports generalizing tokens with
  | nil => exact List.prefix_refl _
  | cons r rest ih =>
    refine List.IsPrefix.trans ?_ (ih (tokens.report r))
    simp only [TokenStream.report]
    split
    · exact List.prefix_refl _
    · exact List.prefix_append _ _

lemma reports_prefix_next (tokens : TokenStream) (operators : OperatorRegistry) (skipBreaks : Bool)
    (mode : Mode) : tokens.reports <+: (tokens.next operators skipBreaks mode).2.reports := by
  rw [TokenStream.next]
  split
  · exact reports_prefix_absorb { tokens with handed := _, ahead := [] } _
  · split
    · exact List.prefix_refl _
    · exact reports_prefix_absorb { tokens with handed := _, ahead := [] } _

instance (skipBreaks : Bool) (mode : Mode) : StaysLoud (lookAhead skipBreaks mode) :=
  .modifyGet fun s loud => loud.imp id fun ⟨attends, waits⟩ => ⟨attends, fun empty => waits <|
    List.prefix_nil.mp (empty ▸ reports_prefix_next s.tokens s.visible.operators skipBreaks mode)⟩

instance : StaysLoud rewind := .modify fun _ loud => loud

instance : StaysLoud forget := .modify fun _ loud => loud

instance : StaysLoud commit where
  loud {s _ _} h loud := by
    rw [commit_eq] at h
    cases h
    exact .inl (loud_flush (s := { s with tokens := s.tokens.commit }) loud)

instance : StaysLoud noteLexical where
  loud {s _ _} h loud := by
    rw [noteLexical_eq] at h
    cases h
    exact .inl (loud_flush loud)

instance (skipBreaks : Bool) (mode : Mode) : StaysLoud (peek skipBreaks mode) :=
  .bind

instance (skipBreaks : Bool) (mode : Mode) : StaysLoud (advance skipBreaks mode) :=
  .bind

instance (skipBreaks : Bool) (mode : Mode) : StaysLoud (skipToken skipBreaks mode) :=
  .bind

instance : StaysLoud position := .bind

instance : StaysLoud remaining := .bind

instance : StaysLoud freshId := .modifyGet fun _ loud => loud

instance (offset : Nat) : StaysLoud (placeholderAt offset) := .bind

instance (word : String) : StaysLoud (parameterIndex? word) := .bind

instance (id : Nat) (reference : Reference) : StaysLoud (markReference id reference) :=
  .modify fun _ loud => loud

instance : StaysLoud takeSuppressed := .modifyGet fun _ loud => loud

instance (suppressed : Bool) : StaysLoud (setSuppressed suppressed) := .modify fun _ loud => loud

instance (closer : TokenKind) : StaysLoud (await closer) := .modify fun _ loud => loud

instance : StaysLoud settle := .modify fun _ loud => loud

instance (kind : TokenKind) : StaysLoud (closesAwaited kind) := .bind

/-! ## Recovery

Tokens are skipped after a report, and a report is in no danger then.
-/

/-- A step that does not look at reports keeps them. -/
lemma Blind.keeps_reports {step : Parser α} (blind : Blind step) {a : α} (h : step s = .ok a t)
    (told : s.reports ≠ #[]) : t.reports ≠ #[] := by
  rw [blind.apply s] at h
  match bare : step s.bare with
  | .error _ _ =>
    rw [bare] at h
    cases h
  | .ok _ u =>
    rw [bare] at h
    cases h
    show s.reports ++ u.reports ≠ #[]
    exact fun empty => told (Array.append_eq_empty_iff.mp empty).1

/-- What is skipped after a report does not take it back. -/
instance complain_recover (offset : Nat) (cause : Cause) (closer : Option TokenKind)
    {next : Unit → Parser β} [h : ∀ a, StaysLoud (next a)] :
    StaysLoud (complain offset cause >>= fun _ => recover closer >>= next) where
  loud {s _ _} hstep loud := by
    obtain ⟨_, u, hnote, hstep⟩ := bind_eq_ok.mp hstep
    obtain ⟨_, v, hskip, hnext⟩ := bind_eq_ok.mp hstep
    refine (h _).loud hnext (.inl ((blind_recover closer).keeps_reports hskip ?_))
    have noted := note_eq (Report.errorAt offset cause) s
    rw [show note (Report.errorAt offset cause) s = .ok () u from hnote] at noted
    cases noted
    split
    · rename_i skipping
      exact loud.resolve_right fun waits => by simp [skipping] at waits
    · simp

instance (offset : Nat) (cause : Cause) : StaysLoud (giveUp offset cause) := by
  rw [giveUp, ← bind_pure (recover none)]
  infer_instance

/-! ## Expanding invocations -/

instance (offset : Nat) (report : Report) : StaysLoud (refuse offset report) := .bind

lemma staysLoud_expandDeferred {expandOne : Node → MacroKind → Parser Node}
    (h : ∀ node kind, StaysLoud (expandOne node kind)) (span : Span) (tree : Node)
    (waiting : List DeferredInvocation) : StaysLoud (expandDeferred expandOne span tree waiting) := by
  refine .foldlM (fun tree invocation => ?_) waiting tree
  split <;> infer_instance

instance {step : Parser α} [StaysLoud step] : StaysLoud (nested step) :=
  @StaysLoud.bind _ _ _ _ (.modify fun _ loud => loud) fun _ =>
    @StaysLoud.bind _ _ _ _ inferInstance fun _ =>
      @StaysLoud.bind _ _ _ _ (.modify fun _ loud => loud) fun _ => inferInstance

lemma staysLoud_useMacro {expandOne : Node → MacroKind → Parser Node}
    (h : ∀ node kind, StaysLoud (expandOne node kind)) (definition : MacroDefinition) (node : Node) :
    StaysLoud (useMacro expandOne definition node) := by
  have deferred := staysLoud_expandDeferred h
  rw [useMacro]
  refine @StaysLoud.look _ _ fun s => ?_
  refine @StaysLoud.ite _ _ _ _ _ inferInstance ?_
  dsimp only
  split
  · infer_instance
  · infer_instance
  · infer_instance

instance (levels : Nat) (node : Node) (kind : MacroKind) :
    StaysLoud (invokeWithin levels node kind) := by
  induction levels generalizing node kind with
  | zero => exact .throw _
  | succ levels ih =>
    have used := staysLoud_useMacro ih
    rw [invokeWithin]
    refine @StaysLoud.look _ _ fun s => ?_
    split <;> infer_instance

instance (node : Node) (kind : MacroKind) : StaysLoud (invoke node kind) := .bind

instance (node : Node) (kind : MacroKind) : StaysLoud (expand node kind) := by
  rw [expand]
  refine @StaysLoud.look _ _ fun s => ?_
  split
  · refine @StaysLoud.ite _ _ _ _ _ ?_ inferInstance
    exact @StaysLoud.bind _ _ _ _ (.modify fun _ loud => loud) fun _ => inferInstance
  · infer_instance

/-! ## Values -/

instance (token : Token) (expands : Bool) : StaysLoud (primitive token expands) := by
  refine @StaysLoud.bind _ _ _ _ inferInstance fun id => @StaysLoud.ite _ _ _ _ _ inferInstance ?_
  refine @StaysLoud.bind _ _ _ _ inferInstance fun found => ?_
  cases found <;> infer_instance

instance (op : OperatorDefinition) (operands : List Node) (span : Span) :
    StaysLoud (operatorNode op operands span) := .bind

instance (op : OperatorDefinition) (receiver member : Node) (span : Span) :
    StaysLoud (accessorCall op receiver member span) := by
  unfold accessorCall
  refine @StaysLoud.look _ _ fun s => ?_
  refine @StaysLoud.bind _ _ _ _ (.modify fun _ loud => loud) fun _ => ?_
  refine @StaysLoud.bind _ _ _ _ inferInstance fun id => ?_
  dsimp only
  cases s.scope.bind fun scope => scope.references.find? member.id <;> infer_instance

instance (op : OperatorDefinition) (left right : Node) : StaysLoud (binaryNode op left right) := by
  rw [binaryNode]
  infer_instance

instance (nameMode : Mode) : StaysLoud (groupHead? nameMode) := by
  rw [groupHead?]
  infer_instance

instance (group : PriorityGroup) (skipBreaks : Bool) : StaysLoud (operatorOf? group skipBreaks) := by
  refine @StaysLoud.bind _ _ _ _ inferInstance fun token => ?_
  split
  · split <;> infer_instance
  · infer_instance

instance separator_loud (mode : Mode) (closer : TokenKind) : StaysLoud (separator mode closer) := by
  rw [separator]
  refine @StaysLoud.bind _ _ _ _ inferInstance fun token => ?_
  refine @StaysLoud.ite _ _ _ _ _ inferInstance ?_
  rw [← bind_pure (recover (some closer))]
  infer_instance

instance (options : CompileOptions) (key : Token) (value : Node)
    (properties : List (String × Node)) : StaysLoud (addProperty options key value properties) := by
  rw [addProperty]
  refine @StaysLoud.ite _ _ _ _ _ ?_ inferInstance
  exact @StaysLoud.bind _ _ _ _ inferInstance fun _ =>
    @StaysLoud.bind _ _ _ _ (.modify fun _ loud => loud) fun _ => inferInstance

instance (options : CompileOptions) (name : Option Token) (start : Nat) (expands : Bool)
    (reference : Option Nat) (content : GroupContent) :
    StaysLoud (completeGroup options name start expands reference content) := by
  unfold completeGroup
  dsimp only
  split
  · infer_instance
  · refine @StaysLoud.bind _ _ _ _ inferInstance fun id => ?_
    cases reference <;> infer_instance

instance (head : Head) : StaysLoud head.reference := by
  rw [Head.reference]
  split <;> infer_instance

/-! ## Rounds of reading -/

section Rounds

variable {options : CompileOptions} {calls : ∀ {γ : Type}, Reading γ → Parser γ}
  [h : ∀ {γ : Type} (next : Reading γ), StaysLoud (calls next)]

instance staysLoud_atomRound (nameMode mode : Mode) (missing : Token → Cause) :
    StaysLoud (Reading.atomRound calls nameMode mode missing) := by
  refine @StaysLoud.bind _ _ _ _ inferInstance fun suppressed => ?_
  refine @StaysLoud.bind _ _ _ _ inferInstance fun group => ?_
  cases group <;> infer_instance

instance staysLoud_contentRound (opener : TokenKind) (start : Nat) :
    StaysLoud (Reading.contentRound calls opener start) := by
  unfold Reading.contentRound
  infer_instance

instance staysLoud_groupRound (nameMode : Mode) (expands : Bool) :
    StaysLoud (Reading.groupRound options calls nameMode expands) := by
  refine @StaysLoud.bind _ _ _ _ inferInstance fun head => ?_
  cases head <;> infer_instance

set_option synthInstance.maxSize 1024 in
instance staysLoud_propertiesRound (start : Nat) (known : List (String × Node)) :
    StaysLoud (Reading.propertiesRound options calls start known) := by
  unfold Reading.propertiesRound
  infer_instance

instance staysLoud_elementsRound (start : Nat) (mode : Mode) (closer : TokenKind)
    (known : List Node) : StaysLoud (Reading.elementsRound calls start mode closer known) := by
  unfold Reading.elementsRound Reading.elementRound
  infer_instance

instance staysLoud_levelRound (groups : List PriorityGroup) :
    StaysLoud (Reading.levelRound calls groups) := by
  cases groups with
  | nil => exact h _
  | cons ops tighter =>
    rw [Reading.levelRound]
    split
    · infer_instance
    · infer_instance
    · refine @StaysLoud.bind _ _ _ _ inferInstance fun start => ?_
      refine @StaysLoud.bind _ _ _ _ inferInstance fun found => ?_
      cases found <;> infer_instance

instance staysLoud_binaryRound (ops : PriorityGroup) (tighter : List PriorityGroup) (left : Node) :
    StaysLoud (Reading.binaryRound calls ops tighter left) := by
  refine @StaysLoud.bind _ _ _ _ inferInstance fun found => ?_
  cases found <;> infer_instance

instance staysLoud_postfixesRound (ops : PriorityGroup) (inner : Node) :
    StaysLoud (Reading.postfixesRound calls ops inner) := by
  refine @StaysLoud.bind _ _ _ _ inferInstance fun found => ?_
  cases found <;> infer_instance

instance (parameter : Parameter) : StaysLoud (parameterType parameter) := by
  rw [parameterType]
  refine @StaysLoud.bind _ _ _ _ inferInstance fun token => ?_
  refine @StaysLoud.ite _ _ _ _ _ ?_ inferInstance
  refine @StaysLoud.bind _ _ _ _ inferInstance fun _ => ?_
  refine @StaysLoud.bind _ _ _ _ inferInstance fun type => ?_
  split <;> infer_instance

instance (closer : TokenKind) (parameter : Parameter) :
    StaysLoud (parameterSeparator closer parameter) := by
  unfold parameterSeparator
  infer_instance

instance staysLoud_parametersRound (closer : TokenKind) (known : List Parameter) (complete : Bool) :
    StaysLoud (Reading.parametersRound calls closer known complete) := by
  have fallback (parameter : Parameter) : StaysLoud (Reading.fallbackRound calls parameter) := by
    unfold Reading.fallbackRound
    infer_instance
  unfold Reading.parametersRound
  refine @StaysLoud.bind _ _ _ _ inferInstance fun token => ?_
  refine @StaysLoud.ite _ _ _ _ _ inferInstance ?_
  refine @StaysLoud.bind _ _ _ _ inferInstance fun closes => ?_
  refine @StaysLoud.ite _ _ _ _ _ inferInstance ?_
  refine @StaysLoud.ite _ _ _ _ _ inferInstance ?_
  refine @StaysLoud.ite _ _ _ _ _ ?_ inferInstance
  refine @StaysLoud.bind _ _ _ _ inferInstance fun _ => ?_
  exact @StaysLoud.bind _ _ _ _ inferInstance fun _ => inferInstance

instance : StaysLoud clausePriority := by
  unfold clausePriority
  refine @StaysLoud.bind _ _ _ _ inferInstance fun token => ?_
  refine @StaysLoud.ite _ _ _ _ _ inferInstance ?_
  refine @StaysLoud.bind _ _ _ _ inferInstance fun _ => ?_
  refine @StaysLoud.bind _ _ _ _ inferInstance fun number => ?_
  split <;> infer_instance

instance staysLoud_clausesRound (known : List Clause) :
    StaysLoud (Reading.clausesRound calls known) := by
  refine @StaysLoud.bind _ _ _ _ inferInstance fun word => ?_
  refine @StaysLoud.ite _ _ _ _ _ inferInstance ?_
  refine @StaysLoud.bind _ _ _ _ inferInstance fun priority => ?_
  cases priority <;> infer_instance

instance staysLoud_round (call : Reading α) : StaysLoud (call.round options calls) := by
  cases call with
  | value | operand => exact staysLoud_atomRound _ _ _
  | expression =>
    rw [Reading.round]
    infer_instance
  | skipGroup closer =>
    unfold Reading.round Reading.skipGroupRound
    infer_instance
  | skipToSeparator closer =>
    unfold Reading.round Reading.skipToSeparatorRound
    infer_instance
  | group => exact staysLoud_groupRound _ _
  | properties => exact staysLoud_propertiesRound _ _
  | elements => exact staysLoud_elementsRound _ _ _ _
  | level => exact staysLoud_levelRound _
  | binary => exact staysLoud_binaryRound _ _ _
  | postfixes => exact staysLoud_postfixesRound _ _
  | parameters => exact staysLoud_parametersRound _ _ _
  | clauses => exact staysLoud_clausesRound _

end Rounds

/-- **Whatever is read inside a statement**, what was reported before still is. -/
instance staysLoud_within (options : CompileOptions) (fuel : Nat) (call : Reading α) :
    StaysLoud (call.within options fuel) := by
  induction fuel generalizing α call with
  | zero =>
    rw [Reading.within_zero]
    exact .throw _
  | succ fuel ih =>
    rw [Reading.within_succ]
    exact staysLoud_round (h := ih) call

instance (options : CompileOptions) (fuel : Nat) : StaysLoud (parseValue options fuel) :=
  staysLoud_within options fuel .value

/-! ## Definition statements -/

instance (options : CompileOptions) (closer : TokenKind) (fuel : Nat) (parameters : List Parameter)
    (complete : Bool) : StaysLoud (parameterList options closer fuel parameters complete) :=
  staysLoud_within options fuel (.parameters closer parameters complete)

instance (fuel : Nat) (clauses : List Clause) : StaysLoud (clauseList fuel clauses) :=
  staysLoud_within {} fuel (.clauses clauses)

instance (name : Token) : StaysLoud (attachedOpener? name) := .bind

/-! ### Mistaken parameters

A list of parameters that cannot be used answers nothing, and then what is wrong with it was reported. -/

/-- **A step whose value has a property**, unless something was reported. -/
structure Reports (step : Parser α) (property : α → Prop) : Prop where
  blind : Blind step
  told : ∀ {s a t}, s.recovering = false → step s = .ok a t → t.reports ≠ #[] ∨ property a

namespace Reports

variable {property : α → Prop} {result : β → Prop}

lemma pure {a : α} (h : property a) : Reports (Pure.pure a) property :=
  ⟨.pure a, fun _ same => by
    cases same
    exact .inr h⟩

/-- Behind a step that reports what is wrong with its value. -/
lemma bind {step : Parser α} {next : α → Parser β} (first : Reports step property)
    (blind : ∀ a, Blind (next a)) (second : ∀ a, property a → Reports (next a) result) :
    Reports (step >>= next) result := by
  refine ⟨first.blind.bind blind, fun attends h => ?_⟩
  obtain ⟨a, u, hstep, hnext⟩ := bind_eq_ok.mp h
  rcases first.told attends hstep with told | has
  · exact .inl ((blind a).keeps_reports hnext told)
  · exact (second a has).told (first.blind.attends hstep attends) hnext

lemma after {step : Parser α} {next : α → Parser β} (blind : Blind step)
    (second : ∀ a, Reports (next a) result) : Reports (step >>= next) result := by
  have first : Reports step fun _ => True := ⟨blind, fun _ _ => .inr trivial⟩
  exact first.bind (fun a => (second a).blind) fun a _ => second a

lemma ite {condition : Prop} [Decidable condition] {yes no : Parser α} (h : Reports yes property)
    (h' : Reports no property) : Reports (if condition then yes else no) property := by
  split <;> assumption

lemma complain {next : Unit → Parser β} (offset : Nat) (cause : Cause) (blind : ∀ a, Blind (next a)) :
    Reports (complain offset cause >>= next) result := by
  refine ⟨(blind_complain _ _).bind blind, fun {s _ _} attends h => .inl ?_⟩
  have noted : Parser.complain offset cause s = .ok () { s with
      reports := s.reports.push (Report.errorAt offset cause) } := by
    rw [Parser.complain, note_eq, if_neg (by simp [attends])]
  rw [bind_ok noted] at h
  exact (blind ()).keeps_reports h (by simp)

/-- **What goes on after a report** need not heed anything else. -/
lemma stays {step : Parser α} {next : α → Parser β} (reports : Reports step property)
    [first : StaysLoud step] (has : ∀ a, property a → StaysLoud (next a))
    (blind : ∀ a, ¬ property a → Blind (next a)) : StaysLoud (step >>= next) := by
  refine ⟨fun {s b t} h loud => ?_⟩
  obtain ⟨a, u, hstep, hnext⟩ := bind_eq_ok.mp h
  by_cases holds : property a
  · exact (has a holds).loud hnext (first.loud hstep loud)
  · refine .inl ((blind a holds).keeps_reports hnext ?_)
    rcases loud with told | ⟨attends, -⟩
    · exact reports.blind.keeps_reports hstep told
    · exact (reports.told attends hstep).resolve_right holds

end Reports

lemma reports_parameterType (parameter : Parameter) :
    Reports (parameterType parameter) (·.2 = true) := by
  refine .after (blind_peek _ _) fun colon => .ite ?_ (.pure rfl)
  refine .after (blind_skipToken _ _) fun _ => .after (blind_advance _ _) fun type => ?_
  split
  · exact .pure rfl
  · exact .complain _ _ fun _ => .pure _

lemma reports_parameterSeparator (closer : TokenKind) (parameter : Parameter) :
    Reports (parameterSeparator closer parameter) (· = true) := by
  refine .after (blind_peek _ _) fun token => .ite (.after (blind_skipToken _ _) fun _ => .pure rfl) ?_
  refine .after (blind_closesAwaited _) fun closes => .ite (.pure rfl) ?_
  exact .complain _ _ fun _ => (blind_recover _).bind fun _ => .pure _

/-- **Parameters that are read without a report are there.** -/
lemma reports_parameters (options : CompileOptions) (fuel : Nat) (closer : TokenKind)
    (known : List Parameter) (complete : Bool) :
    Reports ((Reading.parameters closer known complete).within options fuel)
      fun found => complete = true → found.isSome = true := by
  induction fuel generalizing known complete with
  | zero =>
    rw [Reading.within_zero]
    exact ⟨.throw _, fun _ h => by cases h⟩
  | succ fuel ih =>
    have calls {γ : Type} (call : Reading γ) : Blind (call.within options fuel) :=
      blind_within options fuel call
    have fallback (parameter : Parameter) : Blind (Reading.fallbackRound
        (fun next => next.within options fuel) parameter) :=
      (blind_peek _ _).bind fun token => .ite
        ((blind_skipToken _ _).bind fun _ => (calls .value).bind fun _ => .pure _) (.pure _)
    rw [Reading.within_succ]
    refine .after (blind_peek _ _) fun token => .ite (.after (blind_skipToken _ _) fun _ => .pure ?_) ?_
    · intro whole
      rw [if_pos whole]
      rfl
    refine .after (blind_closesAwaited _) fun closes => .ite ?_ (.ite ?_ (.ite ?_ ?_))
    · exact .complain _ _ fun _ => .pure _
    · exact .after (blind_skipToken _ _) fun _ => .complain _ _ fun _ => calls _
    · refine .after (blind_skipToken _ _) fun _ => (reports_parameterType _).bind ?_ ?_
      · exact fun x => (fallback x.1).bind fun _ => (blind_parameterSeparator _ _).bind fun _ => calls _
      rintro ⟨parameter, typed⟩ (rfl : typed = true)
      refine .after (fallback parameter) fun parameter =>
        (reports_parameterSeparator closer parameter).bind (fun _ => calls _) ?_
      rintro separated rfl
      have further := ih (known ++ [parameter]) (complete && true && true)
      rw [Bool.and_true, Bool.and_true] at further ⊢
      exact further
    · exact .complain _ _ fun _ => (blind_recover _).bind fun _ => calls _

lemma reports_macroHead (options : CompileOptions) (fuel : Nat) (function : Bool) (name : Token) :
    Reports (macroHead options fuel function name) (·.isSome = true) := by
  refine .after (blind_attachedOpener? name) fun opener => ?_
  cases opener with
  | none => exact .pure rfl
  | some opener =>
    have closed (found : Option (List Parameter)) : Blind (do
        settle
        return found.map fun parameters => (macroKindOf function (some opener.kind), parameters)) :=
      blind_settle.bind fun _ => .pure _
    refine .after (blind_skipToken _ _) fun _ => .after (blind_await _) fun _ => ?_
    have parameters : Reports (parameterList options (opener.kind.closer?.getD .rParen) fuel [] true)
        fun found => true = true → found.isSome = true :=
      reports_parameters options fuel (opener.kind.closer?.getD .rParen) [] true
    refine parameters.bind closed fun found whole => ?_
    exact .after blind_settle fun _ => .pure (by rw [Option.isSome_map, whole rfl])

instance (options : CompileOptions) (fuel : Nat) (function : Bool) (name : Token) :
    StaysLoud (macroHead options fuel function name) := by
  refine @StaysLoud.bind _ _ _ _ inferInstance fun opener => ?_
  cases opener <;> infer_instance

instance (options : CompileOptions) (fuel : Nat) (parameters : List Parameter) :
    StaysLoud (template options fuel parameters) := by
  refine @StaysLoud.look _ _ fun outer => ?_
  refine @StaysLoud.bind _ _ _ _ (.modify fun _ loud => loud) fun _ => ?_
  refine @StaysLoud.bind _ _ _ _ inferInstance fun node => @StaysLoud.look _ _ fun inner => ?_
  exact @StaysLoud.bind _ _ _ _ (.modify fun _ loud => loud) fun _ => inferInstance

instance (definition : MacroDefinition) (offset : Nat) :
    StaysLoud (registerMacro definition offset) := by
  rw [Harmony.registerMacro_eq]
  refine @StaysLoud.bind _ _ _ _ (.modifyGet fun _ loud => loud) fun macro_ => ?_
  refine @StaysLoud.bind _ _ _ _ (.modifyGet fun _ loud => loud) fun clash => ?_
  cases clash with
  | some report => infer_instance
  | none =>
    refine @StaysLoud.bind _ _ _ _ (.modifyGet fun _ loud => loud) fun clash => ?_
    cases clash <;> infer_instance

instance (options : CompileOptions) (fuel : Nat) (name : Token) (signature : Signature)
    (parameters : List Parameter) (checked : Except Report (List Parameter)) :
    StaysLoud (macroTemplate options fuel name signature parameters checked) := by
  refine @StaysLoud.look _ _ fun s => ?_
  refine @StaysLoud.bind _ _ _ _ inferInstance fun found => ?_
  obtain ⟨node, scope⟩ := found
  cases checked with
  | error report => infer_instance
  | ok parameters =>
    cases scope with
    | none => infer_instance
    | some scope =>
      refine @StaysLoud.look _ _ fun s => @StaysLoud.ite _ _ _ _ _ inferInstance ?_
      split <;> infer_instance

instance (options : CompileOptions) (fuel : Nat) (name : Token) (signature : Signature)
    (parameters : List Parameter) : StaysLoud (macroBody options fuel name signature parameters) := by
  rw [macroBody_eq]
  split <;> infer_instance

instance (options : CompileOptions) (fuel : Nat) (function : Bool) :
    StaysLoud (macroStatement options fuel function) := by
  refine @StaysLoud.bind _ _ _ _ inferInstance fun word => ?_
  refine @StaysLoud.bind _ _ _ _ inferInstance fun name => ?_
  refine @StaysLoud.ite _ _ _ _ _ inferInstance ((reports_macroHead options fuel function name).stays
    (fun found holds => ?_) fun found missing => ?_)
  · cases found with
    | none => cases holds
    | some found => exact @StaysLoud.bind _ _ _ _ inferInstance fun colon => inferInstance
  · cases found with
    | none => exact blind_recover none
    | some found => exact absurd rfl missing

instance (op : OperatorDefinition) (options : CompileOptions) (offset : Nat) :
    StaysLoud (registerOperator options op offset) := by
  rw [Harmony.registerOperator_eq]
  refine @StaysLoud.bind _ _ _ _ (.modifyGet fun _ loud => loud) fun clash => ?_
  cases clash with
  | some conflict => infer_instance
  | none =>
    refine @StaysLoud.bind _ _ _ _ (.modifyGet fun _ loud => loud) fun clash => ?_
    cases clash <;> infer_instance

instance : StaysLoud operatorAlias := by
  unfold operatorAlias
  infer_instance

instance (options : CompileOptions) (fuel : Nat) (keyword : Bool) :
    StaysLoud (operatorStatement options fuel keyword) := by
  refine @StaysLoud.bind _ _ _ _ inferInstance fun word => ?_
  refine @StaysLoud.bind _ _ _ _ inferInstance fun symbol => ?_
  refine @StaysLoud.ite _ _ _ _ _ inferInstance ?_
  refine @StaysLoud.bind _ _ _ _ inferInstance fun asWord => ?_
  refine @StaysLoud.ite _ _ _ _ _ inferInstance ?_
  refine @StaysLoud.bind _ _ _ _ inferInstance fun clauses => ?_
  cases clauses with
  | none => infer_instance
  | some clauses =>
    refine @StaysLoud.bind _ _ _ _ inferInstance fun aliasName => ?_
    cases aliasName with
    | none => infer_instance
    | some aliasName =>
      dsimp only
      split <;> infer_instance

instance (name : Token) : StaysLoud (emptyShape name) := by
  refine @StaysLoud.bind _ _ _ _ inferInstance fun opener => ?_
  cases opener <;> infer_instance

instance : StaysLoud importPath? := by
  unfold importPath?
  infer_instance

instance : StaysLoud publicMark := by
  unfold publicMark
  infer_instance

instance (resolver : Resolver) (path : String) : StaysLoud (resolveImport resolver path) where
  loud {s a t} h loud := by
    rw [Harmony.resolveImport_eq] at h
    match answer : resolver path s.imports with
    | .ok _ _ =>
      rw [answer] at h
      cases h
      exact loud
    | .error _ _ =>
      rw [answer] at h
      cases h

instance (definitions : Definitions) : StaysLoud (importVisible definitions) :=
  .modifyGet fun _ loud => loud

instance (definitions : Definitions) : StaysLoud (importExported definitions) :=
  .modifyGet fun _ loud => loud

instance (definitions : Definitions) : StaysLoud (removeImported definitions) :=
  .modifyGet fun _ loud => loud

instance (name : String) (kinds : List MacroKind) : StaysLoud (removeMacros name kinds) :=
  .modifyGet fun _ loud => loud

instance (name : String) (keyword : Bool) : StaysLoud (removeOperators name keyword) :=
  .modifyGet fun _ loud => loud

instance (removed offset : Nat) (cause : Cause) : StaysLoud (warnIfNone removed offset cause) := by
  unfold warnIfNone
  infer_instance

instance (isPublic : Bool) (path : String) (offset : Nat)
    (answer : Except ImportFailure (Shared Definitions)) :
    StaysLoud (Harmony.takeImport isPublic path offset answer) := by
  cases answer with
  | error failure => exact @StaysLoud.bind _ _ _ _ inferInstance fun _ => inferInstance
  | ok definitions =>
    refine @StaysLoud.bind _ _ _ _ inferInstance fun visible => ?_
    cases isPublic <;>
      exact @StaysLoud.bind _ _ _ _ inferInstance fun exported =>
        @StaysLoud.bind _ _ _ _ inferInstance fun _ => inferInstance

instance (path : String) (offset : Nat) (answer : Except ImportFailure (Shared Definitions)) :
    StaysLoud (Harmony.dropImport path offset answer) := by
  cases answer with
  | error failure => exact staysLoud_note _
  | ok definitions =>
    exact @StaysLoud.bind _ _ _ _ inferInstance fun removed =>
      @StaysLoud.bind _ _ _ _ inferInstance fun _ => inferInstance

instance (resolver : Resolver) : StaysLoud (useStatement resolver) := by
  refine @StaysLoud.bind _ _ _ _ inferInstance fun _ => ?_
  refine @StaysLoud.bind _ _ _ _ inferInstance fun isPublic => ?_
  refine @StaysLoud.bind _ _ _ _ inferInstance fun found => ?_
  match found with
  | none => infer_instance
  | some (path, offset) =>
    show StaysLoud (resolveImport resolver path >>= Harmony.takeImport isPublic path offset)
    infer_instance

instance (resolver : Resolver) : StaysLoud (undefineImport resolver) := by
  refine @StaysLoud.bind _ _ _ _ inferInstance fun found => ?_
  match found with
  | none => infer_instance
  | some (path, offset) =>
    show StaysLoud (resolveImport resolver path >>= Harmony.dropImport path offset)
    infer_instance

instance (function : Bool) : StaysLoud (undefineMacro function) := by
  refine @StaysLoud.bind _ _ _ _ inferInstance fun name => ?_
  refine @StaysLoud.ite _ _ _ _ _ inferInstance ?_
  refine @StaysLoud.bind _ _ _ _ inferInstance fun shape => ?_
  cases shape with
  | none => infer_instance
  | some shape => exact @StaysLoud.bind _ _ _ _ inferInstance fun _ => inferInstance

instance (word : String) (keyword : Bool) : StaysLoud (undefineOperator word keyword) := by
  unfold undefineOperator
  infer_instance

instance (resolver : Resolver) : StaysLoud (undefineStatement resolver) := by
  refine @StaysLoud.bind _ _ _ _ inferInstance fun _ => ?_
  refine @StaysLoud.bind _ _ _ _ inferInstance fun what => ?_
  split <;> infer_instance

/-- **Definition statements** keep what was reported before. -/
instance (options : CompileOptions) (resolver : Resolver) (fuel : Nat) (opening : StatementKeyword) :
    StaysLoud (definitionStatement options resolver fuel opening) := by
  cases opening <;> unfold definitionStatement <;> infer_instance

/-! ## Sources -/

instance (token : Token) : StaysLoud (statementKeyword? token) := by
  unfold statementKeyword?
  split <;> infer_instance

instance : StaysLoud valueFuel := by
  unfold valueFuel
  infer_instance

instance (options : CompileOptions) (resolver : Resolver) (token : Token) :
    StaysLoud (parseStatement options resolver token) := by
  refine @StaysLoud.bind _ _ _ _ inferInstance fun fuel => ?_
  refine @StaysLoud.bind _ _ _ _ inferInstance fun opening => ?_
  cases opening <;> infer_instance

instance : StaysLoud endStatement := by
  unfold endStatement
  infer_instance

/-- What a fault leaves behind is a report. -/
lemma told_of_isolate {offset : Nat} {fault : Fault} (h : isolate offset fault s = .ok () t) :
    t.reports ≠ #[] := by
  rw [isolate_eq] at h
  obtain ⟨_, u, hnote, hskip⟩ := bind_eq_ok.mp h
  refine (blind_recover none).keeps_reports hskip ?_
  have noted := note_eq (Report.errorAt offset (.fault fault.detail)) (restart s)
  rw [show note _ (restart s) = .ok () u from hnote] at noted
  cases noted
  simp [restart]

/-- What goes on behind a statement, or behind what is left of it after a fault, keeps it. -/
instance staysLoud_attempt (options : CompileOptions) (resolver : Resolver) (values : List Node)
    (token : Token) {next : List Node → Parser (List Node)} [h : ∀ values, StaysLoud (next values)] :
    StaysLoud (attempt (parseStatement options resolver token) >>= fun outcome => match outcome with
      | .ok value => endStatement >>= fun _ => next (value.toList ++ values)
      | .error fault => isolate token.start fault >>= fun _ => next values) := by
  refine ⟨fun {s a t} hstep loud => ?_⟩
  match statement : parseStatement options resolver token s with
  | .ok value u =>
    have tried : attempt (parseStatement options resolver token) s = .ok (.ok value) u := by
      simp only [attempt, statement]
    rw [bind_ok tried] at hstep
    have behind : StaysLoud (endStatement >>= fun _ => next (value.toList ++ values)) :=
      inferInstance
    exact behind.loud hstep (StaysLoud.loud statement loud)
  | .error fault u =>
    have tried : attempt (parseStatement options resolver token) s = .ok (.error fault) u := by
      simp only [attempt, statement]
    rw [bind_ok tried] at hstep
    obtain ⟨_, v, hisolate, hnext⟩ := bind_eq_ok.mp hstep
    exact StaysLoud.loud hnext (.inl (told_of_isolate hisolate))

/-- **A statement of a source** keeps what was reported before. -/
instance (options : CompileOptions) (resolver : Resolver) (values : List Node)
    {next : List Node → Parser (List Node)} [h : ∀ values, StaysLoud (next values)] :
    StaysLoud (sourceRound options resolver next values) := by
  unfold sourceRound
  infer_instance

instance (options : CompileOptions) (resolver : Resolver) (fuel : Nat) (values : List Node) :
    StaysLoud (parseAll options resolver fuel values) := by
  induction fuel generalizing values with
  | zero => exact .throw _
  | succ fuel ih =>
    rw [parseAll_succ]
    infer_instance

end Parser

end TreeLang
