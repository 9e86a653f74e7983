import TreeLang.Proofs.Compiling

/-!
# What goes for the steps goes for the parser

The parser is put together of few kinds of steps: it asks for tokens and keeps or returns them, it
reports, and it changes what it has in mind without a look at the tokens that were read ahead.  So
whatever relates two parsers step by step, and is kept when steps are put one behind the other, also
relates all that they read.  This file says so once, for a relation that is left open; two parsers
under two sets of options are compared in this way, and so is a parser with itself, where the relation
is a property.

* `ParserState.plain`, `ParserState.with` — what shows of a state apart from its tokens and reports,
  and a state in which that was replaced.
* **`Uniform`** — a relation that holds of the small steps, and is kept when steps are joined.
* **`Uniform.within`** — it holds of all that reads inside a statement.
* `Uniform.operatorStatement`, `Uniform.undefineMacro`, … — it holds of statements that define no
  macro and import nothing.
* **`Throughout.parseAll`** — where it also holds of imports and of templates it holds of the parser.
-/

namespace TreeLang

namespace ParserState

/-- What shows of a state whatever was read ahead and reported. -/
def plain (s : ParserState) : ParserState :=
  { s with
    tokens := ⟨.error, s.tokens.place, [], [], [], []⟩
    reports := #[] }

/-- A state with all but its tokens and its reports replaced. -/
def adopt (s t : ParserState) : ParserState :=
  { t with
    tokens := s.tokens
    reports := s.reports }

end ParserState

namespace Parser

open TreeLang.Harmony (claim enlistVisible enlistExported registerMacro_eq takeImport dropImport)

variable {α β γ : Type}

/-- **A relation between steps that is uniform**: it holds of the small steps, under two sets of
options, and is kept when steps are put one behind the other. -/
structure Uniform (options options' : CompileOptions)
    (R : ∀ {α : Type}, Parser α → Parser α → Prop) : Prop where
  collapse : options'.collapseUnaryOperation = options.collapseUnaryOperation
  pure {α : Type} (value : α) : R (pure value) (pure value)
  throw {α : Type} (fault : Fault) : R (throw fault : Parser α) (throw fault)
  bind {α β : Type} {step step' : Parser α} {next next' : α → Parser β} :
    R step step' → (∀ value, R (next value) (next' value)) → R (step >>= next) (step' >>= next')
  attempt {α : Type} {step step' : Parser α} : R step step' → R (attempt step) (attempt step')
  lookAhead (skipBreaks : Bool) (mode : Mode) :
    R (lookAhead skipBreaks mode) (lookAhead skipBreaks mode)
  rewind : R rewind rewind
  commit : R commit commit
  noteLexical : R noteLexical noteLexical
  note (report : Report) : R (note report) (note report)
  /-- A change of what a parser has in mind, except for the definitions in force. -/
  change {α : Type} {change : ParserState → α × ParserState} :
    (∀ s, change s = ((change s.plain).1, s.adopt (change s.plain).2)) →
    (∀ s, (change s).2.visible = s.visible) → R (modifyGet change) (modifyGet change)
  restart : R (modify restart) (modify restart)
  /-- A repeated key is reported with the severity that the options say. -/
  repeated (offset : Nat) (key : String) :
    R (Parser.note ((Report.errorAt offset (.duplicateKey key)).withSeverity
        options.duplicatePropertySeverity))
      (Parser.note ((Report.errorAt offset (.duplicateKey key)).withSeverity
        options'.duplicatePropertySeverity))
  removeMacros (name : String) (kinds : List MacroKind) :
    R (removeMacros name kinds) (removeMacros name kinds)
  registerOperator (op : OperatorDefinition) (offset : Nat) :
    R (registerOperator options op offset) (registerOperator options' op offset)
  /-- Operators that are taken back. -/
  dropOperators (name : String) (keyword : Bool) (offset : Nat) (cause : Cause) :
    R (do
        let removed ← removeOperators name keyword
        warnIfNone removed offset cause
        forget)
      (do
        let removed ← removeOperators name keyword
        warnIfNone removed offset cause
        forget)

namespace Uniform

variable {options options' : CompileOptions} {R : ∀ {α : Type}, Parser α → Parser α → Prop}
  (h : Uniform options options' R)

include h

/-! ## Small steps -/

omit h in
lemma ite (_ : Uniform options options' R) {condition : Prop} [Decidable condition]
    {first first' second second' : Parser α} (hfirst : R first first') (hsecond : R second second') :
    R (if condition then first else second) (if condition then first' else second') := by
  split <;> assumption

/-- A step that looks at what shows of a state. -/
lemma look {next next' : ParserState → Parser β} (seen : ∀ s, next s = next s.plain)
    (seen' : ∀ s, next' s = next' s.plain) (related : ∀ s, R (next s) (next' s)) :
    R (get >>= next) (get >>= next') := by
  have split (next : ParserState → Parser β) (seen : ∀ s, next s = next s.plain) :
      (get >>= next : Parser β) = modifyGet (fun s => (s.plain, s)) >>= next := by
    funext s
    exact congrFun (seen s) s
  rw [split next seen, split next' seen']
  exact h.bind (h.change (fun _ => rfl) fun _ => rfl) related

lemma modify {change : ParserState → ParserState}
    (seen : ∀ s, change s = s.adopt (change s.plain))
    (keeps : ∀ s, (change s).visible = s.visible) : R (modify change) (modify change) :=
  h.change (fun s => congrArg (Prod.mk ()) (seen s)) keeps

lemma forM {items : List γ} {step step' : γ → Parser PUnit}
    (related : ∀ item, R (step item) (step' item)) : R (items.forM step) (items.forM step') := by
  induction items with
  | nil => exact h.pure _
  | cons item rest ih => exact h.bind (related item) fun _ => ih

lemma foldlM {step step' : α → γ → Parser α}
    (related : ∀ value item, R (step value item) (step' value item)) (items : List γ) (value : α) : R (items.foldlM step value) (items.foldlM step' value) := by
  induction items generalizing value with
  | nil => exact h.pure _
  | cons item rest ih => exact h.bind (related value item) ih

lemma complain (offset : Nat) (cause : Cause) : R (complain offset cause) (complain offset cause) :=
  h.note _

lemma peek (skipBreaks : Bool) (mode : Mode) : R (peek skipBreaks mode) (peek skipBreaks mode) :=
  h.bind (h.lookAhead _ _) fun _ => h.bind h.rewind fun _ => h.pure _

lemma advance (skipBreaks : Bool) (mode : Mode) :
    R (advance skipBreaks mode) (advance skipBreaks mode) :=
  h.bind (h.lookAhead _ _) fun _ => h.bind h.commit fun _ => h.pure _

lemma skipToken (skipBreaks : Bool) (mode : Mode) :
    R (skipToken skipBreaks mode) (skipToken skipBreaks mode) :=
  h.bind (h.advance _ _) fun _ => h.pure _

lemma position : R position position :=
  h.look (fun _ => rfl) (fun _ => rfl) fun _ => h.pure _

lemma remaining : R remaining remaining :=
  h.look (fun _ => rfl) (fun _ => rfl) fun _ => h.pure _

lemma freshId : R freshId freshId := h.change (fun _ => rfl) fun _ => rfl

lemma placeholderAt (offset : Nat) : R (placeholderAt offset) (placeholderAt offset) :=
  h.bind h.freshId fun _ => h.pure _

lemma parameterIndex? (word : String) : R (parameterIndex? word) (parameterIndex? word) :=
  h.look (fun _ => rfl) (fun _ => rfl) fun _ => h.pure _

lemma markReference (id : Nat) (reference : Reference) :
    R (markReference id reference) (markReference id reference) :=
  h.modify (fun _ => rfl) fun _ => rfl

lemma takeSuppressed : R takeSuppressed takeSuppressed := h.change (fun _ => rfl) fun _ => rfl

lemma setSuppressed (suppressed : Bool) : R (setSuppressed suppressed) (setSuppressed suppressed) :=
  h.modify (fun _ => rfl) fun _ => rfl

lemma await (closer : TokenKind) : R (await closer) (await closer) :=
  h.modify (fun _ => rfl) fun _ => rfl

lemma settle : R settle settle := h.modify (fun _ => rfl) fun _ => rfl

lemma closesAwaited (kind : TokenKind) : R (closesAwaited kind) (closesAwaited kind) :=
  h.look (fun _ => rfl) (fun _ => rfl) fun _ => h.pure _

/-! ## Recovery -/

lemma skipGroup (fuel : Nat) (closer : Option TokenKind) :
    R (skipGroup fuel closer) (skipGroup fuel closer) := by
  induction fuel generalizing closer with
  | zero => exact h.throw _
  | succ fuel ih =>
    rw [Parser.skipGroup]
    refine h.bind (h.peek _ _) fun token => h.ite (h.pure _) ?_
    refine h.bind (h.closesAwaited _) fun closes => h.ite (h.pure _) ?_
    refine h.bind (h.skipToken _ _) fun _ => h.ite (h.pure _) (h.ite ?_ (ih _))
    exact h.bind (ih _) fun _ => ih _

lemma skipToSeparator (fuel : Nat) (closer : Option TokenKind) :
    R (skipToSeparator fuel closer) (skipToSeparator fuel closer) := by
  induction fuel with
  | zero => exact h.throw _
  | succ fuel ih =>
    rw [Parser.skipToSeparator]
    refine h.bind (h.peek _ _) fun token => h.ite (h.pure _) ?_
    refine h.bind (h.closesAwaited _) fun closes => h.ite (h.pure _) ?_
    refine h.bind (h.skipToken _ _) fun _ => h.ite (h.pure _) (h.ite ?_ ih)
    exact h.bind (h.skipGroup _ _) fun _ => ih

lemma recover (closer : Option TokenKind) : R (recover closer) (recover closer) :=
  h.bind (h.modify (fun _ => rfl) fun _ => rfl) fun _ => h.bind h.remaining fun _ =>
    h.bind (h.skipToSeparator _ _) fun _ => h.modify (fun _ => rfl) fun _ => rfl

lemma giveUp (offset : Nat) (cause : Cause) : R (giveUp offset cause) (giveUp offset cause) :=
  h.bind (h.complain _ _) fun _ => h.recover _

/-! ## Invocations -/

lemma refuse (offset : Nat) (report : Report) : R (refuse offset report) (refuse offset report) :=
  h.bind (h.note _) fun _ => h.placeholderAt _

lemma expandDeferred {expandOne expandOne' : Node → MacroKind → Parser Node}
    (related : ∀ node kind, R (expandOne node kind) (expandOne' node kind)) (span : Span)
    (tree : Node) (waiting : List DeferredInvocation) :
    R (expandDeferred expandOne span tree waiting) (expandDeferred expandOne' span tree waiting) := by
  refine h.foldlM (fun tree invocation => ?_) waiting tree
  split
  · exact h.pure _
  · exact h.bind (related _ _) fun _ => h.pure _

lemma nested {step step' : Parser α} (related : R step step') : R (nested step) (nested step') :=
  h.bind (h.modify (fun _ => rfl) fun _ => rfl) fun _ => h.bind related fun _ =>
    h.bind (h.modify (fun _ => rfl) fun _ => rfl) fun _ => h.pure _

lemma useMacro {expandOne expandOne' : Node → MacroKind → Parser Node}
    (related : ∀ node kind, R (expandOne node kind) (expandOne' node kind))
    (definition : MacroDefinition) (node : Node) :
    R (useMacro expandOne definition node) (useMacro expandOne' definition node) := by
  refine h.look (fun _ => rfl) (fun _ => rfl) fun s => h.ite (h.refuse _ _) ?_
  dsimp only
  split
  · exact h.throw _
  · exact h.bind (h.forM fun _ => h.note _) fun _ => h.refuse _ _
  · refine h.bind (h.forM fun _ => h.note _) fun _ => h.ite (h.pure _) ?_
    exact h.nested (h.expandDeferred related _ _ _)

lemma invokeWithin (levels : Nat) (node : Node) (kind : MacroKind) :
    R (invokeWithin levels node kind) (invokeWithin levels node kind) := by
  induction levels generalizing node kind with
  | zero => exact h.throw _
  | succ levels ih =>
    rw [Parser.invokeWithin]
    refine h.look (fun _ => rfl) (fun _ => rfl) fun s => ?_
    split
    · exact h.pure _
    · exact h.useMacro ih _ _
    · exact h.refuse _ _

lemma invoke (node : Node) (kind : MacroKind) : R (invoke node kind) (invoke node kind) :=
  h.look (fun _ => rfl) (fun _ => rfl) fun _ => h.invokeWithin _ _ _

lemma expand (node : Node) (kind : MacroKind) : R (expand node kind) (expand node kind) := by
  refine h.look (fun _ => rfl) (fun _ => rfl) fun s => ?_
  split
  · refine h.ite ?_ (h.invoke _ _)
    exact h.bind (h.modify (fun _ => rfl) fun _ => rfl) fun _ => h.pure _
  · exact h.invoke _ _

/-! ## Parts of values -/

lemma primitive (token : Token) (expands : Bool) :
    R (primitive token expands) (primitive token expands) := by
  refine h.bind h.freshId fun id => h.ite (h.pure _) ?_
  refine h.bind (h.parameterIndex? _) fun parameter => ?_
  cases parameter with
  | some parameter => exact h.bind (h.markReference _ _) fun _ => h.pure _
  | none => exact h.ite (h.invoke _ _) (h.pure _)

lemma operatorNode (op : OperatorDefinition) (operands : List Node) (span : Span) :
    R (operatorNode op operands span) (operatorNode op operands span) :=
  h.bind h.freshId fun _ => h.expand _ _

lemma accessorCall (op : OperatorDefinition) (receiver member : Node) (span : Span) :
    R (accessorCall op receiver member span) (accessorCall op receiver member span) := by
  refine h.look (fun _ => rfl) (fun _ => rfl) fun s =>
    h.bind (h.modify (fun _ => rfl) fun _ => rfl) fun _ => h.bind h.freshId fun id => ?_
  dsimp only
  split
  · exact h.bind (h.markReference _ _) fun _ => h.expand _ _
  · exact h.expand _ _

lemma binaryNode (op : OperatorDefinition) (left right : Node) :
    R (binaryNode op left right) (binaryNode op left right) :=
  h.ite (h.accessorCall _ _ _ _) (h.operatorNode _ _ _)

lemma groupHead? (nameMode : Mode) : R (groupHead? nameMode) (groupHead? nameMode) := by
  refine h.bind (h.lookAhead _ _) fun first => h.ite (h.bind h.commit fun _ => h.pure _) ?_
  refine h.ite ?_ (h.bind h.rewind fun _ => h.pure _)
  refine h.bind (h.lookAhead _ _) fun second => h.ite (h.bind h.commit fun _ => h.pure _) ?_
  exact h.bind h.rewind fun _ => h.pure _

lemma operatorOf? (group : PriorityGroup) (skipBreaks : Bool) :
    R (operatorOf? group skipBreaks) (operatorOf? group skipBreaks) := by
  refine h.bind (h.peek _ _) fun token => h.ite ?_ (h.pure _)
  split
  · exact h.bind (h.skipToken _ _) fun _ => h.pure _
  · exact h.pure _

lemma separator (mode : Mode) (closer : TokenKind) :
    R (separator mode closer) (separator mode closer) := by
  refine h.bind (h.peek _ _) fun token => h.ite (h.skipToken _ _) ?_
  refine h.bind (h.closesAwaited _) fun closes => h.ite (h.pure _) ?_
  exact h.bind (h.complain _ _) fun _ => h.recover _

lemma addProperty (key : Token) (value : Node) (properties : List (String × Node)) :
    R (addProperty options key value properties) (addProperty options' key value properties) :=
  h.ite (h.bind (h.repeated _ _) fun _ => h.bind (h.modify (fun _ => rfl) fun _ => rfl) fun _ =>
    h.pure _) (h.pure _)

lemma completeGroup (name : Option Token) (start : Nat) (expands : Bool) (reference : Option Nat)
    (content : GroupContent) :
    R (completeGroup options name start expands reference content)
      (completeGroup options' name start expands reference content) := by
  rw [completeGroup.eq_def, completeGroup.eq_def, h.collapse]
  dsimp only
  split
  · exact h.pure _
  · refine h.bind h.freshId fun id => ?_
    split
    · exact h.bind (h.markReference _ _) fun _ => h.ite (h.expand _ _) (h.pure _)
    · exact h.ite (h.expand _ _) (h.pure _)

lemma reference (head : Head) : R head.reference head.reference := by
  rw [Head.reference]
  split
  · exact h.ite (h.parameterIndex? _) (h.pure _)
  · exact h.pure _

/-! ## Parts of statements -/

lemma attachedOpener? (name : Token) : R (attachedOpener? name) (attachedOpener? name) :=
  h.bind (h.peek _ _) fun _ => h.pure _

lemma parameterType (parameter : Parameter) : R (parameterType parameter) (parameterType parameter) := by
  refine h.bind (h.peek _ _) fun colon => h.ite ?_ (h.pure _)
  refine h.bind (h.skipToken _ _) fun _ => h.bind (h.advance _ _) fun type => ?_
  split
  · exact h.pure _
  · exact h.bind (h.complain _ _) fun _ => h.pure _

lemma parameterSeparator (closer : TokenKind) (parameter : Parameter) :
    R (parameterSeparator closer parameter) (parameterSeparator closer parameter) := by
  refine h.bind (h.peek _ _) fun token => h.ite (h.bind (h.skipToken _ _) fun _ => h.pure _) ?_
  refine h.bind (h.closesAwaited _) fun closes => h.ite (h.pure _) ?_
  exact h.bind (h.complain _ _) fun _ => h.bind (h.recover _) fun _ => h.pure _

lemma clausePriority : R clausePriority clausePriority := by
  refine h.bind (h.peek _ _) fun opener => h.ite (h.pure _) ?_
  refine h.bind (h.skipToken _ _) fun _ => h.bind (h.advance _ _) fun number => ?_
  split
  · refine h.bind (h.advance _ _) fun close => h.ite (h.pure _) ?_
    exact h.bind (h.giveUp _ _) fun _ => h.pure _
  · exact h.bind (h.giveUp _ _) fun _ => h.pure _

/-! ## Rounds of reading -/

section Rounds

variable {calls calls' : ∀ {γ : Type}, Reading γ → Parser γ}
  (related : ∀ {γ : Type} (next : Reading γ), R (calls next) (calls' next))

include related

lemma atomRound (nameMode mode : Mode) (missing : Token → Cause) :
    R (Reading.atomRound calls nameMode mode missing)
      (Reading.atomRound calls' nameMode mode missing) := by
  refine h.bind h.takeSuppressed fun suppressed => h.bind (related _) fun group => ?_
  cases group with
  | some node => exact h.pure _
  | none =>
    refine h.bind (h.peek _ _) fun token => h.ite ?_ ?_
    · exact h.bind (h.skipToken _ _) fun _ => h.primitive _ _
    · exact h.bind (h.complain _ _) fun _ => h.placeholderAt _

lemma contentRound (opener : TokenKind) (start : Nat) :
    R (Reading.contentRound calls opener start) (Reading.contentRound calls' opener start) := by
  refine h.ite (h.bind (related _) fun _ => h.pure _) (h.ite ?_ ?_) <;>
    exact h.bind (related _) fun _ => h.pure _

lemma groupRound (nameMode : Mode) (expands : Bool) :
    R (Reading.groupRound options calls nameMode expands)
      (Reading.groupRound options' calls' nameMode expands) := by
  refine h.bind (h.groupHead? _) fun head => ?_
  cases head with
  | none => exact h.pure _
  | some head =>
    obtain ⟨name, opener⟩ := head
    refine h.bind (h.reference _) fun reference => h.bind (h.await _) fun _ => ?_
    refine h.bind (h.contentRound related _ _) fun content => h.bind h.settle fun _ => ?_
    exact h.bind (h.completeGroup _ _ _ _ _) fun _ => h.pure _

lemma propertiesRound (start : Nat) (known : List (String × Node)) :
    R (Reading.propertiesRound options calls start known)
      (Reading.propertiesRound options' calls' start known) := by
  refine h.bind (h.peek _ _) fun token =>
    h.ite (h.bind (h.skipToken _ _) fun _ => h.pure _) ?_
  refine h.bind (h.closesAwaited _) fun closes => h.ite ?_ (h.ite ?_ (h.ite ?_ ?_))
  · exact h.bind (h.complain _ _) fun _ => h.pure _
  · exact h.bind (h.skipToken _ _) fun _ => h.bind (h.complain _ _) fun _ => related _
  · refine h.bind (h.skipToken _ _) fun _ => h.bind (h.peek _ _) fun colon => h.ite ?_ ?_
    · exact h.bind (h.complain _ _) fun _ => h.bind (h.recover _) fun _ => related _
    · refine h.bind (h.skipToken _ _) fun _ => h.bind (related _) fun _ => ?_
      exact h.bind (h.addProperty _ _ _) fun _ => h.bind (h.separator _ _) fun _ => related _
  · exact h.bind (h.complain _ _) fun _ => h.bind (h.recover _) fun _ => related _

lemma elementsRound (start : Nat) (mode : Mode) (closer : TokenKind) (known : List Node) :
    R (Reading.elementsRound calls start mode closer known)
      (Reading.elementsRound calls' start mode closer known) := by
  refine h.bind (h.peek _ _) fun token =>
    h.ite (h.bind (h.skipToken _ _) fun _ => h.pure _) ?_
  refine h.bind (h.closesAwaited _) fun closes => h.ite ?_ (h.ite ?_ ?_)
  · exact h.bind (h.complain _ _) fun _ => h.pure _
  · exact h.bind (h.skipToken _ _) fun _ => h.bind (h.complain _ _) fun _ => related _
  · refine h.bind (h.ite (related _) (related _)) fun _ => ?_
    exact h.bind (h.separator _ _) fun _ => related _

lemma levelRound (groups : List PriorityGroup) :
    R (Reading.levelRound calls groups) (Reading.levelRound calls' groups) := by
  cases groups with
  | nil => exact related _
  | cons ops tighter =>
    rw [Reading.levelRound, Reading.levelRound]
    split
    · exact h.bind (related _) fun _ => related _
    · exact h.bind (related _) fun _ => related _
    · refine h.bind h.position fun start => h.bind (h.operatorOf? _ _) fun op => ?_
      cases op with
      | some op => exact h.bind (related _) fun _ => h.operatorNode _ _ _
      | none => exact related _

lemma binaryRound (ops : PriorityGroup) (tighter : List PriorityGroup) (left : Node) :
    R (Reading.binaryRound calls ops tighter left) (Reading.binaryRound calls' ops tighter left) := by
  refine h.bind (h.operatorOf? _ _) fun op => ?_
  cases op with
  | none => exact h.pure _
  | some op =>
    refine h.ite (h.bind (related _) fun _ => h.binaryNode _ _ _) ?_
    exact h.bind (h.setSuppressed _) fun _ => h.bind (related _) fun _ =>
      h.bind (h.setSuppressed _) fun _ => h.bind (h.binaryNode _ _ _) fun _ => related _

lemma postfixesRound (ops : PriorityGroup) (inner : Node) :
    R (Reading.postfixesRound calls ops inner) (Reading.postfixesRound calls' ops inner) := by
  refine h.bind (h.operatorOf? _ _) fun op => ?_
  cases op with
  | none => exact h.pure _
  | some op =>
    exact h.bind h.position fun _ => h.bind (h.operatorNode _ _ _) fun _ => related _

lemma fallbackRound (parameter : Parameter) :
    R (Reading.fallbackRound calls parameter) (Reading.fallbackRound calls' parameter) := by
  refine h.bind (h.peek _ _) fun equals => h.ite ?_ (h.pure _)
  exact h.bind (h.skipToken _ _) fun _ => h.bind (related _) fun _ => h.pure _

lemma parametersRound (closer : TokenKind) (known : List Parameter) (complete : Bool) :
    R (Reading.parametersRound calls closer known complete)
      (Reading.parametersRound calls' closer known complete) := by
  refine h.bind (h.peek _ _) fun token =>
    h.ite (h.bind (h.skipToken _ _) fun _ => h.pure _) ?_
  refine h.bind (h.closesAwaited _) fun closes => h.ite ?_ (h.ite ?_ (h.ite ?_ ?_))
  · exact h.bind (h.complain _ _) fun _ => h.pure _
  · exact h.bind (h.skipToken _ _) fun _ => h.bind (h.complain _ _) fun _ => related _
  · refine h.bind (h.skipToken _ _) fun _ => h.bind (h.parameterType _) fun typed => ?_
    refine h.bind (h.fallbackRound related _) fun parameter => ?_
    exact h.bind (h.parameterSeparator _ _) fun _ => related _
  · exact h.bind (h.complain _ _) fun _ => h.bind (h.recover _) fun _ => related _

lemma clausesRound (known : List Clause) :
    R (Reading.clausesRound calls known) (Reading.clausesRound calls' known) := by
  refine h.bind (h.advance _ _) fun word => h.ite (h.bind (h.giveUp _ _) fun _ => h.pure _) ?_
  refine h.bind h.clausePriority fun priority => ?_
  cases priority with
  | none => exact h.pure _
  | some priority =>
    exact h.bind (h.peek _ _) fun next =>
      h.ite (h.bind (h.skipToken _ _) fun _ => related _) (h.pure _)

lemma round (call : Reading α) : R (call.round options calls) (call.round options' calls') := by
  cases call with
  | value => exact h.atomRound related _ _ _
  | operand => exact h.atomRound related _ _ _
  | group => exact h.groupRound related _ _
  | properties => exact h.propertiesRound related _ _
  | elements => exact h.elementsRound related _ _ _ _
  | expression => exact h.look (fun _ => rfl) (fun _ => rfl) fun _ => related _
  | level => exact h.levelRound related _
  | binary => exact h.binaryRound related _ _ _
  | postfixes => exact h.postfixesRound related _ _
  | parameters => exact h.parametersRound related _ _ _
  | clauses => exact h.clausesRound related _
  | skipGroup closer =>
    refine h.bind (h.peek _ _) fun token => h.ite (h.pure _) ?_
    refine h.bind (h.closesAwaited _) fun closes => h.ite (h.pure _) ?_
    refine h.bind (h.skipToken _ _) fun _ => h.ite (h.pure _) (h.ite ?_ (related _))
    exact h.bind (related _) fun _ => related _
  | skipToSeparator closer =>
    refine h.bind (h.peek _ _) fun token => h.ite (h.pure _) ?_
    refine h.bind (h.closesAwaited _) fun closes => h.ite (h.pure _) ?_
    refine h.bind (h.skipToken _ _) fun _ => h.ite (h.pure _) (h.ite ?_ (related _))
    exact h.bind (related _) fun _ => related _

end Rounds

/-- **All that reads inside a statement** is related. -/
theorem within (fuel : Nat) (call : Reading α) :
    R (call.within options fuel) (call.within options' fuel) := by
  induction fuel generalizing α call with
  | zero =>
    rw [call.within_zero, call.within_zero]
    exact h.throw _
  | succ fuel ih =>
    rw [call.within_succ, call.within_succ]
    exact h.round ih call

lemma parseValue (fuel : Nat) : R (parseValue options fuel) (parseValue options' fuel) :=
  h.within fuel .value

lemma parameterList (closer : TokenKind) (fuel : Nat) (known : List Parameter) (complete : Bool) :
    R (parameterList options closer fuel known complete)
      (parameterList options' closer fuel known complete) :=
  h.within fuel (.parameters closer known complete)

lemma clauseList (fuel : Nat) (known : List Clause) :
    R (clauseList fuel known) (clauseList fuel known) :=
  h.within fuel (.clauses known)

/-! ## Statements -/

lemma valueFuel : R valueFuel valueFuel :=
  h.bind h.remaining fun _ => h.look (fun _ => rfl) (fun _ => rfl) fun _ => h.pure _

lemma statementKeyword? (token : Token) : R (statementKeyword? token) (statementKeyword? token) := by
  rw [Parser.statementKeyword?]
  split
  · exact h.pure _
  · exact h.bind (h.lookAhead _ _) fun _ => h.bind (h.lookAhead _ _) fun _ =>
      h.bind h.rewind fun _ => h.pure _

lemma endStatement : R endStatement endStatement :=
  h.bind (h.peek _ _) fun _ => h.ite (h.skipToken _ _) (h.ite (h.pure _) (h.giveUp _ _))

lemma isolate (offset : Nat) (fault : Fault) : R (isolate offset fault) (isolate offset fault) :=
  h.bind h.restart fun _ => h.giveUp _ _

lemma operatorAlias : R operatorAlias operatorAlias := by
  refine h.bind (h.peek _ _) fun colon => h.ite (h.pure _) ?_
  refine h.bind (h.skipToken _ _) fun _ => h.bind (h.advance _ _) fun token => ?_
  exact h.ite (h.pure _) (h.bind (h.giveUp _ _) fun _ => h.pure _)

/-- **Operator statements** are related. -/
theorem operatorStatement (fuel : Nat) (keyword : Bool) :
    R (operatorStatement options fuel keyword) (operatorStatement options' fuel keyword) := by
  refine h.bind (h.advance _ _) fun word => h.bind (h.advance _ _) fun symbol => ?_
  refine h.ite (h.giveUp _ _) (h.bind (h.advance _ _) fun asWord => h.ite (h.giveUp _ _) ?_)
  refine h.bind (h.clauseList _ _) fun clauses => ?_
  cases clauses with
  | none => exact h.pure _
  | some clauses =>
    refine h.bind h.operatorAlias fun found => ?_
    cases found with
    | none => exact h.pure _
    | some aliasName =>
      dsimp only
      split
      · exact h.registerOperator _ _
      · exact h.note _

lemma warnIfNone (removed offset : Nat) (cause : Cause) :
    R (warnIfNone removed offset cause) (warnIfNone removed offset cause) :=
  h.ite (h.note _) (h.pure _)

lemma emptyShape (name : Token) : R (emptyShape name) (emptyShape name) := by
  refine h.bind (h.attachedOpener? _) fun opener => ?_
  cases opener with
  | none => exact h.pure _
  | some opener =>
    refine h.bind (h.skipToken _ _) fun _ => h.bind (h.advance _ _) fun close => ?_
    exact h.ite (h.pure _) (h.bind (h.giveUp _ _) fun _ => h.pure _)

/-- **Statements that take macros back** are related. -/
theorem undefineMacro (function : Bool) : R (undefineMacro function) (undefineMacro function) := by
  refine h.bind (h.advance _ _) fun name => h.ite (h.giveUp _ _) ?_
  refine h.bind (h.emptyShape _) fun shape => ?_
  cases shape with
  | none => exact h.pure _
  | some shape => exact h.bind (h.removeMacros _ _) fun _ => h.warnIfNone _ _ _

/-- **Statements that take operators back** are related. -/
theorem undefineOperator (word : String) (keyword : Bool) :
    R (undefineOperator word keyword) (undefineOperator word keyword) :=
  h.bind (h.advance _ _) fun _ => h.ite (h.giveUp _ _) (h.dropOperators _ _ _ _)

end Uniform

/-! ## Macros and imports -/

/-- **A relation that is uniform throughout**: it also holds of what is done with imports, and of a
template that is mistaken on both sides or on neither. -/
structure Throughout (options options' : CompileOptions) (resolver : Resolver)
    (R : ∀ {α : Type}, Parser α → Parser α → Prop) : Prop extends Uniform options options' R where
  counted {α : Type} {step step' : Parser α} : R step step' → R (counted step) (counted step')
  enlistVisible (new : Shared MacroDefinition) : R (enlistVisible new) (enlistVisible new)
  resolveImport (path : String) : R (resolveImport resolver path) (resolveImport resolver path)
  takeImport (isPublic : Bool) (path : String) (offset : Nat)
    (answer : Except ImportFailure (Shared Definitions)) :
    R (takeImport isPublic path offset answer) (takeImport isPublic path offset answer)
  dropImport (path : String) (offset : Nat) (answer : Except ImportFailure (Shared Definitions)) :
    R (dropImport path offset answer) (dropImport path offset answer)

namespace Throughout

variable {options options' : CompileOptions} {resolver : Resolver}
  {R : ∀ {α : Type}, Parser α → Parser α → Prop} (h : Throughout options options' resolver R)

include h

lemma registerMacro (definition : MacroDefinition) (offset : Nat) :
    R (registerMacro definition offset) (registerMacro definition offset) := by
  have claims : R (claim definition) (claim definition) := h.change (fun _ => rfl) fun _ => rfl
  have exported (new : Shared MacroDefinition) : R (enlistExported new) (enlistExported new) :=
    h.change (fun _ => rfl) fun _ => rfl
  rw [registerMacro_eq]
  refine h.bind claims fun new => h.bind (h.enlistVisible new) fun conflict => ?_
  cases conflict with
  | some report => exact h.note _
  | none =>
    refine h.bind (exported new) fun conflict => ?_
    cases conflict with
    | some report => exact h.note _
    | none => exact h.pure _

lemma macroHead (fuel : Nat) (function : Bool) (name : Token) :
    R (macroHead options fuel function name) (macroHead options' fuel function name) := by
  refine h.bind (h.attachedOpener? _) fun opener => ?_
  cases opener with
  | none => exact h.pure _
  | some opener =>
    exact h.bind (h.skipToken _ _) fun _ => h.bind (h.await _) fun _ =>
      h.bind (h.parameterList _ _ _ _) fun _ => h.bind h.settle fun _ => h.pure _

lemma template (fuel : Nat) (parameters : List Parameter) :
    R (template options fuel parameters) (template options' fuel parameters) :=
  h.look (fun _ => rfl) (fun _ => rfl) fun _ => h.bind (h.modify (fun _ => rfl) fun _ => rfl) fun _ =>
    h.bind (h.parseValue _) fun _ => h.look (fun _ => rfl) (fun _ => rfl) fun _ =>
      h.bind (h.modify (fun _ => rfl) fun _ => rfl) fun _ => h.pure _

lemma macroTemplate (fuel : Nat) (name : Token) (signature : Signature) (parameters : List Parameter)
    (checked : Except Report (List Parameter)) :
    R (macroTemplate options fuel name signature parameters checked)
      (macroTemplate options' fuel name signature parameters checked) := by
  rw [macroTemplate_eq, macroTemplate_eq]
  refine h.bind (h.counted (h.template fuel parameters)) fun found => ?_
  obtain ⟨⟨node, scope⟩, mistaken⟩ := found
  cases checked with
  | error report => exact h.pure _
  | ok parameters =>
    cases scope with
    | none => exact h.pure _
    | some scope =>
      refine h.ite (h.pure _) ?_
      split
      · exact h.bind (h.forM fun _ => h.note _) fun _ => h.registerMacro _ _
      · exact h.note _
      · exact h.throw _

/-- **Macro statements** are related. -/
theorem macroStatement (fuel : Nat) (function : Bool) :
    R (macroStatement options fuel function) (macroStatement options' fuel function) := by
  refine h.bind (h.advance _ _) fun word => h.bind (h.advance _ _) fun name => ?_
  refine h.ite (h.giveUp _ _) (h.bind (h.macroHead _ _ _) fun head => ?_)
  match head with
  | none => exact h.recover _
  | some (kind, parameters) =>
    refine h.bind (h.peek _ _) fun colon => h.ite (h.giveUp _ _) ?_
    refine h.bind (h.skipToken _ _) fun _ => ?_
    rw [macroBody_eq, macroBody_eq]
    split
    · exact h.bind (h.note _) fun _ => h.macroTemplate _ _ _ _ _
    · exact h.macroTemplate _ _ _ _ _

lemma importPath? : R importPath? importPath? :=
  h.bind (h.advance _ _) fun _ =>
    h.ite (h.pure _) (h.bind (h.giveUp _ _) fun _ => h.pure _)

lemma publicMark : R publicMark publicMark := by
  refine h.bind (h.peek _ _) fun word => h.ite ?_ (h.pure _)
  refine h.bind (h.lookAhead _ _) fun _ => h.bind (h.lookAhead _ _) fun after => ?_
  exact h.bind h.rewind fun _ => h.ite (h.bind (h.skipToken _ _) fun _ => h.pure _) (h.pure _)

/-- **Importing statements** are related. -/
theorem useStatement : R (useStatement resolver) (useStatement resolver) := by
  refine h.bind (h.skipToken _ _) fun _ => h.bind h.publicMark fun isPublic => ?_
  refine h.bind h.importPath? fun found => ?_
  rcases found with _ | ⟨path, offset⟩
  · exact h.pure _
  · exact h.bind (h.resolveImport path) fun answer => h.takeImport isPublic path offset answer

lemma undefineImport : R (undefineImport resolver) (undefineImport resolver) := by
  refine h.bind h.importPath? fun found => ?_
  rcases found with _ | ⟨path, offset⟩
  · exact h.pure _
  · exact h.bind (h.resolveImport path) fun answer => h.dropImport path offset answer

lemma undefineStatement : R (undefineStatement resolver) (undefineStatement resolver) := by
  refine h.bind (h.skipToken _ _) fun _ => h.bind (h.advance _ _) fun what => ?_
  split
  · exact h.undefineMacro false
  · exact h.undefineMacro true
  · exact h.undefineOperator _ false
  · exact h.undefineOperator _ true
  · exact h.undefineImport
  · exact h.giveUp _ _

/-- **Definition statements** are related. -/
theorem definitionStatement (fuel : Nat) (opening : StatementKeyword) :
    R (definitionStatement options resolver fuel opening)
      (definitionStatement options' resolver fuel opening) := by
  cases opening with
  | template => exact h.macroStatement fuel false
  | function => exact h.macroStatement fuel true
  | operator => exact h.operatorStatement fuel false
  | keyword => exact h.operatorStatement fuel true
  | undefine => exact h.undefineStatement
  | use => exact h.useStatement

lemma parseStatement (token : Token) :
    R (parseStatement options resolver token) (parseStatement options' resolver token) := by
  refine h.bind h.valueFuel fun fuel => h.bind (h.statementKeyword? token) fun opening => ?_
  cases opening with
  | some opening => exact h.bind (h.definitionStatement fuel opening) fun _ => h.pure _
  | none => exact h.bind (h.parseValue _) fun _ => h.pure _

lemma sourceRound {next next' : List Node → Parser (List Node)}
    (related : ∀ values, R (next values) (next' values)) (values : List Node) :
    R (sourceRound options resolver next values) (sourceRound options' resolver next' values) := by
  refine h.bind (h.peek _ _) fun token => h.ite ?_ (h.ite ?_ (h.ite ?_ (h.ite ?_ ?_)))
  · exact h.bind h.noteLexical fun _ => h.pure _
  · exact h.bind (h.skipToken _ _) fun _ => h.bind (h.complain _ _) fun _ => related _
  · exact h.bind (h.skipToken _ _) fun _ => related _
  · exact h.bind (h.skipToken _ _) fun _ => h.bind (h.complain _ _) fun _ => related _
  · refine h.bind (h.attempt (h.parseStatement token)) fun outcome => ?_
    cases outcome with
    | ok value => exact h.bind h.endStatement fun _ => related _
    | error fault => exact h.bind (h.isolate _ _) fun _ => related _

/-- **The whole parser** is related to itself under other options. -/
theorem parseAll (fuel : Nat) (values : List Node) :
    R (parseAll options resolver fuel values) (parseAll options' resolver fuel values) := by
  induction fuel generalizing values with
  | zero => exact h.throw _
  | succ fuel ih =>
    rw [parseAll_succ, parseAll_succ]
    exact h.sourceRound ih values

end Throughout

end Parser

end TreeLang
