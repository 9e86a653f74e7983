import TreeLang.Proofs.SelfContained
import TreeLang.Proofs.Tiling

/-!
# The tokens that are taken

A parser looks at more tokens than it takes.  Those that it takes are the ones handed out when it commits
itself to them; everything else it rewinds, forgets, or reads again under another mode.  So the tokens
taken in a run do not show in the state it leads to.  This file traces them: it takes the parser apart
into the commitments and the steps that take no token, put one behind the other just as the parser puts
them, and keeps a list of what each commitment takes.

* `Stationary` — a step that takes no token.
* **`Tracing`**, `Tracing.taken` — a parser, taken apart; the tokens that it takes from a state on.
* `Strung` — tokens each of which is read where the one before it ends.
* **`Tracing.strung`** — the tokens that are taken lead from where a parser was to where it is.
* `Tracing.within`, `Tracing.parseStatement`, `Tracing.parseAll` — the functions that read, taken apart.
* **`takenTokens`** — the tokens taken in a source; `pairwise_takenTokens` — they are in order.
-/

namespace TreeLang

namespace Parser

open TokenStream
open TreeLang.Harmony (claim enlistVisible enlistExported registerMacro_eq)

variable {α β γ : Type} {s t : ParserState}

/-! ## Steps that take no token -/

/-- **A step that takes no token**, and keeps the stream coherent. -/
class Stationary (step : Parser α) : Prop where
  stays : Stays step
  keeps : ∀ s, s.tokens.Coherent s.visible.operators → Coheres (step s)

namespace Stationary

instance pure (value : α) : Stationary (Pure.pure value : Parser α) :=
  ⟨.pure value, fun _ coherent => coherent⟩

instance throw (fault : Fault) : Stationary (MonadExcept.throw fault : Parser α) :=
  ⟨fun _ => rfl, fun _ coherent => coherent⟩

instance bind {step : Parser α} {next : α → Parser β} [first : Stationary step]
    [second : ∀ value, Stationary (next value)] : Stationary (step >>= next) where
  stays := first.stays.bind fun value => (second value).stays
  keeps s coherent := by
    have keeps := first.keeps s coherent
    match outcome : step s with
    | .ok value t =>
      rw [outcome] at keeps
      rw [bind_ok outcome]
      exact (second value).keeps t keeps
    | .error fault t =>
      rw [outcome] at keeps
      rw [bind_error outcome]
      exact keeps

instance ite {condition : Prop} [Decidable condition] {yes no : Parser α} [Stationary yes]
    [Stationary no] : Stationary (if condition then yes else no) := by
  split <;> infer_instance

instance get : Stationary (MonadState.get : Parser ParserState) :=
  ⟨fun _ => rfl, fun _ coherent => coherent⟩

/-- A change of what a parser has in mind. -/
lemma change {change : ParserState → α × ParserState}
    (tokens : ∀ s, (change s).2.tokens = s.tokens)
    (visible : ∀ s, (change s).2.visible.operators = s.visible.operators) :
    Stationary (MonadStateOf.modifyGet change : Parser α) where
  stays := .modifyGet fun s => congrArg TokenStream.anchor (tokens s)
  keeps s coherent := by
    show (change s).2.tokens.Coherent (change s).2.visible.operators
    rw [tokens, visible]
    exact coherent

lemma forM {items : List γ} {step : γ → Parser PUnit} (each : ∀ item, Stationary (step item)) :
    Stationary (items.forM step) := by
  induction items with
  | nil => exact .pure _
  | cons item rest ih => exact @bind _ _ (step item) (fun _ => rest.forM step) _ _

/-- **Steps that make nodes** take no token. -/
lemma of_nodewise {step : Parser α} (nodewise : Nodewise step) : Stationary step := by
  refine ⟨fun s => ?_, fun s coherent => ?_⟩ <;> obtain ⟨result, change, same⟩ := nodewise s <;>
    rw [same s (.refl s)] <;> cases result
  · exact rfl
  · exact rfl
  · exact coherent
  · exact coherent

/-! ### Tokens and reports -/

instance lookAhead (skipBreaks : Bool) (mode : Mode) :
    Stationary (Parser.lookAhead skipBreaks mode) where
  stays s := by
    have read : (s.tokens.read s.visible.operators skipBreaks mode).2.anchor = s.tokens.anchor :=
      anchor_absorb _ _
    show s.tokens.anchor = (s.tokens.next s.visible.operators skipBreaks mode).2.anchor
    rw [next]
    split
    · exact read.symm
    · split
      · rfl
      · exact read.symm
  keeps s coherent := by
    obtain ⟨ahead, look, coherent⟩ := lookAhead_eq coherent skipBreaks mode
    rw [look]
    exact coherent

instance rewind : Stationary Parser.rewind :=
  ⟨.modifyGet fun _ => rfl, fun _ coherent => (settled_rewind coherent).coherent⟩

lemma restart : Stationary (modify Parser.restart) :=
  ⟨.modifyGet fun _ => rfl, fun _ _ => coherent_forget _ _⟩

instance peek (skipBreaks : Bool) (mode : Mode) : Stationary (Parser.peek skipBreaks mode) :=
  inferInstanceAs (Stationary (Parser.lookAhead skipBreaks mode >>= fun token =>
    Parser.rewind >>= fun _ => Pure.pure token))

instance note (report : Report) : Stationary (Parser.note report) :=
  ⟨.note report, fun _ coherent => keeps_note report coherent⟩

instance complain (offset : Nat) (cause : Cause) : Stationary (Parser.complain offset cause) :=
  note _

instance noteLexical : Stationary Parser.noteLexical :=
  ⟨.noteLexical, fun s coherent => by
    rw [noteLexical_eq]
    exact coherent⟩

instance errorCount : Stationary Parser.errorCount :=
  ⟨fun _ => rfl, fun _ coherent => coherent⟩

instance position : Stationary Parser.position :=
  ⟨fun _ => rfl, fun _ coherent => coherent⟩

instance remaining : Stationary Parser.remaining :=
  ⟨fun _ => rfl, fun _ coherent => coherent⟩

instance valueFuel : Stationary Parser.valueFuel :=
  ⟨fun _ => rfl, fun _ coherent => coherent⟩

instance closesAwaited (kind : TokenKind) : Stationary (Parser.closesAwaited kind) :=
  ⟨fun _ => rfl, fun _ coherent => coherent⟩

instance takeSuppressed : Stationary Parser.takeSuppressed :=
  change (fun _ => rfl) fun _ => rfl

instance setSuppressed (suppressed : Bool) : Stationary (Parser.setSuppressed suppressed) :=
  change (fun _ => rfl) fun _ => rfl

instance await (closer : TokenKind) : Stationary (Parser.await closer) :=
  change (fun _ => rfl) fun _ => rfl

instance settle : Stationary Parser.settle :=
  change (fun _ => rfl) fun _ => rfl

instance heed (recovering : Bool) :
    Stationary (modify fun s => { s with recovering := recovering } : Parser Unit) :=
  change (fun _ => rfl) fun _ => rfl

instance rescope (scope : Option TemplateScope) :
    Stationary (modify fun s => { s with scope := scope } : Parser Unit) :=
  change (fun _ => rfl) fun _ => rfl

instance statementKeyword? (token : Token) : Stationary (Parser.statementKeyword? token) := by
  rw [Parser.statementKeyword?]
  split <;> infer_instance

/-! ### Nodes -/

instance placeholderAt (offset : Nat) : Stationary (Parser.placeholderAt offset) :=
  of_nodewise (nodewise_placeholderAt offset)

instance reference (head : Head) : Stationary head.reference :=
  of_nodewise (nodewise_reference head)

instance primitive (token : Token) (expands : Bool) : Stationary (Parser.primitive token expands) :=
  of_nodewise (nodewise_primitive token expands)

instance operatorNode (op : OperatorDefinition) (operands : List Node) (span : Span) :
    Stationary (Parser.operatorNode op operands span) :=
  of_nodewise (nodewise_operatorNode op operands span)

instance binaryNode (op : OperatorDefinition) (left right : Node) :
    Stationary (Parser.binaryNode op left right) :=
  of_nodewise (nodewise_binaryNode op left right)

instance addProperty (options : CompileOptions) (key : Token) (value : Node)
    (properties : List (String × Node)) :
    Stationary (Parser.addProperty options key value properties) :=
  of_nodewise (nodewise_addProperty options key value properties)

instance completeGroup (options : CompileOptions) (name : Option Token) (start : Nat) (expands : Bool)
    (reference : Option Nat) (content : GroupContent) :
    Stationary (Parser.completeGroup options name start expands reference content) :=
  of_nodewise (nodewise_completeGroup options name start expands reference content)

/-! ### Definitions -/

instance warnIfNone (removed offset : Nat) (cause : Cause) :
    Stationary (Parser.warnIfNone removed offset cause) := by
  rw [Parser.warnIfNone]
  infer_instance

instance removeMacros (name : String) (kinds : List MacroKind) :
    Stationary (Parser.removeMacros name kinds) :=
  change (fun _ => rfl) fun _ => rfl

lemma dropOperators (name : String) (keyword : Bool) (offset : Nat) (cause : Cause) :
    Stationary (do
      let removed ← removeOperators name keyword
      Parser.warnIfNone removed offset cause
      forget) :=
  ⟨.dropOperators name keyword offset cause, fun s _ =>
    keeps_dropOperators name keyword offset cause s⟩

instance registerOperator (options : CompileOptions) (op : OperatorDefinition) (offset : Nat) :
    Stationary (Parser.registerOperator options op offset) :=
  ⟨.registerOperator options op offset, fun s _ => keeps_registerOperator options op offset s⟩

instance registerMacro (definition : MacroDefinition) (offset : Nat) :
    Stationary (Parser.registerMacro definition offset) := by
  have claims : Stationary (claim definition) := change (fun _ => rfl) fun _ => rfl
  have visible (new : Shared MacroDefinition) : Stationary (enlistVisible new) :=
    change (fun _ => rfl) fun _ => rfl
  have exported (new : Shared MacroDefinition) : Stationary (enlistExported new) :=
    change (fun _ => rfl) fun _ => rfl
  rw [registerMacro_eq]
  refine @bind _ _ _ _ claims fun new => @bind _ _ _ _ (visible new) fun conflict => ?_
  cases conflict with
  | some report => exact note _
  | none =>
    refine @bind _ _ _ _ (exported new) fun conflict => ?_
    cases conflict with
    | some report => exact note _
    | none => exact pure _

instance resolveImport (resolver : Resolver) (path : String) :
    Stationary (Parser.resolveImport resolver path) :=
  ⟨.resolveImport resolver path, fun s coherent => by
    rw [Harmony.resolveImport_eq]
    cases resolver path s.imports <;> exact coherent⟩

lemma takeImport (isPublic : Bool) (path : String) (offset : Nat)
    (answer : Except ImportFailure (Shared Definitions)) :
    Stationary (Harmony.takeImport isPublic path offset answer) :=
  ⟨.takeImport isPublic path offset answer, fun s _ =>
    keeps_takeImport isPublic path offset answer s⟩

lemma dropImport (path : String) (offset : Nat)
    (answer : Except ImportFailure (Shared Definitions)) :
    Stationary (Harmony.dropImport path offset answer) :=
  ⟨.dropImport path offset answer, fun _ coherent => keeps_dropImport path offset answer coherent⟩

end Stationary

/-! ## Parsers taken apart -/

/-- **A parser, taken apart** into its commitments and steps that take no token.  Two steps are put one
behind the other, one of two is chosen, and one that may be broken off is attempted, as in the parser. -/
inductive Tracing : {α : Type} → Parser α → Type 1
  | still {α : Type} {step : Parser α} [stationary : Stationary step] : Tracing step
  | commit : Tracing Parser.commit
  | behind {α β : Type} {step : Parser α} {next : α → Parser β} (first : Tracing step)
      (rest : ∀ value, Tracing (next value)) : Tracing (step >>= next)
  | choice {α : Type} {condition : Prop} [decidable : Decidable condition] {yes no : Parser α}
      (first : Tracing yes) (second : Tracing no) : Tracing (if condition then yes else no)
  | attempt {α : Type} {step : Parser α} (inner : Tracing step) : Tracing (Parser.attempt step)
  | same {α : Type} {step other : Parser α} (same : other = step) (inner : Tracing step) :
      Tracing other

namespace Tracing

/-- **The tokens that are taken** in a run from a state, in order: those that were handed out when the
parser commits itself to them. -/
def taken : ∀ {α : Type} {step : Parser α}, Tracing step → ParserState → List Token
  | _, _, still, _ => []
  | _, _, commit, s => s.tokens.handed.reverse.map ReadAhead.token
  | _, _, @behind _ _ step _ first rest, s =>
    first.taken s ++
      match step s with
      | .ok value t => (rest value).taken t
      | .error _ _ => []
  | _, _, @choice _ condition _ _ _ first second, s =>
    if condition then first.taken s else second.taken s
  | _, _, attempt inner, s => inner.taken s
  | _, _, same _ inner, s => inner.taken s

/-! ### Parts of values

Each function of the parser is taken apart in its own order, so that every definition below has the
shape of the function that it is named for.
-/

section Parts

variable (options : CompileOptions)

/-- A step that is known to take no token. -/
def idle {step : Parser α} (stationary : Stationary step) : Tracing step :=
  .still

/-- A step that is broken off at once. -/
def exhausted : Tracing (throw .exhausted : Parser α) :=
  .still

def advance (skipBreaks : Bool) (mode : Mode) : Tracing (Parser.advance skipBreaks mode) :=
  .behind .still fun _ => .behind .commit fun _ => .still

def skipToken (skipBreaks : Bool) (mode : Mode) : Tracing (Parser.skipToken skipBreaks mode) :=
  .behind (advance skipBreaks mode) fun _ => .still

def skipGroup : ∀ (fuel : Nat) (closer : Option TokenKind), Tracing (Parser.skipGroup fuel closer)
  | 0, _ => exhausted
  | fuel + 1, closer =>
    .behind .still fun _ => .choice .still <| .behind .still fun _ => .choice .still <|
      .behind (skipToken true .word) fun _ => .choice .still <|
        .choice (.behind (skipGroup fuel _) fun _ => skipGroup fuel closer) (skipGroup fuel closer)

def skipToSeparator :
    ∀ (fuel : Nat) (closer : Option TokenKind), Tracing (Parser.skipToSeparator fuel closer)
  | 0, _ => exhausted
  | fuel + 1, closer =>
    .behind .still fun _ => .choice .still <| .behind .still fun _ => .choice .still <|
      .behind (skipToken false .word) fun _ => .choice .still <|
        .choice (.behind (skipGroup fuel _) fun _ => skipToSeparator fuel closer)
          (skipToSeparator fuel closer)

def recover (closer : Option TokenKind) : Tracing (Parser.recover closer) :=
  .behind .still fun _ => .behind .still fun _ => .behind (skipToSeparator _ closer) fun _ => .still

def giveUp (offset : Nat) (cause : Cause) : Tracing (Parser.giveUp offset cause) :=
  .behind .still fun _ => recover none

def groupHead? (nameMode : Mode) : Tracing (Parser.groupHead? nameMode) :=
  .behind .still fun _ => .choice (.behind .commit fun _ => .still) <|
    .choice (.behind .still fun _ => .choice (.behind .commit fun _ => .still) .still) .still

def operatorOf? (group : PriorityGroup) (skipBreaks : Bool) :
    Tracing (Parser.operatorOf? group skipBreaks) :=
  .behind .still fun token =>
    .choice
      (match group.find? token.content (token.kind = .keyword) with
      | some _ => .behind (skipToken skipBreaks .operation) fun _ => .still
      | none => .still)
      .still

def separator (mode : Mode) (closer : TokenKind) : Tracing (Parser.separator mode closer) :=
  .behind .still fun _ => .choice (skipToken false mode) <|
    .behind .still fun _ => .choice .still <| .behind .still fun _ => recover _

/-! ### Parts of statements -/

def attachedOpener? (name : Token) : Tracing (Parser.attachedOpener? name) :=
  .behind .still fun _ => .still

def parameterType (parameter : Parameter) : Tracing (Parser.parameterType parameter) :=
  .behind .still fun _ => .choice
    (.behind (skipToken false .parameter) fun _ => .behind (advance false .word) fun type =>
      match if type.kind = .literal then ShapeSet.ofAnnotation? type.content else none with
      | some _ => .still
      | none => .still)
    .still

def parameterSeparator (closer : TokenKind) (parameter : Parameter) :
    Tracing (Parser.parameterSeparator closer parameter) :=
  .behind .still fun _ => .choice (.behind (skipToken false .parameter) fun _ => .still) <|
    .behind .still fun _ => .choice .still <|
      .behind .still fun _ => .behind (recover _) fun _ => .still

def clausePriority : Tracing Parser.clausePriority :=
  .behind .still fun _ => .choice .still <|
    .behind (skipToken false .word) fun _ => .behind (advance false .word) fun number =>
      match if number.kind = .literal then Priority.ofText? number.content else none with
      | some (.finite _) =>
        .behind (advance false .word) fun _ => .choice .still <|
          .behind (giveUp _ _) fun _ => .still
      | some (.infinite _) | some .notANumber | none => .behind (giveUp _ _) fun _ => .still

/-! ### Rounds of reading -/

section Rounds

variable {calls : ∀ {γ : Type}, Reading γ → Parser γ}
  (traced : ∀ {γ : Type} (call : Reading γ), Tracing (calls call))

def atomRound (nameMode mode : Mode) (missing : Token → Cause) :
    Tracing (Reading.atomRound calls nameMode mode missing) :=
  .behind .still fun _ => .behind (traced _) fun found =>
    match found with
    | some _ => .still
    | none =>
      .behind .still fun _ => .choice (.behind (skipToken true mode) fun _ => .still) .still

def contentRound (opener : TokenKind) (start : Nat) :
    Tracing (Reading.contentRound calls opener start) :=
  .choice (.behind (traced _) fun _ => .still) <|
    .choice (.behind (traced _) fun _ => .still) (.behind (traced _) fun _ => .still)

def groupRound (nameMode : Mode) (expands : Bool) :
    Tracing (Reading.groupRound options calls nameMode expands) :=
  .behind (groupHead? nameMode) fun head =>
    match head with
    | none => .still
    | some _ =>
      .behind .still fun _ => .behind .still fun _ => .behind (contentRound traced _ _) fun _ =>
        .behind .still fun _ => .still

def propertiesRound (start : Nat) (known : List (String × Node)) :
    Tracing (Reading.propertiesRound options calls start known) :=
  .behind .still fun _ => .choice (.behind (skipToken true .key) fun _ => .still) <|
    .behind .still fun _ => .choice .still <|
      .choice (.behind (skipToken true .key) fun _ => .behind .still fun _ => traced _) <|
        .choice
          (.behind (skipToken true .key) fun _ => .behind .still fun _ =>
            .choice (.behind .still fun _ => .behind (recover _) fun _ => traced _) <|
              .behind (skipToken false .key) fun _ => .behind (traced _) fun _ =>
                .behind .still fun _ => .behind (separator .key .rBrace) fun _ => traced _)
          (.behind .still fun _ => .behind (recover _) fun _ => traced _)

def elementRound (mode : Mode) : Tracing (Reading.elementRound calls mode) :=
  .choice (traced _) (traced _)

def elementsRound (start : Nat) (mode : Mode) (closer : TokenKind) (known : List Node) :
    Tracing (Reading.elementsRound calls start mode closer known) :=
  .behind .still fun _ => .choice (.behind (skipToken true mode) fun _ => .still) <|
    .behind .still fun _ => .choice .still <|
      .choice (.behind (skipToken true mode) fun _ => .behind .still fun _ => traced _) <|
        .behind (elementRound traced mode) fun _ => .behind (separator mode closer) fun _ => traced _

def levelRound : ∀ groups : List PriorityGroup, Tracing (Reading.levelRound calls groups)
  | [] => traced _
  | ops :: tighter =>
    .same (Reading.levelRound.eq_2 calls ops tighter) <|
      match ops.fixity with
      | .binary => .behind (traced _) fun _ => traced _
      | .postfixed => .behind (traced _) fun _ => traced _
      | .prefixed =>
        .behind .still fun _ => .behind (operatorOf? ops true) fun found =>
          match found with
          | some _ => .behind (traced _) fun _ => .still
          | none => traced _

def binaryRound (ops : PriorityGroup) (tighter : List PriorityGroup) (left : Node) :
    Tracing (Reading.binaryRound calls ops tighter left) :=
  .behind (operatorOf? ops false) fun found =>
    match found with
    | none => .still
    | some _ =>
      .choice (.behind (traced _) fun _ => .still) <|
        .behind .still fun _ => .behind (traced _) fun _ => .behind .still fun _ =>
          .behind .still fun _ => traced _

def postfixesRound (ops : PriorityGroup) (inner : Node) :
    Tracing (Reading.postfixesRound calls ops inner) :=
  .behind (operatorOf? ops false) fun found =>
    match found with
    | none => .still
    | some _ => .behind .still fun _ => .behind .still fun _ => traced _

def fallbackRound (parameter : Parameter) : Tracing (Reading.fallbackRound calls parameter) :=
  .behind .still fun _ => .choice
    (.behind (skipToken false .parameter) fun _ => .behind (traced _) fun _ => .still) .still

def parametersRound (closer : TokenKind) (known : List Parameter) (complete : Bool) :
    Tracing (Reading.parametersRound calls closer known complete) :=
  .behind .still fun _ => .choice (.behind (skipToken true .parameter) fun _ => .still) <|
    .behind .still fun _ => .choice .still <|
      .choice (.behind (skipToken true .parameter) fun _ => .behind .still fun _ => traced _) <|
        .choice
          (.behind (skipToken true .parameter) fun _ => .behind (parameterType _) fun _ =>
            .behind (fallbackRound traced _) fun _ =>
              .behind (parameterSeparator closer _) fun _ => traced _)
          (.behind .still fun _ => .behind (recover _) fun _ => traced _)

def clausesRound (known : List Clause) : Tracing (Reading.clausesRound calls known) :=
  .behind (advance false .word) fun _ => .choice (.behind (giveUp _ _) fun _ => .still) <|
    .behind clausePriority fun priority =>
      match priority with
      | none => .still
      | some _ =>
        .behind .still fun _ =>
          .choice (.behind (skipToken false .word) fun _ => traced _) .still

end Rounds

/-- **All that reads inside a statement**, with a bound. -/
def within : ∀ (fuel : Nat) {α : Type} (call : Reading α), Tracing (call.within options fuel)
  | fuel, _, .skipGroup closer => skipGroup fuel closer
  | fuel, _, .skipToSeparator closer => skipToSeparator fuel closer
  | 0, _, call => .same (call.within_zero options) .still
  | fuel + 1, _, .value =>
    .same (Reading.within_succ ..) (atomRound (within fuel) .word .value .expectedValue)
  | fuel + 1, _, .operand =>
    .same (Reading.within_succ ..) (atomRound (within fuel) .operation .operation .expectedOperand)
  | fuel + 1, _, .group nameMode expands =>
    .same (Reading.within_succ ..) (groupRound options (within fuel) nameMode expands)
  | fuel + 1, _, .properties start known =>
    .same (Reading.within_succ ..) (propertiesRound options (within fuel) start known)
  | fuel + 1, _, .elements start mode closer known =>
    .same (Reading.within_succ ..) (elementsRound (within fuel) start mode closer known)
  | fuel + 1, _, .expression =>
    .same (Reading.within_succ ..) (.behind .still fun _ => within fuel (.level _))
  | fuel + 1, _, .level groups => .same (Reading.within_succ ..) (levelRound (within fuel) groups)
  | fuel + 1, _, .binary ops tighter left =>
    .same (Reading.within_succ ..) (binaryRound (within fuel) ops tighter left)
  | fuel + 1, _, .postfixes ops inner =>
    .same (Reading.within_succ ..) (postfixesRound (within fuel) ops inner)
  | fuel + 1, _, .parameters closer known complete =>
    .same (Reading.within_succ ..) (parametersRound (within fuel) closer known complete)
  | fuel + 1, _, .clauses known => .same (Reading.within_succ ..) (clausesRound (within fuel) known)

/-! ### Statements -/

def operatorAlias : Tracing Parser.operatorAlias :=
  .behind .still fun _ => .choice .still <|
    .behind (skipToken false .word) fun _ => .behind (advance false .symbol) fun _ =>
      .choice .still <| .behind (giveUp _ _) fun _ => .still

def operatorStatement (fuel : Nat) (keyword : Bool) :
    Tracing (Parser.operatorStatement options fuel keyword) :=
  .behind (advance true .word) fun _ => .behind (advance false .symbol) fun symbol =>
    .choice (giveUp _ _) <| .behind (advance false .word) fun _ => .choice (giveUp _ _) <|
      .behind (within options fuel (.clauses [])) fun clauses =>
        match clauses with
        | none => .still
        | some clauses =>
          .behind operatorAlias fun found =>
            match found with
            | none => .still
            | some _ => idle (by dsimp only; split <;> infer_instance)

def emptyShape (name : Token) : Tracing (Parser.emptyShape name) :=
  .behind (attachedOpener? name) fun opener =>
    match opener with
    | none => .still
    | some _ =>
      .behind (skipToken false .word) fun _ => .behind (advance false .word) fun _ =>
        .choice .still <| .behind (giveUp _ _) fun _ => .still

def undefineMacro (function : Bool) : Tracing (Parser.undefineMacro function) :=
  .behind (advance false .word) fun _ => .choice (giveUp _ _) <|
    .behind (emptyShape _) fun shape =>
      match shape with
      | none => .still
      | some _ => .behind .still fun _ => .still

def undefineOperator (word : String) (keyword : Bool) :
    Tracing (Parser.undefineOperator word keyword) :=
  .behind (advance false .symbol) fun _ => .choice (giveUp _ _) (idle (.dropOperators ..))

def macroHead (fuel : Nat) (function : Bool) (name : Token) :
    Tracing (Parser.macroHead options fuel function name) :=
  .behind (attachedOpener? name) fun opener =>
    match opener with
    | none => .still
    | some opener =>
      .behind (skipToken false .word) fun _ => .behind .still fun _ =>
        .behind (within options fuel (.parameters (opener.kind.closer?.getD .rParen) [] true))
          fun _ => .behind .still fun _ => .still

def template (fuel : Nat) (parameters : List Parameter) :
    Tracing (Parser.template options fuel parameters) :=
  .behind .still fun _ => .behind .still fun _ => .behind (within options fuel .value) fun _ =>
    .behind .still fun _ => .behind .still fun _ => .still

def macroTemplate (fuel : Nat) (name : Token) (signature : Signature) (parameters : List Parameter)
    (checked : Except Report (List Parameter)) :
    Tracing (Parser.macroTemplate options fuel name signature parameters checked) :=
  .behind .still fun _ => .behind (template options fuel parameters) fun found => idle (by
    obtain ⟨node, scope⟩ := found
    cases checked with
    | error report => exact .pure _
    | ok parameters =>
      cases scope with
      | none => exact .pure _
      | some scope =>
        refine @Stationary.bind _ _ _ _ .errorCount fun _ => ?_
        split
        · exact .pure _
        split
        · exact @Stationary.bind _ _ _ _ (.forM fun _ => .note _) fun _ => .registerMacro _ _
        · exact .note _
        · exact .throw _)

def macroBody (fuel : Nat) (name : Token) (signature : Signature) (parameters : List Parameter) :
    Tracing (Parser.macroBody options fuel name signature parameters) :=
  .same (macroBody_eq ..) <|
    match checkParameters signature.kind parameters with
    | .error _ => .behind .still fun _ => macroTemplate options fuel name signature parameters _
    | .ok _ => macroTemplate options fuel name signature parameters _

def macroStatement (fuel : Nat) (function : Bool) :
    Tracing (Parser.macroStatement options fuel function) :=
  .behind (advance true .word) fun _ => .behind (advance false .word) fun name =>
    .choice (giveUp _ _) <| .behind (macroHead options fuel function name) fun head =>
      match head with
      | none => recover none
      | some _ =>
        .behind .still fun _ => .choice (giveUp _ _) <|
          .behind (skipToken false .word) fun _ => macroBody options fuel name _ _

def importPath? : Tracing Parser.importPath? :=
  .behind (advance false .value) fun _ => .choice .still <| .behind (giveUp _ _) fun _ => .still

def publicMark : Tracing Parser.publicMark :=
  .behind .still fun _ => .choice
    (.behind .still fun _ => .behind .still fun _ => .behind .still fun _ =>
      .choice (.behind (skipToken false .word) fun _ => .still) .still)
    .still

variable (resolver : Resolver)

def useStatement : Tracing (Parser.useStatement resolver) :=
  .behind (skipToken true .word) fun _ => .behind publicMark fun isPublic =>
    .behind importPath? fun found =>
      match found with
      | none => .still
      | some (path, offset) =>
        .behind .still fun answer => idle (.takeImport isPublic path offset answer)

def undefineImport : Tracing (Parser.undefineImport resolver) :=
  .behind importPath? fun found =>
    match found with
    | none => .still
    | some (path, offset) => .behind .still fun answer => idle (.dropImport path offset answer)

def undefineStatement : Tracing (Parser.undefineStatement resolver) :=
  .behind (skipToken true .word) fun _ => .behind (advance false .word) fun what =>
    match if what.kind = .literal then StatementKeyword.ofText? what.content else none with
    | some .template => undefineMacro false
    | some .function => undefineMacro true
    | some .operator => undefineOperator _ false
    | some .keyword => undefineOperator _ true
    | some .use => undefineImport resolver
    | some .undefine | none => giveUp _ _

def definitionStatement (fuel : Nat) : ∀ opening : StatementKeyword,
    Tracing (Parser.definitionStatement options resolver fuel opening)
  | .template => macroStatement options fuel false
  | .function => macroStatement options fuel true
  | .operator => operatorStatement options fuel false
  | .keyword => operatorStatement options fuel true
  | .undefine => undefineStatement resolver
  | .use => useStatement resolver

/-- **A statement, or a value.** -/
def parseStatement (token : Token) : Tracing (Parser.parseStatement options resolver token) :=
  .behind .still fun fuel => .behind .still fun opening =>
    match opening with
    | some opening =>
      .behind (definitionStatement options resolver fuel opening) fun _ => .still
    | none => .behind (within options fuel .value) fun _ => .still

def endStatement : Tracing Parser.endStatement :=
  .behind .still fun _ => .choice (skipToken false .word) (.choice .still (giveUp _ _))

def isolate (offset : Nat) (fault : Fault) : Tracing (Parser.isolate offset fault) :=
  .behind (idle .restart) fun _ => giveUp _ _

/-! ### Sources -/

/-- A round of a source, from its first token on. -/
def roundFrom (token : Token) : Tracing (Parser.roundFrom options resolver token) :=
  .choice (.behind (skipToken true .word) fun _ => .still) <|
    .choice (.behind (skipToken true .word) fun _ => .still) <|
      .choice (.behind (skipToken true .word) fun _ => .still) <|
        .behind (.attempt (parseStatement options resolver token)) fun outcome =>
          match outcome with
          | .ok _ => .behind endStatement fun _ => .still
          | .error fault => .behind (isolate token.start fault) fun _ => .still

/-- **A source**, with a bound on the rounds. -/
def parseAll : ∀ (fuel : Nat) (values : List Node),
    Tracing (Parser.parseAll options resolver fuel values)
  | 0, _ => exhausted
  | fuel + 1, values =>
    .same ((parseAll_succ ..).trans (sourceRound_eq ..)) <|
      .behind .still fun token => .choice .still <|
        .behind (roundFrom options resolver token) fun added => parseAll fuel (added ++ values)

end Parts

end Tracing

/-! ## Where tokens are taken -/

/-- **Tokens each of which is read where the one before it ends**, from one place to another. -/
inductive Strung : Place → List Token → Place → Prop
  | nil (p : Place) : Strung p [] p
  | cons {p q : Place} {tokens : List Token} (operators : OperatorRegistry) (policy : EscapePolicy)
      (skipBreaks : Bool) (mode : Mode)
      (rest : Strung (lex operators policy skipBreaks mode p).after tokens q) :
      Strung p ((lex operators policy skipBreaks mode p).token :: tokens) q

namespace Strung

variable {p q r : Place} {tokens more : List Token} {token : Token}

lemma of_eq (same : p = q) : Strung p [] q :=
  same ▸ .nil p

lemma append (front : Strung p tokens q) (back : Strung q more r) : Strung p (tokens ++ more) r := by
  induction front with
  | nil => exact back
  | cons operators policy skipBreaks mode _ ih => exact .cons operators policy skipBreaks mode (ih back)

/-- What a coherent stream has handed out is strung. -/
lemma of_chained {operators : OperatorRegistry} {policy : EscapePolicy} {reported : List Nat}
    {entries : List ReadAhead} (chained : Chained operators policy reported p entries) :
    Strung p (entries.map ReadAhead.token) (lastPlace p entries) := by
  induction entries generalizing p with
  | nil => exact .nil p
  | cons entry rest ih =>
    obtain ⟨token, after, -, chained⟩ := chained
    rw [lastPlace_cons, List.map_cons, token]
    exact .cons operators policy entry.skipBreaks entry.mode (after ▸ ih chained)

/-- A token of a string is read at some place further on. -/
lemma exists_lex (strung : Strung p tokens q) (mem : token ∈ tokens) :
    ∃ operators policy skipBreaks mode r, p.Reaches r ∧
      token = (lex operators policy skipBreaks mode r).token := by
  induction strung with
  | nil => cases mem
  | cons operators policy skipBreaks mode _ ih =>
    rcases List.mem_cons.mp mem with rfl | mem
    · exact ⟨operators, policy, skipBreaks, mode, _, .refl _, rfl⟩
    · obtain ⟨operators', policy', skipBreaks', mode', r, further, same⟩ := ih mem
      exact ⟨operators', policy', skipBreaks', mode', r, (reaches_lex ..).trans further, same⟩

/-- The tokens of a string begin where it does, or further on. -/
lemma offset_le (strung : Strung p tokens q) (mem : token ∈ tokens) : p.offset ≤ token.start := by
  obtain ⟨operators, policy, skipBreaks, mode, r, further, rfl⟩ := strung.exists_lex mem
  rw [(covers_lex operators policy skipBreaks mode r).start]
  exact (further.trans (reaches_begin skipBreaks r)).offset_le

/-- **The tokens of a string are in order** and do not overlap. -/
theorem pairwise (strung : Strung p tokens q) :
    tokens.Pairwise fun token later => token.stop ≤ later.start := by
  induction strung with
  | nil => exact .nil
  | @cons p _ _ operators policy skipBreaks mode rest ih =>
    refine .cons (fun later mem => ?_) ih
    rw [(covers_lex operators policy skipBreaks mode p).stop]
    exact rest.offset_le mem

end Strung

/-- **A token that stands for a character** stands on it in the text. -/
lemma mem_extract_of_sign {text : List Char} {p : Place} {c : Char} (operators : OperatorRegistry)
    (policy : EscapePolicy) (skipBreaks : Bool) (mode : Mode) (reaches : (Place.start text).Reaches p)
    (sign : (lex operators policy skipBreaks mode p).token.kind.sign? = some c) :
    let token := (lex operators policy skipBreaks mode p).token
    c ∈ text.extract token.start token.stop := by
  intro token
  have begins := reaches.trans (reaches_begin skipBreaks p)
  have start : token.start = (p.begin skipBreaks).offset := (covers_lex ..).start
  have head : (p.begin skipBreaks).rest.head? = some c := by
    rw [Place.begin]
    simp only [lex] at sign
    cases skips : skipTrivia skipBreaks p with
    | openComment q => simp [skips, TokenKind.sign?] at sign
    | token q =>
      rw [skips] at sign
      rcases kind_lexHere_cases operators policy mode q with
        ⟨-, ended⟩ | ⟨d, head, delimits | ⟨-, word⟩⟩
      · simp [ended, TokenKind.sign?] at sign
      · obtain rfl : d = c := by simpa [delimiter?_sign delimits] using sign
        exact head
      · generalize (lexHere operators policy mode q).token.kind = kind at sign word
        exact absurd word (by cases kind <;> first | decide | cases sign)
  have nonempty : token.start < token.stop := by
    rcases (lex_tiles operators policy skipBreaks mode reaches).2.2.2 with lies | ends
    · exact lies.start_lt_stop
    · simp [ends.kind, TokenKind.sign?] at sign
  rw [begins.head?, ← start] at head
  obtain ⟨inside, here⟩ := List.getElem?_eq_some_iff.mp head
  rw [List.extract_eq_take_drop, List.drop_eq_getElem_cons inside, here]
  obtain ⟨count, more⟩ : ∃ count, token.stop - token.start = count + 1 :=
    ⟨token.stop - token.start - 1, by omega⟩
  simp [more]

/-- **The tokens that are taken lead from where a parser was to where it is**, broken off or not. -/
theorem Tracing.strung {step : Parser α} (tracing : Tracing step) {s : ParserState}
    (coherent : s.tokens.Coherent s.visible.operators) :
    Coheres (step s) ∧ Further (Strung · (tracing.taken s) ·) s (step s) := by
  induction tracing generalizing s with
  | @still _ step stationary =>
    refine ⟨stationary.keeps s coherent, ?_⟩
    have stays := stationary.stays s
    generalize step s = outcome at stays
    cases outcome <;> exact Strung.of_eq stays
  | commit =>
    rw [commit_eq]
    refine ⟨(settled_commit coherent).coherent, ?_⟩
    show Strung s.here _ s.tokens.place
    rw [place_eq_lastPlace]
    exact .of_chained (chained_append.mp coherent).1
  | @behind _ _ step next first rest ih ihRest =>
    obtain ⟨keeps, front⟩ := ih coherent
    rw [taken]
    match outcome : step s with
    | .ok value t =>
      rw [outcome] at keeps front
      obtain ⟨keeps, back⟩ := ihRest value keeps
      rw [bind_ok outcome]
      refine ⟨keeps, ?_⟩
      generalize next value t = result at back
      cases result <;> exact Strung.append front back
    | .error fault t =>
      rw [outcome] at keeps front
      rw [bind_error outcome, List.append_nil]
      exact ⟨keeps, front⟩
  | choice first second ih ih' =>
    rw [taken]
    split
    · exact ih coherent
    · exact ih' coherent
  | @attempt _ step inner ih =>
    have there := ih coherent
    rw [taken, Parser.attempt]
    generalize step s = outcome at there
    cases outcome <;> exact there
  | same same inner ih =>
    subst same
    exact ih coherent

/-- **The tokens that are taken in a source.** -/
def takenTokens (options : CompileOptions) (resolver : Resolver) (source : Source)
    (imports : ImportState) : List Token :=
  (Tracing.parseAll options resolver (source.length + 1) []).taken (initial options source imports)

variable {options : CompileOptions} {resolver : Resolver} {source : Source} {imports : ImportState}

lemma exists_strung_takenTokens (options : CompileOptions) (resolver : Resolver) (source : Source)
    (imports : ImportState) :
    ∃ q, Strung (.start source.chars) (takenTokens options resolver source imports) q := by
  have strung := ((Tracing.parseAll options resolver (source.length + 1) []).strung
    (s := initial options source imports) trivial).2
  rw [takenTokens]
  generalize Parser.parseAll options resolver _ _ _ = outcome at strung
  cases outcome <;> exact ⟨_, strung⟩

/-- **The tokens of a source are taken in order.** -/
theorem pairwise_takenTokens (options : CompileOptions) (resolver : Resolver) (source : Source)
    (imports : ImportState) :
    (takenTokens options resolver source imports).Pairwise fun token later =>
      token.stop ≤ later.start := by
  obtain ⟨_, strung⟩ := exists_strung_takenTokens options resolver source imports
  exact strung.pairwise

/-- A token that stands for a character is found in the source. -/
lemma mem_extract_of_mem_takenTokens {token : Token} {c : Char}
    (mem : token ∈ takenTokens options resolver source imports) (sign : token.kind.sign? = some c) :
    c ∈ source.chars.extract token.start token.stop := by
  obtain ⟨_, strung⟩ := exists_strung_takenTokens options resolver source imports
  obtain ⟨operators, policy, skipBreaks, mode, r, reaches, rfl⟩ := strung.exists_lex mem
  exact mem_extract_of_sign operators policy skipBreaks mode reaches sign

end Parser

end TreeLang
