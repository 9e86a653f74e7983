import TreeLang.Import.Resolver
import TreeLang.Source
import TreeLang.Token.Stream

/-!
# The state of a parse

The grammar grows while it is read: an operator statement changes how later operations are cut into
tokens, a macro statement changes what later nodes expand into.  So a parser carries, besides the
tokens, the definitions in force, those handed to importers, and what belongs to the statement
being read.

* `TemplateScope` — the marks made while a template is read.
* `ParserState`, `Parser` — the state, and computations over it that a fault may break off.
* `peek`, `advance`, `lookAhead` — tokens.
* `note` — reports.
* **`recover`** — skips to where parsing can go on after a mistake.
-/

namespace TreeLang

/-- The parameters of the template being read, and the marks made so far. -/
structure TemplateScope where
  parameters : List String
  references : Marks Reference
  deferred : Marks MacroKind

namespace TemplateScope

/-- The scope of a template of which nothing was read. -/
def start (parameters : List String) : TemplateScope :=
  ⟨parameters, .empty, .empty⟩

/-- Whether a node or one below it refers to a parameter. -/
def mentionsParameter (scope : TemplateScope) (node : Node) : Bool :=
  node.nodes.any fun (_, inner) => scope.references.contains inner.id

/-- The scope without the marks on a node and those below it. -/
def drop (scope : TemplateScope) (node : Node) : TemplateScope :=
  node.nodes.foldl (fun scope (_, inner) =>
    { scope with
      references := scope.references.erase inner.id
      deferred := scope.deferred.erase inner.id }) scope

end TemplateScope

/-- What a parser knows between two tokens. -/
structure ParserState where
  tokens : TokenStream
  /-- The number given to the last node. -/
  lastId : Nat
  /-- Everything that can be used. -/
  visible : Definitions
  /-- What is handed to importers. -/
  exported : Definitions
  scope : Option TemplateScope
  reports : Array Report
  /-- Whether tokens are being skipped after a mistake; nothing is reported then. -/
  recovering : Bool
  /-- How deep the expansion of the current invocation is nested. -/
  depth : Nat
  /-- Set for the right operand of an accessor, whose own name belongs to the call. -/
  suppressed : Bool
  /-- The closers that the groups being read wait for, the innermost first. -/
  awaited : List TokenKind
  imports : ImportState

/-- **A step of parsing.**  A fault breaks it off and leaves the state as it was then. -/
abbrev Parser := EStateM Fault ParserState

namespace Parser

/-- The state before the first token of a source. -/
def initial (options : CompileOptions) (source : Source) (imports : ImportState) : ParserState where
  tokens := .start options.invalidUnicodeEscape source.chars
  lastId := 0
  visible := ⟨.empty, if options.defaultOperators then .defaults else .empty⟩
  exported := .empty
  scope := none
  reports := #[]
  recovering := false
  depth := 0
  suppressed := false
  awaited := []
  imports := imports

/-! ## Reports -/

/-- Records a report of any severity, unless tokens are being skipped. -/
def note (report : Report) : Parser Unit :=
  modify fun s => if s.recovering then s else { s with reports := s.reports.push report }

/-- Records a mistake at a place. -/
def complain (offset : Nat) (cause : Cause) : Parser Unit :=
  note (Report.errorAt offset cause)

/-- Records what was wrong with the tokens read so far. -/
def noteLexical : Parser Unit := do
  let s ← get
  let (reports, tokens) := s.tokens.takeReports
  set { s with tokens := tokens }
  reports.forM note

/-- How many errors were recorded. -/
def errorCount : Parser Nat :=
  return (← get).reports.countP Report.isError

/-! ## Tokens -/

/-- Hands out the next token without keeping it. -/
def lookAhead (skipBreaks : Bool) (mode : Mode) : Parser Token :=
  modifyGet fun s =>
    let (token, tokens) := s.tokens.next s.visible.operators skipBreaks mode
    (token, { s with tokens := tokens })

/-- Back to the last token that was kept. -/
def rewind : Parser Unit :=
  modify fun s => { s with tokens := s.tokens.rewind }

/-- Back to the last token that was kept; what was read ahead is read anew. -/
def forget : Parser Unit :=
  modify fun s => { s with tokens := s.tokens.forget }

/-- Keeps the tokens handed out, and records what was wrong with them. -/
def commit : Parser Unit := do
  modify fun s => { s with tokens := s.tokens.commit }
  noteLexical

/-- **The next token**, left where it is. -/
def peek (skipBreaks : Bool) (mode : Mode) : Parser Token := do
  let token ← lookAhead skipBreaks mode
  rewind
  return token

/-- **The next token**, taken. -/
def advance (skipBreaks : Bool) (mode : Mode) : Parser Token := do
  let token ← lookAhead skipBreaks mode
  commit
  return token

/-- Takes the next token, whatever it is. -/
def skipToken (skipBreaks : Bool) (mode : Mode) : Parser Unit := do
  let _ ← advance skipBreaks mode

/-- The offset after the last token taken. -/
def position : Parser Nat :=
  return (← get).tokens.position

/-- How many characters lie ahead. -/
def remaining : Parser Nat :=
  return (← get).tokens.place.rest.length

/-! ## Nodes -/

/-- The number for a new node. -/
def freshId : Parser Nat :=
  modifyGet fun s => (s.lastId + 1, { s with lastId := s.lastId + 1 })

/-- The text of the node that stands where no value could be read. -/
def placeholder : String := "ERROR"

/-- The node that stands where no value could be read. -/
def placeholderAt (offset : Nat) : Parser Node :=
  return .primitive placeholder ⟨← freshId, ⟨offset, offset⟩⟩

/-- The index of the parameter of the current template that a word names. -/
def parameterIndex? (word : String) : Parser (Option Nat) :=
  return (← get).scope.bind fun scope => scope.parameters.findIdx? (· = word)

/-- Marks a node as a reference, if a template is being read. -/
def markReference (id : Nat) (reference : Reference) : Parser Unit :=
  modify fun s => { s with scope := s.scope.map fun scope =>
    { scope with references := scope.references.insert id reference } }

/-- Whether the right operand of an accessor is next; the answer is given once. -/
def takeSuppressed : Parser Bool :=
  modifyGet fun s => (s.suppressed, { s with suppressed := false })

/-- Says whether the right operand of an accessor is next. -/
def setSuppressed (suppressed : Bool) : Parser Unit :=
  modify fun s => { s with suppressed := suppressed }

/-! ## Groups -/

/-- Waits for one more closer. -/
def await (closer : TokenKind) : Parser Unit :=
  modify fun s => { s with awaited := closer :: s.awaited }

/-- Waits no longer for the innermost closer. -/
def settle : Parser Unit :=
  modify fun s => { s with awaited := s.awaited.tail }

/-- Whether a token closes one of the groups being read. -/
def closesAwaited (kind : TokenKind) : Parser Bool :=
  return kind.isCloser && (← get).awaited.contains kind

/-! ## Recovery

After a mistake tokens are skipped as words.  A group that is opened on the way is skipped whole,
so that the separators inside it are not mistaken for the end of what is skipped.
-/

/-- Skips past the closer of a group whose opener was taken, or up to a closer that another group
waits for. -/
def skipGroup : Nat → Option TokenKind → Parser Unit
  | 0, _ => throw .exhausted
  | fuel + 1, closer => do
    let token ← peek true .word
    if token.kind = .endOfInput then return
    if some token.kind ≠ closer && (← closesAwaited token.kind) then return
    skipToken true .word
    if some token.kind = closer then return
    if token.kind.isOpener then skipGroup fuel token.kind.closer?
    skipGroup fuel closer

/-- Skips up to a separator, the given closer, a closer that a group waits for, or the end; a
separator is taken. -/
def skipToSeparator : Nat → Option TokenKind → Parser Unit
  | 0, _ => throw .exhausted
  | fuel + 1, closer => do
    let token ← peek false .word
    if token.kind = .endOfInput then return
    if some token.kind = closer || (← closesAwaited token.kind) then return
    skipToken false .word
    if token.kind = .comma || token.kind = .lineBreak then return
    if token.kind.isOpener then skipGroup fuel token.kind.closer?
    skipToSeparator fuel closer

/-- **Recovers from a mistake**: skips to where parsing can go on, without a report. -/
def recover (closer : Option TokenKind) : Parser Unit := do
  modify fun s => { s with recovering := true }
  skipToSeparator ((← remaining) + 1) closer
  modify fun s => { s with recovering := false }

/-- Runs a step and answers the fault that broke it off, if one did. -/
def attempt {α : Type} (step : Parser α) : Parser (Except Fault α) := fun s =>
  match step s with
  | .ok value s => .ok (.ok value) s
  | .error fault s => .ok (.error fault) s

end Parser

end TreeLang
