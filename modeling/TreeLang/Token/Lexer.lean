import TreeLang.Operator.Registry
import TreeLang.Options
import TreeLang.Text.Blank
import TreeLang.Text.Hexadecimal
import TreeLang.Text.WordChar
import TreeLang.Token.Place

/-!
# Reading one token

A token is read at a place, under a mode, with the operators in force.  First come blanks, comments
and continued lines, which belong to no token; what follows them is a bracket or a separator, a
quoted text, an operator where operators are split off, or a literal.

* `skipTrivia` — where the next token begins.
* `Escape.read` — an escaped character, inside and outside quotes.
* `quotedFrom`, `literalFrom` — the contents of the two kinds of text.
* `symbolAt?`, `wordAt?` — the longest registered operator at a place.
* **`lex`** — the token, the place after it, and the reports it gives rise to.
-/

namespace TreeLang

/-! ## Between tokens -/

/-- How many characters there are up to the end of a block comment, whose opening was read. -/
def commentLength? : List Char → Option Nat
  | [] => none
  | c :: rest =>
    if c = '*' ∧ rest.head? = some '/' then some 2 else (commentLength? rest).map (· + 1)

/-- Where the characters between two tokens end. -/
inductive TriviaEnd where
  /-- A token begins here, or the text ends. -/
  | token (place : Place)
  /-- A block comment begins here and is not closed. -/
  | openComment (place : Place)

/-- **Skips what belongs to no token**: blanks, comments, and a backslash at the end of a line
together with the line break.  Other line breaks are skipped only if the reader says so. -/
def skipTrivia (skipBreaks : Bool) (place : Place) : TriviaEnd :=
  match _h : place.rest with
  | [] => .token place
  | c :: rest =>
    if c = '\n' ∧ skipBreaks = false then .token place
    else if Text.isBlank c then skipTrivia skipBreaks place.next
    else if c = '\\' ∧ rest.head? = some '\n' then skipTrivia skipBreaks (place.skip 2)
    else if c = '/' ∧ rest.head? = some '/' then
      skipTrivia skipBreaks (place.skip (2 + (rest.tail.takeWhile (· ≠ '\n')).length))
    else if c = '/' ∧ rest.head? = some '*' then
      match commentLength? rest.tail with
      | some length => skipTrivia skipBreaks (place.skip (2 + length))
      | none => .openComment place
    else .token place
termination_by place.rest.length
decreasing_by all_goals simp_all <;> omega

/-! ## Escapes -/

/-- What an escape stands for: its text, and how many characters it takes with its backslash. -/
structure Escape where
  text : List Char
  width : Nat
  reports : List Report

namespace Escape

/-- An escape by code point.  A malformed one stands for its letter and takes no digit. -/
def unicode (policy : EscapePolicy) (offset : Nat) (letter : Char) (digits : Nat)
    (following : List Char) : Escape :=
  match codePoint? digits following with
  | some c => ⟨[c], 2 + digits, []⟩
  | none =>
    let shown := (following.take digits).takeWhile fun c => (hexDigit? c).isSome
    let cause := Cause.invalidEscape letter digits (String.ofList shown)
    ⟨[letter], 2, policy.severity?.toList.map (Report.errorAt offset cause).withSeverity⟩

/-- **Reads an escape**: the letter after the backslash at `offset`, and what follows it.  Three
letters stand for control characters, two introduce code points, and any other character for
itself. -/
def read (policy : EscapePolicy) (offset : Nat) (letter : Char) (following : List Char) : Escape :=
  if letter = 'n' then ⟨['\n'], 2, []⟩
  else if letter = 't' then ⟨['\t'], 2, []⟩
  else if letter = 'r' then ⟨['\r'], 2, []⟩
  else if letter = 'u' then unicode policy offset letter 4 following
  else if letter = 'U' then unicode policy offset letter 6 following
  else ⟨[letter], 2, []⟩

/-- An escape takes at least its backslash and its letter. -/
theorem two_le_width (policy : EscapePolicy) (offset : Nat) (letter : Char)
    (following : List Char) : 2 ≤ (read policy offset letter following).width := by
  have unicode_width : ∀ digits, 2 ≤ (unicode policy offset letter digits following).width :=
    fun digits => by rw [unicode]; split <;> simp
  unfold read
  repeat' split
  all_goals first | exact unicode_width _ | simp

end Escape

/-! ## Quoted texts -/

/-- The content of a quoted text. -/
structure QuotedScan where
  text : List Char
  /-- After the closing quote, or at the end of the source. -/
  after : Place
  closed : Bool
  reports : List Report

/-- The place after the indentation of a continued line, if a bar marks its end. -/
def skipFold (place : Place) : Place :=
  let indent := (place.rest.takeWhile fun c => c = ' ' || c = '\t').length
  if (place.rest.drop indent).head? = some '|' then place.skip (indent + 1) else place

theorem length_rest_skipFold (place : Place) :
    (skipFold place).rest.length ≤ place.rest.length := by
  rw [skipFold]; split <;> simp

/-- **Reads a quoted text** from after its opening quote.  A backslash at the end of a line joins
the lines, a carriage return before a line break is dropped, and the lines after a break may be
indented up to a bar. -/
def quotedFrom (policy : EscapePolicy) (quote : Char) (place : Place) : QuotedScan :=
  match _h : place.rest with
  | [] => ⟨[], place, false, []⟩
  | c :: rest =>
    if c = quote then ⟨[], place.next, true, []⟩
    else if c = '\\' then
      match rest with
      | [] => quotedFrom policy quote place.next
      | letter :: following =>
        if letter = '\n' then quotedFrom policy quote (place.skip 2)
        else
          let escape := Escape.read policy place.offset letter following
          have := Escape.two_le_width policy place.offset letter following
          let scan := quotedFrom policy quote (place.skip escape.width)
          { scan with text := escape.text ++ scan.text, reports := escape.reports ++ scan.reports }
    else if c = '\r' ∧ rest.head? = some '\n' then quotedFrom policy quote place.next
    else if c = '\n' then
      have := length_rest_skipFold place.next
      let scan := quotedFrom policy quote (skipFold place.next)
      { scan with text := '\n' :: scan.text }
    else
      let scan := quotedFrom policy quote place.next
      { scan with text := c :: scan.text }
termination_by place.rest.length
decreasing_by all_goals simp_all <;> omega

/-! ## Operators -/

/-- Whether the character at a place stands between two decimal digits. -/
def betweenDigits (place : Place) : Bool :=
  (place.previous.any Char.isDigit) && (place.rest.tail.head?.any Char.isDigit)

/-- **The longest symbol operator at a place.**  A point between two digits is part of a number. -/
def symbolAt? (operators : OperatorRegistry) (place : Place) : Option String :=
  place.rest.head?.bind fun c =>
    (operators.symbols false c).find? fun name =>
      name.toList.isPrefixOf place.rest && (name ≠ "." || !betweenDigits place)

/-- **The longest word operator at a place**: the word has to end there. -/
def wordAt? (operators : OperatorRegistry) (place : Place) : Option String :=
  place.rest.head?.bind fun c =>
    (operators.symbols true c).find? fun name =>
      name.toList.isPrefixOf place.rest &&
        !((place.rest.drop name.length).head?.any Text.continuesWord)

/-! ## Literals -/

/-- Whether a colon is a delimiter. -/
def Mode.colonDelimits : Mode → Bool
  | .key | .word | .parameter => true
  | _ => false

/-- Whether a literal ends at a blank. -/
def Mode.endsAtBlank : Mode → Bool
  | .value | .key => false
  | _ => true

/-- The token that a bracket, a separator or a line break makes under a mode. -/
def delimiter? (mode : Mode) (c : Char) : Option TokenKind :=
  if c = '\n' then some .lineBreak
  else if c = '{' then some .lBrace
  else if c = '}' then some .rBrace
  else if c = ',' then some .comma
  else if c = '[' ∧ mode ≠ .key then some .lBracket
  else if c = ']' ∧ mode ≠ .key then some .rBracket
  else if c = '(' ∧ mode ≠ .key then some .lParen
  else if c = ')' ∧ mode ≠ .key then some .rParen
  else if c = ':' ∧ mode.colonDelimits then some .colon
  else if c = '=' ∧ mode = .parameter then some .equals
  else none

/-- The content of a literal: its text and the place after its last character, nothing if it holds
blanks alone. -/
structure LiteralScan where
  content : Option (List Char × Place)
  reports : List Report

/-- A scan with characters in front that belong to the literal whatever follows. -/
def LiteralScan.keep (scan : LiteralScan) (text : List Char) (after : Place) : LiteralScan :=
  { scan with content := match scan.content with
      | some (more, stop) => some (text ++ more, stop)
      | none => some (text, after) }

/-- A scan with a blank in front, which belongs to the literal only if something follows it. -/
def LiteralScan.keepBlank (scan : LiteralScan) (c : Char) : LiteralScan :=
  { scan with content := scan.content.map fun (more, stop) => (c :: more, stop) }

/-- **Reads a literal** up to a delimiter, a comment, a blank where blanks end it, or an operator
where operators are split off.  Blanks at its end do not belong to it.  `first` tells that nothing
was read yet: at the first character no operator is looked for. -/
def literalFrom (operators : OperatorRegistry) (policy : EscapePolicy) (mode : Mode) (first : Bool)
    (place : Place) : LiteralScan :=
  match _h : place.rest with
  | [] => ⟨none, []⟩
  | c :: rest =>
    if c = '\\' then
      match rest with
      | [] => (LiteralScan.mk none []).keep ['\\'] place.next
      | letter :: following =>
        if letter = '\n' then literalFrom operators policy mode false (place.skip 2)
        else
          let escape := Escape.read policy place.offset letter following
          have := Escape.two_le_width policy place.offset letter following
          let after := place.skip escape.width
          let scan := (literalFrom operators policy mode false after).keep escape.text after
          { scan with reports := escape.reports ++ scan.reports }
    else if (delimiter? mode c).isSome then ⟨none, []⟩
    else if Text.isBlank c then
      if mode.endsAtBlank then ⟨none, []⟩
      else (literalFrom operators policy mode false place.next).keepBlank c
    else if c = '/' ∧ (rest.head? = some '/' ∨ rest.head? = some '*') then ⟨none, []⟩
    else if mode = .operation ∧ first = false ∧ (symbolAt? operators place).isSome then ⟨none, []⟩
    else (literalFrom operators policy mode false place.next).keep [c] place.next
termination_by place.rest.length
decreasing_by all_goals simp_all <;> omega

/-! ## Tokens -/

/-- A token as read: the token, the place after it, and what was wrong with it. -/
structure Lexeme where
  token : Token
  after : Place
  reports : List Report

/-- The quoted text whose opening quote stands at a place. -/
def lexQuoted (policy : EscapePolicy) (quote : Char) (place : Place) : Lexeme :=
  let scan := quotedFrom policy quote place.next
  ⟨⟨.quoted, String.ofList scan.text, place.offset, scan.after.offset⟩, scan.after,
    scan.reports ++
      if scan.closed then [] else [Report.errorAt place.offset (.openQuote quote)]⟩

/-- The literal that begins at a place. -/
def lexLiteral (operators : OperatorRegistry) (policy : EscapePolicy) (mode : Mode)
    (place : Place) : Lexeme :=
  let scan := literalFrom operators policy mode true place
  let (text, stop) := scan.content.getD ([], place)
  ⟨⟨.literal, String.ofList text, place.offset, stop.offset⟩, stop, scan.reports⟩

/-- The operator at a place, words before symbols. -/
def lexOperator? (operators : OperatorRegistry) (place : Place) : Option Lexeme :=
  let lexeme (kind : TokenKind) (name : String) : Lexeme :=
    let after := place.skip name.length
    ⟨⟨kind, name, place.offset, after.offset⟩, after, []⟩
  ((wordAt? operators place).map (lexeme .keyword)).or
    ((symbolAt? operators place).map (lexeme .operator))

/-- The token that begins at a place, which no trivia does. -/
def lexHere (operators : OperatorRegistry) (policy : EscapePolicy) (mode : Mode) (place : Place) :
    Lexeme :=
  match place.rest.head? with
  | none => ⟨⟨.endOfInput, "", place.offset, place.offset⟩, place, []⟩
  | some c =>
    match delimiter? mode c with
    | some kind => ⟨⟨kind, "", place.offset, place.next.offset⟩, place.next, []⟩
    | none =>
      if c = '"' ∨ c = '\'' then lexQuoted policy c place
      else
        let operator := if mode = .operation then lexOperator? operators place else none
        operator.getD (lexLiteral operators policy mode place)

/-- **Reads the next token.**  An open block comment is one token up to the end of the text. -/
def lex (operators : OperatorRegistry) (policy : EscapePolicy) (skipBreaks : Bool) (mode : Mode)
    (place : Place) : Lexeme :=
  match skipTrivia skipBreaks place with
  | .token place => lexHere operators policy mode place
  | .openComment place =>
    let stop := place.skip place.rest.length
    ⟨⟨.openComment, "", place.offset, stop.offset⟩, stop,
      [Report.errorAt place.offset .openComment]⟩

end TreeLang
