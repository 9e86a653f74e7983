/-!
# Tokens

A token is a piece of a text with its kind, the characters it covers and, for words and symbols,
its decoded content.  The same characters make different tokens at different places of the
grammar, so every token is read under a *mode* that the reader chooses.

* `Mode` — how characters are taken.
* `TokenKind` — what a token is; `TokenKind.closer?` pairs brackets.
* `Token`, `Token.text` — a token and how messages show it.
-/

namespace TreeLang

/-- How the characters at a place are taken. -/
inductive Mode where
  /-- Values inside objects and lists: a literal may hold blanks, and a colon is ordinary. -/
  | value
  /-- Keys: brackets and parentheses are ordinary. -/
  | key
  /-- Names and statement words: a literal ends at a blank and at every delimiter. -/
  | word
  /-- Parameter declarations: as words, and an equals sign is a delimiter. -/
  | parameter
  /-- Symbols in operator definitions: as words, but a colon is ordinary. -/
  | symbol
  /-- Operations: as words without a colon as delimiter, and registered operators are split off. -/
  | operation
deriving Repr, DecidableEq, Inhabited

/-- What a token is. -/
inductive TokenKind where
  | lBrace
  | rBrace
  | lBracket
  | rBracket
  | lParen
  | rParen
  | comma
  | colon
  | equals
  /-- A line break, where line breaks are not skipped. -/
  | lineBreak
  | endOfInput
  /-- A bare word or text. -/
  | literal
  /-- A text in quotes. -/
  | quoted
  /-- A registered operator that is a symbol. -/
  | operator
  /-- A registered operator that is a word. -/
  | keyword
  /-- A block comment that is not closed, up to the end of the text. -/
  | openComment
deriving Repr, DecidableEq, Inhabited

namespace TokenKind

/-- Whether the token opens a group. -/
def isOpener : TokenKind → Bool
  | lBrace | lBracket | lParen => true
  | _ => false

/-- Whether the token closes a group. -/
def isCloser : TokenKind → Bool
  | rBrace | rBracket | rParen => true
  | _ => false

/-- The closer that belongs to an opener. -/
def closer? : TokenKind → Option TokenKind
  | lBrace => some rBrace
  | lBracket => some rBracket
  | lParen => some rParen
  | _ => none

/-- Whether the token carries a text of the user's. -/
def isText : TokenKind → Bool
  | literal | quoted => true
  | _ => false

/-- How messages show a kind of token. -/
def text : TokenKind → String
  | lBrace => "'\x7b'"
  | rBrace => "'\x7d'"
  | lBracket => "'['"
  | rBracket => "']'"
  | lParen => "'('"
  | rParen => "')'"
  | comma => "','"
  | colon => "':'"
  | equals => "'='"
  | lineBreak => "line break"
  | endOfInput => "end of input"
  | literal => "literal"
  | quoted => "quoted literal"
  | operator => "operator"
  | keyword => "keyword"
  | openComment => "invalid input"

/-- Exactly the openers have a closer. -/
theorem closer?_isSome (kind : TokenKind) : kind.closer?.isSome = kind.isOpener := by
  cases kind <;> rfl

end TokenKind

/-- A token: its kind, its decoded content, and the characters it covers. -/
structure Token where
  kind : TokenKind
  /-- Empty for brackets, separators and breaks. -/
  content : String
  start : Nat
  stop : Nat
deriving Repr, DecidableEq, Inhabited

namespace Token

/-- Whether the token is the bare word given. -/
def isWord (token : Token) (word : String) : Bool :=
  token.kind = .literal && token.content = word

/-- How messages show a token. -/
def text (token : Token) : String :=
  match token.kind with
  | .literal | .operator | .keyword => "'" ++ token.content ++ "'"
  | .quoted => "\"" ++ token.content ++ "\""
  | kind => kind.text

end Token

end TreeLang
