import TreeLang.Token.Lexer

/-!
# A stream of tokens with lookahead

A parser looks ahead before it decides, and often reads the same characters again under another
mode.  The stream keeps what was read since the last commitment: the tokens that were handed out
and, after a rewind, those that can be handed out again.  A token is handed out again only when it
is asked for under the mode it was read in; otherwise it and everything after it is read anew.

* `TokenStream.next` — hands out a token.
* `commit` — keeps what was handed out: there is no way back.
* `rewind`, `forget` — back to the last commitment, with or without the tokens read ahead.
* `takeReports` — what was wrong with the tokens read so far, each offset once.
-/

namespace TreeLang

/-- A token read ahead, with the mode it was read in. -/
structure ReadAhead where
  token : Token
  after : Place
  skipBreaks : Bool
  mode : Mode

/-- A text being read token by token. -/
structure TokenStream where
  policy : EscapePolicy
  /-- The place of the last commitment. -/
  anchor : Place
  /-- Handed out since then, the latest first. -/
  handed : List ReadAhead
  /-- Read before a rewind and not handed out again, the next one first. -/
  ahead : List ReadAhead
  reports : List Report
  /-- Where something was reported already. -/
  reported : List Nat

namespace TokenStream

/-- The stream at the beginning of a text. -/
def start (policy : EscapePolicy) (text : List Char) : TokenStream where
  policy := policy
  anchor := .start text
  handed := []
  ahead := []
  reports := []
  reported := []

/-- The place after the last token handed out. -/
def place (stream : TokenStream) : Place :=
  match stream.handed with
  | [] => stream.anchor
  | last :: _ => last.after

/-- The offset after the last token handed out. -/
def position (stream : TokenStream) : Nat :=
  stream.place.offset

/-- The stream with one more report, unless something was reported at its offset before. -/
def report (stream : TokenStream) (report : Report) : TokenStream :=
  let offset := report.offset.getD 0
  if stream.reported.contains offset then stream
  else { stream with
    reports := stream.reports ++ [report]
    reported := offset :: stream.reported }

/-- Reads a token at the current place and hands it out. -/
def read (stream : TokenStream) (operators : OperatorRegistry) (skipBreaks : Bool) (mode : Mode) :
    Token × TokenStream :=
  let lexeme := lex operators stream.policy skipBreaks mode stream.place
  let entry := ⟨lexeme.token, lexeme.after, skipBreaks, mode⟩
  (lexeme.token,
    lexeme.reports.foldl report { stream with handed := entry :: stream.handed, ahead := [] })

/-- **Hands out the next token** under a mode. -/
def next (stream : TokenStream) (operators : OperatorRegistry) (skipBreaks : Bool) (mode : Mode) :
    Token × TokenStream :=
  match stream.ahead with
  | [] => stream.read operators skipBreaks mode
  | entry :: rest =>
    if entry.mode = mode ∧ entry.skipBreaks = skipBreaks then
      (entry.token, { stream with handed := entry :: stream.handed, ahead := rest })
    else stream.read operators skipBreaks mode

/-- Keeps what was handed out. -/
def commit (stream : TokenStream) : TokenStream :=
  { stream with anchor := stream.place, handed := [] }

/-- Back to the last commitment; what was handed out since can be handed out again. -/
def rewind (stream : TokenStream) : TokenStream :=
  { stream with handed := [], ahead := stream.handed.reverse ++ stream.ahead }

/-- Back to the last commitment; everything after it is read anew. -/
def forget (stream : TokenStream) : TokenStream :=
  { stream with handed := [], ahead := [] }

/-- The reports since the last time they were taken. -/
def takeReports (stream : TokenStream) : List Report × TokenStream :=
  (stream.reports, { stream with reports := [] })

/-- Rewinding leads back to the place of the last commitment. -/
@[simp] theorem place_rewind (stream : TokenStream) : stream.rewind.place = stream.anchor := rfl

/-- So does forgetting. -/
@[simp] theorem place_forget (stream : TokenStream) : stream.forget.place = stream.anchor := rfl

/-- A commitment stays at the current place. -/
@[simp] theorem place_commit (stream : TokenStream) : stream.commit.place = stream.place := rfl

end TokenStream

end TreeLang
