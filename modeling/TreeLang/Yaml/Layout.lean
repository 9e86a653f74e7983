import TreeLang.Yaml.Scalar
import TreeLang.Yaml.Tag

/-!
# The layout of a YAML text

The tokens of a text are read from its characters, and from its layout come the tokens that no
character stands for.  Blocks are nested by the columns they begin in: a block ends with the first
thing that stands further to the left.  Within brackets and braces columns do not count.

A word is known to be a key only when the colon behind it is reached.  Until then its place among
the tokens is remembered as a *candidate*, one for each bracket that is open and one outside of them
all.  A candidate lapses at the end of its line or after 1024 characters; one that begins in the
column of its block has to be a key.

* `Candidate` — where a key may have begun.
* `Layout` — what is known in the midst of a text.
* `Layout.read?` — the next token, with the blanks in front of it.
* **`tokens?`** — all tokens of a text.
-/

namespace TreeLang.Yaml

/-- Where a key may have begun. -/
structure Candidate where
  place : Place
  /-- How many tokens stand before it. -/
  number : Nat
  /-- Whether it has to be a key. -/
  isRequired : Bool
deriving Repr

/-- What is known in the midst of a text. -/
structure Layout where
  place : Place
  /-- The tokens that were read, the last one first. -/
  tokens : List Token := []
  /-- For each block that is open the first column inside of it, the innermost first. -/
  blocks : List Nat := []
  /-- Whether a key may begin here. -/
  keyAllowed : Bool := true
  /-- The candidate outside of all brackets, or inside of the innermost that is open. -/
  candidate : Option Candidate := none
  /-- The candidates further out, one for each open bracket. -/
  outer : List (Option Candidate) := []
deriving Repr

namespace Layout

/-! ## Parts of a step -/

/-- Whether a bracket is open. -/
def inFlow (layout : Layout) : Bool :=
  !layout.outer.isEmpty

/-- The first column inside of the innermost block. -/
def indent (layout : Layout) : Nat :=
  layout.blocks.headD 0

/-- The layout with one more token. -/
def push (layout : Layout) (token : Token) : Layout :=
  { layout with tokens := token :: layout.tokens }

/-- The layout with a token for the next character. -/
def pushHere (layout : Layout) (token : Token) (length : Nat) : Layout :=
  { layout with tokens := token :: layout.tokens, place := layout.place.skip length }

/-- The layout with a token put before all but the first `number` ones. -/
def insertAt (layout : Layout) (number : Nat) (token : Token) : Layout :=
  let behind := layout.tokens.length - number
  { layout with tokens := layout.tokens.take behind ++ token :: layout.tokens.drop behind }

/-- Opens a block in a column that lies inside of the innermost one. -/
def openBlock (layout : Layout) (column number : Nat) (token : Token) : Layout :=
  if layout.inFlow || column < layout.indent then layout
  else { layout.insertAt number token with blocks := (column + 1) :: layout.blocks }

/-- **Closes the blocks that begin further to the right** than the first `columns` columns. -/
def closeBlocks (layout : Layout) (columns : Nat) : Layout :=
  if layout.inFlow then layout
  else
    let closed := (layout.blocks.takeWhile (columns < ·)).length
    { layout with
      tokens := List.replicate closed .blockEnd ++ layout.tokens
      blocks := layout.blocks.drop closed }

/-- Drops the candidate, unless it has to be a key. -/
def dropCandidate (layout : Layout) : Option Layout :=
  if layout.candidate.any Candidate.isRequired then none
  else some { layout with candidate := none }

/-- Makes this place the candidate, if a key may begin here. -/
def saveCandidate (layout : Layout) : Option Layout :=
  if !layout.keyAllowed then some layout
  else
    let isRequired := !layout.inFlow && layout.indent = layout.place.column + 1
    layout.dropCandidate.map fun layout =>
      { layout with
        candidate := some ⟨layout.place, layout.tokens.length, isRequired⟩ }

/-- A candidate as it is seen from a later place. -/
def lapse (place : Place) (candidate : Option Candidate) : Option (Option Candidate) :=
  match candidate with
  | none => some none
  | some key =>
    if key.place.line < place.line ∨ key.place.index + 1024 < place.index then
      if key.isRequired then none else some none
    else some (some key)

/-- Drops the candidates that have lapsed. -/
def lapseAll (layout : Layout) : Option Layout := do
  let candidate ← lapse layout.place layout.candidate
  let outer ← layout.outer.mapM (lapse layout.place)
  return { layout with candidate, outer }

/-- Skips blanks, comments and ends of lines.  A tab is no blank where a key may begin. -/
def skipTrivia : Nat → Layout → Layout
  | 0, layout => layout
  | fuel + 1, layout =>
    let place := layout.place
    let place := if place.column = 0 ∧ place.isAt (Char.ofNat 0xFEFF) then place.skip 1 else place
    let place := (place.skipWhile fun c =>
      c = ' ' || (c = '\t' && (layout.inFlow || !layout.keyAllowed))).skipComment
    if place.head?.any isBreak then
      skipTrivia fuel
        { layout with place := place.nextLine, keyAllowed := layout.keyAllowed || !layout.inFlow }
    else { layout with place }

/-! ## Tokens -/

/-- A line that sets documents apart, or a directive: everything before it is closed. -/
def closeAll (layout : Layout) : Option Layout :=
  (layout.closeBlocks 0).dropCandidate.map fun layout => { layout with keyAllowed := false }

/-- The opening of a bracket. -/
def openFlow (layout : Layout) (token : Token) : Option Layout := do
  let layout ← layout.saveCandidate
  return { layout with
    outer := layout.candidate :: layout.outer, candidate := none, keyAllowed := true }.pushHere
      token 1

/-- The closing of a bracket. -/
def closeFlow (layout : Layout) (token : Token) : Option Layout := do
  let layout ← layout.dropCandidate
  let layout := match layout.outer with
    | candidate :: outer => { layout with candidate, outer }
    | [] => layout
  return { layout with keyAllowed := false }.pushHere token 1

/-- The sign of an entry of a block sequence, or of a key. -/
def openEntry (layout : Layout) (opening token : Token) (keyAllowed : Bool) : Option Layout := do
  if !layout.inFlow && !layout.keyAllowed then none
  let opened := layout.openBlock layout.place.column layout.tokens.length opening
  let layout ← opened.dropCandidate
  return { layout with keyAllowed }.pushHere token 1

/-- **The colon of a value.**  It makes the candidate a key; without one the key was announced, or
is missing. -/
def readValue (layout : Layout) : Option Layout :=
  match layout.candidate with
  | some key =>
    let layout := layout.insertAt key.number .key
    let layout := layout.openBlock key.place.column key.number .blockMappingStart
    some ({ layout with candidate := none, keyAllowed := false }.pushHere .value 1)
  | none =>
    if layout.inFlow then some ({ layout with keyAllowed := false }.pushHere .value 1)
    else if !layout.keyAllowed then none
    else
      let column := layout.place.column
      some ((layout.openBlock column layout.tokens.length .blockMappingStart).pushHere .value 1)

/-- What may be the first part of a key: a scalar, an anchor or a tag. -/
def readNode (layout : Layout) (token : Token) (place : Place) (keyAllowed : Bool) :
    Option Layout :=
  layout.saveCandidate.map fun layout => { layout.push token with place, keyAllowed }

/-- A block of lines. -/
def readLines (layout : Layout) (isLiteral : Bool) : Option Layout := do
  let layout ← layout.dropCandidate
  let scanned ← readBlock isLiteral layout.indent layout.place
  let token := Token.scalar (String.ofList scanned.text) (if isLiteral then .literal else .folded)
  return { layout.push token with place := scanned.place, keyAllowed := true }

/-- A scalar in quotes. -/
def readQuotes (layout : Layout) (isSingle : Bool) : Option Layout := do
  let scanned ← readQuoted isSingle layout.place
  let style := if isSingle then Style.singleQuoted else .doubleQuoted
  layout.readNode (.scalar (String.ofList scanned.text) style) scanned.place false

/-- A scalar as it is; behind a break a key may begin. -/
def readWords (layout : Layout) : Option Layout := do
  let scanned ← readPlain layout.inFlow layout.indent layout.place
  layout.readNode (.scalar (String.ofList scanned.text) .plain) scanned.place scanned.isBroken

/-- Whether a plain scalar may begin with a character, `next` being the one behind it. -/
def startsPlain (layout : Layout) (c : Char) (next : Option Char) : Bool :=
  if c = '-' then !next.any isBlank
  else if c = '?' ∨ c = ':' then !layout.inFlow && !endsWord next
  else !(endsWord (some c) || ",[]\x7b\x7d#&*!|>'\"%@".toList.contains c || c.toNat = 0x60)

/-- The token that begins with a character. -/
def readAt? (layout : Layout) (c : Char) : Option Layout :=
  let place := layout.place
  let next := place.ahead? 1
  if c = '%' ∧ place.column = 0 then do
    let layout ← layout.closeAll
    let (token, place) ← readDirective? place
    return { layout.push token with place }
  else if place.startsMarkerOf '-' then layout.closeAll.map (·.pushHere .documentStart 3)
  else if place.startsMarkerOf '.' then layout.closeAll.map (·.pushHere .documentEnd 3)
  else if c = '[' then layout.openFlow .flowSequenceStart
  else if c = '{' then layout.openFlow .flowMappingStart
  else if c = ']' then layout.closeFlow .flowSequenceEnd
  else if c = '}' then layout.closeFlow .flowMappingEnd
  else if c = ',' then
    layout.dropCandidate.map fun layout => { layout with keyAllowed := true }.pushHere .flowEntry 1
  else if c = '-' ∧ endsWord next then layout.openEntry .blockSequenceStart .blockEntry true
  else if c = '?' ∧ (layout.inFlow ∨ endsWord next) then
    layout.openEntry .blockMappingStart .key !layout.inFlow
  else if c = ':' ∧ (layout.inFlow ∨ endsWord next) then layout.readValue
  else if c = '*' then do
    let (name, place) ← readAnchor? (place.skip 1)
    layout.readNode (.alias name) place false
  else if c = '&' then do
    let (name, place) ← readAnchor? (place.skip 1)
    layout.readNode (.anchor name) place false
  else if c = '!' then do
    let (token, place) ← readTag? layout.inFlow place
    layout.readNode token place false
  else if c = '|' ∧ !layout.inFlow then layout.readLines true
  else if c = '>' ∧ !layout.inFlow then layout.readLines false
  else if c = '\'' then layout.readQuotes true
  else if c = '"' then layout.readQuotes false
  else if layout.startsPlain c next then layout.readWords
  else none

/-- The end of the text. -/
def finish (layout : Layout) : Option (List Token) :=
  (layout.closeBlocks 0).dropCandidate.map fun layout => layout.tokens.reverse

/-- **Reads on to the end.**  Every token takes a character at least, so the bound is not met. -/
def read? : Nat → Layout → Option (List Token)
  | 0, _ => none
  | fuel + 1, layout => do
    let layout ← (layout.skipTrivia (layout.place.rest.length + 1)).lapseAll
    match layout.place.head? with
    | none => layout.finish
    | some c =>
      let layout := layout.closeBlocks (layout.place.column + 1)
      read? fuel (← layout.readAt? c)

end Layout

/-- **The tokens of a text**, if it is well-formed as far as its layout goes. -/
def tokens? (text : String) : Option (List Token) :=
  let place := Place.start text
  if place.rest.all isAllowed then Layout.read? (place.rest.length + 1) { place } else none

end TreeLang.Yaml
