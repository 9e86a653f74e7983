import TreeLang.Text.Hexadecimal
import TreeLang.Yaml.Token

/-!
# Scalars of a YAML text

A scalar may run over several lines.  Outside of literal blocks the lines are *folded*: one end of a
line reads as a space, several read as all but the first of them.

Each reader starts at a place and answers the text it read with the place behind it, or nothing if
no scalar can be read there.  The bound that each takes is the number of characters that are left,
which no reading exceeds.

* `Gap` — the blanks and breaks between two words of a scalar.
* `readPlain`, `readQuoted`, `readBlock` — the three kinds of scalar.
-/

namespace TreeLang.Yaml

/-! ## Gaps -/

/-- What stands between two words of a scalar. -/
structure Gap where
  /-- The blanks, if the gap lies within a line. -/
  blanks : List Char := []
  /-- Whether the gap reaches over the end of a line. -/
  isBroken : Bool := false
  /-- The first end of a line, and the others. -/
  first : List Char := []
  others : List Char := []
deriving Repr

namespace Gap

/-- **What a gap reads as.** -/
def text (gap : Gap) : List Char :=
  if !gap.isBroken then gap.blanks
  else if gap.first = ['\n'] then (if gap.others.isEmpty then [' '] else gap.others)
  else gap.first ++ gap.others

/-- A gap with a further end of a line. -/
def addBreak (gap : Gap) (lineBreak : List Char) : Gap :=
  if gap.isBroken then { gap with others := gap.others ++ lineBreak }
  else { isBroken := true, first := lineBreak }

/-- Reads a gap on.  In the columns before `indent` a tab is no indentation. -/
def read (indent : Nat) : Nat → Gap → Place → Option (Gap × Place)
  | 0, _, _ => none
  | fuel + 1, gap, place =>
    match place.head? with
    | none => some (gap, place)
    | some c =>
      if isBreak c then read indent fuel (gap.addBreak place.lineBreak) place.nextLine
      else if !isBlank c then some (gap, place)
      else if !gap.isBroken then
        read indent fuel { gap with blanks := gap.blanks ++ [c] } (place.skip 1)
      else if c = '\t' ∧ place.column < indent then none
      else read indent fuel gap (place.skip 1)

end Gap

/-! ## Plain scalars -/

/-- A scalar that was read, with the place behind it. -/
structure Scanned where
  text : List Char
  /-- Whether the place lies on a line behind the one where the scalar ended. -/
  isBroken : Bool
  place : Place
deriving Repr

/-- Whether a character is one that gives a flow collection its form. -/
def isFlowIndicator (c : Char) : Bool :=
  c = ',' || c = '[' || c = ']' || c = '{' || c = '}'

/-- How many characters of a word there are; within a flow collection, a colon in front of what
gives the collection its form is refused. -/
def plainLength? (inFlow : Bool) : List Char → Option Nat
  | [] => some 0
  | c :: rest =>
    if isBlank c || isBreak c then some 0
    else if inFlow && c = ':' && rest.head?.any (fun c => isFlowIndicator c || c = '?') then none
    else if c = ':' && endsWord rest.head? || inFlow && isFlowIndicator c then some 0
    else (plainLength? inFlow rest).map (· + 1)

/-- Words and gaps of a plain scalar, `indent` being the first column that belongs to its block. -/
def plainFrom (inFlow : Bool) (indent : Nat) : Nat → List Char → Gap → Place → Option Scanned
  | 0, _, _, _ => none
  | fuel + 1, text, gap, place =>
    if place.startsMarker || place.isAt '#' then some ⟨text, gap.isBroken, place⟩
    else do
      let length ← plainLength? inFlow place.rest
      let read := if length = 0 then text else text ++ gap.text ++ place.rest.take length
      let after := place.skip length
      if !after.head?.any fun c => isBlank c || isBreak c then
        return ⟨read, gap.isBroken && length = 0, after⟩
      else
        let (gap, after) ← Gap.read indent (after.rest.length + 1) {} after
        if !inFlow && after.column < indent then return ⟨read, gap.isBroken, after⟩
        else plainFrom inFlow indent fuel read gap after

/-- **A plain scalar.** -/
def readPlain (inFlow : Bool) (indent : Nat) (place : Place) : Option Scanned :=
  plainFrom inFlow indent (place.rest.length + 1) [] {} place

/-! ## Quoted scalars -/

/-- The character that a letter behind a backslash stands for. -/
def unescape? (c : Char) : Option Char :=
  if c = ' ' ∨ c = '"' ∨ c = '/' ∨ c = '\\' then some c
  else if c = '0' then some (Char.ofNat 0)
  else if c = 'a' then some (Char.ofNat 7)
  else if c = 'b' then some (Char.ofNat 8)
  else if c = 't' ∨ c = '\t' then some '\t'
  else if c = 'n' then some '\n'
  else if c = 'v' then some (Char.ofNat 11)
  else if c = 'f' then some (Char.ofNat 12)
  else if c = 'r' then some '\r'
  else if c = 'e' then some (Char.ofNat 27)
  else if c = 'N' then some (Char.ofNat 0x85)
  else if c = '_' then some (Char.ofNat 0xA0)
  else if c = 'L' then some (Char.ofNat 0x2028)
  else if c = 'P' then some (Char.ofNat 0x2029)
  else none

/-- How many hexadecimal digits follow a letter behind a backslash. -/
def codeLength? (c : Char) : Option Nat :=
  if c = 'x' then some 2 else if c = 'u' then some 4 else if c = 'U' then some 8 else none

/-- The character that is written behind a backslash, and how long it is written there. -/
def readEscape? : List Char → Option (Char × Nat)
  | [] => none
  | letter :: rest =>
    match codeLength? letter with
    | none => (unescape? letter).map fun c => (c, 1)
    | some length => (codePoint? length rest).map fun c => (c, length + 1)

/-- A word of a quoted scalar, up to a blank, a break or the closing quote.  The word ends broken
behind a backslash at the end of a line. -/
def quotedWord (isSingle : Bool) : Nat → List Char → Place → Option Scanned
  | 0, _, _ => none
  | fuel + 1, text, place =>
    match place.rest with
    | [] => some ⟨text, false, place⟩
    | c :: rest =>
      if isBlank c || isBreak c then some ⟨text, false, place⟩
      else if isSingle then
        if c ≠ '\'' then quotedWord isSingle fuel (text ++ [c]) (place.skip 1)
        else if rest.head? = some '\'' then quotedWord isSingle fuel (text ++ [c]) (place.skip 2)
        else some ⟨text, false, place⟩
      else if c = '"' then some ⟨text, false, place⟩
      else if c ≠ '\\' then quotedWord isSingle fuel (text ++ [c]) (place.skip 1)
      else if rest.head?.any isBreak then some ⟨text, true, (place.skip 1).nextLine⟩
      else do
        let (c, length) ← readEscape? rest
        quotedWord isSingle fuel (text ++ [c]) (place.skip (length + 1))

/-- Words and gaps of a quoted scalar from after its opening quote. -/
def quotedFrom (isSingle : Bool) : Nat → List Char → Place → Option Scanned
  | 0, _, _ => none
  | fuel + 1, text, place =>
    if place.startsMarker || place.rest.isEmpty then none
    else do
      let word ← quotedWord isSingle (place.rest.length + 1) text place
      if word.place.isAt (if isSingle then '\'' else '"') then
        return ⟨word.text, false, word.place.skip 1⟩
      else
        let (gap, place) ← Gap.read 0 (word.place.rest.length + 1) { isBroken := word.isBroken }
          word.place
        quotedFrom isSingle fuel (word.text ++ gap.text) place

/-- **A quoted scalar**, with its quotes. -/
def readQuoted (isSingle : Bool) (place : Place) : Option Scanned :=
  quotedFrom isSingle (place.rest.length + 1) [] (place.skip 1)

/-! ## Blocks of lines -/

/-- What becomes of the ends of lines at the end of a block. -/
inductive Chomping where
  /-- One is kept. -/
  | clip
  | strip
  | keep
deriving Repr, DecidableEq

/-- What the head of a block says: what becomes of its end, and by how much it is indented. -/
structure BlockHead where
  chomping : Chomping := .clip
  indent : Nat := 0
deriving Repr

/-- The sign for what becomes of the end of a block, if there is one. -/
def readChomping (place : Place) : Option Chomping × Place :=
  if place.isAt '+' then (some .keep, place.skip 1)
  else if place.isAt '-' then (some .strip, place.skip 1)
  else (none, place)

/-- The digit for the indentation of a block, if there is one; it may not be zero. -/
def readIndent (place : Place) : Option (Nat × Place) :=
  match place.head? with
  | some c =>
    if !c.isDigit then some (0, place)
    else if c = '0' then none
    else some (c.toNat - '0'.toNat, place.skip 1)
  | none => some (0, place)

/-- The head of a block up to the end of its line; its two parts may stand in either order. -/
def readBlockHead (place : Place) : Option (BlockHead × Place) := do
  let (before, place) := readChomping place
  let (indent, place) ← readIndent place
  let (behind, place) := if before.isNone ∧ indent ≠ 0 then readChomping place else (none, place)
  let place := (place.skipWhile isBlank).skipComment
  if !endsLine place.head? then none
  return (⟨(before.or behind).getD .clip, indent⟩, place.nextLine)

/-- Empty lines of a block and the indentation behind them; `indent` is zero while it is not known.
The answer is the ends of the lines, the widest indentation and the place. -/
def blockBreaks (indent : Nat) : Nat → List Char → Nat → Place → Option (List Char × Nat × Place)
  | 0, _, _, _ => none
  | fuel + 1, breaks, widest, place =>
    let blanks := (place.rest.takeWhile (· = ' ')).length
    let place := place.skip (if indent = 0 then blanks else min blanks (indent - place.column))
    let widest := max widest place.column
    if (indent = 0 ∨ place.column < indent) ∧ place.isAt '\t' then none
    else if !place.head?.any isBreak then some (breaks, widest, place)
    else blockBreaks indent fuel (breaks ++ place.lineBreak) widest place.nextLine

/-- The lines of a block.  `first` is the end of the line before, `breaks` are those of the empty
lines behind it, and `wasBlank` tells whether that line began with a blank. -/
def blockLines (isLiteral : Bool) (indent : Nat) :
    Nat → List Char → List Char → List Char → Bool → Place → Option (List Char × Gap × Place)
  | 0, _, _, _, _, _ => none
  | fuel + 1, text, first, breaks, wasBlank, place =>
    if place.column ≠ indent ∨ place.rest.isEmpty then
      some (text, { isBroken := true, first := first, others := breaks }, place)
    else do
      let isBlankNow := place.head?.any isBlank
      let joined :=
        if !isLiteral && first = ['\n'] && !wasBlank && !isBlankNow then
          if breaks.isEmpty then [' '] else breaks
        else first ++ breaks
      let (line, after) := place.span fun c => !isBreak c
      let (breaks, _, next) ← blockBreaks indent (after.rest.length + 1) [] 0 after.nextLine
      blockLines isLiteral indent fuel (text ++ joined ++ line) after.lineBreak breaks isBlankNow
        next

/-- **A block of lines**, with its head.  `indent` is the first column that belongs to the block it
stands in. -/
def readBlock (isLiteral : Bool) (indent : Nat) (place : Place) : Option Scanned := do
  let (head, place) ← readBlockHead (place.skip 1)
  let known := if head.indent = 0 then 0 else indent - 1 + head.indent
  let (breaks, widest, place) ← blockBreaks known (place.rest.length + 1) [] 0 place
  let inner := if known = 0 then max (max widest indent) 1 else known
  let (text, gap, place) ←
    blockLines isLiteral inner (place.rest.length + 1) [] [] breaks false place
  let ending := match head.chomping with
    | .strip => []
    | .clip => gap.first
    | .keep => gap.first ++ gap.others
  return ⟨text ++ ending, true, place⟩

end TreeLang.Yaml
