/-!
# Places in a YAML text

The layout of a YAML text carries meaning: what belongs together is told by the columns that things
stand in and by the ends of lines.  So a place in the text knows its line and its column besides
the characters that follow.

* `isBreak`, `isBlank`, `isWordChar`, `isAllowed` — classes of characters.
* `Place` — a place; `Place.skip` moves on within a line, `Place.nextLine` over the end of one.
* `Place.startsMarker` — the lines of three hyphens or points that set documents apart.
-/

namespace TreeLang.Yaml

/-! ## Characters -/

/-- The characters that end a line. -/
def isBreak (c : Char) : Bool :=
  c = '\n' || c = '\r' || c.toNat = 0x85 || c.toNat = 0x2028 || c.toNat = 0x2029

/-- The characters that may stand between things on a line. -/
def isBlank (c : Char) : Bool :=
  c = ' ' || c = '\t'

/-- The characters of the names of anchors, handles and directives. -/
def isWordChar (c : Char) : Bool :=
  c.isAlphanum || c = '_' || c = '-'

/-- The characters that may stand in a text at all. -/
def isAllowed (c : Char) : Bool :=
  let n := c.toNat
  c = '\t' || c = '\n' || c = '\r' || (0x20 ≤ n && n ≤ 0x7E) || n = 0x85 ||
    (0xA0 ≤ n && n ≤ 0xFFFD) || 0x10000 ≤ n

/-- Whether a line ends here: at a break, or where the text ends. -/
def endsLine (c : Option Char) : Bool :=
  c.all isBreak

/-- Whether a word ends here: at a blank, at a break, or where the text ends. -/
def endsWord (c : Option Char) : Bool :=
  c.all fun c => isBlank c || isBreak c

/-! ## Places -/

/-- A place in a text. -/
structure Place where
  /-- The characters that follow. -/
  rest : List Char
  /-- How many characters stand before it, and how many lines. -/
  index : Nat
  line : Nat
  /-- How many characters stand before it on its line. -/
  column : Nat
deriving Repr

namespace Place

/-- The place where a text begins. -/
def start (text : String) : Place :=
  ⟨text.toList, 0, 0, 0⟩

/-- The next character. -/
def head? (place : Place) : Option Char :=
  place.rest.head?

/-- The character that stands so many places further on. -/
def ahead? (place : Place) (count : Nat) : Option Char :=
  place.rest[count]?

/-- Whether the next character is the given one. -/
def isAt (place : Place) (c : Char) : Bool :=
  place.head? = some c

/-- The place so many characters further on in the same line. -/
def skip (place : Place) (count : Nat) : Place :=
  ⟨place.rest.drop count, place.index + count, place.line, place.column + count⟩

/-- The characters that follow as long as they have a property, and the place behind them. -/
def span (place : Place) (property : Char → Bool) : List Char × Place :=
  let found := place.rest.takeWhile property
  (found, place.skip found.length)

/-- The place behind the characters that have a property. -/
def skipWhile (place : Place) (property : Char → Bool) : Place :=
  (place.span property).2

/-- The place behind a comment, if one begins here. -/
def skipComment (place : Place) : Place :=
  if place.isAt '#' then place.skipWhile fun c => !isBreak c else place

/-- The end of a line that stands here, as the text reads it: a line feed for all the usual ones. -/
def lineBreak (place : Place) : List Char :=
  match place.rest with
  | c :: _ => if c.toNat = 0x2028 ∨ c.toNat = 0x2029 then [c] else ['\n']
  | [] => []

/-- The place behind the end of a line.  A carriage return and a line feed are one. -/
def nextLine (place : Place) : Place :=
  match place.rest with
  | '\r' :: '\n' :: rest => ⟨rest, place.index + 2, place.line + 1, 0⟩
  | c :: rest => if isBreak c then ⟨rest, place.index + 1, place.line + 1, 0⟩ else place
  | [] => place

/-- Whether a line begins here with three times the given character and nothing else in the
word. -/
def startsMarkerOf (place : Place) (c : Char) : Bool :=
  place.column = 0 && place.rest.take 3 = [c, c, c] && endsWord (place.ahead? 3)

/-- **Whether a line that sets documents apart begins here.** -/
def startsMarker (place : Place) : Bool :=
  place.startsMarkerOf '-' || place.startsMarkerOf '.'

end Place

end TreeLang.Yaml
