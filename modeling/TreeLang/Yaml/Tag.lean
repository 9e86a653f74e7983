import TreeLang.Text.Hexadecimal
import TreeLang.Yaml.Token

/-!
# Anchors, tags and directives of a YAML text

Before the content of a node may stand an anchor, by which aliases refer to it, and a tag, which
says what it is.  A tag is a *handle* with a suffix, and a directive in front of a document may say
what a handle stands for.

Each reader answers what it read with the place behind it, or nothing if the text is malformed.

* `readAnchor?` — the name of an anchor or alias.
* `readTag?` — a tag.
* `readDirective?` — the line of a directive.
-/

namespace TreeLang.Yaml

/-! ## Anchors -/

/-- The characters that may follow the name of an anchor at once. -/
def endsAnchor (c : Char) : Bool :=
  "?:,]\x7d%@".toList.contains c || c.toNat = 0x60

/-- **The name of an anchor or alias**, from after its sign. -/
def readAnchor? (place : Place) : Option (String × Place) :=
  let (name, after) := place.span isWordChar
  if name.isEmpty || !after.head?.all fun c => endsAnchor c || endsWord (some c) then none
  else some (String.ofList name, after)

/-! ## Tags -/

/-- The characters that may stand in a tag; between angle brackets there are three more. -/
def isTagChar (isVerbatim : Bool) (c : Char) : Bool :=
  isWordChar c || ";/?:@&=+$.%!~*'()".toList.contains c ||
    (isVerbatim && (c = ',' || c = '[' || c = ']'))

/-- How many bytes a character takes whose first byte is given. -/
def byteCount? (byte : Nat) : Option Nat :=
  if byte < 0x80 then some 1
  else if byte < 0xC0 then none
  else if byte < 0xE0 then some 2
  else if byte < 0xF0 then some 3
  else if byte < 0xF8 then some 4
  else none

/-- A byte that is written as a percent sign and two digits. -/
def readByte? : List Char → Option Nat
  | '%' :: high :: low :: _ => hexNumber? [high, low]
  | _ => none

/-- Further bytes of a character, each added to those before. -/
def readTrailing? : Nat → Nat → List Char → Option Nat
  | 0, value, _ => some value
  | count + 1, value, cs => do
    let byte ← readByte? cs
    if byte / 0x40 = 2 then readTrailing? count (value * 0x40 + byte % 0x40) (cs.drop 3) else none

/-- A character that is written by its bytes, and how long it is written there. -/
def readBytes? (cs : List Char) : Option (Char × Nat) := do
  let first ← readByte? cs
  let count ← byteCount? first
  let leading := if count = 1 then first else first % Nat.pow 2 (7 - count)
  let value ← readTrailing? (count - 1) leading (cs.drop 3)
  return (Char.ofNat value, 3 * count)

/-- The characters of a tag, and the place behind them. -/
def readTagChars? (isVerbatim : Bool) : Nat → List Char → Place → Option (List Char × Place)
  | 0, _, _ => none
  | fuel + 1, text, place =>
    match place.head? with
    | none => some (text, place)
    | some c =>
      if !isTagChar isVerbatim c then some (text, place)
      else if c = '%' then do
        let (c, length) ← readBytes? place.rest
        readTagChars? isVerbatim fuel (text ++ [c]) (place.skip length)
      else readTagChars? isVerbatim fuel (text ++ [c]) (place.skip 1)

/-- The part of a tag that follows its handle; there has to be one. -/
def readSuffix? (isVerbatim : Bool) (place : Place) : Option (String × Place) := do
  let (text, after) ← readTagChars? isVerbatim (place.rest.length + 1) [] place
  if text.isEmpty then none
  return (String.ofList text, after)

/-- A word between exclamation marks, the second of which may be missing. -/
def readHandle? (place : Place) : Option (String × Place) :=
  if !place.isAt '!' then none
  else
    let (name, after) := (place.skip 1).span isWordChar
    if after.isAt '!' then some (String.ofList ('!' :: name ++ ['!']), after.skip 1)
    else some (String.ofList ('!' :: name), after)

/-- Whether a word is a handle, and not the beginning of a tag. -/
def isHandle (word : String) : Bool :=
  2 ≤ word.length && word.toList.getLast? = some '!'

/-- **A tag.**  What begins with a single exclamation mark is a suffix to that mark, and a mark that
stands alone is all of the tag. -/
def readTag? (inFlow : Bool) (place : Place) : Option (Token × Place) := do
  let (tag, after) ←
    if place.ahead? 1 = some '<' then do
      let (suffix, after) ← readSuffix? true (place.skip 2)
      if after.isAt '>' then some (Token.tag "" suffix, after.skip 1) else none
    else do
      let (word, after) ← readHandle? place
      if isHandle word then
        let (suffix, after) ← readSuffix? false after
        some (Token.tag word suffix, after)
      else
        let (text, after) ← readTagChars? false (after.rest.length + 1) (word.toList.drop 1) after
        some (if text.isEmpty then Token.tag "" "!" else Token.tag "!" (String.ofList text), after)
  if endsWord after.head? || inFlow && after.isAt ',' then return (tag, after) else none

/-! ## Directives -/

/-- A number of at most nine digits. -/
def readNumber? (place : Place) : Option (Nat × Place) :=
  let (digits, after) := place.span Char.isDigit
  if digits.isEmpty || 9 < digits.length then none
  else some (digits.foldl (fun value c => 10 * value + (c.toNat - '0'.toNat)) 0, after)

/-- What a directive says, from after its name. -/
def readStatement? (name : String) (place : Place) : Option (Token × Place) := do
  let place := place.skipWhile isBlank
  if name = "YAML" then
    let (major, place) ← readNumber? place
    if !place.isAt '.' then none
    let (minor, place) ← readNumber? (place.skip 1)
    return (.version major minor, place)
  else if name = "TAG" then
    let (word, place) ← readHandle? place
    if !(isHandle word || word = "!") || !place.head?.any isBlank then none
    let (meaning, place) ← readSuffix? true (place.skipWhile isBlank)
    if endsWord place.head? then return (.handle word meaning, place) else none
  else none

/-- **A directive**, from its sign to the end of its line. -/
def readDirective? (place : Place) : Option (Token × Place) := do
  let (name, after) := (place.skip 1).span isWordChar
  if name.isEmpty || !endsWord after.head? then none
  let (token, place) ← readStatement? (String.ofList name) after
  let place := (place.skipWhile isBlank).skipComment
  if endsLine place.head? then return (token, place.nextLine) else none

end TreeLang.Yaml
