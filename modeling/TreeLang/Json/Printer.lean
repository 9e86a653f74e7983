import TreeLang.Json.Value

/-!
# Printing JSON

A value has two layouts.  The one for readers takes several lines, each member and element on a line
of its own, indented by two blanks for each level, while empty arrays and objects stay on one line.
The one for other programs takes a single line of ASCII and puts the members of an object in the
order of their names, so that equal values are equal texts.

* `Json.pretty` — several lines.
* `Json.compact` — one line.
-/

namespace TreeLang.Json

/-! ## Several lines -/

/-- Two hexadecimal digits. -/
private def hexPair (n : Nat) : List Char :=
  [(n / 16).digitChar, (n % 16).digitChar]

/-- A character inside a JSON string: quotes, backslashes and control characters are escaped. -/
def escapeChar (c : Char) : List Char :=
  if c = '"' then ['\\', '"']
  else if c = '\\' then ['\\', '\\']
  else if c = '\n' then ['\\', 'n']
  else if c = '\r' then ['\\', 'r']
  else if c = '\t' then ['\\', 't']
  else if c.toNat = 8 then ['\\', 'b']
  else if c.toNat = 12 then ['\\', 'f']
  else if c.toNat < 32 then ['\\', 'u', '0', '0'] ++ hexPair c.toNat
  else [c]

/-- A JSON string. -/
def printString (text : String) : String :=
  String.ofList (['"'] ++ text.toList.flatMap escapeChar ++ ['"'])

/-- The beginning of a line at a level. -/
def indentation (level : Nat) : String :=
  "\n" ++ "".pushn ' ' (2 * level)

mutual

/-- A value whose first line continues a line at the given level. -/
def printAt (level : Nat) : Json → String
  | .null => "null"
  | .bool value => if value then "true" else "false"
  | .number text => text
  | .string value => printString value
  | .array [] => "[]"
  | .array (first :: rest) =>
    "[" ++ String.intercalate "," (printElements (level + 1) (first :: rest)) ++
      indentation level ++ "]"
  | .object [] => "\x7b\x7d"
  | .object (first :: rest) =>
    "\x7b" ++ String.intercalate "," (printMembers (level + 1) (first :: rest)) ++
      indentation level ++ "\x7d"

/-- Elements, each on a line of the given level. -/
def printElements (level : Nat) : List Json → List String
  | [] => []
  | value :: rest => (indentation level ++ printAt level value) :: printElements level rest

/-- Members, each on a line of the given level. -/
def printMembers (level : Nat) : List (String × Json) → List String
  | [] => []
  | (name, value) :: rest =>
    (indentation level ++ printString name ++ ": " ++ printAt level value) ::
      printMembers level rest

end

/-- **A value over several lines.** -/
def pretty (value : Json) : String :=
  value.printAt 0

/-! ## One line -/

/-- A number of sixteen bits as an escape. -/
def unitEscape (unit : Nat) : List Char :=
  ['\\', 'u'] ++ hexPair (unit / 256) ++ hexPair (unit % 256)

/-- A character inside a JSON string of ASCII.  Beyond sixteen bits it takes two escapes. -/
def escapeAscii (c : Char) : List Char :=
  let n := c.toNat
  if n < 127 then escapeChar c
  else if n < 0x10000 then unitEscape n
  else unitEscape (0xD800 + (n - 0x10000) / 0x400) ++ unitEscape (0xDC00 + (n - 0x10000) % 0x400)

/-- A JSON string of ASCII. -/
def printAscii (text : String) : String :=
  String.ofList (['"'] ++ text.toList.flatMap escapeAscii ++ ['"'])

mutual

/-- **A value on one line**, members in the order of their names. -/
def compact : Json → String
  | .null => "null"
  | .bool value => if value then "true" else "false"
  | .number text => text
  | .string value => printAscii value
  | .array elements => "[" ++ String.intercalate "," (compactElements elements) ++ "]"
  | .object members =>
    let sorted := (compactMembers members).mergeSort fun a b => a.1 ≤ b.1
    "\x7b" ++
      String.intercalate "," (sorted.map fun (name, text) => printAscii name ++ ":" ++ text) ++
      "\x7d"

/-- Elements, each on one line. -/
def compactElements : List Json → List String
  | [] => []
  | value :: rest => value.compact :: compactElements rest

/-- Members by name, each value on one line. -/
def compactMembers : List (String × Json) → List (String × String)
  | [] => []
  | (name, value) :: rest => (name, value.compact) :: compactMembers rest

end

end TreeLang.Json
