import TreeLang.Json.Value
import TreeLang.Text.Hexadecimal

/-!
# Reading JSON

A reader for the values that options are given in.  It accepts exactly the texts of the JSON
grammar.

An escape in a string may name half of a character only.  Where the string is needed the text is
refused; but a value that nobody asks for is *passed over*, and there any four digits will do.  What
is passed over is read as well, with a stand-in for every half.

* `Detail` — whether a value is needed or passed over.
* `readString` — a string from after its opening quote.
* `readNumber` — a number.
* **`Json.ofText?`** — a text that is one value, with what is needed of it.
-/

namespace TreeLang.Json

/-- How exactly a value is read. -/
inductive Detail where
  | needed
  | passedOver
deriving Repr, DecidableEq

/-- The four characters that may stand between tokens. -/
def isSpace (c : Char) : Bool :=
  c = ' ' || c = '\t' || c = '\n' || c = '\r'

/-- The text after the blanks in front of it. -/
def skipSpace (cs : List Char) : List Char :=
  cs.dropWhile isSpace

/-! ## Strings -/

/-- The number of four hexadecimal digits, and the text after them. -/
def readHex? (cs : List Char) : Option (Nat × List Char) :=
  if (cs.take 4).length < 4 then none
  else (hexNumber? (cs.take 4)).map fun n => (n, cs.drop 4)

/-- The character after `\u`, and the text after it.  A character beyond the sixteen bits of one
escape takes two of them. -/
def readCodePoint? (cs : List Char) : Option (Char × List Char) := do
  let (high, rest) ← readHex? cs
  if 0xD800 ≤ high ∧ high < 0xDC00 then
    match rest with
    | '\\' :: 'u' :: rest =>
      let (low, rest) ← readHex? rest
      if 0xDC00 ≤ low ∧ low < 0xE000 then
        return (Char.ofNat (0x10000 + (high - 0xD800) * 0x400 + (low - 0xDC00)), rest)
      else none
    | _ => none
  else if 0xDC00 ≤ high ∧ high < 0xE000 then none
  else return (Char.ofNat high, rest)

/-- The stand-in for half of a character. -/
def replacement : Char := Char.ofNat 0xFFFD

/-- The character after `\u`; where it is passed over, half of one will do. -/
def readUnicode? (detail : Detail) (cs : List Char) : Option (Char × List Char) :=
  match readCodePoint? cs, detail with
  | none, .passedOver => (readHex? cs).map fun (_, rest) => (replacement, rest)
  | found, _ => found

/-- The character that a letter behind a backslash stands for. -/
def unescape? (c : Char) : Option Char :=
  if c = '"' ∨ c = '\\' ∨ c = '/' then some c
  else if c = 'b' then some (Char.ofNat 8)
  else if c = 'f' then some (Char.ofNat 12)
  else if c = 'n' then some '\n'
  else if c = 'r' then some '\r'
  else if c = 't' then some '\t'
  else none

/-- **A string** from after its opening quote, and the text after its closing one.  The bound is on
the characters read. -/
def readString (detail : Detail) : Nat → List Char → Option (List Char × List Char)
  | 0, _ => none
  | _ + 1, [] => none
  | fuel + 1, c :: rest =>
    if c = '"' then some ([], rest)
    else if c = '\\' then
      match rest with
      | [] => none
      | letter :: rest =>
        let decoded := if letter = 'u' then readUnicode? detail rest
          else (unescape? letter).map fun c => (c, rest)
        match decoded with
        | some (c, rest) => (readString detail fuel rest).map fun (text, rest) => (c :: text, rest)
        | none => none
    else if c.toNat < 32 then none
    else (readString detail fuel rest).map fun (text, rest) => (c :: text, rest)

/-! ## Numbers -/

/-- At least one digit, and the text after the digits. -/
def readDigits? (cs : List Char) : Option (List Char × List Char) :=
  let digits := cs.takeWhile Char.isDigit
  if digits.isEmpty then none else some (digits, cs.dropWhile Char.isDigit)

/-- The digits before the point: a zero stands alone. -/
def readWhole? (cs : List Char) : Option (List Char × List Char) :=
  match cs with
  | '0' :: rest => if rest.head?.any Char.isDigit then none else some (['0'], rest)
  | _ => readDigits? cs

/-- The point and the digits behind it, if there is a point. -/
def readFraction? (cs : List Char) : Option (List Char × List Char) :=
  match cs with
  | '.' :: rest => (readDigits? rest).map fun (digits, rest) => ('.' :: digits, rest)
  | _ => some ([], cs)

/-- The exponent, if there is one. -/
def readExponent? (cs : List Char) : Option (List Char × List Char) :=
  match cs with
  | c :: rest =>
    if c = 'e' ∨ c = 'E' then
      let (sign, rest) := match rest with
        | '-' :: rest => (['-'], rest)
        | '+' :: rest => (['+'], rest)
        | _ => ([], rest)
      (readDigits? rest).map fun (digits, rest) => (c :: sign ++ digits, rest)
    else some ([], cs)
  | [] => some ([], [])

/-- **A number**, and the text after it. -/
def readNumber (cs : List Char) : Option (Json × List Char) := do
  let (sign, rest) := match cs with
    | '-' :: rest => (['-'], rest)
    | _ => ([], cs)
  let (whole, rest) ← readWhole? rest
  let (fraction, rest) ← readFraction? rest
  let (exponent, rest) ← readExponent? rest
  return (.number (String.ofList (sign ++ whole ++ fraction ++ exponent)), rest)

/-! ## Values -/

/-- The text after a word, if it begins with it. -/
def afterWord? (word : String) (cs : List Char) : Option (List Char) :=
  if word.toList.isPrefixOf cs then some (cs.drop word.length) else none

mutual

/-- A value and the text after it. -/
def readValue (detail : Detail) (fuel : Nat) (cs : List Char) : Option (Json × List Char) :=
  match fuel with
  | 0 => none
  | fuel + 1 =>
    match skipSpace cs with
    | [] => none
    | c :: rest =>
      if c = '"' then
        (readString detail (rest.length + 1) rest).map fun (text, rest) =>
          (.string (String.ofList text), rest)
      else if c = '[' then
        match skipSpace rest with
        | ']' :: rest => some (.array [], rest)
        | rest => (readElements detail fuel rest).map fun (elements, rest) =>
          (.array elements, rest)
      else if c = '{' then
        match skipSpace rest with
        | '}' :: rest => some (.object [], rest)
        | rest => (readMembers detail (fun _ => detail) fuel rest).map fun (members, rest) =>
          (.object members, rest)
      else if c = 't' then (afterWord? "true" (c :: rest)).map fun rest => (.bool true, rest)
      else if c = 'f' then (afterWord? "false" (c :: rest)).map fun rest => (.bool false, rest)
      else if c = 'n' then (afterWord? "null" (c :: rest)).map fun rest => (.null, rest)
      else readNumber (c :: rest)

/-- The elements of an array up to its end. -/
def readElements (detail : Detail) (fuel : Nat) (cs : List Char) :
    Option (List Json × List Char) :=
  match fuel with
  | 0 => none
  | fuel + 1 => do
    let (value, rest) ← readValue detail fuel cs
    match skipSpace rest with
    | ',' :: rest =>
      let (values, rest) ← readElements detail fuel rest
      return (value :: values, rest)
    | ']' :: rest => return ([value], rest)
    | _ => none

/-- The members of an object up to its end; a name decides on the detail of its value. -/
def readMembers (detail : Detail) (detailOf : String → Detail) (fuel : Nat) (cs : List Char) :
    Option (List (String × Json) × List Char) :=
  match fuel with
  | 0 => none
  | fuel + 1 => do
    let '"' :: rest := skipSpace cs | none
    let (name, rest) ← readString detail (rest.length + 1) rest
    let ':' :: rest := skipSpace rest | none
    let (value, rest) ← readValue (detailOf (String.ofList name)) fuel rest
    let member := (String.ofList name, value)
    match skipSpace rest with
    | ',' :: rest =>
      let (members, rest) ← readMembers detail detailOf fuel rest
      return (member :: members, rest)
    | '}' :: rest => return ([member], rest)
    | _ => none

end

/-- **A text that is one value**, with blanks around it at most.  Of an object only the members
whose names are wanted are needed. -/
def ofText? (wanted : String → Bool) (text : String) : Option Json := do
  let cs := text.toList
  let fuel := 2 * cs.length + 2
  let detailOf (name : String) : Detail := if wanted name then .needed else .passedOver
  let (value, rest) ← match skipSpace cs with
    | '{' :: rest =>
      match skipSpace rest with
      | '}' :: rest => some (.object [], rest)
      | rest => (readMembers .needed detailOf fuel rest).map fun (members, rest) =>
        (.object members, rest)
    | cs => readValue .needed fuel cs
  if (skipSpace rest).isEmpty then return value else none

end TreeLang.Json
