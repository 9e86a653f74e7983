/-!
# Source texts and their coordinates

A source is a named text.  Every offset in the library counts *characters* from the start of the
text; lines, columns and bytes are derived from offsets, and only where something is shown.

* `Source.lineCol` — the line and column of an offset, both counted from one.
* `Source.line?` — the text of a line, without its line break.
* `Source.byteOffset` — how many bytes of UTF-8 precede an offset.
-/

namespace TreeLang

/-- A named text, the unit of compilation. -/
structure Source where
  /-- Usually a path; it is shown with every position. -/
  name : String
  text : String
deriving Repr, DecidableEq

namespace Source

/-- The characters of the source, in order. -/
def chars (source : Source) : List Char :=
  source.text.toList

/-- The number of characters. -/
def length (source : Source) : Nat :=
  source.chars.length

/-- Where the next character stands, given where this one stands: a line feed ends its line. -/
def stepCoordinates (at_ : Nat × Nat) (c : Char) : Nat × Nat :=
  if c = '\n' then (at_.1 + 1, 1) else (at_.1, at_.2 + 1)

/-- **Line and column of an offset**, counted from one.  An offset past the end is taken as the
end of the text. -/
def lineCol (source : Source) (offset : Nat) : Nat × Nat :=
  (source.chars.take offset).foldl stepCoordinates (1, 1)

/-- A character put in front of a text that is already cut: a line feed opens a line of its own,
any other character joins the first line. -/
def consLine (c : Char) : List (List Char) → List (List Char)
  | [] => [[c]]
  | line :: lines => if c = '\n' then [] :: line :: lines else (c :: line) :: lines

/-- A text cut at its line feeds.  There is always one line more than there are line feeds. -/
def splitLines (cs : List Char) : List (List Char) :=
  cs.foldr consLine [[]]

/-- **The text of a line**, counted from one, without its line break and without any carriage
return. -/
def line? (source : Source) (line : Nat) : Option String :=
  match line with
  | 0 => none
  | index + 1 =>
    (splitLines source.chars)[index]?.map fun cs => String.ofList (cs.filter (· ≠ '\r'))

/-- How many bytes of UTF-8 the characters before an offset take. -/
def byteOffset (source : Source) (offset : Nat) : Nat :=
  (source.chars.take offset).foldl (fun bytes c => bytes + c.utf8Size) 0

/-- A cut text has at least one line. -/
theorem splitLines_ne_nil (cs : List Char) : splitLines cs ≠ [] := by
  cases cs with
  | nil => simp [splitLines]
  | cons c rest =>
    rw [splitLines, List.foldr_cons, consLine.eq_def]
    split
    · simp
    · split <;> simp

/-- There is one line more than there are line feeds. -/
theorem length_splitLines (cs : List Char) : (splitLines cs).length = cs.count '\n' + 1 := by
  induction cs with
  | nil => rfl
  | cons c rest ih =>
    have step : splitLines (c :: rest) = consLine c (splitLines rest) := rfl
    obtain ⟨line, lines, hs⟩ := List.exists_cons_of_ne_nil (splitLines_ne_nil rest)
    rw [hs] at step ih
    rw [step, consLine]
    by_cases h : c = '\n' <;> simp [h, ← ih]

end Source

end TreeLang
