/-!
# Blank characters

A character is *blank* when it has the `White_Space` property of the Unicode standard.  Blanks
separate words, are skipped between tokens, and are trimmed from both ends of a bare value, so
every reader and the printer must agree on them.

* `Text.isBlank` — membership, by the standard's ten ranges.
* `Text.trim` — a text without the blanks at its two ends.
* `Text.firstWord` — the first maximal run of characters that are not blank.
-/

namespace TreeLang.Text

/-- **The `White_Space` property.**  Ten ranges of the standard; every line-breaking character of
it is included, the line feed and the carriage return among them. -/
def isBlank (c : Char) : Bool :=
  let n := c.toNat
  (9 ≤ n && n ≤ 13) || n == 0x20 || n == 0x85 || n == 0xA0 || n == 0x1680 ||
    (0x2000 ≤ n && n ≤ 0x200A) || n == 0x2028 || n == 0x2029 || n == 0x202F || n == 0x205F ||
    n == 0x3000

/-- Every character that the core library calls white space is blank. -/
theorem isBlank_of_isWhitespace {c : Char} (h : c.isWhitespace = true) : isBlank c = true := by
  simp only [Char.isWhitespace, Bool.or_eq_true, decide_eq_true_eq] at h
  rcases h with ((h | h) | h) | h <;> subst h <;> decide

/-- The text without the blanks it ends with. -/
def trimEnd (cs : List Char) : List Char :=
  (cs.reverse.dropWhile isBlank).reverse

/-- The text without the blanks it begins and ends with. -/
def trim (cs : List Char) : List Char :=
  trimEnd (cs.dropWhile isBlank)

/-- The first word of a text: its first maximal run of characters that are not blank, empty when
the text holds only blanks. -/
def firstWord (cs : List Char) : List Char :=
  (cs.dropWhile isBlank).takeWhile fun c => !isBlank c

end TreeLang.Text
