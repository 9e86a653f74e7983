import TreeLang.Proofs.Locating
import TreeLang.Report.Render

/-!
# What a report points at

A report is shown in two ways.  The drawing marks bytes, and the bytes it marks are those of one character.
The plain text has a caret below a line, under the column of the offset.  The column counts every character
of the line and the line is shown without its carriage returns, so the caret stands behind the character by
as many places as there are carriage returns in front of it.

* `Source.byteOffset_eq` — the bytes in front of an offset.
* **`Report.Label.Covers`** — a label that marks one character, and nothing else.
* **`Report.coordinates_agree`** — lines, columns, lines shown and labels, all against the text.
* **`Report.snippet_caret`** — where the caret stands.
* `Report.snippet_points_iff` — it stands under the character if no carriage return is in front of it.
-/

namespace TreeLang

variable {source : Source} {front line back : List Char} {c : Char} {offset : Nat}

/-! ## Bytes -/

lemma foldl_utf8Size (cs : List Char) (bytes : Nat) :
    cs.foldl (fun bytes c => bytes + c.utf8Size) bytes = bytes + (String.ofList cs).utf8ByteSize := by
  induction cs generalizing bytes with
  | nil => rfl
  | cons c cs ih =>
    have text : String.ofList (c :: cs) = String.singleton c ++ String.ofList cs := by
      apply String.toList_injective
      simp
    rw [List.foldl_cons, ih, text, String.utf8ByteSize_append, String.utf8ByteSize_singleton,
      Nat.add_assoc]

/-- **The bytes in front of an offset** are those of the text in front of it. -/
lemma Source.byteOffset_eq (source : Source) (offset : Nat) :
    source.byteOffset offset = (String.ofList (source.chars.take offset)).utf8ByteSize := by
  rw [byteOffset, foldl_utf8Size, Nat.zero_add]

namespace Report

/-- **A label that marks one character** of a source, behind the characters in front: it begins and ends
between characters, and its bytes are those of the character. -/
structure Label.Covers (label : Label) (source : Source) (front : List Char) (c : Char) : Prop where
  start : label.start = (String.ofList front).utf8ByteSize
  begins : String.Pos.Raw.IsValid source.text ⟨label.start⟩
  ends : String.Pos.Raw.IsValid source.text ⟨label.start + label.length⟩
  bytes : source.text.toByteArray.extract label.start (label.start + label.length)
    = (String.singleton c).toByteArray

/-- The bytes of a character are found behind those in front of it. -/
lemma Label.covers_of_split {label : Label} (text : source.chars = front ++ c :: back)
    (start : label.start = (String.ofList front).utf8ByteSize) (length : label.length = c.utf8Size) :
    label.Covers source front c := by
  have whole : source.text = String.ofList front ++ (String.singleton c ++ String.ofList back) := by
    apply String.toList_injective
    rw [← Source.chars, text]
    simp
  have size : (String.singleton c).utf8ByteSize = c.utf8Size := String.utf8ByteSize_singleton
  refine ⟨start, ?_, ?_, ?_⟩
  · exact String.Pos.Raw.isValid_iff_exists_append.mpr ⟨_, _, whole, by rw [start]; rfl⟩
  · refine String.Pos.Raw.isValid_iff_exists_append.mpr
      ⟨String.ofList front ++ String.singleton c, String.ofList back, ?_, ?_⟩
    · rw [whole, String.append_assoc]
    · apply String.Pos.Raw.ext
      rw [String.byteIdx_rawEndPos, String.utf8ByteSize_append, start, length, size]
  · have behind := ByteArray.extract_append_size_add (a := (String.ofList front).toByteArray)
      (b := (String.singleton c ++ String.ofList back).toByteArray) (i := 0)
      (j := (String.singleton c).toByteArray.size)
    rw [whole, String.toByteArray_append, start, length, ← size]
    exact behind.trans (by rw [String.toByteArray_append, ByteArray.extract_append_eq_left rfl])

/-- **The label of a report marks the character at its offset**, and the last one if the offset lies behind
the text. -/
lemma covers_label? (nonempty : source.text ≠ "") {report : Report} (placed : report.offset = some offset) :
    ∃ c label, source.chars[min offset (source.length - 1)]? = some c ∧ report.label? source = some label ∧
      label.Covers source (source.chars.take (min offset (source.length - 1))) c := by
  have filled : source.chars.length ≠ 0 := by
    rw [ne_eq, List.length_eq_zero_iff, Source.chars, String.toList_eq_nil_iff]
    exact nonempty
  have bound : min offset (source.length - 1) < source.chars.length := by
    rw [Source.length]
    omega
  rw [label?, placed, Option.map_some]
  generalize min offset (source.length - 1) = place at bound
  have text : source.chars
      = source.chars.take place ++ source.chars[place] :: source.chars.drop (place + 1) := by
    rw [← List.drop_eq_getElem_cons bound, List.take_append_drop]
  refine ⟨source.chars[place], _, List.getElem?_eq_getElem bound, rfl,
    Label.covers_of_split text (Source.byteOffset_eq ..) ?_⟩
  · have next : String.ofList (source.chars.take (place + 1))
        = String.ofList (source.chars.take place) ++ String.singleton source.chars[place] := by
      rw [List.take_succ_eq_append_getElem bound, String.ofList_append, String.singleton_eq_ofList]
    show source.byteOffset (place + 1) - source.byteOffset place = _
    rw [Source.byteOffset_eq, Source.byteOffset_eq, next, String.utf8ByteSize_append,
      Nat.add_sub_cancel_left, String.utf8ByteSize_singleton]

/-- **Coordinates agree with the text.**  The line of an offset is told by the line feeds in front of it, and
its column by the characters behind the last of them; no two offsets of a source share their coordinates;
the lines joined by line feeds are the text without its carriage returns; and a label begins and ends
between characters and marks the bytes of one, the one at the offset or else the last. -/
theorem coordinates_agree (source : Source) :
    (∀ offset, ∃ front line, Source.LastLine (source.chars.take (min offset source.length)) front line ∧
      source.lineCol offset
        = ((source.chars.take (min offset source.length)).count '\n' + 1, line.length + 1)) ∧
    (∀ first second, first ≤ source.length → second ≤ source.length →
      source.lineCol first = source.lineCol second → first = second) ∧
    (∃ lines : List String, (∀ index, source.line? (index + 1) = lines[index]?) ∧
      "\n".intercalate lines = String.ofList (source.chars.filter (· ≠ '\r'))) ∧
    (source.text ≠ "" → ∀ (report : Report) (offset : Nat), report.offset = some offset →
      ∃ c label, source.chars[min offset (source.length - 1)]? = some c ∧
        report.label? source = some label ∧
        label.Covers source (source.chars.take (min offset (source.length - 1))) c) := by
  refine ⟨fun offset => ?_, fun first second => Source.lineCol_injective, ?_, fun nonempty report offset =>
    covers_label? nonempty⟩
  · obtain ⟨front, line, cut⟩ := Source.exists_lastLine (source.chars.take (min offset source.length))
    have clamped : source.chars.take offset = source.chars.take (min offset source.length) :=
      List.take_eq_take_min
    exact ⟨front, line, cut, by rw [Source.lineCol, clamped, cut.coordinates]⟩
  · exact ⟨source.lines, source.line?_succ, source.intercalate_lines⟩

/-- A text of two lines, the first of them with an accent and a carriage return: the offsets on either side of
the line feed have coordinates of their own, and a label behind the end marks the last character. -/
theorem coordinates_agree_of_accent :
    let source : Source := ⟨"main", "é\r\nx"⟩
    let report := Report.errorAt 9 .redundantComma
    source.lineCol 2 ≠ source.lineCol 3 ∧ report.label? source = some ⟨"syntax", 4, 1⟩ ∧
      ∃ c label, source.chars[min 9 (source.length - 1)]? = some c ∧ report.label? source = some label ∧
        label.Covers source (source.chars.take (min 9 (source.length - 1))) c := by
  intro source report
  obtain ⟨-, injective, -, labels⟩ := coordinates_agree source
  refine ⟨fun same => ?_, by decide +kernel, labels (by decide) report 9 rfl⟩
  exact absurd (injective 2 3 (by decide) (by decide) same) (by decide)

/-! ## The caret

The last two lines of a snippet are the line and the caret below it, behind gutters of one width.
-/

/-- What stands in front of a line that is shown. -/
def gutter (line : Nat) : String :=
  toString line ++ " | "

lemma toList_pushn (c : Char) (count : Nat) : ("".pushn c count).toList = List.replicate count c := by
  rw [String.pushn_eq_repeat_push]
  induction count with
  | zero => rfl
  | succ count ih => rw [Nat.repeat, String.toList_push, ih, List.replicate_succ']

/-- A character that stands only at the end of a text stands where the text in front of it ends. -/
lemma getElem?_concat_eq_some_iff {place : Nat} (absent : c ∉ front) :
    (front ++ [c])[place]? = some c ↔ place = front.length := by
  constructor
  · intro here
    rcases Nat.lt_trichotomy place front.length with before | same | behind
    · rw [List.getElem?_append_left before] at here
      exact absurd (List.mem_of_getElem? here) absent
    · exact same
    · rw [List.getElem?_eq_none (by simpa [Nat.succ_le_iff] using behind)] at here
      cases here
  · rintro rfl
    exact List.getElem?_concat_length

/-- **Where the caret stands**: in the column of the character on the line that is shown, and from there by
as many places to the right as carriage returns stand in front of the character on its line. -/
theorem snippet_caret (here : source.chars[offset]? = some c) (noFeed : c ≠ '\n') (noReturn : c ≠ '\r')
    (cut : Source.LastLine (source.chars.take offset) front line) :
    ∃ text caret : String, (snippet source offset).drop 2 = [text, caret] ∧
      (gutter (source.lineCol offset).1).toList ++ Source.shown line ++ [c] <+: text.toList ∧
      ∀ place, caret.toList[place]? = some '^' ↔
        place = (gutter (source.lineCol offset).1).length + (Source.shown line).length
          + line.count '\r' := by
  have known := Source.line?_lineCol here noFeed noReturn cut
  have coordinates : source.lineCol offset = (_, line.length + 1) := cut.coordinates
  have width := Source.length_shown line
  rw [coordinates] at known ⊢
  generalize (source.chars.take offset).count '\n' + 1 = number at known coordinates ⊢
  simp only [snippet, coordinates, known, List.drop_succ_cons, List.drop_zero, Nat.add_sub_cancel]
  refine ⟨_, _, rfl, ?_, fun place => ?_⟩
  · refine ⟨Source.shown ((source.chars.drop (offset + 1)).takeWhile (· ≠ '\n')), ?_⟩
    simp [gutter]
  · have blanks : '^' ∉ List.replicate (toString number).length ' ' ++ " | ".toList
        ++ List.replicate line.length ' ' := by
      simp
    rw [String.toList_append, String.toList_append, String.toList_append, toList_pushn, toList_pushn]
    refine (getElem?_concat_eq_some_iff blanks).trans ?_
    simp only [List.length_append, List.length_replicate, gutter, String.length_append,
      String.length_toList]
    omega

/-- **The caret stands under the character** exactly if no carriage return stands in front of the character on
its line. -/
theorem snippet_points_iff (here : source.chars[offset]? = some c) (noFeed : c ≠ '\n') (noReturn : c ≠ '\r')
    (cut : Source.LastLine (source.chars.take offset) front line) :
    ∃ text caret : String, (snippet source offset).drop 2 = [text, caret] ∧
      let place := (gutter (source.lineCol offset).1).length + (Source.shown line).length
      text.toList[place]? = some c ∧ (caret.toList[place]? = some '^' ↔ '\r' ∉ line) := by
  obtain ⟨text, caret, last, ⟨rest, begins⟩, stands⟩ := snippet_caret here noFeed noReturn cut
  refine ⟨text, caret, last, ?_, ?_⟩
  · rw [← begins, List.append_assoc, ← String.length_toList, ← List.length_append]
    rw [List.getElem?_append_right (Nat.le_refl _), Nat.sub_self]
    rfl
  · rw [stands, ← List.count_eq_zero]
    omega

/-- A carriage return in the middle of a line moves the caret off its character. -/
example : snippet ⟨"main", "a\rb"⟩ 2 = [" --> main:1:3", "  |", "1 | ab", "  |   ^"] := by
  decide +kernel

end Report

end TreeLang
