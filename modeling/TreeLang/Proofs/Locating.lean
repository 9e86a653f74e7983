import Mathlib.Data.List.Induction
import TreeLang.Source

/-!
# Where an offset stands

Offsets count characters, and everything that is shown counts lines and columns.  The two agree: the line
of an offset is told by the line feeds in front of it, its column by the characters behind the last of
them, and the lines of a source put together are its text again, but for the carriage returns that no line
shows.

* **`LastLine`** — a text cut where its last line begins.
* `LastLine.coordinates` — the coordinates behind a text that is cut so.
* **`lineCol_injective`** — no two offsets share their coordinates.
* `splitLines_append_lineFeed`, `intercalate_splitLines` — cutting a text and joining it again.
* **`line?_lineCol`** — the line of a character, cut at the character.
-/

namespace TreeLang.Source

variable {source : Source} {cs more front line rest : List Char} {c : Char} {first second offset : Nat}

/-! ## The last line of a text -/

/-- **A text cut where its last line begins**: behind its last line feed, or at its start if it has
none. -/
structure LastLine (cs front line : List Char) : Prop where
  split : cs = front ++ line
  begins : front = [] ∨ front.getLast? = some '\n'
  oneLine : '\n' ∉ line

namespace LastLine

/-- What stays on the line belongs to it. -/
lemma append (cut : LastLine cs front line) (oneLine : '\n' ∉ more) :
    LastLine (cs ++ more) front (line ++ more) where
  split := by rw [cut.split, List.append_assoc]
  begins := cut.begins
  oneLine := by
    rw [List.mem_append, not_or]
    exact ⟨cut.oneLine, oneLine⟩

/-- A line feed begins another line. -/
lemma lineFeed (cs : List Char) : LastLine (cs ++ ['\n']) (cs ++ ['\n']) [] where
  split := (List.append_nil _).symm
  begins := .inr (by simp)
  oneLine := List.not_mem_nil

end LastLine

/-- Every text has a last line. -/
lemma exists_lastLine (cs : List Char) : ∃ front line, LastLine cs front line := by
  induction cs using List.reverseRecOn with
  | nil => exact ⟨[], [], rfl, .inl rfl, List.not_mem_nil⟩
  | append_singleton cs c ih =>
    by_cases feed : c = '\n'
    · subst feed
      exact ⟨_, _, LastLine.lineFeed cs⟩
    · obtain ⟨front, line, cut⟩ := ih
      exact ⟨front, line ++ [c], cut.append (by simpa using Ne.symm feed)⟩

/-! ## Lines and columns -/

lemma foldl_stepCoordinates_fst (cs : List Char) (start : Nat × Nat) :
    (cs.foldl stepCoordinates start).1 = start.1 + cs.count '\n' := by
  induction cs generalizing start with
  | nil => rfl
  | cons c cs ih =>
    rw [List.foldl_cons, ih, stepCoordinates]
    by_cases feed : c = '\n'
    · simp [feed]
      omega
    · simp [feed]

/-- On one line every character is one column further. -/
lemma foldl_stepCoordinates_of_oneLine (oneLine : '\n' ∉ line) (start : Nat × Nat) :
    line.foldl stepCoordinates start = (start.1, start.2 + line.length) := by
  induction line generalizing start with
  | nil => rfl
  | cons c line ih =>
    obtain ⟨this, others⟩ := List.ne_and_not_mem_of_not_mem_cons oneLine
    rw [List.foldl_cons, ih others, stepCoordinates, if_neg this.symm, List.length_cons]
    simp only [Prod.mk.injEq, true_and]
    omega

/-- At the start of a line the column is the first. -/
lemma foldl_stepCoordinates_of_begins (begins : front = [] ∨ front.getLast? = some '\n') :
    front.foldl stepCoordinates (1, 1) = (front.count '\n' + 1, 1) := by
  rcases begins with rfl | last
  · rfl
  · obtain ⟨init, rfl⟩ := List.getLast?_eq_some_iff.mp last
    have lines := foldl_stepCoordinates_fst init (1, 1)
    rw [List.foldl_append, List.count_append, List.foldl_cons, List.foldl_nil, stepCoordinates,
      if_pos rfl, lines, List.count_singleton_self]
    simp only [Prod.mk.injEq, and_true]
    omega

/-- **The coordinates behind a text**: its line feeds tell the line, and its last line the column. -/
theorem LastLine.coordinates (cut : LastLine cs front line) :
    cs.foldl stepCoordinates (1, 1) = (cs.count '\n' + 1, line.length + 1) := by
  have none : line.count '\n' = 0 := List.count_eq_zero_of_not_mem cut.oneLine
  rw [cut.split, List.foldl_append, foldl_stepCoordinates_of_begins cut.begins,
    foldl_stepCoordinates_of_oneLine cut.oneLine, List.count_append, none, Nat.add_zero]
  simp only [Prod.mk.injEq, true_and]
  omega

/-- Of two offsets with the same coordinates the later one is no later: a line feed between them would
begin a line, and any other character move on by a column. -/
lemma eq_of_lineCol_eq_of_le (order : first ≤ second) (bound : second ≤ source.length)
    (same : source.lineCol first = source.lineCol second) : first = second := by
  obtain ⟨front, line, cut⟩ := exists_lastLine (source.chars.take first)
  have between : source.chars.take second
      = source.chars.take first ++ (source.chars.drop first).take (second - first) := by
    rw [← List.take_add, Nat.add_sub_cancel' order]
  have apart : ((source.chars.drop first).take (second - first)).length = second - first := by
    rw [List.length_take, List.length_drop]
    rw [length] at bound
    omega
  generalize (source.chars.drop first).take (second - first) = middle at between apart
  have lines := congrArg Prod.fst same
  rw [lineCol, lineCol, foldl_stepCoordinates_fst, foldl_stepCoordinates_fst, between,
    List.count_append] at lines
  have oneLine : '\n' ∉ middle := List.count_eq_zero.mp (by omega)
  have columns := congrArg Prod.snd same
  rw [lineCol, lineCol, between, cut.coordinates, (cut.append oneLine).coordinates] at columns
  simp only [List.length_append] at columns
  omega

/-- **No two offsets share their coordinates.** -/
theorem lineCol_injective (firstBound : first ≤ source.length) (secondBound : second ≤ source.length)
    (same : source.lineCol first = source.lineCol second) : first = second := by
  rcases Nat.le_total first second with order | order
  · exact eq_of_lineCol_eq_of_le order secondBound same
  · exact (eq_of_lineCol_eq_of_le order firstBound same.symm).symm

/-! ## The lines of a text -/

lemma splitLines_cons (c : Char) (cs : List Char) :
    splitLines (c :: cs) = consLine c (splitLines cs) := rfl

/-- What is put in front of the first of several lines leaves the others. -/
lemma consLine_append {lines : List (List Char)} (nonempty : lines ≠ []) (others : List (List Char)) :
    consLine c (lines ++ others) = consLine c lines ++ others := by
  obtain ⟨line, lines, rfl⟩ := List.exists_cons_of_ne_nil nonempty
  by_cases feed : c = '\n' <;> simp [consLine, feed]

/-- **Text is cut at a line feed**, whatever stands on either side. -/
theorem splitLines_append_lineFeed (front rest : List Char) :
    splitLines (front ++ '\n' :: rest) = splitLines front ++ splitLines rest := by
  induction front with
  | nil =>
    obtain ⟨line, lines, cut⟩ := List.exists_cons_of_ne_nil (splitLines_ne_nil rest)
    rw [List.nil_append, splitLines_cons, cut]
    rfl
  | cons c front ih =>
    rw [List.cons_append, splitLines_cons, ih, consLine_append (splitLines_ne_nil front),
      splitLines_cons]

/-- The first line goes up to the first line feed. -/
lemma head?_splitLines (cs : List Char) :
    (splitLines cs).head? = some (cs.takeWhile (· ≠ '\n')) := by
  induction cs with
  | nil => rfl
  | cons c cs ih =>
    obtain ⟨line, lines, cut⟩ := List.exists_cons_of_ne_nil (splitLines_ne_nil cs)
    rw [cut, List.head?_cons, Option.some.injEq] at ih
    rw [splitLines_cons, cut, ih]
    by_cases feed : c = '\n' <;> simp [consLine, feed]

/-- Where a line begins, as many lines lie in front as there are line feeds. -/
lemma getElem?_splitLines (begins : front = [] ∨ front.getLast? = some '\n') :
    (splitLines (front ++ rest))[front.count '\n']? = some (rest.takeWhile (· ≠ '\n')) := by
  rw [← head?_splitLines]
  rcases begins with rfl | last
  · exact List.head?_eq_getElem?.symm
  · obtain ⟨init, rfl⟩ := List.getLast?_eq_some_iff.mp last
    have lines : (init ++ ['\n']).count '\n' = (splitLines init).length := by
      rw [List.count_append, length_splitLines, List.count_singleton_self]
    rw [lines, List.append_assoc, List.singleton_append, splitLines_append_lineFeed,
      List.getElem?_append_right (Nat.le_refl _), Nat.sub_self, List.head?_eq_getElem?]

/-- **The lines of a text joined by line feeds are the text.** -/
theorem intercalate_splitLines (cs : List Char) : ['\n'].intercalate (splitLines cs) = cs := by
  induction cs with
  | nil => rfl
  | cons c cs ih =>
    obtain ⟨line, lines, cut⟩ := List.exists_cons_of_ne_nil (splitLines_ne_nil cs)
    rw [cut] at ih
    rw [splitLines_cons, cut, consLine]
    split
    · rename_i feed
      rw [List.intercalate_cons_cons, ih, feed]
      rfl
    · rw [List.intercalate_cons_cons_left, ih]

/-! ## The lines that are shown -/

/-- The characters of a line that are shown. -/
def shown (line : List Char) : List Char :=
  line.filter (· ≠ '\r')

lemma shown_append (front rest : List Char) : shown (front ++ rest) = shown front ++ shown rest :=
  List.filter_append _ _

/-- Of a line everything is shown but the carriage returns. -/
lemma length_shown (line : List Char) : (shown line).length + line.count '\r' = line.length := by
  rw [shown, ← List.countP_eq_length_filter, List.length_eq_countP_add_countP (· ≠ '\r'), List.count]
  congr 2
  funext c
  simp [Bool.beq_eq_decide_eq]

lemma shown_intercalate (lines : List (List Char)) :
    shown (['\n'].intercalate lines) = ['\n'].intercalate (lines.map shown) := by
  induction lines with
  | nil => rfl
  | cons line lines ih =>
    cases lines with
    | nil => simp
    | cons next lines =>
      rw [List.intercalate_cons_cons, shown_append, shown_append, ih, List.map_cons, List.map_cons,
        List.map_cons, List.intercalate_cons_cons]
      rfl

/-- The lines of a source, as they are shown. -/
def lines (source : Source) : List String :=
  (splitLines source.chars).map fun line => String.ofList (shown line)

/-- The lines are counted from one, without a gap. -/
lemma line?_succ (source : Source) (index : Nat) : source.line? (index + 1) = source.lines[index]? := by
  rw [lines, List.getElem?_map]
  rfl

/-- **The lines of a source joined by line feeds are its text without carriage returns.** -/
theorem intercalate_lines (source : Source) :
    "\n".intercalate source.lines = String.ofList (shown source.chars) := by
  apply String.toList_injective
  rw [String.toList_intercalate, lines, List.map_map]
  have characters : (String.toList ∘ fun line => String.ofList (shown line)) = shown :=
    funext fun line => String.toList_ofList
  rw [characters]
  calc ['\n'].intercalate ((splitLines source.chars).map shown)
      = shown (['\n'].intercalate (splitLines source.chars)) := (shown_intercalate _).symm
    _ = shown source.chars := by rw [intercalate_splitLines]
    _ = (String.ofList (shown source.chars)).toList := String.toList_ofList.symm

/-- **The line of a character**, cut at the character: in front of it is shown what stands on its line
before it, and behind it what follows up to the next line feed. -/
theorem line?_lineCol (here : source.chars[offset]? = some c) (noFeed : c ≠ '\n') (noReturn : c ≠ '\r')
    (cut : LastLine (source.chars.take offset) front line) :
    source.line? (source.lineCol offset).1 = some (String.ofList
      (shown line ++ c :: shown ((source.chars.drop (offset + 1)).takeWhile (· ≠ '\n')))) := by
  obtain ⟨bound, rfl⟩ := List.getElem?_eq_some_iff.mp here
  have text : source.chars
      = front ++ (line ++ source.chars[offset] :: source.chars.drop (offset + 1)) := by
    rw [← List.append_assoc, ← cut.split, ← List.drop_eq_getElem_cons bound, List.take_append_drop]
  have before : (source.chars.take offset).count '\n' = front.count '\n' := by
    rw [cut.split, List.count_append, List.count_eq_zero_of_not_mem cut.oneLine, Nat.add_zero]
  have whole : ∀ d ∈ line, (d ≠ '\n' : Bool) := fun d member => by
    simpa using fun feed : d = '\n' => cut.oneLine (feed ▸ member)
  have found : (splitLines (front ++ (line ++ source.chars[offset] :: source.chars.drop (offset + 1))))[
      front.count '\n']? = _ := getElem?_splitLines cut.begins
  rw [← text, List.takeWhile_append_of_pos whole, List.takeWhile_cons_of_pos (by simpa using noFeed)]
    at found
  rw [lineCol, cut.coordinates, before, line?_succ, lines, List.getElem?_map, found, Option.map_some,
    shown_append]
  simp [shown, noReturn]

end TreeLang.Source
