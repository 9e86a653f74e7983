import Mathlib.Data.List.Find
import TreeLang.Proofs.Completeness
import TreeLang.Proofs.Spelling

/-!
# The tokens of a text inside another one

A text without quotes, backslashes and comments is read alike wherever it stands: alone, or inside a
longer text that goes on behind it with a line break, a comma or a bracket.  The tokens are the
same ones some characters further on, whatever stands in front of them.

* `Calm` — a text without quotes, backslashes and comments.
* `Behind` — what a longer text may go on with.
* `Place.Carried` — a place in a text, and the same place in a longer text.
* **`lex_carried`** — a token is the same in the longer text.
* `lex_carried_end` — where the text ends, the longer one goes on with a separator or a bracket.
-/

namespace TreeLang

variable {operators : OperatorRegistry} {policy : EscapePolicy} {skipBreaks first : Bool}
  {mode : Mode} {ahead : Nat} {tail cs ds : List Char} {p p' q : Place}

/-! ## What lies ahead of a token

Reading on, a reader never leaves the text: what lies ahead of it later lay ahead of it before.
-/

lemma rest_next_suffix (p : Place) : p.next.rest <:+ p.rest := by
  rw [Place.rest_next]
  exact List.tail_suffix _

lemma rest_skip_suffix (p : Place) (count : Nat) : (p.skip count).rest <:+ p.rest := by
  rw [Place.rest_skip]
  exact List.drop_suffix _ _

lemma skipTrivia_suffix (h : skipTrivia skipBreaks p = .token q) : q.rest <:+ p.rest := by
  fun_induction skipTrivia skipBreaks p with
  | case1 | case2 | case8 =>
    cases h
    exact List.suffix_refl _
  | case3 p _ _ _ _ _ ih => exact (ih h).trans (rest_next_suffix p)
  | case4 p _ _ _ _ _ _ ih | case5 p _ _ _ _ _ _ _ ih | case6 p _ _ _ _ _ _ _ _ _ _ ih =>
    exact (ih h).trans (rest_skip_suffix p _)
  | case7 => cases h

lemma quotedFrom_suffix (policy : EscapePolicy) (quote : Char) (p : Place) :
    (quotedFrom policy quote p).after.rest <:+ p.rest := by
  have fold : ∀ p : Place, (skipFold p).rest <:+ p.rest := by
    intro p
    rw [skipFold]
    split
    · exact rest_skip_suffix p _
    · exact List.suffix_refl _
  fun_induction quotedFrom policy quote p with
  | case1 p => exact List.suffix_refl _
  | case2 p => exact rest_next_suffix p
  | case3 p _ _ _ ih | case6 p _ _ _ _ _ _ ih | case8 p _ _ _ _ _ _ _ _ ih =>
    exact ih.trans (rest_next_suffix p)
  | case4 p _ _ _ _ ih | case5 p _ _ _ _ _ _ _ _ _ ih => exact ih.trans (rest_skip_suffix p _)
  | case7 p _ _ _ _ _ _ _ ih => exact ih.trans ((fold p.next).trans (rest_next_suffix p))

/-- What is kept in front of a scan does not lie ahead of it. -/
lemma LiteralScan.keep_suffix {scan : LiteralScan} {front text : List Char} {stop : Place}
    (h : (scan.keep front q).content = some (text, stop))
    (inside : ∀ more, scan.content = some (more, stop) → stop.rest <:+ q.rest) :
    stop.rest <:+ q.rest := by
  cases hcontent : scan.content with
  | none =>
    simp only [keep, hcontent, Option.some.injEq, Prod.mk.injEq] at h
    obtain ⟨-, rfl⟩ := h
    exact List.suffix_refl _
  | some content =>
    obtain ⟨more, place⟩ := content
    simp only [keep, hcontent, Option.some.injEq, Prod.mk.injEq] at h
    exact inside more (by rw [hcontent, h.2])

lemma literalFrom_suffix {text : List Char}
    (h : (literalFrom operators policy mode first p).content = some (text, q)) :
    q.rest <:+ p.rest := by
  fun_induction literalFrom operators policy mode first p generalizing text with
  | case1 | case5 | case6 | case8 | case9 => cases h
  | case2 _ p => exact (LiteralScan.keep_suffix h fun _ h => by cases h).trans (rest_next_suffix p)
  | case3 _ p _ _ _ ih => exact (ih h).trans (rest_skip_suffix p _)
  | case4 _ p =>
    rename_i ih
    exact (LiteralScan.keep_suffix h fun _ h => ih h).trans (rest_skip_suffix p _)
  | case7 _ p _ _ _ _ _ _ _ ih =>
    obtain ⟨⟨more, place⟩, hcontent, same⟩ := Option.map_eq_some_iff.mp h
    obtain ⟨-, rfl⟩ := Prod.mk.inj same
    exact (ih hcontent).trans (rest_next_suffix p)
  | case10 _ p _ _ _ _ _ _ _ _ ih =>
    exact (LiteralScan.keep_suffix h fun _ h => ih h).trans (rest_next_suffix p)

/-- **What lies ahead of a token lay ahead before it.** -/
theorem lex_suffix (operators : OperatorRegistry) (policy : EscapePolicy) (skipBreaks : Bool)
    (mode : Mode) (p : Place) : (lex operators policy skipBreaks mode p).after.rest <:+ p.rest := by
  have literal : ∀ q : Place, (lexLiteral operators policy mode q).after.rest <:+ q.rest := by
    intro q
    simp only [lexLiteral]
    cases hcontent : (literalFrom operators policy mode true q).content with
    | none => exact List.suffix_refl _
    | some content => exact literalFrom_suffix hcontent
  have begun : ∀ q : Place, (lexHere operators policy mode q).after.rest <:+ q.rest := by
    intro q
    simp only [lexHere]
    split
    · exact List.suffix_refl _
    split
    · exact rest_next_suffix q
    split
    · exact (quotedFrom_suffix policy _ q.next).trans (rest_next_suffix q)
    split
    · cases found : lexOperator? operators q with
      | none => exact literal q
      | some lexeme =>
        obtain ⟨_, -, -, -, -, after⟩ := lexOperator?_eq_some found
        rw [Option.getD_some, after]
        exact rest_skip_suffix q _
    · exact literal q
  rw [lex]
  split
  · rename_i q skips
    exact (begun q).trans (skipTrivia_suffix skips)
  · simp

/-! ## Calm texts -/

/-- **A text without quotes, backslashes and comments.** -/
structure Calm (cs : List Char) : Prop where
  chars : ∀ c ∈ cs, c ≠ '"' ∧ c ≠ '\'' ∧ c ≠ '\\'
  comment : opensComment cs = false

instance (cs : List Char) : Decidable (Calm cs) :=
  decidable_of_iff
    (cs.all (fun c => c ≠ '"' ∧ c ≠ '\'' ∧ c ≠ '\\') = true ∧ opensComment cs = false)
    ⟨fun h => ⟨fun c member => by simpa using List.all_eq_true.mp h.1 c member, h.2⟩,
      fun h => ⟨List.all_eq_true.mpr fun c member => by simpa using h.chars c member, h.comment⟩⟩

lemma Calm.of_suffix (calm : Calm cs) (suffix : ds <:+ cs) : Calm ds := by
  obtain ⟨front, rfl⟩ := suffix
  exact ⟨fun c member => calm.chars c (List.mem_append_right _ member),
    (opensComment_append calm.comment).2⟩

/-- No comment begins where a calm text does. -/
lemma Calm.head {c : Char} (calm : Calm (c :: cs)) :
    c ≠ '\\' ∧ ¬ (c = '/' ∧ cs.head? = some '/') ∧ ¬ (c = '/' ∧ cs.head? = some '*') := by
  have comment := calm.comment
  rw [opensComment, Bool.or_eq_false_iff, Bool.and_eq_false_iff] at comment
  refine ⟨(calm.chars c List.mem_cons_self).2.2, ?_, ?_⟩
  · rintro ⟨rfl, second⟩
    simp [second] at comment
  · rintro ⟨rfl, second⟩
    simp [second] at comment

/-- **What a longer text may go on with**: a line break, a comma or a bracket, none of which is part
of an operator. -/
def Behind (operators : OperatorRegistry) : List Char → Prop
  | [] => False
  | c :: _ => (c = '\n' ∨ c = ',' ∨ c = ']') ∧ ∀ op ∈ operators.definitions, c ∉ op.name.toList

lemma Behind.exists_cons (behind : Behind operators tail) : ∃ c rest, tail = c :: rest ∧
    (c = '\n' ∨ c = ',' ∨ c = ']') ∧ ∀ op ∈ operators.definitions, c ∉ op.name.toList := by
  cases tail with
  | nil => exact behind.elim
  | cons c rest => exact ⟨c, rest, rfl, behind⟩

/-- Where the longer text goes on no literal does. -/
lemma Behind.stops (behind : Behind operators tail) (bracket : mode ≠ .key) : Stops mode tail := by
  obtain ⟨c, rest, rfl, kind, -⟩ := behind.exists_cons
  left
  rcases kind with rfl | rfl | rfl <;> simp [delimiter?, bracket]

/-- Neither does it go on with a comment, a digit or a word. -/
lemma Behind.head (behind : Behind operators tail) {c : Char} (head : tail.head? = some c) :
    c ≠ '/' ∧ c ≠ '*' ∧ c.isDigit = false ∧ Text.continuesWord c = false := by
  obtain ⟨d, rest, rfl, kind, -⟩ := behind.exists_cons
  obtain rfl := Option.some.inj head
  rcases kind with rfl | rfl | rfl <;> decide

/-! ## Places -/

/-- **The same place in a longer text**, some characters further on.  What stands in front matters
only where a point may be part of a number. -/
structure Place.Carried (ahead : Nat) (tail : List Char) (p p' : Place) : Prop where
  rest : p'.rest = p.rest ++ tail
  offset : p'.offset = p.offset + ahead
  digit : p'.previous.any Char.isDigit = p.previous.any Char.isDigit

lemma Place.Carried.next (carried : p.Carried ahead tail p') (more : p.rest ≠ []) :
    p.next.Carried ahead tail p'.next := by
  obtain ⟨c, rest, hp⟩ := List.exists_cons_of_ne_nil more
  obtain ⟨hrest, offset, digit⟩ := carried
  rw [hp, List.cons_append] at hrest
  have here : p.next = ⟨p.offset + 1, some c, rest⟩ := by rw [Place.next, hp]
  have there : p'.next = ⟨p'.offset + 1, some c, rest ++ tail⟩ := by rw [Place.next, hrest]
  rw [here, there]
  exact ⟨rfl, by rw [offset]; exact Nat.add_right_comm _ _ _, rfl⟩

lemma Place.Carried.skip {count : Nat} (carried : p.Carried ahead tail p')
    (enough : count ≤ p.rest.length) : (p.skip count).Carried ahead tail (p'.skip count) := by
  induction count generalizing p p' with
  | zero => exact carried
  | succ count ih =>
    have more : p.rest ≠ [] := by
      rintro empty
      rw [empty] at enough
      exact absurd enough (by simp)
    refine ih (carried.next more) ?_
    rw [Place.rest_next, List.length_tail]
    omega

/-! ## Between tokens -/

/-- In a calm text only blanks are skipped, and they are skipped in the longer one as well. -/
lemma skipTrivia_carried (skipBreaks : Bool) (calm : Calm p.rest) :
    ∃ q, skipTrivia skipBreaks p = .token q ∧
      (∀ d ∈ p.rest, Text.isBlank d = false → d ∈ q.rest) ∧ ∀ p', p.Carried ahead tail p' →
        ∃ q', q.Carried ahead tail q' ∧ skipTrivia skipBreaks p' = skipTrivia skipBreaks q' := by
  fun_induction skipTrivia skipBreaks p with
  | case1 p hrest =>
    exact ⟨p, rfl, fun _ member _ => member, fun p' carried => ⟨p', carried, rfl⟩⟩
  | case2 p c rest hrest newline =>
    exact ⟨p, rfl, fun _ member _ => member, fun p' carried => ⟨p', carried, rfl⟩⟩
  | case3 p c rest hrest newline blank ih =>
    have next := Place.rest_next_of_cons hrest
    obtain ⟨q, skips, kept, same⟩ := ih (calm.of_suffix (rest_next_suffix p))
    refine ⟨q, skips, fun d member solid => ?_, fun p' carried => ?_⟩
    · rw [hrest] at member
      rcases List.mem_cons.mp member with rfl | member
      · rw [blank] at solid
        cases solid
      · exact kept d (next ▸ member) solid
    obtain ⟨q', moved, skipped⟩ := same p'.next (carried.next (by simp [hrest]))
    refine ⟨q', moved, Eq.trans ?_ skipped⟩
    have hp' : p'.rest = c :: (rest ++ tail) := by rw [carried.rest, hrest, List.cons_append]
    conv_lhs => rw [skipTrivia]
    split
    · simp_all
    · rename_i d other hother
      rw [hp'] at hother
      obtain ⟨rfl, rfl⟩ := List.cons.inj hother
      rw [if_neg newline, if_pos blank]
  | case8 p c rest hrest =>
    exact ⟨p, rfl, fun _ member _ => member, fun p' carried => ⟨p', carried, rfl⟩⟩
  | case4 p c rest hrest newline blank continued =>
    rw [hrest] at calm
    exact absurd continued.1 calm.head.1
  | case5 p c rest hrest newline blank continued line =>
    rw [hrest] at calm
    exact absurd line calm.head.2.1
  | case6 p c rest hrest newline blank continued line block =>
    rw [hrest] at calm
    exact absurd block calm.head.2.2
  | case7 p c rest hrest newline blank continued line block =>
    rw [hrest] at calm
    exact absurd block calm.head.2.2

/-- A token that begins in a calm text begins in the longer one. -/
lemma stands_carried (calm : Calm cs) (behind : Behind operators tail) (more : cs ≠ [])
    (stands : Stands skipBreaks cs) : Stands skipBreaks (cs ++ tail) := by
  obtain ⟨c, rest, rfl⟩ := List.exists_cons_of_ne_nil more
  have second : c = '/' → ∀ d, (rest ++ tail).head? = some d → d ≠ '/' ∧ d ≠ '*' := by
    rintro rfl d head
    cases rest with
    | nil => exact ⟨(behind.head head).1, (behind.head head).2.1⟩
    | cons e rest =>
      obtain rfl := Option.some.inj head
      exact ⟨fun h => calm.head.2.1 ⟨rfl, by rw [h]; rfl⟩,
        fun h => calm.head.2.2 ⟨rfl, by rw [h]; rfl⟩⟩
  refine stands.imp id fun begun => ⟨begun.1, fun h => calm.head.1 h.1, ?_, ?_⟩
  · rintro ⟨slash, head⟩
    exact (second slash _ head).1 rfl
  · rintro ⟨slash, head⟩
    exact (second slash _ head).2 rfl

/-! ## Operators -/

/-- What ends before a character that is not part of it ends before it in the longer text. -/
lemma prefix_append_iff {name : List Char} {c : Char} (absent : c ∉ name) :
    name <+: cs ++ c :: ds ↔ name <+: cs := by
  refine ⟨fun h => ?_, fun h => h.trans (List.prefix_append _ _)⟩
  induction cs generalizing name with
  | nil =>
    cases name with
    | nil => exact List.nil_prefix
    | cons d name =>
      obtain ⟨rfl, -⟩ := List.cons_prefix_cons.mp h
      exact absurd List.mem_cons_self absent
  | cons d cs ih =>
    cases name with
    | nil => exact List.nil_prefix
    | cons e name =>
      rw [List.cons_append, List.cons_prefix_cons] at h
      obtain ⟨rfl, h⟩ := h
      exact List.cons_prefix_cons.mpr ⟨rfl, ih (fun h => absent (List.mem_cons_of_mem _ h)) h⟩

lemma mem_definitions_of_mem_symbols {keyword : Bool} {c : Char} {name : String}
    (member : name ∈ operators.symbols keyword c) : ∃ op ∈ operators.definitions, op.name = name := by
  simp only [OperatorRegistry.symbols, List.mem_mergeSort, List.mem_eraseDups, List.mem_map,
    List.mem_filter] at member
  obtain ⟨op, ⟨inside, -⟩, rfl⟩ := member
  exact ⟨op, inside, rfl⟩

lemma isPrefixOf_carried (behind : Behind operators tail) (carried : p.Carried ahead tail p')
    {keyword : Bool} {c : Char} {name : String}
    (member : name ∈ operators.symbols keyword c) :
    name.toList.isPrefixOf p'.rest = name.toList.isPrefixOf p.rest := by
  obtain ⟨d, rest, rfl, -, absent⟩ := behind.exists_cons
  obtain ⟨op, inside, rfl⟩ := mem_definitions_of_mem_symbols member
  rw [Bool.eq_iff_iff, List.isPrefixOf_iff_prefix, List.isPrefixOf_iff_prefix, carried.rest,
    prefix_append_iff (absent op inside)]

lemma head?_carried (carried : p.Carried ahead tail p') (more : p.rest ≠ []) :
    p'.rest.head? = p.rest.head? := by
  obtain ⟨c, rest, hp⟩ := List.exists_cons_of_ne_nil more
  rw [carried.rest, hp]
  rfl

/-- A symbol operator is the same in the longer text. -/
lemma symbolAt?_carried (behind : Behind operators tail) (carried : p.Carried ahead tail p')
    (more : p.rest ≠ []) : symbolAt? operators p' = symbolAt? operators p := by
  have between : betweenDigits p' = betweenDigits p := by
    obtain ⟨c, rest, hp⟩ := List.exists_cons_of_ne_nil more
    rw [betweenDigits, betweenDigits, carried.digit, carried.rest, hp, List.cons_append,
      List.tail_cons, List.tail_cons]
    cases rest with
    | cons d rest => rfl
    | nil =>
      obtain ⟨d, rest, rfl, -⟩ := behind.exists_cons
      simp [(behind.head (c := d) rfl).2.2.1]
  rw [symbolAt?, symbolAt?, head?_carried carried more]
  refine congrArg (Option.bind _) (funext fun c => List.find?_congr fun name member => ?_)
  rw [isPrefixOf_carried behind carried member, between]

/-- So is a word operator. -/
lemma wordAt?_carried (behind : Behind operators tail) (carried : p.Carried ahead tail p')
    (more : p.rest ≠ []) : wordAt? operators p' = wordAt? operators p := by
  rw [wordAt?, wordAt?, head?_carried carried more]
  refine congrArg (Option.bind _) (funext fun c => List.find?_congr fun name member => ?_)
  rw [isPrefixOf_carried behind carried member]
  cases hprefix : name.toList.isPrefixOf p.rest with
  | false => rfl
  | true =>
    have enough : name.length ≤ p.rest.length := by
      rw [← String.length_toList]
      exact (List.isPrefixOf_iff_prefix.mp hprefix).length_le
    rw [carried.rest, List.drop_append_of_le_length enough]
    cases hdrop : p.rest.drop name.length with
    | cons d rest => rfl
    | nil =>
      obtain ⟨d, rest, rfl, -⟩ := behind.exists_cons
      simp [(behind.head (c := d) rfl).2.2.2]

/-! ## Literals -/

/-- One step of reading a literal, where no escape is. -/
lemma literalFrom_cons {c : Char} (hp : p.rest = c :: cs) (escape : c ≠ '\\') :
    literalFrom operators policy mode first p =
      if (delimiter? mode c).isSome then ⟨none, []⟩
      else if Text.isBlank c then
        if mode.endsAtBlank then ⟨none, []⟩
        else (literalFrom operators policy mode false p.next).keepBlank c
      else if c = '/' ∧ (cs.head? = some '/' ∨ cs.head? = some '*') then ⟨none, []⟩
      else if mode = .operation ∧ first = false ∧ (symbolAt? operators p).isSome then ⟨none, []⟩
      else (literalFrom operators policy mode false p.next).keep [c] p.next := by
  rw [literalFrom]
  split
  · simp_all
  · rename_i d rest hrest
    rw [hp] at hrest
    obtain ⟨rfl, rfl⟩ := List.cons.inj hrest
    rw [if_neg escape]

/-- The content of a literal in a text, and the same content in a longer one. -/
def SameContent (ahead : Nat) (tail cs : List Char) (a b : Option (List Char × Place)) : Prop :=
  match a, b with
  | none, none => True
  | some (text, stop), some (text', stop') =>
    text' = text ∧ text <+: cs ∧ stop.Carried ahead tail stop'
  | _, _ => False

lemma SameContent.keepBlank {c : Char} {a b : LiteralScan}
    (same : SameContent ahead tail cs a.content b.content) :
    SameContent ahead tail (c :: cs) (a.keepBlank c).content (b.keepBlank c).content := by
  simp only [LiteralScan.keepBlank]
  cases ha : a.content <;> cases hb : b.content <;> rw [ha, hb] at same
  · trivial
  · exact same.elim
  · exact same.elim
  · obtain ⟨text, start, carried⟩ := same
    exact ⟨congrArg (c :: ·) text, List.cons_prefix_cons.mpr ⟨rfl, start⟩, carried⟩

lemma SameContent.keep {c : Char} {a b : LiteralScan}
    (same : SameContent ahead tail cs a.content b.content)
    (carried : p.Carried ahead tail p') :
    SameContent ahead tail (c :: cs) (a.keep [c] p).content (b.keep [c] p').content := by
  simp only [LiteralScan.keep]
  cases ha : a.content <;> cases hb : b.content <;> rw [ha, hb] at same
  · exact ⟨rfl, List.cons_prefix_cons.mpr ⟨rfl, List.nil_prefix⟩, carried⟩
  · exact same.elim
  · exact same.elim
  · obtain ⟨text, start, carried⟩ := same
    exact ⟨congrArg (c :: ·) text, List.cons_prefix_cons.mpr ⟨rfl, start⟩, carried⟩

/-- **A literal is the same in the longer text**, if it ends before the text does or the longer text
goes on with what ends it. -/
lemma literalFrom_carried (behind : Behind operators tail) (calm : Calm cs) (hp : p.rest = cs)
    (carried : p.Carried ahead tail p')
    (ends : Stops mode tail ∨ ∃ d ∈ cs, (delimiter? mode d).isSome = true) :
    (literalFrom operators policy mode first p).reports = [] ∧
      (literalFrom operators policy mode first p').reports = [] ∧
      SameContent ahead tail cs (literalFrom operators policy mode first p).content
        (literalFrom operators policy mode first p').content := by
  induction cs generalizing p p' first with
  | nil =>
    have stops : Stops mode tail := ends.resolve_right (by simp)
    have bare : Bare operators mode [] := ⟨by simp, rfl, by simp⟩
    have here : literalFrom operators policy mode first p = ⟨none, []⟩ :=
      literalFrom_bare policy first bare (show Stops mode [] from trivial) (by simpa using hp)
    have there : literalFrom operators policy mode first p' = ⟨none, []⟩ :=
      literalFrom_bare policy first bare stops (by rw [carried.rest, hp])
    rw [here, there]
    exact ⟨rfl, rfl, trivial⟩
  | cons c cs ih =>
    have more : p.rest ≠ [] := by simp [hp]
    have hp' : p'.rest = c :: (cs ++ tail) := by rw [carried.rest, hp, List.cons_append]
    have next := Place.rest_next_of_cons hp
    have suffix : cs <:+ c :: cs := List.suffix_cons _ _
    have second : (c = '/' ∧ ((cs ++ tail).head? = some '/' ∨ (cs ++ tail).head? = some '*'))
        ↔ c = '/' ∧ (cs.head? = some '/' ∨ cs.head? = some '*') := by
      cases cs with
      | cons d cs => rfl
      | nil =>
        obtain ⟨d, rest, rfl, -⟩ := behind.exists_cons
        have head := behind.head (c := d) rfl
        simp [head.1, head.2.1]
    rw [literalFrom_cons hp calm.head.1, literalFrom_cons hp' calm.head.1]
    simp only [second, symbolAt?_carried behind carried more]
    by_cases delimits : (delimiter? mode c).isSome = true
    · simp only [delimits, if_true]
      exact ⟨trivial, trivial, trivial⟩
    have ends : Stops mode tail ∨ ∃ d ∈ cs, (delimiter? mode d).isSome = true := by
      refine ends.imp_right ?_
      rintro ⟨d, member, h⟩
      rcases List.mem_cons.mp member with rfl | member
      · exact absurd h delimits
      · exact ⟨d, member, h⟩
    have scans : (literalFrom operators policy mode false p.next).reports = [] ∧ _ :=
      ih (calm.of_suffix suffix) next (carried.next more) ends
    obtain ⟨silent, silent', same⟩ := scans
    rw [if_neg delimits, if_neg delimits]
    set scan := literalFrom operators policy mode false p.next
    set scan' := literalFrom operators policy mode false p'.next
    by_cases blank : Text.isBlank c = true
    · rw [if_pos blank, if_pos blank]
      split
      · exact ⟨rfl, rfl, trivial⟩
      · exact ⟨silent, silent', same.keepBlank⟩
    rw [if_neg blank, if_neg blank]
    split
    · exact ⟨rfl, rfl, trivial⟩
    split
    · exact ⟨rfl, rfl, trivial⟩
    exact ⟨silent, silent', same.keep (carried.next more)⟩

/-! ## Tokens -/

/-- The token some characters further on. -/
def Token.shift (token : Token) (ahead : Nat) : Token :=
  { token with start := token.start + ahead, stop := token.stop + ahead }

/-- **What is read in a calm text**: nothing is wrong with it, it is not quoted, and what it holds
stands in the text. -/
structure Lexeme.Plain (lexeme : Lexeme) (cs : List Char) : Prop where
  silent : lexeme.reports = []
  unquoted : lexeme.token.kind ≠ .quoted
  closed : lexeme.token.kind ≠ .openComment
  content : lexeme.token.content.toList <:+: cs

/-- **The same token in a longer text.** -/
structure Lexeme.Carried (ahead : Nat) (tail : List Char) (lexeme lexeme' : Lexeme) : Prop where
  token : lexeme'.token = lexeme.token.shift ahead
  after : lexeme.after.Carried ahead tail lexeme'.after
  silent : lexeme'.reports = []

/-- An operator is the same in the longer text. -/
lemma lexOperator?_carried (behind : Behind operators tail) (carried : p.Carried ahead tail p')
    (more : p.rest ≠ []) :
    (lexOperator? operators p = none ∧ lexOperator? operators p' = none) ∨
      ∃ lexeme lexeme', lexOperator? operators p = some lexeme ∧
        lexOperator? operators p' = some lexeme' ∧ lexeme.Plain p.rest ∧
        lexeme.Carried ahead tail lexeme' := by
  have word := wordAt?_carried behind carried more
  have symbol := symbolAt?_carried behind carried more
  have piece : ∀ (kind : TokenKind) (name : String), kind = .keyword ∨ kind = .operator →
      name.toList <+: p.rest →
      let after := p.skip name.length
      let after' := p'.skip name.length
      Lexeme.Plain ⟨⟨kind, name, p.offset, after.offset⟩, after, []⟩ p.rest ∧
        Lexeme.Carried ahead tail ⟨⟨kind, name, p.offset, after.offset⟩, after, []⟩
          ⟨⟨kind, name, p'.offset, after'.offset⟩, after', []⟩ := by
    intro kind name isKind start
    have enough : name.length ≤ p.rest.length := by
      rw [← String.length_toList]
      exact start.length_le
    have moved := carried.skip enough
    refine ⟨⟨rfl, ?_, ?_, start.isInfix⟩, ⟨?_, moved, rfl⟩⟩
    · rcases isKind with rfl | rfl <;> simp
    · rcases isKind with rfl | rfl <;> simp
    · simp only [Token.shift, carried.offset, moved.offset]
  have found : ∀ {keyword : Bool} {name : String} {c : Char} {test : String → Bool},
      ((operators.symbols keyword c).find? fun name =>
        name.toList.isPrefixOf p.rest && test name) = some name → name.toList <+: p.rest := by
    intro keyword name c test h
    have start := List.find?_some h
    simp only [Bool.and_eq_true] at start
    exact List.isPrefixOf_iff_prefix.mp start.1
  rw [lexOperator?, lexOperator?, word, symbol]
  cases hword : wordAt? operators p with
  | some name =>
    obtain ⟨c, -, h⟩ := Option.bind_eq_some_iff.mp hword
    exact .inr ⟨_, _, rfl, rfl, piece .keyword name (.inl rfl) (found h)⟩
  | none =>
    cases hsymbol : symbolAt? operators p with
    | some name =>
      obtain ⟨c, -, h⟩ := Option.bind_eq_some_iff.mp hsymbol
      exact .inr ⟨_, _, rfl, rfl, piece .operator name (.inr rfl) (found h)⟩
    | none => exact .inl ⟨rfl, rfl⟩

/-- A literal is the same in the longer text. -/
lemma lexLiteral_carried (behind : Behind operators tail) (calm : Calm p.rest)
    (carried : p.Carried ahead tail p')
    (ends : Stops mode tail ∨ ∃ d ∈ p.rest, (delimiter? mode d).isSome = true) :
    (lexLiteral operators policy mode p).Plain p.rest ∧
      (lexLiteral operators policy mode p).Carried ahead tail
        (lexLiteral operators policy mode p') := by
  have scans : (literalFrom operators policy mode true p).reports = [] ∧ _ :=
    literalFrom_carried behind calm rfl carried ends
  obtain ⟨silent, silent', same⟩ := scans
  simp only [lexLiteral]
  cases h : (literalFrom operators policy mode true p).content <;>
    cases h' : (literalFrom operators policy mode true p').content <;> rw [h, h'] at same
  · refine ⟨⟨silent, by simp, by simp, by simp⟩, ⟨?_, carried, silent'⟩⟩
    simp [Token.shift, carried.offset]
  · exact same.elim
  · exact same.elim
  · obtain ⟨text, start, moved⟩ := same
    refine ⟨⟨silent, by simp, by simp, by simpa using start.isInfix⟩, ⟨?_, moved, silent'⟩⟩
    simp [Token.shift, carried.offset, moved.offset, text]

/-- A token that begins at a place is the same in the longer text. -/
lemma lexHere_carried (behind : Behind operators tail) (calm : Calm p.rest)
    (carried : p.Carried ahead tail p') (more : p.rest ≠ [])
    (ends : (lexHere operators policy mode p).token.kind.isWorded →
      Stops mode tail ∨ ∃ d ∈ p.rest, (delimiter? mode d).isSome = true) :
    (lexHere operators policy mode p).Plain p.rest ∧
      (lexHere operators policy mode p).Carried ahead tail (lexHere operators policy mode p') := by
  obtain ⟨c, rest, hp⟩ := List.exists_cons_of_ne_nil more
  have hp' : p'.rest = c :: (rest ++ tail) := by rw [carried.rest, hp, List.cons_append]
  have quote : ¬ (c = '"' ∨ c = '\'') := by
    rw [hp] at calm
    have chars := calm.chars c List.mem_cons_self
    exact fun h => h.elim chars.1 chars.2.1
  simp only [lexHere, hp, hp', List.head?_cons, quote, if_false]
  cases delimits : delimiter? mode c with
  | some kind =>
    have next := carried.next more
    have text : kind ≠ .quoted ∧ kind ≠ .openComment := by
      constructor <;> rintro rfl <;> cases delimiter?_sign delimits
    refine ⟨⟨rfl, text.1, text.2, by simp⟩, ⟨?_, next, rfl⟩⟩
    simp only [Token.shift, carried.offset, next.offset]
  | none =>
    have worded : (lexHere operators policy mode p).token.kind.isWorded = true := by
      rcases kind_lexHere_cases operators policy mode p with ⟨empty, -⟩ | ⟨d, head, kind | kind⟩
      · exact absurd empty more
      · rw [hp] at head
        obtain rfl := Option.some.inj head
        rw [delimits] at kind
        cases kind
      · exact kind.2
    have literal : (lexLiteral operators policy mode p).Plain p.rest ∧ _ :=
      lexLiteral_carried behind calm carried (ends worded)
    rw [hp] at literal
    dsimp only
    split
    · rcases lexOperator?_carried behind carried more with ⟨nothing, nothing'⟩ | found
      · rw [nothing, nothing']
        exact literal
      · obtain ⟨lexeme, lexeme', found, found', plain, same⟩ := found
        rw [hp] at plain
        rw [found, found']
        exact ⟨plain, same⟩
    · exact literal

/-- What ends a literal: the longer text, or a delimiter in the text itself. -/
def EndsLiteral (mode : Mode) (cs tail : List Char) : Prop :=
  Stops mode tail ∨ ∃ d ∈ cs, (delimiter? mode d).isSome = true ∧ Text.isBlank d = false

/-- **A token is the same in the longer text**, if the text does not end where it begins. -/
theorem lex_carried (behind : Behind operators tail) (calm : Calm p.rest)
    (carried : p.Carried ahead tail p')
    (more : (lex operators policy skipBreaks mode p).token.kind ≠ .endOfInput)
    (ends : (lex operators policy skipBreaks mode p).token.kind.isWorded →
      EndsLiteral mode p.rest tail) :
    (lex operators policy skipBreaks mode p).Plain p.rest ∧
      (lex operators policy skipBreaks mode p).Carried ahead tail
        (lex operators policy skipBreaks mode p') := by
  obtain ⟨q, skips, kept, same⟩ := skipTrivia_carried skipBreaks calm
  obtain ⟨q', moved, skips'⟩ := same p' carried
  have within := skipTrivia_suffix skips
  have here : lex operators policy skipBreaks mode p = lexHere operators policy mode q := by
    rw [lex, skips]
  have nonempty : q.rest ≠ [] := by
    intro empty
    refine more ?_
    rw [here, lexHere, empty]
    rfl
  have stands' : Stands skipBreaks q'.rest := by
    rw [moved.rest]
    exact stands_carried (calm.of_suffix within) behind nonempty (stands_of_skipTrivia skips)
  have there : lex operators policy skipBreaks mode p' = lexHere operators policy mode q' := by
    rw [lex, skips', skipTrivia_of_stands stands']
  rw [here] at ends
  have ends : (lexHere operators policy mode q).token.kind.isWorded →
      Stops mode tail ∨ ∃ d ∈ q.rest, (delimiter? mode d).isSome = true := by
    intro worded
    refine (ends worded).imp_right ?_
    rintro ⟨d, member, delimits, solid⟩
    exact ⟨d, kept d member solid, delimits⟩
  have begun : (lexHere operators policy mode q).Plain q.rest ∧ _ :=
    lexHere_carried behind (calm.of_suffix within) moved nonempty ends
  obtain ⟨plain, same⟩ := begun
  rw [here, there]
  exact ⟨⟨plain.silent, plain.unquoted, plain.closed, plain.content.trans within.isInfix⟩, same⟩

/-- **Where the text ends** the longer one goes on with a separator or a bracket. -/
theorem lex_carried_end (behind : Behind operators tail) (calm : Calm p.rest)
    (carried : p.Carried ahead tail p') (bracket : mode ≠ .key)
    (ended : (lex operators policy false mode p).token.kind = .endOfInput) :
    (lex operators policy false mode p').reports = [] ∧
      ((lex operators policy false mode p').token.kind = .lineBreak ∨
        (lex operators policy false mode p').token.kind = .comma ∨
        (lex operators policy false mode p').token.kind = .rBracket) := by
  obtain ⟨q, skips, -, same⟩ := skipTrivia_carried false calm
  obtain ⟨q', moved, skips'⟩ := same p' carried
  have empty : q.rest = [] := by
    rw [lex, skips] at ended
    rcases kind_lexHere_cases operators policy mode q with ⟨empty, -⟩ | ⟨c, -, delimits | word⟩
    · exact empty
    · exact absurd ended (delimiter?_ne delimits).1
    · have worded := word.2
      rw [ended] at worded
      cases worded
  obtain ⟨c, rest, rfl, kind, -⟩ := behind.exists_cons
  have hq' : q'.rest = c :: rest := by rw [moved.rest, empty, List.nil_append]
  have there : lex operators policy false mode p' = lex operators policy false mode q' := by
    rw [lex, lex, skips']
  have delimiter : ∃ kind, delimiter? mode c = some kind ∧
      (kind = .lineBreak ∨ kind = .comma ∨ kind = .rBracket) := by
    rcases kind with rfl | rfl | rfl
    · exact ⟨_, rfl, .inl rfl⟩
    · exact ⟨.comma, by simp [delimiter?], .inr (.inl rfl)⟩
    · exact ⟨.rBracket, by simp [delimiter?, bracket], .inr (.inr rfl)⟩
  obtain ⟨kind, delimits, kinds⟩ := delimiter
  rw [there, lex_delimiter hq' delimits fun _ => rfl]
  exact ⟨rfl, kinds⟩

/-- A bracket or a separator that is read stands in the text. -/
lemma exists_delimiter (worded : (lex operators policy skipBreaks mode p).token.kind.isWorded = false)
    (more : (lex operators policy skipBreaks mode p).token.kind ≠ .endOfInput)
    (closed : (lex operators policy skipBreaks mode p).token.kind ≠ .openComment) :
    ∃ d ∈ p.rest, delimiter? mode d = some (lex operators policy skipBreaks mode p).token.kind := by
  cases skips : skipTrivia skipBreaks p with
  | openComment q => exact absurd (by rw [lex, skips]) closed
  | token q =>
    have here : lex operators policy skipBreaks mode p = lexHere operators policy mode q := by
      rw [lex, skips]
    rw [here] at worded more ⊢
    rcases kind_lexHere_cases operators policy mode q with ⟨-, ended⟩ | ⟨d, head, kind | kind⟩
    · exact absurd ended more
    · exact ⟨d, (skipTrivia_suffix skips).subset (List.mem_of_head? head), kind⟩
    · rw [kind.2] at worded
      cases worded

end TreeLang
