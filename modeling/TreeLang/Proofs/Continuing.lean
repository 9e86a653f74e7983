import TreeLang.Proofs.Relocating

/-!
# The tokens of a text that goes on

A text may be the whole of a source or the beginning of one that goes on with a new line.  Its tokens
are the same either way, as long as nothing is wrong with them and the text does not end in a
backslash, which would join the lines.  Only where the text ends the longer one has a line break, and
more behind it.  The case that nothing follows is the same text some characters further on in another
source.

* `GoesOn` — what follows a text: nothing, or a new line.
* `Unescaped`, `Unbroken` — the end of the text, and the operators, do not reach over the line break.
* **`Lexeme.Onto`** — what is read at a place of the text, alone and in the longer one.
* **`lex_onto`** — how the tokens of the two texts correspond.
-/

namespace TreeLang

variable {operators : OperatorRegistry} {policy : EscapePolicy} {skipBreaks first : Bool}
  {mode : Mode} {ahead : Nat} {tail cs ds : List Char} {p p' q : Place} {c : Char}

/-! ## What follows a text -/

/-- **What follows a text**: nothing, or a new line. -/
def GoesOn (tail : List Char) : Prop :=
  tail = [] ∨ ∃ rest, tail = '\n' :: rest

/-- A text that goes on does not end in a backslash. -/
def Unescaped (tail cs : List Char) : Prop :=
  tail ≠ [] → cs.getLast? ≠ some '\\'

/-- Where a text goes on no operator reaches over the line break. -/
def Unbroken (tail : List Char) (operators : OperatorRegistry) : Prop :=
  tail ≠ [] → ∀ op ∈ operators.definitions, '\n' ∉ op.name.toList

lemma Unescaped.of_suffix (unescaped : Unescaped tail cs) (suffix : ds <:+ cs) :
    Unescaped tail ds := by
  intro more last
  obtain ⟨front, rfl⟩ := suffix
  exact unescaped more (by rw [List.getLast?_append, last]; rfl)

/-- Behind a backslash the text is not at its end. -/
lemma Unescaped.ne_nil (unescaped : Unescaped tail ('\\' :: cs)) (more : tail ≠ []) : cs ≠ [] := by
  rintro rfl
  exact unescaped more rfl

/-- What comes next is the same in the longer text, unless it is a line break. -/
lemma GoesOn.head?_eq (on : GoesOn tail) (ne : c ≠ '\n') :
    (cs ++ tail).head? = some c ↔ cs.head? = some c := by
  cases cs with
  | cons d cs => rfl
  | nil =>
    obtain rfl | ⟨rest, rfl⟩ := on
    · rfl
    · simp [ne.symm]

/-- Behind a backslash that is true of line breaks as well. -/
lemma GoesOn.head?_eq_escaped (unescaped : Unescaped tail ('\\' :: cs)) (c : Char) :
    (cs ++ tail).head? = some c ↔ cs.head? = some c := by
  cases cs with
  | cons d cs => rfl
  | nil =>
    by_cases more : tail = []
    · rw [more]
      rfl
    · exact absurd rfl (unescaped.ne_nil more)

/-- A run of characters that a line break ends is the same in the longer text. -/
lemma GoesOn.takeWhile_eq (on : GoesOn tail) {test : Char → Bool} (ends : test '\n' = false) :
    (cs ++ tail).takeWhile test = cs.takeWhile test := by
  induction cs with
  | nil =>
    obtain rfl | ⟨rest, rfl⟩ := on
    · rfl
    · simp [ends]
  | cons c cs ih => simp only [List.cons_append, List.takeWhile_cons, ih]

/-! ## Between tokens -/

/-- One step between two tokens. -/
lemma skipTrivia_cons (hp : p.rest = c :: cs) : skipTrivia skipBreaks p =
    if c = '\n' ∧ skipBreaks = false then .token p
    else if Text.isBlank c then skipTrivia skipBreaks p.next
    else if c = '\\' ∧ cs.head? = some '\n' then skipTrivia skipBreaks (p.skip 2)
    else if c = '/' ∧ cs.head? = some '/' then
      skipTrivia skipBreaks (p.skip (2 + (cs.tail.takeWhile (· ≠ '\n')).length))
    else if c = '/' ∧ cs.head? = some '*' then
      match commentLength? cs.tail with
      | some length => skipTrivia skipBreaks (p.skip (2 + length))
      | none => .openComment p
    else .token p := by
  rw [skipTrivia]
  split
  · simp_all
  · rename_i d rest hrest
    rw [hp] at hrest
    obtain ⟨rfl, rfl⟩ := List.cons.inj hrest
    rfl

/-- The end of a comment is the same in the longer text. -/
lemma commentLength?_append {length : Nat} (on : GoesOn tail)
    (h : commentLength? cs = some length) :
    commentLength? (cs ++ tail) = some length ∧ length ≤ cs.length := by
  induction cs generalizing length with
  | nil => cases h
  | cons c cs ih =>
    simp only [List.cons_append, commentLength?, on.head?_eq (by decide : '/' ≠ '\n')] at h ⊢
    split at h
    · rename_i closes
      obtain ⟨d, ds, hcs⟩ : ∃ d ds, cs = d :: ds := by
        cases cs with
        | nil => simp at closes
        | cons d ds => exact ⟨d, ds, rfl⟩
      cases h
      rw [if_pos closes, hcs]
      simp
    · rename_i closes
      obtain ⟨inner, found, rfl⟩ := Option.map_eq_some_iff.mp h
      obtain ⟨same, le⟩ := ih found
      rw [if_neg closes, same]
      exact ⟨rfl, by simpa using le⟩

/-- The same step is made in the longer text. -/
lemma skipTrivia_cons_onto (on : GoesOn tail) (unescaped : Unescaped tail (c :: cs))
    (hp' : p'.rest = c :: (cs ++ tail)) : skipTrivia skipBreaks p' =
    if c = '\n' ∧ skipBreaks = false then .token p'
    else if Text.isBlank c then skipTrivia skipBreaks p'.next
    else if c = '\\' ∧ cs.head? = some '\n' then skipTrivia skipBreaks (p'.skip 2)
    else if c = '/' ∧ cs.head? = some '/' then
      skipTrivia skipBreaks (p'.skip (2 + (cs.tail.takeWhile (· ≠ '\n')).length))
    else if c = '/' ∧ cs.head? = some '*' then
      match commentLength? (cs.tail ++ tail) with
      | some length => skipTrivia skipBreaks (p'.skip (2 + length))
      | none => .openComment p'
    else .token p' := by
  have continued : (c = '\\' ∧ (cs ++ tail).head? = some '\n')
      ↔ c = '\\' ∧ cs.head? = some '\n' := by
    refine and_congr_right ?_
    rintro rfl
    exact GoesOn.head?_eq_escaped unescaped _
  have behind {d : Char} (head : cs.head? = some d) : (cs ++ tail).tail = cs.tail ++ tail := by
    cases cs with
    | nil => cases head
    | cons => rfl
  rw [skipTrivia_cons hp']
  simp only [continued, on.head?_eq (by decide : '/' ≠ '\n'), on.head?_eq (by decide : '*' ≠ '\n')]
  split_ifs with newline blank join line block
  · rfl
  · rfl
  · rfl
  · rw [behind line.2, on.takeWhile_eq (by decide)]
  · rw [behind block.2]
  · rfl

/-- Where a token begins in the longer text. -/
def SkipsTo (ahead : Nat) (tail : List Char) (skipBreaks : Bool) (p' : Place) : TriviaEnd → Prop
  | .token q => ∃ q', q.Carried ahead tail q' ∧
    skipTrivia skipBreaks p' = skipTrivia skipBreaks q' ∧
    (q.rest ≠ [] ∨ tail = [] ∨ skipBreaks = false → skipTrivia skipBreaks q' = .token q')
  | .openComment q => tail = [] → ∃ q', q.Carried ahead tail q' ∧
    skipTrivia skipBreaks p' = .openComment q'

lemma SkipsTo.of_eq {p'' : Place} {reached : TriviaEnd}
    (same : skipTrivia skipBreaks p' = skipTrivia skipBreaks p'')
    (skips : SkipsTo ahead tail skipBreaks p'' reached) : SkipsTo ahead tail skipBreaks p' reached := by
  cases reached with
  | token q =>
    obtain ⟨q', carried, there, stands⟩ := skips
    exact ⟨q', carried, same.trans there, stands⟩
  | openComment q =>
    intro nothing
    obtain ⟨q', carried, there⟩ := skips nothing
    exact ⟨q', carried, same.trans there⟩

/-- **The same characters are skipped in the longer text**, up to the line break that it has where the
text ends. -/
lemma skipTrivia_onto (on : GoesOn tail) (skipBreaks : Bool) (unescaped : Unescaped tail p.rest)
    (carried : p.Carried ahead tail p') :
    SkipsTo ahead tail skipBreaks p' (skipTrivia skipBreaks p) := by
  have cons {c : Char} {rest : List Char} {p p' : Place} (hp : p.rest = c :: rest)
      (carried : p.Carried ahead tail p') : p'.rest = c :: (rest ++ tail) := by
    rw [carried.rest, hp, List.cons_append]
  fun_induction skipTrivia skipBreaks p generalizing p' with
  | case1 p hrest =>
    have hp' : p'.rest = tail := by rw [carried.rest, hrest, List.nil_append]
    refine ⟨p', carried, rfl, fun h => ?_⟩
    obtain rfl | ⟨rest, rfl⟩ := on
    · rw [skipTrivia_of_stands (by rw [hp']; trivial)]
    · obtain breaks := (h.resolve_left (by simp [hrest])).resolve_left (by simp)
      rw [skipTrivia_cons hp', if_pos ⟨rfl, breaks⟩]
  | case2 p c rest hrest newline =>
    exact ⟨p', carried, rfl, fun _ => by rw [skipTrivia_cons (cons hrest carried), if_pos newline]⟩
  | case3 p c rest hrest newline blank ih =>
    refine .of_eq ?_ (ih (unescaped.of_suffix (rest_next_suffix p))
      (carried.next (by simp [hrest])))
    rw [skipTrivia_cons (cons hrest carried), if_neg newline, if_pos blank]
  | case4 p c rest hrest newline blank continued ih =>
    have enough : 2 ≤ p.rest.length := by
      obtain ⟨rfl, head⟩ := continued
      rw [hrest]
      cases rest <;> simp_all
    refine .of_eq ?_ (ih (unescaped.of_suffix (rest_skip_suffix p 2)) (carried.skip enough))
    rw [skipTrivia_cons_onto on (hrest ▸ unescaped) (cons hrest carried), if_neg newline,
      if_neg blank, if_pos continued]
  | case5 p c rest hrest newline blank continued line ih =>
    have enough : 2 + (rest.tail.takeWhile (· ≠ '\n')).length ≤ p.rest.length := by
      have run := (List.takeWhile_prefix (l := rest.tail) (· ≠ '\n')).length_le
      rw [hrest]
      cases rest with
      | nil => simp_all
      | cons => simp_all; omega
    refine .of_eq ?_ (ih (unescaped.of_suffix (rest_skip_suffix p _)) (carried.skip enough))
    rw [skipTrivia_cons_onto on (hrest ▸ unescaped) (cons hrest carried), if_neg newline,
      if_neg blank, if_neg continued, if_pos line]
  | case6 p c rest hrest newline blank continued line block length found ih =>
    obtain ⟨same, le⟩ := commentLength?_append on found
    have enough : 2 + length ≤ p.rest.length := by
      rw [hrest]
      cases rest with
      | nil => simp_all
      | cons => simp_all; omega
    refine .of_eq ?_ (ih (unescaped.of_suffix (rest_skip_suffix p _)) (carried.skip enough))
    rw [skipTrivia_cons_onto on (hrest ▸ unescaped) (cons hrest carried), if_neg newline,
      if_neg blank, if_neg continued, if_neg line, if_pos block, same]
  | case7 p c rest hrest newline blank continued line block none =>
    rintro rfl
    refine ⟨p', carried, ?_⟩
    rw [skipTrivia_cons_onto on (hrest ▸ unescaped) (cons hrest carried), if_neg newline,
      if_neg blank, if_neg continued, if_neg line, if_pos block, List.append_nil, none]
  | case8 p c rest hrest newline blank continued line block =>
    refine ⟨p', carried, rfl, fun _ => ?_⟩
    rw [skipTrivia_cons_onto on (hrest ▸ unescaped) (cons hrest carried), if_neg newline,
      if_neg blank, if_neg continued, if_neg line, if_neg block]

/-! ## Escapes -/

/-- What has no digit for a character is no number. -/
lemma hexNumber?_of_mem (digit : hexDigit? c = none) (member : c ∈ cs) : hexNumber? cs = none := by
  have lost (cs : List Char) : cs.foldl (fun value c => do
      return 16 * (← value) + (← hexDigit? c)) (none : Option Nat) = none := by
    induction cs with
    | nil => rfl
    | cons _ _ ih => exact ih
  rw [hexNumber?]
  generalize some 0 = start
  induction cs generalizing start with
  | nil => cases member
  | cons d cs ih =>
    rcases List.mem_cons.mp member with rfl | member
    · rw [List.foldl_cons, digit]
      cases start <;> exact lost cs
    · exact ih member _

/-- **A code point is the same in the longer text**, for its digits do not reach over a line break. -/
lemma codePoint?_append (on : GoesOn tail) (digits : Nat) :
    codePoint? digits (cs ++ tail) = codePoint? digits cs := by
  obtain rfl | ⟨rest, rfl⟩ := on
  · rw [List.append_nil]
  by_cases enough : digits ≤ cs.length
  · rw [codePoint?, codePoint?, List.take_append_of_le_length enough]
  · have few : (cs.take digits).length < digits := by
      rw [List.length_take]
      omega
    have member : '\n' ∈ (cs ++ '\n' :: rest).take digits := by
      rw [List.mem_iff_getElem?]
      refine ⟨cs.length, ?_⟩
      rw [List.getElem?_take_of_lt (by omega)]
      simp
    rw [codePoint?, codePoint?, if_pos few, hexNumber?_of_mem (by decide) member]
    exact ite_self none

/-- **An escape is the same in the longer text.** -/
lemma read_append (on : GoesOn tail) (policy : EscapePolicy) (offset ahead : Nat) (letter : Char) :
    Escape.read policy (offset + ahead) letter (cs ++ tail) =
      { Escape.read policy offset letter cs with
        reports := (Escape.read policy offset letter cs).reports.map (·.shift ahead) } := by
  have unicode (digits : Nat) : Escape.unicode policy (offset + ahead) letter digits (cs ++ tail) =
      { Escape.unicode policy offset letter digits cs with
        reports := (Escape.unicode policy offset letter digits cs).reports.map (·.shift ahead) } := by
    have shown : ((cs ++ tail).take digits).takeWhile (fun c => (hexDigit? c).isSome)
        = (cs.take digits).takeWhile fun c => (hexDigit? c).isSome := by
      rw [List.take_append]
      refine GoesOn.takeWhile_eq ?_ (by decide)
      obtain rfl | ⟨rest, rfl⟩ := on
      · exact .inl (by simp)
      · cases digits - cs.length with
        | zero => exact .inl rfl
        | succ n => exact .inr ⟨_, List.take_succ_cons⟩
    rw [Escape.unicode, Escape.unicode, codePoint?_append on, shown]
    split
    · rfl
    · simp only [List.map_map]
      rfl
  rw [Escape.read, Escape.read]
  split_ifs
  · rfl
  · rfl
  · rfl
  · exact unicode 4
  · exact unicode 6
  · rfl

/-- An escape takes no more than there is. -/
lemma width_read_le (policy : EscapePolicy) (offset : Nat) (letter : Char) (cs : List Char) :
    (Escape.read policy offset letter cs).width ≤ 2 + cs.length := by
  have unicode (digits : Nat) :
      (Escape.unicode policy offset letter digits cs).width ≤ 2 + cs.length := by
    rw [Escape.unicode]
    split
    · rename_i found
      have enough : ¬ (cs.take digits).length < digits := by
        intro few
        rw [codePoint?, if_pos few] at found
        cases found
      rw [List.length_take] at enough
      show 2 + digits ≤ 2 + cs.length
      omega
    · exact Nat.le_add_right _ _
  rw [Escape.read]
  split_ifs
  · exact Nat.le_add_right _ _
  · exact Nat.le_add_right _ _
  · exact Nat.le_add_right _ _
  · exact unicode 4
  · exact unicode 6
  · exact Nat.le_add_right _ _

/-! ## Quoted texts -/

/-- One step of reading a quoted text. -/
lemma quotedFrom_cons (hp : p.rest = c :: cs) (quote : Char) : quotedFrom policy quote p =
    if c = quote then ⟨[], p.next, true, []⟩
    else if c = '\\' then
      match cs with
      | [] => quotedFrom policy quote p.next
      | letter :: following =>
        if letter = '\n' then quotedFrom policy quote (p.skip 2)
        else
          let escape := Escape.read policy p.offset letter following
          let scan := quotedFrom policy quote (p.skip escape.width)
          { scan with text := escape.text ++ scan.text, reports := escape.reports ++ scan.reports }
    else if c = '\r' ∧ cs.head? = some '\n' then quotedFrom policy quote p.next
    else if c = '\n' then
      let scan := quotedFrom policy quote (skipFold p.next)
      { scan with text := '\n' :: scan.text }
    else
      let scan := quotedFrom policy quote p.next
      { scan with text := c :: scan.text } := by
  rw [quotedFrom]
  split
  · simp_all
  · rename_i d rest hrest
    rw [hp] at hrest
    obtain ⟨rfl, rfl⟩ := List.cons.inj hrest
    rfl

/-- **The same quoted text in the longer one**, some characters further on. -/
structure QuotedScan.Onto (ahead : Nat) (tail : List Char) (scan scan' : QuotedScan) : Prop where
  text : scan'.text = scan.text
  after : scan.after.Carried ahead tail scan'.after
  closed : scan'.closed = scan.closed
  reports : scan'.reports = scan.reports.map (·.shift ahead)

lemma skipFold_onto (on : GoesOn tail) (carried : p.Carried ahead tail p') :
    (skipFold p).Carried ahead tail (skipFold p') := by
  have indent : (p.rest ++ tail).takeWhile (fun c => c = ' ' || c = '\t')
      = p.rest.takeWhile fun c => c = ' ' || c = '\t' := on.takeWhile_eq (by decide)
  have within := (List.takeWhile_prefix (l := p.rest) fun c => c = ' ' || c = '\t').length_le
  rw [skipFold, skipFold, carried.rest, indent, List.drop_append_of_le_length within]
  simp only [on.head?_eq (by decide : '|' ≠ '\n')]
  split
  · rename_i bar
    refine carried.skip ?_
    have more : (p.rest.drop (p.rest.takeWhile fun c => c = ' ' || c = '\t').length).length ≠ 0 := by
      intro empty
      rw [List.length_eq_zero_iff.mp empty] at bar
      cases bar
    rw [List.length_drop] at more
    omega
  · exact carried

lemma quotedFrom_nil (policy : EscapePolicy) (quote : Char) (hp : p.rest = []) :
    quotedFrom policy quote p = ⟨[], p, false, []⟩ := by
  rw [quotedFrom]
  split
  · rfl
  · simp_all

/-- **A quoted text is the same in the longer one**, if it is closed or nothing follows. -/
lemma quotedFrom_onto (on : GoesOn tail) (policy : EscapePolicy) (quote : Char)
    (carried : p.Carried ahead tail p')
    (ends : tail = [] ∨ (quotedFrom policy quote p).closed = true) :
    (quotedFrom policy quote p).Onto ahead tail (quotedFrom policy quote p') := by
  have cons {c : Char} {rest : List Char} {p p' : Place} (hp : p.rest = c :: rest)
      (carried : p.Carried ahead tail p') : p'.rest = c :: (rest ++ tail) := by
    rw [carried.rest, hp, List.cons_append]
  -- A text that ends where the source does is not closed.
  have unended {p : Place} (hp : p.rest = [])
      (ends : tail = [] ∨ (quotedFrom policy quote p).closed = true) : tail = [] := by
    refine ends.resolve_right ?_
    rw [quotedFrom_nil policy quote hp]
    exact Bool.false_ne_true
  fun_induction quotedFrom policy quote p generalizing p' with
  | case1 p hrest =>
    obtain rfl := ends.resolve_right Bool.false_ne_true
    rw [quotedFrom_nil policy quote (by rw [carried.rest, hrest, List.append_nil])]
    exact ⟨rfl, carried, rfl, rfl⟩
  | case2 p rest hrest =>
    rw [quotedFrom_cons (cons hrest carried), if_pos rfl]
    exact ⟨rfl, carried.next (by simp [hrest]), rfl, rfl⟩
  | case3 p open_ hrest _ ih =>
    obtain rfl := unended (Place.rest_next_of_cons hrest) ends
    rw [quotedFrom_cons (cons hrest carried), if_neg open_, if_pos rfl]
    exact ih (carried.next (by simp [hrest])) ends
  | case4 p following open_ hrest _ ih =>
    rw [quotedFrom_cons (cons hrest carried), if_neg open_, if_pos rfl]
    dsimp only [List.cons_append]
    rw [if_pos rfl]
    exact ih (carried.skip (by simp [hrest])) ends
  | case5 =>
    rename_i p letter following solid escape _ scan open_ hrest _ ih
    have enough : escape.width ≤ p.rest.length := by
      have le : escape.width ≤ 2 + following.length := width_read_le _ _ _ _
      rw [hrest, List.length_cons, List.length_cons]
      omega
    have inner := ih (carried.skip enough) ends
    rw [quotedFrom_cons (cons hrest carried), if_neg open_, if_pos rfl]
    dsimp only [List.cons_append]
    rw [if_neg solid, carried.offset, read_append on]
    exact ⟨congrArg (escape.text ++ ·) inner.text, inner.after, inner.closed, by
      rw [List.map_append, inner.reports]⟩
  | case6 p c rest hrest open_ escape return_ ih =>
    have head : (rest ++ tail).head? = some '\n' := by
      cases rest with
      | nil => simp at return_
      | cons => exact return_.2
    rw [quotedFrom_cons (cons hrest carried), if_neg open_, if_neg escape,
      if_pos ⟨return_.1, head⟩]
    exact ih (carried.next (by simp [hrest])) ends
  | case7 =>
    rename_i p rest _ scan hrest open_ escape return_ ih
    have inner := ih (skipFold_onto on (carried.next (by simp [hrest]))) ends
    rw [quotedFrom_cons (cons hrest carried), if_neg open_, if_neg escape,
      if_neg fun h => absurd h.1 (by decide), if_pos rfl]
    exact ⟨congrArg ('\n' :: ·) inner.text, inner.after, inner.closed, inner.reports⟩
  | case8 =>
    rename_i p c rest hrest open_ escape return_ newline scan ih
    have inner := ih (carried.next (by simp [hrest])) ends
    have return_ : ¬ (c = '\r' ∧ (rest ++ tail).head? = some '\n') := by
      rintro ⟨rfl, head⟩
      cases rest with
      | nil =>
        obtain rfl := unended (Place.rest_next_of_cons hrest) ends
        cases head
      | cons => exact return_ ⟨rfl, head⟩
    rw [quotedFrom_cons (cons hrest carried), if_neg open_, if_neg escape, if_neg return_,
      if_neg newline]
    exact ⟨congrArg (c :: ·) inner.text, inner.after, inner.closed, inner.reports⟩

/-! ## Operators -/

/-- Whether a name stands in front does not depend on what follows the text. -/
lemma isPrefixOf_onto (on : GoesOn tail) (unbroken : Unbroken tail operators) {keyword : Bool}
    {name : String} (member : name ∈ operators.symbols keyword c) :
    name.toList.isPrefixOf (cs ++ tail) = name.toList.isPrefixOf cs := by
  obtain rfl | ⟨rest, rfl⟩ := on
  · rw [List.append_nil]
  · obtain ⟨op, inside, rfl⟩ := mem_definitions_of_mem_symbols member
    rw [Bool.eq_iff_iff, List.isPrefixOf_iff_prefix, List.isPrefixOf_iff_prefix,
      prefix_append_iff (unbroken (by simp) op inside)]

/-- A character of a kind that a line break is not of. -/
lemma GoesOn.any_head?_eq (on : GoesOn tail) {test : Char → Bool} (ends : test '\n' = false) :
    (cs ++ tail).head?.any test = cs.head?.any test := by
  cases cs with
  | cons => rfl
  | nil =>
    obtain rfl | ⟨rest, rfl⟩ := on
    · rfl
    · simp [ends]

lemma symbolAt?_onto (on : GoesOn tail) (unbroken : Unbroken tail operators)
    (carried : p.Carried ahead tail p') (hp : p.rest = c :: cs) :
    symbolAt? operators p' = symbolAt? operators p := by
  have hp' : p'.rest = c :: (cs ++ tail) := by rw [carried.rest, hp, List.cons_append]
  have between : betweenDigits p' = betweenDigits p := by
    simp only [betweenDigits, carried.digit, hp, hp', List.tail_cons,
      on.any_head?_eq (by decide : Char.isDigit '\n' = false)]
  rw [symbolAt?, symbolAt?, hp, hp', List.head?_cons, List.head?_cons, Option.bind_some,
    Option.bind_some, between]
  exact List.find?_congr fun name member => by
    rw [← List.cons_append, isPrefixOf_onto on unbroken member]

lemma wordAt?_onto (on : GoesOn tail) (unbroken : Unbroken tail operators)
    (carried : p.Carried ahead tail p') (hp : p.rest = c :: cs) :
    wordAt? operators p' = wordAt? operators p := by
  rw [wordAt?, wordAt?, head?_carried carried (by simp [hp])]
  refine congrArg (Option.bind _) (funext fun c => List.find?_congr fun name member => ?_)
  rw [carried.rest, isPrefixOf_onto on unbroken member]
  cases hprefix : name.toList.isPrefixOf p.rest with
  | false => rfl
  | true =>
    have enough : name.length ≤ p.rest.length := by
      rw [← String.length_toList]
      exact (List.isPrefixOf_iff_prefix.mp hprefix).length_le
    rw [List.drop_append_of_le_length enough, on.any_head?_eq (by decide)]

/-! ## Literals -/

/-- What was read of a literal, alone and in the longer text. -/
structure LiteralScan.Onto (ahead : Nat) (tail : List Char) (scan scan' : LiteralScan) : Prop where
  content : Option.Rel (fun found found' => found'.1 = found.1 ∧
    found.2.Carried ahead tail found'.2) scan.content scan'.content
  reports : scan'.reports = scan.reports.map (·.shift ahead)

namespace LiteralScan.Onto

variable {scan scan' : LiteralScan}

lemma none (ahead : Nat) (tail : List Char) : LiteralScan.Onto ahead tail ⟨.none, []⟩ ⟨.none, []⟩ :=
  ⟨.none, rfl⟩

lemma keep (onto : scan.Onto ahead tail scan') (text : List Char)
    (carried : p.Carried ahead tail p') :
    (scan.keep text p).Onto ahead tail (scan'.keep text p') := by
  refine ⟨?_, onto.reports⟩
  have content := onto.content
  rw [LiteralScan.keep, LiteralScan.keep]
  dsimp only
  generalize scan.content = x, scan'.content = y at content
  cases content with
  | none => exact .some ⟨rfl, carried⟩
  | some found => exact .some ⟨congrArg (text ++ ·) found.1, found.2⟩

lemma keepBlank (onto : scan.Onto ahead tail scan') (c : Char) :
    (scan.keepBlank c).Onto ahead tail (scan'.keepBlank c) := by
  refine ⟨?_, onto.reports⟩
  have content := onto.content
  rw [LiteralScan.keepBlank, LiteralScan.keepBlank]
  dsimp only
  generalize scan.content = x, scan'.content = y at content
  cases content with
  | none => exact .none
  | some found => exact .some ⟨congrArg (c :: ·) found.1, found.2⟩

end LiteralScan.Onto

/-- One step of reading a literal at a backslash. -/
lemma literalFrom_escape {letter : Char} (hp : p.rest = '\\' :: letter :: cs) :
    literalFrom operators policy mode first p =
      if letter = '\n' then literalFrom operators policy mode false (p.skip 2)
      else
        let escape := Escape.read policy p.offset letter cs
        let after := p.skip escape.width
        let scan := (literalFrom operators policy mode false after).keep escape.text after
        { scan with reports := escape.reports ++ scan.reports } := by
  rw [literalFrom]
  split
  · simp_all
  · rename_i d rest hrest
    rw [hp] at hrest
    obtain ⟨rfl, rfl⟩ := List.cons.inj hrest
    rfl

/-- A backslash at the end of a literal is part of it. -/
lemma literalFrom_backslash (hp : p.rest = ['\\']) :
    literalFrom operators policy mode first p = (LiteralScan.mk none []).keep ['\\'] p.next := by
  rw [literalFrom]
  split
  · simp_all
  · rename_i d rest hrest
    rw [hp] at hrest
    obtain ⟨rfl, rfl⟩ := List.cons.inj hrest
    rfl

/-- Where a literal ends with the text it ends in the longer one. -/
lemma literalFrom_end (on : GoesOn tail) (hp : p.rest = tail) :
    literalFrom operators policy mode first p = ⟨none, []⟩ := by
  obtain rfl | ⟨rest, rfl⟩ := on
  · rw [literalFrom]
    split
    · rfl
    · simp_all
  · rw [literalFrom_cons hp (by decide), if_pos (by simp [delimiter?])]

/-- **A literal is the same in the longer text.** -/
lemma literalFrom_onto (on : GoesOn tail) (unescaped : Unescaped tail p.rest)
    (unbroken : mode = .operation → Unbroken tail operators)
    (carried : p.Carried ahead tail p') :
    (literalFrom operators policy mode first p).Onto ahead tail
      (literalFrom operators policy mode first p') := by
  generalize hlength : p.rest.length = length
  induction length using Nat.strong_induction_on generalizing p p' first with
  | _ length ih =>
  subst hlength
  have later {q q' : Place} (suffix : q.rest <:+ p.rest) (shorter : q.rest.length < p.rest.length)
      (carried : q.Carried ahead tail q') :
      (literalFrom operators policy mode false q).Onto ahead tail
        (literalFrom operators policy mode false q') :=
    ih _ shorter (unescaped.of_suffix suffix) carried rfl
  match hp : p.rest with
  | [] =>
    have here : literalFrom operators policy mode first p = ⟨none, []⟩ :=
      literalFrom_end (.inl rfl) hp
    have there : literalFrom operators policy mode first p' = ⟨none, []⟩ :=
      literalFrom_end on (by rw [carried.rest, hp, List.nil_append])
    rw [here, there]
    exact .none ahead tail
  | c :: cs =>
    by_cases escape : c = '\\'
    · subst escape
      cases cs with
      | nil =>
        obtain rfl : tail = [] := Classical.byContradiction fun more =>
          (hp ▸ unescaped).ne_nil more rfl
        rw [literalFrom_backslash hp,
          literalFrom_backslash (by rw [carried.rest, hp, List.append_nil])]
        exact (LiteralScan.Onto.none ahead []).keep _ (carried.next (by simp [hp]))
      | cons letter following =>
        have hp' : p'.rest = '\\' :: letter :: (following ++ tail) := by
          rw [carried.rest, hp]
          rfl
        have shorter {count : Nat} (wide : 2 ≤ count) :
            (p.skip count).rest.length < p.rest.length := by
          rw [Place.rest_skip, List.length_drop, hp, List.length_cons, List.length_cons]
          omega
        rw [literalFrom_escape hp, literalFrom_escape hp']
        split
        · exact later (rest_skip_suffix p 2) (shorter (Nat.le_refl 2)) (carried.skip (by simp [hp]))
        · have le := width_read_le policy p.offset letter following
          have wide := Escape.two_le_width policy p.offset letter following
          have moved : (p.skip (Escape.read policy p.offset letter following).width).Carried ahead
              tail (p'.skip (Escape.read policy p.offset letter following).width) := carried.skip
            (by rw [hp, List.length_cons, List.length_cons]; omega)
          have inner := (later (rest_skip_suffix p _) (shorter wide) moved).keep
            (Escape.read policy p.offset letter following).text moved
          rw [carried.offset, read_append on]
          exact ⟨inner.content, by rw [List.map_append, ← inner.reports]⟩
    · have hp' : p'.rest = c :: (cs ++ tail) := by rw [carried.rest, hp, List.cons_append]
      have next := carried.next (by simp [hp])
      have scan : (literalFrom operators policy mode false p.next).Onto ahead tail
          (literalFrom operators policy mode false p'.next) :=
        later (rest_next_suffix p) (by simp [hp]) next
      rw [literalFrom_cons hp escape, literalFrom_cons hp' escape]
      simp only [on.head?_eq (by decide : '/' ≠ '\n'), on.head?_eq (by decide : '*' ≠ '\n')]
      split
      · exact .none ahead tail
      split
      · split
        · exact .none ahead tail
        · exact scan.keepBlank c
      split
      · exact .none ahead tail
      by_cases operation : mode = .operation
      · rw [symbolAt?_onto on (unbroken operation) carried hp]
        split
        · exact .none ahead tail
        · exact scan.keep [c] next
      · rw [if_neg fun h => operation h.1, if_neg fun h => operation h.1]
        exact scan.keep [c] next

/-! ## Tokens -/

/-- **What is read at a place of a text**, alone and in the longer one. -/
inductive Lexeme.Onto (ahead : Nat) (tail : List Char) (skipBreaks : Bool) :
    Lexeme → Lexeme → Prop where
  | same {lexeme lexeme' : Lexeme} (token : lexeme'.token = lexeme.token.shift ahead)
    (after : lexeme.after.Carried ahead tail lexeme'.after)
    (reports : lexeme'.reports = lexeme.reports.map (·.shift ahead)) :
    Onto ahead tail skipBreaks lexeme lexeme'
  /-- Something is wrong with it where the text is alone. -/
  | faulty {lexeme lexeme' : Lexeme} (more : tail ≠ []) (faulty : lexeme.reports ≠ []) :
    Onto ahead tail skipBreaks lexeme lexeme'
  /-- The text ends, and the longer one has a line break. -/
  | ended {lexeme lexeme' : Lexeme} (more : tail ≠ []) (ends : lexeme.token.kind = .endOfInput)
    (breaks : skipBreaks = false → lexeme'.token.kind = .lineBreak ∧ lexeme'.reports = []) :
    Onto ahead tail skipBreaks lexeme lexeme'

lemma lexQuoted_onto (on : GoesOn tail) (skipBreaks : Bool) (policy : EscapePolicy) (quote : Char)
    (carried : p.Carried ahead tail p') (more : p.rest ≠ []) :
    (lexQuoted policy quote p).Onto ahead tail skipBreaks (lexQuoted policy quote p') := by
  by_cases ends : tail = [] ∨ (quotedFrom policy quote p.next).closed = true
  · have scan := quotedFrom_onto on policy quote (carried.next more) ends
    refine .same ?_ scan.after ?_
    · simp only [lexQuoted, Token.shift, scan.text, carried.offset, scan.after.offset]
    · simp only [lexQuoted, scan.closed, scan.reports, List.map_append, carried.offset]
      split <;> rfl
  · obtain ⟨goes, open_⟩ := not_or.mp ends
    refine .faulty goes fun silent => open_ ?_
    have none := (List.append_eq_nil_iff.mp silent).2
    by_contra not
    rw [if_neg not] at none
    cases none

lemma lexLiteral_onto (on : GoesOn tail) (skipBreaks : Bool) (unescaped : Unescaped tail p.rest)
    (unbroken : mode = .operation → Unbroken tail operators)
    (carried : p.Carried ahead tail p') :
    (lexLiteral operators policy mode p).Onto ahead tail skipBreaks
      (lexLiteral operators policy mode p') := by
  have scan : LiteralScan.Onto ahead tail (literalFrom operators policy mode true p)
      (literalFrom operators policy mode true p') := literalFrom_onto on unescaped unbroken carried
  have content := scan.content
  simp only [lexLiteral]
  generalize (literalFrom operators policy mode true p).content = x,
    (literalFrom operators policy mode true p').content = y at content
  cases content with
  | none => exact .same (by simp [Token.shift, carried.offset]) carried scan.reports
  | @some found found' same =>
    obtain ⟨text, after⟩ := same
    refine .same ?_ after scan.reports
    simp [Token.shift, text, carried.offset, after.offset]

lemma lexOperator?_onto (on : GoesOn tail) (unbroken : Unbroken tail operators)
    (carried : p.Carried ahead tail p') (hp : p.rest = c :: cs) :
    Option.Rel (Lexeme.Onto ahead tail skipBreaks) (lexOperator? operators p)
      (lexOperator? operators p') := by
  have piece (kind : TokenKind) {name : String} (front : name.toList <+: p.rest) :
      Lexeme.Onto ahead tail skipBreaks
        ⟨⟨kind, name, p.offset, (p.skip name.length).offset⟩, p.skip name.length, []⟩
        ⟨⟨kind, name, p'.offset, (p'.skip name.length).offset⟩, p'.skip name.length, []⟩ := by
    have moved : (p.skip name.length).Carried ahead tail (p'.skip name.length) := carried.skip (by
      rw [← String.length_toList]
      exact front.length_le)
    exact .same (by simp only [Token.shift, carried.offset, moved.offset]) moved rfl
  have front {keyword : Bool} {d : Char} {name : String} {test : String → Bool}
      (h : ((operators.symbols keyword d).find? fun name =>
        name.toList.isPrefixOf p.rest && test name) = some name) : name.toList <+: p.rest := by
    have found := List.find?_some h
    simp only [Bool.and_eq_true] at found
    exact List.isPrefixOf_iff_prefix.mp found.1
  rw [lexOperator?, lexOperator?, wordAt?_onto on unbroken carried hp,
    symbolAt?_onto on unbroken carried hp]
  cases hword : wordAt? operators p with
  | some name =>
    obtain ⟨d, -, h⟩ := Option.bind_eq_some_iff.mp hword
    exact .some (piece .keyword (front h))
  | none =>
    cases hsymbol : symbolAt? operators p with
    | some name =>
      obtain ⟨d, -, h⟩ := Option.bind_eq_some_iff.mp hsymbol
      exact .some (piece .operator (front h))
    | none => exact .none

/-- A token that begins in the text is the same in the longer one. -/
lemma lexHere_onto (on : GoesOn tail) (skipBreaks : Bool) (unescaped : Unescaped tail p.rest)
    (unbroken : mode = .operation → Unbroken tail operators) (carried : p.Carried ahead tail p')
    (more : p.rest ≠ [] ∨ tail = []) :
    (lexHere operators policy mode p).Onto ahead tail skipBreaks
      (lexHere operators policy mode p') := by
  cases hp : p.rest with
  | nil =>
    obtain rfl := more.resolve_left fun h => h hp
    simp only [lexHere, hp, carried.rest, List.append_nil, List.head?_nil]
    exact .same (by simp only [Token.shift, carried.offset]) carried rfl
  | cons c cs =>
    have more : p.rest ≠ [] := by simp [hp]
    have literal : (lexLiteral operators policy mode p).Onto ahead tail skipBreaks _ :=
      lexLiteral_onto on skipBreaks unescaped unbroken carried
    simp only [lexHere, hp, carried.rest, List.cons_append, List.head?_cons]
    cases delimiter? mode c with
    | some kind =>
      have next := carried.next more
      exact .same (by simp only [Token.shift, carried.offset, next.offset]) next rfl
    | none =>
      dsimp only
      split
      · exact lexQuoted_onto on skipBreaks policy c carried more
      split
      · rename_i operation
        have operator : Option.Rel (Lexeme.Onto ahead tail skipBreaks) _ _ :=
          lexOperator?_onto on (unbroken operation) carried hp
        generalize lexOperator? operators p = x, lexOperator? operators p' = y at operator
        cases operator with
        | none => exact literal
        | some same => exact same
      · exact literal

/-- **The tokens of a text and of a longer one correspond.** -/
theorem lex_onto (on : GoesOn tail) (skipBreaks : Bool) (unescaped : Unescaped tail p.rest)
    (unbroken : mode = .operation → Unbroken tail operators) (carried : p.Carried ahead tail p') :
    (lex operators policy skipBreaks mode p).Onto ahead tail skipBreaks
      (lex operators policy skipBreaks mode p') := by
  have skips := skipTrivia_onto on skipBreaks unescaped carried
  cases reached : skipTrivia skipBreaks p with
  | openComment q =>
    have here : (lex operators policy skipBreaks mode p).reports ≠ [] := by simp [lex, reached]
    rw [reached] at skips
    by_cases nothing : tail = []
    · subst nothing
      obtain ⟨q', moved, there⟩ := skips rfl
      have moved' := moved.skip (Nat.le_refl q.rest.length)
      have length : q'.rest.length = q.rest.length := by rw [moved.rest, List.append_nil]
      simp only [lex, reached, there, length]
      refine .same ?_ moved' ?_
      · simp only [Token.shift, moved.offset, moved'.offset]
      · simp [moved.offset, Report.shift, Report.errorAt, Report.atOffset, Report.of]
    · exact .faulty nothing here
  | token q =>
    have within := skipTrivia_suffix reached
    rw [reached] at skips
    obtain ⟨q', moved, there, stands⟩ := skips
    have here : lex operators policy skipBreaks mode p = lexHere operators policy mode q := by
      rw [lex, reached]
    by_cases more : q.rest ≠ [] ∨ tail = []
    · have begun : lex operators policy skipBreaks mode p' = lexHere operators policy mode q' := by
        rw [lex, there, stands (more.imp id .inl)]
      rw [here, begun]
      exact lexHere_onto on skipBreaks (unescaped.of_suffix within) unbroken moved more
    · obtain ⟨empty, more⟩ := not_or.mp more
      have empty := not_not.mp empty
      refine .ended more (by rw [here, lexHere, empty]; rfl) ?_
      rintro rfl
      obtain ⟨rest, rfl⟩ := on.resolve_left more
      have hq' : q'.rest = '\n' :: rest := by rw [moved.rest, empty, List.nil_append]
      have begun : lex operators policy false mode p' = lexHere operators policy mode q' := by
        rw [lex, there, stands (.inr (.inr rfl))]
      rw [begun, lexHere, hq']
      exact ⟨rfl, rfl⟩

end TreeLang
