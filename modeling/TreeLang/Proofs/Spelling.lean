import Mathlib.Data.List.TakeWhile
import TreeLang.Node.Printer
import TreeLang.Proofs.Reading
import TreeLang.Proofs.Scanning

/-!
# The tokens of printed texts

A printed text is read back as one token that carries it, whichever way it was printed and wherever
it stands.  A quoted one ends at its quote; a bare one ends where the printer goes on with a bracket
or a separator, because nothing inside it ends a token.

* `lex_delimiter`, `lex_quoted`, `lex_bare`, `lex_blanks` — the four things that are printed.
* `Bare` — what a reader takes as one literal.
* **`read_printText`** — a printed text is one token.
* `headAt?_value` — a printed value is not the name of a group.
-/

namespace TreeLang

variable {operators : OperatorRegistry} {policy : EscapePolicy} {skipBreaks : Bool} {mode : Mode}
  {p : Place} {w tail : List Char}

/-! ## Stretches of a text -/

lemma Place.skip_add (p : Place) (m n : Nat) : p.skip (m + n) = (p.skip m).skip n := by
  induction m generalizing p with
  | zero => rw [Nat.zero_add, Place.skip]
  | succ m ih => rw [Nat.succ_add, Place.skip, ih, Place.skip]

/-- Skipping a stretch of the text leads to what is behind it. -/
lemma Place.rest_skip_of_append (hp : p.rest = w ++ tail) : (p.skip w.length).rest = tail := by
  rw [Place.rest_skip, hp, List.drop_left]

lemma Place.offset_skip_of_append (hp : p.rest = w ++ tail) :
    (p.skip w.length).offset = p.offset + w.length := by
  rw [Place.offset_skip, hp, List.length_append, Nat.min_eq_left (Nat.le_add_right _ _)]

lemma Place.rest_next_of_cons {c : Char} (hp : p.rest = c :: tail) : p.next.rest = tail := by
  rw [Place.rest_next, hp, List.tail_cons]

lemma Place.previous_next_of_cons {c : Char} (hp : p.rest = c :: tail) :
    p.next.previous = some c := by
  rw [Place.next]
  split <;> simp_all

lemma Place.offset_next_of_cons {c : Char} (hp : p.rest = c :: tail) :
    p.next.offset = p.offset + 1 := by
  rw [Place.next]
  split <;> simp_all

/-! ## Delimiters -/

/-- A delimiter begins neither a blank, nor an escape, nor a comment; the line break is a blank. -/
lemma of_delimiter? {c : Char} {kind : TokenKind} (h : delimiter? mode c = some kind) :
    (c = '\n' ∨ Text.isBlank c = false) ∧ c ≠ '\\' ∧ c ≠ '/' := by
  have sign := delimiter?_sign h
  cases kind <;> cases sign <;> decide

/-- **A delimiter is a token of its own.** -/
lemma lex_delimiter {c : Char} {kind : TokenKind} (hp : p.rest = c :: tail)
    (h : delimiter? mode c = some kind) (break? : c = '\n' → skipBreaks = false) :
    lex operators policy skipBreaks mode p
      = ⟨⟨kind, "", p.offset, p.offset + 1⟩, p.next, []⟩ := by
  obtain ⟨blank, escape, comment⟩ := of_delimiter? h
  have stands : Stands skipBreaks p.rest := by
    rw [hp]
    rcases blank with rfl | blank
    · exact .inl ⟨rfl, break? rfl⟩
    · exact .inr ⟨blank, fun h => escape h.1, fun h => comment h.1, fun h => comment h.1⟩
  rw [lex, skipTrivia_of_stands stands]
  simp only [lexHere, hp, List.head?_cons, h]
  rw [Place.offset_next_of_cons hp]

/-- At the end of a text there is a token for it. -/
lemma lex_end (hp : p.rest = []) :
    lex operators policy skipBreaks mode p = ⟨⟨.endOfInput, "", p.offset, p.offset⟩, p, []⟩ := by
  rw [lex, skipTrivia_of_stands (by rw [hp]; exact trivial)]
  simp only [lexHere, hp, List.head?_nil]

/-! ## Blanks -/

/-- **Blanks in front of a token do not matter.** -/
lemma lex_blanks {blanks : List Char} (hp : p.rest = blanks ++ tail)
    (blank : ∀ c ∈ blanks, Text.isBlank c = true ∧ c ≠ '\n') :
    lex operators policy skipBreaks mode p
      = lex operators policy skipBreaks mode (p.skip blanks.length) := by
  have skips : skipTrivia skipBreaks p = skipTrivia skipBreaks (p.skip blanks.length) := by
    induction blanks generalizing p with
    | nil => rfl
    | cons c blanks ih =>
      obtain ⟨hblank, newline⟩ := blank c List.mem_cons_self
      have first : skipTrivia skipBreaks p = skipTrivia skipBreaks p.next := by
        conv_lhs => rw [skipTrivia]
        split <;> simp_all
      rw [first]
      exact ih (Place.rest_next_of_cons hp) fun c hc => blank c (List.mem_cons_of_mem _ hc)
  rw [lex, lex, skips]

/-! ## Quoted texts -/

/-- An escaped character inside quotes is read as what it stands for. -/
lemma quotedFrom_escape (policy : EscapePolicy) {letter c : Char}
    (read : ∀ offset following, Escape.read policy offset letter following = ⟨[c], 2, []⟩)
    (newline : letter ≠ '\n') (hp : p.rest = '\\' :: letter :: tail) :
    quotedFrom policy '"' p =
      { quotedFrom policy '"' (p.skip 2) with
        text := c :: (quotedFrom policy '"' (p.skip 2)).text } := by
  conv_lhs => rw [quotedFrom]
  split
  · simp_all
  · rename_i head rest hrest
    rw [hrest] at hp
    obtain ⟨rfl, rfl⟩ := List.cons.inj hp
    simp [newline, read]

/-- Any other character inside quotes is read as itself. -/
lemma quotedFrom_plain (policy : EscapePolicy) {c : Char} (quote : c ≠ '"') (escape : c ≠ '\\')
    (newline : c ≠ '\n') (return? : c ≠ '\r') (hp : p.rest = c :: tail) :
    quotedFrom policy '"' p =
      { quotedFrom policy '"' p.next with text := c :: (quotedFrom policy '"' p.next).text } := by
  conv_lhs => rw [quotedFrom]
  split
  · simp_all
  · rename_i head rest hrest
    rw [hrest] at hp
    obtain ⟨rfl, rfl⟩ := List.cons.inj hp
    simp [quote, escape, newline, return?]

/-- What is printed for a character inside quotes is read as that character. -/
lemma quotedFrom_quoteChar (policy : EscapePolicy) (c : Char) (hp : p.rest = quoteChar c ++ tail) :
    quotedFrom policy '"' p =
      { quotedFrom policy '"' (p.skip (quoteChar c).length) with
        text := c :: (quotedFrom policy '"' (p.skip (quoteChar c).length)).text } := by
  unfold quoteChar at hp ⊢
  split at hp
  · exact quotedFrom_escape policy (fun _ _ => rfl) (by decide) hp
  · exact quotedFrom_escape policy (fun _ _ => rfl) (by decide) hp
  · exact quotedFrom_escape policy (fun _ _ => rfl) (by decide) hp
  · exact quotedFrom_escape policy (fun _ _ => rfl) (by decide) hp
  · exact quotedFrom_escape policy (fun _ _ => rfl) (by decide) hp
  · rename_i escape quote newline _ return?
    exact quotedFrom_plain policy quote escape newline return? hp

/-- The characters of a quoted text are read up to its quote. -/
lemma quotedFrom_quote (policy : EscapePolicy) (cs : List Char)
    (hp : p.rest = cs.flatMap quoteChar ++ '"' :: tail) :
    quotedFrom policy '"' p = ⟨cs, p.skip ((cs.flatMap quoteChar).length + 1), true, []⟩ := by
  induction cs generalizing p with
  | nil =>
    rw [quotedFrom]
    split <;> simp_all [Place.skip]
  | cons c cs ih =>
    rw [List.flatMap_cons, List.append_assoc] at hp
    have rest := ih (Place.rest_skip_of_append hp)
    have moved : (p.skip (quoteChar c).length).skip ((cs.flatMap quoteChar).length + 1)
        = p.skip (((c :: cs).flatMap quoteChar).length + 1) := by
      rw [← Place.skip_add, List.flatMap_cons, List.length_append, Nat.add_assoc]
    rw [quotedFrom_quoteChar policy c hp, rest, moved]

/-- **A quoted text is one token.** -/
lemma lex_quoted (text : String) (hp : p.rest = (quote text).toList ++ tail) :
    lex operators policy skipBreaks mode p
      = ⟨⟨.quoted, text, p.offset, p.offset + (quote text).length⟩,
          p.skip (quote text).length, []⟩ := by
  have length : (quote text).length = (text.toList.flatMap quoteChar).length + 1 + 1 := by
    rw [← String.length_toList]
    simp [quote]
  have offset := Place.offset_skip_of_append hp
  rw [String.length_toList] at offset
  have opens : p.rest = '"' :: (text.toList.flatMap quoteChar ++ '"' :: tail) := by
    simp [hp, quote]
  have content := quotedFrom_quote policy text.toList (Place.rest_next_of_cons opens)
  have moved : p.next.skip ((text.toList.flatMap quoteChar).length + 1)
      = p.skip (quote text).length := by
    conv_rhs => rw [length, Place.skip]
  have stands : Stands skipBreaks p.rest := by
    rw [opens]
    exact .inr ⟨by decide, by simp, by simp, by simp⟩
  have delimits : delimiter? mode '"' = none := by simp [delimiter?]
  rw [lex, skipTrivia_of_stands stands]
  simp only [lexHere, opens, List.head?_cons, delimits, true_or, if_true, lexQuoted, content, moved,
    offset, String.ofList_toList, List.append_nil]

/-! ## Literals -/

/-- What ends a literal: the end of the text, a delimiter, or a blank where blanks end literals. -/
def Stops (mode : Mode) : List Char → Prop
  | [] => True
  | c :: _ => (delimiter? mode c).isSome ∨ (Text.isBlank c ∧ mode.endsAtBlank)

/-- **What a reader takes as one literal**: nothing inside it ends the literal, and it does not end
with a blank. -/
structure Bare (operators : OperatorRegistry) (mode : Mode) (w : List Char) : Prop where
  chars : ∀ c ∈ w, c ≠ '\\' ∧ delimiter? mode c = none ∧
    (Text.isBlank c = true → mode.endsAtBlank = false) ∧
    (mode = .operation → ∀ keyword, operators.symbols keyword c = [])
  comment : opensComment w = false
  last : ∀ c ∈ w.getLast?, Text.isBlank c = false

lemma Bare.of_cons {c : Char} (bare : Bare operators mode (c :: w)) : Bare operators mode w := by
  obtain ⟨chars, comment, last⟩ := bare
  refine ⟨fun d hd => chars d (List.mem_cons_of_mem _ hd), ?_, fun d hd => last d ?_⟩
  · rw [opensComment, Bool.or_eq_false_iff] at comment
    exact comment.2
  · cases w with
    | nil => cases hd
    | cons => simpa using hd

/-- Behind a literal no comment is completed that began inside it. -/
lemma no_comment {c : Char} (comment : opensComment (c :: w) = false) (stops : Stops mode tail) :
    ¬ (c = '/' ∧ ((w ++ tail).head? = some '/' ∨ (w ++ tail).head? = some '*')) := by
  rintro ⟨rfl, opens⟩
  cases w with
  | nil =>
    cases tail with
    | nil => simp at opens
    | cons d tail =>
      have second : d = '/' ∨ d = '*' := by simpa using opens
      rcases stops with delimits | ⟨blank, -⟩
      · rcases second with rfl | rfl <;> simp [delimiter?] at delimits
      · rcases second with rfl | rfl <;> revert blank <;> decide
  | cons d w =>
    simp only [opensComment, List.head?_cons, Bool.or_eq_false_iff] at comment
    simp_all

/-- Where the characters are those of a literal, no operator is. -/
lemma symbolAt?_eq_none {c : Char} (hp : p.rest = c :: tail)
    (none : operators.symbols false c = []) : symbolAt? operators p = .none := by
  simp [symbolAt?, hp, none]

lemma wordAt?_eq_none {c : Char} (hp : p.rest = c :: tail)
    (none : operators.symbols true c = []) : wordAt? operators p = .none := by
  simp [wordAt?, hp, none]

/-- A literal is read up to what ends it. -/
lemma literalFrom_bare (policy : EscapePolicy) (first : Bool) (bare : Bare operators mode w)
    (stops : Stops mode tail) (hp : p.rest = w ++ tail) :
    literalFrom operators policy mode first p
      = ⟨if w = [] then none else some (w, p.skip w.length), []⟩ := by
  induction w generalizing p first with
  | nil =>
    rw [literalFrom]
    split
    · rfl
    · rename_i c rest hrest
      rw [List.nil_append, hrest] at hp
      subst hp
      have escape : c ≠ '\\' := by
        rcases stops with delimits | ⟨blank, -⟩
        · obtain ⟨kind, hkind⟩ := Option.isSome_iff_exists.mp delimits
          exact (of_delimiter? hkind).2.1
        · rintro rfl
          revert blank
          decide
      rw [if_neg escape, if_pos rfl]
      rcases stops with delimits | ⟨blank, ends⟩
      · rw [if_pos delimits]
      · rw [if_pos blank, if_pos ends, ite_self]
  | cons c w ih =>
    obtain ⟨escape, delimits, blank, symbols⟩ := bare.chars c List.mem_cons_self
    have comment := no_comment bare.comment stops
    have next := Place.rest_next_of_cons hp
    rw [literalFrom]
    split
    · simp_all
    · rename_i d rest hrest
      rw [List.cons_append, hrest] at hp
      obtain ⟨rfl, rfl⟩ := List.cons.inj hp
      have operator : ¬ (mode = .operation ∧ first = false ∧ (symbolAt? operators p).isSome) := by
        rintro ⟨operation, -, found⟩
        rw [symbolAt?_eq_none hrest (symbols operation false)] at found
        cases found
      rw [if_neg escape, delimits, if_neg (by simp), ih false bare.of_cons next]
      by_cases hblank : Text.isBlank d = true
      · have more : w ≠ [] := by
          rintro rfl
          have last := bare.last d (by simp)
          rw [hblank] at last
          cases last
        rw [if_pos hblank, if_neg (by simp [blank hblank]), if_neg more, if_neg (by simp)]
        rfl
      · rw [if_neg hblank, if_neg comment, if_neg operator]
        by_cases more : w = []
        · subst more
          rfl
        · simp only [more, if_false, LiteralScan.keep, reduceCtorEq]
          rfl

/-- What may be the first character of a literal. -/
def BeginsBare (w : List Char) : Prop :=
  ∃ c rest, w = c :: rest ∧ Text.isBlank c = false ∧ c ≠ '"' ∧ c ≠ '\''

/-- **A literal is one token.** -/
lemma lex_bare (bare : Bare operators mode w) (begins : BeginsBare w) (stops : Stops mode tail)
    (hp : p.rest = w ++ tail) :
    lex operators policy skipBreaks mode p
      = ⟨⟨.literal, String.ofList w, p.offset, p.offset + w.length⟩, p.skip w.length, []⟩ := by
  obtain ⟨c, rest, rfl, blank, double, single⟩ := begins
  obtain ⟨escape, delimits, -, symbols⟩ := bare.chars c List.mem_cons_self
  have comment := no_comment bare.comment stops
  have stands : Stands skipBreaks p.rest := by
    rw [hp]
    exact .inr ⟨blank, fun h => escape h.1, fun h => comment ⟨h.1, .inl h.2⟩,
      fun h => comment ⟨h.1, .inr h.2⟩⟩
  have operator : (if mode = .operation then lexOperator? operators p else none) = none := by
    split_ifs with operation
    · simp [lexOperator?, wordAt?_eq_none hp (symbols operation true),
        symbolAt?_eq_none hp (symbols operation false)]
    · rfl
  have content := literalFrom_bare policy true bare stops hp
  have offset := Place.offset_skip_of_append hp
  rw [if_neg (by simp)] at content
  rw [lex, skipTrivia_of_stands stands]
  simp only [lexHere, operator, lexLiteral, content, Option.getD_some, Option.getD_none, offset]
  rw [hp, List.cons_append, List.head?_cons]
  simp only [delimits, double, single, or_self, if_false]

/-! ## What is printed bare -/

/-- No operator begins with a character of an operand that is printed bare. -/
def OperatorRegistry.Symbolic (operators : OperatorRegistry) : Prop :=
  ∀ op ∈ operators.definitions, ∀ c ∈ op.name.toList.head?, (c.isAlphanum || c = '_') = false

lemma OperatorRegistry.symbolic_defaults : OperatorRegistry.defaults.Symbolic := by
  have checked : OperatorRegistry.defaults.definitions.all (fun op =>
      op.name.toList.head?.all fun c => !(c.isAlphanum || c = '_')) = true := by decide
  intro op member c first
  have free := List.all_eq_true.mp checked op member
  rw [Option.mem_def.mp first] at free
  simpa using free

lemma OperatorRegistry.symbolic_empty : OperatorRegistry.empty.Symbolic :=
  fun _ member => by cases member

lemma OperatorRegistry.Symbolic.symbols_eq_nil (symbolic : operators.Symbolic) {c : Char}
    (ordinary : (c.isAlphanum || c = '_') = true) (keyword : Bool) :
    operators.symbols keyword c = [] := by
  have nothing : operators.definitions.filter
      (fun op => op.keyword = keyword && op.name.toList.head? = some c) = [] := by
    rw [List.filter_eq_nil_iff]
    intro op member h
    simp only [Bool.and_eq_true, decide_eq_true_eq] at h
    have other := symbolic op member c h.2
    rw [ordinary] at other
    cases other
  simp [symbols, nothing]

/-- The characters of a bare operand. -/
lemma of_ordinary {c : Char} (ordinary : (c.isAlphanum || c = '_') = true) :
    Text.isBlank c = false ∧ isSpecial c = false ∧ c ≠ ':' := by
  have bounds : (48 ≤ c.toNat ∧ c.toNat ≤ 57) ∨ (65 ≤ c.toNat ∧ c.toNat ≤ 90) ∨
      (97 ≤ c.toNat ∧ c.toNat ≤ 122) ∨ c.toNat = 95 := by
    have ordinary : (((decide (65 ≤ c.val ∧ c.val ≤ 90)
        || decide (97 ≤ c.val) && decide (c.val ≤ 122))
        || decide (48 ≤ c.val) && decide (c.val ≤ 57)) || c = '_') = true := ordinary
    simp only [Bool.or_eq_true, Bool.and_eq_true, decide_eq_true_eq, UInt32.le_iff_toNat_le]
      at ordinary
    rcases ordinary with ((⟨h, h'⟩ | ⟨h, h'⟩) | ⟨h, h'⟩) | rfl
    · exact .inr (.inl ⟨h, h'⟩)
    · exact .inr (.inr (.inl ⟨h, h'⟩))
    · exact .inl ⟨h, h'⟩
    · decide
  have other : ∀ d : Char, ¬ ((48 ≤ d.toNat ∧ d.toNat ≤ 57) ∨ (65 ≤ d.toNat ∧ d.toNat ≤ 90) ∨
      (97 ≤ d.toNat ∧ d.toNat ≤ 122) ∨ d.toNat = 95) → c ≠ d := by
    rintro d outside rfl
    exact outside bounds
  refine ⟨?_, ?_, other _ (by decide)⟩
  · simp only [Text.isBlank, Bool.or_eq_false_iff, Bool.and_eq_false_iff, decide_eq_false_iff_not,
      beq_eq_false_iff_ne]
    omega
  · by_contra special
    simp only [isSpecial, Bool.not_eq_false, Bool.or_eq_true, decide_eq_true_eq] at special
    rcases special with ((((((((rfl | rfl) | rfl) | rfl) | rfl) | rfl) | rfl) | rfl) | rfl) | rfl
    all_goals exact absurd ordinary (by decide)

/-- A character that is not special neither escapes nor quotes. -/
lemma of_not_special {c : Char} (special : isSpecial c = false) :
    c ≠ '\\' ∧ c ≠ '"' ∧ c ≠ '\'' := by
  simp only [isSpecial, Bool.or_eq_false_iff, decide_eq_false_iff_not] at special
  exact ⟨special.2, special.1.2, special.1.1.2⟩

/-- What no reader takes as a delimiter. -/
lemma delimiter?_eq_none {c : Char} (special : isSpecial c = false) (newline : c ≠ '\n')
    (colon : c = ':' → mode.colonDelimits = false) (equals : mode ≠ .parameter) :
    delimiter? mode c = none := by
  simp only [isSpecial, Bool.or_eq_false_iff, decide_eq_false_iff_not] at special
  simp only [delimiter?]
  have inner : ¬ (c = ':' ∧ mode.colonDelimits = true) := by
    rintro ⟨h, delimits⟩
    rw [colon h] at delimits
    cases delimits
  simp [special, newline, inner, equals]

lemma of_trim_eq {cs : List Char} (trimmed : Text.trim cs = cs) :
    (∀ c ∈ cs.head?, Text.isBlank c = false) ∧ ∀ c ∈ cs.getLast?, Text.isBlank c = false := by
  have front : cs.dropWhile Text.isBlank = cs := by
    refine (List.dropWhile_suffix _).eq_of_length_le ?_
    have shorter : (Text.trim cs).length ≤ (cs.dropWhile Text.isBlank).length := by
      rw [Text.trim, Text.trimEnd, List.length_reverse]
      exact Nat.le_trans (List.dropWhile_suffix _).length_le (Nat.le_of_eq List.length_reverse)
    rwa [trimmed] at shorter
  have back : cs.reverse.dropWhile Text.isBlank = cs.reverse := by
    rw [Text.trim, front, Text.trimEnd] at trimmed
    rw [← List.reverse_reverse (cs.reverse.dropWhile _), trimmed]
  have first : ∀ ds : List Char, ds.dropWhile Text.isBlank = ds →
      ∀ c ∈ ds.head?, Text.isBlank c = false := by
    intro ds same c head
    cases ds with
    | nil => cases head
    | cons d ds =>
      obtain rfl := Option.some.inj head
      by_contra blank
      rw [Bool.not_eq_false] at blank
      rw [List.dropWhile_cons_of_pos blank] at same
      have shorter := (List.dropWhile_suffix (l := ds) Text.isBlank).length_le
      rw [same, List.length_cons] at shorter
      exact Nat.not_succ_le_self _ shorter
  refine ⟨first cs front, fun c last => first cs.reverse back c ?_⟩
  rwa [List.head?_reverse]

/-- The mode in which a text is read that was printed at a position. -/
def Position.readMode : Position → Mode
  | .value => .value
  | .operand => .operation
  | .name => .word
  | .key => .key

/-- **What is printed bare is read as one literal.** -/
theorem bare_of_isBare (symbolic : operators.Symbolic) {text : String} {position : Position}
    (h : isBare text position = true) :
    Bare operators position.readMode text.toList ∧ BeginsBare text.toList := by
  simp only [isBare] at h
  split_ifs at h with excluded keyword
  rw [Bool.or_eq_true, not_or, Bool.not_eq_true, Bool.not_eq_true] at excluded
  obtain ⟨nonempty, comment⟩ := excluded
  have first : ∀ {P : Char → Prop}, (∀ c ∈ text.toList, P c) → (∀ c ∈ text.toList.head?,
      Text.isBlank c = false) → (∀ c, P c → c ≠ '"' ∧ c ≠ '\'') → BeginsBare text.toList := by
    intro P all unblank quote
    obtain ⟨c, rest, hcs⟩ := List.exists_cons_of_ne_nil (l := text.toList) (by simpa using nonempty)
    rw [hcs] at all unblank ⊢
    exact ⟨c, rest, rfl, unblank c rfl, quote c (all c List.mem_cons_self)⟩
  cases position with
  | operand =>
    have ordinary := List.all_eq_true.mp h
    refine ⟨⟨fun c hc => ?_, comment, fun c hc => ?_⟩, first ordinary (fun c hc => ?_) fun c hc => ?_⟩
    · obtain ⟨blank, special, colon⟩ := of_ordinary (ordinary c hc)
      exact ⟨(of_not_special special).1, delimiter?_eq_none special
        (fun newline => by simp [newline, isBlank_newline] at blank) (fun h => absurd h colon)
        (by decide), by simp [blank],
        fun _ keyword => symbolic.symbols_eq_nil (ordinary c hc) keyword⟩
    · exact (of_ordinary (ordinary c (List.mem_of_getLast? hc))).1
    · exact (of_ordinary (ordinary c (List.mem_of_head? hc))).1
    · exact (of_not_special (of_ordinary hc).2.1).2
  | name =>
    have plain : ∀ c ∈ text.toList, Text.isBlank c = false ∧ isSpecial c = false ∧ c ≠ ':' := by
      intro c hc
      simpa [and_assoc] using List.all_eq_true.mp h c hc
    refine ⟨⟨fun c hc => ?_, comment, fun c hc => ?_⟩, first plain (fun c hc => ?_) fun c hc => ?_⟩
    · obtain ⟨blank, special, colon⟩ := plain c hc
      exact ⟨(of_not_special special).1, delimiter?_eq_none special
        (fun newline => by simp [newline, isBlank_newline] at blank) (fun h => absurd h colon)
        (by decide), by simp [blank], fun h => by cases h⟩
    · exact (plain c (List.mem_of_getLast? hc)).1
    · exact (plain c (List.mem_of_head? hc)).1
    · exact (of_not_special hc.2.1).2
  | value =>
    obtain ⟨trimmed, h⟩ : Text.trim text.toList = text.toList ∧ _ := by simpa using h
    obtain ⟨unblank, last⟩ := of_trim_eq trimmed
    have plain : ∀ c ∈ text.toList, isSpecial c = false ∧ c ≠ '\n' ∧ c ≠ '\r' := by
      simpa [and_assoc] using h
    refine ⟨⟨fun c hc => ?_, comment, last⟩, first plain unblank fun c hc => (of_not_special hc.1).2⟩
    obtain ⟨special, newline, -⟩ := plain c hc
    exact ⟨(of_not_special special).1, delimiter?_eq_none special newline (fun _ => rfl) (by decide),
      fun _ => rfl, fun h => by cases h⟩
  | key =>
    obtain ⟨trimmed, h⟩ : Text.trim text.toList = text.toList ∧ _ := by simpa using h
    obtain ⟨unblank, last⟩ := of_trim_eq trimmed
    have plain : ∀ c ∈ text.toList, isSpecial c = false ∧ c ≠ '\n' ∧ c ≠ '\r' ∧ c ≠ ':' := by
      simpa [and_assoc] using h
    refine ⟨⟨fun c hc => ?_, comment, last⟩, first plain unblank fun c hc => (of_not_special hc.1).2⟩
    obtain ⟨special, newline, -, colon⟩ := plain c hc
    exact ⟨(of_not_special special).1, delimiter?_eq_none special newline (fun h => absurd h colon)
      (by decide), fun _ => rfl, fun h => by cases h⟩

/-! ## Printed texts in their places -/

/-- What stands behind an element: the end of the text, a separator or a closer. -/
def EndsElement : List Char → Prop
  | [] => True
  | c :: _ => c = ',' ∨ c = ']' ∨ c = '}' ∨ c = ')'

lemma stops_of_endsElement (ends : EndsElement tail) (bracket : mode ≠ .key) : Stops mode tail := by
  cases tail with
  | nil => trivial
  | cons c tail =>
    left
    rcases ends with rfl | rfl | rfl | rfl <;> simp [delimiter?, bracket]

/-- The characters of a bare value. -/
structure Worded (cs : List Char) : Prop where
  chars : ∀ c ∈ cs, isSpecial c = false ∧ c ≠ '\n'
  comment : opensComment cs = false
  last : ∀ c ∈ cs.getLast?, Text.isBlank c = false

lemma opensComment_append {cs ds : List Char} (h : opensComment (cs ++ ds) = false) :
    opensComment cs = false ∧ opensComment ds = false := by
  induction cs with
  | nil => exact ⟨rfl, h⟩
  | cons c cs ih =>
    rw [List.cons_append, opensComment, Bool.or_eq_false_iff] at h
    obtain ⟨hc, hcs⟩ := h
    refine ⟨?_, (ih hcs).2⟩
    rw [opensComment, (ih hcs).1, Bool.or_false]
    cases cs with
    | nil => simp
    | cons d cs => exact hc

lemma Worded.of_append {cs ds : List Char} (worded : Worded (cs ++ ds)) : Worded ds := by
  obtain ⟨chars, comment, last⟩ := worded
  refine ⟨fun c hc => chars c (List.mem_append_right _ hc), (opensComment_append comment).2,
    fun c hc => last c ?_⟩
  rw [Option.mem_def] at hc
  rw [List.getLast?_append, hc]
  rfl

lemma worded_of_isBare {text : String} (h : isBare text .value = true) : Worded text.toList := by
  obtain ⟨bare, -⟩ := bare_of_isBare OperatorRegistry.symbolic_empty h
  refine ⟨fun c hc => ?_, bare.comment, bare.last⟩
  simp only [isBare] at h
  split_ifs at h
  simp only [Bool.and_eq_true, decide_eq_true_eq, List.all_eq_true, Bool.not_eq_true',
    Bool.or_eq_false_iff, decide_eq_false_iff_not] at h
  exact (h.2 c hc).1

namespace Lexis

variable {lexis : Lexis}

/-- **A printed text is one token**, which carries the text. -/
theorem read_printText (symbolic : lexis.operators.Symbolic) (skipBreaks : Bool)
    {position : Position} {text : String} (hp : p.rest = (printText position text).toList ++ tail)
    (stops : Stops position.readMode tail) :
    ∃ kind : TokenKind, kind.isText = true ∧ lexis.read skipBreaks position.readMode p
      = ⟨⟨kind, text, p.offset, p.offset + (printText position text).length⟩,
          p.skip (printText position text).length, []⟩ := by
  unfold printText at hp ⊢
  split_ifs at hp ⊢ with h
  · obtain ⟨bare, begins⟩ := bare_of_isBare symbolic h
    have lexed : lexis.read skipBreaks position.readMode p = _ := lex_bare bare begins stops hp
    rw [String.ofList_toList, String.length_toList] at lexed
    exact ⟨.literal, rfl, lexed⟩
  · exact ⟨.quoted, rfl, lex_quoted text hp⟩

/-- **Behind an element there is nothing that belongs to it**: no group, no text and no operator. -/
lemma read_ends (skipBreaks : Bool) (mode : Mode) (bracket : mode ≠ .key)
    (ends : EndsElement p.rest) :
    (lexis.read skipBreaks mode p).reports = [] ∧
      (lexis.read skipBreaks mode p).token.kind.isOpener = false ∧
      (lexis.read skipBreaks mode p).token.kind.isText = false ∧
      (lexis.read skipBreaks mode p).token.kind ≠ .operator ∧
      (lexis.read skipBreaks mode p).token.kind ≠ .keyword := by
  have kinds : ∀ kind : TokenKind, kind = .comma ∨ kind.isCloser = true ∨ kind = .endOfInput →
      kind.isOpener = false ∧ kind.isText = false ∧ kind ≠ .operator ∧ kind ≠ .keyword := by
    intro kind
    cases kind <;> decide
  cases hrest : p.rest with
  | nil =>
    rw [read, lex_end hrest]
    exact ⟨rfl, kinds _ (.inr (.inr rfl))⟩
  | cons c tail =>
    rw [hrest] at ends
    obtain ⟨kind, hkind, separates⟩ : ∃ kind, delimiter? mode c = some kind ∧
        (kind = .comma ∨ kind.isCloser = true ∨ kind = .endOfInput) := by
      rcases ends with rfl | rfl | rfl | rfl
      · exact ⟨.comma, by simp [delimiter?], .inl rfl⟩
      · exact ⟨.rBracket, by simp [delimiter?, bracket], .inr (.inl rfl)⟩
      · exact ⟨.rBrace, by simp [delimiter?], .inr (.inl rfl)⟩
      · exact ⟨.rParen, by simp [delimiter?, bracket], .inr (.inl rfl)⟩
    have newline : c ≠ '\n' := by
      rcases ends with rfl | rfl | rfl | rfl <;> decide
    rw [read, lex_delimiter hrest hkind fun h => absurd h newline]
    exact ⟨rfl, kinds _ separates⟩

/-- A word of a bare value is read up to a blank or a colon. -/
lemma read_word_of_unblank (skipBreaks : Bool) {c : Char} {cs : List Char}
    (worded : Worded (c :: cs)) (unblank : Text.isBlank c = false) (ends : EndsElement tail)
    (hp : p.rest = c :: cs ++ tail) :
    (lexis.read skipBreaks .word p).reports = [] ∧
      (lexis.read skipBreaks .word p).token.kind.isOpener = false ∧
      ((lexis.read skipBreaks .word p).token.kind.isText = true →
        ∃ rest, Worded rest ∧ (lexis.read skipBreaks .word p).after.rest = rest ++ tail) := by
  by_cases colon : c = ':'
  · subst colon
    have delimits : delimiter? .word ':' = some .colon := by decide
    rw [read, lex_delimiter hp delimits fun h => absurd h (by decide)]
    exact ⟨rfl, rfl, fun h => by cases h⟩
  let inner : Char → Bool := fun c => !(Text.isBlank c || c = ':')
  have split : c :: cs = (c :: cs).takeWhile inner ++ (c :: cs).dropWhile inner :=
    List.takeWhile_append_dropWhile.symm
  have first : (c :: cs).takeWhile inner = c :: cs.takeWhile inner :=
    List.takeWhile_cons_of_pos (by simp [inner, unblank, colon])
  have within : ∀ d ∈ (c :: cs).takeWhile inner,
      isSpecial d = false ∧ d ≠ '\n' ∧ Text.isBlank d = false ∧ d ≠ ':' := by
    intro d hd
    obtain ⟨special, newline⟩ := worded.chars d ((List.takeWhile_prefix _).subset hd)
    exact ⟨special, newline, by simpa [inner] using List.mem_takeWhile_imp hd⟩
  have bare : Bare lexis.operators .word ((c :: cs).takeWhile inner) := by
    refine ⟨fun d hd => ?_, ?_, fun d hd => (within d (List.mem_of_getLast? hd)).2.2.1⟩
    · obtain ⟨hspecial, newline, blank, hcolon⟩ := within d hd
      exact ⟨(of_not_special hspecial).1, delimiter?_eq_none hspecial newline (fun h => absurd h hcolon)
        (by decide), by simp [blank], fun h => by cases h⟩
    · have comment := worded.comment
      rw [split] at comment
      exact (opensComment_append comment).1
  have begins : BeginsBare ((c :: cs).takeWhile inner) :=
    ⟨c, _, first, unblank, (of_not_special (worded.chars c List.mem_cons_self).1).2⟩
  have stops : Stops .word ((c :: cs).dropWhile inner ++ tail) := by
    cases hrest : (c :: cs).dropWhile inner with
    | nil => exact stops_of_endsElement ends (by decide)
    | cons d rest =>
      have outer := List.head?_dropWhile_not inner (c :: cs)
      rw [hrest] at outer
      have stop : (!(Text.isBlank d || d = ':')) = false := outer
      rw [Bool.not_eq_false', Bool.or_eq_true, decide_eq_true_eq] at stop
      rcases stop with blank | rfl
      · exact .inr ⟨blank, rfl⟩
      · exact .inl (by decide)
  have whole : p.rest = (c :: cs).takeWhile inner ++ ((c :: cs).dropWhile inner ++ tail) := by
    rw [← List.append_assoc, ← split, hp]
  have lexed : lexis.read skipBreaks .word p = _ := lex_bare bare begins stops whole
  rw [lexed]
  exact ⟨rfl, rfl, fun _ => ⟨_, Worded.of_append (by rw [← split]; exact worded),
    Place.rest_skip_of_append whole⟩⟩

/-- **The words of a bare value are read one by one**, and none of them is an opener. -/
lemma read_word (skipBreaks : Bool) {cs : List Char} (worded : Worded cs) (ends : EndsElement tail)
    (hp : p.rest = cs ++ tail) :
    (lexis.read skipBreaks .word p).reports = [] ∧
      (lexis.read skipBreaks .word p).token.kind.isOpener = false ∧
      ((lexis.read skipBreaks .word p).token.kind.isText = true →
        ∃ rest, Worded rest ∧ (lexis.read skipBreaks .word p).after.rest = rest ++ tail) := by
  have split : cs = cs.takeWhile Text.isBlank ++ cs.dropWhile Text.isBlank :=
    List.takeWhile_append_dropWhile.symm
  cases hwords : cs.dropWhile Text.isBlank with
  | nil =>
    -- There are only blanks, and so there is nothing.
    have nothing : cs = [] := by
      rw [hwords, List.append_nil] at split
      by_contra nonempty
      have last := List.getLast?_eq_some_getLast nonempty
      have member := List.mem_of_getLast? last
      have blank := worded.last _ last
      have front : cs.getLast nonempty ∈ cs.takeWhile Text.isBlank := split ▸ member
      rw [List.mem_takeWhile_imp front] at blank
      cases blank
    subst nothing
    obtain ⟨reports, opener, text, -⟩ :=
      lexis.read_ends (p := p) skipBreaks .word (by decide) (by rw [hp]; exact ends)
    exact ⟨reports, opener, fun h => by rw [text] at h; cases h⟩
  | cons c words =>
    have blank : ∀ d ∈ cs.takeWhile Text.isBlank, Text.isBlank d = true ∧ d ≠ '\n' := fun d hd =>
      ⟨List.mem_takeWhile_imp hd, (worded.chars d ((List.takeWhile_prefix _).subset hd)).2⟩
    have unblank : Text.isBlank c = false := by
      have outer := List.head?_dropWhile_not Text.isBlank cs
      rw [hwords] at outer
      simpa using outer
    rw [hwords] at split
    have whole : p.rest = cs.takeWhile Text.isBlank ++ (c :: words ++ tail) := by
      rw [← List.append_assoc, ← split, hp]
    have moved : lexis.read skipBreaks .word p = _ := lex_blanks whole blank
    rw [moved]
    exact read_word_of_unblank skipBreaks (Worded.of_append (by rw [← split]; exact worded)) unblank
      ends (Place.rest_skip_of_append whole)

/-- What is needed for a token that is not the name of a group. -/
lemma headAt?_eq_none (admits : ∀ lexeme : Lexeme, lexeme.reports = [] → lexis.admits lexeme)
    (first : (lexis.read true mode p).reports = [] ∧
      (lexis.read true mode p).token.kind.isOpener = false)
    (second : (lexis.read true mode p).token.kind.isText = true →
      (lexis.behindName mode p).reports = [] ∧
        (lexis.behindName mode p).token.kind.isOpener = false) :
    lexis.headAt? mode p = none ∧ lexis.MeetsHead mode p := by
  refine ⟨?_, admits _ first.1, fun text => admits _ (second text).1⟩
  simp only [headAt?, first.2, Bool.false_eq_true, if_false]
  split_ifs with text opener
  · rw [(second text).2] at opener
    simp at opener
  · rfl
  · rfl

/-- **A printed value is not the name of a group.** -/
lemma headAt?_value (admits : ∀ lexeme : Lexeme, lexeme.reports = [] → lexis.admits lexeme)
    {text : String} (hp : p.rest = (printText .value text).toList ++ tail)
    (ends : EndsElement tail) :
    lexis.headAt? .word p = none ∧ lexis.MeetsHead .word p := by
  by_cases h : isBare text .value = true
  · rw [printText, if_pos h] at hp
    obtain ⟨reports, opener, further⟩ := lexis.read_word true (worded_of_isBare h) ends hp
    refine headAt?_eq_none admits ⟨reports, opener⟩ fun text => ?_
    obtain ⟨rest, worded, hrest⟩ := further text
    obtain ⟨reports, opener, -⟩ := lexis.read_word false worded ends hrest
    exact ⟨reports, opener⟩
  · rw [printText, if_neg h] at hp
    have lexed : lexis.read true .word p = _ := lex_quoted text hp
    have after : (lexis.read true .word p).after.rest = tail := by
      rw [lexed]
      have rest := Place.rest_skip_of_append hp
      rwa [String.length_toList] at rest
    refine headAt?_eq_none admits (by rw [lexed]; exact ⟨rfl, rfl⟩) fun _ => ?_
    obtain ⟨reports, opener, -⟩ :=
      lexis.read_ends false .word (by decide) (after ▸ ends)
    exact ⟨reports, opener⟩

/-- A printed operand is not the name of a group. -/
lemma headAt?_operand (admits : ∀ lexeme : Lexeme, lexeme.reports = [] → lexis.admits lexeme)
    (symbolic : lexis.operators.Symbolic) {text : String}
    (hp : p.rest = (printText .operand text).toList ++ tail) (ends : EndsElement tail) :
    lexis.headAt? .operation p = none ∧ lexis.MeetsHead .operation p := by
  obtain ⟨kind, hkind, lexed⟩ := lexis.read_printText symbolic true hp
    (stops_of_endsElement ends (by decide))
  have lexed : lexis.read true .operation p = _ := lexed
  have after : (lexis.read true .operation p).after.rest = tail := by
    rw [lexed]
    have rest := Place.rest_skip_of_append hp
    rwa [String.length_toList] at rest
  refine headAt?_eq_none admits ?_ fun _ => ?_
  · rw [lexed]
    exact ⟨rfl, by cases kind <;> simp_all [TokenKind.isText, TokenKind.isOpener]⟩
  · obtain ⟨reports, opener, -⟩ :=
      lexis.read_ends false .operation (by decide) (after ▸ ends)
    exact ⟨reports, opener⟩

/-- A printed name is a token where values are read, too. -/
lemma read_value_of_name {name : String} (hp : p.rest = (printText .name name).toList ++ tail)
    (stops : Stops .value tail) :
    ∃ token, lexis.read true .value p = ⟨token, p.skip (printText .name name).length, []⟩ := by
  unfold printText at hp ⊢
  split_ifs at hp ⊢ with h
  · obtain ⟨⟨chars, comment, last⟩, begins⟩ :=
      bare_of_isBare OperatorRegistry.symbolic_empty h
    have bare : Bare lexis.operators .value name.toList := by
      refine ⟨fun c hc => ?_, comment, last⟩
      obtain ⟨escape, delimits, -⟩ := chars c hc
      refine ⟨escape, ?_, fun _ => rfl, fun h => by cases h⟩
      by_cases colon : c = ':'
      · subst colon
        decide
      · have same : delimiter? .value c = delimiter? .word c := by simp [delimiter?, colon]
        rw [same]
        exact delimits
    have lexed : lexis.read true .value p = _ := lex_bare bare begins stops hp
    rw [String.length_toList] at lexed
    exact ⟨_, lexed⟩
  · exact ⟨_, lex_quoted name hp⟩

/-- **A printed name is the name of the group behind it.** -/
lemma headAt?_name (admits : ∀ lexeme : Lexeme, lexeme.reports = [] → lexis.admits lexeme)
    (symbolic : lexis.operators.Symbolic) {position : Position}
    (inside : position = .value ∨ position = .operand) {name : String} {c : Char}
    {kind : TokenKind} (opens : kind.isOpener = true) (bracket : ∀ mode ≠ Mode.key,
      delimiter? mode c = some kind)
    (hp : p.rest = (printName position name).toList ++ c :: tail) :
    ∃ token opener q, lexis.headAt? position.readMode.ofNames p = some (token, opener, q) ∧
      lexis.MeetsHead position.readMode.ofNames p ∧ opener.kind = kind ∧ q.rest = tail ∧
      (token.map Token.content).getD "" = name ∧
      lexis.admits (lexis.read true position.readMode p) := by
  have names : position.readMode.ofNames ≠ .key := by
    rcases inside with rfl | rfl <;> decide
  have delimits := bracket _ names
  have newline : c ≠ '\n' := by
    rintro rfl
    have same : some TokenKind.lineBreak = some kind := delimits
    cases same
    cases opens
  by_cases empty : name.isEmpty
  · -- Without a name the opener is the first token.
    rw [printName, if_pos empty] at hp
    have lexed : lexis.read true position.readMode.ofNames p = _ :=
      lex_delimiter hp delimits fun h => absurd h newline
    have value : lexis.read true position.readMode p = _ :=
      lex_delimiter hp (bracket _ (by rcases inside with rfl | rfl <;> decide))
        fun h => absurd h newline
    refine ⟨none, ⟨kind, "", p.offset, p.offset + 1⟩, p.next, ?_, ⟨?_, fun text => ?_⟩, rfl,
      Place.rest_next_of_cons hp, ?_, ?_⟩
    · simp only [headAt?, lexed, opens, if_true]
    · rw [lexed]
      exact admits _ rfl
    · rw [lexed] at text
      cases kind <;> simp_all [TokenKind.isText, TokenKind.isOpener]
    · simpa using (String.isEmpty_iff.mp empty).symm
    · rw [value]
      exact admits _ rfl
  · -- With a name it is the second, and nothing is between the two.
    obtain ⟨place, same, print⟩ : ∃ place : Position,
        place.readMode = position.readMode.ofNames ∧
          (if position = .operand then Position.operand else .name) = place := by
      rcases inside with rfl | rfl
      · exact ⟨.name, rfl, rfl⟩
      · exact ⟨.operand, rfl, rfl⟩
    rw [printName, if_neg empty, print] at hp
    have stops : Stops place.readMode (c :: tail) := .inl (by rw [same, delimits]; rfl)
    obtain ⟨textKind, isText, lexed⟩ := lexis.read_printText symbolic true hp stops
    rw [same] at lexed
    have behind := Place.rest_skip_of_append hp
    have offset := Place.offset_skip_of_append hp
    rw [String.length_toList] at behind offset
    have second : lexis.behindName position.readMode.ofNames p
        = ⟨⟨kind, "", (p.skip (printText place name).length).offset,
            (p.skip (printText place name).length).offset + 1⟩,
            (p.skip (printText place name).length).next, []⟩ := by
      rw [behindName, lexed]
      exact lex_delimiter behind delimits fun h => absurd h newline
    have textual : textKind.isOpener = false := by
      cases textKind <;> simp_all [TokenKind.isText, TokenKind.isOpener]
    refine ⟨some ⟨textKind, name, p.offset, p.offset + (printText place name).length⟩,
      ⟨kind, "", p.offset + (printText place name).length,
        p.offset + (printText place name).length + 1⟩, _, ?_, ⟨?_, fun _ => ?_⟩, rfl,
      Place.rest_next_of_cons behind, rfl, ?_⟩
    · simp only [headAt?, lexed, second, textual, isText, opens, offset, Bool.false_eq_true,
        if_false, if_true, decide_true, Bool.and_self]
    · rw [lexed]
      exact admits _ rfl
    · rw [second]
      exact admits _ rfl
    · rcases inside with rfl | rfl
      · obtain rfl : Position.name = place := print
        obtain ⟨token, value⟩ :=
          lexis.read_value_of_name hp (.inl (by rw [bracket .value (by decide)]; rfl))
        rw [show Position.value.readMode = .value from rfl, value]
        exact admits _ rfl
      · rw [show Position.operand.readMode = Position.operand.readMode.ofNames from rfl, lexed]
        exact admits _ rfl

end Lexis

end TreeLang
