import Mathlib.Tactic.Common
import TreeLang.Token.Lexer

/-!
# Where tokens begin and end

What can be said of a token without its kind: it begins where no blank and no comment does, it ends
behind its beginning, and which kind it is depends on its first character.

* `Stands` — a token begins at a text, or the text ends.
* `skipTrivia_of_stands`, `stands_of_skipTrivia` — where skipping ends.
* **`lex_shortens`** — every token but the last takes at least one character.
* `kind_lexHere` — the kind of a token by its first character, outside operations.
* `lex_of_word` — what ends a text or a group under one mode does so under the others.
* `ofToken_lex` — what is reported about a token.
-/

namespace TreeLang

/-! ## Between tokens -/

/-- No blank, no comment and no continued line begins the text. -/
def Stands (skipBreaks : Bool) : List Char → Prop
  | [] => True
  | c :: rest =>
    (c = '\n' ∧ skipBreaks = false) ∨
      (Text.isBlank c = false ∧ ¬ (c = '\\' ∧ rest.head? = some '\n') ∧
        ¬ (c = '/' ∧ rest.head? = some '/') ∧ ¬ (c = '/' ∧ rest.head? = some '*'))

lemma isBlank_newline : Text.isBlank '\n' = true := by decide

/-- Where a token begins nothing is skipped. -/
lemma skipTrivia_of_stands {skipBreaks : Bool} {place : Place}
    (stands : Stands skipBreaks place.rest) : skipTrivia skipBreaks place = .token place := by
  rw [skipTrivia]
  split
  · rfl
  · rename_i c rest hrest
    rw [hrest] at stands
    rcases stands with ⟨rfl, rfl⟩ | ⟨blank, continued, line, block⟩
    · simp
    · have newline : c ≠ '\n' := fun h => by simp [h, isBlank_newline] at blank
      simp [blank, newline, continued, line, block]

/-- Skipping ends where a token begins. -/
lemma stands_of_skipTrivia {skipBreaks : Bool} {place after : Place}
    (h : skipTrivia skipBreaks place = .token after) : Stands skipBreaks after.rest := by
  fun_induction skipTrivia skipBreaks place <;> simp_all [Stands]

/-- Where skipping does not end at a line break it does not matter whether those are skipped. -/
lemma skipTrivia_true {place : Place}
    (more : ∀ after, skipTrivia false place = .token after → after.rest.head? ≠ some '\n') :
    skipTrivia true place = skipTrivia false place := by
  generalize hbreaks : false = skipBreaks at more ⊢
  fun_induction skipTrivia skipBreaks place with
  | case2 place c rest hrest newline =>
    exact absurd (by simp [hrest, newline.1]) (more place rfl)
  | case8 place c rest hrest newline blank continued line block =>
    exact skipTrivia_of_stands (by
      rw [hrest]
      exact .inr ⟨by simpa using blank, continued, line, block⟩)
  | case1 | case3 | case4 | case5 | case6 | case7 =>
    rw [skipTrivia]
    split <;> simp_all

/-- Only at a line break is a token a line break, and only where those are not skipped. -/
lemma lex_true {operators : OperatorRegistry} {policy : EscapePolicy} {mode : Mode}
    {place : Place}
    (other : (lex operators policy false mode place).token.kind ≠ .lineBreak) :
    lex operators policy true mode place = lex operators policy false mode place := by
  have skip : skipTrivia true place = skipTrivia false place := by
    refine skipTrivia_true fun after hskip newline => other ?_
    simp [lex, hskip, lexHere, newline, delimiter?]
  rw [lex, lex, skip]

/-- Skipping does not go back. -/
lemma skipTrivia_le {skipBreaks : Bool} {place after : Place}
    (h : skipTrivia skipBreaks place = .token after) :
    after.rest.length ≤ place.rest.length := by
  fun_induction skipTrivia skipBreaks place with
  | case1 | case2 | case8 =>
    cases h
    exact Nat.le_refl _
  | case3 place _ _ _ _ _ ih | case4 place _ _ _ _ _ _ ih | case5 place _ _ _ _ _ _ _ ih
  | case6 place _ _ _ _ _ _ _ _ _ _ ih =>
    have le := ih h
    simp only [Place.rest_next, Place.rest_skip, List.length_tail, List.length_drop] at le
    omega
  | case7 => cases h

/-- A comment that is not closed begins behind the place or at it. -/
lemma skipTrivia_openComment {skipBreaks : Bool} {place after : Place}
    (h : skipTrivia skipBreaks place = .openComment after) :
    0 < after.rest.length ∧ after.rest.length ≤ place.rest.length := by
  fun_induction skipTrivia skipBreaks place with
  | case1 | case2 | case8 => cases h
  | case3 place _ _ _ _ _ ih | case4 place _ _ _ _ _ _ ih | case5 place _ _ _ _ _ _ _ ih
  | case6 place _ _ _ _ _ _ _ _ _ _ ih =>
    have bounds := ih h
    simp only [Place.rest_next, Place.rest_skip, List.length_tail, List.length_drop] at bounds
    omega
  | case7 place c rest hrest =>
    cases h
    simp [hrest]

/-! ## Quoted texts -/

/-- A quoted text does not go back. -/
lemma quotedFrom_le (policy : EscapePolicy) (quote : Char) (place : Place) :
    (quotedFrom policy quote place).after.rest.length ≤ place.rest.length := by
  have next_le : ∀ place : Place, place.next.rest.length ≤ place.rest.length := by simp
  have skip_le : ∀ (place : Place) count, (place.skip count).rest.length ≤ place.rest.length := by
    simp
  fun_induction quotedFrom policy quote place with
  | case1 place => exact Nat.le_refl _
  | case2 place => exact next_le place
  | case3 place _ _ _ ih => exact Nat.le_trans ih (next_le place)
  | case4 place _ _ _ _ ih => exact Nat.le_trans ih (skip_le place _)
  | case5 place _ _ _ _ _ _ _ _ _ ih => exact Nat.le_trans ih (skip_le place _)
  | case6 place _ _ _ _ _ _ ih => exact Nat.le_trans ih (next_le place)
  | case7 place _ _ _ _ _ _ _ ih =>
    exact Nat.le_trans ih (Nat.le_trans (length_rest_skipFold place.next) (next_le place))
  | case8 place _ _ _ _ _ _ _ _ ih => exact Nat.le_trans ih (next_le place)

/-! ## Literals -/

/-- What may begin a literal. -/
def BeginsLiteral (mode : Mode) : List Char → Prop
  | [] => False
  | c :: rest =>
    (delimiter? mode c).isSome = false ∧ Text.isBlank c = false ∧
      ¬ (c = '\\' ∧ rest.head? = some '\n') ∧
      ¬ (c = '/' ∧ (rest.head? = some '/' ∨ rest.head? = some '*'))

/-- What is kept in front of a scan ends no later than the scan. -/
lemma LiteralScan.keep_le {scan : LiteralScan} {front text : List Char} {after stop : Place}
    (le : ∀ more, scan.content = some (more, stop) → stop.rest.length ≤ after.rest.length)
    (h : (scan.keep front after).content = some (text, stop)) :
    stop.rest.length ≤ after.rest.length := by
  cases hcontent : scan.content with
  | none =>
    simp only [keep, hcontent, Option.some.injEq, Prod.mk.injEq] at h
    obtain ⟨-, rfl⟩ := h
    exact Nat.le_refl _
  | some content =>
    obtain ⟨more, place⟩ := content
    simp only [keep, hcontent, Option.some.injEq, Prod.mk.injEq] at h
    exact le more (by rw [hcontent, h.2])

/-- The content of a literal ends where the literal began or further on. -/
lemma literalFrom_le {operators : OperatorRegistry} {policy : EscapePolicy} {mode : Mode}
    {first : Bool} {place stop : Place} {text : List Char}
    (h : (literalFrom operators policy mode first place).content = some (text, stop)) :
    stop.rest.length ≤ place.rest.length := by
  have next_le : ∀ place : Place, place.next.rest.length ≤ place.rest.length := by simp
  have skip_le : ∀ (place : Place) count, (place.skip count).rest.length ≤ place.rest.length := by
    simp
  fun_induction literalFrom operators policy mode first place generalizing text with
  | case1 | case5 | case6 | case8 | case9 => cases h
  | case2 => exact Nat.le_trans (LiteralScan.keep_le (fun _ h => by cases h) h) (next_le _)
  | case3 _ _ _ _ _ ih => exact Nat.le_trans (ih h) (skip_le _ _)
  | case4 =>
    rename_i ih
    exact Nat.le_trans (LiteralScan.keep_le (fun _ h => ih h) h) (skip_le _ _)
  | case7 _ _ _ _ _ _ _ _ _ ih =>
    obtain ⟨⟨more, place⟩, hcontent, same⟩ := Option.map_eq_some_iff.mp h
    obtain ⟨-, rfl⟩ := Prod.mk.inj same
    exact Nat.le_trans (ih hcontent) (next_le _)
  | case10 _ _ _ _ _ _ _ _ _ _ ih =>
    exact Nat.le_trans (LiteralScan.keep_le (fun _ h => ih h) h) (next_le _)

/-- A literal that begins takes at least one character. -/
lemma literalFrom_shortens (operators : OperatorRegistry) (policy : EscapePolicy) (mode : Mode)
    {place : Place} (begins : BeginsLiteral mode place.rest) :
    ∃ text stop, (literalFrom operators policy mode true place).content = some (text, stop) ∧
      stop.rest.length < place.rest.length := by
  have kept : ∀ {scan : LiteralScan} {front : List Char} {after : Place},
      (∀ text stop, scan.content = some (text, stop) → stop.rest.length ≤ after.rest.length) →
      after.rest.length < place.rest.length →
      ∃ text stop, (scan.keep front after).content = some (text, stop) ∧
        stop.rest.length < place.rest.length := by
    intro scan front after le shorter
    cases hcontent : scan.content with
    | none => exact ⟨front, after, by simp [LiteralScan.keep, hcontent], shorter⟩
    | some content =>
      obtain ⟨text, stop⟩ := content
      exact ⟨front ++ text, stop, by simp [LiteralScan.keep, hcontent],
        Nat.lt_of_le_of_lt (le text stop hcontent) shorter⟩
  rw [literalFrom]
  split
  · rename_i hrest
    simp [hrest, BeginsLiteral] at begins
  · rename_i c rest hrest
    rw [hrest] at begins
    obtain ⟨delimits, blank, continued, comment⟩ := begins
    have next_lt : place.next.rest.length < place.rest.length := by simp [hrest]
    split
    · rename_i slash
      subst slash
      split
      · exact kept (fun _ _ h => by cases h) next_lt
      · rename_i letter following _
        have newline : letter ≠ '\n' := fun h => continued ⟨rfl, by simp [h]⟩
        rw [if_neg newline]
        have width := Escape.two_le_width policy place.offset letter following
        refine kept (fun _ _ h => literalFrom_le h) ?_
        simp only [Place.rest_skip, hrest, List.length_drop, List.length_cons]
        omega
    · simp only [delimits, blank, Bool.false_eq_true, if_false, reduceCtorEq, false_and,
        and_false]
      exact kept (fun _ _ h => literalFrom_le h) next_lt

/-! ## Operators -/

/-- The operators looked for at a place have a name. -/
lemma length_pos_of_mem_symbols {operators : OperatorRegistry} {keyword : Bool} {c : Char}
    {name : String} (member : name ∈ operators.symbols keyword c) : 0 < name.length := by
  simp only [OperatorRegistry.symbols, List.mem_mergeSort, List.mem_eraseDups, List.mem_map,
    List.mem_filter, Bool.and_eq_true, decide_eq_true_eq] at member
  obtain ⟨op, ⟨-, -, head⟩, rfl⟩ := member
  rw [← String.length_toList]
  cases hlist : op.name.toList with
  | nil => simp [hlist] at head
  | cons => simp

/-- An operator is a piece of the text. -/
lemma lexOperator?_eq_some {operators : OperatorRegistry} {place : Place} {lexeme : Lexeme}
    (h : lexOperator? operators place = some lexeme) :
    ∃ name, 0 < name.length ∧ name.toList <+: place.rest ∧
      (lexeme.token.kind = .keyword ∨ lexeme.token.kind = .operator) ∧
      lexeme.token.content = name ∧ lexeme.after = place.skip name.length := by
  simp only [lexOperator?, Option.or_eq_some_iff, Option.map_eq_some_iff, wordAt?, symbolAt?,
    Option.bind_eq_some_iff] at h
  rcases h with ⟨name, ⟨c, -, found⟩, rfl⟩ | ⟨-, name, ⟨c, -, found⟩, rfl⟩
  all_goals
    have isPrefix := List.find?_some found
    simp only [Bool.and_eq_true, List.isPrefixOf_iff_prefix] at isPrefix
    exact ⟨name, length_pos_of_mem_symbols (List.mem_of_find?_eq_some found), isPrefix.1,
      by simp, rfl, rfl⟩

/-! ## Tokens -/

/-- A token that begins takes at least one character. -/
lemma lexHere_shortens {operators : OperatorRegistry} {policy : EscapePolicy} {skipBreaks : Bool}
    {mode : Mode} {place : Place} (stands : Stands skipBreaks place.rest)
    (nonempty : place.rest ≠ []) :
    (lexHere operators policy mode place).after.rest.length < place.rest.length := by
  obtain ⟨c, rest, hrest⟩ := List.exists_cons_of_ne_nil nonempty
  simp only [lexHere, hrest, List.head?_cons]
  split
  · simp [hrest]
  · rename_i delimits
    split
    · exact Nat.lt_of_le_of_lt (quotedFrom_le policy c place.next) (by simp [hrest])
    · have literal : (lexLiteral operators policy mode place).after.rest.length
          < place.rest.length := by
        rw [hrest] at stands
        obtain ⟨blank, continued, line, block⟩ := stands.resolve_left fun h => by
          simp [delimiter?, h.1] at delimits
        obtain ⟨text, stop, hcontent, shorter⟩ := literalFrom_shortens operators policy mode
          (by rw [hrest]; exact ⟨by simp [delimits], blank, continued, by tauto⟩)
        simpa [lexLiteral, hcontent] using shorter
      cases hoperator : (if mode = .operation then lexOperator? operators place else none) with
      | none => simpa [hrest] using literal
      | some lexeme =>
        have found : lexOperator? operators place = some lexeme := by
          split at hoperator
          · exact hoperator
          · cases hoperator
        obtain ⟨name, positive, -, -, -, after⟩ := lexOperator?_eq_some found
        simp only [Option.getD_some, after, Place.rest_skip, List.length_drop, hrest,
          List.length_cons]
        omega

/-- **Every token but the last takes at least one character.** -/
theorem lex_shortens {operators : OperatorRegistry} {policy : EscapePolicy} {skipBreaks : Bool}
    {mode : Mode} {place : Place}
    (more : (lex operators policy skipBreaks mode place).token.kind ≠ .endOfInput) :
    (lex operators policy skipBreaks mode place).after.rest.length < place.rest.length := by
  simp only [lex] at more ⊢
  split
  · rename_i begin hskip
    simp only [hskip] at more
    refine Nat.lt_of_lt_of_le (lexHere_shortens (stands_of_skipTrivia hskip) fun h => more ?_)
      (skipTrivia_le hskip)
    simp [lexHere, h]
  · rename_i begin hskip
    obtain ⟨positive, le⟩ := skipTrivia_openComment hskip
    simp only [Place.rest_skip, List.length_drop]
    omega

/-- No token goes back. -/
theorem lex_le (operators : OperatorRegistry) (policy : EscapePolicy) (skipBreaks : Bool)
    (mode : Mode) (place : Place) :
    (lex operators policy skipBreaks mode place).after.rest.length ≤ place.rest.length := by
  by_cases h : (lex operators policy skipBreaks mode place).token.kind = .endOfInput
  · simp only [lex] at h ⊢
    split
    · rename_i begin hskip
      simp only [hskip] at h
      refine Nat.le_trans ?_ (skipTrivia_le hskip)
      by_cases nonempty : begin.rest = []
      · simp [lexHere, nonempty]
      · exact Nat.le_of_lt (lexHere_shortens (stands_of_skipTrivia hskip) nonempty)
    · simp
  · exact Nat.le_of_lt (lex_shortens h)

/-! ## Kinds

Outside operations the kind of a token is decided by its first character.
-/

/-- The character of a delimiter, if a kind of token is one. -/
def TokenKind.sign? : TokenKind → Option Char
  | .lineBreak => some '\n'
  | .lBrace => some '{'
  | .rBrace => some '}'
  | .comma => some ','
  | .lBracket => some '['
  | .rBracket => some ']'
  | .lParen => some '('
  | .rParen => some ')'
  | .colon => some ':'
  | .equals => some '='
  | .endOfInput | .literal | .quoted | .operator | .keyword | .openComment => none

/-- **A delimiter is known by its character**, under whatever mode. -/
lemma delimiter?_sign {mode : Mode} {c : Char} {kind : TokenKind} (h : delimiter? mode c = some kind) :
    kind.sign? = some c := by
  rw [delimiter?] at h
  -- Four characters are delimiters under every mode, and six under some.
  iterate 4
    rcases ite_eq_iff.mp h with ⟨rfl, ⟨⟩⟩ | ⟨-, h⟩
    · rfl
  iterate 6
    rcases ite_eq_iff.mp h with ⟨⟨rfl, -⟩, ⟨⟩⟩ | ⟨-, h⟩
    · rfl
  cases h

/-- The kind of the token that begins with a character. -/
def kindOf (mode : Mode) (c : Char) : TokenKind :=
  (delimiter? mode c).getD (if c = '"' ∨ c = '\'' then .quoted else .literal)

/-- **The kind of a token by its first character.** -/
theorem kind_lexHere {operators : OperatorRegistry} {policy : EscapePolicy} {mode : Mode}
    {place : Place} (outside : mode ≠ .operation) :
    (lexHere operators policy mode place).token.kind
      = (place.rest.head?.map (kindOf mode)).getD .endOfInput := by
  simp only [lexHere, outside, if_false, Option.getD_none]
  cases place.rest.head? with
  | none => rfl
  | some c =>
    simp only [Option.map_some, Option.getD_some, kindOf]
    cases delimiter? mode c with
    | some kind => rfl
    | none =>
      simp only [Option.getD_none]
      split <;> rfl

/-- Names and values differ in colons only. -/
lemma delimiter?_value_eq {c : Char} (colon : c ≠ ':') : delimiter? .value c = delimiter? .word c := by
  simp [delimiter?, colon]

/-- What opens a group or is a text under the mode of names is so under the mode of values. -/
lemma kindOf_value {c : Char} :
    ((kindOf .word c).isOpener → (kindOf .value c).isOpener) ∧
      ((kindOf .word c).isText → (kindOf .value c).isText) := by
  by_cases colon : c = ':'
  · subst colon
    decide
  · simp only [kindOf, delimiter?_value_eq colon]
    exact ⟨id, id⟩

/-- **Where a group or a text begins under the mode of names, one does under that of values.** -/
theorem begins_value (operators : OperatorRegistry) (policy : EscapePolicy) (skipBreaks : Bool)
    (place : Place) :
    ((lex operators policy skipBreaks .word place).token.kind.isOpener →
        (lex operators policy skipBreaks .value place).token.kind.isOpener) ∧
      ((lex operators policy skipBreaks .word place).token.kind.isText →
        (lex operators policy skipBreaks .value place).token.kind.isText) := by
  simp only [lex]
  cases skipTrivia skipBreaks place with
  | openComment place => exact ⟨id, id⟩
  | token place =>
    have word : Mode.word ≠ .operation := by decide
    have value : Mode.value ≠ .operation := by decide
    simp only [kind_lexHere word, kind_lexHere value]
    cases place.rest.head? with
    | none => exact ⟨id, id⟩
    | some c => exact kindOf_value

/-- A kind that a word of the text may have. -/
def TokenKind.isWorded (kind : TokenKind) : Bool :=
  kind.isText || kind = .operator || kind = .keyword

/-- **What can be said of the kind of a token under every mode.** -/
theorem kind_lexHere_cases (operators : OperatorRegistry) (policy : EscapePolicy) (mode : Mode)
    (place : Place) :
    (place.rest = [] ∧ (lexHere operators policy mode place).token.kind = .endOfInput) ∨
      ∃ c, place.rest.head? = some c ∧
        (delimiter? mode c = some (lexHere operators policy mode place).token.kind ∨
          (delimiter? mode c = none ∧
            (lexHere operators policy mode place).token.kind.isWorded)) := by
  simp only [lexHere]
  cases hrest : place.rest.head? with
  | none => exact .inl ⟨List.head?_eq_none_iff.mp hrest, rfl⟩
  | some c =>
    refine .inr ⟨c, rfl, ?_⟩
    cases hdelimiter : delimiter? mode c with
    | some kind =>
      left
      simp only [hdelimiter]
    | none =>
      refine .inr ⟨rfl, ?_⟩
      simp only [hdelimiter]
      split
      · rfl
      · cases hoperator : (if mode = .operation then lexOperator? operators place else none) with
        | none => rfl
        | some lexeme =>
          have found : lexOperator? operators place = some lexeme := by
            split at hoperator
            · exact hoperator
            · cases hoperator
          obtain ⟨_, -, -, kind, -⟩ := lexOperator?_eq_some found
          rcases kind with kind | kind <;> simp [kind, TokenKind.isWorded]

/-- A closer under the mode of words is one under every mode but that of keys. -/
lemma delimiter?_closer {c : Char} {kind : TokenKind} (h : delimiter? .word c = some kind)
    (closes : kind.isCloser) (mode : Mode) :
    delimiter? mode c = some kind ∨ (mode = .key ∧ delimiter? mode c = none) := by
  have sign := delimiter?_sign h
  match kind with
  | .rBrace =>
    obtain rfl := Option.some.inj sign
    exact .inl rfl
  | .rBracket | .rParen =>
    obtain rfl := Option.some.inj sign
    cases mode <;> simp [delimiter?]

/-- A delimiter is neither the end of a text nor one of its words. -/
lemma delimiter?_ne {mode : Mode} {c : Char} {kind : TokenKind} (h : delimiter? mode c = some kind) :
    kind ≠ .endOfInput ∧ kind.isWorded = false := by
  have sign := delimiter?_sign h
  refine ⟨?_, ?_⟩
  · rintro rfl
    cases sign
  · cases kind <;> first | rfl | cases sign

/-- **Where words end other tokens do**: an end of the text under the mode of words is one under
every mode, and so is a closer, unless it belongs to a key. -/
theorem lex_of_word (operators : OperatorRegistry) (policy : EscapePolicy) (skipBreaks : Bool)
    (mode : Mode) (place : Place) :
    let word := (lex operators policy skipBreaks .word place).token.kind
    let kind := (lex operators policy skipBreaks mode place).token.kind
    (word = .endOfInput → kind = .endOfInput) ∧
      (word.isCloser → kind = word ∨ (mode = .key ∧ kind.isText)) := by
  simp only [lex]
  cases skipTrivia skipBreaks place with
  | openComment place => exact ⟨id, fun closes => by simp [TokenKind.isCloser] at closes⟩
  | token place =>
    dsimp only
    rcases kind_lexHere_cases operators policy .word place with
      ⟨hrest, word⟩ | ⟨c, hrest, word⟩
    · have kind : (lexHere operators policy mode place).token.kind = .endOfInput := by
        simp [lexHere, hrest]
      exact ⟨fun _ => kind, fun _ => .inl (kind.trans word.symm)⟩
    · rcases kind_lexHere_cases operators policy mode place with ⟨empty, -⟩ | ⟨c', hrest', kind⟩
      · simp [empty] at hrest
      obtain rfl : c = c' := by simpa [hrest] using hrest'
      refine ⟨fun ends => ?_, fun closes => ?_⟩
      · rcases word with word | ⟨-, word⟩
        · exact absurd ends (delimiter?_ne word).1
        · simp [ends, TokenKind.isWorded, TokenKind.isText] at word
      · rcases word with word | ⟨-, word⟩
        · rcases delimiter?_closer word closes mode with same | ⟨rfl, none⟩
          · rcases kind with kind | ⟨kind, -⟩
            · exact .inl (Option.some.inj (kind.symm.trans same))
            · rw [kind] at same
              cases same
          · have outside : Mode.key ≠ .operation := by decide
            refine .inr ⟨rfl, ?_⟩
            rw [kind_lexHere outside, hrest, Option.map_some, Option.getD_some, kindOf, none]
            split <;> rfl
        · cases h : (lexHere operators policy .word place).token.kind <;>
            simp_all [TokenKind.isWorded, TokenKind.isText, TokenKind.isCloser]

/-! ## Reports -/

/-- **What is reported about a token**: a malformed escape in it, or that it is left open. -/
inductive Report.OfToken : Report → Prop
  | escape (offset : Nat) (letter : Char) (digits : Nat) (shown : String) (severity : Severity) :
    OfToken ((errorAt offset (.invalidEscape letter digits shown)).withSeverity severity)
  | quote (offset : Nat) (quote : Char) : OfToken (errorAt offset (.openQuote quote))
  | comment (offset : Nat) : OfToken (errorAt offset .openComment)

lemma Escape.ofToken_read (policy : EscapePolicy) (offset : Nat) (letter : Char)
    (following : List Char) : ∀ report ∈ (Escape.read policy offset letter following).reports,
      report.OfToken := by
  have unicode (digits : Nat) : ∀ report ∈ (Escape.unicode policy offset letter digits
      following).reports, report.OfToken := by
    intro report mem
    rw [Escape.unicode] at mem
    split at mem
    · cases mem
    · obtain ⟨severity, -, rfl⟩ := List.mem_map.mp mem
      exact .escape ..
  intro report mem
  unfold Escape.read at mem
  repeat' split at mem
  all_goals first | exact unicode _ report mem | cases mem

lemma ofToken_quotedFrom (policy : EscapePolicy) (quote : Char) (place : Place) :
    ∀ report ∈ (quotedFrom policy quote place).reports, report.OfToken := by
  fun_induction quotedFrom policy quote place
  case case5 ih =>
    intro report mem
    rcases List.mem_append.mp mem with mem | mem
    · exact Escape.ofToken_read _ _ _ _ report mem
    · exact ih report mem
  all_goals first | assumption | exact List.forall_mem_nil _

lemma ofToken_literalFrom (operators : OperatorRegistry) (policy : EscapePolicy) (mode : Mode)
    (first : Bool) (place : Place) :
    ∀ report ∈ (literalFrom operators policy mode first place).reports, report.OfToken := by
  fun_induction literalFrom operators policy mode first place
  case case4 ih =>
    intro report mem
    rcases List.mem_append.mp mem with mem | mem
    · exact Escape.ofToken_read _ _ _ _ report mem
    · exact ih report mem
  all_goals first | assumption | exact List.forall_mem_nil _

/-- **Nothing else is reported about a token.** -/
theorem ofToken_lex (operators : OperatorRegistry) (policy : EscapePolicy) (skipBreaks : Bool)
    (mode : Mode) (place : Place) :
    ∀ report ∈ (lex operators policy skipBreaks mode place).reports, report.OfToken := by
  have literal (place : Place) :
      ∀ report ∈ (lexLiteral operators policy mode place).reports, report.OfToken :=
    ofToken_literalFrom operators policy mode true place
  rw [lex]
  split
  · rename_i place _
    rw [lexHere]
    split
    · exact List.forall_mem_nil _
    split
    · exact List.forall_mem_nil _
    split
    · intro report mem
      rcases List.mem_append.mp mem with mem | mem
      · exact ofToken_quotedFrom _ _ _ report mem
      · split at mem
        · cases mem
        · rw [List.mem_singleton.mp mem]
          exact .quote ..
    dsimp only
    split
    · cases found : lexOperator? operators place with
      | none => exact literal place
      | some lexeme =>
        intro report mem
        rw [lexOperator?] at found
        rcases Option.or_eq_some_iff.mp found with h | ⟨-, h⟩ <;>
        · obtain ⟨_, -, rfl⟩ := Option.map_eq_some_iff.mp h
          cases mem
    · exact literal place
  · intro report mem
    rw [List.mem_singleton.mp mem]
    exact .comment ..

end TreeLang
