import TreeLang.Proofs.Gathering
import TreeLang.Proofs.Travelling

/-!
# Values that are mistaken for statements

The printer and the parser both look at the first word of a text, and mean two things by it.  To the
printer it ends at a blank, and a text whose first word is a statement keyword gets quotes.  To the parser
it ends at a colon, too.  So a text that goes on with a colon right behind a keyword is printed bare, and
read as a statement; it is the only kind of text of which this is true, and every other primitive compiles
from its printed form to itself.

* `Mistakable` — bare texts that begin with a keyword and a colon.
* `Lexis.statementAt?_bare` — the statement that a bare text is read as.
* `Parser.ends_endStatement_unparted` — behind a statement the rest of a plain line is skipped.
* **`compileAlone_plain`** — primitives that are read as they were printed.
-/

namespace TreeLang

/-- **A text that is mistaken for a statement**: it is printed without quotes, and begins with a keyword
and a colon. -/
def Mistakable (text : String) : Prop :=
  isBare text .value = true ∧
    ∃ opening : StatementKeyword, opening.text.toList ++ [':'] <+: text.toList

instance (text : String) : Decidable (Mistakable text) :=
  have known (opening : StatementKeyword) : opening ∈ StatementKeyword.all := by
    cases opening <;> decide
  decidable_of_iff (isBare text .value = true ∧
      ∃ opening ∈ StatementKeyword.all, opening.text.toList ++ [':'] <+: text.toList)
    (by simp only [known, true_and, Mistakable])

namespace StatementKeyword

lemma ofText?_text (opening : StatementKeyword) : ofText? opening.text = some opening := by
  cases opening <;> decide

lemma text_of_ofText? {word : String} {opening : StatementKeyword}
    (found : ofText? word = some opening) : word = opening.text :=
  (of_decide_eq_true (List.find?_eq_some_iff_append.mp found).1).symm

lemma toList_text (opening : StatementKeyword) :
    opening.text.toList ≠ [] ∧ ∀ c ∈ opening.text.toList, Text.isBlank c = false ∧ c ≠ ':' := by
  have plain : opening.text.toList.all (fun c => !Text.isBlank c && c ≠ ':') = true := by
    cases opening <;> decide
  exact ⟨by cases opening <;> decide, fun c member => by simpa using List.all_eq_true.mp plain c member⟩

end StatementKeyword

/-! ## The first word -/

/-- A text begins with a word that has neither a blank nor a colon in it, and ends there, at a blank or
at a colon. -/
lemma exists_front (cs : List Char) : ∃ w tail, w ++ tail = cs ∧
    (∀ c ∈ w, Text.isBlank c = false ∧ c ≠ ':') ∧
      ∀ d ∈ tail.head?, Text.isBlank d = true ∨ d = ':' := by
  let inner : Char → Bool := fun c => !(Text.isBlank c || c = ':')
  refine ⟨cs.takeWhile inner, cs.dropWhile inner, List.takeWhile_append_dropWhile, fun c member => ?_,
    fun d head => ?_⟩
  · simpa [inner] using List.mem_takeWhile_imp member
  · have outer := List.head?_dropWhile_not inner cs
    rw [Option.mem_def.mp head] at outer
    by_contra unstopped
    simp [inner, not_or.mp unstopped] at outer

/-- A word that ends at a blank, or with the text, is its first one. -/
lemma firstWord_append {w tail : List Char} (nonempty : w ≠ [])
    (unblank : ∀ c ∈ w, Text.isBlank c = false) (ends : ∀ d ∈ tail.head?, Text.isBlank d = true) :
    Text.firstWord (w ++ tail) = w := by
  have front : (w ++ tail).dropWhile Text.isBlank = w ++ tail := by
    obtain ⟨c, rest, rfl⟩ := List.exists_cons_of_ne_nil nonempty
    exact List.dropWhile_cons_of_neg (by simp [unblank c List.mem_cons_self])
  have behind : tail.takeWhile (fun c => !Text.isBlank c) = [] := by
    cases tail with
    | nil => rfl
    | cons d rest => exact List.takeWhile_cons_of_neg (by simpa using ends d rfl)
  rw [Text.firstWord, front, List.takeWhile_append_of_pos fun c member => by simp [unblank c member],
    behind, List.append_nil]

/-- The first word of a text that is printed bare is no keyword. -/
lemma ofText?_firstWord {text : String} (bare : isBare text .value = true) :
    StatementKeyword.ofText? (String.ofList (Text.firstWord text.toList)) = none := by
  simp only [isBare] at bare
  split_ifs at bare with empty keyword
  simpa using keyword

namespace Lexis

variable {lexis : Lexis} {p : Place} {text : String} {opening : StatementKeyword}

/-- A word at the beginning of a bare value is one token. -/
lemma read_front {w tail : List Char} (worded : Worded (w ++ tail)) (nonempty : w ≠ [])
    (inner : ∀ c ∈ w, Text.isBlank c = false ∧ c ≠ ':')
    (ends : ∀ d ∈ tail.head?, Text.isBlank d = true ∨ d = ':') (hp : p.rest = w ++ tail)
    (skipBreaks : Bool) :
    lexis.read skipBreaks .word p
      = ⟨⟨.literal, String.ofList w, p.offset, p.offset + w.length⟩, p.skip w.length, []⟩ := by
  have ordinary (c : Char) (member : c ∈ w) : isSpecial c = false ∧ c ≠ '\n' :=
    worded.chars c (List.mem_append_left _ member)
  have bare : Bare lexis.operators .word w := by
    refine ⟨fun c member => ?_, (opensComment_append worded.comment).1,
      fun c last => (inner c (List.mem_of_getLast? last)).1⟩
    obtain ⟨special, newline⟩ := ordinary c member
    obtain ⟨unblank, colon⟩ := inner c member
    exact ⟨(of_not_special special).1,
      delimiter?_eq_none special newline (fun h => absurd h colon) (by decide),
      by simp [unblank], fun h => by cases h⟩
  have begins : BeginsBare w := by
    obtain ⟨c, rest, rfl⟩ := List.exists_cons_of_ne_nil nonempty
    exact ⟨c, rest, rfl, (inner c List.mem_cons_self).1,
      (of_not_special (ordinary c List.mem_cons_self).1).2⟩
  have stops : Stops .word tail := by
    cases tail with
    | nil => trivial
    | cons d rest => exact (ends d rfl).symm.imp (by rintro rfl; decide) fun blank => ⟨blank, rfl⟩
  exact lex_bare bare begins stops hp

/-- **The statement that a bare text is read as**: the one whose keyword it begins with, if a colon
follows. -/
theorem statementAt?_bare (bare : isBare text .value = true) (hp : p.rest = text.toList) :
    lexis.statementAt? p = some opening ↔ opening.text.toList ++ [':'] <+: text.toList := by
  have worded := worded_of_isBare bare
  have other := ofText?_firstWord bare
  constructor
  · intro found
    obtain ⟨-, c, cs, whole, unblank, -⟩ := bare_of_isBare OperatorRegistry.symbolic_empty bare
    obtain ⟨w, tail, split, inner, ends⟩ := exists_front text.toList
    rw [← split] at worded hp other whole ⊢
    have nonempty : w ≠ [] := by
      rintro rfl
      obtain rfl : tail = c :: cs := whole
      rcases ends c rfl with blank | rfl
      · rw [unblank] at blank
        cases blank
      · have first : lexis.read true .word p = _ :=
          lex_delimiter hp (by decide : delimiter? .word ':' = some .colon) (by decide)
        have literal := Parser.kind_of_statementAt? found
        rw [first] at literal
        cases literal
    have first := lexis.read_front worded nonempty inner ends hp true
    have keyword : StatementKeyword.ofText? (String.ofList w) = some opening := by
      simp only [statementAt?, first, if_true] at found
      split at found
      · cases found
      · rename_i _ keyword
        split_ifs at found
        exact keyword.trans found
    have word : w = opening.text.toList := by
      rw [← StatementKeyword.text_of_ofText? keyword, String.toList_ofList]
    -- If the word ended at a blank, or with the text, then the printer would have seen it.
    obtain ⟨d, rest, rfl, blank⟩ : ∃ d rest, tail = d :: rest ∧ Text.isBlank d ≠ true := by
      by_contra unseen
      have seen : ∀ d ∈ tail.head?, Text.isBlank d = true := by
        intro d head
        by_contra blank
        obtain ⟨rest, rfl⟩ := List.head?_eq_some_iff.mp head
        exact unseen ⟨d, rest, rfl, blank⟩
      rw [firstWord_append nonempty (fun c member => (inner c member).1) seen, keyword] at other
      cases other
    obtain rfl := (ends d rfl).resolve_left blank
    exact word ▸ ⟨rest, by simp⟩
  · rintro ⟨more, split⟩
    rw [List.append_assoc] at split
    rw [← split] at worded hp
    obtain ⟨nonempty, inner⟩ := opening.toList_text
    have first := lexis.read_front worded nonempty inner (by simp) hp true
    have colon : (p.skip opening.text.toList.length).rest = ':' :: more := Place.rest_skip_of_append hp
    have behind : (lexis.behindName .word p).token.kind = .colon := by
      rw [behindName, first, read,
        lex_delimiter colon (by decide : delimiter? .word ':' = some .colon) (by decide)]
    simp [statementAt?, first, behind, StatementKeyword.ofText?_text, TokenKind.isOpener]

/-- A quoted text is read as no statement. -/
lemma statementAt?_quoted (quoted : isBare text .value ≠ true)
    (hp : p.rest = (printText .value text).toList) : lexis.statementAt? p = none := by
  have whole : p.rest = (quote text).toList ++ [] := by
    rw [hp, printText, if_neg quoted, List.append_nil]
  have first : lexis.read true .word p = _ := lex_quoted text whole
  simp [statementAt?, first]

/-- **The statement that a printed primitive is read as.** -/
theorem statementAt?_printText (hp : p.rest = (printText .value text).toList) :
    (∃ opening, lexis.statementAt? p = some opening) ↔ Mistakable text := by
  by_cases bare : isBare text .value = true
  · rw [printText, if_pos bare] at hp
    simp only [statementAt?_bare bare hp, Mistakable, bare, true_and]
  · simp [statementAt?_quoted bare hp, Mistakable, bare]

end Lexis

/-! ## The rest of a plain line -/

/-- **A line in which nothing is grouped, separated or quoted.** -/
def Unparted (cs : List Char) : Prop :=
  ∀ c ∈ cs, isSpecial c = false ∧ c ≠ '\n'

lemma Unparted.of_reaches {p q : Place} (unparted : Unparted p.rest) (reaches : p.Reaches q) :
    Unparted q.rest := by
  obtain ⟨count, rfl⟩ := reaches
  rw [Place.rest_skip]
  exact fun c member => unparted c (List.mem_of_mem_drop member)

/-- The words of such a line are literals and colons. -/
lemma Lexis.kind_of_unparted (lexis : Lexis) {p : Place} (unparted : Unparted p.rest)
    (skipBreaks : Bool) :
    (lexis.read skipBreaks .word p).token.kind.isOpener = false ∧
      (lexis.read skipBreaks .word p).token.kind.isCloser = false ∧
      (lexis.read skipBreaks .word p).token.kind ≠ .comma ∧
      (lexis.read skipBreaks .word p).token.kind ≠ .lineBreak := by
  have plain (kind : TokenKind) (among : kind ∈ [TokenKind.literal, .colon, .endOfInput, .openComment]) :
      kind.isOpener = false ∧ kind.isCloser = false ∧ kind ≠ .comma ∧ kind ≠ .lineBreak := by
    revert kind
    decide
  refine plain _ ?_
  have inside := unparted.of_reaches (reaches_begin skipBreaks p)
  rw [Place.begin] at inside
  rw [read, lex]
  cases skip : skipTrivia skipBreaks p with
  | openComment place => simp
  | token place =>
    rw [skip] at inside
    simp only [kind_lexHere (by decide : Mode.word ≠ .operation)]
    cases hrest : place.rest with
    | nil => simp
    | cons c rest =>
      obtain ⟨special, newline⟩ := inside c (by rw [TriviaEnd.place, hrest]; exact List.mem_cons_self)
      obtain ⟨-, double, single⟩ := of_not_special special
      by_cases colon : c = ':'
      · simp [colon, kindOf, (by decide : delimiter? .word ':' = some .colon)]
      · have none : delimiter? .word c = none :=
          delimiter?_eq_none special newline (fun h => absurd h colon) (by decide)
        simp [kindOf, none, double, single]

namespace Parser

variable {s t : ParserState} {options : CompileOptions} {resolver : Resolver}

/-- The end of a source is one whether or not line breaks are skipped in front of it. -/
lemma atEnd_of_reads (settled : s.Settled) (ends : (s.reads false .word).token.kind = .endOfInput) :
    AtEnd s := by
  have same : s.reads true .word = s.reads false .word := lex_true fun breaks => by
    have breaks : (s.reads false .word).token.kind = .lineBreak := breaks
    rw [ends] at breaks
    cases breaks
  exact ⟨settled, by rw [same, ends]⟩

/-- Skipping to a separator skips such a line. -/
lemma ends_skipToSeparator_unparted (fuel : Nat) (settled : s.Settled)
    (enough : s.here.rest.length < fuel) (unparted : Unparted s.here.rest) :
    Ends (skipToSeparator fuel none) s fun _ t => AtEnd t := by
  induction fuel generalizing s with
  | zero => exact absurd enough (Nat.not_lt_zero _)
  | succ fuel ih =>
    rw [skipToSeparator]
    refine (ends_peek settled false .word).bind fun token t settled looked => ?_
    obtain ⟨rfl, moves, stays, -⟩ := looked
    have same : t.reads false .word = s.reads false .word := by
      rw [ParserState.reads, moves.lexis, stays]
    by_cases done : (s.reads false .word).token.kind = .endOfInput
    · rw [if_pos done]
      exact .pure settled (atEnd_of_reads settled (by rw [same, done]))
    obtain ⟨opener, closer, comma, breaks⟩ := s.lexis.kind_of_unparted unparted false
    change (s.reads false .word).token.kind.isOpener = false at opener
    rw [if_neg done]
    refine .closesAwaited ?_
    rw [if_neg (by simp [ParserState.reads, closer])]
    refine (ends_skipToken settled false .word).bind fun _ u settled skipped => ?_
    obtain ⟨skipped, place, -⟩ := skipped
    rw [same] at place
    rw [if_neg (by simp [ParserState.reads, comma, breaks]), if_neg (by simp [opener])]
    have shorter := s.reads_shortens done
    refine ih settled (by rw [place]; omega) (place ▸ unparted.of_reaches (reaches_lex ..))

/-- So does recovering. -/
lemma ends_recover_unparted (settled : s.Settled) (unparted : Unparted s.here.rest) :
    Ends (recover none) s fun _ t => AtEnd t := by
  have began : ParserState.Settled { s with recovering := true } := settled_of_same settled rfl rfl
  obtain ⟨_, t, skip, ended, -, kind⟩ := ends_skipToSeparator_unparted (s.here.rest.length + 1) began
    (Nat.lt_succ_self _) unparted
  have quiet : ParserState.Settled { t with recovering := false } := settled_of_same ended rfl rfl
  exact ⟨(), _, recover_ok settled skip, quiet, quiet, kind⟩

/-- And so does giving a statement up. -/
lemma ends_giveUp_unparted (settled : s.Settled) (unparted : Unparted s.here.rest) (offset : Nat)
    (cause : Cause) : Ends (giveUp offset cause) s fun _ t => AtEnd t :=
  (ends_complain settled offset cause).bind fun _ _ settled noted =>
    ends_recover_unparted settled (noted.2.1 ▸ unparted)

/-- **Behind a statement the rest of such a line is skipped.** -/
lemma ends_endStatement_unparted (settled : s.Settled) (unparted : Unparted s.here.rest) :
    Ends endStatement s fun _ t => AtEnd t := by
  refine (ends_peek settled false .word).bind fun token t settled looked => ?_
  obtain ⟨rfl, moves, stays, -⟩ := looked
  obtain ⟨-, -, comma, breaks⟩ := s.lexis.kind_of_unparted unparted false
  rw [if_neg (by simp [ParserState.reads, comma, breaks])]
  split
  · rename_i ends
    exact .pure settled (atEnd_of_reads settled (by rw [ParserState.reads, moves.lexis, stays]; exact ends))
  · exact ends_giveUp_unparted settled (stays ▸ unparted) _ _

/-- What is left after a fault is such a line, too. -/
lemma ends_isolate_unparted (unparted : Unparted s.here.rest) (offset : Nat) (fault : Fault) :
    Ends (isolate offset fault) s fun _ t => AtEnd t := by
  have settled : ParserState.Settled { s with
      scope := none, depth := 0, recovering := false, suppressed := false, awaited := []
      tokens := s.tokens.forget } := ⟨rfl, trivial⟩
  obtain ⟨_, t, left, ends⟩ := ends_giveUp_unparted settled unparted offset (.fault fault.detail)
  exact ⟨(), t, left, ends⟩

/-- **A statement on such a line is all that is read**, and has no value. -/
theorem ends_roundFrom_unparted {opening : StatementKeyword} (between : Between s)
    (unparted : Unparted s.here.rest) (found : s.lexis.statementAt? s.here = some opening) :
    Ends (roundFrom options resolver (s.reads true .word).token) s fun added t =>
      added = [] ∧ AtEnd t := by
  have literal : (s.reads true .word).token.kind = .literal := kind_of_statementAt? found
  obtain ⟨-, leads⟩ := (throughout_travels options resolver).parseStatement
    (s.reads true .word).token s between.settled.coherent
  have outcome := (advances_parseStatement between :
    Advances (parseStatement options resolver (s.reads true .word).token) _ s).2
  rw [roundFrom, if_neg (by simp [literal]), if_neg (by simp [literal]),
    if_neg (by simp [literal, TokenKind.isCloser])]
  cases statement : parseStatement options resolver (s.reads true .word).token s with
  | ok value t =>
    rw [statement] at leads outcome
    have tried : attempt (parseStatement options resolver (s.reads true .word).token) s
        = .ok (.ok value) t := by rw [attempt, statement]
    obtain rfl : value = none := by
      cases value with
      | none => rfl
      | some node =>
        rw [statementAt?_of_value between.settled statement] at found
        cases found
    obtain ⟨_, u, ended, settled, ends⟩ :=
      ends_endStatement_unparted outcome.1 (unparted.of_reaches leads.reaches)
    exact ⟨[], u, by rw [bind_ok tried]; exact bind_ok ended, settled, rfl, ends⟩
  | error fault t =>
    rw [statement] at leads
    have tried : attempt (parseStatement options resolver (s.reads true .word).token) s
        = .ok (.error fault) t := by rw [attempt, statement]
    obtain ⟨_, u, left, settled, ends⟩ := ends_isolate_unparted (unparted.of_reaches leads.reaches)
      (s.reads true .word).token.start fault
    exact ⟨[], u, by rw [bind_ok tried]; exact bind_ok left, settled, rfl, ends⟩

/-- At the end of a source nothing is read. -/
lemma parseAll_of_atEnd (options : CompileOptions) (resolver : Resolver) (atEnd : AtEnd s) (fuel : Nat)
    (values : List Node) :
    ∃ t, parseAll options resolver (fuel + 1) values s = .ok values.reverse t := by
  obtain ⟨settled, ends⟩ := atEnd
  obtain ⟨_, t, looked, -, rfl, -⟩ := ends_peek settled true .word
  refine ⟨t.flush, ?_⟩
  rw [parseAll_succ, sourceRound_eq, bind_ok looked, if_pos ends, bind_ok (noteLexical_eq t)]
  rfl

/-- **A source that is one statement has no value.** -/
theorem values_compile_of_statement {source : Source} {imports : ImportState}
    {opening : StatementKeyword} (unparted : Unparted source.chars)
    (found : (startingLexis options).statementAt? (.start source.chars) = some opening) :
    (compile options resolver source imports).1.values = [] := by
  set s := initial options source imports with hs
  have found : s.lexis.statementAt? s.here = some opening := found
  have between : Between s := (outside_initial source imports).toBetween
  have literal : (s.reads true .word).token.kind = .literal := kind_of_statementAt? found
  have more : (s.reads true .word).token.kind ≠ .endOfInput := by rw [literal]; decide
  obtain ⟨_, t, looked, settled, rfl, moves, stays, -⟩ := ends_peek between.settled true .word
  have same : t.reads true .word = s.reads true .word := by
    rw [ParserState.reads, moves.lexis, stays]
  obtain ⟨_, u, round, -, rfl, ends⟩ : Ends (roundFrom options resolver (t.reads true .word).token) t _ :=
    ends_roundFrom_unparted (between.moved settled moves) (stays ▸ unparted)
      (by rw [moves.lexis, stays]; exact found)
  rw [same] at round
  obtain ⟨fuel, length⟩ : ∃ fuel, source.length = fuel + 1 := by
    have shorter := s.reads_shortens more
    exact ⟨source.length - 1, (Nat.sub_add_cancel (Nat.lt_of_le_of_lt (Nat.zero_le _) shorter)).symm⟩
  obtain ⟨v, rest⟩ := parseAll_of_atEnd options resolver ends fuel []
  have run : parseAll options resolver (source.length + 1) [] s = .ok [] v := by
    rw [parseAll_succ, sourceRound_of_more looked more, bind_ok round, length]
    exact rest
  simp only [compile, ← hs, run]
  rfl

end Parser

/-! ## Printed primitives -/

open TreeLang.Parser

/-- **Which primitives are read as they were printed**: all but those that are mistaken for statements.
Whatever the options, the text of any other one compiles without a report to that primitive alone; and
from the text of one that is mistaken no value is read. -/
theorem compileAlone_plain (options : CompileOptions) (name text : String) (imports : ImportState) :
    let compilation := (compileAlone options ⟨name, (Node.plain text).text⟩ imports).1
    (¬ Mistakable text → compilation.reports = [] ∧
      ∃ value, compilation.values = [value] ∧ value.strip = .plain text) ∧
    (Mistakable text → compilation.values = []) := by
  have start : (Place.start (Node.plain text).text.toList).rest = (printText .value text).toList := by
    rw [Node.text, Node.plain, Node.printAt]
    rfl
  refine ⟨fun unmistakable => ?_, fun mistakable => ?_⟩
  · have plain : (startingLexis options).Plain := by
      refine ⟨fun _ silent => silent, ?_⟩
      rw [startingLexis]
      split
      · exact OperatorRegistry.symbolic_defaults
      · exact OperatorRegistry.symbolic_empty
    obtain ⟨phrase, after, reads⟩ : ∃ phrase after, (startingLexis options).Reads options .value
        (.start (Node.plain text).text.toList) [] (.plain text) phrase after :=
      Lexis.reads_primitive plain options (.inl rfl) (fun _ => rfl)
        (start.trans (List.append_nil _).symm) trivial
    have ordinary : (startingLexis options).statementAt? _ = none :=
      Option.eq_none_iff_forall_ne_some.mpr fun opening found =>
        unmistakable (((startingLexis options).statementAt?_printText start).mp ⟨opening, found⟩)
    have whole : PhraseOf options (Node.plain text).text phrase :=
      ⟨⟨after, reads.atom, reads.rest⟩, ordinary, reads.complaints⟩
    obtain ⟨reports, value, values, stripped⟩ := compileAlone_of_phrase whole
    exact ⟨reports, value, values, stripped.trans reads.tree⟩
  · obtain ⟨opening, found⟩ := ((startingLexis options).statementAt?_printText start).mpr mistakable
    refine values_compile_of_statement ?_ found
    rw [printText, if_pos mistakable.1] at start
    have chars : (Source.mk name (Node.plain text).text).chars = text.toList := start
    rw [chars]
    exact (worded_of_isBare mistakable.1).chars

/-- For instance, a text that is taken for an import of what is unknown, one that is taken for an
operator, which goes unnoticed, and two that are not mistaken. -/
theorem compileAlone_plain_of_colons :
    let compiled (text : String) := (compileAlone {} ⟨"", (Node.plain text).text⟩ {}).1
    (compiled "use:x").values = [] ∧
      (compiled "use:x").reports = [.errorAt 3 (.unresolvedImport ":x" (.notFound ":x"))] ∧
      (compiled "operator:x as binary").values = [] ∧ (compiled "operator:x as binary").reports = [] ∧
      (compiled "use :x").reports = [] ∧ (compiled "used:x").reports = [] ∧
      ∃ value, (compiled "use :x").values = [value] ∧ value.strip = .plain "use :x" := by
  intro compiled
  have spaced := (compileAlone_plain {} "" "use :x" {}).1 (by decide)
  have longer := (compileAlone_plain {} "" "used:x" {}).1 (by decide)
  exact ⟨(compileAlone_plain {} "" "use:x" {}).2 (by decide), by decide +kernel,
    (compileAlone_plain {} "" "operator:x as binary" {}).2 (by decide), by decide +kernel,
    spaced.1, longer.1, spaced.2⟩

end TreeLang
