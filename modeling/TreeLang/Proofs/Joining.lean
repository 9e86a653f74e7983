import TreeLang.Proofs.Advancing
import TreeLang.Proofs.Extending
import TreeLang.Proofs.Keeping

/-!
# Texts joined line by line

A source that defines nothing is a sequence of values.  Two such sources, one behind the other with a
line break between them, are the values of the one and then those of the other: nothing that is read
at the end of the first looks over the line break, and the second is read where it stands as it is
read alone.

* `Lexis.Lines` — the values of a source, with a separator behind each.
* `Lines.append` — the lines of one text behind those of another.
* `Lines.runs` — the parser follows the lines of a source.
* `Parser.Reaches`, `Definitionless` — the states between two statements, and that no statement
  defines anything.
* `lines_of_compile` — a source that defines nothing and compiles without a report is lines.
* **`compile_lines`** — the values of two texts joined are those of the one and those of the other.
-/

namespace TreeLang

namespace Lexis

open TreeLang.Parser

variable {lexis : Lexis} {tail cs : List Char} {ahead : Nat} {mode : Mode} {p p' q : Place}

/-! ## Where a text ends -/

/-- Where the text ends there is nothing left of it. -/
lemma exists_end {skipBreaks : Bool}
    (ended : (lexis.read skipBreaks mode p).token.kind = .endOfInput) :
    ∃ q, skipTrivia skipBreaks p = .token q ∧ q.rest = [] := by
  simp only [read, lex] at ended
  split at ended
  · rename_i q reached
    refine ⟨q, reached, ?_⟩
    rcases kind_lexHere_cases lexis.operators lexis.policy mode q with ⟨empty, -⟩ | ⟨c, -, h⟩
    · exact empty
    · rw [ended] at h
      rcases h with delimits | ⟨-, worded⟩
      · cases delimiter?_sign delimits
      · cases worded
  · cases ended

/-- Where the text ends the longer one has its line break, behind which it goes on. -/
lemma Extends.exists_break (extend : lexis.Extends ('\n' :: cs)) {skipBreaks : Bool}
    (onto : p.Onto ahead ('\n' :: cs) p')
    (ended : (lexis.read skipBreaks mode p).token.kind = .endOfInput) :
    ∃ r, r.rest = '\n' :: cs ∧ skipTrivia skipBreaks p' = skipTrivia skipBreaks r := by
  obtain ⟨q, reached, empty⟩ := exists_end ended
  have skips := skipTrivia_onto extend.on skipBreaks onto.unescaped onto.carried
  rw [reached] at skips
  obtain ⟨r, carried, same, -⟩ := skips
  exact ⟨r, by rw [carried.rest, empty, List.nil_append], same⟩

/-- On the line where the text ends there is a line break in the longer one. -/
lemma Extends.read_break (extend : lexis.Extends ('\n' :: cs)) (onto : p.Onto ahead ('\n' :: cs) p')
    (ended : (lexis.read false .word p).token.kind = .endOfInput) :
    (lexis.read false .word p').token.kind = .lineBreak ∧
      lexis.admits (lexis.read false .word p') ∧
      (lexis.read false .word p').after.rest = cs ∧
      (lexis.read false .word p').after.previous = some '\n' := by
  obtain ⟨r, hr, same⟩ := extend.exists_break onto ended
  have here : lexis.read false .word p' = lexHere lexis.operators lexis.policy .word r := by
    rw [Lexis.read, lex, same, skipTrivia_cons hr, if_pos ⟨rfl, rfl⟩]
  have next : r.next = ⟨r.offset + 1, some '\n', cs⟩ := by rw [Place.next, hr]
  have token : lexHere lexis.operators lexis.policy .word r
      = ⟨⟨.lineBreak, "", r.offset, r.next.offset⟩, r.next, []⟩ := by rw [lexHere, hr]; rfl
  rw [extend.admits, here, token, next]
  exact ⟨rfl, rfl, rfl, rfl⟩

/-- Where breaks are skipped the longer text goes on behind its line break. -/
lemma Extends.leads (extend : lexis.Extends ('\n' :: cs)) (onto : p.Onto ahead ('\n' :: cs) p')
    (ended : (lexis.read true mode p).token.kind = .endOfInput) :
    ∃ r, lexis.Leads p' r ∧ r.rest = cs ∧ r.previous = some '\n' := by
  obtain ⟨r, hr, same⟩ := extend.exists_break onto ended
  have next : r.next = ⟨r.offset + 1, some '\n', cs⟩ := by rw [Place.next, hr]
  refine ⟨r.next, fun mode => ?_, by rw [next], by rw [next]⟩
  have skipped : skipTrivia true r = skipTrivia true r.next := by
    rw [skipTrivia_cons hr, if_neg (by simp), if_pos (by decide)]
  rw [Lexis.read, Lexis.read, lex, lex, same, skipped]

/-! ## Statements -/

/-- What begins no statement begins none in the longer text. -/
lemma Extends.statementAt?_none (extend : lexis.Extends tail) (onto : p.Onto ahead tail p')
    (meets : lexis.MeetsHead .word p) (more : (lexis.read true .word p).token.kind ≠ .endOfInput)
    (ordinary : lexis.statementAt? p = none) : lexis.statementAt? p' = none := by
  have first := extend.read onto meets.1 more
  simp only [statementAt?, first.token, Token.shift] at ordinary ⊢
  cases keyword : (if (lexis.read true .word p).token.kind = .literal then
      StatementKeyword.ofText? (lexis.read true .word p).token.content else none) with
  | none => rfl
  | some opening =>
    have text : (lexis.read true .word p).token.kind.isText := by
      split_ifs at keyword with literal
      rw [literal]
      rfl
    rw [keyword] at ordinary
    rcases extend.lookBehind meets text first with second | ⟨ended, breaks, -⟩
    · simpa only [second.token, Token.shift, Nat.add_right_cancel_iff] using ordinary
    · simp [breaks]

lemma statementAt?_of_leads (leads : lexis.Leads p q) : lexis.statementAt? p = lexis.statementAt? q := by
  rw [statementAt?, statementAt?, behindName, behindName, leads .word]

/-! ## Lines -/

/-- **The lines of a source**: values with separators between them, up to the end. -/
inductive Lines (lexis : Lexis) : Place → List Phrase → Prop
  | done {p : Place} (ended : (lexis.read true .word p).token.kind = .endOfInput)
      (met : lexis.admits (lexis.read true .word p)) : Lines lexis p []
  | more {phrase : Phrase} {rest : List Phrase} {p q r : Place}
      (ordinary : lexis.statementAt? p = none) (value : Atom lexis .value true p phrase q)
      (separated : lexis.Separated .word .endOfInput q r) (others : Lines lexis r rest) :
      Lines lexis p (phrase :: rest)

variable {phrases others : List Phrase}

lemma Lines.of_leads (leads : lexis.Leads p q) (lines : Lines lexis q phrases) :
    Lines lexis p phrases := by
  cases lines with
  | done ended met =>
    rw [← leads .word] at ended met
    exact .done ended met
  | more ordinary value separated others =>
    exact .more ((statementAt?_of_leads leads).trans ordinary) (value.of_leads leads) separated others

/-- Where a value begins the source does not end. -/
lemma more_of_value {expands : Bool} {phrase : Phrase} (value : Atom lexis .value expands p phrase q) :
    (lexis.read true .word p).token.kind ≠ .endOfInput := by
  have opens := value.opensStatement
  intro ended
  rw [ended] at opens
  cases opens

/-- At the end of a source there are no lines. -/
lemma Lines.nil_of_end (lines : Lines lexis p phrases)
    (ended : (lexis.read true .word p).token.kind = .endOfInput) : phrases = [] := by
  cases lines with
  | done => rfl
  | more _ value => exact absurd ended (more_of_value value)

/-- A separator is the same in the longer text, unless it is the end. -/
lemma Extends.separates (extend : lexis.Extends tail) (onto : p.Onto ahead tail p')
    (separated : lexis.Separated .word .endOfInput p q)
    (more : (lexis.read false .word p).token.kind ≠ .endOfInput) :
    ∃ q', q.Onto ahead tail q' ∧ lexis.Separated .word .endOfInput p' q' := by
  obtain ⟨met, ⟨kind, rfl⟩ | ⟨kind, -⟩⟩ := separated
  · have same := extend.read onto met more
    exact ⟨_, same.after, same.met, .inl ⟨by rwa [same.kind], rfl⟩⟩
  · exact absurd kind more

/-- **The lines of a text are those of the same text elsewhere.** -/
theorem Lines.elsewhere (extend : lexis.Extends []) (lines : Lines lexis p phrases)
    (onto : p.Onto ahead [] p') : Lines lexis p' (phrases.map (·.shift ahead)) := by
  induction lines generalizing p' with
  | done ended met =>
    have same := extend.same onto met
    exact .done (same.kind.trans ended) same.met
  | more ordinary value separated _ ih =>
    obtain ⟨q', moved, value'⟩ := Atom.onto extend value (.inl rfl) onto
    have ordinary' := extend.statementAt?_none onto value.meetsHead (more_of_value value) ordinary
    have same := extend.same moved separated.1
    obtain ⟨-, ⟨kind, rfl⟩ | ⟨kind, rfl⟩⟩ := separated
    · exact .more ordinary' value' ⟨same.met, .inl ⟨by rwa [same.kind], rfl⟩⟩ (ih same.after)
    · exact .more ordinary' value' ⟨same.met, .inr ⟨same.kind.trans kind, rfl⟩⟩ (ih moved)

/-- What may be said of a text that goes on may be said of one that does not. -/
lemma Extends.alone (extend : lexis.Extends tail) : lexis.Extends [] :=
  ⟨.inl rfl, fun more => absurd rfl more, extend.admits⟩

/-- Behind a line break a text is read as it is read alone. -/
lemma Lines.behind_break (extend : lexis.Extends []) (lines : Lines lexis (.start cs) phrases)
    (rest : p.rest = cs) (previous : p.previous = some '\n') :
    Lines lexis p (phrases.map (·.shift p.offset)) := by
  refine lines.elsewhere extend ⟨⟨?_, ?_, ?_⟩, fun more => absurd rfl more⟩
  · simp [Place.start, rest]
  · simp [Place.start]
  · rw [previous]
    rfl

/-- **The lines of a text with another text behind it** are those of the one and those of the other. -/
theorem Lines.append (extend : lexis.Extends ('\n' :: cs)) (lines : Lines lexis p phrases)
    (behind : Lines lexis (.start cs) others) (onto : p.Onto ahead ('\n' :: cs) p') :
    ∃ further, Lines lexis p' (phrases.map (·.shift ahead) ++ others.map (·.shift further)) := by
  induction lines generalizing p' with
  | done ended met =>
    obtain ⟨r, leads, rest, previous⟩ := extend.leads onto ended
    exact ⟨r.offset, (behind.behind_break extend.alone rest previous).of_leads leads⟩
  | @more phrase phrases p q r ordinary value separated rest ih =>
    obtain ⟨q', moved, value'⟩ := Atom.onto extend value (.inl rfl) onto
    have ordinary' := extend.statementAt?_none onto value.meetsHead (more_of_value value) ordinary
    by_cases ended : (lexis.read false .word q).token.kind = .endOfInput
    · obtain ⟨kind, met, after, previous⟩ := extend.read_break moved ended
      obtain rfl : r = q := by
        obtain ⟨-, ⟨separates, -⟩ | ⟨-, same⟩⟩ := separated
        · simp [ended] at separates
        · exact same
      have last : phrases = [] := rest.nil_of_end <| by
        have skips : lexis.read true .word r = lexis.read false .word r :=
          lex_true fun breaks => by
            rw [← read, ended] at breaks
            cases breaks
        rw [skips, ended]
      subst last
      exact ⟨_, .more ordinary' value' ⟨met, .inl ⟨.inr kind, rfl⟩⟩
        (behind.behind_break extend.alone after previous)⟩
    · obtain ⟨r', onto, separated'⟩ := extend.separates moved separated ended
      obtain ⟨further, others'⟩ := ih onto
      exact ⟨further, .more ordinary' value' separated' others'⟩

/-! ## The parser follows the lines -/

variable {options : CompileOptions} {resolver : Resolver} {s : ParserState}

/-- **The values of a source are read line by line**, where no macro answers. -/
theorem Lines.runs (silent : lexis.Silent) (lines : Lines lexis p phrases) (governs : lexis.Governs s)
    (quiet : Quiet s) (rests : s.suppressed = false) {fuel : Nat} (enough : p.rest.length < fuel)
    (values : List Node) :
    ∃ nodes t, Runs (parseAll options resolver fuel values) (s.moveTo p) (values.reverse ++ nodes) t ∧
      nodes.map Node.strip = phrases.map (·.tree options) ∧
      t.reports = s.reports ++ phrases.flatMap (·.complaints options) := by
  induction lines generalizing s fuel values with
  | @done p ended met =>
    obtain ⟨fuel, rfl⟩ : ∃ f, fuel = f + 1 := ⟨fuel - 1, by omega⟩
    refine ⟨[], s.moveTo p, ?_, rfl, by simp [ParserState.moveTo]⟩
    rw [List.append_nil]
    exact runs_parseAll_end governs ended (silent _ met)
  | @more phrase phrases p q r ordinary value separated others ih =>
    obtain ⟨fuel, rfl⟩ : ∃ f, fuel = f + 1 := ⟨fuel - 1, by omega⟩
    obtain ⟨node, t, made, stripped, still, reports⟩ := gives_make options phrase quiet
    have governs' := governs.made (nodewise_make options phrase) made
    have rests' := ((nodewise_make options phrase).suppressed_eq made).trans rests
    have quiet' : Quiet t := by
      obtain ⟨change, rfl, -⟩ := (nodewise_make options phrase).exists_change made
      exact ⟨quiet.macros, still.depth, still.recovering⟩
    have ended : Runs endStatement (t.moveTo q) () (t.moveTo r) := by
      obtain ⟨met, ⟨kind, rfl⟩ | ⟨kind, rfl⟩⟩ := separated
      · exact runs_endStatement_separator governs' kind.symm (silent _ met)
      · exact runs_endStatement_end governs' kind (silent _ met)
    have shorter : r.rest.length < fuel := by
      have passed := separated.le
      have begun := value.shortens
      omega
    obtain ⟨nodes, u, runs, trees, complaints⟩ := ih governs' quiet' rests' shorter (node :: values)
    refine ⟨node :: nodes, u, ?_, by simp [stripped, trees], ?_⟩
    · rw [List.reverse_cons, List.append_assoc] at runs
      exact runs_parseAll_round governs (silent _ value.meetsHead.1) value.opensStatement
        (runs_parseStatement_atom silent governs rests ordinary value made) ended runs
    · rw [complaints, reports]
      exact Array.ext' (by simp)

end Lexis

namespace Parser

variable {options : CompileOptions} {resolver : Resolver} {s t u : ParserState} {values : List Node}

/-! ## The states between two statements -/

/-- **The states between two statements** that a parser comes to, round by round. -/
inductive Reaches (options : CompileOptions) (resolver : Resolver) : ParserState → ParserState → Prop
  | here (s : ParserState) : Reaches options resolver s s
  | round {s t u : ParserState} {values result : List Node}
      (more : (s.reads true .word).token.kind ≠ .endOfInput)
      (run : sourceRound options resolver pure values s = .ok result t)
      (others : Reaches options resolver t u) : Reaches options resolver s u

/-- **No statement of a source defines anything**: none begins as a definition statement. -/
def Definitionless (options : CompileOptions) (resolver : Resolver) (source : Source)
    (imports : ImportState) : Prop :=
  ∀ s, Reaches options resolver (initial options source imports) s →
    s.lexis.statementAt? s.here = none

/-! ## Rounds that define nothing -/

/-- **Between two statements of a source that defined nothing so far.** -/
structure Undefined (s : ParserState) : Prop extends Outside s where
  macros : s.visible.macros = .empty
  rests : s.suppressed = false
  heard : s.Heard

lemma Undefined.moved (undefined : Undefined s) (settled : t.Settled) (moves : Moves s t) :
    Undefined t :=
  ⟨undefined.toOutside.moved settled moves, by rw [moves.visible]; exact undefined.macros,
    moves.suppressed.trans undefined.rests, moves.heard undefined.heard⟩

/-- Where no macro is in force a value is read from anything. -/
lemma Undefined.ready (undefined : Undefined s) : Ready (Kept fun _ => True) s [] :=
  ⟨undefined.settled, undefined.attends,
    ⟨by simp [Armed, undefined.macros, MacroRegistry.empty], undefined.shallow, by simp⟩⟩

lemma upkeep_any (options : CompileOptions) : Upkeep options (Kept fun _ => True) fun _ => True :=
  upkeep_kept options ⟨⟨by simp, by simp, by simp, by simp⟩, by simp, by simp, by simp, by simp⟩

/-- An open comment is reported. -/
lemma reports_of_openComment {lexis : Lexis} {skipBreaks : Bool} {mode : Mode} {p : Place}
    (kind : (lexis.read skipBreaks mode p).token.kind = .openComment) :
    (lexis.read skipBreaks mode p).reports ≠ [] := by
  simp only [Lexis.read, lex] at kind ⊢
  split at kind
  · rename_i q _
    rcases kind_lexHere_cases lexis.operators lexis.policy mode q with ⟨-, ends⟩ | ⟨c, -, h⟩
    · rw [ends] at kind
      cases kind
    · rw [kind] at h
      rcases h with delimits | ⟨-, worded⟩
      · cases delimiter?_sign delimits
      · cases worded
  · simp

/-- A statement that is given up does not go unnoticed. -/
lemma ends_giveUp_told (settled : s.Settled) (attends : s.recovering = false) (offset : Nat)
    (cause : Cause) : Ends (giveUp offset cause) s fun _ t => Moves s t ∧ ¬ t.Clean := by
  refine (ends_complain settled offset cause).bind fun _ t settled noted => ?_
  obtain ⟨moves, -, told⟩ := noted
  refine (ends_recover none settled (moves.recovering.trans attends) (told attends)).mono
    fun _ u recovered => ⟨moves.trans recovered.1, fun clean => ?_⟩
  exact told attends (recovered.1.clean clean).1

/-- Where nothing is wrong behind a statement there is a separator or the end. -/
lemma ends_endStatement_separated (settled : s.Settled) (attends : s.recovering = false) :
    Ends endStatement s fun _ t => Moves s t ∧
      (t.Clean → s.lexis.Separated .word .endOfInput s.here t.here) := by
  refine (ends_peek settled false .word).bind fun token t settled looked => ?_
  obtain ⟨rfl, moves, stays, clean⟩ := looked
  have same : t.reads false .word = s.reads false .word := by
    rw [ParserState.reads, moves.lexis, stays]
  split
  · rename_i separates
    refine (ends_skipToken settled false .word).mono fun _ u skipped => ?_
    obtain ⟨skipped, place, quiet⟩ := skipped
    rw [same] at place quiet
    exact ⟨moves.trans skipped,
      fun h => ⟨quiet h, .inl ⟨Or.symm (by simpa using separates), place⟩⟩⟩
  split
  · rename_i ends
    exact .pure settled ⟨moves, fun h => ⟨clean h, .inr ⟨ends, stays⟩⟩⟩
  · exact (ends_giveUp_told settled (moves.recovering.trans attends) _ _).mono fun _ u left =>
      ⟨moves.trans left.1, fun clean => absurd clean left.2⟩

/-- **One round of a source that defines nothing.**  At the end of the source the values are answered;
anywhere else the source goes on, and where nothing is wrong it does so behind a value. -/
lemma round_of_undefined (options : CompileOptions) (resolver : Resolver) (undefined : Undefined s)
    (ordinary : s.lexis.statementAt? s.here = none) :
    ((s.reads true .word).token.kind = .endOfInput ∧ ∃ t,
        (∀ next values, sourceRound options resolver next values s = .ok values.reverse t) ∧
        (t.reports = #[] → s.Clean ∧ (s.reads true .word).reports = [])) ∨
      (s.reads true .word).token.kind ≠ .endOfInput ∧ ∃ added t,
        (∀ next values, sourceRound options resolver next values s = next (added ++ values) t) ∧
        Undefined t ∧ t.lexis = s.lexis ∧
        (t.Clean → s.Clean ∧ ∃ phrase q, s.lexis.Atom .value true s.here phrase q ∧
          s.lexis.Separated .word .endOfInput q t.here) := by
  obtain ⟨token, u, hpeek, settled, rfl, looked, stays, clean⟩ :=
    ends_peek undefined.settled true .word
  have undefined' := undefined.moved settled looked
  have same : u.reads true .word = s.reads true .word := by
    rw [ParserState.reads, looked.lexis, stays]
  simp only [sourceRound, bind_ok hpeek]
  -- What is taken and complained of.
  have skips (cause : Option Cause) (faulty : cause = none → (s.reads true .word).reports ≠ []) :
      ∃ t, (∀ (next : List Node → Parser (List Node)) values,
          (skipToken true .word >>= fun _ => cause.elim (next values) fun cause =>
            complain (s.reads true .word).token.start cause >>= fun _ => next values) u
              = next values t) ∧
        Undefined t ∧ t.lexis = s.lexis ∧ ¬ t.Clean := by
    obtain ⟨_, v, hskip, settled, skipped, -, quiet⟩ := ends_skipToken settled true .word
    have undefined' := undefined'.moved settled skipped
    have lexis : v.lexis = s.lexis := (skipped.lexis).trans looked.lexis
    cases cause with
    | none =>
      refine ⟨v, fun next values => bind_ok hskip, undefined', lexis, fun clean => faulty rfl ?_⟩
      rw [← same]
      exact quiet clean
    | some cause =>
      obtain ⟨_, w, hcomplain, settled, noted, -, told⟩ :=
        ends_complain settled (s.reads true .word).token.start cause
      refine ⟨w, fun next values => by
        simp only [bind_ok hskip, Option.elim_some, bind_ok hcomplain],
        undefined'.moved settled noted, noted.lexis.trans lexis, fun clean => ?_⟩
      exact told undefined'.attends clean.1
  by_cases ended : (s.reads true .word).token.kind = .endOfInput
  · refine .inl ⟨ended, u.flush, fun next values => ?_, fun silent => ?_⟩
    · rw [if_pos ended, bind_ok (noteLexical_eq u)]
      rfl
    · have joined : u.reports ++ u.tokens.reports = #[] := by
        simpa [ParserState.flush, undefined'.attends] using silent
      have parts := congrArg Array.toList joined
      rw [Array.toList_appendList] at parts
      obtain ⟨none, waiting⟩ := List.append_eq_nil_iff.mp parts
      have calm := undefined'.heard.clean undefined'.attends (Array.toList_eq_nil_iff.mp none) waiting
      exact ⟨looked.clean calm, clean calm⟩
  refine .inr ⟨ended, ?_⟩
  simp only [if_neg ended]
  by_cases comma : (s.reads true .word).token.kind = .comma
  · obtain ⟨t, run, undefined, lexis, dirty⟩ :=
      skips (some .redundantComma) (absurd · (Option.some_ne_none _))
    simp only [if_pos comma]
    exact ⟨[], t, run, undefined, lexis, fun clean => absurd clean dirty⟩
  by_cases comment : (s.reads true .word).token.kind = .openComment
  · obtain ⟨t, run, undefined, lexis, dirty⟩ := skips none fun _ => reports_of_openComment comment
    simp only [if_neg comma, if_pos comment]
    exact ⟨[], t, run, undefined, lexis, fun clean => absurd clean dirty⟩
  by_cases closer : (s.reads true .word).token.kind.isCloser = true
  · obtain ⟨t, run, undefined, lexis, dirty⟩ :=
      skips (some (.unexpectedCloser _)) (absurd · (Option.some_ne_none _))
    simp only [if_neg comma, if_neg comment, if_pos closer]
    exact ⟨[], t, run, undefined, lexis, fun clean => absurd clean dirty⟩
  simp only [if_neg comma, if_neg comment, if_neg closer]
  rw [← stays, ← looked.lexis] at ordinary
  obtain ⟨value, v, hstatement, settled, node, rfl, done⟩ : Ends (parseStatement options resolver
      (u.reads true .word).token) u _ :=
    ends_parseStatement_value (upkeep_any options) undefined'.ready undefined'.rests ordinary
  rw [same] at hstatement
  have tried : attempt (parseStatement options resolver (s.reads true .word).token) u
      = .ok (.ok (some node)) v := by rw [attempt, hstatement]
  have attends := done.passes.recovering.trans undefined'.attends
  obtain ⟨_, t, hended, settled, left, separated⟩ := ends_endStatement_separated settled attends
  have passes := done.passes.trans left.toPasses
  refine ⟨[node], t, fun next values => by simp only [bind_ok tried, bind_ok hended]; rfl,
    ⟨⟨⟨settled, passes.recovering.trans undefined'.attends, ?_⟩,
      passes.awaited.trans undefined'.awaited⟩, ?_, left.suppressed.trans done.rests,
      passes.heard undefined'.heard⟩, passes.lexis.trans looked.lexis, fun calm => ?_⟩
  · rw [left.depth]
    exact done.holds.shallow
  · rw [passes.visible]
    exact undefined'.macros
  · have before := left.clean calm
    obtain ⟨phrase, atom⟩ := done.derives before
    rw [done.passes.lexis, looked.lexis] at separated
    rw [looked.lexis, stays] at atom
    exact ⟨looked.clean (done.passes.clean before), phrase, _, atom, separated calm⟩

/-- **A source that defines nothing and about which there is nothing to report is lines.** -/
theorem exists_lines (undefined : Undefined s)
    (ordinary : ∀ t, Reaches options resolver s t → t.lexis.statementAt? t.here = none) {fuel : Nat}
    {result : List Node} (run : parseAll options resolver fuel values s = .ok result u)
    (silent : u.reports = #[]) : s.Clean ∧ ∃ phrases, s.lexis.Lines s.here phrases := by
  induction fuel generalizing s values with
  | zero => cases run
  | succ fuel ih =>
    rw [parseAll_succ] at run
    rcases round_of_undefined options resolver undefined (ordinary s (.here s)) with
      ⟨ended, t, round, clean⟩ | ⟨more, added, t, round, undefined', lexis, goes⟩
    · rw [round] at run
      obtain ⟨rfl, rfl⟩ : values.reverse = result ∧ t = u := by simpa using run
      exact ⟨(clean silent).1, [], .done ended (clean silent).2⟩
    · rw [round] at run
      obtain ⟨clean, phrases, lines⟩ := ih undefined'
        (fun v reaches => ordinary v (.round more (round pure []) reaches)) run
      obtain ⟨before, phrase, q, atom, separated⟩ := goes clean
      rw [lexis] at lines
      exact ⟨before, phrase :: phrases, .more (ordinary s (.here s)) atom separated lines⟩

/-- Whether no statement defines anything, as far as a number of rounds shows. -/
def definitionless (options : CompileOptions) (resolver : Resolver) : Nat → ParserState → Bool
  | 0, _ => false
  | rounds + 1, s =>
    if (s.reads true .word).token.kind = .endOfInput then true
    else (s.lexis.statementAt? s.here).isNone &&
      match sourceRound options resolver pure [] s with
      | .ok _ t => definitionless options resolver rounds t
      | .error _ _ => true

/-- At the end of a source no statement begins. -/
lemma statementAt?_of_end {lexis : Lexis} {p : Place}
    (ended : (lexis.read true .word p).token.kind = .endOfInput) : lexis.statementAt? p = none := by
  simp [Lexis.statementAt?, ended]

/-- What the rounds show holds for every state that is reached. -/
lemma ordinary_of_definitionless {rounds : Nat} (undefined : Undefined s)
    (check : definitionless options resolver rounds s = true) (reaches : Reaches options resolver s t) :
    t.lexis.statementAt? t.here = none := by
  induction rounds generalizing s with
  | zero => cases check
  | succ rounds ih =>
    rw [definitionless] at check
    by_cases ended : (s.reads true .word).token.kind = .endOfInput
    · cases reaches with
      | here => exact statementAt?_of_end ended
      | round more => exact absurd ended more
    · rw [if_neg ended, Bool.and_eq_true, Option.isNone_iff_eq_none] at check
      obtain ⟨ordinary, check⟩ := check
      rcases round_of_undefined options resolver undefined ordinary with
        ⟨ends, -⟩ | ⟨-, added, u, round, undefined', -⟩
      · exact absurd ends ended
      cases reaches with
      | here => exact ordinary
      | round _ run others =>
        rw [round] at check run
        cases run
        exact ih undefined' check others

end Parser

/-! ## Compilations -/

open TreeLang.Parser

variable {options : CompileOptions} {resolver : Resolver} {imports : ImportState}

lemma undefined_initial (source : Source) : Undefined (initial options source imports) :=
  ⟨outside_initial _ _, rfl, rfl, .inr (.inr (.inr rfl))⟩

/-- **A source that defines nothing and compiles without a report is lines.** -/
theorem lines_of_compile {source : Source}
    (definitionless : Definitionless options resolver source imports)
    (clean : (compile options resolver source imports).1.reports = []) :
    ∃ phrases, (startingLexis options).Lines (.start source.chars) phrases := by
  obtain ⟨values, t, run, -⟩ := (parse_descends_to_end options resolver).1 source imports
  have silent : t.reports = #[] := by
    simp only [compile, run] at clean
    exact Array.toList_eq_nil_iff.mp clean
  exact (exists_lines (undefined_initial source) definitionless run silent).2

/-- The values and the reports of a source that is lines. -/
theorem compile_of_lines (options : CompileOptions) (resolver : Resolver) (imports : ImportState)
    {source : Source} {phrases : List Phrase}
    (lines : (startingLexis options).Lines (.start source.chars) phrases) :
    let compilation := (compile options resolver source imports).1
    compilation.values.map Node.strip = phrases.map (·.tree options) ∧
      compilation.reports = phrases.flatMap (·.complaints options) := by
  have governs : (startingLexis options).Governs (initial options source imports) := governs_initial
  obtain ⟨nodes, t, runs, trees, reports⟩ : ∃ nodes t, Runs (parseAll options resolver
      (source.length + 1) []) (initial options source imports) nodes t ∧ _ :=
    lines.runs (fun _ h => h) governs quiet_initial rfl (Nat.lt_succ_self source.length) []
  obtain ⟨values, reported⟩ := compile_of_runs runs
  refine ⟨by rw [values]; exact trees, reported.trans ?_⟩
  rw [reports]
  simp [initial]

/-- Over a line break no operator of the standard ones reaches. -/
lemma extends_startingLexis (options : CompileOptions) (cs : List Char) :
    (startingLexis options).Extends ('\n' :: cs) := by
  refine ⟨.inr ⟨cs, rfl⟩, fun _ => ?_, fun _ => .rfl⟩
  unfold startingLexis
  dsimp only
  split
  · decide +kernel
  · exact fun op member => nomatch member

/-- **Compilation is compositional over lines.**  Two texts that define nothing and compile without a
report compile without one behind each other, to the values of the first and those of the second,
unless a backslash at the end of the first joins the lines. -/
theorem compile_lines {name first second : String}
    (definitionless : Definitionless options resolver ⟨name, first⟩ imports)
    (definitionless' : Definitionless options resolver ⟨name, second⟩ imports)
    (clean : (compile options resolver ⟨name, first⟩ imports).1.reports = [])
    (clean' : (compile options resolver ⟨name, second⟩ imports).1.reports = [])
    (ends : first.toList.getLast? ≠ some '\\') :
    let whole := (compile options resolver ⟨name, first ++ "\n" ++ second⟩ imports).1
    whole.reports = [] ∧ whole.values.map Node.strip
      = (compile options resolver ⟨name, first⟩ imports).1.values.map Node.strip ++
        (compile options resolver ⟨name, second⟩ imports).1.values.map Node.strip := by
  obtain ⟨phrases, lines⟩ := lines_of_compile definitionless clean
  obtain ⟨others, lines'⟩ := lines_of_compile definitionless' clean'
  have onto : (Place.start first.toList).Onto 0 ('\n' :: second.toList)
      (.start (Source.chars ⟨name, first ++ "\n" ++ second⟩)) :=
    ⟨⟨by simp [Place.start, Source.chars], rfl, rfl⟩, fun _ => ends⟩
  obtain ⟨further, joined⟩ := lines.append (extends_startingLexis options _) lines' onto
  obtain ⟨values, reports⟩ := compile_of_lines options resolver imports lines
  obtain ⟨values', reports'⟩ := compile_of_lines options resolver imports lines'
  obtain ⟨wholeValues, wholeReports⟩ := compile_of_lines options resolver imports joined
  have silent : ∀ phrase ∈ phrases, phrase.complaints options = [] :=
    List.flatMap_eq_nil_iff.mp (reports.symm.trans clean)
  have silent' : ∀ phrase ∈ others, phrase.complaints options = [] :=
    List.flatMap_eq_nil_iff.mp (reports'.symm.trans clean')
  refine ⟨wholeReports.trans (List.flatMap_eq_nil_iff.mpr fun phrase member => ?_), ?_⟩
  · rcases List.mem_append.mp member with member | member
    all_goals
      obtain ⟨original, known, rfl⟩ := List.mem_map.mp member
      rw [Phrase.complaints_shift]
    · rw [silent original known, List.map_nil]
    · rw [silent' original known, List.map_nil]
  · rw [wholeValues, values, values']
    simp [Phrase.tree_shift, Function.comp_def]

/-- What the rounds show of a source. -/
lemma definitionless_of_rounds {source : Source} (rounds : Nat)
    (check : definitionless options resolver rounds (initial options source imports) = true) :
    Definitionless options resolver source imports :=
  fun _ reaches => ordinary_of_definitionless (undefined_initial source) check reaches

/-- For instance, a first text that ends in a keyword and a comment, and a second one that begins with
a colon and goes on behind a backslash. -/
theorem compile_lines_of_open_ends :
    let first := "f[a, 'b c']\nuse // macro"
    let second := ": b\n\"use\" \\\n, x"
    let whole := (compile {} (tableResolver []) ⟨"", first ++ "\n" ++ second⟩ {}).1
    first.toList.getLast? ≠ some '\\' ∧ whole.reports = [] ∧ whole.values.map Node.strip
      = (compile {} (tableResolver []) ⟨"", first⟩ {}).1.values.map Node.strip ++
        (compile {} (tableResolver []) ⟨"", second⟩ {}).1.values.map Node.strip := by
  intro first second whole
  have ends : first.toList.getLast? ≠ some '\\' := by decide +kernel
  exact ⟨ends, compile_lines (definitionless_of_rounds 5 (by decide +kernel))
    (definitionless_of_rounds 5 (by decide +kernel)) (by decide +kernel) (by decide +kernel) ends⟩

end TreeLang
