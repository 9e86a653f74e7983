import TreeLang.Proofs.Outlasting
import TreeLang.Proofs.Resting

/-!
# Lines behind a source

A source about which there is nothing to report is read in a longer text as it is read alone, and then
the parser goes on behind the line break with everything that it knows by then.

* `Yields.parseStatement`, `parts_parseStatement` — a statement is the same in the longer text.
* `Through` — the first parser has read its text, the second one goes on behind the line break.
* `Beside.round` — one round of both, where nothing is reported.
* **`Beside.run`** — the whole text, where no operator reaches over a line break.
-/

namespace TreeLang

namespace Lexis

variable {lexis : Lexis} {cs : List Char} {p p' q : Place}

/-- The place of the line break with which the longer text goes on. -/
lemma Extends.stands_at_break (extend : lexis.Extends ('\n' :: cs)) (onto : p.Onto 0 ('\n' :: cs) p')
    {skipBreaks : Bool} (reached : skipTrivia skipBreaks p = .token q) (empty : q.rest = []) :
    ∃ previous, let r : Place := ⟨q.offset, previous, '\n' :: cs⟩
      skipTrivia skipBreaks p' = skipTrivia skipBreaks r ∧ r.next = ⟨q.offset + 1, some '\n', cs⟩ := by
  have skips := skipTrivia_onto extend.on skipBreaks onto.unescaped onto.carried
  rw [reached] at skips
  obtain ⟨⟨offset, previous, rest⟩, carried, same, -⟩ := skips
  obtain rfl : rest = '\n' :: cs := by simpa [empty] using carried.rest
  obtain rfl : offset = q.offset := carried.offset
  exact ⟨previous, same, rfl⟩

/-- Where breaks are skipped the longer text goes on behind its line break. -/
lemma Extends.skips_behind (extend : lexis.Extends ('\n' :: cs)) (onto : p.Onto 0 ('\n' :: cs) p')
    (reached : skipTrivia true p = .token q) (empty : q.rest = []) :
    skipTrivia true p' = skipTrivia true ⟨q.offset + 1, some '\n', cs⟩ := by
  obtain ⟨previous, same, next⟩ := extend.stands_at_break onto reached empty
  rw [same, ← next, skipTrivia_cons rfl, if_neg (by simp), if_pos (by decide)]

/-- Where breaks are not skipped the line break is there. -/
lemma Extends.read_behind (extend : lexis.Extends ('\n' :: cs)) (onto : p.Onto 0 ('\n' :: cs) p')
    (reached : skipTrivia false p = .token q) (empty : q.rest = []) :
    (lexis.read false .word p').reports = [] ∧
      (lexis.read false .word p').after = ⟨q.offset + 1, some '\n', cs⟩ := by
  obtain ⟨previous, same, next⟩ := extend.stands_at_break onto reached empty
  rw [Lexis.read, lex, same, skipTrivia_cons rfl, if_pos ⟨rfl, rfl⟩]
  exact ⟨rfl, next⟩

/-- The end of a line with which the text ends is the end of the text. -/
lemma skips_to_end (reached : skipTrivia false p = .token q) (empty : q.rest = []) :
    skipTrivia true p = .token q := by
  rw [skipTrivia_true, reached]
  rintro after same
  rw [reached] at same
  cases same
  simp [empty]

end Lexis

namespace Parser

variable {α β : Type} {s t u v : ParserState} {cs : List Char} {options : CompileOptions}
  {resolver : Resolver} {values : List Node}

/-! ## Statements -/

/-- **A statement begins for both parsers**, or for none. -/
lemma continues_statementKeyword? (token : Token) :
    Continues (Begun cs true) (Begun cs true) (statementKeyword? token) (statementKeyword? token) := by
  rw [statementKeyword?]
  cases if token.kind = .literal then StatementKeyword.ofText? token.content else none with
  | none => exact .pure none
  | some opening =>
    refine continues_lookPast true .word .word (f := fun after =>
      if (after.kind.isOpener && after.start = token.stop) ||
        (after.kind = .lineBreak || after.kind = .endOfInput || after.kind = .comma)
      then none else some opening) fun {token token'} ends breaks => ?_
    rw [if_pos (by simp [ends]), if_pos (by simp [breaks])]

/-- The longer text pays for at least as much. -/
lemma Beside.pays (beside : Beside cs s t) :
    s.lexis.cost s.here + s.lexis.pace ≤ t.lexis.cost t.here + t.lexis.pace := by
  have same : t.lexis = s.lexis := by
    have operators : t.visible = s.visible := by rw [beside.same]
    rw [ParserState.lexis, ParserState.lexis, operators, beside.policy]
  rw [same]
  refine Nat.add_le_add_right (s.lexis.cost_le ?_) _
  rw [beside.anchor.carried.rest, List.length_append]
  exact Nat.le_add_right _ _

/-- **A statement is the same in the longer text**, up to the operators that it takes or gives. -/
theorem parts_parseStatement (token : Token) :
    Continues (Begun cs true) (Parted cs) (parseStatement options resolver token)
      (parseStatement options resolver token) := by
  refine ⟨inferInstance, fun {s t} begun => ?_⟩
  rw [parseStatement, bind_ok (valueFuel_eq begun.settled), bind_ok (valueFuel_eq begun.settled')]
  have le := begun.toBeside.pays
  generalize s.lexis.cost s.here + s.lexis.pace = fuel, t.lexis.cost t.here + t.lexis.pace = more at le ⊢
  refine Yields.goes ((continues_statementKeyword? token).bind fun opening => ?_) begun
  cases opening with
  | some opening => exact (parts_definitionStatement le opening).bind fun _ => .pure none
  | none =>
    have value : Keeps cs (parseValue options fuel) (parseValue options more) :=
      (continues_within options le).1 .value rfl
    exact value.begun.bind fun node => .of_value (some node) Beside.toParted

/-! ## The end of the first text -/

/-- The state at the place of the second parser. -/
lemma Prolonged.base (prolonged : Prolonged cs s t) : t.base = s.moveTo t.here := by
  have tokens : t.tokens.forget
      = { s.tokens with anchor := t.here, handed := [], ahead := [] } := by
    rw [TokenStream.forget, TokenStream.mk.injEq]
    exact ⟨prolonged.policy, rfl, rfl, rfl, prolonged.waiting'.trans prolonged.waiting.symm,
      prolonged.known'.trans prolonged.known.symm⟩
  calc t.base = { s with tokens := t.tokens.forget } :=
        congrArg (fun u : ParserState => { u with tokens := t.tokens.forget }) prolonged.same
    _ = s.moveTo t.here := by rw [tokens, ParserState.moveTo]

/-- **The first parser has read its text**, without a report, and the other one with the same state is
about to go on behind the line break. -/
structure Through (cs : List Char) (s t : ParserState) : Prop where
  settled : s.Settled
  settled' : t.Settled
  silent : s.reports = #[]
  waiting : s.tokens.reports = []
  known : s.tokens.reported = []
  base : t.base = s.moveTo t.here
  skips : ∃ q, skipTrivia true s.here = .token q ∧ q.rest = [] ∧
    skipTrivia true t.here = skipTrivia true ⟨q.offset + 1, some '\n', cs⟩

/-- How the two texts are cut into tokens. -/
lemma Beside.extends (beside : Beside cs s t) : s.lexis.Extends ('\n' :: cs) :=
  ⟨.inr ⟨cs, rfl⟩, beside.unbroken, fun _ => .rfl⟩

lemma Beside.through (beside : Beside cs s t) (ended : s.Ended true) : Through cs s t := by
  obtain ⟨q, reached, empty⟩ := Lexis.exists_end ended
  exact ⟨beside.settled, beside.settled', beside.silent, beside.waiting, beside.known, beside.base, q,
    reached, empty, beside.extends.skips_behind beside.anchor reached empty⟩

lemma Goes.proceeds {Q : α → ParserState → ParserState → Prop}
    {p q : EStateM.Result Fault ParserState α} (goes : Goes Q p q) (quiet : ¬ Lost p) :
    ∃ a s t, p = .ok a s ∧ q = .ok a t ∧ Q a s t := by
  cases goes with
  | ok a states => exact ⟨a, _, _, rfl, rfl, states⟩
  | lost lost => exact absurd lost quiet

/-- Taking a token of which nothing is to be reported. -/
lemma skipToken_of_silent (settled : s.Settled) (waiting : s.tokens.reports = []) {skipBreaks : Bool}
    {mode : Mode} (silent : (s.reads skipBreaks mode).reports = []) :
    ∃ t, skipToken skipBreaks mode s = .ok () t ∧ t.Settled ∧
      t.base = s.moveTo (s.reads skipBreaks mode).after := by
  obtain ⟨t, run, settled, base⟩ := runs_advance s.base skipBreaks mode s settled rfl
  refine ⟨t, bind_ok run, settled, base.trans ?_⟩
  rw [show s.base.lexeme skipBreaks mode = s.reads skipBreaks mode from rfl, silent,
    ParserState.absorb_nil]
  exact flush_of_quiet waiting

/-- **Behind a statement** both parsers are side by side, or the first text is through. -/
lemma Beside.endStatement (beside : Beside cs s t) (quiet : ¬ Lost (endStatement s)) :
    ∃ s' t', endStatement s = .ok () s' ∧ endStatement t = .ok () t' ∧
      (Beside cs s' t' ∨ s'.Ended true ∧ Through cs s' t') := by
  by_cases ended : s.Ended false
  · obtain ⟨token, token', s₁, t₁, run, run', ends, breaks, beside, moves, here⟩ :=
      beside.peek_ended ended .word
    have ended : s₁.Ended false := by
      rw [ParserState.Ended, ParserState.reads, moves.lexis, here]
      exact ended
    obtain ⟨q, reached, empty⟩ := Lexis.exists_end ended
    obtain ⟨silent, after⟩ := beside.extends.read_behind beside.anchor reached empty
    have lexis : t₁.lexis = s₁.lexis := by
      have operators : t₁.visible = s₁.visible := by rw [beside.same]
      rw [ParserState.lexis, ParserState.lexis, operators, beside.policy]
    rw [← lexis] at silent after
    obtain ⟨t₂, taken, settled, base⟩ :=
      skipToken_of_silent beside.settled' beside.waiting'
        (show (t₁.reads false .word).reports = [] from silent)
    have place : t₂.here = ⟨q.offset + 1, some '\n', cs⟩ :=
      (congrArg (fun u : ParserState => u.tokens.anchor) base).trans after
    refine ⟨s₁, t₂, ?_, ?_, .inr ⟨ended_of_line ended, beside.settled, settled, beside.silent,
      beside.waiting, beside.known, ?_, q, Lexis.skips_to_end reached empty, empty,
      congrArg (skipTrivia true) place⟩⟩
    · rw [Parser.endStatement, bind_ok run, if_neg (by simp [ends]), if_pos ends]
      rfl
    · rw [Parser.endStatement, bind_ok run', if_pos (by simp [breaks]), taken]
    · rw [base, place, ← moveTo_base, beside.base, ParserState.moveTo_moveTo]
      exact congrArg s₁.moveTo after
  · have separates : Continues (Begun cs false) (Beside cs) Parser.endStatement Parser.endStatement :=
      (continues_peek false .word).bind fun token => .ite (continues_skipToken false .word)
        (.ite (.done ()) (.refused _ _))
    obtain ⟨_, s', t', run, run', beside⟩ := (separates.goes ⟨beside, ended⟩).proceeds quiet
    exact ⟨s', t', run, run', .inl beside⟩

/-! ## The whole text -/

/-- **A round is the same in the longer text**, where no operator that is in force behind it reaches over
a line break. -/
lemma Beside.round (beside : Beside cs s t) (resting : s.Resting) (more : ¬ s.Ended true)
    {next : List Node → Parser (List Node)} [stays : ∀ values, StaysLoud (next values)]
    (quiet : ¬ Lost (sourceRound options resolver next values s))
    (unbroken : ∀ {added v}, sourceRound options resolver pure [] s = .ok added v →
      Unbroken ('\n' :: cs) v.visible.operators) :
    ∃ added s' t',
      (∀ next values, sourceRound options resolver next values s = next (added ++ values) s') ∧
      (∀ next values, sourceRound options resolver next values t = next (added ++ values) t') ∧
      (Beside cs s' t' ∨ s'.Ended true ∧ Through cs s' t') := by
  obtain ⟨token, u, hpeek, settled, rfl, moves, here, -⟩ := ends_peek beside.settled true .word
  have begun : Begun cs true s t := ⟨beside, more⟩
  have looked : ¬ Lost (peek true .word s) := fun lost => quiet <| by
    unfold sourceRound
    exact lost.bind fun token => inferInstance
  obtain ⟨_, u', t₁, run, hpeek', begun⟩ := ((continues_peek true .word).goes begun).proceeds looked
  obtain ⟨rfl, rfl⟩ := ok_unique hpeek run
  have same : u.reads true .word = s.reads true .word := by
    rw [ParserState.reads, moves.lexis, here]
  have ahead : (s.reads true .word).token.kind ≠ .endOfInput := more
  simp only [sourceRound, bind_ok hpeek, if_neg ahead] at quiet unbroken
  simp only [sourceRound, bind_ok hpeek, bind_ok hpeek', if_neg ahead]
  have complained (cause : Cause) : Lost ((do
      skipToken true .word
      complain (s.reads true .word).token.start cause
      next values : Parser (List Node)) u) := by
    by_contra quiet
    have told : Yields (Beside cs) (fun _ _ _ => False)
        (complain (s.reads true .word).token.start cause >>= fun _ => next values) (next values) :=
      continues_complain _ cause
    have lost : Yields (Begun cs true) (fun _ _ _ => False) _ _ :=
      (continues_skipToken true .word).bind fun _ => told
    obtain ⟨_, _, _, _, _, nowhere⟩ := (lost.goes begun).proceeds quiet
    exact nowhere
  by_cases comma : (s.reads true .word).token.kind = .comma
  · rw [if_pos comma] at quiet
    exact absurd (complained _) quiet
  by_cases comment : (s.reads true .word).token.kind = .openComment
  · simp only [if_neg comma, if_pos comment] at quiet ⊢
    obtain ⟨_, s', t', run, run', beside⟩ := ((continues_skipToken true .word).goes begun).proceeds
      fun lost => quiet (lost.bind fun _ => inferInstance)
    exact ⟨[], s', t', fun _ _ => bind_ok run, fun _ _ => bind_ok run', .inl beside⟩
  by_cases closer : (s.reads true .word).token.kind.isCloser = true
  · rw [if_neg comma, if_neg comment, if_pos closer] at quiet
    exact absurd (complained _) quiet
  simp only [if_neg comma, if_neg comment, if_neg closer] at quiet unbroken ⊢
  have parts : Yields (Begun cs true) (fun _ => Parted cs) _ _ :=
    @parts_parseStatement cs options resolver (s.reads true .word).token
  have goes := parts.goes begun
  cases hstep : parseStatement options resolver (s.reads true .word).token u with
  | error fault v =>
    have tried : attempt (parseStatement options resolver (s.reads true .word).token) u
        = .ok (.error fault) v := by simp only [attempt, hstep]
    rw [bind_ok tried] at quiet
    obtain ⟨_, w, left, -, -⟩ := ends_isolate_resting (s := v) (s.reads true .word).token.start fault
    have lost : Lost (isolate (s.reads true .word).token.start fault v) := by
      rw [left]
      exact .inl (told_of_isolate left)
    exact absurd (lost.bind fun _ => stays values) quiet
  | ok value v =>
    have tried : attempt (parseStatement options resolver (s.reads true .word).token) u
        = .ok (.ok value) v := by simp only [attempt, hstep]
    rw [bind_ok tried] at quiet
    obtain ⟨_, v', t₂, run, hstep', parted⟩ := goes.proceeds fun lost => quiet (by
      rw [hstep] at lost
      exact lost_of_loud inferInstance lost)
    obtain ⟨rfl, rfl⟩ := ok_unique hstep run
    have tried' : attempt (parseStatement options resolver (s.reads true .word).token) t₁
        = .ok (.ok value) t₂ := by simp only [attempt, hstep']
    have resting : v.Resting := by
      rw [← same] at hstep
      exact (ends_parseStatement_resting settled (resting.moved moves) hstep).2
    obtain ⟨_, w, left, -, leaves, -⟩ := ends_endStatement (resting.outside parted.settled)
    have whole : Unbroken ('\n' :: cs) v.visible.operators := by
      rw [← leaves.visible]
      exact unbroken (by rw [bind_ok tried]; exact bind_ok left)
    obtain ⟨s', t', run, run', ends⟩ := Beside.endStatement ⟨parted, whole⟩
      fun lost => quiet (lost.bind fun _ => inferInstance)
    exact ⟨value.toList, s', t', fun _ _ => by simp only [bind_ok tried, bind_ok run],
      fun _ _ => by simp only [bind_ok tried', bind_ok run'], ends⟩

/-- At the end of a text of which nothing is to be reported nothing changes. -/
lemma base_of_end (settled : s.Settled) (waiting : s.tokens.reports = []) (ended : s.Ended true)
    {next : List Node → Parser (List Node)} {result : List Node}
    (run : sourceRound options resolver next values s = .ok result u) :
    result = values.reverse ∧ u.base = s.base := by
  obtain ⟨w, hpeek, -, base⟩ := runs_peek s.base true .word s settled rfl
  have ended' : (s.base.lexeme true .word).token.kind = .endOfInput := ended
  have silent : (s.lexis.read true .word s.here).reports = [] := silent_of_ended ended
  rw [show (s.base.lexeme true .word).reports = [] from silent, ParserState.absorb_nil] at base
  have waiting : w.tokens.reports = [] :=
    (congrArg (fun v : ParserState => v.tokens.reports) base).trans waiting
  rw [sourceRound, bind_ok hpeek, if_pos ended', bind_ok (noteLexical_eq w), flush_of_quiet waiting] at run
  cases run
  exact ⟨rfl, base⟩

/-- Where a round goes on with the next one the text does not end. -/
lemma more_of_round {added : List Node} (round : ∀ (next : List Node → Parser (List Node)) values,
    sourceRound options resolver next values s = next (added ++ values) t) (settled : s.Settled) :
    ¬ s.Ended true := by
  intro ended
  obtain ⟨w, hpeek, -, -⟩ := runs_peek s.base true .word s settled rfl
  have ended' : (s.base.lexeme true .word).token.kind = .endOfInput := ended
  have broken := round (fun _ => throw .exhausted) []
  rw [sourceRound, bind_ok hpeek, if_pos ended', bind_ok (noteLexical_eq w)] at broken
  cases broken

/-- **A text about which there is nothing to report is read in a longer one as it is read alone**, up to
the line break behind it, if no operator that is in force meanwhile reaches over a line break. -/
theorem Beside.run (beside : Beside cs s t) (resting : s.Resting)
    (unbroken : ∀ v, Reaches options resolver s v → Unbroken ('\n' :: cs) v.visible.operators)
    {fuel more : Nat} {result : List Node} (run : parseAll options resolver fuel values s = .ok result u)
    (quiet : ¬ u.Loud) (enough : t.here.rest.length < more) :
    ∃ v w least, Reaches options resolver s v ∧ u.base = v.base ∧ Through cs v w ∧
      w.here.rest.length < least ∧
      parseAll options resolver more values t = parseAll options resolver least result.reverse w := by
  induction fuel generalizing s t values more with
  | zero => cases run
  | succ fuel ih =>
    rw [parseAll_succ] at run
    by_cases ended : s.Ended true
    · obtain ⟨rfl, base⟩ := base_of_end beside.settled beside.waiting ended run
      exact ⟨s, t, more, .here s, base, beside.through ended, enough, by rw [List.reverse_reverse]⟩
    have lost : ¬ Lost (sourceRound options resolver (parseAll options resolver fuel) values s) := by
      rw [run]
      exact quiet
    obtain ⟨added, s', t', round, round', ends⟩ := beside.round resting ended lost
      fun h => unbroken _ (.round ended h (.here _))
    have reached : sourceRound options resolver pure values s = .ok (added ++ values) s' := round pure values
    have resting' : t.Resting := by
      have same := beside.same
      exact ⟨by rw [same]; exact resting.scope, by rw [same]; exact resting.depth,
        by rw [same]; exact resting.suppressed, by rw [same]; exact resting.awaited,
        by rw [same]; exact resting.attends⟩
    obtain ⟨_, _, step, _, -, -, shorter⟩ :
        Ends (sourceRound options resolver pure values) _ _ :=
      ends_sourceRound_resting beside.settled' resting' values
    rw [round' pure values] at step
    cases step
    have shorter := shorter (more_of_round round' beside.settled')
    obtain ⟨more, rfl⟩ : ∃ n, more = n + 1 := ⟨more - 1, by omega⟩
    rw [round] at run
    rw [parseAll_succ, round']
    rcases ends with beside' | ⟨ended', through⟩
    · have resting := (resting_of_reaches beside.settled resting (.round ended reached (.here s'))).2
      obtain ⟨v, w, least, reaches, others⟩ := ih beside' resting
        (fun v reaches => unbroken v (.round ended reached reaches)) run
        (Nat.lt_of_lt_of_le shorter (Nat.le_of_lt_succ enough))
      exact ⟨v, w, least, .round ended reached reaches, others⟩
    · match fuel with
      | 0 => cases run
      | fuel + 1 =>
        rw [parseAll_succ] at run
        obtain ⟨rfl, base⟩ := base_of_end through.settled through.waiting ended' run
        exact ⟨s', t', more, .round ended reached (.here s'), base, through,
          Nat.lt_of_lt_of_le shorter (Nat.le_of_lt_succ enough), by rw [List.reverse_reverse]⟩

end Parser

end TreeLang
