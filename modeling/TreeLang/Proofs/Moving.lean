import TreeLang.Proofs.Completeness

/-!
# Moving through any text

A parser reads on whatever it meets: it complains, skips to where parsing can go on, and makes do
with what it has.  This file says how the small steps move through a text of which nothing is
known.  None of them is ever broken off, none goes back, and what was reported stays reported.

* `Place.Onward` — a place is the same or further on.
* `ParserState.Clean`, `ParserState.Heard` — nothing was reported so far; what was wrong is reported.
* `Passes`, `Moves` — how reading changes a state, with and without making nodes.
* **`Ends`** — a step comes to an end between two tokens, and what can be said then.
* `ends_peek`, `ends_advance`, `ends_groupHead?`, … — the steps that look at tokens.
* **`ends_recover`** — skipping ends, and moves on unless it stands where it may stop.
-/

namespace TreeLang

/-! ## Places -/

/-- The same place or one further on. -/
def Place.Onward (p q : Place) : Prop :=
  q = p ∨ q.rest.length < p.rest.length

namespace Place.Onward

lemma refl (p : Place) : p.Onward p := .inl rfl

lemma le {p q : Place} (onward : p.Onward q) : q.rest.length ≤ p.rest.length := by
  rcases onward with rfl | shorter
  · exact Nat.le_refl _
  · exact Nat.le_of_lt shorter

lemma trans {p q r : Place} (first : p.Onward q) (second : q.Onward r) : p.Onward r := by
  rcases second with rfl | shorter
  · exact first
  · exact .inr (Nat.lt_of_lt_of_le shorter first.le)

end Place.Onward

/-- Where nothing lies ahead nothing is skipped. -/
lemma skipTrivia_of_nil {skipBreaks : Bool} {place : Place} (h : place.rest = []) :
    skipTrivia skipBreaks place = .token place :=
  skipTrivia_of_stands (by rw [h]; trivial)

/-- A token ends at its place or further on. -/
lemma lex_onward (operators : OperatorRegistry) (policy : EscapePolicy) (skipBreaks : Bool)
    (mode : Mode) (place : Place) :
    place.Onward (lex operators policy skipBreaks mode place).after := by
  by_cases h : place.rest = []
  · refine .inl ?_
    simp [lex, skipTrivia_of_nil h, lexHere, h]
  · refine .inr ?_
    have positive : 0 < place.rest.length := List.length_pos_iff.mpr h
    by_cases more : (lex operators policy skipBreaks mode place).token.kind = .endOfInput
    · simp only [lex] at more ⊢
      split
      · rename_i begin hskip
        simp only [hskip] at more
        by_cases nonempty : begin.rest = []
        · simpa [lexHere, nonempty] using positive
        · exact Nat.lt_of_lt_of_le (lexHere_shortens (stands_of_skipTrivia hskip) nonempty)
            (skipTrivia_le hskip)
      · simpa using positive
    · exact lex_shortens more

namespace ParserState

variable {s : ParserState}

/-- The place of the next token. -/
abbrev here (s : ParserState) : Place :=
  s.tokens.anchor

/-- **Nothing was reported**, and nothing is to be reported about the tokens read so far. -/
def Clean (s : ParserState) : Prop :=
  s.reports = #[] ∧ s.tokens.reported = []

/-- **Whatever was wrong is known**: where nothing was reported and no report waits, no token read so
far had anything wrong with it. -/
def Heard (s : ParserState) : Prop :=
  s.recovering = true ∨ s.reports ≠ #[] ∨ s.tokens.reports ≠ [] ∨ s.tokens.reported = []

/-- What was reported does not go unnoticed. -/
lemma not_clean (told : s.reports ≠ #[]) : ¬ s.Clean :=
  fun clean => told clean.1

/-- Where whatever was wrong is known, silence means that nothing was. -/
lemma Heard.clean (heard : s.Heard) (attends : s.recovering = false) (silent : s.reports = #[])
    (none : s.tokens.reports = []) : s.Clean := by
  rcases heard with recovering | told | waiting | reported
  · rw [attends] at recovering
    cases recovering
  · exact absurd silent told
  · exact absurd none waiting
  · exact ⟨silent, reported⟩

/-- What is wrong with a token that is looked at waits to be reported. -/
lemma Heard.absorb (heard : s.Heard) (reports : List Report) : (s.absorb reports).Heard := by
  have kept : ∀ (stream : TokenStream) (reports : List Report), stream.reports ≠ [] →
      (stream.absorb reports).reports ≠ [] := by
    intro stream reports waiting
    induction reports generalizing stream with
    | nil => exact waiting
    | cons report rest ih =>
      refine ih (stream.report report) ?_
      rw [TokenStream.report]
      split
      · exact waiting
      · simp
  rcases heard with recovering | told | waiting | reported
  · exact .inl recovering
  · exact .inr (.inl told)
  · exact .inr (.inr (.inl (kept _ _ waiting)))
  · cases reports with
    | nil => exact .inr (.inr (.inr reported))
    | cons report rest =>
      refine .inr (.inr (.inl (kept (s.tokens.report report) rest ?_)))
      simp [TokenStream.report, reported]

/-- What waited is reported, unless nobody listens. -/
lemma Heard.flush (heard : s.Heard) : s.flush.Heard := by
  by_cases recovering : s.recovering = true
  · exact .inl recovering
  have noted : s.flush.reports = s.reports ++ s.tokens.reports := if_neg recovering
  rcases heard with listening | told | waiting | reported
  · exact absurd listening recovering
  · refine .inr (.inl fun empty => told ?_)
    have parts := congrArg Array.toList (noted.symm.trans empty)
    rw [Array.toList_appendList] at parts
    exact Array.toList_eq_nil_iff.mp (List.append_eq_nil_iff.mp parts).1
  · refine .inr (.inl fun empty => waiting ?_)
    have parts := congrArg Array.toList (noted.symm.trans empty)
    rw [Array.toList_appendList] at parts
    exact (List.append_eq_nil_iff.mp parts).2
  · exact .inr (.inr (.inr reported))

/-- What is read at the place of a state. -/
abbrev reads (s : ParserState) (skipBreaks : Bool) (mode : Mode) : Lexeme :=
  s.lexis.read skipBreaks mode s.here

lemma reads_shortens (s : ParserState) {skipBreaks : Bool} {mode : Mode}
    (more : (s.reads skipBreaks mode).token.kind ≠ .endOfInput) :
    (s.reads skipBreaks mode).after.rest.length < s.here.rest.length :=
  lex_shortens more

end ParserState

/-! ## What reading changes -/

/-- **What reading changes**: the place, the reports, and whatever making nodes changes. -/
structure Passes (s t : ParserState) : Prop where
  visible : t.visible = s.visible
  exported : t.exported = s.exported
  imports : t.imports = s.imports
  awaited : t.awaited = s.awaited
  recovering : t.recovering = s.recovering
  policy : t.tokens.policy = s.tokens.policy
  onward : s.here.Onward t.here
  reports : s.reports.toList <+: t.reports.toList
  clean : t.Clean → s.Clean
  heard : s.Heard → t.Heard

/-- **What moving changes**: the place and the reports. -/
structure Moves (s t : ParserState) : Prop extends Passes s t where
  lastId : t.lastId = s.lastId
  scope : t.scope = s.scope
  depth : t.depth = s.depth
  suppressed : t.suppressed = s.suppressed

variable {s t u : ParserState}

namespace Passes

lemma refl (s : ParserState) : Passes s s :=
  ⟨rfl, rfl, rfl, rfl, rfl, rfl, .refl _, List.prefix_refl _, id, id⟩

lemma trans (first : Passes s t) (second : Passes t u) : Passes s u where
  visible := second.visible.trans first.visible
  exported := second.exported.trans first.exported
  imports := second.imports.trans first.imports
  awaited := second.awaited.trans first.awaited
  recovering := second.recovering.trans first.recovering
  policy := second.policy.trans first.policy
  onward := first.onward.trans second.onward
  reports := first.reports.trans second.reports
  clean := fun clean => first.clean (second.clean clean)
  heard := fun heard => second.heard (first.heard heard)

/-- Reading leaves how the text is cut into tokens. -/
lemma lexis (passes : Passes s t) : t.lexis = s.lexis := by
  simp only [ParserState.lexis, passes.visible, passes.policy]

end Passes

namespace Moves

lemma refl (s : ParserState) : Moves s s :=
  ⟨.refl s, rfl, rfl, rfl, rfl⟩

lemma trans (first : Moves s t) (second : Moves t u) : Moves s u :=
  ⟨first.toPasses.trans second.toPasses, second.lastId.trans first.lastId,
    second.scope.trans first.scope, second.depth.trans first.depth,
    second.suppressed.trans first.suppressed⟩

end Moves

namespace Parser

open TokenStream

variable {α β : Type}

/-! ## Steps that come to an end -/

/-- **A step comes to an end** between two tokens, with a value and a state that have a property. -/
def Ends (step : Parser α) (s : ParserState) (property : α → ParserState → Prop) : Prop :=
  ∃ value t, step s = .ok value t ∧ t.Settled ∧ property value t

namespace Ends

lemma pure {value : α} {property : α → ParserState → Prop} (settled : s.Settled)
    (h : property value s) : Ends (Pure.pure value) s property :=
  ⟨value, s, rfl, settled, h⟩

lemma bind {step : Parser α} {next : α → Parser β} {property : α → ParserState → Prop}
    {result : β → ParserState → Prop} (first : Ends step s property)
    (second : ∀ value t, t.Settled → property value t → Ends (next value) t result) :
    Ends (step >>= next) s result := by
  obtain ⟨value, t, hstep, settled, h⟩ := first
  obtain ⟨final, u, hnext, settled, h⟩ := second value t settled h
  exact ⟨final, u, by rw [bind_ok hstep, hnext], settled, h⟩

lemma mono {step : Parser α} {property weaker : α → ParserState → Prop}
    (ends : Ends step s property) (h : ∀ value t, property value t → weaker value t) :
    Ends step s weaker := by
  obtain ⟨value, t, hstep, settled, has⟩ := ends
  exact ⟨value, t, hstep, settled, h value t has⟩

/-- A step that looks at the state first. -/
lemma get {next : ParserState → Parser β} {property : β → ParserState → Prop}
    (h : Ends (next s) s property) : Ends (MonadState.get >>= next) s property :=
  h

/-- Whether a group waits for a closer shows in the state. -/
lemma closesAwaited {kind : TokenKind} {next : Bool → Parser β}
    {property : β → ParserState → Prop}
    (h : Ends (next (kind.isCloser && s.awaited.contains kind)) s property) :
    Ends (Parser.closesAwaited kind >>= next) s property :=
  h

/-- Saying whether the right operand of an accessor is next. -/
lemma setSuppressed {suppressed : Bool} {next : Unit → Parser β}
    {property : β → ParserState → Prop} (h : Ends (next ()) (s.suppress suppressed) property) :
    Ends (Parser.setSuppressed suppressed >>= next) s property :=
  h

/-- How much lies ahead shows in the state. -/
lemma remaining {next : Nat → Parser β} {property : β → ParserState → Prop} (settled : s.Settled)
    (h : Ends (next s.here.rest.length) s property) :
    Ends (Parser.remaining >>= next) s property := by
  have same : Parser.remaining s = .ok s.here.rest.length s := by
    simp only [remaining_eq, TokenStream.place, settled.handed]
  obtain ⟨value, t, hnext, rest⟩ := h
  exact ⟨value, t, by rw [bind_ok same, hnext], rest⟩

/-- So does the offset that was reached. -/
lemma position {next : Nat → Parser β} {property : β → ParserState → Prop} (settled : s.Settled)
    (h : Ends (next s.here.offset) s property) : Ends (Parser.position >>= next) s property := by
  have same : Parser.position s = .ok s.here.offset s := by
    simp only [position_eq, TokenStream.position, TokenStream.place, settled.handed]
  obtain ⟨value, t, hnext, rest⟩ := h
  exact ⟨value, t, by rw [bind_ok same, hnext], rest⟩

end Ends

/-! ## Looking ahead -/

/-- What was wrong with a token shows. -/
lemma clean_absorb {reports : List Report} (clean : (s.absorb reports).Clean) :
    s.Clean ∧ reports = [] := by
  obtain ⟨noReports, reported⟩ := clean
  have none : reports = [] := by
    refine List.eq_nil_iff_forall_not_mem.mpr fun report member => ?_
    have known := mem_reported_absorb s.tokens reports report member
    rw [show (s.tokens.absorb reports).reported = [] from reported] at known
    cases known
  subst none
  exact ⟨⟨noReports, reported⟩, rfl⟩

/-- **A state that looked ahead**, from where another one stands up to a place. -/
structure LooksTo (s : ParserState) (place : Place) (t : ParserState) : Prop where
  coherent : t.tokens.Coherent t.visible.operators
  moves : Moves s t
  stays : t.here = s.here
  place : t.tokens.place = place

lemma looksTo_of_settled (settled : s.Settled) : LooksTo s s.here s :=
  ⟨settled.coherent, .refl s, rfl, by rw [TokenStream.place, settled.handed]⟩

/-- Looking at one more token. -/
lemma LooksTo.look {place : Place} (looks : LooksTo s place t) (skipBreaks : Bool) (mode : Mode) :
    ∃ u, lookAhead skipBreaks mode t = .ok (s.lexis.read skipBreaks mode place).token u ∧
      LooksTo s (s.lexis.read skipBreaks mode place).after u ∧
      (u.Clean → t.Clean ∧ (s.lexis.read skipBreaks mode place).reports = []) := by
  obtain ⟨coherent, moves, stays, hplace⟩ := looks
  obtain ⟨ahead, look, coherent⟩ := lookAhead_eq coherent skipBreaks mode
  have lexeme : t.tokens.lexemeHere t.visible.operators skipBreaks mode
      = s.lexis.read skipBreaks mode place := by
    rw [← moves.lexis, TokenStream.lexemeHere, hplace]
    rfl
  rw [lexeme] at look coherent
  set reports := (s.lexis.read skipBreaks mode place).reports
  have clean : ∀ {tokens : TokenStream}, tokens.reported = (t.tokens.absorb reports).reported →
      ParserState.Clean { t with tokens := tokens } → t.Clean ∧ reports = [] :=
    fun same clean => clean_absorb (s := t) ⟨clean.1, same ▸ clean.2⟩
  have absorbed : Moves t { t with
      tokens := t.tokens.handOut (s.lexis.read skipBreaks mode place) skipBreaks mode ahead } := by
    refine ⟨⟨rfl, rfl, rfl, rfl, rfl, policy_absorb _ _, .inl (anchor_absorb _ _),
      List.prefix_refl _, fun h => (clean rfl h).1, fun heard => heard.absorb reports⟩,
      rfl, rfl, rfl, rfl⟩
  exact ⟨_, look, ⟨coherent, moves.trans absorbed, (anchor_absorb _ _).trans stays, rfl⟩,
    clean rfl⟩

/-- Giving back what was looked at. -/
lemma LooksTo.rewind {place : Place} (looks : LooksTo s place t) :
    ∃ u, Parser.rewind t = .ok () u ∧ u.Settled ∧ Moves s u ∧ u.here = s.here ∧
      (u.Clean → t.Clean) :=
  ⟨_, rfl, settled_rewind looks.coherent,
    looks.moves.trans ⟨⟨rfl, rfl, rfl, rfl, rfl, rfl, .inl rfl, List.prefix_refl _, id, id⟩,
      rfl, rfl, rfl, rfl⟩, looks.stays, id⟩

/-- Taking what was looked at. -/
lemma LooksTo.commit {place : Place} (looks : LooksTo s place t) (onward : s.here.Onward place) :
    ∃ u, Parser.commit t = .ok () u ∧ u.Settled ∧ Moves s u ∧ u.here = place ∧
      (u.Clean → t.Clean) := by
  have clean : ParserState.Clean ({ t with tokens := t.tokens.commit } : ParserState).flush →
      t.Clean := by
    rintro ⟨noReports, reported⟩
    refine ⟨?_, reported⟩
    by_cases recovering : t.recovering
    · simpa [ParserState.flush, recovering] using noReports
    · have joined : t.reports ++ t.tokens.reports = #[] := by
        simpa [ParserState.flush, recovering, TokenStream.commit] using noReports
      have parts := congrArg Array.toList joined
      rw [Array.toList_appendList] at parts
      exact Array.toList_eq_nil_iff.mp (List.append_eq_nil_iff.mp parts).1
  refine ⟨_, commit_eq t, settled_commit looks.coherent, ?_, looks.place, clean⟩
  have heard : t.Heard → ParserState.Heard { t with tokens := t.tokens.commit } := id
  refine looks.moves.trans
    ⟨⟨rfl, rfl, rfl, rfl, rfl, rfl, ?_, ?_, clean, fun known => (heard known).flush⟩,
      rfl, rfl, rfl, rfl⟩
  · have taken : t.here.Onward t.tokens.place := by rwa [looks.stays, looks.place]
    exact taken
  · simp only [ParserState.flush]
    split
    · exact List.prefix_refl _
    · simp

/-- Looking at the next token. -/
lemma ends_peek (settled : s.Settled) (skipBreaks : Bool) (mode : Mode) :
    Ends (peek skipBreaks mode) s fun token t =>
      token = (s.reads skipBreaks mode).token ∧ Moves s t ∧ t.here = s.here ∧
        (t.Clean → (s.reads skipBreaks mode).reports = []) := by
  obtain ⟨t, look, looks, clean⟩ := (looksTo_of_settled settled).look skipBreaks mode
  obtain ⟨u, back, settled, moves, stays, kept⟩ := looks.rewind
  refine ⟨_, u, by rw [peek, bind_ok look, bind_ok back]; rfl, settled, rfl, moves, stays, ?_⟩
  exact fun h => (clean (kept h)).2

/-- **Taking the next token.** -/
lemma ends_advance (settled : s.Settled) (skipBreaks : Bool) (mode : Mode) :
    Ends (advance skipBreaks mode) s fun token t =>
      token = (s.reads skipBreaks mode).token ∧ Moves s t ∧
        t.here = (s.reads skipBreaks mode).after ∧
        (t.Clean → (s.reads skipBreaks mode).reports = []) := by
  obtain ⟨t, look, looks, clean⟩ := (looksTo_of_settled settled).look skipBreaks mode
  obtain ⟨u, taken, settled, moves, stays, kept⟩ := looks.commit (lex_onward _ _ _ _ _)
  refine ⟨_, u, by rw [advance, bind_ok look, bind_ok taken]; rfl, settled, rfl, moves, stays, ?_⟩
  exact fun h => (clean (kept h)).2

/-- Taking the next token, whatever it is. -/
lemma ends_skipToken (settled : s.Settled) (skipBreaks : Bool) (mode : Mode) :
    Ends (skipToken skipBreaks mode) s fun _ t =>
      Moves s t ∧ t.here = (s.reads skipBreaks mode).after ∧
        (t.Clean → (s.reads skipBreaks mode).reports = []) :=
  (ends_advance settled skipBreaks mode).bind fun _ _ settled taken => .pure settled taken.2

/-- Recording a report. -/
lemma ends_note (settled : s.Settled) (report : Report) :
    Ends (note report) s fun _ t =>
      Moves s t ∧ t.here = s.here ∧ (s.recovering = false → t.reports ≠ #[]) := by
  refine ⟨(), _, note_eq report s, ?_⟩
  split
  · rename_i recovering
    exact ⟨settled, .refl s, rfl, fun h => by rw [h] at recovering; cases recovering⟩
  · have told : s.reports.push report ≠ #[] := by simp
    refine ⟨⟨settled.handed, settled.coherent⟩, ?_, rfl, fun _ => told⟩
    exact ⟨⟨rfl, rfl, rfl, rfl, rfl, rfl, .inl rfl, by simp, fun clean => absurd clean.1 told,
      fun _ => .inr (.inl told)⟩, rfl, rfl, rfl, rfl⟩

/-- Recording a mistake. -/
lemma ends_complain (settled : s.Settled) (offset : Nat) (cause : Cause) :
    Ends (complain offset cause) s fun _ t =>
      Moves s t ∧ t.here = s.here ∧ (s.recovering = false → t.reports ≠ #[]) :=
  ends_note settled _

/-! ## Skipping -/

/-- Skipping a group comes to an end. -/
lemma ends_skipGroup (fuel : Nat) (closer : Option TokenKind) (settled : s.Settled)
    (enough : s.here.rest.length < fuel) :
    Ends (skipGroup fuel closer) s fun _ t => Moves s t := by
  induction fuel generalizing s closer with
  | zero => exact absurd enough (Nat.not_lt_zero _)
  | succ fuel ih =>
    rw [skipGroup]
    refine (ends_peek settled true .word).bind fun token t settled looked => ?_
    obtain ⟨rfl, moves, stays, -⟩ := looked
    have same : t.reads true .word = s.reads true .word := by
      rw [ParserState.reads, moves.lexis, stays]
    by_cases done : (s.reads true .word).token.kind = .endOfInput
    · rw [if_pos done]
      exact .pure settled moves
    rw [if_neg done]
    have shorter := s.reads_shortens done
    refine .closesAwaited ?_
    split
    · exact .pure settled moves
    refine (ends_skipToken settled true .word).bind fun _ u settled skipped => ?_
    obtain ⟨skipped, place, -⟩ := skipped
    rw [same] at place
    have moves := moves.trans skipped
    split
    · exact .pure settled moves
    split
    · refine (ih _ settled (by rw [place]; omega)).bind fun _ v settled inner => ?_
      have onward := inner.onward.le
      exact (ih _ settled (by rw [place] at onward; omega)).mono fun _ _ => (moves.trans inner).trans
    · exact (ih _ settled (by rw [place]; omega)).mono fun _ _ => moves.trans

/-- Where skipping to a separator may stop without taking a token. -/
def Stopping (s : ParserState) (closer : Option TokenKind) (kind : TokenKind) : Prop :=
  kind = .endOfInput ∨ some kind = closer ∨ (kind.isCloser = true ∧ kind ∈ s.awaited)

/-- A token that neither closes the group, nor one around it, nor ends the source. -/
lemma not_stopping_of_open {closer kind : TokenKind} (closed : kind ≠ closer)
    (ends : ¬ (kind = .endOfInput || (kind.isCloser && s.awaited.contains kind)) = true) :
    ¬ Stopping s (some closer) kind := by
  rintro (stop | stop | ⟨stop, awaited⟩)
  · exact ends (by simp [stop])
  · exact closed (Option.some.inj stop)
  · exact ends (by simp [stop, awaited])

/-- Skipping to a separator comes to an end, and takes a token unless it may stop at once. -/
lemma ends_skipToSeparator (fuel : Nat) (closer : Option TokenKind) (settled : s.Settled)
    (enough : s.here.rest.length < fuel) :
    Ends (skipToSeparator fuel closer) s fun _ t => Moves s t ∧
      (¬ Stopping s closer (s.reads false .word).token.kind →
        t.here.rest.length < s.here.rest.length) := by
  induction fuel generalizing s with
  | zero => exact absurd enough (Nat.not_lt_zero _)
  | succ fuel ih =>
    rw [skipToSeparator]
    refine (ends_peek settled false .word).bind fun token t settled looked => ?_
    obtain ⟨rfl, moves, stays, -⟩ := looked
    have same : t.reads false .word = s.reads false .word := by
      rw [ParserState.reads, moves.lexis, stays]
    by_cases done : (s.reads false .word).token.kind = .endOfInput
    · rw [if_pos done]
      exact .pure settled ⟨moves, fun going => absurd (.inl done) going⟩
    rw [if_neg done]
    have shorter := s.reads_shortens done
    refine .closesAwaited ?_
    split
    · rename_i closes
      refine .pure settled ⟨moves, fun going => absurd (.inr ?_) going⟩
      rw [moves.awaited] at closes
      simpa using closes
    refine (ends_skipToken settled false .word).bind fun _ u settled skipped => ?_
    obtain ⟨skipped, place, -⟩ := skipped
    rw [same] at place
    have moves := moves.trans skipped
    split
    · exact .pure settled ⟨moves, fun _ => by rw [place]; exact shorter⟩
    split
    · refine (ends_skipGroup fuel _ settled (by rw [place]; omega)).bind
        fun _ v settled inner => ?_
      have onward := inner.onward.le
      rw [place] at onward
      refine (ih settled (by omega)).mono fun _ w rest => ⟨(moves.trans inner).trans rest.1, ?_⟩
      have further := rest.1.onward.le
      exact fun _ => by omega
    · refine (ih settled (by rw [place]; omega)).mono fun _ v rest => ⟨moves.trans rest.1, ?_⟩
      have further := rest.1.onward.le
      rw [place] at further
      exact fun _ => by omega

/-- Recovering is skipping while nobody listens. -/
lemma recover_ok {closer : Option TokenKind} (settled : s.Settled)
    (skip : skipToSeparator (s.here.rest.length + 1) closer { s with recovering := true } = .ok () t) :
    recover closer s = .ok () { t with recovering := false } := by
  have asked : remaining { s with recovering := true }
      = .ok s.here.rest.length { s with recovering := true } := by
    simp only [remaining_eq, TokenStream.place, settled.handed]
  have step : recover closer s
      = (remaining >>= fun ahead => skipToSeparator (ahead + 1) closer >>= fun _ =>
          modify fun s => { s with recovering := false }) { s with recovering := true } := rfl
  rw [step, bind_ok asked, bind_ok skip]
  rfl

/-- **Recovering comes to an end**, and takes a token unless it may stop at once.  It follows a
report, so that what is skipped need not be reported. -/
theorem ends_recover (closer : Option TokenKind) (settled : s.Settled)
    (attends : s.recovering = false) (told : s.reports ≠ #[]) :
    Ends (recover closer) s fun _ t => Moves s t ∧
      (¬ Stopping s closer (s.reads false .word).token.kind →
        t.here.rest.length < s.here.rest.length) := by
  have began : ParserState.Settled { s with recovering := true } :=
    ⟨settled.handed, settled.coherent⟩
  obtain ⟨_, t, skip, ended, moves, shorter⟩ :=
    ends_skipToSeparator (s.here.rest.length + 1) closer began (Nat.lt_succ_self _)
  refine ⟨(), { t with recovering := false }, recover_ok settled skip,
    ⟨ended.handed, ended.coherent⟩, ?_, shorter⟩
  refine ⟨⟨moves.visible, moves.exported, moves.imports, moves.awaited, attends.symm,
    moves.policy, moves.onward, moves.reports, moves.clean, fun _ => .inr (.inl fun empty => told ?_)⟩,
    moves.lastId, moves.scope, moves.depth, moves.suppressed⟩
  have empty : t.reports = #[] := empty
  have grown := moves.reports
  rw [empty] at grown
  exact Array.toList_eq_nil_iff.mp (List.prefix_nil.mp grown)

/-! ## Decisions by a token or two -/

/-- **Where a token of the group does not end it, recovering takes a token**: a closer read as a
word is one under every mode but that of keys. -/
lemma not_stopping {closer : TokenKind} (closes : closer.isCloser) {mode : Mode}
    (going : ¬ Stopping s (some closer) (s.reads true mode).token.kind)
    (key : mode = .key → (s.reads true mode).token.kind.isText = false) :
    ¬ Stopping s (some closer) (s.reads false .word).token.kind := by
  intro stopping
  by_cases breaks : (s.reads false .word).token.kind = .lineBreak
  · rw [breaks] at stopping
    rcases stopping with ends | closed | ⟨closed, -⟩
    · cases ends
    · cases closed
      cases closes
    · cases closed
  · have same : s.reads true .word = s.reads false .word := lex_true breaks
    have word := lex_of_word s.visible.operators s.tokens.policy true mode s.here
    rw [← same] at stopping
    rcases stopping with ends | stops
    · exact going (.inl (word.1 ends))
    · have closing : (s.reads true .word).token.kind.isCloser = true := by
        rcases stops with closed | ⟨closed, -⟩
        · rw [Option.some.inj closed]
          exact closes
        · exact closed
      rcases word.2 closing with kind | ⟨rfl, text⟩
      · have kind : (s.reads true mode).token.kind = (s.reads true .word).token.kind := kind
        rw [← kind] at stops
        exact going (.inr stops)
      · have none := key rfl
        rw [show (s.reads true .key).token.kind.isText = true from text] at none
        cases none

/-- The operator of a group of operators is found where the rules say so. -/
lemma ends_operatorOf? (settled : s.Settled) (group : PriorityGroup) (skipBreaks : Bool) :
    Ends (operatorOf? group skipBreaks) s fun found t => Moves s t ∧
      s.lexis.operatorAt? group skipBreaks s.here = found.map (·, t.here) ∧
      (found = none → t.here = s.here) ∧
      (t.Clean → (s.reads skipBreaks .operation).reports = []) := by
  refine (ends_peek settled skipBreaks .operation).bind fun token t settled looked => ?_
  obtain ⟨rfl, moves, stays, clean⟩ := looked
  have same : t.reads skipBreaks .operation = s.reads skipBreaks .operation := by
    rw [ParserState.reads, moves.lexis, stays]
  simp only [Lexis.operatorAt?]
  split
  · cases hfind : group.find? (s.reads skipBreaks .operation).token.content
        ((s.reads skipBreaks .operation).token.kind = .keyword) with
    | none => exact .pure settled ⟨moves, rfl, fun _ => stays, clean⟩
    | some op =>
      refine (ends_skipToken settled skipBreaks .operation).bind fun _ u settled skipped => ?_
      obtain ⟨skipped, place, quiet⟩ := skipped
      rw [same] at place quiet
      exact .pure settled ⟨moves.trans skipped, by rw [place, Option.map_some], by rintro ⟨⟩, quiet⟩
  · exact .pure settled ⟨moves, rfl, fun _ => stays, clean⟩

/-- The head of a group is found where the rules say so. -/
lemma ends_groupHead? (settled : s.Settled) (mode : Mode) :
    Ends (groupHead? mode) s fun found t => Moves s t ∧
      s.lexis.headAt? mode s.here = found.map (fun head => (head.1, head.2, t.here)) ∧
      (found = none → t.here = s.here) ∧ (t.Clean → s.lexis.MeetsHead mode s.here) := by
  obtain ⟨t, look, looks, clean⟩ := (looksTo_of_settled settled).look true mode
  simp only [Ends, groupHead?, Lexis.headAt?, Lexis.MeetsHead]
  rw [bind_ok look]
  by_cases opens : (s.lexis.read true mode s.here).token.kind.isOpener = true
  · obtain ⟨u, taken, settled, moves, place, kept⟩ := looks.commit (lex_onward _ _ _ _ _)
    simp only [opens, if_true]
    rw [bind_ok taken]
    refine ⟨_, u, rfl, settled, moves, by rw [place]; rfl, by rintro ⟨⟩, fun h => ?_⟩
    refine ⟨(clean (kept h)).2, fun text => ?_⟩
    cases hkind : (s.lexis.read true mode s.here).token.kind <;>
      simp_all [TokenKind.isOpener, TokenKind.isText]
  simp only [opens, if_false, Bool.false_eq_true]
  by_cases text : (s.lexis.read true mode s.here).token.kind.isText = true
  · obtain ⟨u, lookOn, looks, cleanOn⟩ := looks.look false mode
    have lookOn : lookAhead false mode t = .ok (s.lexis.behindName mode s.here).token u := lookOn
    have met : u.Clean → s.lexis.admits (s.lexis.read true mode s.here) ∧
        s.lexis.admits (s.lexis.behindName mode s.here) :=
      fun h => ⟨(clean (cleanOn h).1).2, (cleanOn h).2⟩
    simp only [text, if_true]
    rw [bind_ok lookOn]
    by_cases attached : ((s.lexis.behindName mode s.here).token.kind.isOpener &&
        (s.lexis.behindName mode s.here).token.start
          = (s.lexis.read true mode s.here).token.stop) = true
    · obtain ⟨v, taken, settled, moves, place, kept⟩ :=
        looks.commit ((lex_onward _ _ _ _ _).trans (lex_onward _ _ _ _ _))
      simp only [attached, if_true]
      rw [bind_ok taken]
      exact ⟨_, v, rfl, settled, moves, by rw [place]; rfl, by rintro ⟨⟩,
        fun h => ⟨(met (kept h)).1, fun _ => (met (kept h)).2⟩⟩
    · obtain ⟨v, back, settled, moves, stays, kept⟩ := looks.rewind
      simp only [attached, if_false, Bool.false_eq_true]
      rw [bind_ok back]
      exact ⟨_, v, rfl, settled, moves, rfl, fun _ => stays,
        fun h => ⟨(met (kept h)).1, fun _ => (met (kept h)).2⟩⟩
  · obtain ⟨u, back, settled, moves, stays, kept⟩ := looks.rewind
    simp only [text, if_false, Bool.false_eq_true]
    rw [bind_ok back]
    exact ⟨_, u, rfl, settled, moves, rfl, fun _ => stays,
      fun h => ⟨(clean (kept h)).2, fun is => is.elim⟩⟩

/-- Behind an element a separator is passed, or the group ends, or tokens are skipped.  If the token
that stands there does not end the group one token is taken. -/
lemma ends_separator (settled : s.Settled) (attends : s.recovering = false) {mode : Mode}
    {closer : TokenKind} (closes : closer.isCloser) :
    Ends (separator mode closer) s fun _ t => Moves s t ∧
      (t.Clean → s.lexis.Separated mode closer s.here t.here ∨
        (t.here = s.here ∧ (s.reads false mode).token.kind ≠ closer ∧
          Stopping s none (s.reads false mode).token.kind)) ∧
      (mode ≠ .key → ¬ Stopping s (some closer) (s.reads true mode).token.kind →
        t.here.rest.length < s.here.rest.length) := by
  refine (ends_peek settled false mode).bind fun token t settled looked => ?_
  obtain ⟨rfl, moves, stays, clean⟩ := looked
  have same : t.reads false mode = s.reads false mode := by
    rw [ParserState.reads, moves.lexis, stays]
  split
  · rename_i separates
    have kind : (s.reads false mode).token.kind = .comma ∨
        (s.reads false mode).token.kind = .lineBreak := by simpa using separates
    refine (ends_skipToken settled false mode).mono fun _ u skipped => ?_
    obtain ⟨skipped, place, quiet⟩ := skipped
    rw [same] at place quiet
    refine ⟨moves.trans skipped, fun h => .inl ⟨quiet h, .inl ⟨kind, place⟩⟩, fun _ _ => ?_⟩
    rw [place]
    exact s.reads_shortens (by rcases kind with kind | kind <;> simp [kind])
  refine .closesAwaited ?_
  rename_i separates
  have inside : (s.reads false mode).token.kind ≠ .lineBreak := fun h => separates (by simp [h])
  have onLine : s.reads true mode = s.reads false mode := lex_true inside
  split
  · rename_i stops
    rw [moves.awaited] at stops
    have stopping : (s.reads false mode).token.kind = closer ∨
        Stopping s none (s.reads false mode).token.kind := by
      simp only [Bool.or_eq_true, decide_eq_true_eq, Bool.and_eq_true, List.contains_iff_mem]
        at stops
      rcases stops with (closed | ends) | awaited
      · exact .inl closed
      · exact .inr (.inl ends)
      · exact .inr (.inr (.inr awaited))
    refine .pure settled ⟨moves, fun h => ?_, fun _ going => absurd ?_ going⟩
    · by_cases closed : (s.reads false mode).token.kind = closer
      · exact .inl ⟨clean h, .inr ⟨closed, stays⟩⟩
      · exact .inr ⟨stays, closed, stopping.resolve_left closed⟩
    · rw [onLine]
      rcases stopping with closed | ends | awaited
      · exact .inr (.inl (congrArg some closed))
      · exact .inl ends
      · exact .inr (.inr (awaited.resolve_left (by simp)))
  · refine (ends_complain settled _ _).bind fun _ u settled noted => ?_
    obtain ⟨noted, stayed, dirty⟩ := noted
    have attendsT := moves.recovering.trans attends
    have attendsU := noted.recovering.trans attendsT
    have told := dirty attendsT
    refine (ends_recover (some closer) settled attendsU told).mono fun _ v recovered => ?_
    have moved := (moves.trans noted).trans recovered.1
    have here : u.here = s.here := stayed.trans stays
    refine ⟨moved, fun h => absurd (recovered.1.clean h) (ParserState.not_clean told),
      fun key going => ?_⟩
    rw [← here]
    refine recovered.2 (not_stopping closes ?_ fun h : mode = .key => absurd h key)
    have reads : u.reads true mode = s.reads true mode := by
      rw [ParserState.reads, (moves.trans noted).lexis, here]
    rwa [reads, Stopping, (moves.trans noted).awaited]

end Parser

end TreeLang
