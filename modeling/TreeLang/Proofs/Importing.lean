import TreeLang.Proofs.Gathering
import TreeLang.Proofs.Isolating

/-!
# Definitions written and imported

A source may write its definitions, or import them from a source that has them.  Behind them there is
no difference: what follows is read alike.  The macros that are in force are the same, and so are the
operators, and all that tells one way from the other is where a parser stands and how many nodes it has
numbered.

* `exists_imported` — an importing line at the beginning of a source, and the parser behind it.
* `OnlyValues`, `Parallel.Abreast.parseAll_values` — two parsers abreast read values alike, whatever can
  be imported on either side.
* `ReadAlike`, **`ReadAlike.of_values`** — the same is read and said behind the same definitions.
* **`compile_imported`** — definitions imported are definitions written.
* `report_of_written_line_break` — an operator whose name holds a line break tells them apart.
-/

namespace TreeLang

namespace Parser

variable {options : CompileOptions} {resolver : Resolver} {s t u : ParserState} {imports : ImportState}
  {path : String} {definitions : Shared Definitions} {visible : Definitions} {tail : List Char}

/-! ## An importing line -/

/-- What is imported without a conflict is in force. -/
lemma runs_takeImport (found : resolver path s.imports = .ok (.ok definitions) imports)
    (copied : s.visible.copyFrom definitions.value = ([], visible)) (place : Place) (offset : Nat) :
    Runs (resolveImport resolver path >>= Harmony.takeImport false path offset) (s.moveTo place) ()
      (ParserState.moveTo { s with visible := visible, imports := imports } place) := by
  intro s₁ settled hbase
  have same {α : Type} (field : ParserState → α) : field s₁.base = field (s.moveTo place) :=
    congrArg field hbase
  have found : resolver path s₁.imports = .ok (.ok definitions) imports :=
    (congrArg (resolver path) (same (·.imports))).trans found
  have copied : s₁.visible.copyFrom definitions.value = ([], visible) := by
    rw [show s₁.visible = s.visible from same (·.visible)]
    exact copied
  have resolved : resolveImport resolver path s₁ = .ok (.ok definitions) { s₁ with imports := imports } := by
    rw [resolveImport, found]
  have taken : importVisible definitions.value { s₁ with imports := imports }
      = .ok [] { s₁ with visible := visible, imports := imports } := by
    show EStateM.Result.ok (s₁.visible.copyFrom definitions.value).1 { s₁ with
      visible := (s₁.visible.copyFrom definitions.value).2, imports := imports } = _
    rw [copied]
  refine ⟨{ s₁ with visible := visible, imports := imports, tokens := s₁.tokens.forget }, ?_,
    ⟨rfl, trivial⟩, ?_⟩
  · rw [bind_ok resolved]
    exact bind_ok taken
  · show ({ s₁.base with visible := visible, imports := imports } : ParserState) = _
    rw [hbase]
    rfl

/-- One round: a statement, and the separator behind it. -/
lemma exists_round {lexis : Lexis} {p q r : Place} {value : Option Node} (governs : lexis.Governs s)
    (silent : (lexis.read true .word p).reports = [])
    (opens : opensStatement (lexis.read true .word p).token.kind = true)
    (statement : Runs (parseStatement options resolver (lexis.read true .word p).token) (s.moveTo p)
      value (t.moveTo q))
    (ended : Runs endStatement (t.moveTo q) () (t.moveTo r)) (settled : u.Settled)
    (base : u.base = s.moveTo p) :
    ∃ v, (∀ next values, sourceRound options resolver next values u = next (value.toList ++ values) v) ∧
      v.Settled ∧ v.base = t.moveTo r := by
  obtain ⟨u₁, peeks, settled, base⟩ := governs.runs_peek silent u settled base
  obtain ⟨u₂, tried, settled, base⟩ := statement.attempt u₁ settled base
  obtain ⟨v, left, settled, base⟩ := ended u₂ settled base
  refine ⟨v, fun next values => ?_, settled, base⟩
  simp only [opensStatement, Bool.not_eq_true', Bool.or_eq_false_iff, decide_eq_false_iff_not] at opens
  obtain ⟨⟨⟨more, comma⟩, comment⟩, closer⟩ := opens
  rw [sourceRound, bind_ok peeks, if_neg more, if_neg comma, if_neg comment, if_neg (by simp [closer]),
    bind_ok tried]
  exact bind_ok left

/-- **An importing line** at the beginning of a source, and the parser behind it. -/
theorem exists_imported {source : Source} {later : ImportState} (isPath : IsPath path.toList)
    (chars : source.chars = "use".toList ++ ' ' :: (path.toList ++ '\n' :: tail))
    (found : resolver path imports = .ok (.ok definitions) later)
    (copied : (initial options source imports).visible.copyFrom definitions.value = ([], visible)) :
    ∃ t, (∀ next values, sourceRound options resolver next values (initial options source imports)
        = next values t) ∧
      t.Settled ∧ t.base = ParserState.moveTo { initial options source imports with
        visible := visible
        imports := later } ⟨path.length + 5, some '\n', tail⟩ := by
  set s := initial options source imports
  set p : Place := .start source.chars
  have governs : (startingLexis options).Governs s := governs_initial
  have use : IsPath "use".toList := .of_isWord (by decide +kernel)
  have lineBreak : Stops .word ('\n' :: tail) := .inl (by decide)
  obtain ⟨r, first, hr, offset, silent, opens⟩ :=
    head_of_line (fun _ => rfl : (startingLexis options).Leads p p) use isPath lineBreak rfl chars
  set q := r.next.skip path.toList.length
  obtain ⟨hq, stands⟩ : q.rest = '\n' :: tail ∧ q.offset = r.offset + 1 + path.toList.length :=
    Place.behind_blank hr
  set u : ParserState := { s with visible := visible, imports := later }
  have useLine : Runs (useStatement resolver) (s.moveTo p) () (u.moveTo q) := by
    have skip := governs.runs_skipToken (show ((startingLexis options).read true .word p).reports = [] by
      rw [first])
    rw [first] at skip
    have taken := runs_takeImport found copied q (r.offset + 1)
    rw [← String.ofList_toList (s := path)] at taken
    exact skip.bind ((runs_publicMark_none isPath governs hr).bind
      ((runs_importPath? isPath governs hr).bind taken))
  have keyword := runs_statementKeyword? governs silent
  rw [opens] at keyword
  have statement : Runs (parseStatement options resolver ((startingLexis options).read true .word p).token)
      (s.moveTo p) none (u.moveTo q) :=
    (runs_valueFuel governs p).bind (keyword.bind (useLine.bind (Runs.pure _ _)))
  -- The line ends under the operators that were imported.
  have ends : u.lexis.read false .word q = _ :=
    lex_delimiter hq (show delimiter? .word '\n' = some .lineBreak by decide) fun _ => rfl
  have left := runs_endStatement_separator (Lexis.governs_lexis (s := u) rfl)
    (p := q) (.inl (by rw [ends])) (by rw [ends])
  rw [ends] at left
  obtain ⟨t, round, settled, base⟩ : ∃ t, (∀ next values, sourceRound options resolver next values s
      = next (Option.toList none ++ values) t) ∧ _ :=
    exists_round governs silent.1 (by rw [first]; rfl) statement left (outside_initial source imports).settled
      rfl
  refine ⟨t, round, settled, base.trans ?_⟩
  have place : q.next = ⟨path.length + 5, some '\n', tail⟩ := by
    rw [Place.next, hq, stands, offset, show path.toList.length = path.length from rfl]
    show (⟨0 + 3 + 1 + path.length + 1, some '\n', tail⟩ : Place) = _
    rw [show 0 + 3 + 1 + path.length + 1 = path.length + 5 by omega]
  rw [← place]

/-! ## Values behind definitions that came about differently -/

/-- **Nothing is defined from here on**: no statement that is still to be read begins as a definition. -/
def OnlyValues (options : CompileOptions) (resolver : Resolver) (s : ParserState) : Prop :=
  ∀ t, Reaches options resolver s t → t.lexis.statementAt? t.here = none

lemma OnlyValues.reached (values : OnlyValues options resolver s) (reaches : Reaches options resolver s t) :
    OnlyValues options resolver t :=
  fun u further => values u (reaches.trans further)

end Parser

/-- **A parser that has nothing on its mind**: nothing is pending, and nothing was reported. -/
structure ParserState.Fresh (s : ParserState) : Prop where
  resting : s.Resting
  silent : s.reports = #[]
  waiting : s.tokens.reports = []
  known : s.tokens.reported = []

namespace Parallel

open TreeLang.Parser

variable {P : Parallel} {options : CompileOptions} {resolver resolver' : Resolver} {s t : ParserState}

/-- Two parsers abreast are about to read the same token. -/
lemma Abreast.token_eq (abreast : P.Abreast s t) (mode : Mode) :
    (t.reads true mode).token = (s.reads true mode).token.shift P.ahead := by
  obtain ⟨_, u, looked, -, rfl, -⟩ := ends_peek abreast.settled true mode
  obtain ⟨_, v, looked', -, rfl, -⟩ := ends_peek abreast.settled' true mode
  have both := (follows_peek true mode).both abreast
  rw [looked, looked'] at both
  cases both with
  | ok further => exact further

/-- The same statement begins in front of two parsers abreast. -/
lemma Abreast.statementAt?_eq (abreast : P.Abreast s t) :
    t.lexis.statementAt? t.here = s.lexis.statementAt? s.here := by
  obtain ⟨_, u, found, -, rfl, -⟩ := ends_statementKeyword? abreast.settled
  obtain ⟨_, v, found', -, rfl, -⟩ := ends_statementKeyword? abreast.settled'
  have both := (follows_statementKeyword? (s.reads true .word).token).both abreast
  rw [← abreast.token_eq, found, found'] at both
  cases both with
  | ok same => exact same.symm

/-- **A value is read alike**, whatever can be imported on either side. -/
lemma Abreast.parseStatement_value (abreast : P.Abreast s t) (value : s.lexis.statementAt? s.here = none) :
    P.Both P.Abreast (Node.LikeOption P.likeness)
      (parseStatement options resolver (s.reads true .word).token s)
      (parseStatement options resolver' (t.reads true .word).token t) := by
  obtain ⟨_, u, found, -, rfl, -⟩ := ends_statementKeyword? abreast.settled
  obtain ⟨_, v, found', -, rfl, -⟩ := ends_statementKeyword? abreast.settled'
  have fuel := follows_valueFuel.both abreast
  have both := (follows_statementKeyword? (s.reads true .word).token).both abreast
  rw [valueFuel_eq abreast.settled, valueFuel_eq abreast.settled'] at fuel
  rw [← abreast.token_eq, found, found'] at both
  rw [abreast.statementAt?_eq] at both found'
  rw [value] at both found found'
  cases fuel with
  | ok fuel =>
    cases both with
    | ok _ abreast' =>
      rw [parseStatement, parseStatement, bind_ok (valueFuel_eq abreast.settled),
        bind_ok (valueFuel_eq abreast.settled'), bind_ok found, bind_ok found', ← fuel]
      generalize s.lexis.cost s.here + s.lexis.pace = fuel
      have read : P.Follows (Node.LikeOption P.likeness) (return some (← parseValue options fuel))
          (return some (← parseValue options fuel)) :=
        (follows_within options fuel .value).bind fun _ _ node => .pure (.some node)
      exact read.both abreast'

/-- Steps that are chosen by the same condition. -/
lemma Both.ite {α β : Type} {R : ParserState → ParserState → Prop} {V : α → β → Prop}
    {condition : Prop} [Decidable condition] {yes no : Parser α} {yes' no' : Parser β}
    (h : condition → P.Both R V (yes s) (yes' t)) (h' : ¬ condition → P.Both R V (no s) (no' t)) :
    P.Both R V ((if condition then yes else no) s) ((if condition then yes' else no') t) := by
  split
  · exact h ‹_›
  · exact h' ‹_›

/-- A round of a source in which nothing is defined. -/
lemma Abreast.roundFrom_value (abreast : P.Abreast s t) (value : s.lexis.statementAt? s.here = none) :
    P.Both P.Abreast (Node.LikeValues P.likeness)
      (roundFrom options resolver (s.reads true .word).token s)
      (roundFrom options resolver' (t.reads true .word).token t) := by
  have statement : P.Both _ _ (parseStatement options resolver _ s) (parseStatement options resolver' _ t) :=
    abreast.parseStatement_value value
  rw [abreast.token_eq] at statement ⊢
  generalize (s.reads true .word).token = token at statement ⊢
  have attempted := both_attempted (R := P.Abreast) statement token
    (show ∀ {vs ws}, Node.LikeValues P.likeness vs ws → P.Follows _ (pure vs) (pure ws) from .pure) .nil
  simp only [List.append_nil] at attempted
  refine .ite (fun _ => ?_) fun _ => .ite (fun _ => ?_) fun _ => .ite (fun _ => ?_) fun _ => attempted
  · exact ((follows_skipToken true .word).after fun _ =>
      (follows_complain_at token.start _).after fun _ => .pure .nil).both abreast
  · exact ((follows_skipToken true .word).after fun _ => .pure .nil).both abreast
  · exact ((follows_skipToken true .word).after fun _ =>
      (follows_complain_token (fun _ _ => ⟨rfl, rfl, rfl⟩) token).after fun _ => .pure .nil).both abreast

/-- **Two parsers in front of the same values read them alike**, whatever can be imported on either side. -/
theorem Abreast.parseAll_values (abreast : P.Abreast s t)
    (ordinary : OnlyValues options resolver s ∨ OnlyValues options resolver' t) (fuel : Nat)
    {vs ws : List Node} (values : Node.LikeValues P.likeness vs ws) :
    P.Both P.Lasting (Node.LikeValues P.likeness) (parseAll options resolver fuel vs s)
      (parseAll options resolver' fuel ws t) := by
  induction fuel generalizing s t vs ws with
  | zero => exact .fault _ abreast
  | succ fuel ih =>
    have value : s.lexis.statementAt? s.here = none := by
      rcases ordinary with ordinary | ordinary
      · exact ordinary s (.here s)
      · exact abreast.statementAt?_eq.symm.trans (ordinary t (.here t))
    obtain ⟨_, u, looked, -, rfl, moves, stays, -⟩ := ends_peek abreast.settled true .word
    obtain ⟨_, v, looked', -, rfl, moves', stays', -⟩ := ends_peek abreast.settled' true .word
    have peeked := (follows_peek true .word).both abreast
    rw [looked, looked'] at peeked
    cases peeked with
    | ok further abreast' =>
      have ends : (t.reads true .word).token.kind = .endOfInput
          ↔ (s.reads true .word).token.kind = .endOfInput := by rw [further]; rfl
      rw [parseAll_succ, parseAll_succ]
      by_cases ended : (s.reads true .word).token.kind = .endOfInput
      · rw [sourceRound_eq, sourceRound_eq, bind_ok looked, bind_ok looked', if_pos ended,
          if_pos (ends.mpr ended), bind_ok (noteLexical_eq u), bind_ok (noteLexical_eq v)]
        exact .ok (List.rel_reverse values) abreast'.toLasting.flush
      rw [sourceRound_of_more looked ended, sourceRound_of_more looked' (mt ends.mp ended)]
      have same : u.reads true .word = s.reads true .word := by
        rw [ParserState.reads, ParserState.reads, moves.lexis, stays]
      have same' : v.reads true .word = t.reads true .word := by
        rw [ParserState.reads, ParserState.reads, moves'.lexis, stays']
      have round : P.Both _ _ (roundFrom options resolver _ u) (roundFrom options resolver' _ v) :=
        abreast'.roundFrom_value (by rwa [moves.lexis, stays])
      rw [same, same'] at round
      generalize run : roundFrom options resolver (s.reads true .word).token u = x,
        run' : roundFrom options resolver' (t.reads true .word).token v = y at round
      cases round with
      | ok like abreast' =>
        rw [bind_ok run, bind_ok run']
        refine ih abreast' (ordinary.imp (fun ordinary => ?_) fun ordinary => ?_)
          (List.rel_append like values)
        · exact ordinary.reached (.of_round abreast.settled looked ended run)
        · exact ordinary.reached (.of_round abreast.settled' looked' (mt ends.mp ended) run')
      | fault fault abreast' =>
        rw [bind_error run, bind_error run']
        exact .fault fault abreast'

/-! ### Two parsers that know the same -/

/-- How a parser relates to itself. -/
def itself : Parallel where
  likeness := .identical
  ahead := 0
  front := []
  joint := Eq
  shifts _ := rfl
  supplies same := congrArg _ same.symm
  shares same := congrArg _ same

lemma delivers_itself (resolver : Resolver) : itself.Delivers resolver where
  answers {i j} same path := by
    subst same
    cases resolver path i with
    | ok answer k => exact .ok (fun definitions _ => .refl_of (fun _ => ⟨fun _ => rfl, rfl, rfl⟩) _) rfl
    | error fault k => exact .fault fault rfl

/-- How parsers relate that have the same definitions in force, whatever they are numbered with. -/
def unnumbered (ahead : Nat) : Parallel where
  likeness := ⟨False, fun _ _ => True⟩
  ahead := ahead
  front := []
  joint _ _ := False
  shifts _ := trivial
  supplies := False.elim
  shares := False.elim

lemma abreast_unnumbered (fresh : s.Fresh) (fresh' : t.Fresh) (settled : s.Settled) (settled' : t.Settled)
    (policy : t.tokens.policy = s.tokens.policy) (visible : t.visible = s.visible)
    (rest : t.here.rest = s.here.rest) (previous : t.here.previous = s.here.previous)
    (le : s.here.offset ≤ t.here.offset) :
    (unnumbered (t.here.offset - s.here.offset)).Abreast s t := by
  obtain ⟨resting, silent, waiting, known⟩ := fresh
  obtain ⟨resting', silent', waiting', known'⟩ := fresh'
  refine .of_settled ?_ settled settled' ⟨?_, (Nat.add_sub_cancel' le).symm, by rw [previous]⟩
  · exact {
      policy := policy
      operators := by rw [visible]
      macros := by
        rw [visible]
        exact (Definitions.Like.refl_of (fun _ => ⟨False.elim, trivial, trivial⟩) s.visible).macros
      exported := False.elim
      scope := resting'.scope.trans resting.scope.symm
      inside := fun inside => by rw [resting.scope] at inside; cases inside
      lastId := False.elim
      recovering := resting'.attends.trans resting.attends.symm
      depth := resting'.depth.trans resting.depth.symm
      suppressed := resting'.suppressed.trans resting.suppressed.symm
      awaited := resting'.awaited.trans resting.awaited.symm
      imports := False.elim
      reports := ⟨[], by rw [silent']; rfl, by rw [silent]; exact .nil⟩
      waiting := by rw [waiting, waiting']; exact .nil
      reported := by rw [known, known']; rfl }
  · rw [rest, List.append_nil]

end Parallel

/-! ## What is read and said -/

/-- What a report says, wherever it stands. -/
def Report.said (report : Report) : Severity × String × Category × List String :=
  (report.severity, report.message, report.category, report.hints)

namespace Parser

variable {options : CompileOptions} {resolver resolver' : Resolver} {s t u v w : ParserState} {p : Place}

/-- Elsewhere, and with nothing read ahead, a parser still has nothing on its mind. -/
lemma fresh_of_moveTo (fresh : s.Fresh) (base : t.base = s.moveTo p) : t.Fresh := by
  have same {α : Type} (field : ParserState → α) : field t.base = field (s.moveTo p) := congrArg field base
  exact ⟨resting_of_moveTo fresh.resting base, (same (·.reports)).trans fresh.silent,
    (same (·.tokens.reports)).trans fresh.waiting, (same (·.tokens.reported)).trans fresh.known⟩

/-- **The same is read and said** by two parsers, with any bounds that pay for it. -/
def ReadAlike (options : CompileOptions) (resolver resolver' : Resolver) (s t : ParserState) : Prop :=
  ∀ fuel more, s.here.rest.length < fuel → t.here.rest.length < more →
    ∃ found found' u v, parseAll options resolver fuel [] s = .ok found u ∧
      parseAll options resolver' more [] t = .ok found' v ∧
      found'.map Node.strip = found.map Node.strip ∧
      v.reports.toList.map Report.said = u.reports.toList.map Report.said

namespace ReadAlike

lemma symm (alike : ReadAlike options resolver resolver' s t) :
    ReadAlike options resolver' resolver t s := by
  intro fuel more enough enough'
  obtain ⟨found, found', u, v, run, run', values, reports⟩ := alike more fuel enough' enough
  exact ⟨found', found, v, u, run', run, values.symm, reports.symm⟩

lemma trans {resolver'' : Resolver} (first : ReadAlike options resolver resolver' s t)
    (second : ReadAlike options resolver' resolver'' t u) :
    ReadAlike options resolver resolver'' s u := by
  intro fuel more enough enough'
  obtain ⟨found, among, v, x, run, middle, values, reports⟩ :=
    first fuel _ enough (Nat.lt_succ_self _)
  obtain ⟨among', found', x', w, middle', run', values', reports'⟩ :=
    second _ more (Nat.lt_succ_self _) enough'
  rw [middle] at middle'
  cases middle'
  exact ⟨found, found', v, w, run, run', values'.trans values, reports'.trans reports⟩

/-- What two parsers read that run in parallel. -/
lemma of_both {P : Parallel} (front : P.front = []) (outside : Outside s) (outside' : Outside t)
    (both : ∀ fuel, P.Both P.Lasting (Node.LikeValues P.likeness)
      (parseAll options resolver (fuel + 1) [] s) (parseAll options resolver' (fuel + 1) [] t)) :
    ReadAlike options resolver resolver' s t := by
  intro fuel more enough enough'
  obtain ⟨bound, hbound⟩ : ∃ n, fuel + more = n + 1 := ⟨fuel + more - 1, by omega⟩
  have both := both bound
  rw [← hbound] at both
  obtain ⟨found, found', u, v, run, run', values, lasting⟩ :=
    exists_parseAll_both outside outside' enough enough' both []
  obtain ⟨later, reports, told⟩ := lasting.reports
  refine ⟨found, found', u, v, run, run', map_eq_of_forall₂ values fun like => like.strip_eq, ?_⟩
  rw [reports, front]
  refine map_eq_of_forall₂ told fun {a b} told => ?_
  rw [Report.said, Report.said, told.severity, told.message, told.category, told.hints]

/-- **What is skipped in front of a text** makes no difference. -/
lemma of_skipped (resolver : Resolver) (resting : s.Resting) (settled : s.Settled)
    (skips : skipTrivia true s.here = skipTrivia true p) :
    ReadAlike options resolver resolver s (s.moveTo p) := by
  have outside : Outside s := resting.outside settled
  have outside' : Outside (s.moveTo p) :=
    (resting_of_moveTo (t := s.moveTo p) resting rfl).outside ⟨rfl, trivial⟩
  have itself (origin : Origin) : Parallel.itself.likeness.Origins origin origin := ⟨fun _ => rfl, rfl, rfl⟩
  have told (report : Report) : report.Told Parallel.itself.likeness report := by
    refine ⟨rfl, rfl, rfl, rfl, ?_⟩
    cases report.offset with
    | none => exact .none
    | some offset => exact .some rfl
  have adrift : Parallel.itself.Adrift s.lexis s.here s (s.moveTo p) :=
    { policy := rfl
      operators := rfl
      macros := (Definitions.Like.refl_of itself s.visible).macros
      exported := fun _ => .refl_of itself s.exported
      scope := rfl
      inside := fun _ => trivial
      lastId := fun _ => rfl
      recovering := rfl
      depth := rfl
      suppressed := rfl
      awaited := rfl
      imports := fun _ => rfl
      reports := ⟨_, rfl, List.forall₂_same.mpr fun report _ => told report⟩
      waiting := List.forall₂_same.mpr fun report _ => told report
      reported := (List.map_id _).symm
      settled := settled
      settled' := ⟨rfl, trivial⟩
      anchor := ⟨rfl, rfl, p, skips, ⟨(List.append_nil _).symm, rfl, rfl⟩⟩ }
  exact of_both rfl outside outside' fun fuel =>
    (Parallel.drifts_parseAll trivial (Parallel.delivers_itself resolver) fuel .nil).both
      ⟨adrift, outside.toBetween⟩

/-- Values are read alike wherever they stand, if the same definitions are in force. -/
lemma of_carried (fresh : s.Fresh) (fresh' : t.Fresh) (settled : s.Settled) (settled' : t.Settled)
    (policy : t.tokens.policy = s.tokens.policy) (visible : t.visible = s.visible)
    (rest : t.here.rest = s.here.rest) (previous : t.here.previous = s.here.previous)
    (ordinary : OnlyValues options resolver' t) : ReadAlike options resolver resolver' s t := by
  have outside : Outside s := fresh.resting.outside settled
  have outside' : Outside t := fresh'.resting.outside settled'
  -- Either parser may be the one that stands further on.
  rcases Nat.le_total s.here.offset t.here.offset with le | le
  · have abreast := Parallel.abreast_unnumbered fresh fresh' settled settled' policy visible rest previous le
    exact of_both rfl outside outside' fun _ => abreast.parseAll_values (.inr ordinary) _ .nil
  · have abreast := Parallel.abreast_unnumbered fresh' fresh settled' settled policy.symm visible.symm
      rest.symm previous.symm le
    exact symm (of_both rfl outside' outside fun _ => abreast.parseAll_values (.inl ordinary) _ .nil)

/-- **Values are read alike behind the same definitions**, wherever they stand and whatever is skipped in
front of them. -/
theorem of_values (fresh : s.Fresh) (fresh' : t.Fresh) (settled : s.Settled) (settled' : t.Settled)
    (policy : t.tokens.policy = s.tokens.policy) (visible : t.visible = s.visible)
    (skips : skipTrivia true s.here = skipTrivia true p) (rest : t.here.rest = p.rest)
    (previous : t.here.previous = p.previous) (ordinary : OnlyValues options resolver' t) :
    ReadAlike options resolver resolver' s t := by
  have moved : (s.moveTo p).Fresh := fresh_of_moveTo (t := s.moveTo p) fresh rfl
  have skipped : ReadAlike options resolver resolver s (s.moveTo p) :=
    .of_skipped resolver fresh.resting settled skips
  exact skipped.trans
    (.of_carried moved fresh' ⟨rfl, trivial⟩ settled' policy visible rest previous ordinary)

/-- Compilations that come to parsers that read alike. -/
lemma compile (alike : ReadAlike options resolver resolver' s t) {source source' : Source}
    {i j : ImportState} {fuel more : Nat} (enough : s.here.rest.length < fuel)
    (enough' : t.here.rest.length < more)
    (goes : parseAll options resolver (source.length + 1) [] (initial options source i)
      = parseAll options resolver fuel [] s)
    (goes' : parseAll options resolver' (source'.length + 1) [] (initial options source' j)
      = parseAll options resolver' more [] t) :
    let first := (TreeLang.compile options resolver source i).1
    let second := (TreeLang.compile options resolver' source' j).1
    second.values.map Node.strip = first.values.map Node.strip ∧
      second.reports.map Report.said = first.reports.map Report.said := by
  obtain ⟨found, found', u, v, run, run', values, reports⟩ := alike fuel more enough enough'
  intro first second
  have first_eq : first = (Harmony.finish source (.ok found u)).1 := by
    rw [← run, ← goes]
    exact congrArg Prod.fst (Harmony.compile_eq _ _ _ _)
  have second_eq : second = (Harmony.finish source' (.ok found' v)).1 := by
    rw [← run', ← goes']
    exact congrArg Prod.fst (Harmony.compile_eq _ _ _ _)
  rw [first_eq, second_eq]
  exact ⟨values, reports⟩

end ReadAlike

/-! ## Definitions, written and imported -/

/-- **A source that goes on behind definitions**, and the parser that has come to what follows. -/
lemma exists_written {first whole : Source} {tail : List Char} {values : List Node} {imports : ImportState}
    (chars : whole.chars = first.chars ++ '\n' :: tail) (ends : first.chars.getLast? ≠ some '\\')
    (unbroken : ∀ s, Reaches options resolver (initial options first imports) s →
      ∀ op ∈ s.visible.operators.definitions, '\n' ∉ op.name.toList)
    (run : parseAll options resolver (first.length + 1) [] (initial options first imports) = .ok values u)
    (silent : u.reports = #[]) :
    ∃ w offset least, w.Settled ∧ w.Fresh ∧ w.visible = u.visible ∧
      w.tokens.policy = options.invalidUnicodeEscape ∧
      skipTrivia true w.here = skipTrivia true ⟨offset, some '\n', tail⟩ ∧
      w.here.rest.length < least ∧
      parseAll options resolver (whole.length + 1) [] (initial options whole imports)
        = parseAll options resolver least values.reverse w := by
  obtain ⟨v, w, least, reaches, -, resting, base, through, enough, goes⟩ :=
    exists_through chars ends (fun s reaches _ => unbroken s reaches) run silent
  obtain ⟨q, -, -, skips⟩ := through.skips
  have same {α : Type} (field : ParserState → α) : field w.base = field (v.moveTo w.here) :=
    congrArg field through.base
  have policy : v.tokens.policy = options.invalidUnicodeEscape :=
    policy_of_reaches (outside_initial _ _).settled (resting_initial _ _) reaches
  have fresh : v.Fresh := ⟨resting, through.silent, through.waiting, through.known⟩
  exact ⟨w, _, least, through.settled', fresh_of_moveTo fresh through.base,
    (same (·.visible)).trans (congrArg ParserState.visible base :).symm,
    (same (·.tokens.policy)).trans policy, skips, enough, goes⟩

/-- Nothing was defined and nothing imported when a source begins. -/
lemma gathered_initial (source : Source) (imports : ImportState) :
    (initial options source imports).Gathered (initial options source imports).visible.operators :=
  ⟨rfl, List.Pairwise.nil, nofun, List.nil_subset _, rfl⟩

/-- **Definitions imported are definitions written.**  A source that does nothing but define, and gives
no cause for a report, may go on with values, or be imported by a source that goes on with them.  The
values are the same, and so is what is reported about them, if no operator that is in force between the
definitions reaches over a line break. -/
theorem compile_imported (options : CompileOptions) (resolver resolver' : Resolver)
    (name name' first second path : String) {i j k : ImportState} (isPath : IsPath path.toList)
    (defines : Defines options resolver (initial options ⟨name, first⟩ i))
    (ends : first.toList.getLast? ≠ some '\\')
    (clean : (compile options resolver ⟨name, first⟩ i).1.reports = [])
    (unbroken : ∀ s, Reaches options resolver (initial options ⟨name, first⟩ i) s →
      ∀ op ∈ s.visible.operators.definitions, '\n' ∉ op.name.toList)
    (found : resolver' path j = .ok (.ok (compile options resolver ⟨name, first⟩ i).1.definitions) k)
    (ordinary : ∀ values s, sourceRound options resolver' pure []
        (initial options ⟨name', "use " ++ path ++ "\n" ++ second⟩ j) = .ok values s →
      OnlyValues options resolver' s) :
    let written := (compile options resolver ⟨name, first ++ "\n" ++ second⟩ i).1
    let imported := (compile options resolver' ⟨name', "use " ++ path ++ "\n" ++ second⟩ j).1
    imported.values.map Node.strip = written.values.map Node.strip ∧
      imported.reports.map Report.said = written.reports.map Report.said := by
  intro written imported
  set whole : Source := ⟨name, first ++ "\n" ++ second⟩
  set importing : Source := ⟨name', "use " ++ path ++ "\n" ++ second⟩
  -- The definitions by themselves.
  obtain ⟨values, u, run, -⟩ : ∃ values u, parseAll options resolver (Source.length ⟨name, first⟩ + 1) []
      (initial options ⟨name, first⟩ i) = .ok values u ∧ _ :=
    parseAll_ends (outside_initial ⟨name, first⟩ i) (Nat.lt_succ_self _) []
  have alone : compile options resolver ⟨name, first⟩ i = Harmony.finish ⟨name, first⟩ (.ok values u) := by
    rw [← run]
    exact Harmony.compile_eq _ _ _ _
  rw [alone] at clean found
  obtain ⟨gathered, rfl⟩ := gathered_of_defines (outside_initial _ _).settled (resting_initial _ _) defines
    (gathered_initial _ _) run
  -- Behind them, where they are written.
  obtain ⟨w, offset, least, settled, fresh, visible, policy, skips, enough, goes⟩ :=
    exists_written (show whole.chars = Source.chars ⟨name, first⟩ ++ '\n' :: second.toList by
      simp [whole, Source.chars]) ends unbroken run (Array.toList_eq_nil_iff.mp clean)
  -- Behind them, where they are imported.
  obtain ⟨t, round, settled', behind⟩ : ∃ t, (∀ next values,
      sourceRound options resolver' next values (initial options importing j) = next values t) ∧ _ :=
    exists_imported isPath (show importing.chars = _ ++ ' ' :: (path.toList ++ '\n' :: second.toList) by
      simp [importing, Source.chars]) found gathered.copyFrom
  set known : ParserState := { initial options importing j with visible := u.visible, imports := k }
  have fresh' : t.Fresh := fresh_of_moveTo
    (show known.Fresh from ⟨⟨rfl, rfl, rfl, rfl, rfl⟩, rfl, rfl, rfl⟩) behind
  have same {α : Type} (field : ParserState → α) : field t.base = field (known.moveTo _) :=
    congrArg field behind
  have here : t.here = ⟨path.length + 5, some '\n', second.toList⟩ := same (·.here)
  have alike : ReadAlike options resolver resolver' w t :=
    .of_values fresh fresh' settled settled' ((same (·.tokens.policy)).trans policy.symm)
      ((same (·.visible)).trans visible.symm) skips (by rw [here]) (by rw [here]) (ordinary [] t (round _ _))
  have begins : "use ".toList.length = 4 := by decide +kernel
  refine alike.compile enough ?_ goes
    (show _ = parseAll options resolver' importing.length [] t by rw [parseAll_succ, round])
  rw [here]
  simp only [importing, Source.length, Source.chars, String.toList_append, List.length_append, begins]
  omega

/-- How it is seen of a given source that it does nothing but define. -/
lemma defines_of_rounds (rounds : Nat) (settled : s.Settled) (resting : s.Resting)
    (checked : throughout (fun t => decide ((t.reads true .word).token.kind = .endOfInput) ||
      (t.lexis.statementAt? t.here).any defining) options resolver rounds s = true) :
    Defines options resolver s := by
  intro t reaches more
  have passes := reaches_of_rounds _ rounds settled resting checked reaches
  rw [Bool.or_eq_true, or_iff_right (by simpa using more), Option.any_eq_true] at passes
  exact passes

/-- How it is seen of a given source that behind its first statement there are only values. -/
lemma onlyValues_of_rounds (rounds : Nat) (settled : s.Settled) (resting : s.Resting)
    (checked : (match sourceRound options resolver pure [] s with
      | .ok _ t => throughout (fun t => (t.lexis.statementAt? t.here).isNone) options resolver rounds t
      | .error _ _ => true) = true) :
    ∀ values t, sourceRound options resolver pure [] s = .ok values t → OnlyValues options resolver t := by
  intro values t run u reaches
  obtain ⟨_, _, round, settled, resting, -⟩ := ends_sourceRound_resting settled resting []
  obtain ⟨rfl, rfl⟩ := ok_unique round run
  rw [run] at checked
  exact Option.isNone_iff_eq_none.mp (reaches_of_rounds _ rounds settled resting checked reaches)

/-- For instance, behind a macro and an operator, with a closer that is none. -/
theorem compile_imported_of_pair :
    let options : CompileOptions := { defaultOperators := false }
    let first := "macro pair(x): [x, x]\noperator \"~\" as prefix"
    let second := "pair(~a)\nb)"
    let definitions := (compile options (tableResolver []) ⟨"", first⟩ {}).1.definitions
    let resolver := tableResolver [("lib", definitions)]
    let imported := (compile options resolver ⟨"", "use " ++ "lib" ++ "\n" ++ second⟩ {}).1
    (imported.values.map Node.strip).map Node.text = ["[~(a), ~(a)]", "b"] ∧
      imported.reports.map Report.category = [.grammar] := by
  intro options first second definitions resolver imported
  have isPath : IsPath "lib".toList := .of_isWord (by decide +kernel)
  have defines : Defines options (tableResolver []) (initial options ⟨"", first⟩ {}) :=
    defines_of_rounds 3 (outside_initial _ _).settled (resting_initial _ _) (by decide +kernel)
  have unbroken : ∀ s, Reaches options (tableResolver []) (initial options ⟨"", first⟩ {}) s →
      ∀ op ∈ s.visible.operators.definitions, '\n' ∉ op.name.toList :=
    unbroken_of_rounds 3 (by decide +kernel)
  obtain ⟨values, reports⟩ := compile_imported (j := {}) options (tableResolver []) resolver "" "" first
    second "lib" isPath defines (by decide +kernel) (by decide +kernel) unbroken rfl
    (onlyValues_of_rounds 4 (outside_initial _ _).settled (resting_initial _ _) (by decide +kernel))
  have categories : imported.reports.map Report.category
      = (imported.reports.map Report.said).map fun said => said.2.2.1 := by
    rw [List.map_map]
    rfl
  rw [categories, reports, values]
  exact ⟨by decide +kernel, by decide +kernel⟩

/-- An operator whose name holds a line break may begin in the last line of what is defined: where that is
followed by another line, it is read. -/
theorem report_of_written_line_break :
    let options : CompileOptions := { defaultOperators := false }
    let first := "operator \"@)\\n\" as postfix\nmacro m: (a@)"
    let alone := (compile options (tableResolver []) ⟨"", first⟩ {}).1
    let written := (compile options (tableResolver []) ⟨"", first ++ "\n" ++ "m"⟩ {}).1
    let resolver := tableResolver [("lib", alone.definitions)]
    let imported := (compile options resolver ⟨"", "use lib\nm"⟩ {}).1
    alone.reports = [] ∧ first.toList.getLast? ≠ some '\\' ∧ imported.reports = [] ∧
      written.reports ≠ [] := by
  refine ⟨?_, ?_, ?_, ?_⟩ <;> decide +kernel

end Parser

end TreeLang
