import TreeLang.Proofs.Escaping
import TreeLang.Proofs.SelfContained

/-!
# What the options say of severities

Three options say how serious a problem is: a repeated key, an operator that cannot be registered, a
malformed escape.  They say nothing else.  Two compilations of a source that stands by itself, under
options that agree otherwise, come to the same tree and the same definitions, and their reports differ
in those severities alone, and in the reports on escapes where one of the policies has none.

The two parsers stand side by side all the way.  What each knows of its reports differs: a place where
the one reported an escape is unknown to the other, so that offsets may be compared only where no
backslash stands.

* `CompileOptions.strict`, `Report.muffle` — options and reports without the severities in question.
* `heard` — what is heard of reports, whichever policies they were made under.
* `TokenStream.Muffled`, `ParserState.Muffled` — streams and states that differ in reports alone.
* `uniform_muffled` — steps keep parsers side by side.
* **`compile_muffled`** — the compilations of a source.
-/

namespace TreeLang

/-! ## Options and reports -/

/-- The options with the strictest severities. -/
def CompileOptions.strict (options : CompileOptions) : CompileOptions :=
  { options with
    allowDuplicateProperties := false
    allowInvalidOperators := false
    invalidUnicodeEscape := .error }

/-- Whether the options say how serious a report is. -/
def Report.isOptional (report : Report) : Bool :=
  match report.cause with
  | .duplicateKey _ | .rejectedOperator _ _ | .invalidEscape _ _ _ => true
  | _ => false

/-- A report without its severity, if the options say how serious it is. -/
def Report.muffle (report : Report) : Report :=
  if report.isOptional then report.withSeverity .error else report

@[simp] lemma Report.isEscape_muffle (report : Report) : report.muffle.isEscape = report.isEscape := by
  rw [muffle]
  split <;> rfl

lemma Report.isOptional_of_isEscape {report : Report} (escapes : report.isEscape = true) :
    report.isOptional = true := by
  rw [isEscape] at escapes
  rw [isOptional]
  split at escapes
  · rename_i cause
    simp [cause]
  · cases escapes

/-- A severity that the options decide is not heard. -/
lemma Report.muffle_withSeverity {report : Report} (optional : report.isOptional = true)
    (severity : Severity) : (report.withSeverity severity).muffle = report.withSeverity .error :=
  if_pos optional

/-- Whether one of two policies has no reports on escapes. -/
def EscapePolicy.silences (policy policy' : EscapePolicy) : Bool :=
  policy = .ignore || policy' = .ignore

/-- **What is heard of reports**: those on escapes only where no policy silences them, and none with a
severity that the options decide. -/
def heard (silenced : Bool) (reports : List Report) : List Report :=
  (reports.filter fun report => !(silenced && report.isEscape)).map Report.muffle

section Heard

variable {silenced : Bool} {report report' : Report} {reports reports' more more' : List Report}

@[simp] lemma heard_append : heard silenced (reports ++ more) = heard silenced reports ++ heard silenced more := by
  simp [heard]

/-- Reports that differ in such a severity sound alike. -/
lemma heard_singleton (escapes : report'.isEscape = report.isEscape)
    (same : report'.muffle = report.muffle) : heard silenced [report'] = heard silenced [report] := by
  simp only [heard, List.filter_cons, escapes, List.filter_nil]
  split <;> simp [same]

/-- A report on an escape is not heard where such reports are silenced. -/
lemma heard_escape (escapes : report.isEscape = true) : heard true [report] = [] := by
  simp [heard, escapes]

/-- What is heard is the same once the reports on escapes are removed. -/
lemma muffle_of_heard (same : heard silenced reports' = heard silenced reports) :
    (reports'.filter fun report => !report.isEscape).map Report.muffle
      = (reports.filter fun report => !report.isEscape).map Report.muffle := by
  have removed (reports : List Report) :
      (reports.filter fun report => !report.isEscape).map Report.muffle
        = (heard silenced reports).filter fun report => !report.isEscape := by
    rw [heard, List.filter_map, List.filter_filter]
    refine congrArg _ (List.filter_congr fun report _ => ?_)
    cases silenced <;> cases escapes : report.isEscape <;> simp [escapes]
  rw [removed, removed, same]

/-- Where nothing is silenced the reports on escapes are heard as well. -/
lemma muffle_escapes_of_heard (same : heard false reports' = heard false reports) :
    (reports'.filter Report.isEscape).map Report.muffle
      = (reports.filter Report.isEscape).map Report.muffle := by
  have removed (reports : List Report) :
      (reports.filter Report.isEscape).map Report.muffle
        = (heard false reports).filter Report.isEscape := by
    rw [heard, List.filter_map, List.filter_filter]
    refine congrArg _ (List.filter_congr fun report _ => ?_)
    simp
  rw [removed, removed, same]

end Heard

/-! ## Streams -/

namespace TokenStream

variable {text : List Char} {silenced : Bool} {policy policy' : EscapePolicy} {u v w : TokenStream}

/-- **What two streams know of their reports**: those that wait sound alike, and the same offsets are
known, except those of backslashes where reports on escapes are silenced. -/
structure Tallied (text : List Char) (silenced : Bool) (u v : TokenStream) : Prop where
  waiting : heard silenced v.reports = heard silenced u.reports
  reported : ∀ offset, (silenced = true → text[offset]? ≠ some '\\') →
    (offset ∈ v.reported ↔ offset ∈ u.reported)

namespace Tallied

lemma symm (tallied : Tallied text silenced u v) : Tallied text silenced v u :=
  ⟨tallied.waiting.symm, fun offset other => (tallied.reported offset other).symm⟩

/-- A report on both sides. -/
lemma report {r r' : Report} (tallied : Tallied text silenced u v) (marks : r.Marks text)
    (audible : silenced = true → r.isEscape = false) (offset : r'.offset = r.offset)
    (sounds : heard silenced [r'] = heard silenced [r]) :
    Tallied text silenced (u.report r) (v.report r') := by
  have other : silenced = true → text[r.offset.getD 0]? ≠ some '\\' := by
    intro silent stands
    rw [Report.Marks, audible silent, decide_eq_true stands] at marks
    cases marks
  have known : v.reported.contains (r.offset.getD 0) = u.reported.contains (r.offset.getD 0) := by
    rw [Bool.eq_iff_iff, List.contains_iff_mem, List.contains_iff_mem]
    exact tallied.reported _ other
  simp only [TokenStream.report, offset, known]
  split
  · exact tallied
  · exact ⟨by rw [heard_append, heard_append, tallied.waiting, sounds], fun place elsewhere => by
      rw [List.mem_cons, List.mem_cons, tallied.reported place elsewhere]⟩

/-- A report on an escape on one side, where such reports are silenced. -/
lemma escape {r : Report} (tallied : Tallied text true u v) (marks : r.Marks text)
    (escapes : r.isEscape = true) : Tallied text true (u.report r) v := by
  have stands : text[r.offset.getD 0]? = some '\\' := by
    rw [Report.Marks, escapes] at marks
    exact of_decide_eq_true marks.symm
  simp only [TokenStream.report]
  split
  · exact tallied
  · refine ⟨by rw [heard_append, heard_escape escapes, List.append_nil, tallied.waiting],
      fun offset elsewhere => ?_⟩
    have other : offset ≠ r.offset.getD 0 := by
      rintro rfl
      exact elsewhere rfl stands
    rw [List.mem_cons, tallied.reported offset elsewhere]
    exact ⟨.inr, fun mem => mem.resolve_left other⟩

/-- What is made of such a report on one side. -/
lemma voice {r : Report} (tallied : Tallied text true u v) (marks : r.Marks text)
    (escapes : r.isEscape = true) (policy : EscapePolicy) :
    Tallied text true (u.absorb (policy.voice? r).toList) v := by
  rw [EscapePolicy.voice?, if_pos escapes]
  cases policy.severity? with
  | none => exact tallied
  | some severity => exact tallied.escape (r := r.withSeverity severity) marks escapes

/-- **Reports about a token** under both policies. -/
theorem absorb {reports : List Report} (marks : ∀ r ∈ reports, r.Marks text)
    (tallied : Tallied text (policy.silences policy') u v) :
    Tallied text (policy.silences policy') (u.absorb (reports.filterMap policy.voice?))
      (v.absorb (reports.filterMap policy'.voice?)) := by
  have cons (policy : EscapePolicy) (w : TokenStream) (r : Report) (rest : List Report) :
      w.absorb ((r :: rest).filterMap policy.voice?)
        = (w.absorb (policy.voice? r).toList).absorb (rest.filterMap policy.voice?) := by
    rw [List.filterMap_cons]
    cases policy.voice? r <;> rfl
  induction reports generalizing u v with
  | nil => exact tallied
  | cons r rest ih =>
    have mark := marks r List.mem_cons_self
    rw [cons, cons]
    refine ih (fun r mem => marks r (List.mem_cons_of_mem _ mem)) ?_
    cases escapes : r.isEscape with
    | false =>
      simp only [EscapePolicy.voice?, escapes, Bool.false_eq_true, if_false]
      exact tallied.report mark (fun _ => escapes) rfl rfl
    | true =>
      cases silences : policy.silences policy' with
      | true =>
        rw [silences] at tallied
        exact ((tallied.voice mark escapes policy).symm.voice mark escapes policy').symm
      | false =>
        rw [silences] at tallied
        have muffled := Report.muffle_withSeverity (Report.isOptional_of_isEscape escapes)
        obtain ⟨severity, h⟩ : ∃ severity, policy.severity? = some severity := by
          cases policy <;> simp_all [EscapePolicy.silences, EscapePolicy.severity?]
        obtain ⟨severity', h'⟩ : ∃ severity, policy'.severity? = some severity := by
          cases policy' <;> simp_all [EscapePolicy.silences, EscapePolicy.severity?]
        simp only [EscapePolicy.voice?, escapes, if_true, h, h']
        have marks : (r.withSeverity severity).Marks text := mark
        exact tallied.report marks (fun silent => nomatch silent) rfl
          (heard_singleton rfl ((muffled severity').trans (muffled severity).symm))

end Tallied

/-- **Streams that differ in reports alone**, each under a policy of its own. -/
structure Muffled (text : List Char) (policy policy' : EscapePolicy) (u v : TokenStream) : Prop
    extends Tallied text (policy.silences policy') u v where
  policy : u.policy = policy
  policy' : v.policy = policy'
  anchor : v.anchor = u.anchor
  handed : v.handed = u.handed
  ahead : v.ahead = u.ahead
  /-- The streams stay in the text, also with what they read ahead. -/
  reaches : (Place.start text).Reaches u.anchor
  entries : ∀ entry ∈ u.handed ++ u.ahead, (Place.start text).Reaches entry.after

namespace Muffled

lemma place (muffled : Muffled text policy policy' u v) : v.place = u.place := by
  rw [TokenStream.place, TokenStream.place, muffled.handed, muffled.anchor]

lemma reaches_place (muffled : Muffled text policy policy' u v) :
    (Place.start text).Reaches u.place := by
  have entries := muffled.entries
  rw [TokenStream.place]
  split
  · exact muffled.reaches
  · rename_i last rest handed
    exact entries last (by simp [handed])

lemma read (muffled : Muffled text policy policy' u v) (operators : OperatorRegistry)
    (skipBreaks : Bool) (mode : Mode) :
    (v.read operators skipBreaks mode).1 = (u.read operators skipBreaks mode).1 ∧
      Muffled text policy policy' (u.read operators skipBreaks mode).2
        (v.read operators skipBreaks mode).2 := by
  set strict := lex operators .error skipBreaks mode u.place
  have lexeme : lex operators u.policy skipBreaks mode u.place = strict.under policy := by
    rw [muffled.policy, lex_policy]
  have lexeme' : lex operators v.policy skipBreaks mode v.place = strict.under policy' := by
    rw [muffled.policy', muffled.place, lex_policy]
  have reaches := muffled.reaches_place
  have tallied := muffled.toTallied.absorb (marks_lex operators .error skipBreaks mode reaches)
  set entry : ReadAhead := ⟨strict.token, strict.after, skipBreaks, mode⟩
  have taken : (u.read operators skipBreaks mode).2 = { u.absorb (strict.under policy).reports with
      anchor := u.anchor, handed := entry :: u.handed, ahead := [] } := by
    rw [TokenStream.read, lexeme]
    exact absorb_with u u.anchor (entry :: u.handed) [] _
  have taken' : (v.read operators skipBreaks mode).2 = { v.absorb (strict.under policy').reports with
      anchor := v.anchor, handed := entry :: v.handed, ahead := [] } := by
    rw [TokenStream.read, lexeme']
    exact absorb_with v v.anchor (entry :: v.handed) [] _
  refine ⟨by rw [TokenStream.read, TokenStream.read, lexeme, lexeme']; rfl, ?_⟩
  rw [taken, taken']
  refine ⟨⟨tallied.waiting, tallied.reported⟩, (policy_absorb _ _).trans muffled.policy,
    (policy_absorb _ _).trans muffled.policy', muffled.anchor,
    congrArg (entry :: ·) muffled.handed, rfl, muffled.reaches, fun other mem => ?_⟩
  rw [List.append_nil] at mem
  rcases List.mem_cons.mp mem with rfl | mem
  · exact reaches.trans (reaches_lex ..)
  · exact muffled.entries other (List.mem_append_left _ mem)

/-- **The next token** is the same on both sides. -/
theorem next (muffled : Muffled text policy policy' u v) (operators : OperatorRegistry)
    (skipBreaks : Bool) (mode : Mode) :
    (v.next operators skipBreaks mode).1 = (u.next operators skipBreaks mode).1 ∧
      Muffled text policy policy' (u.next operators skipBreaks mode).2
        (v.next operators skipBreaks mode).2 := by
  rw [TokenStream.next, TokenStream.next, muffled.ahead]
  split
  · exact muffled.read operators skipBreaks mode
  · rename_i entry rest ahead
    split
    · refine ⟨rfl, ⟨⟨muffled.waiting, muffled.reported⟩, muffled.policy, muffled.policy',
        muffled.anchor, congrArg (entry :: ·) muffled.handed, rfl, muffled.reaches,
        fun other mem => muffled.entries other ?_⟩⟩
      rw [ahead]
      simp only [List.mem_append, List.mem_cons] at mem ⊢
      tauto
    · exact muffled.read operators skipBreaks mode

lemma rewind (muffled : Muffled text policy policy' u v) :
    Muffled text policy policy' u.rewind v.rewind where
  toTallied := ⟨muffled.waiting, muffled.reported⟩
  policy := muffled.policy
  policy' := muffled.policy'
  anchor := muffled.anchor
  handed := rfl
  ahead := congrArg₂ (fun handed ahead => List.reverse handed ++ ahead) muffled.handed muffled.ahead
  reaches := muffled.reaches
  entries entry mem := by
    refine muffled.entries entry ?_
    simpa [TokenStream.rewind] using mem

lemma commit (muffled : Muffled text policy policy' u v) :
    Muffled text policy policy' u.commit v.commit where
  toTallied := ⟨muffled.waiting, muffled.reported⟩
  policy := muffled.policy
  policy' := muffled.policy'
  anchor := muffled.place
  handed := rfl
  ahead := muffled.ahead
  reaches := muffled.reaches_place
  entries entry mem := muffled.entries entry (List.mem_append_right _ mem)

lemma forget (muffled : Muffled text policy policy' u v) :
    Muffled text policy policy' u.forget v.forget where
  toTallied := ⟨muffled.waiting, muffled.reported⟩
  policy := muffled.policy
  policy' := muffled.policy'
  anchor := muffled.anchor
  handed := rfl
  ahead := rfl
  reaches := muffled.reaches
  entries _ mem := nomatch mem

/-- Where the reports are taken none waits. -/
lemma taken (muffled : Muffled text policy policy' u v) :
    Muffled text policy policy' { u with reports := [] } { v with reports := [] } :=
  { muffled with
    waiting := rfl
    reported := muffled.reported }

lemma start (policy policy' : EscapePolicy) (text : List Char) :
    Muffled text policy policy' (.start policy text) (.start policy' text) where
  toTallied := ⟨rfl, fun _ _ => Iff.rfl⟩
  policy := rfl
  policy' := rfl
  anchor := rfl
  handed := rfl
  ahead := rfl
  reaches := .refl _
  entries _ mem := nomatch mem

end Muffled

end TokenStream

/-! ## Parsers side by side -/

/-- **States that differ in reports alone.** -/
structure ParserState.Muffled (text : List Char) (policy policy' : EscapePolicy) (s s' : ParserState) :
    Prop where
  tokens : s.tokens.Muffled text policy policy' s'.tokens
  recorded : heard (policy.silences policy') s'.reports.toList
    = heard (policy.silences policy') s.reports.toList
  rest : s' = { s with tokens := s'.tokens, reports := s'.reports }

namespace ParserState.Muffled

variable {text : List Char} {policy policy' : EscapePolicy} {s s' : ParserState}

/-- What shows of a state apart from its reports is the same. -/
lemma plain (muffled : s.Muffled text policy policy' s') : s'.plain = s.plain := by
  rw [muffled.rest]
  simp only [ParserState.plain, muffled.tokens.place]

/-- The streams, or the reports, or both have changed. -/
lemma change (muffled : s.Muffled text policy policy' s') {u v : TokenStream}
    {reports reports' : Array Report} (tokens : u.Muffled text policy policy' v)
    (recorded : heard (policy.silences policy') reports'.toList
      = heard (policy.silences policy') reports.toList) :
    ParserState.Muffled text policy policy' { s with tokens := u, reports := reports }
      { s' with tokens := v, reports := reports' } :=
  ⟨tokens, recorded, by rw [muffled.rest]⟩

lemma lookAhead (muffled : s.Muffled text policy policy' s') {u v : TokenStream}
    (tokens : u.Muffled text policy policy' v) :
    ParserState.Muffled text policy policy' { s with tokens := u } { s' with tokens := v } :=
  muffled.change tokens muffled.recorded

/-- What waits is recorded. -/
lemma flush (muffled : s.Muffled text policy policy' s') :
    s.flush.Muffled text policy policy' s'.flush := by
  have recovering : s'.recovering = s.recovering := by rw [muffled.rest]
  refine muffled.change muffled.tokens.taken ?_
  rw [recovering]
  split
  · exact muffled.recorded
  · rw [Array.toList_appendList, Array.toList_appendList, heard_append, heard_append,
      muffled.recorded, muffled.tokens.waiting]

/-- A statement begins the same way on both sides. -/
lemma isSelfContained (muffled : s.Muffled text policy policy' s') :
    s'.lexis.isSelfContained s'.here = s.lexis.isSelfContained s.here := by
  have here : s'.here = s.here := muffled.tokens.anchor
  have operators : s'.visible.operators = s.visible.operators := by rw [muffled.rest]
  have strict (skipBreaks : Bool) (mode : Mode) (place : Place) (s : ParserState) :
      s.lexis.read skipBreaks mode place = (lex s.visible.operators .error skipBreaks mode place).under
        s.tokens.policy := lex_policy ..
  simp only [Lexis.isSelfContained, Lexis.statementAt?, Lexis.behindName, here, strict, operators,
    Lexeme.under]

end ParserState.Muffled

namespace Parser

open TreeLang.Harmony (registerOperator_eq enlistVisibleOperator enlistExportedOperator)

variable {α β : Type} {text : List Char} {policy policy' : EscapePolicy} {s s' t : ParserState}

/-- **Outcomes that differ in reports alone**: the same value or the same fault. -/
inductive Alongside (R : ParserState → ParserState → Prop) :
    EStateM.Result Fault ParserState α → EStateM.Result Fault ParserState α → Prop
  | ok (value : α) {t t' : ParserState} : R t t' → Alongside R (.ok value t) (.ok value t')
  | error (fault : Fault) {t t' : ParserState} : R t t' → Alongside R (.error fault t) (.error fault t')

/-- **Steps that keep two parsers side by side.** -/
def Abide (text : List Char) (policy policy' : EscapePolicy) (step step' : Parser α) : Prop :=
  ∀ s s', s.Muffled text policy policy' s' →
    Alongside (ParserState.Muffled text policy policy') (step s) (step' s')

namespace Abide

lemma modifyGet {change change' : ParserState → α × ParserState}
    (related : ∀ s s', s.Muffled text policy policy' s' → (change' s').1 = (change s).1 ∧
      (change s).2.Muffled text policy policy' (change' s').2) :
    Abide text policy policy' (MonadStateOf.modifyGet change) (MonadStateOf.modifyGet change') := by
  intro s s' muffled
  obtain ⟨value, muffled⟩ := related s s' muffled
  show Alongside _ (.ok (change s).1 (change s).2) (.ok (change' s').1 (change' s').2)
  rw [value]
  exact .ok _ muffled

lemma modify {change change' : ParserState → ParserState}
    (related : ∀ s s', s.Muffled text policy policy' s' →
      (change s).Muffled text policy policy' (change' s')) :
    Abide text policy policy' (MonadStateOf.modifyGet fun s => ((), change s)) (MonadStateOf.modifyGet fun s => ((), change' s)) :=
  modifyGet fun s s' muffled => ⟨rfl, related s s' muffled⟩

/-- A change of what a parser has in mind. -/
lemma change {change : ParserState → α × ParserState}
    (seen : ∀ s, change s = ((change s.plain).1, s.adopt (change s.plain).2)) :
    Abide text policy policy' (MonadStateOf.modifyGet change) (MonadStateOf.modifyGet change) := by
  refine modifyGet fun s s' muffled => ?_
  rw [seen s, seen s', muffled.plain]
  exact ⟨rfl, muffled.tokens, muffled.recorded, rfl⟩

lemma pure (value : α) : Abide text policy policy' (Pure.pure value) (Pure.pure value) :=
  fun _ _ muffled => .ok value muffled

lemma bind {step step' : Parser α} {next next' : α → Parser β}
    (first : Abide text policy policy' step step')
    (second : ∀ value, Abide text policy policy' (next value) (next' value)) :
    Abide text policy policy' (step >>= next) (step' >>= next') := by
  intro s s' muffled
  have related := first s s' muffled
  generalize hp : step s = p, hq : step' s' = q at related
  cases related with
  | ok value muffled =>
    rw [bind_ok hp, bind_ok hq]
    exact second value _ _ muffled
  | error fault muffled =>
    rw [bind_error hp, bind_error hq]
    exact .error fault muffled

lemma attempt {step step' : Parser α} (related : Abide text policy policy' step step') :
    Abide text policy policy' (attempt step) (attempt step') := by
  intro s s' muffled
  have outcome := related s s' muffled
  rw [Parser.attempt, Parser.attempt]
  generalize step s = p, step' s' = q at outcome
  cases outcome with
  | ok value muffled => exact .ok _ muffled
  | error fault muffled => exact .ok _ muffled

lemma lookAhead (skipBreaks : Bool) (mode : Mode) :
    Abide text policy policy' (lookAhead skipBreaks mode) (Parser.lookAhead skipBreaks mode) := by
  refine modifyGet fun s s' muffled => ?_
  have operators : s'.visible.operators = s.visible.operators := by rw [muffled.rest]
  obtain ⟨token, tokens⟩ := muffled.tokens.next s.visible.operators skipBreaks mode
  rw [← operators] at token tokens
  exact ⟨operators ▸ token, operators ▸ muffled.lookAhead tokens⟩

lemma noteLexical : Abide text policy policy' noteLexical noteLexical := by
  intro s s' muffled
  rw [noteLexical_eq, noteLexical_eq]
  exact .ok () muffled.flush

lemma commit : Abide text policy policy' commit commit := by
  intro s s' muffled
  rw [commit_eq, commit_eq]
  exact .ok () (muffled.lookAhead muffled.tokens.commit).flush

lemma forget : Abide text policy policy' forget forget :=
  modify fun _ _ muffled => muffled.lookAhead muffled.tokens.forget

/-- Reports that sound alike are recorded on both sides, or on neither. -/
lemma note {report report' : Report} (sounds : heard (policy.silences policy') [report']
      = heard (policy.silences policy') [report]) :
    Abide text policy policy' (note report) (Parser.note report') := by
  refine modify fun s s' muffled => ?_
  have recovering : s'.recovering = s.recovering := by rw [muffled.rest]
  by_cases attends : s.recovering = true
  · rw [if_pos attends, if_pos (recovering.trans attends)]
    exact muffled
  · rw [if_neg attends, if_neg (recovering ▸ attends)]
    refine muffled.change muffled.tokens ?_
    rw [Array.toList_push, Array.toList_push, heard_append, heard_append, muffled.recorded, sounds]

/-- A report whose severity the options decide. -/
lemma noteOptional {report : Report} (optional : report.isOptional = true)
    (severity severity' : Severity) : Abide text policy policy'
      (Parser.note (report.withSeverity severity)) (Parser.note (report.withSeverity severity')) :=
  note (heard_singleton rfl ((Report.muffle_withSeverity optional severity').trans
    (Report.muffle_withSeverity optional severity).symm))

end Abide

/-- **Steps keep two parsers side by side**, under options that differ in severities. -/
theorem uniform_muffled {options options' : CompileOptions} (agree : options'.strict = options.strict)
    (text : List Char) : Uniform options options'
      (Abide text options.invalidUnicodeEscape options'.invalidUnicodeEscape) where
  collapse := congrArg (·.collapseUnaryOperation) agree
  pure := .pure
  throw fault := fun _ _ muffled => .error fault muffled
  bind := .bind
  attempt := .attempt
  lookAhead := .lookAhead
  rewind := .modify fun _ _ muffled => muffled.lookAhead muffled.tokens.rewind
  commit := .commit
  noteLexical := .noteLexical
  note report := .note rfl
  change seen _ := .change seen
  removeMacros name kinds := .change fun _ => rfl
  restart := .modify fun s s' muffled =>
    ⟨muffled.tokens.forget, muffled.recorded, by rw [muffled.rest]; rfl⟩
  repeated offset key := .noteOptional rfl _ _
  registerOperator op offset := by
    have visible : Abide text options.invalidUnicodeEscape options'.invalidUnicodeEscape
        (enlistVisibleOperator op) (enlistVisibleOperator op) := .change fun _ => rfl
    have exported : Abide text options.invalidUnicodeEscape options'.invalidUnicodeEscape
        (enlistExportedOperator op) (enlistExportedOperator op) := .change fun _ => rfl
    rw [registerOperator_eq, registerOperator_eq]
    refine visible.bind fun conflict => ?_
    cases conflict with
    | some conflict => exact (Abide.noteOptional rfl _ _).bind fun _ => .forget
    | none =>
      refine exported.bind fun conflict => ?_
      cases conflict with
      | some conflict => exact (Abide.noteOptional rfl _ _).bind fun _ => .forget
      | none => exact .forget
  dropOperators name keyword offset cause := by
    refine Abide.bind (.change fun _ => rfl) fun removed => Abide.bind ?_ fun _ => .forget
    rw [warnIfNone]
    split
    · exact .note rfl
    · exact .pure _

/-! ## Sources -/

variable {options options' : CompileOptions} {resolver : Resolver}

/-- **A source that stands by itself** is read side by side. -/
theorem alongside_parseAll (agree : options'.strict = options.strict)
    (settled : s.Settled) (resting : s.Resting) (settled' : s'.Settled) (resting' : s'.Resting)
    (contained : SelfContained options resolver s)
    (muffled : s.Muffled text options.invalidUnicodeEscape options'.invalidUnicodeEscape s')
    (fuel : Nat) (values : List Node) :
    Alongside
      (ParserState.Muffled text options.invalidUnicodeEscape options'.invalidUnicodeEscape)
      (parseAll options resolver fuel values s) (parseAll options' resolver fuel values s') := by
  have uniform := uniform_muffled agree text
  induction fuel generalizing s s' values with
  | zero => exact uniform.throw .exhausted s s' muffled
  | succ fuel ih =>
    obtain ⟨_, t, looked, -, rfl, -⟩ := ends_peek settled true .word
    obtain ⟨token, t', looked', -, other, -⟩ := ends_peek settled' true .word
    have peeked := uniform.peek true .word s s' muffled
    rw [looked, looked'] at peeked
    obtain ⟨-, behind⟩ := peeked
    rw [parseAll_succ, parseAll_succ, sourceRound_eq, sourceRound_eq, bind_ok looked,
      bind_ok looked']
    by_cases ended : (s.reads true .word).token.kind = .endOfInput
    · rw [if_pos ended, if_pos ended]
      exact (uniform.bind uniform.noteLexical fun _ => uniform.pure _) t t' behind
    rw [if_neg ended, if_neg ended]
    have round : roundFrom options resolver (s.reads true .word).token t
        = plainRound options (s.reads true .word).token t :=
      roundFrom_eq_plain settled (contained s (.here s)) looked
    have round' : roundFrom options' resolver (s.reads true .word).token t'
        = plainRound options' (s.reads true .word).token t' :=
      roundFrom_eq_plain settled' (muffled.isSelfContained.trans (contained s (.here s))) looked'
    have together := uniform.plainRound (s.reads true .word).token t t' behind
    generalize hp : plainRound options (s.reads true .word).token t = p,
      hq : plainRound options' (s.reads true .word).token t' = q at together
    cases together with
    | error fault muffled =>
      rw [bind_error (round.trans hp), bind_error (round'.trans hq)]
      exact .error fault muffled
    | ok added muffled =>
      have reaches := Reaches.of_round settled looked ended (round.trans hp)
      have reaches' := Reaches.of_round settled' looked' (other ▸ ended) (round'.trans hq)
      obtain ⟨settled, resting⟩ := resting_of_reaches settled resting reaches
      obtain ⟨settled', resting'⟩ := resting_of_reaches settled' resting' reaches'
      rw [bind_ok (round.trans hp), bind_ok (round'.trans hq)]
      exact ih settled resting settled' resting' (contained.reached reaches) muffled _

lemma muffled_initial (agree : options'.strict = options.strict) (source : Source)
    (imports : ImportState) :
    (initial options source imports).Muffled source.chars options.invalidUnicodeEscape
      options'.invalidUnicodeEscape (initial options' source imports) := by
  have operators : options'.defaultOperators = options.defaultOperators :=
    congrArg (·.defaultOperators) agree
  refine ⟨.start _ _ _, rfl, ?_⟩
  simp only [initial, operators]

/-- **Severities change nothing but reports.**  Under options that differ in severities alone, a source
that stands by itself has the same tree and the same definitions.  Its reports are the same but for
those severities, those on escapes left aside; and those on escapes are the same but for theirs, unless
one of the policies has none. -/
theorem compile_muffled (options options' : CompileOptions) (resolver : Resolver) (source : Source)
    (imports : ImportState) (agree : options'.strict = options.strict)
    (contained : SelfContained options resolver (initial options source imports)) :
    let compiled := (compile options resolver source imports).1
    let compiled' := (compile options' resolver source imports).1
    compiled'.root = compiled.root ∧
      compiled'.definitions = compiled.definitions ∧
      (compiled'.reports.filter fun report => !report.isEscape).map Report.muffle
        = (compiled.reports.filter fun report => !report.isEscape).map Report.muffle ∧
      (options.invalidUnicodeEscape ≠ .ignore → options'.invalidUnicodeEscape ≠ .ignore →
        (compiled'.reports.filter Report.isEscape).map Report.muffle
          = (compiled.reports.filter Report.isEscape).map Report.muffle) := by
  have together := alongside_parseAll agree (outside_initial source imports).settled
    (resting_initial source imports) (outside_initial source imports).settled
    (resting_initial source imports) contained (muffled_initial agree source imports)
    (source.length + 1) []
  rw [Harmony.compile_eq, Harmony.compile_eq]
  generalize parseAll options resolver _ _ _ = p, parseAll options' resolver _ _ _ = q at together
  cases together with
  | error fault muffled =>
    refine ⟨rfl, ?_, rfl, fun _ _ => rfl⟩
    rw [muffled.rest]
    rfl
  | ok values muffled =>
    refine ⟨rfl, ?_, muffle_of_heard muffled.recorded, fun audible audible' => ?_⟩
    · rw [muffled.rest]
      rfl
    · have recorded := muffled.recorded
      rw [show options.invalidUnicodeEscape.silences options'.invalidUnicodeEscape = false by
        simp [EscapePolicy.silences, audible, audible']] at recorded
      exact muffle_escapes_of_heard recorded

/-- For instance, a repeated key, an escape without its digits and an operator that exists are three
errors, or three warnings. -/
theorem compile_muffled_of_three_mistakes :
    let lenient : CompileOptions := ⟨true, true, true, true, .warn, true⟩
    let source : Source := ⟨"", "\x7ba: x, a: \"\\u12\"\x7d\noperator \"+\" as binary"⟩
    let strictly := (compile {} (tableResolver []) source {}).1
    let leniently := (compile lenient (tableResolver []) source {}).1
    lenient.strict = CompileOptions.strict {} ∧
      SelfContained {} (tableResolver []) (initial {} source {}) ∧
      strictly.errorCount = 3 ∧ leniently.errorCount = 0 ∧ leniently.root = strictly.root := by
  intro lenient source strictly leniently
  have agree : lenient.strict = CompileOptions.strict {} := rfl
  have contained : SelfContained {} (tableResolver []) (initial {} source {}) :=
    selfContained_of_rounds 5 (outside_initial source {}).settled (resting_initial source {})
      (by decide +kernel)
  exact ⟨agree, contained, by decide +kernel, by decide +kernel,
    (compile_muffled {} lenient (tableResolver []) source {} agree contained).1⟩

end Parser

end TreeLang
