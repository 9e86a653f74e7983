import TreeLang.Proofs.Conforming
import TreeLang.Proofs.Continuing
import TreeLang.Proofs.Harmony

/-!
# Two parsers abreast

The same text may stand in two sources, behind texts of different lengths.  Two parsers that stand in
front of it with definitions that are alike read it step by step in the same way: the one gives the
offsets of the other some characters further on, and the nodes they make, the definitions they
register and the reports they record are alike.

* `Report.Told` — the same report, where offsets correspond.
* `Parallel`, **`Parallel.Abreast`** — how two parsers relate, and that they stand in front of the same
  text; `Looking` while they look ahead.
* `Parallel.Both`, **`Parallel.Follows`** — outcomes that correspond, and steps that keep two parsers
  abreast.
* `follows_peek`, `follows_advance`, `follows_note`, `follows_recover` — the steps that read tokens, that
  report, and that recover from a mistake.
-/

namespace TreeLang

variable {α β γ δ : Type} {L : Likeness}

/-! ## Reports -/

/-- Causes that say the same. -/
structure Cause.Same (a b : Cause) : Prop where
  message : b.message = a.message
  category : b.category = a.category
  hints : b.hints = a.hints

lemma Cause.Same.refl (cause : Cause) : cause.Same cause :=
  ⟨rfl, rfl, rfl⟩

/-- **The same report**, at offsets that correspond. -/
structure Report.Told (L : Likeness) (a b : Report) : Prop where
  severity : b.severity = a.severity
  message : b.message = a.message
  category : b.category = a.category
  hints : b.hints = a.hints
  offset : Option.Rel L.offset a.offset b.offset

namespace Report.Told

variable {a b : Report}

lemma withSeverity (told : Told L a b) (severity : Severity) :
    Told L (a.withSeverity severity) (b.withSeverity severity) :=
  ⟨rfl, told.message, told.category, told.hints, told.offset⟩

lemma isError_eq (told : Told L a b) : b.isError = a.isError := by
  rw [isError, isError, told.severity]

end Report.Told

/-- A report without a place is the same wherever it is put. -/
lemma Report.Unplaced.told {report : Report} (unplaced : report.Unplaced) {o o' : Nat}
    (offset : L.offset o o') : Told L (report.atOffset o) (report.atOffset o') := by
  have none : report.offset = none := unplaced
  refine ⟨rfl, rfl, rfl, rfl, ?_⟩
  simp only [atOffset, none, Option.getD_none]
  exact .some offset

lemma told_errorAt {o o' : Nat} {cause cause' : Cause} (offset : L.offset o o')
    (same : cause.Same cause') : Report.Told L (.errorAt o cause) (.errorAt o' cause') :=
  ⟨rfl, same.message, same.category, same.hints, .some offset⟩

lemma told_shift {ahead : Nat} (shifts : ∀ o, L.offset o (o + ahead)) (report : Report) :
    Report.Told L report (report.shift ahead) := by
  refine ⟨rfl, rfl, rfl, rfl, ?_⟩
  obtain ⟨_, _, offset, _⟩ := report
  cases offset with
  | none => exact .none
  | some offset => exact .some (shifts offset)

/-! ### Reports about tokens -/

section Placed

variable {operators : OperatorRegistry} {policy : EscapePolicy}

/-- A report at a place of its own. -/
def Report.Placed (report : Report) : Prop :=
  report.offset.isSome = true

/-- **What is reported about a token stands somewhere.** -/
lemma placed_lex (operators : OperatorRegistry) (policy : EscapePolicy) (skipBreaks : Bool)
    (mode : Mode) (place : Place) :
    ∀ report ∈ (lex operators policy skipBreaks mode place).reports, report.Placed := by
  intro report mem
  cases ofToken_lex operators policy skipBreaks mode place report mem <;> rfl

/-- Reports that stand further on are absorbed by a stream that stands further on. -/
lemma absorb_shift {ahead : Nat} (shifts : ∀ o, L.offset o (o + ahead)) {u v : TokenStream}
    (waiting : List.Forall₂ (Report.Told L) u.reports v.reports)
    (reported : v.reported = u.reported.map (· + ahead)) {reports : List Report}
    (placed : ∀ report ∈ reports, report.Placed) :
    List.Forall₂ (Report.Told L) (u.absorb reports).reports
        (v.absorb (reports.map (·.shift ahead))).reports ∧
      (v.absorb (reports.map (·.shift ahead))).reported
        = (u.absorb reports).reported.map (· + ahead) := by
  induction reports generalizing u v with
  | nil => exact ⟨waiting, reported⟩
  | cons report rest ih =>
    obtain ⟨offset, known⟩ := Option.isSome_iff_exists.mp (placed report List.mem_cons_self)
    have shifted : (report.shift ahead).offset = some (offset + ahead) := by
      simp [Report.shift, known]
    have before : v.reported.contains (offset + ahead) = u.reported.contains offset := by
      rw [reported, Bool.eq_iff_iff, List.contains_iff_mem, List.contains_iff_mem, List.mem_map]
      refine ⟨?_, fun mem => ⟨_, mem, rfl⟩⟩
      rintro ⟨_, mem, same⟩
      exact Nat.add_right_cancel same ▸ mem
    refine ih ?_ ?_ fun report mem => placed report (List.mem_cons_of_mem _ mem)
    · simp only [TokenStream.report, known, shifted, Option.getD_some, before]
      split
      · exact waiting
      · exact List.rel_append waiting (.cons (told_shift shifts report) .nil)
    · simp only [TokenStream.report, known, shifted, Option.getD_some, before]
      split
      · exact reported
      · rw [List.map_cons, reported]

end Placed

/-! ## Parsers that run in parallel -/

/-- **How two parsers relate to each other.** -/
structure Parallel where
  likeness : Likeness
  /-- How many characters further on the second one stands. -/
  ahead : Nat
  /-- What the second one reported before. -/
  front : List Report
  /-- Which states of imports correspond to each other. -/
  joint : ImportState → ImportState → Prop
  shifts : ∀ offset, likeness.offset offset (offset + ahead)
  supplies : ∀ {i j}, joint i j → j.supply = i.supply
  shares : ∀ {i j}, joint i j → joint i.shared j.shared

namespace Parallel

open TreeLang.Parser

variable {P : Parallel} {s t u v : ParserState}

/-- **What two parsers have in common** wherever they stand. -/
structure Lasting (P : Parallel) (s t : ParserState) : Prop where
  policy : t.tokens.policy = s.tokens.policy
  operators : t.visible.operators = s.visible.operators
  macros : s.visible.macros.Like P.likeness t.visible.macros
  exported : P.likeness.exact → s.exported.Like P.likeness t.exported
  scope : t.scope = s.scope
  /-- A template is read only where numbers count. -/
  inside : s.scope.isSome → P.likeness.exact
  lastId : P.likeness.exact → t.lastId = s.lastId
  recovering : t.recovering = s.recovering
  depth : t.depth = s.depth
  suppressed : t.suppressed = s.suppressed
  awaited : t.awaited = s.awaited
  imports : P.likeness.exact → P.joint s.imports t.imports
  reports : ∃ later, t.reports.toList = P.front ++ later ∧
    List.Forall₂ (Report.Told P.likeness) s.reports.toList later
  waiting : List.Forall₂ (Report.Told P.likeness) s.tokens.reports t.tokens.reports
  reported : t.tokens.reported = s.tokens.reported.map (· + P.ahead)

/-- Places in front of the same text, however that is cut into tokens. -/
abbrev Along (P : Parallel) (_ : Lexis) (p q : Place) : Prop :=
  p.Carried P.ahead [] q

/-- **Two parsers that look ahead**, from places that relate to each other to the same place. -/
structure Looking (P : Parallel) (A : Lexis → Place → Place → Prop) (s t : ParserState) : Prop
    extends Lasting P s t where
  coherent : s.tokens.Coherent s.visible.operators
  coherent' : t.tokens.Coherent t.visible.operators
  anchor : A s.lexis s.here t.here
  place : s.tokens.place.Carried P.ahead [] t.tokens.place

/-- **Two parsers in front of the same text.** -/
structure Abreast (P : Parallel) (s t : ParserState) : Prop extends Looking P P.Along s t where
  handed : s.tokens.handed = []
  handed' : t.tokens.handed = []

namespace Abreast

lemma settled (abreast : P.Abreast s t) : s.Settled :=
  ⟨abreast.handed, abreast.coherent⟩

lemma settled' (abreast : P.Abreast s t) : t.Settled :=
  ⟨abreast.handed', abreast.coherent'⟩

/-- Parsers that relate to each other, between two tokens in front of the same text. -/
lemma of_settled (lasting : P.Lasting s t) (settled : s.Settled) (settled' : t.Settled)
    (here : s.here.Carried P.ahead [] t.here) : P.Abreast s t where
  toLasting := lasting
  coherent := settled.coherent
  coherent' := settled'.coherent
  anchor := here
  place := by
    rw [TokenStream.place, TokenStream.place, settled.handed, settled'.handed]
    exact here
  handed := settled.handed
  handed' := settled'.handed

end Abreast

/-- **Outcomes that correspond**: values that are related, in states that are; or the same fault. -/
inductive Both (P : Parallel) (R : ParserState → ParserState → Prop) (V : α → β → Prop) :
    EStateM.Result Fault ParserState α → EStateM.Result Fault ParserState β → Prop where
  | ok {a : α} {b : β} {s t : ParserState} (related : V a b) (states : R s t) :
    Both P R V (.ok a s) (.ok b t)
  | fault {s t : ParserState} (fault : Fault) (abreast : P.Abreast s t) :
    Both P R V (.error fault s) (.error fault t)

/-- **Steps that lead two parsers** from states that are related to states that are. -/
structure Leads (P : Parallel) (R R' : ParserState → ParserState → Prop) (V : α → β → Prop)
    (step : Parser α) (other : Parser β) : Prop where
  both : ∀ {s t}, R s t → P.Both R' V (step s) (other t)

/-- **Steps that keep two parsers abreast**, with values that are related. -/
abbrev Follows (P : Parallel) (V : α → β → Prop) (step : Parser α) (other : Parser β) : Prop :=
  P.Leads P.Abreast P.Abreast V step other

variable {R R' R'' : ParserState → ParserState → Prop} {V V' : α → β → Prop} {W : γ → δ → Prop}
  {A : Lexis → Place → Place → Prop}

/-! ### Steps one after the other -/

lemma Both.mono {p : EStateM.Result Fault ParserState α} {q : EStateM.Result Fault ParserState β}
    (both : P.Both R V p q) (h : ∀ a b, V a b → V' a b) : P.Both R V' p q := by
  cases both with
  | ok related states => exact .ok (h _ _ related) states
  | fault fault abreast => exact .fault fault abreast

namespace Leads

lemma mono {step : Parser α} {other : Parser β} (leads : P.Leads R R' V step other)
    (h : ∀ a b, V a b → V' a b) : P.Leads R R' V' step other :=
  ⟨fun states => (leads.both states).mono h⟩

/-- Less is known of the states that two steps lead to. -/
lemma weaken {step : Parser α} {other : Parser β} (leads : P.Leads R R' V step other)
    (h : ∀ {s t}, R' s t → R'' s t) : P.Leads R R'' V step other := by
  refine ⟨fun {s t} states => ?_⟩
  have both := leads.both states
  generalize step s = p, other t = q at both
  cases both with
  | ok related states => exact .ok related (h states)
  | fault fault abreast => exact .fault fault abreast

lemma pure {a : α} {b : β} (related : V a b) : P.Leads R R V (Pure.pure a) (Pure.pure b) :=
  ⟨fun states => .ok related states⟩

lemma throw (fault : Fault) : P.Follows V (MonadExcept.throw fault : Parser α)
    (MonadExcept.throw fault : Parser β) :=
  ⟨fun abreast => .fault fault abreast⟩

/-- **Steps one after the other.** -/
theorem bind {step : Parser α} {other : Parser β} {next : α → Parser γ} {next' : β → Parser δ}
    (first : P.Leads R R' V step other)
    (second : ∀ a b, V a b → P.Leads R' R'' W (next a) (next' b)) :
    P.Leads R R'' W (step >>= next) (other >>= next') := by
  refine ⟨fun {s t} states => ?_⟩
  have both := first.both states
  simp only [Bind.bind, EStateM.bind]
  generalize step s = p, other t = q at both
  cases both with
  | ok related states => exact (second _ _ related).both states
  | fault fault abreast => exact .fault fault abreast

/-- Steps that are chosen by the same condition. -/
lemma either {condition : Prop} [Decidable condition] {yes no : Parser α} {yes' no' : Parser β}
    (h : condition → P.Leads R R' V yes yes') (h' : ¬ condition → P.Leads R R' V no no') :
    P.Leads R R' V (if condition then yes else no) (if condition then yes' else no') := by
  split
  · exact h ‹_›
  · exact h' ‹_›

lemma ite {condition : Prop} [Decidable condition] {yes no : Parser α} {yes' no' : Parser β}
    (h : P.Leads R R' V yes yes') (h' : P.Leads R R' V no no') :
    P.Leads R R' V (if condition then yes else no) (if condition then yes' else no') :=
  either (fun _ => h) fun _ => h'

/-- Steps one after the other, the first of which has one value. -/
lemma after {step other : Parser α} {next : α → Parser γ} {next' : α → Parser δ}
    (first : P.Leads R R' Eq step other) (second : ∀ a, P.Leads R' R'' W (next a) (next' a)) :
    P.Leads R R'' W (step >>= next) (other >>= next') :=
  first.bind fun a _ same => same ▸ second a

/-- A step that looks at the state first. -/
lemma get {next : ParserState → Parser γ} {next' : ParserState → Parser δ}
    (h : ∀ {s t}, R s t → P.Both R' W (next s s) (next' t t)) :
    P.Leads R R' W (MonadState.get >>= next) (MonadState.get >>= next') :=
  ⟨h⟩

/-- A step that changes the state. -/
lemma change {f g : ParserState → ParserState} (h : ∀ {s t}, R s t → R' (f s) (g t)) :
    P.Leads R R' Eq (modify f : Parser Unit) (modify g : Parser Unit) :=
  ⟨fun states => .ok rfl (h states)⟩

/-- A step for each of two lists of items that are related. -/
lemma forM {ι κ : Type} {I : ι → κ → Prop} {step : ι → Parser PUnit} {other : κ → Parser PUnit}
    (h : ∀ i k, I i k → P.Follows Eq (step i) (other k)) {items : List ι} {others : List κ}
    (related : List.Forall₂ I items others) :
    P.Follows Eq (items.forM step) (others.forM other) := by
  induction related with
  | nil => exact .pure rfl
  | cons first _ ih => exact (h _ _ first).after fun _ => ih

end Leads

/-! ## Reports -/

lemma Lasting.push {report other : Report} (lasting : P.Lasting s t)
    (told : report.Told P.likeness other) : P.Lasting
      { s with reports := s.reports.push report } { t with reports := t.reports.push other } :=
  { lasting with
    reports := by
      obtain ⟨later, same, related⟩ := lasting.reports
      refine ⟨later ++ [other], ?_, ?_⟩
      · simp [same]
      · simpa using List.rel_append related (.cons told .nil) }

lemma follows_note {report other : Report} (told : report.Told P.likeness other) :
    P.Follows Eq (note report) (note other) := by
  refine ⟨fun {s t} abreast => ?_⟩
  rw [note_eq, note_eq]
  refine .ok rfl ?_
  by_cases recovering : s.recovering = true
  · rw [if_pos recovering, if_pos (abreast.recovering.trans recovering)]
    exact abreast
  · rw [if_neg recovering, if_neg (abreast.recovering ▸ recovering)]
    exact { abreast with toLasting := abreast.push told }

lemma follows_complain {o o' : Nat} {cause cause' : Cause} (offset : P.likeness.offset o o')
    (same : cause.Same cause') : P.Follows Eq (complain o cause) (complain o' cause') :=
  follows_note (told_errorAt offset same)

/-- A mistake of which nothing depends on where it is. -/
lemma follows_complain_at (offset : Nat) (cause : Cause) :
    P.Follows Eq (complain offset cause) (complain (offset + P.ahead) cause) :=
  follows_complain (P.shifts offset) (.refl cause)

lemma Lasting.flush (lasting : P.Lasting s t) : P.Lasting s.flush t.flush :=
  { lasting with
    reports := by
      obtain ⟨later, same, related⟩ := lasting.reports
      simp only [ParserState.flush, lasting.recovering]
      split
      · exact ⟨later, same, related⟩
      · refine ⟨later ++ t.tokens.reports, by simp [same], ?_⟩
        simpa using List.rel_append related lasting.waiting
    waiting := .nil }

lemma follows_noteLexical : P.Follows Eq noteLexical noteLexical := by
  refine ⟨fun {s t} abreast => ?_⟩
  rw [noteLexical_eq, noteLexical_eq]
  exact .ok rfl { abreast with toLasting := abreast.flush }

/-! ## Tokens -/

/-- The same token further on. -/
def Further (P : Parallel) (token other : Token) : Prop :=
  other = token.shift P.ahead

/-- What two parsers look at is the same if it is the same that is in front of them. -/
lemma Looking.of_onto (lasting : P.Lasting s t) (coherent : s.tokens.Coherent s.visible.operators)
    (coherent' : t.tokens.Coherent t.visible.operators) (anchor : A s.lexis s.here t.here)
    {skipBreaks : Bool} {mode : Mode}
    (onto : Lexeme.Onto P.ahead [] skipBreaks
      (s.tokens.lexemeHere s.visible.operators skipBreaks mode)
      (t.tokens.lexemeHere t.visible.operators skipBreaks mode)) :
    P.Both (P.Looking A)
      (fun token other => token = (s.tokens.lexemeHere s.visible.operators skipBreaks mode).token ∧
        P.Further token other)
      (lookAhead skipBreaks mode s) (lookAhead skipBreaks mode t) := by
  obtain ⟨ahead, look, coherent⟩ := lookAhead_eq coherent skipBreaks mode
  obtain ⟨ahead', look', coherent'⟩ := lookAhead_eq coherent' skipBreaks mode
  have placed : ∀ report ∈ (s.tokens.lexemeHere s.visible.operators skipBreaks mode).reports,
      report.Placed := placed_lex _ _ _ _ _
  rw [look, look']
  cases onto with
  | faulty more => exact absurd rfl more
  | ended more => exact absurd rfl more
  | same token after reports =>
    obtain ⟨waiting, reported⟩ := absorb_shift P.shifts lasting.waiting lasting.reported placed
    rw [← reports] at waiting reported
    refine .ok ⟨rfl, token⟩ { lasting with
      policy := ?_
      waiting := waiting
      reported := reported
      coherent := coherent
      coherent' := coherent'
      anchor := ?_
      place := after }
    · simp only [TokenStream.handOut, TokenStream.policy_absorb, lasting.policy]
    · simp only [ParserState.lexis, ParserState.here, TokenStream.handOut, TokenStream.policy_absorb,
        TokenStream.anchor_absorb]
      exact anchor

/-- **Two parsers look at the same token.** -/
theorem leads_lookAhead (skipBreaks : Bool) (mode : Mode) :
    P.Leads (P.Looking A) (P.Looking A) P.Further (lookAhead skipBreaks mode)
      (lookAhead skipBreaks mode) := by
  refine ⟨fun {s t} looking => (Looking.of_onto looking.toLasting looking.coherent looking.coherent'
    looking.anchor ?_).mono fun _ _ same => same.2⟩
  rw [TokenStream.lexemeHere, TokenStream.lexemeHere, looking.operators, looking.policy]
  exact lex_onto (.inl rfl) skipBreaks (fun more => absurd rfl more)
    (fun _ more => absurd rfl more) looking.place

/-- What was looked at is given back. -/
lemma leads_rewind : P.Leads (P.Looking P.Along) P.Abreast Eq rewind rewind :=
  .change fun looking => .of_settled { looking with } (settled_rewind looking.coherent)
    (settled_rewind looking.coherent') looking.anchor

/-- What was looked at is taken. -/
lemma leads_commit : P.Leads (P.Looking A) P.Abreast Eq commit commit := by
  refine ⟨fun {s t} looking => ?_⟩
  rw [commit_eq, commit_eq]
  have lasting : P.Lasting { s with tokens := s.tokens.commit } { t with tokens := t.tokens.commit } :=
    { looking with }
  exact .ok rfl (.of_settled lasting.flush (settled_commit looking.coherent)
    (settled_commit looking.coherent') looking.place)

lemma follows_forget : P.Follows Eq forget forget :=
  .change fun abreast => .of_settled { abreast with } ⟨rfl, trivial⟩ ⟨rfl, trivial⟩ abreast.anchor

/-- Before anything is looked at. -/
lemma Leads.looking {step : Parser α} {other : Parser β}
    (leads : P.Leads (P.Looking P.Along) R V step other) :
    P.Leads P.Abreast R V step other :=
  ⟨fun abreast => leads.both abreast.toLooking⟩

/-- **The next token is the same**, further on. -/
theorem follows_peek (skipBreaks : Bool) (mode : Mode) :
    P.Follows P.Further (peek skipBreaks mode) (peek skipBreaks mode) :=
  .looking <| (leads_lookAhead skipBreaks mode).bind fun _ _ further =>
    leads_rewind.after fun _ => .pure further

theorem follows_advance (skipBreaks : Bool) (mode : Mode) :
    P.Follows P.Further (advance skipBreaks mode) (advance skipBreaks mode) :=
  .looking <| (leads_lookAhead skipBreaks mode).bind fun _ _ further =>
    leads_commit.after fun _ => .pure further

lemma follows_skipToken (skipBreaks : Bool) (mode : Mode) :
    P.Follows Eq (skipToken skipBreaks mode) (skipToken skipBreaks mode) :=
  (follows_advance skipBreaks mode).bind fun _ _ _ => .pure rfl

lemma follows_position : P.Follows P.likeness.offset position position :=
  .get fun {s t} abreast => .ok (by
    have place := abreast.place
    rw [TokenStream.position, TokenStream.position, place.offset]
    exact P.shifts _) abreast

lemma follows_remaining : P.Follows Eq remaining remaining :=
  .get fun {s t} abreast => .ok (by
    have place := abreast.place
    rw [place.rest, List.append_nil]) abreast

/-! ## Marks and groups -/

lemma follows_parameterIndex? (word : String) :
    P.Follows Eq (parameterIndex? word) (parameterIndex? word) :=
  .get fun {s t} abreast => .ok (by rw [abreast.scope]) abreast

lemma follows_takeSuppressed : P.Follows Eq takeSuppressed takeSuppressed :=
  ⟨fun abreast => .ok abreast.suppressed.symm { abreast with suppressed := rfl }⟩

lemma follows_setSuppressed (suppressed : Bool) :
    P.Follows Eq (setSuppressed suppressed) (setSuppressed suppressed) :=
  .change fun abreast => { abreast with suppressed := rfl }

lemma follows_await (closer : TokenKind) : P.Follows Eq (await closer) (await closer) :=
  .change fun abreast => { abreast with awaited := by simp only [abreast.awaited] }

lemma follows_settle : P.Follows Eq settle settle :=
  .change fun abreast => { abreast with awaited := by simp only [abreast.awaited] }

lemma follows_closesAwaited (kind : TokenKind) :
    P.Follows Eq (closesAwaited kind) (closesAwaited kind) :=
  .get fun {s t} abreast => .ok (by rw [abreast.awaited]) abreast

/-! ## Recovery -/

lemma follows_skipGroup (fuel : Nat) (closer : Option TokenKind) :
    P.Follows Eq (skipGroup fuel closer) (skipGroup fuel closer) := by
  induction fuel generalizing closer with
  | zero => exact .throw _
  | succ fuel ih =>
    refine (follows_peek _ _).bind fun token _ further => ?_
    subst further
    refine .ite (.pure rfl) ((follows_closesAwaited token.kind).after fun closes => ?_)
    refine .ite (.pure rfl) ((follows_skipToken _ _).after fun _ => .ite (.pure rfl) ?_)
    exact .ite ((ih _).after fun _ => ih _) (ih _)

lemma follows_skipToSeparator (fuel : Nat) (closer : Option TokenKind) :
    P.Follows Eq (skipToSeparator fuel closer) (skipToSeparator fuel closer) := by
  induction fuel generalizing closer with
  | zero => exact .throw _
  | succ fuel ih =>
    refine (follows_peek _ _).bind fun token _ further => ?_
    subst further
    refine .ite (.pure rfl) ((follows_closesAwaited token.kind).after fun closes => ?_)
    refine .ite (.pure rfl) ((follows_skipToken _ _).after fun _ => .ite (.pure rfl) ?_)
    exact .ite ((follows_skipGroup _ _).after fun _ => ih _) (ih _)

/-- **Two parsers recover alike.** -/
theorem follows_recover (closer : Option TokenKind) :
    P.Follows Eq (recover closer) (recover closer) := by
  have attend (recovering : Bool) : P.Follows Eq
      (modify fun s : ParserState => { s with recovering := recovering })
      (modify fun s : ParserState => { s with recovering := recovering }) :=
    .change fun abreast => { abreast with recovering := rfl }
  exact (attend true).after fun _ => follows_remaining.after fun _ =>
    (follows_skipToSeparator _ _).after fun _ => attend false

/-- A mistake in a statement. -/
lemma follows_giveUp {o o' : Nat} {cause cause' : Cause} (offset : P.likeness.offset o o')
    (same : cause.Same cause') : P.Follows Eq (giveUp o cause) (giveUp o' cause') :=
  (follows_complain offset same).after fun _ => follows_recover none

end Parallel

end TreeLang
