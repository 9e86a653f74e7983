import Mathlib.Tactic.Common
import TreeLang.Parse.State

/-!
# What was read ahead does not show

A stream keeps the tokens it read ahead, and a parser that goes back and reads on may be handed a
kept token or a fresh one.  This file shows that it cannot tell: what a stream holds is always what
it would read.  So a parser can be followed as if it read every token where it stands.

* `TokenStream.Coherent` — every kept token is what would be read at its place.
* **`TokenStream.next_eq`** — the next token of a coherent stream is the one at its place.
* `ParserState.Settled`, `ParserState.base` — a state between two tokens, and that state without
  what was read ahead.
* **`Parser.Runs`** — a step leads from a state to a state, whatever was read ahead.
* `Parser.bind_ok`, `bind_get`, `bind_modify` — what a step and those behind it do to a state.
* `Parser.Runs.bind`, `runs_peek`, `runs_advance` — how such steps compose, and the basic ones.
-/

namespace TreeLang

/-! ## Coherent streams -/

namespace TokenStream

/-- Entries that are, one after the other, what is read from a place on, and of which whatever was
wrong with them was reported. -/
def Chained (operators : OperatorRegistry) (policy : EscapePolicy) (reported : List Nat) :
    Place → List ReadAhead → Prop
  | _, [] => True
  | place, entry :: rest =>
    let lexeme := lex operators policy entry.skipBreaks entry.mode place
    entry.token = lexeme.token ∧ entry.after = lexeme.after ∧
      (∀ report ∈ lexeme.reports, report.offset.getD 0 ∈ reported) ∧
      Chained operators policy reported entry.after rest

/-- The place after the last of some entries. -/
def lastPlace (place : Place) (entries : List ReadAhead) : Place :=
  (entries.getLast?.map ReadAhead.after).getD place

/-- **What a stream holds is what it would read** under the operators in force. -/
def Coherent (operators : OperatorRegistry) (stream : TokenStream) : Prop :=
  Chained operators stream.policy stream.reported stream.anchor
    (stream.handed.reverse ++ stream.ahead)

lemma lastPlace_cons (place : Place) (entry : ReadAhead) (rest : List ReadAhead) :
    lastPlace place (entry :: rest) = lastPlace entry.after rest := by
  cases rest <;> simp [lastPlace, List.getLast?_cons]

lemma place_eq_lastPlace (stream : TokenStream) :
    stream.place = lastPlace stream.anchor stream.handed.reverse := by
  rw [place]
  split <;> rename_i h <;> simp [lastPlace, h]

lemma chained_append {operators : OperatorRegistry} {policy : EscapePolicy} {reported : List Nat}
    {place : Place} {first second : List ReadAhead} :
    Chained operators policy reported place (first ++ second) ↔
      Chained operators policy reported place first ∧
        Chained operators policy reported (lastPlace place first) second := by
  induction first generalizing place with
  | nil => simp [Chained, lastPlace]
  | cons entry rest ih =>
    simp only [List.cons_append, Chained, ih, lastPlace_cons]
    tauto

/-- More reports leave a chain as it is. -/
lemma Chained.mono {operators : OperatorRegistry} {policy : EscapePolicy}
    {reported more : List Nat} (subset : ∀ offset ∈ reported, offset ∈ more)
    {place : Place} {entries : List ReadAhead}
    (chained : Chained operators policy reported place entries) :
    Chained operators policy more place entries := by
  induction entries generalizing place with
  | nil => trivial
  | cons entry rest ih =>
    obtain ⟨token, after, known, chained⟩ := chained
    exact ⟨token, after, fun report member => subset _ (known report member), ih chained⟩

/-! ### Reports of tokens -/

/-- The stream with some more reports, those at a known offset left out. -/
def absorb (stream : TokenStream) (reports : List Report) : TokenStream :=
  reports.foldl report stream

@[simp] lemma absorb_nil (stream : TokenStream) : stream.absorb [] = stream := rfl

lemma report_eq (stream : TokenStream) (r : Report) :
    stream.report r = { stream with
      reports := (stream.report r).reports, reported := (stream.report r).reported } := by
  simp only [report]
  split <;> rfl

/-- Reports change nothing but the reports. -/
lemma absorb_eq (stream : TokenStream) (reports : List Report) :
    stream.absorb reports = { stream with
      reports := (stream.absorb reports).reports
      reported := (stream.absorb reports).reported } := by
  induction reports generalizing stream with
  | nil => rfl
  | cons r rest ih =>
    have step : stream.absorb (r :: rest) = (stream.report r).absorb rest := rfl
    have tail := ih (stream.report r)
    rw [step, tail]
    rw [report_eq]

@[simp] lemma policy_absorb (stream : TokenStream) (reports : List Report) :
    (stream.absorb reports).policy = stream.policy := by rw [absorb_eq]

@[simp] lemma anchor_absorb (stream : TokenStream) (reports : List Report) :
    (stream.absorb reports).anchor = stream.anchor := by rw [absorb_eq]

/-- Reports do not depend on what was read ahead. -/
lemma absorb_with (stream : TokenStream) (anchor : Place) (handed ahead : List ReadAhead)
    (reports : List Report) :
    ({ stream with anchor := anchor, handed := handed, ahead := ahead } : TokenStream).absorb
        reports
      = { stream.absorb reports with anchor := anchor, handed := handed, ahead := ahead } := by
  induction reports generalizing stream with
  | nil => rfl
  | cons r rest ih =>
    have step : ({ stream with anchor := anchor, handed := handed, ahead := ahead } :
        TokenStream).report r
          = { stream.report r with anchor := anchor, handed := handed, ahead := ahead } := by
      simp only [report]
      split <;> rfl
    simp only [absorb, List.foldl_cons, step]
    exact ih (stream.report r)

lemma reported_subset_absorb (stream : TokenStream) (reports : List Report) :
    ∀ offset ∈ stream.reported, offset ∈ (stream.absorb reports).reported := by
  induction reports generalizing stream with
  | nil => exact fun _ member => member
  | cons r rest ih =>
    intro offset member
    refine ih (stream.report r) offset ?_
    simp only [report]
    split
    · exact member
    · exact List.mem_cons_of_mem _ member

/-- What was absorbed is known. -/
lemma mem_reported_absorb (stream : TokenStream) (reports : List Report) :
    ∀ report ∈ reports, report.offset.getD 0 ∈ (stream.absorb reports).reported := by
  induction reports generalizing stream with
  | nil => simp
  | cons r rest ih =>
    intro report member
    rcases List.mem_cons.mp member with rfl | member
    · refine reported_subset_absorb (stream.report report) rest _ ?_
      simp only [TokenStream.report]
      split
      · rename_i known
        simpa using known
      · exact List.mem_cons_self
    · exact ih (stream.report r) report member

/-- What is known is not absorbed again. -/
lemma absorb_of_known (stream : TokenStream) (reports : List Report)
    (known : ∀ report ∈ reports, report.offset.getD 0 ∈ stream.reported) :
    stream.absorb reports = stream := by
  induction reports with
  | nil => rfl
  | cons r rest ih =>
    have same : stream.report r = stream := by
      simp only [report]
      rw [if_pos (by simpa using known r List.mem_cons_self)]
    rw [absorb, List.foldl_cons, same]
    exact ih fun report member => known report (List.mem_cons_of_mem _ member)

/-! ### The next token -/

/-- The token at the place of a stream, and what comes with it. -/
def lexemeHere (operators : OperatorRegistry) (stream : TokenStream) (skipBreaks : Bool)
    (mode : Mode) : Lexeme :=
  lex operators stream.policy skipBreaks mode stream.place

/-- The stream after a token was handed out. -/
def handOut (stream : TokenStream) (lexeme : Lexeme) (skipBreaks : Bool) (mode : Mode)
    (ahead : List ReadAhead) : TokenStream :=
  { stream.absorb lexeme.reports with
    handed := ⟨lexeme.token, lexeme.after, skipBreaks, mode⟩ :: stream.handed
    ahead := ahead }

lemma forget_absorb (stream : TokenStream) (reports : List Report) :
    (stream.absorb reports).forget = stream.forget.absorb reports := by
  refine Eq.symm ((absorb_with stream stream.anchor [] [] reports).trans ?_)
  rw [forget, ← anchor_absorb stream reports]

lemma coherent_handOut {operators : OperatorRegistry} {stream : TokenStream} {skipBreaks : Bool}
    {mode : Mode} {ahead : List ReadAhead}
    (handed : Chained operators stream.policy stream.reported stream.anchor stream.handed.reverse)
    (rest : Chained operators stream.policy stream.reported
      (stream.lexemeHere operators skipBreaks mode).after ahead) :
    Coherent operators
      (stream.handOut (stream.lexemeHere operators skipBreaks mode) skipBreaks mode ahead) := by
  set lexeme := stream.lexemeHere operators skipBreaks mode with hlexeme
  have grown := reported_subset_absorb stream lexeme.reports
  rw [Coherent, handOut]
  simp only [policy_absorb, anchor_absorb, List.reverse_cons, List.append_assoc,
    List.singleton_append]
  refine chained_append.mpr ⟨handed.mono grown, ?_⟩
  rw [← place_eq_lastPlace]
  exact ⟨rfl, rfl, mem_reported_absorb stream lexeme.reports, rest.mono grown⟩

/-- **The next token of a coherent stream is the one at its place**, kept or not. -/
theorem next_eq {operators : OperatorRegistry} {stream : TokenStream}
    (coherent : stream.Coherent operators) (skipBreaks : Bool) (mode : Mode) :
    ∃ ahead, stream.next operators skipBreaks mode
        = ((stream.lexemeHere operators skipBreaks mode).token,
          stream.handOut (stream.lexemeHere operators skipBreaks mode) skipBreaks mode ahead) ∧
      Coherent operators
        (stream.handOut (stream.lexemeHere operators skipBreaks mode) skipBreaks mode ahead) := by
  obtain ⟨handed, kept⟩ := chained_append.mp coherent
  rw [← place_eq_lastPlace] at kept
  have fresh : stream.read operators skipBreaks mode
      = ((stream.lexemeHere operators skipBreaks mode).token,
        stream.handOut (stream.lexemeHere operators skipBreaks mode) skipBreaks mode []) := by
    simp only [read, handOut, lexemeHere]
    refine Prod.ext rfl ?_
    exact absorb_with stream stream.anchor _ [] _ |>.trans (by simp only [anchor_absorb])
  rw [next]
  split
  · exact ⟨[], fresh, coherent_handOut handed trivial⟩
  · rename_i entry rest hahead
    split
    · rename_i same
      obtain ⟨hmode, hbreaks⟩ := same
      rw [hahead] at kept
      obtain ⟨token, after, known, kept⟩ := kept
      rw [hmode, hbreaks] at token after known
      have entry_eq : entry = ⟨(stream.lexemeHere operators skipBreaks mode).token,
          (stream.lexemeHere operators skipBreaks mode).after, skipBreaks, mode⟩ := by
        cases entry
        simp_all [lexemeHere]
      have absorbed : stream.absorb (stream.lexemeHere operators skipBreaks mode).reports = stream :=
        absorb_of_known stream _ known
      refine ⟨rest, Prod.ext token ?_, coherent_handOut handed ?_⟩
      · rw [handOut, absorbed, ← entry_eq]
      · rw [entry_eq] at kept
        exact kept
    · exact ⟨[], fresh, coherent_handOut handed trivial⟩

end TokenStream

/-! ## States between two tokens -/

namespace ParserState

/-- **Between two tokens**: nothing is handed out, and what was read ahead is what would be read. -/
structure Settled (s : ParserState) : Prop where
  handed : s.tokens.handed = []
  coherent : s.tokens.Coherent s.visible.operators

/-- The state without what was read ahead. -/
def base (s : ParserState) : ParserState :=
  { s with tokens := s.tokens.forget }

/-- What is read at the place of a state. -/
def lexeme (s : ParserState) (skipBreaks : Bool) (mode : Mode) : Lexeme :=
  lex s.visible.operators s.tokens.policy skipBreaks mode s.tokens.anchor

/-- The state with reports about tokens. -/
def absorb (s : ParserState) (reports : List Report) : ParserState :=
  { s with tokens := s.tokens.absorb reports }

/-- The state at another place, with nothing read ahead. -/
def moveTo (s : ParserState) (place : Place) : ParserState :=
  { s with tokens := { s.tokens with anchor := place, handed := [], ahead := [] } }

/-- The state after the reports about tokens were recorded. -/
def flush (s : ParserState) : ParserState :=
  { s with
    tokens := { s.tokens with reports := [] }
    reports := if s.recovering then s.reports else s.reports ++ s.tokens.reports }

@[simp] lemma base_moveTo (s : ParserState) (place : Place) :
    (s.moveTo place).base = s.moveTo place := rfl

@[simp] lemma base_base (s : ParserState) : s.base.base = s.base := rfl

@[simp] lemma moveTo_moveTo (s : ParserState) (first second : Place) :
    (s.moveTo first).moveTo second = s.moveTo second := rfl

@[simp] lemma absorb_nil (s : ParserState) : s.absorb [] = s := rfl

end ParserState

/-! ## Steps that do not see what was read ahead -/

namespace Parser

open TokenStream

variable {α β : Type}

/-- **A step leads to a value and a state**, from a state without what was read ahead to another
one, whatever is read ahead. -/
def Runs (step : Parser α) (s : ParserState) (value : α) (t : ParserState) : Prop :=
  ∀ s₁ : ParserState, s₁.Settled → s₁.base = s →
    ∃ t₁, step s₁ = .ok value t₁ ∧ t₁.Settled ∧ t₁.base = t

lemma bind_ok {step : Parser α} {f : α → Parser β} {s t : ParserState} {value : α}
    (h : step s = .ok value t) : (step >>= f) s = f value t := by
  simp only [bind, EStateM.bind, h]

/-- Two steps have a result only if each of them has one. -/
lemma bind_eq_ok {step : Parser α} {f : α → Parser β} {s u : ParserState} {b : β} :
    (step >>= f) s = .ok b u ↔ ∃ a t, step s = .ok a t ∧ f a t = .ok b u := by
  constructor
  · intro h
    cases hstep : step s with
    | ok a t => exact ⟨a, t, rfl, by rwa [bind_ok hstep] at h⟩
    | error fault t => simp [bind, EStateM.bind, hstep] at h
  · rintro ⟨a, t, hstep, h⟩
    rw [bind_ok hstep, h]

/-- A step has one outcome. -/
lemma ok_unique {step : Parser α} {first second : α} {s t u : ParserState}
    (h : step s = .ok first t) (h' : step s = .ok second u) : first = second ∧ t = u := by
  rw [h] at h'
  cases h'
  exact ⟨rfl, rfl⟩

/-! ### The state read and changed -/

lemma bind_get {σ : Type} (next : σ → EStateM Fault σ β) (s : σ) : (get >>= next) s = next s s := rfl

lemma bind_set {σ : Type} (next : PUnit → EStateM Fault σ β) (s t : σ) :
    (set t >>= next) s = next ⟨⟩ t := rfl

lemma bind_modify (change : ParserState → ParserState) (next : PUnit → Parser β) (s : ParserState) :
    (modify change >>= next) s = next ⟨⟩ (change s) := rfl

lemma bind_modifyGet (change : ParserState → α × ParserState) (next : α → Parser β)
    (s : ParserState) : (modifyGet change >>= next) s = next (change s).1 (change s).2 := rfl

lemma modify_eq (change : ParserState → ParserState) (s : ParserState) :
    (modify change : Parser PUnit) s = .ok ⟨⟩ (change s) := rfl

lemma modifyGet_eq (change : ParserState → α × ParserState) (s : ParserState) :
    (MonadStateOf.modifyGet change : Parser α) s = .ok (change s).1 (change s).2 := rfl

lemma remaining_eq (s : ParserState) : remaining s = .ok s.tokens.place.rest.length s := rfl

lemma position_eq (s : ParserState) : position s = .ok s.tokens.position s := rfl

/-! ### Steps in turn -/

lemma Runs.pure (value : α) (s : ParserState) : Runs (Pure.pure value) s value s :=
  fun s₁ settled hbase => ⟨s₁, rfl, settled, hbase⟩

/-- Steps one after the other. -/
lemma Runs.bind {step : Parser α} {next : α → Parser β} {s t u : ParserState} {a : α} {b : β}
    (first : Runs step s a t) (second : Runs (next a) t b u) : Runs (step >>= next) s b u := by
  intro s₁ settled hbase
  obtain ⟨t₁, ht, tsettled, tbase⟩ := first s₁ settled hbase
  obtain ⟨u₁, hu, usettled, ubase⟩ := second t₁ tsettled tbase
  exact ⟨u₁, by rw [bind_ok ht, hu], usettled, ubase⟩

/-- A step that looks at the state first. -/
lemma Runs.get {next : ParserState → Parser β} {s u : ParserState} {b : β}
    (h : ∀ s₁ : ParserState, s₁.base = s → Runs (next s₁) s b u) :
    Runs (MonadState.get >>= next) s b u := by
  intro s₁ settled hbase
  obtain ⟨u₁, hu, usettled, ubase⟩ := h s₁ hbase s₁ settled hbase
  exact ⟨u₁, hu, usettled, ubase⟩

/-- A step that changes a state apart from its tokens and its operators. -/
lemma runs_modify {change : ParserState → ParserState} {s : ParserState}
    (tokens : ∀ s₁, (change s₁).tokens = s₁.tokens)
    (visible : ∀ s₁, (change s₁).visible.operators = s₁.visible.operators)
    (base : ∀ s₁, (change s₁).base = change s₁.base) :
    Runs (modify change) s () (change s) := by
  intro s₁ settled hbase
  refine ⟨change s₁, rfl, ⟨?_, ?_⟩, by rw [base, hbase]⟩
  · rw [tokens]
    exact settled.handed
  · rw [tokens, visible]
    exact settled.coherent

/-! ### Tokens -/

/-- What looking ahead does to a state whose stream is coherent. -/
lemma lookAhead_eq {s : ParserState} (coherent : s.tokens.Coherent s.visible.operators)
    (skipBreaks : Bool) (mode : Mode) :
    ∃ ahead, let lexeme := s.tokens.lexemeHere s.visible.operators skipBreaks mode
      lookAhead skipBreaks mode s
          = .ok lexeme.token { s with tokens := s.tokens.handOut lexeme skipBreaks mode ahead } ∧
        (s.tokens.handOut lexeme skipBreaks mode ahead).Coherent s.visible.operators := by
  obtain ⟨ahead, next, coherent⟩ := next_eq coherent skipBreaks mode
  refine ⟨ahead, ?_, coherent⟩
  have step : lookAhead skipBreaks mode s
      = .ok (s.tokens.next s.visible.operators skipBreaks mode).1
        { s with tokens := (s.tokens.next s.visible.operators skipBreaks mode).2 } := rfl
  rw [step, next]

lemma lexemeHere_eq_lexeme {s : ParserState} (settled : s.Settled) (skipBreaks : Bool)
    (mode : Mode) :
    s.tokens.lexemeHere s.visible.operators skipBreaks mode = s.base.lexeme skipBreaks mode := by
  simp only [lexemeHere, place, settled.handed]
  rfl

lemma note_eq (report : Report) (s : ParserState) :
    note report s
      = .ok () (if s.recovering then s else { s with reports := s.reports.push report }) := rfl

lemma forM_note (reports : List Report) (s : ParserState) :
    reports.forM note s
      = .ok () { s with
          reports := if s.recovering then s.reports else s.reports ++ reports } := by
  induction reports generalizing s with
  | nil =>
    cases s with
    | mk => simp [List.forM, Pure.pure, EStateM.pure]
  | cons report rest ih =>
    have step : (report :: rest).forM note s = (note report >>= fun _ => rest.forM note) s := rfl
    rw [step, bind_ok (note_eq report s), ih]
    by_cases h : s.recovering <;> simp [h]

lemma noteLexical_eq (s : ParserState) : noteLexical s = .ok () s.flush := by
  have step : noteLexical s
      = s.tokens.reports.forM note { s with tokens := { s.tokens with reports := [] } } := rfl
  rw [step, forM_note]
  rfl

lemma commit_eq (s : ParserState) :
    commit s = .ok () { s with tokens := s.tokens.commit }.flush := by
  have step : commit s = noteLexical { s with tokens := s.tokens.commit } := rfl
  rw [step, noteLexical_eq]

/-! Tokens that were handed out are taken or given back; either way the state is between two tokens
again.  Both lemmas hold however many were handed out. -/

lemma settled_commit {s : ParserState} (coherent : s.tokens.Coherent s.visible.operators) :
    ParserState.Settled ({ s with tokens := s.tokens.commit } : ParserState).flush := by
  obtain ⟨-, kept⟩ := chained_append.mp coherent
  rw [← place_eq_lastPlace] at kept
  exact ⟨rfl, by simpa [Coherent, ParserState.flush, TokenStream.commit] using kept⟩

lemma settled_rewind {s : ParserState} (coherent : s.tokens.Coherent s.visible.operators) :
    ParserState.Settled { s with tokens := s.tokens.rewind } :=
  ⟨rfl, by simpa [Coherent, TokenStream.rewind] using coherent⟩

/-- A token handed out shows only in its reports and in the place after it. -/
lemma base_handOut (s : ParserState) (lexeme : Lexeme) (skipBreaks : Bool) (mode : Mode)
    (ahead : List ReadAhead) :
    ParserState.base { s with tokens := s.tokens.handOut lexeme skipBreaks mode ahead }
      = s.base.absorb lexeme.reports :=
  congrArg (fun tokens => { s with tokens := tokens })
    (forget_absorb s.tokens lexeme.reports)

lemma moveTo_base (s : ParserState) (place : Place) : s.base.moveTo place = s.moveTo place := rfl

/-- Looking at the next token leaves it where it is. -/
theorem runs_peek (s : ParserState) (skipBreaks : Bool) (mode : Mode) :
    Runs (peek skipBreaks mode) s (s.lexeme skipBreaks mode).token
      (s.absorb (s.lexeme skipBreaks mode).reports) := by
  intro s₁ settled hbase
  obtain ⟨ahead, look, coherent⟩ := lookAhead_eq settled.coherent skipBreaks mode
  rw [lexemeHere_eq_lexeme settled, hbase] at look coherent
  refine ⟨_, bind_ok look, settled_rewind coherent, ?_⟩
  rw [← hbase]
  exact base_handOut s₁ _ skipBreaks mode ahead

/-- Taking the next token. -/
theorem runs_advance (s : ParserState) (skipBreaks : Bool) (mode : Mode) :
    Runs (advance skipBreaks mode) s (s.lexeme skipBreaks mode).token
      ((s.absorb (s.lexeme skipBreaks mode).reports).moveTo
        (s.lexeme skipBreaks mode).after).flush := by
  intro s₁ settled hbase
  obtain ⟨ahead, look, coherent⟩ := lookAhead_eq settled.coherent skipBreaks mode
  rw [lexemeHere_eq_lexeme settled, hbase] at look coherent
  have taken := bind_ok (f := fun token => do commit; return token) look
  rw [bind_ok (commit_eq _)] at taken
  refine ⟨_, taken, settled_commit (s := { s₁ with tokens := _ }) coherent, ?_⟩
  rw [← hbase, ← base_handOut s₁ _ skipBreaks mode ahead]
  rfl

end Parser

end TreeLang
