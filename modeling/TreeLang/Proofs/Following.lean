import TreeLang.Proofs.Reading
import TreeLang.Proofs.Scanning

/-!
# Following a parser from place to place

A parser that stands at a place and has nothing to complain of moves on to another place.  This file
says how the small steps move: looking at a token and taking it, looking for the head of a group or
for an operator, and passing a separator.  Steps that make nodes do not move.

* `Lexis.Governs` — a state reads as a lexis says, and has nothing to report.
* `ParserState.suppress`, `ParserState.awaiting` — the parts of a state that making nodes leaves.
* `runs_groupHead?`, `runs_operatorOf?`, `runs_separator` — the steps that decide by a token or two.
-/

namespace TreeLang

namespace ParserState

/-- The state in which it is said whether the right operand of an accessor is next. -/
def suppress (s : ParserState) (suppressed : Bool) : ParserState :=
  { s with suppressed := suppressed }

/-- The state that waits for one more closer. -/
def awaiting (s : ParserState) (closer : TokenKind) : ParserState :=
  { s with awaited := closer :: s.awaited }

end ParserState

namespace Parser

variable {α : Type}

/-- Waiting for a closer. -/
lemma runs_await (closer : TokenKind) (s : ParserState) :
    Runs (await closer) s () (s.awaiting closer) :=
  runs_modify (fun _ => rfl) (fun _ => rfl) fun _ => rfl

/-- Waiting no longer. -/
lemma runs_settle (closer : TokenKind) (s : ParserState) :
    Runs settle (s.awaiting closer) () s := by
  have runs : Runs settle (s.awaiting closer) ()
      { s.awaiting closer with awaited := (s.awaiting closer).awaited.tail } :=
    runs_modify (fun _ => rfl) (fun _ => rfl) fun _ => rfl
  exact runs

/-- Asking whether the right operand of an accessor is next, which is answered once. -/
lemma runs_takeSuppressed (suppressed : Bool) {s : ParserState} (rests : s.suppressed = false) :
    Runs takeSuppressed (s.suppress suppressed) suppressed s := by
  intro s₁ settled hbase
  refine ⟨s₁.suppress false, ?_, ⟨settled.handed, settled.coherent⟩, ?_⟩
  · have same : s₁.suppressed = suppressed := congrArg (·.suppressed) hbase
    rw [← same]
    rfl
  · have step : (s₁.suppress false).base = s₁.base.suppress false := rfl
    rw [step, hbase]
    cases s
    simp_all [ParserState.suppress]

/-- Saying whether the right operand of an accessor is next. -/
lemma runs_setSuppressed (suppressed : Bool) (s : ParserState) :
    Runs (setSuppressed suppressed) s () (s.suppress suppressed) :=
  runs_modify (fun _ => rfl) (fun _ => rfl) fun _ => rfl

/-- Asking for the offset. -/
lemma runs_position (s : ParserState) (place : Place) :
    Runs position (s.moveTo place) place.offset (s.moveTo place) := by
  intro s₁ settled hbase
  refine ⟨s₁, ?_, settled, hbase⟩
  have same : s₁.tokens.anchor = place := congrArg (·.tokens.anchor) hbase
  rw [← same]
  simp only [position_eq, TokenStream.position, TokenStream.place, settled.handed]

/-- Looking for a group that waits for a closer. -/
lemma runs_closesAwaited (kind : TokenKind) (s : ParserState) :
    Runs (closesAwaited kind) s (kind.isCloser && s.awaited.contains kind) s :=
  .get fun s₁ hbase => by
    have same : s₁.awaited = s.awaited := congrArg (·.awaited) hbase
    rw [same]
    exact Runs.pure _ _

/-- Where a report is recorded. -/
lemma runs_note {s : ParserState} (report : Report) (attends : s.recovering = false) :
    Runs (note report) s () { s with reports := s.reports.push report } := by
  intro s₁ settled hbase
  have same : s₁.recovering = s.recovering := congrArg (·.recovering) hbase
  refine ⟨{ s₁ with reports := s₁.reports.push report }, ?_, ⟨settled.handed, settled.coherent⟩, ?_⟩
  · rw [note_eq, if_neg (by simp [same, attends])]
  · rw [← hbase]
    rfl

/-! ## Steps that make nodes, elsewhere -/

/-- What changes of nodes neither see nor touch. -/
structure Framing (frame : ParserState → ParserState) : Prop where
  alike : ∀ s, Alike s (frame s)
  apply : ∀ (change : Change) s, change.apply (frame s) = frame (change.apply s)

lemma framing_moveTo (place : Place) : Framing (·.moveTo place) :=
  ⟨fun _ => ⟨rfl, rfl, rfl, rfl, rfl⟩, fun _ _ => rfl⟩

lemma framing_awaiting (closer : TokenKind) : Framing (·.awaiting closer) :=
  ⟨fun _ => ⟨rfl, rfl, rfl, rfl, rfl⟩, fun _ _ => rfl⟩

namespace Nodewise

/-- What a step that makes nodes does is a change. -/
lemma exists_change {step : Parser α} (nodewise : Nodewise step) {s t : ParserState} {value : α}
    (h : step s = .ok value t) :
    ∃ change : Change, t = change.apply s ∧ ∀ u, Alike s u → step u = .ok value (change.apply u) := by
  obtain ⟨result, change, hstep⟩ := nodewise s
  have hs := hstep s (.refl s)
  rw [h] at hs
  cases result with
  | error fault => simp [conclude] at hs
  | ok value' =>
    obtain ⟨rfl, rfl⟩ : value = value' ∧ t = change.apply s := by simpa [conclude] using hs
    exact ⟨change, rfl, hstep⟩

/-- **A step that makes nodes does the same in a frame.** -/
theorem framed {step : Parser α} (nodewise : Nodewise step) {frame : ParserState → ParserState}
    (framing : Framing frame) {s t : ParserState} {value : α} (h : step s = .ok value t) :
    step (frame s) = .ok value (frame t) := by
  obtain ⟨change, rfl, hstep⟩ := nodewise.exists_change h
  rw [hstep _ (framing.alike s), framing.apply]

/-- So it can be followed from any place. -/
theorem runs_moveTo {step : Parser α} (nodewise : Nodewise step) {s t : ParserState} {value : α}
    (h : step s = .ok value t) (place : Place) :
    Runs step (s.moveTo place) value (t.moveTo place) :=
  nodewise.runs (nodewise.framed (framing_moveTo place) h)

/-- A step that makes nodes leaves whether the operand of an accessor is next. -/
lemma suppressed_eq {step : Parser α} (nodewise : Nodewise step) {s t : ParserState} {value : α}
    (h : step s = .ok value t) : t.suppressed = s.suppressed := by
  obtain ⟨change, rfl, -⟩ := nodewise.exists_change h
  rfl

end Nodewise

end Parser

/-! ## Tokens -/

/-- How a state reads, where no token may give rise to a report. -/
def ParserState.lexis (s : ParserState) : Lexis :=
  ⟨s.visible.operators, s.tokens.policy, fun lexeme => lexeme.reports = []⟩

namespace Lexis

open TreeLang.Parser

variable {lexis : Lexis} {s t : ParserState}

/-- Where no line break stands it does not matter whether line breaks are skipped. -/
lemma read_true {mode : Mode} {p : Place}
    (other : (lexis.read false mode p).token.kind ≠ .lineBreak) :
    lexis.read true mode p = lexis.read false mode p :=
  lex_true other

/-- **A state reads as a lexis says**, and what it has read gave no cause for a report. -/
structure Governs (lexis : Lexis) (s : ParserState) : Prop where
  operators : s.visible.operators = lexis.operators
  policy : s.tokens.policy = lexis.policy
  reports : s.tokens.reports = []

lemma governs_lexis (reports : s.tokens.reports = []) : s.lexis.Governs s :=
  ⟨rfl, rfl, reports⟩

/-- Nothing is wrong with the tokens that may be met. -/
def Silent (lexis : Lexis) : Prop :=
  ∀ lexeme, lexis.admits lexeme → lexeme.reports = []

lemma Governs.moveTo (governs : lexis.Governs s) (place : Place) :
    lexis.Governs (s.moveTo place) :=
  ⟨governs.operators, governs.policy, governs.reports⟩

lemma Governs.suppress (governs : lexis.Governs s) (suppressed : Bool) :
    lexis.Governs (s.suppress suppressed) :=
  ⟨governs.operators, governs.policy, governs.reports⟩

lemma Governs.awaiting (governs : lexis.Governs s) (closer : TokenKind) :
    lexis.Governs (s.awaiting closer) :=
  ⟨governs.operators, governs.policy, governs.reports⟩

/-- Making nodes changes nothing about reading. -/
lemma Governs.made {α : Type} {step : Parser α} {value : α} (governs : lexis.Governs s)
    (nodewise : Nodewise step) (h : step s = .ok value t) : lexis.Governs t := by
  obtain ⟨change, rfl, -⟩ := nodewise.exists_change h
  exact ⟨governs.operators, governs.policy, governs.reports⟩

lemma Governs.lexeme_eq (governs : lexis.Governs s) (skipBreaks : Bool) (mode : Mode)
    (place : Place) : (s.moveTo place).lexeme skipBreaks mode = lexis.read skipBreaks mode place := by
  simp only [ParserState.lexeme, ParserState.moveTo, governs.operators, governs.policy, read]

variable (governs : lexis.Governs s) {skipBreaks : Bool} {mode : Mode} {place : Place}

include governs

/-- Looking at a token. -/
lemma Governs.runs_peek (silent : (lexis.read skipBreaks mode place).reports = []) :
    Runs (peek skipBreaks mode) (s.moveTo place) (lexis.read skipBreaks mode place).token
      (s.moveTo place) := by
  have runs := Parser.runs_peek (s.moveTo place) skipBreaks mode
  rwa [governs.lexeme_eq, silent, ParserState.absorb_nil] at runs

/-- Where there is nothing to report, recording the reports changes nothing. -/
lemma Governs.flush_eq : s.flush = s := by
  obtain ⟨-, -, reports⟩ := governs
  cases s with
  | mk tokens =>
    cases tokens
    simp_all [ParserState.flush]

/-- Taking a token. -/
lemma Governs.runs_advance (silent : (lexis.read skipBreaks mode place).reports = []) :
    Runs (advance skipBreaks mode) (s.moveTo place) (lexis.read skipBreaks mode place).token
      (s.moveTo (lexis.read skipBreaks mode place).after) := by
  have runs := Parser.runs_advance (s.moveTo place) skipBreaks mode
  rwa [governs.lexeme_eq, silent, ParserState.absorb_nil, ParserState.moveTo_moveTo,
    (governs.moveTo _).flush_eq] at runs

/-- Taking a token whatever it is. -/
lemma Governs.runs_skipToken (silent : (lexis.read skipBreaks mode place).reports = []) :
    Runs (skipToken skipBreaks mode) (s.moveTo place) ()
      (s.moveTo (lexis.read skipBreaks mode place).after) :=
  (governs.runs_advance silent).bind (Runs.pure _ _)

omit governs

/-! ## Looking further ahead

A parser may look at several tokens before it takes them all or gives them all back.
-/

/-- **A state that has looked ahead** from a place, where it was a settled one, up to another. -/
structure Looks (s : ParserState) (anchor here : Place) (s₁ : ParserState) : Prop where
  coherent : s₁.tokens.Coherent s₁.visible.operators
  base : s₁.base = s.moveTo anchor
  place : s₁.tokens.place = here

lemma looks_of_settled {s₁ : ParserState} (settled : s₁.Settled)
    (hbase : s₁.base = s.moveTo place) : Looks s place place s₁ := by
  refine ⟨settled.coherent, hbase, ?_⟩
  rw [TokenStream.place, settled.handed]
  exact congrArg (·.tokens.anchor) hbase

/-- Looking at one more token. -/
lemma Governs.look {s₁ : ParserState} {here : Place} (governs : lexis.Governs s)
    (looks : Looks s place here s₁) (silent : (lexis.read skipBreaks mode here).reports = []) :
    ∃ s₂, lookAhead skipBreaks mode s₁ = .ok (lexis.read skipBreaks mode here).token s₂ ∧
      Looks s place (lexis.read skipBreaks mode here).after s₂ := by
  obtain ⟨coherent, hbase, hplace⟩ := looks
  obtain ⟨ahead, look, coherent⟩ := lookAhead_eq coherent skipBreaks mode
  have lexeme : s₁.tokens.lexemeHere s₁.visible.operators skipBreaks mode
      = lexis.read skipBreaks mode here := by
    have hoperators : s₁.visible.operators = s.visible.operators :=
      congrArg (·.visible.operators) hbase
    have hpolicy : s₁.tokens.policy = s.tokens.policy := congrArg (·.tokens.policy) hbase
    simp only [TokenStream.lexemeHere, hplace, hoperators, hpolicy, governs.operators,
      governs.policy, read]
  rw [lexeme] at look coherent
  refine ⟨_, look, coherent, ?_, rfl⟩
  rw [base_handOut, silent, ParserState.absorb_nil, hbase]

/-- Giving back what was looked at. -/
lemma Looks.rewind {s₁ : ParserState} {here : Place} (looks : Looks s place here s₁) :
    ∃ s₂, Parser.rewind s₁ = .ok () s₂ ∧ s₂.Settled ∧ s₂.base = s.moveTo place :=
  ⟨_, rfl, settled_rewind looks.coherent, looks.base⟩

/-- Taking what was looked at. -/
lemma Governs.take {s₁ : ParserState} {here : Place} (governs : lexis.Governs s)
    (looks : Looks s place here s₁) :
    ∃ s₂, commit s₁ = .ok () s₂ ∧ s₂.Settled ∧ s₂.base = s.moveTo here := by
  refine ⟨_, commit_eq s₁, settled_commit looks.coherent, ?_⟩
  have hbase : ({ s₁ with tokens := s₁.tokens.commit } : ParserState).base = s.moveTo here := by
    have moved : ({ s₁ with tokens := s₁.tokens.commit } : ParserState).base
        = s₁.base.moveTo s₁.tokens.place := rfl
    rw [moved, looks.base, looks.place, ParserState.moveTo_moveTo]
  have flushed : ({ s₁ with tokens := s₁.tokens.commit } : ParserState).flush.base
      = ({ s₁ with tokens := s₁.tokens.commit } : ParserState).base.flush := rfl
  rw [flushed, hbase, (governs.moveTo here).flush_eq]

/-- The tokens of the head of a group gave no cause for a report. -/
def SilentHead (lexis : Lexis) (mode : Mode) (place : Place) : Prop :=
  (lexis.read true mode place).reports = [] ∧
    ((lexis.read true mode place).token.kind.isText →
      (lexis.behindName mode place).reports = [])

/-- Looking behind a name. -/
lemma Governs.lookBehind {s₁ : ParserState} (governs : lexis.Governs s)
    (looks : Looks s place (lexis.read true mode place).after s₁)
    (silent : (lexis.behindName mode place).reports = []) :
    ∃ s₂, lookAhead false mode s₁ = .ok (lexis.behindName mode place).token s₂ ∧
      Looks s place (lexis.behindName mode place).after s₂ :=
  governs.look looks silent

/-- Where no group begins, none is found. -/
lemma Governs.runs_groupHead?_none (governs : lexis.Governs s)
    (silent : lexis.SilentHead mode place) (nothing : lexis.headAt? mode place = none) :
    Runs (groupHead? mode) (s.moveTo place) none (s.moveTo place) := by
  intro s₁ settled hbase
  obtain ⟨s₂, look, looks⟩ := governs.look (looks_of_settled settled hbase) silent.1
  simp only [groupHead?, headAt?] at nothing ⊢
  rw [bind_ok look]
  by_cases opener : (lexis.read true mode place).token.kind.isOpener
  · simp [opener] at nothing
  rw [if_neg opener] at nothing ⊢
  by_cases text : (lexis.read true mode place).token.kind.isText
  · rw [if_pos text] at nothing ⊢
    obtain ⟨s₃, look, looks⟩ := governs.lookBehind looks (silent.2 text)
    obtain ⟨s₄, back, settled, hbase⟩ := looks.rewind
    rw [bind_ok look]
    split_ifs at nothing ⊢
    rw [bind_ok back]
    exact ⟨s₄, rfl, settled, hbase⟩
  · obtain ⟨s₃, back, settled, hbase⟩ := looks.rewind
    rw [if_neg text, bind_ok back]
    exact ⟨s₃, rfl, settled, hbase⟩

/-- Where a group begins, its head is taken. -/
lemma Governs.runs_groupHead?_some (governs : lexis.Governs s) {name : Option Token}
    {opener : Token} {after : Place} (silent : lexis.SilentHead mode place)
    (head : lexis.headAt? mode place = some (name, opener, after)) :
    Runs (groupHead? mode) (s.moveTo place) (some (name, opener)) (s.moveTo after) := by
  intro s₁ settled hbase
  obtain ⟨s₂, look, looks⟩ := governs.look (looks_of_settled settled hbase) silent.1
  simp only [groupHead?, headAt?] at head ⊢
  rw [bind_ok look]
  by_cases opens : (lexis.read true mode place).token.kind.isOpener
  · rw [if_pos opens] at head ⊢
    obtain ⟨rfl, rfl, rfl⟩ : none = name ∧ _ = opener ∧ _ = after := by simpa using head
    obtain ⟨s₃, taken, settled, hbase⟩ := governs.take looks
    rw [bind_ok taken]
    exact ⟨s₃, rfl, settled, hbase⟩
  rw [if_neg opens] at head ⊢
  by_cases text : (lexis.read true mode place).token.kind.isText
  · rw [if_pos text] at head ⊢
    obtain ⟨s₃, look, looks⟩ := governs.lookBehind looks (silent.2 text)
    obtain ⟨s₄, taken, settled, hbase⟩ := governs.take looks
    rw [bind_ok look]
    split_ifs at head ⊢ with attached
    obtain ⟨rfl, rfl, rfl⟩ : some _ = name ∧ _ = opener ∧ _ = after := by simpa using head
    rw [bind_ok taken]
    exact ⟨s₄, rfl, settled, hbase⟩
  · rw [if_neg text] at head
    cases head

/-! ## Decisions by one token -/

/-- Where no operator of a group is, none is found. -/
lemma Governs.runs_operatorOf?_none (governs : lexis.Governs s) {group : PriorityGroup}
    (silent : (lexis.read skipBreaks .operation place).reports = [])
    (nothing : lexis.operatorAt? group skipBreaks place = none) :
    Runs (operatorOf? group skipBreaks) (s.moveTo place) none (s.moveTo place) := by
  refine (governs.runs_peek silent).bind ?_
  simp only [operatorAt?] at nothing
  split_ifs at nothing ⊢ with kind
  · rw [Option.map_eq_none_iff] at nothing
    rw [nothing]
    exact Runs.pure _ _
  · exact Runs.pure _ _

/-- Where an operator of a group is, it is taken. -/
lemma Governs.runs_operatorOf?_some (governs : lexis.Governs s) {group : PriorityGroup}
    {op : OperatorDefinition} {after : Place}
    (silent : (lexis.read skipBreaks .operation place).reports = [])
    (found : lexis.operatorAt? group skipBreaks place = some (op, after)) :
    Runs (operatorOf? group skipBreaks) (s.moveTo place) (some op) (s.moveTo after) := by
  refine (governs.runs_peek silent).bind ?_
  simp only [operatorAt?] at found
  split_ifs at found ⊢ with kind
  obtain ⟨op', hfind, same⟩ := Option.map_eq_some_iff.mp found
  obtain ⟨rfl, rfl⟩ := Prod.mk.inj same
  rw [hfind]
  exact (governs.runs_skipToken silent).bind (Runs.pure _ _)

/-- A separator is passed, and a closer is left. -/
lemma Governs.runs_separator (governs : lexis.Governs s) {closer : TokenKind} {after : Place}
    (closes : closer.isCloser) (silent : (lexis.read false mode place).reports = [])
    (separated : lexis.Separated mode closer place after) :
    Runs (separator mode closer) (s.moveTo place) () (s.moveTo after) := by
  refine (governs.runs_peek silent).bind ?_
  obtain ⟨-, ⟨kind, rfl⟩ | ⟨kind, rfl⟩⟩ := separated
  · rw [if_pos (by simpa using kind)]
    exact governs.runs_skipToken silent
  · rw [if_neg (by rw [kind]; cases closer <;> simp_all [TokenKind.isCloser])]
    refine (runs_closesAwaited _ _).bind ?_
    rw [if_pos (by simp [kind])]
    exact Runs.pure _ _

end Lexis

end TreeLang
