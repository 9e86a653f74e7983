import TreeLang.Proofs.Joining
import TreeLang.Proofs.Persisting

/-!
# A text that goes on for another parser

Two parsers read the same text, and for one of them it goes on with a new line.  As long as the first
one has nothing to report, the second one does the same: what it reads is the same, up to where the text
ends, and there a value that is not yet complete would be a mistake of the first.

* `Parser.Lost`, `Told`, `Wants` — outcomes with a fault or a report; steps that always have one, or have
  one where the text has ended.
* `Prolonged`, **`Beside`** — two parsers at one place, with nothing reported; `Begun` where the text does
  not end there, `Over` where it does.
* **`Continues`** — a step that does the same for both, or is lost for the first.
* `continues_peek`, `continues_advance`, `continues_nodewise` — the steps that read tokens and make nodes.
-/

namespace TreeLang

/-- Whether the text ends at the place of a state, or before a line break at least. -/
def ParserState.Ended (s : ParserState) (skipBreaks : Bool) : Prop :=
  (s.reads skipBreaks .word).token.kind = .endOfInput

namespace Parser

variable {α β γ : Type} {s t u : ParserState}

/-! ## Steps of which something is reported -/

/-- **Something is wrong with an outcome**: a fault, or a report. -/
def Lost : EStateM.Result Fault ParserState α → Prop
  | .error _ _ => True
  | .ok _ t => t.Loud

lemma lost_of_loud {step : Parser α} (stays : StaysLoud step) (loud : s.Loud) : Lost (step s) := by
  match hstep : step s with
  | .error fault t => trivial
  | .ok a t => exact stays.loud hstep loud

/-- What is lost stays lost. -/
lemma Lost.bind {step : Parser α} {next : α → Parser β} (lost : Lost (step s))
    (stays : ∀ a, StaysLoud (next a)) : Lost ((step >>= next) s) := by
  simp only [Bind.bind, EStateM.bind]
  match hstep : step s with
  | .error fault t => trivial
  | .ok a t =>
    rw [hstep] at lost
    exact lost_of_loud (stays a) lost

/-- **A step that reports something**, or is broken off. -/
structure Told (step : Parser α) : Prop where
  lost : ∀ {s}, s.recovering = false → Lost (step s)

lemma Told.bind {step : Parser α} {next : α → Parser β} (told : Told step)
    [stays : ∀ a, StaysLoud (next a)] : Told (step >>= next) :=
  ⟨fun attends => (told.lost attends).bind stays⟩

lemma told_complain (offset : Nat) (cause : Cause) : Told (complain offset cause) :=
  ⟨fun {s} attends => by
    rw [complain, note_eq, if_neg (by simp [attends])]
    exact .inl (by simp)⟩

lemma told_complain_recover (offset : Nat) (cause : Cause) (closer : Option TokenKind)
    {next : Unit → Parser β} [stays : ∀ a, StaysLoud (next a)] :
    Told (complain offset cause >>= fun _ => recover closer >>= next) := by
  refine ⟨fun {s} attends => ?_⟩
  rw [complain, bind_ok (note_eq _ s), if_neg (by simp [attends])]
  set u : ParserState := { s with reports := s.reports.push (Report.errorAt offset cause) }
  have told : u.reports ≠ #[] := by simp [u]
  simp only [Bind.bind, EStateM.bind]
  cases hskip : recover closer u with
  | error fault v => trivial
  | ok a v =>
    exact lost_of_loud (stays a) (.inl ((blind_recover closer).keeps_reports hskip told))

lemma told_giveUp (offset : Nat) (cause : Cause) : Told (giveUp offset cause) := by
  rw [giveUp, ← bind_pure (recover none)]
  exact told_complain_recover offset cause none

/-! ### Where the text has ended -/

/-- **A parser at the end of its text**, between two tokens. -/
structure Starved (s : ParserState) : Prop where
  settled : s.Settled
  attends : s.recovering = false
  ended : s.Ended true

/-- Where a line ends with the text, the text ends. -/
lemma ended_of_line (ended : s.Ended false) : s.Ended true := by
  have skips : s.lexis.read true .word s.here = s.lexis.read false .word s.here :=
    lex_true fun breaks => by
      rw [ParserState.Ended, ParserState.reads, Lexis.read, breaks] at ended
      cases ended
  rw [ParserState.Ended, ParserState.reads, skips]
  exact ended

/-- Whether a text ends does not depend on how it is cut into tokens. -/
lemma ended_iff {skipBreaks : Bool} (mode : Mode) :
    (s.reads skipBreaks mode).token.kind = .endOfInput ↔ s.Ended skipBreaks := by
  have same {first second : Mode} (ended : (s.reads skipBreaks first).token.kind = .endOfInput) :
      (s.reads skipBreaks second).token.kind = .endOfInput := by
    obtain ⟨q, reached, empty⟩ := Lexis.exists_end ended
    simp [ParserState.reads, Lexis.read, lex, reached, lexHere, empty]
  exact ⟨same, same⟩

lemma Starved.moved (starved : Starved s) (settled : t.Settled) (moves : Moves s t)
    (stays : t.here = s.here) : Starved t where
  settled := settled
  attends := moves.recovering.trans starved.attends
  ended := by
    rw [ParserState.Ended, ParserState.reads, moves.lexis, stays]
    exact starved.ended

/-- **What a step answers at the end of the text**, which it leaves where it is. -/
structure Starves (step : Parser α) (property : α → Prop) : Prop where
  answer : ∀ {s a t}, Starved s → step s = .ok a t → property a ∧ Starved t

/-- **A step that wants more text** is lost where there is none. -/
structure Wants (step : Parser α) : Prop where
  lost : ∀ {s}, Starved s → Lost (step s)

lemma Told.wants {step : Parser α} (told : Told step) : Wants step :=
  ⟨fun starved => told.lost starved.attends⟩

lemma Wants.bind {step : Parser α} {next : α → Parser β} (wants : Wants step)
    [stays : ∀ a, StaysLoud (next a)] : Wants (step >>= next) :=
  ⟨fun starved => (wants.lost starved).bind stays⟩

namespace Starves

variable {property : α → Prop}

lemma throw (fault : Fault) : Starves (MonadExcept.throw fault : Parser α) property :=
  ⟨fun _ h => by cases h⟩

lemma bind {step : Parser α} {next : α → Parser β} {result : β → Prop}
    (first : Starves step property) (second : ∀ a, property a → Starves (next a) result) :
    Starves (step >>= next) result := by
  refine ⟨fun starved h => ?_⟩
  obtain ⟨a, t, hstep, hnext⟩ := bind_eq_ok.mp h
  obtain ⟨has, starved⟩ := first.answer starved hstep
  exact (second a has).answer starved hnext

/-- Behind a step that leaves the text ended something is wanted. -/
lemma wants {step : Parser α} {next : α → Parser β} (first : Starves step property)
    (second : ∀ a, property a → Wants (next a)) : Wants (step >>= next) := by
  refine ⟨fun {s} starved => ?_⟩
  simp only [Bind.bind, EStateM.bind]
  match hstep : step s with
  | .error fault t => trivial
  | .ok a t =>
    obtain ⟨has, starved⟩ := first.answer starved hstep
    exact (second a has).lost starved

lemma pure {a : α} (h : property a) : Starves (Pure.pure a) property :=
  ⟨fun starved same => by
    cases same
    exact ⟨h, starved⟩⟩

lemma of_ends {step : Parser α} (h : ∀ {s}, Starved s →
    Ends step s fun a t => property a ∧ Moves s t ∧ t.here = s.here) : Starves step property := by
  refine ⟨fun {s a t} starved hstep => ?_⟩
  obtain ⟨_, _, run, settled, has, moves, stays⟩ := h starved
  obtain ⟨rfl, rfl⟩ := ok_unique run hstep
  exact ⟨has, starved.moved settled moves stays⟩

end Starves

lemma Wants.get {next : ParserState → Parser β} (h : ∀ s, Wants (next s)) :
    Wants (MonadState.get >>= next) :=
  ⟨fun {s} starved => (h s).lost starved⟩

lemma starves_takeSuppressed : Starves takeSuppressed fun _ => True :=
  ⟨fun starved h => by
    cases h
    exact ⟨trivial, ⟨starved.settled.handed, starved.settled.coherent⟩, starved.attends,
      starved.ended⟩⟩

lemma starves_peek (mode : Mode) :
    Starves (peek true mode) fun token => token.kind = .endOfInput := by
  refine .of_ends fun starved => (ends_peek starved.settled true mode).mono fun token t looked => ?_
  obtain ⟨rfl, moves, stays, -⟩ := looked
  exact ⟨(ended_iff mode).mpr starved.ended, moves, stays⟩

/-- No group begins there. -/
lemma starves_groupHead? (mode : Mode) : Starves (groupHead? mode) (· = none) := by
  refine .of_ends fun {s} starved => ?_
  obtain ⟨t, look, looks, -⟩ := (looksTo_of_settled starved.settled).look true mode
  obtain ⟨u, back, settled, moves, stays, -⟩ := looks.rewind
  have ended : (s.reads true mode).token.kind = .endOfInput := (ended_iff mode).mpr starved.ended
  refine ⟨none, u, ?_, settled, rfl, moves, stays⟩
  rw [groupHead?, bind_ok look, if_neg (by rw [ended]; decide), if_neg (by rw [ended]; decide)]
  exact bind_ok back

/-- No operator is there. -/
lemma starves_operatorOf? (group : PriorityGroup) :
    Starves (operatorOf? group true) (· = none) := by
  refine (starves_peek .operation).bind fun token ended => ?_
  rw [if_neg (by rw [ended]; decide)]
  exact .pure rfl

/-! ### Calls that want more text -/

/-- The calls that want more text. -/
def Reading.wants : Reading α → Bool
  | .value | .operand | .properties _ _ | .expression | .level _ => true
  | .elements _ _ closer _ | .parameters closer _ _ => closer ≠ .endOfInput
  | .group _ _ | .binary _ _ _ | .postfixes _ _ | .clauses _ | .skipGroup _ | .skipToSeparator _ => false

/-- The calls that read on from any place of the text. -/
def Reading.plain : Reading α → Bool
  | .group _ _ | .skipGroup _ | .skipToSeparator _ => false
  | .elements _ _ closer _ | .parameters closer _ _ => closer ≠ .endOfInput
  | _ => true

section Rounds

variable {options : CompileOptions} {calls : ∀ {γ : Type}, Reading γ → Parser γ}
  [stays : ∀ {γ : Type} (call : Reading γ), StaysLoud (calls call)]
  (h : ∀ {γ : Type} (call : Reading γ), call.wants = true → Wants (calls call))
  (group : ∀ nameMode expands, Starves (calls (.group nameMode expands)) (· = none))

include group in
omit stays in
lemma wants_atomRound (nameMode mode : Mode) (missing : Token → Cause) :
    Wants (Reading.atomRound calls nameMode mode missing) := by
  refine starves_takeSuppressed.wants fun suppressed _ => (group _ _).wants fun _ none => ?_
  subst none
  refine (starves_peek mode).wants fun token ended => ?_
  rw [if_neg (by rw [ended]; decide)]
  exact (told_complain _ _).bind.wants

omit stays in
lemma starves_groupRound (nameMode : Mode) (expands : Bool) :
    Starves (Reading.groupRound options calls nameMode expands) (· = none) := by
  refine (starves_groupHead? _).bind fun _ none => ?_
  subst none
  exact .pure rfl

include h in
lemma wants_levelRound (groups : List PriorityGroup) : Wants (Reading.levelRound calls groups) := by
  cases groups with
  | nil => exact h .operand rfl
  | cons ops tighter =>
    rw [Reading.levelRound]
    cases ops.fixity with
    | binary => exact (h (.level tighter) rfl).bind
    | postfixed => exact (h (.level tighter) rfl).bind
    | prefixed =>
      refine .get fun s => (starves_operatorOf? ops).wants fun _ none => ?_
      subst none
      exact h (.level tighter) rfl

omit stays in
lemma wants_propertiesRound (start : Nat) (known : List (String × Node)) :
    Wants (Reading.propertiesRound options calls start known) := by
  refine (starves_peek .key).wants fun token ended => ?_
  rw [if_neg (by rw [ended]; decide)]
  refine .get fun s => ?_
  simp only [ended, decide_true, Bool.true_or, if_true]
  exact (told_complain _ _).bind.wants

omit stays in
lemma wants_elementsRound (start : Nat) (mode : Mode) {closer : TokenKind}
    (closes : closer ≠ .endOfInput) (known : List Node) :
    Wants (Reading.elementsRound calls start mode closer known) := by
  refine (starves_peek mode).wants fun token ended => ?_
  rw [if_neg (by rw [ended]; exact closes.symm)]
  refine .get fun s => ?_
  simp only [ended, decide_true, Bool.true_or, if_true]
  exact (told_complain _ _).bind.wants

omit stays in
lemma wants_parametersRound {closer : TokenKind} (closes : closer ≠ .endOfInput)
    (known : List Parameter) (complete : Bool) :
    Wants (Reading.parametersRound calls closer known complete) := by
  refine (starves_peek .parameter).wants fun token ended => ?_
  rw [if_neg (by rw [ended]; exact closes.symm)]
  refine .get fun s => ?_
  simp only [ended, decide_true, Bool.true_or, if_true]
  exact (told_complain _ _).bind.wants

include h group in
/-- **A round that wants more text** is lost where there is none. -/
lemma wants_round (call : Reading α) (wants : call.wants = true) :
    Wants (call.round options calls) := by
  cases call with
  | value => exact wants_atomRound group _ _ _
  | operand => exact wants_atomRound group _ _ _
  | properties start known => exact wants_propertiesRound start known
  | elements start mode closer known =>
    exact wants_elementsRound start mode (by simpa [Reading.wants] using wants) known
  | expression => exact .get fun s => h (.level _) rfl
  | level groups => exact wants_levelRound h groups
  | parameters closer known complete =>
    exact wants_parametersRound (by simpa [Reading.wants] using wants) known complete
  | group | binary | postfixes | clauses | skipGroup | skipToSeparator => cases wants

end Rounds

/-- **What wants more text is lost where there is none.** -/
theorem wants_within (options : CompileOptions) (fuel : Nat) :
    (∀ {γ : Type} (call : Reading γ), call.wants = true → Wants (call.within options fuel)) ∧
      ∀ nameMode expands,
        Starves ((Reading.group nameMode expands).within options fuel) (· = none) := by
  induction fuel with
  | zero =>
    refine ⟨fun call _ => ⟨fun _ => ?_⟩, fun _ _ => ?_⟩
    · rw [Reading.within_zero]
      trivial
    · rw [Reading.within_zero]
      exact .throw _
  | succ fuel ih =>
    refine ⟨fun call wants => ?_, fun _ _ => ?_⟩
    · rw [Reading.within_succ]
      exact wants_round ih.1 ih.2 call wants
    · rw [Reading.within_succ]
      exact starves_groupRound _ _

/-! ## Two parsers at one place -/

variable {cs : List Char} {skipBreaks : Bool} {R R' : ParserState → ParserState → Prop}
  {P Q : α → ParserState → ParserState → Prop} {W : β → ParserState → ParserState → Prop}

/-- **Two parsers with the same state**, of which the second one reads a text that goes on with a new
line.  Nothing was reported so far. -/
structure Prolonged (cs : List Char) (s t : ParserState) : Prop where
  same : t = { s with tokens := t.tokens }
  policy : t.tokens.policy = s.tokens.policy
  attends : s.recovering = false
  silent : s.reports = #[]
  waiting : s.tokens.reports = []
  waiting' : t.tokens.reports = []
  known : s.tokens.reported = []
  known' : t.tokens.reported = []
  anchor : s.here.Onto 0 ('\n' :: cs) t.here

/-- Two parsers that looked ahead, no matter how far. -/
structure Lapsed (cs : List Char) (s t : ParserState) : Prop extends Prolonged cs s t where
  coherent : s.tokens.Coherent s.visible.operators
  coherent' : t.tokens.Coherent t.visible.operators
  unbroken : Unbroken ('\n' :: cs) s.visible.operators

/-- Two parsers that looked ahead to one place. -/
structure Peering (cs : List Char) (s t : ParserState) : Prop extends Lapsed cs s t where
  place : s.tokens.place.Onto 0 ('\n' :: cs) t.tokens.place

/-- Two parsers between two tokens, whatever operators are in force. -/
structure Parted (cs : List Char) (s t : ParserState) : Prop extends Prolonged cs s t where
  settled : s.Settled
  settled' : t.Settled

/-- **Two parsers side by side**, between two tokens. -/
structure Beside (cs : List Char) (s t : ParserState) : Prop extends Parted cs s t where
  unbroken : Unbroken ('\n' :: cs) s.visible.operators

/-- Side by side where the text does not end. -/
structure Begun (cs : List Char) (skipBreaks : Bool) (s t : ParserState) : Prop
    extends Beside cs s t where
  more : ¬ s.Ended skipBreaks

/-- **The same outcome for both**, or one that is lost for the first. -/
inductive Goes (Q : α → ParserState → ParserState → Prop) :
    EStateM.Result Fault ParserState α → EStateM.Result Fault ParserState α → Prop where
  | ok (a : α) {s t : ParserState} (states : Q a s t) : Goes Q (.ok a s) (.ok a t)
  | lost {p q : EStateM.Result Fault ParserState α} (lost : Lost p) : Goes Q p q

/-- **A step that does the same for both parsers**, or is lost for the first.  Where they stand then
may depend on the value. -/
structure Yields (R : ParserState → ParserState → Prop) (Q : α → ParserState → ParserState → Prop)
    (step other : Parser α) : Prop where
  stays : StaysLoud step
  goes : ∀ {s t}, R s t → Goes Q (step s) (other t)

/-- A step that leads both parsers from somewhere to somewhere. -/
abbrev Continues (R R' : ParserState → ParserState → Prop) (step other : Parser α) : Prop :=
  Yields R (fun _ => R') step other

/-- **A step that keeps two parsers side by side.** -/
abbrev Keeps (cs : List Char) (step other : Parser α) : Prop :=
  Continues (Beside cs) (Beside cs) step other

lemma Goes.mono {p q : EStateM.Result Fault ParserState α} (goes : Goes P p q)
    (h : ∀ {a s t}, P a s t → Q a s t) : Goes Q p q := by
  cases goes with
  | ok a states => exact .ok a (h states)
  | lost lost => exact .lost lost

namespace Yields

lemma of_value (a : α) (h : ∀ {s t}, R s t → Q a s t) :
    Yields R Q (Pure.pure a) (Pure.pure a) :=
  ⟨inferInstance, fun states => .ok a (h states)⟩

lemma pure (a : α) : Continues R R (Pure.pure a) (Pure.pure a) :=
  of_value a id

lemma throw (fault : Fault) (other : Parser α) : Yields R Q (MonadExcept.throw fault) other :=
  ⟨inferInstance, fun _ => .lost trivial⟩

lemma mono {step other : Parser α} (yields : Yields R P step other)
    (h : ∀ {a s t}, P a s t → Q a s t) : Yields R Q step other :=
  ⟨yields.stays, fun states => (yields.goes states).mono h⟩

lemma before {step other : Parser α} (yields : Yields R Q step other)
    (h : ∀ {s t}, R' s t → R s t) : Yields R' Q step other :=
  ⟨yields.stays, fun states => yields.goes (h states)⟩

/-- **Steps one after the other.** -/
theorem bind {step other : Parser α} {next next' : α → Parser β} (first : Yields R Q step other)
    (second : ∀ a, Yields (Q a) W (next a) (next' a)) :
    Yields R W (step >>= next) (other >>= next') := by
  have stays (a : α) : StaysLoud (next a) := (second a).stays
  refine ⟨@StaysLoud.bind _ _ _ _ first.stays stays, fun {s t} states => ?_⟩
  have goes := first.goes states
  match hstep : step s, hother : other t with
  | p, q =>
    rw [hstep, hother] at goes
    cases goes with
    | ok a states =>
      rw [bind_ok hstep, bind_ok hother]
      exact (second a).goes states
    | lost lost => exact .lost (Lost.bind (hstep ▸ lost) stays)

lemma ite {condition : Prop} [Decidable condition] {yes no yes' no' : Parser α}
    (h : Yields R Q yes yes') (h' : Yields R Q no no') :
    Yields R Q (if condition then yes else no) (if condition then yes' else no') := by
  split <;> assumption

/-- A step that looks at the state first. -/
lemma get {next next' : ParserState → Parser β} (stays : ∀ s, StaysLoud (next s))
    (h : ∀ {s t}, R s t → Goes W (next s s) (next' t t)) :
    Yields R W (MonadState.get >>= next) (MonadState.get >>= next') :=
  ⟨@StaysLoud.look _ _ stays, h⟩

/-- What reports something is lost. -/
lemma told {step : Parser α} [stays : StaysLoud step] (told : Told step)
    (attends : ∀ {s t}, R s t → s.recovering = false) (other : Parser α) :
    Yields R Q step other :=
  ⟨stays, fun states => .lost (told.lost (attends states))⟩

/-- Side by side the text may have ended. -/
lemma split {step other : Parser α} (wants : Wants step)
    (begun : Yields (Begun cs true) Q step other) : Yields (Beside cs) Q step other := by
  refine ⟨begun.stays, fun {s t} beside => ?_⟩
  by_cases ended : s.Ended true
  · exact .lost (wants.lost ⟨beside.settled, beside.attends, ended⟩)
  · exact begun.goes ⟨beside, ended⟩

end Yields

/-! ### Tokens -/

lemma Beside.peering (beside : Beside cs s t) : Peering cs s t where
  toProlonged := beside.toProlonged
  coherent := beside.settled.coherent
  coherent' := beside.settled'.coherent
  unbroken := beside.unbroken
  place := by
    rw [TokenStream.place, TokenStream.place, beside.settled.handed, beside.settled'.handed]
    exact beside.anchor

/-- **What two parsers see that look ahead from one place**: the same token, or that the text ends for
the first, where the second one sees a line break if it does not skip them. -/
inductive Saw (cs : List Char) (skipBreaks : Bool) (lexeme : Lexeme) :
    EStateM.Result Fault ParserState Token → EStateM.Result Fault ParserState Token → Prop where
  | same {s t : ParserState} (more : lexeme.token.kind ≠ .endOfInput) (peering : Peering cs s t) :
    Saw cs skipBreaks lexeme (.ok lexeme.token s) (.ok lexeme.token t)
  | ended {token : Token} {s t : ParserState} (line : skipBreaks = false)
    (breaks : token.kind = .lineBreak) (lapsed : Lapsed cs s t)
    (ends : lexeme.token.kind = .endOfInput) :
    Saw cs skipBreaks lexeme (.ok lexeme.token s) (.ok token t)
  | beyond {p q : EStateM.Result Fault ParserState Token} (far : skipBreaks = true)
    (ends : lexeme.token.kind = .endOfInput) : Saw cs skipBreaks lexeme p q
  | lost {p q : EStateM.Result Fault ParserState Token} (more : lexeme.token.kind ≠ .endOfInput)
    (lost : Lost p) : Saw cs skipBreaks lexeme p q

/-- Where the line ends with the text the longer text has a line break. -/
lemma breaks_of_ended {lexis : Lexis} (extend : lexis.Extends ('\n' :: cs)) {mode : Mode}
    {p p' : Place} (onto : p.Onto 0 ('\n' :: cs) p')
    (ended : (lexis.read false mode p).token.kind = .endOfInput) :
    (lexis.read false mode p').token.kind = .lineBreak ∧ (lexis.read false mode p').reports = [] := by
  obtain ⟨r, hr, same⟩ := extend.exists_break onto ended
  rw [Lexis.read, lex, same, skipTrivia_cons hr, if_pos ⟨rfl, rfl⟩]
  simp [lexHere, hr, delimiter?]

/-- Nothing is wrong with the end of a text. -/
lemma silent_of_ended {lexis : Lexis} {mode : Mode} {p : Place}
    (ended : (lexis.read skipBreaks mode p).token.kind = .endOfInput) :
    (lexis.read skipBreaks mode p).reports = [] := by
  obtain ⟨q, reached, empty⟩ := Lexis.exists_end ended
  simp [Lexis.read, lex, reached, lexHere, empty]

/-- What is wrong with a first token waits to be reported. -/
lemma reports_absorb_ne_nil {tokens : TokenStream} {reports : List Report}
    (known : tokens.reported = []) (wrong : reports ≠ []) : (tokens.absorb reports).reports ≠ [] := by
  cases reports with
  | nil => exact absurd rfl wrong
  | cons report rest =>
    intro none
    have first := reports_prefix_absorb (tokens.report report) rest
    rw [show (tokens.report report).absorb rest = tokens.absorb (report :: rest) from rfl, none,
      List.prefix_nil] at first
    simp [TokenStream.report, known] at first

/-- **Two parsers look ahead.** -/
theorem Peering.look (peering : Peering cs s t) (skipBreaks : Bool) (mode : Mode) :
    Saw cs skipBreaks (s.tokens.lexemeHere s.visible.operators skipBreaks mode)
      (lookAhead skipBreaks mode s) (lookAhead skipBreaks mode t) := by
  obtain ⟨ahead, look, coherent⟩ := lookAhead_eq peering.coherent skipBreaks mode
  obtain ⟨ahead', look', coherent'⟩ := lookAhead_eq peering.coherent' skipBreaks mode
  have operators : t.visible.operators = s.visible.operators := by rw [peering.same]
  have onto : Lexeme.Onto 0 ('\n' :: cs) skipBreaks
      (s.tokens.lexemeHere s.visible.operators skipBreaks mode)
      (t.tokens.lexemeHere t.visible.operators skipBreaks mode) := by
    rw [TokenStream.lexemeHere, TokenStream.lexemeHere, operators, peering.policy]
    exact lex_onto (.inr ⟨cs, rfl⟩) skipBreaks peering.place.unescaped (fun _ => peering.unbroken)
      peering.place.carried
  have unescaped : Unescaped ('\n' :: cs)
      (s.tokens.lexemeHere s.visible.operators skipBreaks mode).after.rest :=
    peering.place.unescaped.of_suffix (lex_suffix _ _ _ _ _)
  have breaks : skipBreaks = false →
      (s.tokens.lexemeHere s.visible.operators skipBreaks mode).token.kind = .endOfInput →
      (t.tokens.lexemeHere t.visible.operators skipBreaks mode).token.kind = .lineBreak ∧
        (t.tokens.lexemeHere t.visible.operators skipBreaks mode).reports = [] := by
    rintro rfl ended
    rw [TokenStream.lexemeHere, operators, peering.policy]
    have extend : s.lexis.Extends ('\n' :: cs) := ⟨.inr ⟨cs, rfl⟩, peering.unbroken, fun _ => .rfl⟩
    exact breaks_of_ended extend peering.place ended
  have silent : (s.tokens.lexemeHere s.visible.operators skipBreaks mode).token.kind = .endOfInput →
      (s.tokens.lexemeHere s.visible.operators skipBreaks mode).reports = [] :=
    fun ended => @silent_of_ended _ s.lexis _ _ ended
  rw [look, look']
  generalize s.tokens.lexemeHere s.visible.operators skipBreaks mode = lexeme,
    t.tokens.lexemeHere t.visible.operators skipBreaks mode = lexeme'
    at onto coherent coherent' unescaped breaks silent
  by_cases wrong : lexeme.reports ≠ []
  · exact .lost (fun ends => wrong (silent ends))
      (.inr ⟨peering.attends, reports_absorb_ne_nil peering.known wrong⟩)
  have silent := not_not.mp wrong
  have handed (tokens : TokenStream) (lexeme : Lexeme) (silent : lexeme.reports = []) ahead :
      tokens.handOut lexeme skipBreaks mode ahead = { tokens with
        handed := ⟨lexeme.token, lexeme.after, skipBreaks, mode⟩ :: tokens.handed
        ahead := ahead } := by
    rw [TokenStream.handOut, silent, TokenStream.absorb_nil]
  have lapsed (silent' : lexeme'.reports = []) : Lapsed cs
      { s with tokens := s.tokens.handOut lexeme skipBreaks mode ahead }
      { t with tokens := t.tokens.handOut lexeme' skipBreaks mode ahead' } := by
    rw [handed _ _ silent'] at coherent' ⊢
    rw [handed _ _ silent] at coherent ⊢
    exact { peering.toLapsed with
      same := by rw [peering.same]
      coherent := coherent
      coherent' := coherent' }
  by_cases ends : lexeme.token.kind = .endOfInput
  · cases skipBreaks with
    | true => exact .beyond rfl ends
    | false => exact .ended rfl (breaks rfl ends).1 (lapsed (breaks rfl ends).2) ends
  cases onto with
  | faulty _ faulty => exact absurd faulty wrong
  | ended _ ended => exact absurd ended ends
  | same token after reports =>
    have shifted : lexeme.token.shift 0 = lexeme.token := rfl
    rw [token, shifted]
    exact .same ends ⟨lapsed (by rw [reports, silent, List.map_nil]), ⟨after, unescaped⟩⟩

/-- What follows when two parsers have looked ahead. -/
lemma Peering.look_bind (peering : Peering cs s t) {skipBreaks : Bool} {mode : Mode}
    {next next' : Token → Parser β}
    (stays : (s.tokens.lexemeHere s.visible.operators skipBreaks mode).token.kind ≠ .endOfInput →
      ∀ token, StaysLoud (next token))
    (more : skipBreaks = true →
      (s.tokens.lexemeHere s.visible.operators skipBreaks mode).token.kind ≠ .endOfInput)
    (same : ∀ {s₁ t₁},
      let token := (s.tokens.lexemeHere s.visible.operators skipBreaks mode).token
      token.kind ≠ .endOfInput → Peering cs s₁ t₁ → Goes W (next token s₁) (next' token t₁))
    (ended : skipBreaks = false → ∀ {token' s₁ t₁}, token'.kind = .lineBreak →
      let token := (s.tokens.lexemeHere s.visible.operators skipBreaks mode).token
      token.kind = .endOfInput → Lapsed cs s₁ t₁ → Goes W (next token s₁) (next' token' t₁)) :
    Goes W ((lookAhead skipBreaks mode >>= next) s) ((lookAhead skipBreaks mode >>= next') t) := by
  have saw := peering.look skipBreaks mode
  match hs : lookAhead skipBreaks mode s, ht : lookAhead skipBreaks mode t with
  | p, q =>
    rw [hs, ht] at saw
    cases saw with
    | same more peering =>
      rw [bind_ok hs, bind_ok ht]
      exact same more peering
    | ended line breaks lapsed ends =>
      rw [bind_ok hs, bind_ok ht]
      exact ended line breaks ends lapsed
    | beyond far ends => exact absurd ends (more far)
    | lost more lost => exact .lost (Lost.bind (hs ▸ lost) (stays more))

/-- What was looked at is given back. -/
lemma Lapsed.rewind (lapsed : Lapsed cs s t) :
    Beside cs { s with tokens := s.tokens.rewind } { t with tokens := t.tokens.rewind } :=
  { lapsed with
    same := congrArg (fun u : ParserState => { u with tokens := t.tokens.rewind }) lapsed.same
    settled := settled_rewind lapsed.coherent
    settled' := settled_rewind lapsed.coherent' }

lemma flush_of_quiet (waiting : s.tokens.reports = []) : s.flush = s := by
  obtain ⟨⟨_, _, _, _, _, _⟩, _⟩ := s
  obtain rfl : _ = [] := waiting
  simp [ParserState.flush]

/-- What was looked at is taken. -/
lemma Peering.commit (peering : Peering cs s t) :
    ∃ s₁ t₁, Parser.commit s = .ok () s₁ ∧ Parser.commit t = .ok () t₁ ∧ Beside cs s₁ t₁ := by
  have taken {u : ParserState} (waiting : u.tokens.reports = [])
      (coherent : u.tokens.Coherent u.visible.operators) :
      Parser.commit u = .ok () { u with tokens := u.tokens.commit } ∧
        ParserState.Settled { u with tokens := u.tokens.commit } := by
    have flush : ParserState.flush { u with tokens := u.tokens.commit }
      = { u with tokens := u.tokens.commit } := flush_of_quiet waiting
    have settled := settled_commit coherent
    rw [flush] at settled
    exact ⟨by rw [commit_eq, flush], settled⟩
  obtain ⟨run, settled⟩ := taken peering.waiting peering.coherent
  obtain ⟨run', settled'⟩ := taken peering.waiting' peering.coherent'
  exact ⟨_, _, run, run', { peering with
    same := congrArg (fun u : ParserState => { u with tokens := t.tokens.commit }) peering.same
    anchor := peering.place
    settled := settled
    settled' := settled' }⟩

lemma Beside.lexemeHere (beside : Beside cs s t) (skipBreaks : Bool) (mode : Mode) :
    s.tokens.lexemeHere s.visible.operators skipBreaks mode = s.reads skipBreaks mode := by
  rw [TokenStream.lexemeHere, TokenStream.place, beside.settled.handed]
  rfl

lemma Begun.more_of (begun : Begun cs skipBreaks s t) (mode : Mode) :
    (s.tokens.lexemeHere s.visible.operators skipBreaks mode).token.kind ≠ .endOfInput := by
  rw [begun.lexemeHere]
  exact fun ends => begun.more ((ended_iff mode).mp ends)

/-- **The next token is the same**, where the text does not end. -/
lemma continues_peek (skipBreaks : Bool) (mode : Mode) :
    Continues (Begun cs skipBreaks) (Begun cs skipBreaks) (peek skipBreaks mode)
      (peek skipBreaks mode) := by
  refine ⟨inferInstance, fun {s t} begun => ?_⟩
  obtain ⟨token, u, run, settled, rfl, moves, stays, -⟩ :=
    ends_peek begun.settled skipBreaks mode
  have more : ¬ u.Ended skipBreaks := by
    rw [ParserState.Ended, ParserState.reads, moves.lexis, stays]
    exact begun.more
  have goes : Goes (fun _ => Beside cs) (peek skipBreaks mode s) (peek skipBreaks mode t) :=
    begun.toBeside.peering.look_bind (fun _ _ => inferInstance) (fun _ => begun.more_of mode)
      (fun _ peering => .ok _ peering.toLapsed.rewind)
      fun _ _ _ _ _ ends => absurd ends (begun.more_of mode)
  rw [run] at goes ⊢
  generalize peek skipBreaks mode t = q at goes ⊢
  cases goes with
  | ok _ beside => exact .ok _ ⟨beside, more⟩
  | lost lost => exact .lost lost

/-- **It is taken by both**, where the text does not end. -/
lemma continues_advance (skipBreaks : Bool) (mode : Mode) :
    Continues (Begun cs skipBreaks) (Beside cs) (advance skipBreaks mode)
      (advance skipBreaks mode) := by
  refine ⟨inferInstance, fun {s t} begun => ?_⟩
  refine begun.toBeside.peering.look_bind (fun _ _ => inferInstance) (fun _ => begun.more_of mode)
    (fun _ peering => ?_) fun _ _ _ _ _ ends => absurd ends (begun.more_of mode)
  obtain ⟨s₁, t₁, run, run', beside⟩ := peering.commit
  rw [bind_ok run, bind_ok run']
  exact .ok _ beside

lemma continues_skipToken (skipBreaks : Bool) (mode : Mode) :
    Continues (Begun cs skipBreaks) (Beside cs) (skipToken skipBreaks mode)
      (skipToken skipBreaks mode) :=
  (continues_advance skipBreaks mode).bind fun _ => .pure _

/-- Where the line ends with the text the longer one has a line break. -/
lemma Beside.peek_ended (beside : Beside cs s t) (through : s.Ended false) (mode : Mode) :
    ∃ token token' s₁ t₁, peek false mode s = .ok token s₁ ∧ peek false mode t = .ok token' t₁ ∧
      token.kind = .endOfInput ∧ token'.kind = .lineBreak ∧ Beside cs s₁ t₁ ∧ Moves s s₁ ∧
      s₁.here = s.here := by
  have ends : (s.tokens.lexemeHere s.visible.operators false mode).token.kind = .endOfInput := by
    rw [beside.lexemeHere]
    exact (ended_iff mode).mpr through
  obtain ⟨_, s₁, run, -, -, moves, here, -⟩ := ends_peek beside.settled false mode
  have saw := beside.peering.look false mode
  match hs : lookAhead false mode s, ht : lookAhead false mode t with
  | p, q =>
    rw [hs, ht] at saw
    cases saw with
    | same more => exact absurd ends more
    | @ended token u v line breaks lapsed =>
      have peeked : peek false mode s = .ok _ { u with tokens := u.tokens.rewind } := bind_ok hs
      obtain ⟨rfl, rfl⟩ := ok_unique run peeked
      exact ⟨_, token, _, _, run, bind_ok ht, ends, breaks, lapsed.rewind, moves, here⟩
    | beyond far => cases far
    | lost more => exact absurd ends more

/-- What is seen where the line ends with the text. -/
lemma Beside.peek_over (beside : Beside cs s t) (through : s.Ended false) (mode : Mode)
    {next next' : Token → Parser β}
    (h : ∀ {token token' s₁ t₁}, token.kind = .endOfInput → token'.kind = .lineBreak →
      Beside cs s₁ t₁ → Goes W (next token s₁) (next' token' t₁)) :
    Goes W ((peek false mode >>= next) s) ((peek false mode >>= next') t) := by
  obtain ⟨_, _, s₁, t₁, run, run', ends, breaks, beside, -⟩ := beside.peek_ended through mode
  rw [bind_ok run, bind_ok run']
  exact h ends breaks beside

/-- **A step on a line** that may end with the text, for the first parser. -/
lemma Yields.line {step other : Parser α} (begun : Yields (Begun cs false) Q step other)
    (through : ∀ {s t}, Beside cs s t → s.Ended false → Goes Q (step s) (other t)) :
    Yields (Beside cs) Q step other := by
  refine ⟨begun.stays, fun {s t} beside => ?_⟩
  by_cases ended : s.Ended false
  · exact through beside ended
  · exact begun.goes ⟨beside, ended⟩

/-- **A look at the rest of the line**, which ends with the text for the first parser and with a line
break for the second one. -/
lemma continues_peek_line (mode : Mode) {next next' : Token → Parser β}
    (begun : ∀ token, Yields (Begun cs false) W (next token) (next' token))
    (ended : ∀ {token token'}, token.kind = .endOfInput → token'.kind = .lineBreak →
      Yields (Beside cs) W (next token) (next' token')) :
    Yields (Beside cs) W (peek false mode >>= next) (peek false mode >>= next') :=
  .line ((continues_peek false mode).bind begun) fun beside through =>
    beside.peek_over through mode fun ends breaks beside => (ended ends breaks).goes beside

/-- The rest of a line that the first parser complains of where there is none. -/
lemma continues_advance_line (mode : Mode) {next next' : Token → Parser β}
    (begun : ∀ token, Yields (Beside cs) W (next token) (next' token))
    (ended : ∀ {token}, token.kind = .endOfInput → Told (next token)) :
    Yields (Beside cs) W (advance false mode >>= next) (advance false mode >>= next') := by
  refine .line ((continues_advance false mode).bind begun) fun {s t} beside through => ?_
  obtain ⟨_, u, run, -, rfl, moves, -⟩ := ends_advance beside.settled false mode
  rw [bind_ok run]
  exact .lost ((ended ((ended_iff mode).mpr through)).lost (moves.recovering.trans beside.attends))

end Parser

end TreeLang
