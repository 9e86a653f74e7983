import TreeLang.Proofs.Mirroring

/-!
# Blanks in front of one of two parsers

Two parsers that stand in front of the same text are abreast.  They read it alike also if blanks, comments
or line breaks stand in front of it for one of them: wherever a statement may begin these are skipped
with its first token, whatever that is taken for.

* `Parallel.Drifts`, **`Parallel.Adrift`** — between two statements, with something to be skipped in front
  of the first parser.
* `drifts_peek`, `drifts_advance` — the first token.
* `drifts_value`, `leads_definitionStatement` — what a statement may be.
* **`drifts_parseAll`** — sources.
-/

namespace TreeLang

/-! ## What begins a value -/

namespace Lexis

/-- What begins neither a group nor anything that is no value is a text. -/
lemma isText_value {lexis : Lexis} {p : Place}
    (more : (lexis.read true .word p).token.kind ≠ .endOfInput)
    (comma : (lexis.read true .word p).token.kind ≠ .comma)
    (comment : (lexis.read true .word p).token.kind ≠ .openComment)
    (closer : (lexis.read true .word p).token.kind.isCloser ≠ true)
    (opener : (lexis.read true .word p).token.kind.isOpener ≠ true) :
    (lexis.read true .value p).token.kind.isText = true := by
  have char (c : Char) (newline : c ≠ '\n') (comma : kindOf .word c ≠ .comma)
      (closer : (kindOf .word c).isCloser ≠ true) (opener : (kindOf .word c).isOpener ≠ true) :
      (kindOf .value c).isText = true := by
    cases delimits : delimiter? .word c with
    | none =>
      refine kindOf_value.2 ?_
      rw [kindOf, delimits, Option.getD_none]
      split <;> rfl
    | some kind =>
      have sign := delimiter?_sign delimits
      rw [kindOf, delimits, Option.getD_some] at comma closer opener
      -- What is left of the delimiters of words is the colon, which is ordinary in values.
      cases kind with
      | lineBreak => exact absurd (Option.some.inj sign).symm newline
      | comma => exact absurd rfl comma
      | rBrace | rBracket | rParen => exact absurd rfl closer
      | lBrace | lBracket | lParen => exact absurd rfl opener
      | colon =>
        obtain rfl := Option.some.inj sign
        rfl
      | equals =>
        obtain rfl := Option.some.inj sign
        cases delimits
      | endOfInput | literal | quoted | operator | keyword | openComment => cases sign
  simp only [read, lex] at more comma comment closer opener ⊢
  cases reached : skipTrivia true p with
  | openComment place =>
    rw [reached] at comment
    exact absurd rfl comment
  | token place =>
    have word : Mode.word ≠ .operation := by decide
    have value : Mode.value ≠ .operation := by decide
    simp only [reached, kind_lexHere word] at more comma closer opener
    simp only [kind_lexHere value]
    cases head : place.rest.head? with
    | none =>
      rw [head] at more
      exact absurd rfl more
    | some c =>
      rw [head] at comma closer opener
      have newline : c ≠ '\n' := by
        rintro rfl
        have stands := stands_of_skipTrivia reached
        obtain ⟨rest, hrest⟩ : ∃ rest, place.rest = '\n' :: rest := by
          cases hplace : place.rest with
          | nil => simp [hplace] at head
          | cons d rest =>
            rw [hplace] at head
            exact ⟨rest, by rw [Option.some.inj head]⟩
        rw [hrest] at stands
        simp [Stands, isBlank_newline] at stands
      exact char c newline comma closer opener

end Lexis

/-! ## Statements -/

namespace Parser

variable {options : CompileOptions} {resolver : Resolver} {s : ParserState} {fuel : Nat}

/-- A statement, given what its values may cost. -/
def statementWithin (options : CompileOptions) (resolver : Resolver) (fuel : Nat) (token : Token) :
    Parser (Option Node) := do
  match ← statementKeyword? token with
  | some opening =>
    definitionStatement options resolver fuel opening
    return none
  | none => return some (← parseValue options fuel)

/-- Whatever is enough for its values is enough for a statement. -/
lemma parseStatement_eq_within (between : Between s)
    (enough : s.lexis.cost s.here + s.lexis.pace ≤ fuel) :
    parseStatement options resolver (s.reads true .word).token s
      = statementWithin options resolver fuel (s.reads true .word).token s := by
  rw [parseStatement, bind_ok (valueFuel_eq between.settled), statementWithin]
  obtain ⟨found, t, run, settled, -, moves, -⟩ := ends_statementKeyword? between.settled
  rw [bind_ok run, bind_ok run]
  have between := between.moved settled moves
  have paid := enough_of_advanced moves.lexis moves.onward (Nat.le_refl _)
  have enough := enough_of_advanced moves.lexis moves.onward enough
  cases found with
  | some opening =>
    exact ((advances_definitionStatement between opening paid enough).bind
      fun _ _ settled _ => Advances.pure settled _).1
  | none =>
    exact ((Advances.of_passes (agree_parseValue between paid enough)).bind
      fun _ _ settled _ => Advances.pure settled _).1

end Parser

namespace Parallel

open TreeLang.Parser

variable {α β : Type} {P : Parallel} {lexis : Lexis} {p : Place} {s t u v : ParserState}

/-- Places in front of the same text, but for what is skipped in front of the first one. -/
def Drifts (P : Parallel) (p q : Place) : Prop :=
  ∃ r, skipTrivia true p = skipTrivia true r ∧ r.Carried P.ahead [] q

/-- Where two parsers stand that look ahead, one of them from a given place. -/
abbrev Drifting (P : Parallel) (lexis : Lexis) (p : Place) (cut : Lexis) (x y : Place) : Prop :=
  cut = lexis ∧ x = p ∧ P.Drifts p y

/-- **Two parsers of which the first one stands at a given place**, where there may be something to be
skipped in front of the text that both are about to read. -/
structure Adrift (P : Parallel) (lexis : Lexis) (p : Place) (s t : ParserState) : Prop
    extends Lasting P s t where
  settled : s.Settled
  settled' : t.Settled
  anchor : P.Drifting lexis p s.lexis s.here t.here

/-- Parsers in front of the same text have nothing to skip. -/
lemma Abreast.adrift (abreast : P.Abreast s t) : P.Adrift s.lexis s.here s t :=
  ⟨abreast.toLasting, abreast.settled, abreast.settled', rfl, rfl, s.here, rfl, abreast.anchor⟩

namespace Adrift

lemma reads (adrift : P.Adrift lexis p s t) (mode : Mode) :
    s.reads true mode = lexis.read true mode p := by
  obtain ⟨cut, here, -⟩ := adrift.anchor
  rw [ParserState.reads, cut, here]

/-- Whatever the first token is taken for, what is in front of it is skipped. -/
lemma onto (adrift : P.Adrift lexis p s t) (mode : Mode) :
    Lexeme.Onto P.ahead [] true (lexis.read true mode p) (t.reads true mode) := by
  obtain ⟨cut, -, r, same, carried⟩ := adrift.anchor
  have skipped : lexis.read true mode p = lexis.read true mode r := by
    rw [Lexis.read, Lexis.read, lex, lex, same]
  rw [skipped, ← cut, ParserState.reads, ParserState.lexis, ParserState.lexis, adrift.operators,
    adrift.policy]
  exact lex_onto (.inl rfl) true (fun more => absurd rfl more) (fun _ more => absurd rfl more) carried

lemma between (adrift : P.Adrift lexis p s t) (between : Between s) : Between t :=
  ⟨adrift.settled', adrift.recovering.trans between.attends, adrift.depth ▸ between.shallow⟩

end Adrift

/-- **Two parsers look at the same first token.** -/
lemma drifts_lookAhead (mode : Mode) :
    P.Leads (P.Adrift lexis p) (P.Looking (P.Drifting lexis p))
      (fun token other => token = (lexis.read true mode p).token ∧ P.Further token other)
      (lookAhead true mode) (lookAhead true mode) := by
  refine ⟨fun {s t} adrift => ?_⟩
  have first : s.tokens.lexemeHere s.visible.operators true mode = s.reads true mode :=
    lexemeHere_eq_lexeme adrift.settled true mode
  have second : t.tokens.lexemeHere t.visible.operators true mode = t.reads true mode :=
    lexemeHere_eq_lexeme adrift.settled' true mode
  have both := Looking.of_onto (A := P.Drifting lexis p) adrift.toLasting adrift.settled.coherent
    adrift.settled'.coherent adrift.anchor (by rw [first, second, adrift.reads]; exact adrift.onto mode)
  exact both.mono fun _ _ same =>
    ⟨same.1.trans (congrArg Lexeme.token (first.trans (adrift.reads mode))), same.2⟩

/-- What was looked at is given back. -/
lemma drifts_rewind :
    P.Leads (P.Looking (P.Drifting lexis p)) (P.Adrift lexis p) Eq rewind rewind :=
  .change fun looking => ⟨{ looking with }, settled_rewind looking.coherent,
    settled_rewind looking.coherent', looking.anchor⟩

lemma drifts_peek (mode : Mode) :
    P.Leads (P.Adrift lexis p) (P.Adrift lexis p)
      (fun token other => token = (lexis.read true mode p).token ∧ P.Further token other)
      (peek true mode) (peek true mode) :=
  (drifts_lookAhead mode).bind fun _ _ same => drifts_rewind.after fun _ => .pure same

lemma drifts_advance (mode : Mode) :
    P.Leads (P.Adrift lexis p) P.Abreast P.Further (advance true mode) (advance true mode) :=
  (drifts_lookAhead mode).bind fun _ _ same => leads_commit.after fun _ => .pure same.2

lemma drifts_skipToken (mode : Mode) :
    P.Leads (P.Adrift lexis p) P.Abreast Eq (skipToken true mode) (skipToken true mode) :=
  (drifts_advance mode).bind fun _ _ _ => .pure rfl

lemma opens_adrift : P.Opens (P.Adrift lexis p) := ⟨drifts_advance _⟩

lemma drifts_takeSuppressed :
    P.Leads (P.Adrift lexis p) (P.Adrift lexis p) Eq takeSuppressed takeSuppressed :=
  ⟨fun adrift => .ok adrift.suppressed.symm { adrift with
    suppressed := rfl
    settled := settled_of_same adrift.settled rfl rfl
    settled' := settled_of_same adrift.settled' rfl rfl }⟩

lemma drifts_statementKeyword? (token : Token) :
    P.Leads (P.Adrift lexis p) (P.Adrift lexis p) Eq (statementKeyword? token)
      (statementKeyword? (token.shift P.ahead)) := by
  have same : (if (token.shift P.ahead).kind = .literal
      then StatementKeyword.ofText? (token.shift P.ahead).content else none)
    = if token.kind = .literal then StatementKeyword.ofText? token.content else none := rfl
  rw [statementKeyword?, statementKeyword?, same]
  cases if token.kind = .literal then StatementKeyword.ofText? token.content else none with
  | none => exact .pure rfl
  | some opening =>
    refine (drifts_lookAhead _).bind fun _ _ _ =>
      (leads_lookAhead _ _).bind fun after _ further => drifts_rewind.after fun _ => .pure ?_
    subst further
    simp only [behind_shift]
    rfl

/-! ### Values -/

/-- **What becomes of the head of a group**: nothing, if no opener comes first, or the same head for
both parsers. -/
inductive Headed (P : Parallel) (lexis : Lexis) (p : Place) (nameMode : Mode) :
    EStateM.Result Fault ParserState (Option (Option Token × Token)) →
      EStateM.Result Fault ParserState (Option (Option Token × Token)) → Prop where
  | none {s t : ParserState} (opener : (lexis.read true nameMode p).token.kind.isOpener ≠ true)
    (adrift : P.Adrift lexis p s t) : Headed P lexis p nameMode (.ok none s) (.ok none t)
  | found {s t : ParserState} (name : Option Token) (opener : Token) (abreast : P.Abreast s t) :
    Headed P lexis p nameMode (.ok (some (name, opener)) s)
      (.ok (some (name.map (·.shift P.ahead), opener.shift P.ahead)) t)
  | fault {s t : ParserState} (fault : Fault) (abreast : P.Abreast s t) :
    Headed P lexis p nameMode (.error fault s) (.error fault t)

lemma Headed.bind {R : ParserState → ParserState → Prop} {V : α → β → Prop} {nameMode : Mode}
    {step : Parser α} {other : Parser β} {next : α → Parser (Option (Option Token × Token))}
    {next' : β → Parser (Option (Option Token × Token))} (both : P.Both R V (step s) (other t))
    (h : ∀ {a b u v}, V a b → R u v → P.Headed lexis p nameMode (next a u) (next' b v)) :
    P.Headed lexis p nameMode ((step >>= next) s) ((other >>= next') t) := by
  simp only [Bind.bind, EStateM.bind]
  generalize step s = x, other t = y at both
  cases both with
  | ok related states => exact h related states
  | fault fault abreast => exact .fault fault abreast

lemma Headed.ite {condition : Prop} [Decidable condition] {nameMode : Mode}
    {yes no yes' no' : Parser (Option (Option Token × Token))}
    (h : condition → P.Headed lexis p nameMode (yes s) (yes' t))
    (h' : ¬ condition → P.Headed lexis p nameMode (no s) (no' t)) :
    P.Headed lexis p nameMode ((if condition then yes else no) s)
      ((if condition then yes' else no') t) := by
  split
  · exact h ‹_›
  · exact h' ‹_›

lemma drifts_groupHead? (adrift : P.Adrift lexis p s t) (nameMode : Mode) :
    P.Headed lexis p nameMode (groupHead? nameMode s) (groupHead? nameMode t) := by
  have nothing {u v : ParserState} (looking : P.Looking (P.Drifting lexis p) u v)
      (opener : (lexis.read true nameMode p).token.kind.isOpener ≠ true) :
      P.Headed lexis p nameMode ((do rewind; return none : Parser _) u)
        ((do rewind; return none : Parser _) v) :=
    .bind (drifts_rewind.both looking) fun _ adrift => .none opener adrift
  refine .bind ((drifts_lookAhead nameMode).both adrift) fun {first _ u v} same looking => ?_
  obtain ⟨rfl, rfl⟩ := same
  refine .ite (fun _ => ?_) fun opener => .ite (fun _ => ?_) fun _ => nothing looking opener
  · exact .bind (leads_commit.both looking) fun _ abreast => .found none _ abreast
  · refine .bind ((leads_lookAhead false nameMode).both looking) fun {second _ u v} same looking => ?_
    subst same
    simp only [behind_shift]
    refine .ite (fun _ => ?_) fun _ => nothing looking opener
    exact .bind (leads_commit.both looking) fun _ abreast => .found (some _) _ abreast

/-- Behind what may be the head of a group. -/
lemma drifts_head {R : ParserState → ParserState → Prop} {V : α → β → Prop} {nameMode : Mode}
    {next : Option (Option Token × Token) → Parser α}
    {next' : Option (Option Token × Token) → Parser β}
    (none : (lexis.read true nameMode p).token.kind.isOpener ≠ true →
      P.Leads (P.Adrift lexis p) R V (next none) (next' none))
    (found : ∀ name opener, P.Leads P.Abreast R V (next (some (name, opener)))
      (next' (some (name.map (·.shift P.ahead), opener.shift P.ahead)))) :
    P.Leads (P.Adrift lexis p) R V (groupHead? nameMode >>= next) (groupHead? nameMode >>= next') := by
  refine ⟨fun {s t} adrift => ?_⟩
  have headed := drifts_groupHead? adrift nameMode
  simp only [Bind.bind, EStateM.bind]
  generalize groupHead? nameMode s = x, groupHead? nameMode t = y at headed
  cases headed with
  | none opener adrift => exact (none opener).both adrift
  | found name opener abreast => exact (found name opener).both abreast
  | fault fault abreast => exact .fault fault abreast

section Values

variable (options : CompileOptions) (fuel : Nat)
  (more : (lexis.read true .word p).token.kind ≠ .endOfInput)
  (comma : (lexis.read true .word p).token.kind ≠ .comma)
  (comment : (lexis.read true .word p).token.kind ≠ .openComment)
  (closer : (lexis.read true .word p).token.kind.isCloser ≠ true)

include more comma comment closer

/-- **What begins a statement and no definition** is the same value for both parsers. -/
lemma drifts_value :
    P.Leads (P.Adrift lexis p) P.Abreast (Node.Like P.likeness) (parseValue options (fuel + 2))
      (parseValue options (fuel + 2)) := by
  have calls {γ : Type} {call call' : Reading γ} (twin : P.Twin call call') :=
    follows_within options fuel twin
  show P.Leads _ _ _ (Reading.value.within options (fuel + 2)) (Reading.value.within options (fuel + 2))
  simp only [Reading.within_succ, Reading.round, Reading.atomRound, Reading.groupRound_eq, bind_assoc]
  refine drifts_takeSuppressed.after fun suppressed => drifts_head (fun opener => ?_)
    fun name opener => ?_
  · -- No group begins here, so a text does.
    simp only [pure_bind]
    refine (drifts_peek _).bind fun token _ same => ?_
    obtain ⟨rfl, rfl⟩ := same
    have text := Lexis.isText_value more comma comment closer opener
    rw [if_pos text, if_pos (show (Token.shift _ _).kind.isText = true from text)]
    exact (drifts_skipToken _).after fun _ => follows_primitive _ _
  · simp only [bind_assoc, pure_bind]
    exact (follows_foundRound calls name opener _).bind fun _ _ node => .pure node

variable (resolver : Resolver) (exact : P.likeness.exact) (delivers : P.Delivers resolver)

include exact delivers

/-- **A statement is the same for both parsers**, whatever is to be skipped in front of it. -/
lemma drifts_statementWithin :
    P.Leads (P.Adrift lexis p) P.Abreast (Node.LikeOption P.likeness)
      (statementWithin options resolver (fuel + 2) (lexis.read true .word p).token)
      (statementWithin options resolver (fuel + 2)
        ((lexis.read true .word p).token.shift P.ahead)) := by
  refine (drifts_statementKeyword? _).after fun opening => ?_
  cases opening with
  | some opening =>
    exact (leads_definitionStatement exact opens_adrift delivers _ opening).after fun _ => .pure .none
  | none =>
    exact (drifts_value options fuel more comma comment closer).bind fun _ _ node =>
      .pure (.some node)

/-- Whatever values may cost. -/
lemma Adrift.parseStatement (adrift : P.Adrift lexis p s t) (between : Between s) :
    P.Both P.Abreast (Node.LikeOption P.likeness)
      (parseStatement options resolver (lexis.read true .word p).token s)
      (parseStatement options resolver ((lexis.read true .word p).token.shift P.ahead) t) := by
  set fuel := max (s.lexis.cost s.here + s.lexis.pace) (t.lexis.cost t.here + t.lexis.pace)
  have token' : (t.reads true .word).token = (lexis.read true .word p).token.shift P.ahead := by
    cases adrift.onto .word with
    | faulty more => exact absurd rfl more
    | ended more => exact absurd rfl more
    | same token => exact token
  rw [← token', ← adrift.reads .word,
    parseStatement_eq_within between (show _ ≤ fuel + 2 by omega),
    parseStatement_eq_within (adrift.between between) (show _ ≤ fuel + 2 by omega), token',
    adrift.reads .word]
  exact (drifts_statementWithin options fuel more comma comment closer resolver exact
    delivers).both adrift

end Values

/-! ## Sources -/

variable {options : CompileOptions} {resolver : Resolver}

/-- A look at the first token leaves both parsers between two statements. -/
lemma drifts_peek_between (mode : Mode) :
    P.Leads (fun s t => P.Adrift lexis p s t ∧ Between s)
      (fun s t => P.Adrift lexis p s t ∧ Between s)
      (fun token other => token = (lexis.read true mode p).token ∧ P.Further token other)
      (peek true mode) (peek true mode) := by
  refine ⟨fun {s t} ⟨adrift, between⟩ => ?_⟩
  obtain ⟨_, u, run, settled, -, moves, -⟩ := ends_peek between.settled true mode
  have both := (drifts_peek mode).both adrift
  rw [run] at both ⊢
  generalize peek true mode t = q at both
  cases both with
  | ok same adrift => exact .ok same ⟨adrift, between.moved settled moves⟩

/-- **A parser in front of a text and one with something to be skipped in front of it** read the same
source, up to its end. -/
theorem drifts_parseAll (exact : P.likeness.exact) (delivers : P.Delivers resolver) (fuel : Nat)
    {vs ws : List Node} (values : Node.LikeValues P.likeness vs ws) :
    P.Leads (fun s t => P.Adrift lexis p s t ∧ Between s) P.Lasting (Node.LikeValues P.likeness)
      (parseAll options resolver (fuel + 1) vs) (parseAll options resolver (fuel + 1) ws) := by
  have again {vs ws : List Node} (values : Node.LikeValues P.likeness vs ws) :
      P.Leads P.Abreast P.Lasting (Node.LikeValues P.likeness) (parseAll options resolver fuel vs)
        (parseAll options resolver fuel ws) :=
    (follows_parseAll exact delivers fuel values).weaken (·.toLasting)
  have skip : P.Leads (fun s t => P.Adrift lexis p s t ∧ Between s) P.Abreast Eq
      (skipToken true .word) (skipToken true .word) :=
    ⟨fun states => (drifts_skipToken .word).both states.1⟩
  rw [parseAll_succ, parseAll_succ]
  refine (drifts_peek_between _).bind fun token _ same => ?_
  obtain ⟨rfl, rfl⟩ := same
  refine .either (fun _ => ?_) fun more => .either (fun _ => ?_) fun comma =>
    .either (fun _ => ?_) fun comment => .either (fun _ => ?_) fun closer => ?_
  · have flushed : P.Leads (fun s t => P.Adrift lexis p s t ∧ Between s) P.Lasting Eq noteLexical
        noteLexical := by
      refine ⟨fun {s t} ⟨adrift, _⟩ => ?_⟩
      rw [noteLexical_eq, noteLexical_eq]
      exact .ok rfl adrift.toLasting.flush
    exact flushed.after fun _ => .pure (List.rel_reverse values)
  · exact skip.after fun _ => (follows_complain_at _ _).after fun _ => again values
  · exact skip.after fun _ => again values
  · exact skip.after fun _ =>
      (follows_complain_token (fun _ _ => ⟨rfl, rfl, rfl⟩) _).after fun _ => again values
  · refine ⟨fun {s t} ⟨adrift, between⟩ => ?_⟩
    exact both_attempted (adrift.parseStatement options more comma comment closer resolver exact
      delivers between) _ again values

end Parallel

end TreeLang
