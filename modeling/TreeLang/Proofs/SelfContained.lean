import TreeLang.Proofs.Resting
import TreeLang.Proofs.Uniform

/-!
# Sources that stand by themselves

Macros and imports bring in nodes from elsewhere.  A source without them stands by itself: its nodes
are made of its own tokens, under operators of its own.  This file says what it means that no statement
of a source defines a macro or imports anything, and takes a round of the parser apart into a token and
what is read from it on.

* `Parser.roundFrom`, `sourceRound_eq` — a round of a source, from its first token on.
* `Lexis.isSelfContained`, **`SelfContained`** — no macro is defined and nothing is imported by the
  statement at a place, and by any statement of a source.
* `reaches_of_rounds`, `selfContained_of_rounds` — how that is seen of a given source.
* `plainStatement`, `plainRound` — a statement and a round where no macro is defined and nothing imported.
* **`roundFrom_eq_plain`** — a source that stands by itself is read in such rounds.
* `Uniform.plainRound` — they are related by whatever relates the steps of a parser.
-/

namespace TreeLang

open TreeLang.Parser

/-- Whether the statement at a place, if one begins there, defines no macro and imports nothing. -/
def Lexis.isSelfContained (lexis : Lexis) (place : Place) : Bool :=
  match lexis.statementAt? place with
  | none | some .operator | some .keyword => true
  | some .undefine =>
    let what := (lexis.behindName .word place).token
    (if what.kind = .literal then StatementKeyword.ofText? what.content else none) != some .use
  | some .template | some .function | some .use => false

namespace Parser

variable {options : CompileOptions} {resolver : Resolver} {s t u : ParserState}
  {values result : List Node}

/-! ## Rounds -/

/-- What is read from the first token of a round on, with the values it adds. -/
def roundFrom (options : CompileOptions) (resolver : Resolver) (token : Token) :
    Parser (List Node) := do
  if token.kind = .comma then
    skipToken true .word
    complain token.start .redundantComma
    return []
  else if token.kind = .openComment then
    skipToken true .word
    return []
  else if token.kind.isCloser then
    skipToken true .word
    complain token.start (.unexpectedCloser token)
    return []
  else
    match ← attempt (parseStatement options resolver token) with
    | .ok value =>
      endStatement
      return value.toList
    | .error fault =>
      isolate token.start fault
      return []

/-- **A round of a source** is a look at its first token and what is read from there on. -/
lemma sourceRound_eq (next : List Node → Parser (List Node)) (values : List Node) :
    sourceRound options resolver next values = (do
      let token ← peek true .word
      if token.kind = .endOfInput then
        noteLexical
        return values.reverse
      else
        let added ← roundFrom options resolver token
        next (added ++ values)) := by
  rw [sourceRound]
  refine congrArg (peek true .word >>= ·) (funext fun token => ?_)
  simp only [roundFrom]
  split_ifs <;> simp only [bind_assoc, pure_bind, List.nil_append]
  refine congrArg (attempt (parseStatement options resolver token) >>= ·) (funext fun outcome => ?_)
  cases outcome <;> simp only [bind_assoc, pure_bind, List.nil_append]

/-- A round that is not the last one. -/
lemma sourceRound_of_more {next : List Node → Parser (List Node)} {token : Token}
    (looked : peek true .word s = .ok token t) (more : token.kind ≠ .endOfInput) :
    sourceRound options resolver next values s
      = (roundFrom options resolver token >>= fun added => next (added ++ values)) t := by
  rw [sourceRound_eq, bind_ok looked, if_neg more]

/-- What is behind a round that is not the last one is behind what was read from its first token on. -/
lemma exists_taken_of_round (settled : s.Settled)
    (more : (s.reads true .word).token.kind ≠ .endOfInput)
    (run : sourceRound options resolver pure values s = .ok result u) :
    ∃ t added, peek true .word s = .ok (s.reads true .word).token t ∧
      roundFrom options resolver (s.reads true .word).token t = .ok added u := by
  obtain ⟨_, t, looked, -, rfl, -⟩ := ends_peek settled true .word
  rw [sourceRound_of_more looked more] at run
  obtain ⟨added, _, taken, ends⟩ := bind_eq_ok.mp run
  cases ends
  exact ⟨t, added, looked, taken⟩

/-- The states between two statements go on behind a round. -/
lemma Reaches.of_round {token : Token} {added : List Node} (settled : s.Settled)
    (looked : peek true .word s = .ok token t) (more : token.kind ≠ .endOfInput)
    (run : roundFrom options resolver token t = .ok added u) : Reaches options resolver s u := by
  obtain ⟨_, _, hpeek, -, rfl, -⟩ := ends_peek settled true .word
  obtain ⟨rfl, rfl⟩ := ok_unique hpeek looked
  have round : sourceRound options resolver Pure.pure [] s = .ok (added ++ []) u := by
    rw [sourceRound_of_more looked more, bind_ok run]
    rfl
  exact .round more round (.here u)

/-! ## Sources -/

/-- **No statement of a source defines a macro or imports anything.** -/
def SelfContained (options : CompileOptions) (resolver : Resolver) (s : ParserState) : Prop :=
  ∀ t, Reaches options resolver s t → t.lexis.isSelfContained t.here = true

lemma Reaches.trans (first : Reaches options resolver s t) (second : Reaches options resolver t u) :
    Reaches options resolver s u := by
  induction first with
  | here => exact second
  | round more run _ ih => exact .round more run (ih second)

lemma SelfContained.reached (contained : SelfContained options resolver s)
    (reaches : Reaches options resolver s t) : SelfContained options resolver t :=
  fun u further => contained u (reaches.trans further)

/-- Whether every state between two statements passes a check, as far as a number of rounds shows. -/
def throughout (check : ParserState → Bool) (options : CompileOptions) (resolver : Resolver) :
    Nat → ParserState → Bool
  | 0, _ => false
  | rounds + 1, s =>
    check s &&
      if (s.reads true .word).token.kind = .endOfInput then true
      else
        match sourceRound options resolver pure [] s with
        | .ok _ t => throughout check options resolver rounds t
        | .error _ _ => true

/-- What the rounds show holds for every state that is reached. -/
lemma reaches_of_rounds (check : ParserState → Bool) (rounds : Nat) (settled : s.Settled)
    (resting : s.Resting) (checked : throughout check options resolver rounds s = true)
    (reaches : Reaches options resolver s t) : check t = true := by
  induction rounds generalizing s with
  | zero => cases checked
  | succ rounds ih =>
    rw [throughout, Bool.and_eq_true] at checked
    obtain ⟨passes, checked⟩ := checked
    cases reaches with
    | here => exact passes
    | @round _ u _ values result more run others =>
      rw [if_neg more] at checked
      obtain ⟨w, added, looked, taken⟩ := exists_taken_of_round settled more run
      obtain ⟨_, v, round, settled, resting, -⟩ := ends_sourceRound_resting settled resting values
      obtain ⟨rfl, rfl⟩ := ok_unique round run
      rw [sourceRound_of_more looked more, bind_ok taken] at checked
      exact ih settled resting checked others

/-- How it is seen that no statement defines a macro or imports anything. -/
lemma selfContained_of_rounds (rounds : Nat) (settled : s.Settled) (resting : s.Resting)
    (checked : throughout (fun t => t.lexis.isSelfContained t.here) options resolver rounds s = true) :
    SelfContained options resolver s :=
  fun _ reaches => reaches_of_rounds _ rounds settled resting checked reaches

/-! ## Statements without macros and imports -/

/-- A statement that takes back something that was not imported. -/
def plainUndefine : Parser Unit := do
  skipToken true .word
  let what ← advance false .word
  match if what.kind = .literal then StatementKeyword.ofText? what.content else none with
  | some .template => undefineMacro false
  | some .function => undefineMacro true
  | some .operator => undefineOperator what.content false
  | some .keyword => undefineOperator what.content true
  | some .use => pure ()
  | _ => giveUp what.start (.expectedUndefineTarget what)

/-- A definition statement that defines no macro and imports nothing. -/
def plainDefinition (options : CompileOptions) (fuel : Nat) : StatementKeyword → Parser Unit
  | .operator => operatorStatement options fuel false
  | .keyword => operatorStatement options fuel true
  | .undefine => plainUndefine
  | .template | .function | .use => pure ()

/-- A statement that defines no macro and imports nothing, or a value. -/
def plainStatement (options : CompileOptions) (token : Token) : Parser (Option Node) := do
  let fuel ← valueFuel
  match ← statementKeyword? token with
  | some opening =>
    plainDefinition options fuel opening
    return none
  | none => return some (← parseValue options fuel)

/-- What is read from the first token of a round on, where that is such a statement. -/
def plainRound (options : CompileOptions) (token : Token) : Parser (List Node) := do
  if token.kind = .comma then
    skipToken true .word
    complain token.start .redundantComma
    return []
  else if token.kind = .openComment then
    skipToken true .word
    return []
  else if token.kind.isCloser then
    skipToken true .word
    complain token.start (.unexpectedCloser token)
    return []
  else
    match ← attempt (plainStatement options token) with
    | .ok value =>
      endStatement
      return value.toList
    | .error fault =>
      isolate token.start fault
      return []

lemma undefineStatement_eq_plain (settled : s.Settled)
    (other : (if (s.lexis.behindName .word s.here).token.kind = .literal then
      StatementKeyword.ofText? (s.lexis.behindName .word s.here).token.content else none)
        ≠ some .use) :
    undefineStatement resolver s = plainUndefine s := by
  obtain ⟨_, t, skip, settled, skipped, place, -⟩ := ends_skipToken settled true .word
  obtain ⟨what, u, take, -, rfl, -⟩ := ends_advance settled false .word
  have same : t.reads false .word = s.lexis.behindName .word s.here := by
    rw [ParserState.reads, skipped.lexis, place]
    rfl
  rw [undefineStatement, plainUndefine, bind_ok skip, bind_ok skip, bind_ok take, bind_ok take, same]
  generalize (if (s.lexis.behindName .word s.here).token.kind = .literal then
      StatementKeyword.ofText? (s.lexis.behindName .word s.here).token.content else none) = found
    at other
  cases found with
  | none => rfl
  | some word =>
    cases word with
    | use => exact absurd rfl other
    | template | function | operator | keyword | undefine => rfl

/-- Where a statement defines no macro and imports nothing, it is read as such. -/
lemma parseStatement_eq_plain (settled : s.Settled)
    (contained : s.lexis.isSelfContained s.here = true) :
    parseStatement options resolver (s.reads true .word).token s
      = plainStatement options (s.reads true .word).token s := by
  obtain ⟨found, t, keyword, settled', hfound, moves, stays⟩ := ends_statementKeyword? settled
  rw [Lexis.isSelfContained, ← hfound] at contained
  rw [parseStatement, plainStatement, bind_ok (valueFuel_eq settled),
    bind_ok (valueFuel_eq settled), bind_ok keyword, bind_ok keyword]
  cases found with
  | none => rfl
  | some opening =>
    cases opening with
    | operator | keyword => rfl
    | undefine =>
      have undefine : undefineStatement resolver t = plainUndefine t := by
        refine undefineStatement_eq_plain settled' ?_
        rw [moves.lexis, stays]
        simpa using contained
      show (undefineStatement resolver >>= fun _ => Pure.pure none) t
        = (plainUndefine >>= fun _ => Pure.pure none) t
      simp only [Bind.bind, EStateM.bind, undefine]
    | template | function | use => cases contained

/-- **A round of a source that stands by itself** is one without macros and imports. -/
theorem roundFrom_eq_plain {token : Token} (settled : s.Settled)
    (contained : s.lexis.isSelfContained s.here = true) (looked : peek true .word s = .ok token t) :
    roundFrom options resolver token t = plainRound options token t := by
  obtain ⟨_, u, hpeek, settled, rfl, moves, stays, -⟩ := ends_peek settled true .word
  obtain ⟨rfl, rfl⟩ := ok_unique looked hpeek
  have same : t.reads true .word = s.reads true .word := by
    rw [ParserState.reads, ParserState.reads, moves.lexis, stays]
  have statement : parseStatement options resolver (s.reads true .word).token t
      = plainStatement options (s.reads true .word).token t := by
    rw [← same]
    exact parseStatement_eq_plain settled (by rw [moves.lexis, stays]; exact contained)
  have attempted : attempt (parseStatement options resolver (s.reads true .word).token) t
      = attempt (plainStatement options (s.reads true .word).token) t := by
    rw [attempt, attempt, statement]
  rw [roundFrom, plainRound]
  split_ifs <;> first | rfl | simp only [Bind.bind, EStateM.bind, attempted]

namespace Uniform

variable {options' : CompileOptions} {R : ∀ {α : Type}, Parser α → Parser α → Prop}
  (h : Uniform options options' R)

include h

lemma plainUndefine : R plainUndefine plainUndefine := by
  refine h.bind (h.skipToken _ _) fun _ => h.bind (h.advance _ _) fun what => ?_
  split
  · exact h.undefineMacro false
  · exact h.undefineMacro true
  · exact h.undefineOperator _ false
  · exact h.undefineOperator _ true
  · exact h.pure _
  · exact h.giveUp _ _

lemma plainStatement (token : Token) :
    R (plainStatement options token) (plainStatement options' token) := by
  refine h.bind h.valueFuel fun fuel => h.bind (h.statementKeyword? token) fun opening => ?_
  match opening with
  | none => exact h.bind (h.parseValue _) fun _ => h.pure _
  | some .operator => exact h.bind (h.operatorStatement _ false) fun _ => h.pure _
  | some .keyword => exact h.bind (h.operatorStatement _ true) fun _ => h.pure _
  | some .undefine => exact h.bind h.plainUndefine fun _ => h.pure _
  | some .template | some .function | some .use => exact h.bind (h.pure _) fun _ => h.pure _

/-- **Rounds without macros and imports** are related. -/
theorem plainRound (token : Token) : R (plainRound options token) (plainRound options' token) := by
  refine h.ite ?_ (h.ite ?_ (h.ite ?_ ?_))
  · exact h.bind (h.skipToken _ _) fun _ => h.bind (h.complain _ _) fun _ => h.pure _
  · exact h.bind (h.skipToken _ _) fun _ => h.pure _
  · exact h.bind (h.skipToken _ _) fun _ => h.bind (h.complain _ _) fun _ => h.pure _
  · refine h.bind (h.attempt (h.plainStatement token)) fun outcome => ?_
    cases outcome with
    | ok value => exact h.bind h.endStatement fun _ => h.pure _
    | error fault => exact h.bind (h.isolate _ _) fun _ => h.pure _

end Uniform

end Parser

end TreeLang
