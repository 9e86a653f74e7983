import TreeLang.Compilation
import TreeLang.Proofs.Completeness

/-!
# Reading a source

A source is read round by round: one statement or one value, and the separator behind it.  This
file follows one round where nothing is wrong with it, and the end of a source.

* `runs_valueFuel` — the bound that a statement starts with.
* `runs_statementKeyword?` — a statement that begins with no keyword is a value.
* **`runs_parseAll_round`**, `runs_parseAll_end` — a round, and the end of the source.
* `compile_of_runs` — what a compilation answers is what the last state holds.
-/

namespace TreeLang.Parser

variable {α : Type} {s t u : ParserState} {p q r : Place} {lexis : Lexis}
  {options : CompileOptions} {resolver : Resolver}

/-! ## One statement -/

/-- What the text ahead may cost. -/
lemma runs_valueFuel (governs : lexis.Governs s) (p : Place) :
    Runs valueFuel (s.moveTo p) (lexis.cost p + lexis.pace) (s.moveTo p) := by
  intro s₁ settled hbase
  refine ⟨s₁, ?_, settled, hbase⟩
  have place : s₁.tokens.anchor = p := congrArg (·.tokens.anchor) hbase
  have operators : s₁.visible.operators = lexis.operators :=
    (congrArg (·.visible.operators) hbase).trans governs.operators
  rw [valueFuel, bind_ok (remaining_eq _), bind_get]
  simp only [TokenStream.place, settled.handed, pure, EStateM.pure, place, operators]
  rw [Lexis.cost, Nat.succ_mul]
  rfl

/-- A step that is not broken off answers its value. -/
lemma Runs.attempt {step : Parser α} {value : α} (runs : Runs step s value t) :
    Runs (Parser.attempt step) s (.ok value) t := by
  intro s₁ settled hbase
  obtain ⟨t₁, hstep, settled, hbase⟩ := runs s₁ settled hbase
  exact ⟨t₁, by rw [Parser.attempt, hstep], settled, hbase⟩

/-- What begins with no keyword is no definition statement. -/
lemma runs_statementKeyword?_none {token : Token}
    (word : (if token.kind = .literal then StatementKeyword.ofText? token.content else none) = none)
    (s : ParserState) : Runs (statementKeyword? token) s none s := by
  unfold statementKeyword?
  rw [word]
  exact Runs.pure _ _

/-- **A value at the top of a source.** -/
lemma runs_parseStatement_value {token : Token} {phrase : Phrase} {node : Node}
    (silent : lexis.Silent) (affords : lexis.Affords lexis.operators.priorityGroups)
    (governs : lexis.Governs s) (rests : s.suppressed = false)
    (word : (if token.kind = .literal then StatementKeyword.ofText? token.content else none) = none)
    (atom : lexis.Atom .value true p phrase q) (made : phrase.make options s = .ok node t) :
    Runs (parseStatement options resolver token) (s.moveTo p) (some node) (t.moveTo q) := by
  refine (runs_valueFuel governs p).bind ((runs_statementKeyword?_none word _).bind ?_)
  have pace := lexis.ten_le_pace
  have value : Runs (parseAtom options (lexis.cost p + lexis.pace) .value) _ node _ :=
    atom.runs silent affords (.inl rfl) governs rests made (by omega)
  rw [Bool.not_true, Lexis.suppress_of_rests rests] at value
  exact value.bind (Runs.pure _ _)

/-! ## Rounds -/

/-- Behind a statement a separator is passed. -/
lemma runs_endStatement_separator (governs : lexis.Governs s)
    (kind : (lexis.read false .word p).token.kind = .lineBreak ∨
      (lexis.read false .word p).token.kind = .comma)
    (silent : (lexis.read false .word p).reports = []) :
    Runs endStatement (s.moveTo p) () (s.moveTo (lexis.read false .word p).after) := by
  refine (governs.runs_peek silent).bind ?_
  rw [if_pos (by simpa using kind)]
  exact governs.runs_skipToken silent

/-- Behind the last statement there is none. -/
lemma runs_endStatement_end (governs : lexis.Governs s)
    (kind : (lexis.read false .word p).token.kind = .endOfInput)
    (silent : (lexis.read false .word p).reports = []) :
    Runs endStatement (s.moveTo p) () (s.moveTo p) := by
  refine (governs.runs_peek silent).bind ?_
  rw [if_neg (by rw [kind]; decide), if_pos kind]
  exact Runs.pure _ _

/-- Whether a statement begins with a token, and not the end of a source or a mistake. -/
def opensStatement (kind : TokenKind) : Bool :=
  !(kind = .endOfInput || kind = .comma || kind = .openComment || kind.isCloser)

/-- **One round**: a statement, the separator behind it, and what follows. -/
theorem runs_parseAll_round {fuel : Nat} {values result : List Node} {value : Option Node}
    (governs : lexis.Governs s) (silent : (lexis.read true .word p).reports = [])
    (opens : opensStatement (lexis.read true .word p).token.kind = true)
    (statement : Runs (parseStatement options resolver (lexis.read true .word p).token) (s.moveTo p)
      value (t.moveTo q))
    (ended : Runs endStatement (t.moveTo q) () (t.moveTo r))
    (others : Runs (parseAll options resolver fuel (value.toList ++ values)) (t.moveTo r) result u) :
    Runs (parseAll options resolver (fuel + 1) values) (s.moveTo p) result u := by
  rw [parseAll]
  refine (governs.runs_peek silent).bind ?_
  simp only [opensStatement, Bool.not_eq_true', Bool.or_eq_false_iff, decide_eq_false_iff_not] at opens
  obtain ⟨⟨⟨more, comma⟩, comment⟩, closer⟩ := opens
  rw [if_neg more, if_neg comma, if_neg comment, if_neg (by simp [closer])]
  exact statement.attempt.bind (ended.bind others)

/-- A statement may begin with a group or a text. -/
theorem runs_parseAll_more {fuel : Nat} {values result : List Node} {value : Option Node}
    (governs : lexis.Governs s)
    (silent : (lexis.read true .word p).reports = [])
    (kind : (lexis.read true .word p).token.kind.isOpener = true ∨
      (lexis.read true .word p).token.kind.isText = true)
    (statement : Runs (parseStatement options resolver (lexis.read true .word p).token) (s.moveTo p)
      value (t.moveTo q))
    (ended : Runs endStatement (t.moveTo q) () (t.moveTo r))
    (others : Runs (parseAll options resolver fuel (value.toList ++ values)) (t.moveTo r) result u) :
    Runs (parseAll options resolver (fuel + 1) values) (s.moveTo p) result u := by
  refine runs_parseAll_round governs silent ?_ statement ended others
  rcases kind with kind | kind <;> cases h : (lexis.read true .word p).token.kind <;>
    simp_all [TokenKind.isOpener, TokenKind.isText, opensStatement, TokenKind.isCloser]

/-- **At the end of a source** nothing is left to be done. -/
theorem runs_parseAll_end {fuel : Nat} {values : List Node} (governs : lexis.Governs s)
    (kind : (lexis.read true .word p).token.kind = .endOfInput)
    (silent : (lexis.read true .word p).reports = []) :
    Runs (parseAll options resolver (fuel + 1) values) (s.moveTo p) values.reverse (s.moveTo p) := by
  rw [parseAll]
  refine (governs.runs_peek silent).bind ?_
  rw [if_pos kind]
  have noted : Runs noteLexical (s.moveTo p) () (s.moveTo p) := by
    intro s₁ settled hbase
    refine ⟨s₁.flush, noteLexical_eq s₁, ⟨settled.handed, settled.coherent⟩, ?_⟩
    have flushed : s₁.flush.base = s₁.base.flush := rfl
    rw [flushed, hbase, (governs.moveTo p).flush_eq]
  exact noted.bind (Runs.pure _ _)

/-! ## Compilations -/

/-- What a compilation answers is what the last state holds. -/
lemma compile_of_runs {source : Source} {imports : ImportState} {values : List Node}
    (runs : Runs (parseAll options resolver (source.length + 1) [])
      (initial options source imports) values t) :
    let compilation := (compile options resolver source imports).1
    compilation.values = values ∧ compilation.reports = t.reports.toList := by
  have settled : (initial options source imports).Settled := ⟨rfl, trivial⟩
  obtain ⟨t₁, run, -, hbase⟩ := runs _ settled rfl
  have reports : t₁.reports = t.reports := congrArg (·.reports) hbase
  simp only [compile, run]
  exact ⟨rfl, by rw [reports]⟩

end TreeLang.Parser
