import TreeLang.Proofs.RoundTrip
import TreeLang.Proofs.Marking

/-!
# Texts that are one value

A text may be one value and nothing else.  What is read off it then is a phrase, from its first
character to its last one, and the compiler makes the tree of that phrase of it.

* `Lexis.statementAt?` — the definition statement that begins at a place.
* `isOneValue` — a text is one value, and there is nothing to report about it.
* **`exists_phrase_of_isOneValue`** — the phrase of such a text.
* `compileAlone_of_phrase` — what the compiler makes of it.
-/

namespace TreeLang

namespace Lexis

open TreeLang.Parser

variable {lexis : Lexis} {p q r : Place} {mode : Mode}

/-! ## How a statement begins -/

/-- **The definition statement that begins at a place**, if one does. -/
def statementAt? (lexis : Lexis) (place : Place) : Option StatementKeyword :=
  let first := (lexis.read true .word place).token
  match if first.kind = .literal then StatementKeyword.ofText? first.content else none with
  | none => none
  | some opening =>
    let after := (lexis.behindName .word place).token
    let attached := after.kind.isOpener && after.start = first.stop
    let alone := after.kind = .lineBreak || after.kind = .endOfInput || after.kind = .comma
    if attached || alone then none else some opening

/-- What is read behind blanks is read in front of them. -/
lemma Atom.of_leads {expands : Bool} {phrase : Phrase} (leads : lexis.Leads p q)
    (atom : Atom lexis mode expands q phrase r) : Atom lexis mode expands p phrase r := by
  cases atom with
  | word head meets text met =>
    rw [← leads mode] at text met ⊢
    exact .word ((headAt?_of_leads leads _).trans head) (meetsHead_of_leads leads meets) text met
  | object head meets kind content =>
    exact .object ((headAt?_of_leads leads _).trans head) (meetsHead_of_leads leads meets) kind
      content
  | list head meets kind content =>
    exact .list ((headAt?_of_leads leads _).trans head) (meetsHead_of_leads leads meets) kind content
  | operation head meets kind content =>
    exact .operation ((headAt?_of_leads leads _).trans head) (meetsHead_of_leads leads meets) kind
      content

/-- Under the mode of words a value begins with the same kind of token, or with a colon. -/
lemma kind_word (lexis : Lexis) (p : Place) :
    (lexis.read true .word p).token.kind = (lexis.read true .value p).token.kind ∨
      (lexis.read true .word p).token.kind = .colon := by
  have char : ∀ c, kindOf .word c = kindOf .value c ∨ kindOf .word c = .colon := by
    intro c
    by_cases colon : c = ':'
    · rw [colon]
      exact .inr (by decide)
    · exact .inl (by simp [kindOf, delimiter?, colon])
  simp only [read, lex]
  cases skipTrivia true p with
  | openComment place => exact .inl rfl
  | token place =>
    have word : Mode.word ≠ .operation := by decide
    have value : Mode.value ≠ .operation := by decide
    simp only [kind_lexHere word, kind_lexHere value]
    cases place.rest.head? with
    | none => exact .inl rfl
    | some c => exact char c

/-- A statement may begin where a value does. -/
lemma Atom.opensStatement {expands : Bool} {phrase : Phrase}
    (atom : Atom lexis .value expands p phrase q) :
    opensStatement (lexis.read true .word p).token.kind = true := by
  have begins : (lexis.read true .value p).token.kind.isOpener ∨
      (lexis.read true .value p).token.kind.isText := by
    cases atom with
    | word _ _ text _ => exact .inr text
    | object head => exact begins_of_headAt? (.inl rfl) head
    | list head => exact begins_of_headAt? (.inl rfl) head
    | operation head => exact begins_of_headAt? (.inl rfl) head
  rcases lexis.kind_word p with same | colon
  · rw [same]
    rcases begins with kind | kind <;> cases h : (lexis.read true .value p).token.kind <;>
      simp_all [TokenKind.isOpener, TokenKind.isText, Parser.opensStatement, TokenKind.isCloser]
  · rw [colon]
    rfl

/-- The tokens at the head of a value may be met. -/
lemma Atom.meetsHead {expands : Bool} {phrase : Phrase}
    (atom : Atom lexis mode expands p phrase q) : lexis.MeetsHead mode.ofNames p := by
  cases atom with
  | word _ meets _ _ => exact meets
  | object _ meets _ _ => exact meets
  | list _ meets _ _ => exact meets
  | operation _ meets _ _ => exact meets

end Lexis

namespace Parser

variable {s t u : ParserState} {p q r : Place} {lexis : Lexis} {options : CompileOptions}
  {resolver : Resolver}

/-- Where there is nothing to report a statement is known by its first tokens. -/
lemma runs_statementKeyword? (governs : lexis.Governs s) (silent : lexis.SilentHead .word p) :
    Runs (statementKeyword? (lexis.read true .word p).token) (s.moveTo p) (lexis.statementAt? p)
      (s.moveTo p) := by
  simp only [statementKeyword?, Lexis.statementAt?]
  cases keyword : (if (lexis.read true .word p).token.kind = .literal then
      StatementKeyword.ofText? (lexis.read true .word p).token.content else none) with
  | none => exact Runs.pure _ _
  | some opening =>
    have text : (lexis.read true .word p).token.kind.isText = true := by
      split_ifs at keyword with literal
      rw [literal]
      rfl
    intro s₁ settled hbase
    obtain ⟨s₂, look, looks⟩ := governs.look (Lexis.looks_of_settled settled hbase) silent.1
    obtain ⟨s₃, behind, looks⟩ := governs.lookBehind looks (silent.2 text)
    obtain ⟨s₄, back, settled, hbase⟩ := looks.rewind
    exact ⟨s₄, by simp only [bind_ok look, bind_ok behind, bind_ok back]; rfl, settled, hbase⟩

/-- In any case it is. -/
lemma ends_statementKeyword? (settled : s.Settled) :
    Ends (statementKeyword? (s.reads true .word).token) s fun found t =>
      found = s.lexis.statementAt? s.here ∧ Moves s t ∧ t.here = s.here := by
  simp only [statementKeyword?, Lexis.statementAt?]
  cases (if (s.lexis.read true .word s.here).token.kind = .literal then
      StatementKeyword.ofText? (s.lexis.read true .word s.here).token.content else none) with
  | none => exact .pure settled ⟨rfl, .refl s, rfl⟩
  | some opening =>
    obtain ⟨t, look, looks, -⟩ := (looksTo_of_settled settled).look true .word
    obtain ⟨u, behind, looks, -⟩ := looks.look false .word
    obtain ⟨v, back, settled, moves, stays, -⟩ := looks.rewind
    exact ⟨_, v, by simp only [bind_ok look, bind_ok behind, bind_ok back]; rfl, settled, rfl, moves,
      stays⟩

/-- **A value at the top of a source**, where no definition statement begins. -/
lemma runs_parseStatement_atom {phrase : Phrase} {node : Node} (silent : lexis.Silent)
    (governs : lexis.Governs s) (rests : s.suppressed = false)
    (ordinary : lexis.statementAt? p = none) (atom : lexis.Atom .value true p phrase q)
    (made : phrase.make options s = .ok node t) :
    Runs (parseStatement options resolver (lexis.read true .word p).token) (s.moveTo p) (some node)
      (t.moveTo q) := by
  have keyword := runs_statementKeyword? governs (atom.meetsHead.silent silent)
  rw [ordinary] at keyword
  refine (runs_valueFuel governs p).bind (keyword.bind ?_)
  have pace := lexis.ten_le_pace
  have value : Runs (parseAtom options (lexis.cost p + lexis.pace) .value) _ node _ :=
    atom.runs silent lexis.affords_priorityGroups (.inl rfl) governs rests made (by omega)
  rw [Bool.not_true, Lexis.suppress_of_rests rests] at value
  exact value.bind (Runs.pure _ _)

/-- What the text ahead may cost. -/
lemma valueFuel_eq (settled : s.Settled) :
    valueFuel s = .ok (s.lexis.cost s.here + s.lexis.pace) s := by
  rw [valueFuel, bind_ok (remaining_eq _), bind_get]
  simp only [TokenStream.place, settled.handed, pure, EStateM.pure]
  rw [Lexis.cost, ← Nat.succ_mul]
  rfl

/-- What begins as a definition statement is none that has a value. -/
lemma statementAt?_of_value {node : Node} (settled : s.Settled)
    (statement : parseStatement options resolver (s.reads true .word).token s = .ok (some node) t) :
    s.lexis.statementAt? s.here = none := by
  rw [parseStatement, bind_ok (valueFuel_eq settled)] at statement
  obtain ⟨found, v, hkeyword, -, rfl, -⟩ := ends_statementKeyword? settled
  rw [bind_ok hkeyword] at statement
  cases found : s.lexis.statementAt? s.here with
  | none => rfl
  | some opening =>
    rw [found] at statement
    obtain ⟨_, _, _, same⟩ := bind_eq_ok.mp statement
    cases same

/-- **A value at the top of any source**, where no definition statement begins. -/
lemma ends_parseStatement_value {holds : ParserState → List Node → Prop} {named : Nat → Prop}
    {held : List Node} (upkeep : Upkeep options holds named) (ready : Ready holds s held)
    (rests : s.suppressed = false) (ordinary : s.lexis.statementAt? s.here = none) :
    Ends (parseStatement options resolver (s.reads true .word).token) s fun value t =>
      ∃ node, value = some node ∧ Done holds s (node :: held)
        (fun q => ∃ phrase, s.lexis.Atom .value true s.here phrase q) t := by
  obtain ⟨found, u, hkeyword, settled, hfound, moves, here⟩ := ends_statementKeyword? ready.settled
  rw [ordinary] at hfound
  subst hfound
  have pace := s.lexis.ten_le_pace
  obtain ⟨node, v, hvalue, settled, done⟩ :
      Ends (parseValue options (s.lexis.cost s.here + s.lexis.pace)) u _ :=
    ends_parseValue upkeep (ready.moved upkeep settled moves) (by rw [moves.lexis, here]; omega)
  refine ⟨some node, v, ?_, settled, node, rfl, done.behind moves.toPasses ?_⟩
  · rw [parseStatement, bind_ok (valueFuel_eq ready.settled), bind_ok hkeyword]
    exact bind_ok hvalue
  · intro _ derived
    rwa [moves.lexis, moves.suppressed, rests, here] at derived

end Parser

/-! ## One value -/

open TreeLang.Parser

/-- **Whether a text is one value**: one statement can be read off it, which is no definition; then
nothing is left, and there is nothing to report. -/
def isOneValue (options : CompileOptions) (text : String) : Bool :=
  let statement := do parseStatement options (tableResolver []) (← peek true .word)
  match statement (initial options ⟨"", text⟩ {}) with
  | .ok (some _) s => s.tokens.place.rest.isEmpty && s.reports.isEmpty && s.tokens.reports.isEmpty
  | _ => false

/-- How the text of a source is cut into tokens. -/
def startingLexis (options : CompileOptions) : Lexis :=
  ⟨if options.defaultOperators then .defaults else .empty, options.invalidUnicodeEscape,
    fun lexeme => lexeme.reports = []⟩

/-- The phrase of a text that is one value. -/
structure PhraseOf (options : CompileOptions) (text : String) (phrase : Phrase) : Prop where
  atom : ∃ q, (startingLexis options).Atom .value true (.start text.toList) phrase q ∧ q.rest = []
  ordinary : (startingLexis options).statementAt? (.start text.toList) = none
  complaints : phrase.complaints options = []

variable {options : CompileOptions} {source : Source} {imports : ImportState}

lemma governs_initial : (startingLexis options).Governs (initial options source imports) :=
  ⟨rfl, rfl, rfl⟩

lemma quiet_initial : Quiet (initial options source imports) :=
  ⟨rfl, Nat.zero_le _, rfl⟩

/-- A text that is one value is read from its first character to its last one. -/
lemma exists_atom_of_isOneValue {text : String} (one : isOneValue options text = true) :
    ∃ node t phrase q,
      (do parseStatement options (tableResolver []) (← peek true .word) : Parser (Option Node))
          (initial options ⟨"", text⟩ {}) = .ok (some node) t ∧ t.reports = #[] ∧
        (startingLexis options).statementAt? (.start text.toList) = none ∧
        (startingLexis options).Atom .value true (.start text.toList) phrase q ∧ q.rest = [] := by
  set s := initial options ⟨"", text⟩ {} with hs
  obtain ⟨node, t, hrun, left, silent, waiting⟩ : ∃ node t,
      (do parseStatement options (tableResolver []) (← peek true .word) : Parser (Option Node)) s
          = .ok (some node) t ∧ t.tokens.place.rest = [] ∧ t.reports = #[] ∧
        t.tokens.reports = [] := by
    simp only [isOneValue, ← hs] at one
    split at one
    · rename_i node t hrun
      simp only [Bool.and_eq_true, List.isEmpty_iff, Array.isEmpty_iff] at one
      exact ⟨node, t, hrun, one.1.1, one.1.2, one.2⟩
    · cases one
  -- The first token, and what it opens.
  obtain ⟨token, u, hpeek, settled, rfl, looked, stays, -⟩ :=
    ends_peek (show s.Settled from ⟨rfl, trivial⟩) true .word
  have reread : u.reads true .word = s.reads true .word := by
    rw [ParserState.reads, looked.lexis, stays]
  have statement : parseStatement options (tableResolver []) (u.reads true .word).token u
      = .ok (some node) t := by
    rw [reread, ← hrun, bind_ok hpeek]
  have ordinary := statementAt?_of_value settled statement
  have tracks : Tracks [] (fun _ => False) 0 u [] := by
    refine Tracks.unmade (s := s) ?_ (unmade_of_moves looked)
    exact ⟨by simp [hs, initial, MacroRegistry.empty], rfl, Nat.le_refl _, by simp, by simp [hs, initial],
      by simp [hs, initial], by simp [hs, initial]⟩
  have ready : Ready (Tracks [] (fun _ => False) 0) u [] :=
    ⟨settled, looked.recovering, tracks⟩
  obtain ⟨value, v, hvalue, settled, made, rfl, done⟩ : Ends (parseStatement options
      (tableResolver []) (u.reads true .word).token) u _ := ends_parseStatement_value
    (upkeep_tracks options [] (fun _ => False) 0) ready looked.suppressed ordinary
  obtain ⟨rfl, rfl⟩ : node = made ∧ t = v := by
    simpa [statement] using hvalue
  have heard : s.Heard := .inr (.inr (.inr rfl))
  have passes := looked.toPasses.trans done.passes
  obtain ⟨phrase, atom⟩ := done.derives
    ((passes.heard heard).clean passes.recovering silent waiting)
  rw [looked.lexis, stays] at atom
  rw [looked.lexis, stays] at ordinary
  rw [TokenStream.place, settled.handed] at left
  exact ⟨_, _, phrase, _, hrun, silent, ordinary, atom, left⟩

/-- **A text that is one value is a phrase** from its first character to its last one, and there is
nothing to complain of in it. -/
theorem exists_phrase_of_isOneValue {text : String} (one : isOneValue options text = true) :
    ∃ phrase, PhraseOf options text phrase := by
  obtain ⟨node, t, phrase, q, hrun, silent, ordinary, atom, left⟩ := exists_atom_of_isOneValue one
  refine ⟨phrase, ⟨q, atom, left⟩, ordinary, ?_⟩
  set s := initial options ⟨"", text⟩ {} with hs
  have governs : (startingLexis options).Governs s := governs_initial
  obtain ⟨made, u, hmake, -, -, reports⟩ := gives_make options phrase (quiet_initial : Quiet s)
  have runs : Runs (do parseStatement options (tableResolver []) (← peek true .word)) s (some made)
      (u.moveTo q) :=
    (governs.runs_peek atom.meetsHead.1).bind
      (runs_parseStatement_atom (fun _ h => h) governs rfl ordinary atom hmake)
  obtain ⟨v, hrun', -, hbase⟩ := runs s ⟨rfl, trivial⟩ rfl
  obtain rfl : t = v := by
    rw [hrun] at hrun'
    cases hrun'
    rfl
  have same : t.reports = u.reports := congrArg (·.reports) hbase
  rw [← same, silent] at reports
  have parts := congrArg Array.toList reports
  rw [Array.toList_appendList] at parts
  exact (List.append_eq_nil_iff.mp parts.symm).2

/-- **What the compiler makes of a text that is one value**: its tree. -/
theorem compileAlone_of_phrase {name text : String} {phrase : Phrase}
    (whole : PhraseOf options text phrase) :
    let compilation := (compileAlone options ⟨name, text⟩ imports).1
    compilation.reports = [] ∧
      ∃ node, compilation.values = [node] ∧ node.strip = phrase.tree options := by
  obtain ⟨⟨q, atom, left⟩, ordinary, complaints⟩ := whole
  set s := initial options ⟨name, text⟩ imports with hs
  have governs : (startingLexis options).Governs s := governs_initial
  obtain ⟨node, t, made, stripped, -, reports⟩ := gives_make options phrase (quiet_initial : Quiet s)
  have governs' := governs.made (nodewise_make options phrase) made
  have last : (startingLexis options).read false .word q = _ := lex_end left
  have final : (startingLexis options).read true .word q = _ := lex_end left
  obtain ⟨fuel, hfuel⟩ : ∃ fuel, (Source.mk name text).length = fuel + 1 := by
    have positive : q.rest.length < (Source.mk name text).length := atom.shortens
    exact ⟨(Source.mk name text).length - 1, by omega⟩
  have runs : Runs (parseAll options (tableResolver []) ((Source.mk name text).length + 1) []) s [node]
      (t.moveTo q) := by
    rw [hfuel]
    refine runs_parseAll_round governs atom.meetsHead.1 atom.opensStatement
      (runs_parseStatement_atom (fun _ h => h) governs rfl ordinary atom made) ?_
      (runs_parseAll_end governs' (by rw [final]) (by rw [final]))
    exact runs_endStatement_end governs' (by rw [last]) (by rw [last])
  obtain ⟨values, reported⟩ := compile_of_runs runs
  have none : (t.moveTo q).reports.toList = [] := by
    rw [show (t.moveTo q).reports = t.reports from rfl, reports, complaints]
    rfl
  exact ⟨reported.trans none, node, values, stripped⟩

end TreeLang
