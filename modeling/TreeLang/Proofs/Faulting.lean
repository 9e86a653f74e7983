import TreeLang.Proofs.Advancing
import TreeLang.Proofs.Blindness
import TreeLang.Proofs.Defining
import TreeLang.Proofs.Evolving
import TreeLang.Proofs.Resting

/-!
# Lines that break down

A statement that imports something, or takes an import back, asks the resolver.  If that breaks down the
statement is given up where it is: nothing of it is left but a report, what the resolver learnt on the
way, and that the parser stands behind its line.

* `Breaks` — a step that is broken off.
* `IsPath`, `importLines` — paths written as a word, and the lines that name them.
* `breaks_line` — such a line is broken off behind its path.
* **`ends_sourceRound_line`** — what it leaves.
-/

namespace TreeLang

/-! ## Words that name paths -/

/-- Behind a blank and a stretch of the text. -/
lemma Place.behind_blank {p : Place} {w tail : List Char} (hp : p.rest = ' ' :: (w ++ tail)) :
    (p.next.skip w.length).rest = tail ∧
      (p.next.skip w.length).offset = p.offset + 1 + w.length := by
  have behind := Place.rest_next_of_cons hp
  refine ⟨Place.rest_skip_of_append behind, ?_⟩
  rw [Place.offset_skip_of_append behind, Place.offset_next_of_cons hp]

/-- What does not end a word does not end a value. -/
lemma delimiter?_value {c : Char} (word : delimiter? .word c = none) :
    delimiter? .value c = none := by
  have colon : c ≠ ':' := by
    rintro rfl
    cases word
  rw [delimiter?_value_eq colon, word]

/-- **A path that is written as a word**: readers take it as one, whatever it holds. -/
structure IsPath (w : List Char) : Prop where
  bare : Bare .empty .word w
  begins : BeginsBare w

namespace IsPath

variable {w tail : List Char} {mode : Mode} {lexis : Lexis} {p : Place}

lemma of_isWord (word : IsWord w) : IsPath w :=
  ⟨word.bare (by decide), word.begins⟩

/-- Blanks do not end values, and fewer characters do. -/
lemma bare_of_value (path : IsPath w) (mode_ : mode = .word ∨ mode = .value)
    (operators : OperatorRegistry) : Bare operators mode w := by
  refine ⟨fun c mem => ?_, path.bare.comment, path.bare.last⟩
  obtain ⟨escape, delimits, blank, -⟩ := path.bare.chars c mem
  rcases mode_ with rfl | rfl
  · exact ⟨escape, delimits, blank, fun same => absurd same (by decide)⟩
  · exact ⟨escape, delimiter?_value delimits, fun _ => rfl, fun same => absurd same (by decide)⟩

/-- **A path in a line** is one token, behind a blank. -/
lemma read (path : IsPath w) (mode_ : mode = .word ∨ mode = .value) (stops : Stops mode tail)
    (hp : p.rest = ' ' :: (w ++ tail)) :
    lexis.read false mode p = ⟨⟨.literal, String.ofList w, p.offset + 1, p.offset + 1 + w.length⟩,
      p.next.skip w.length, []⟩ := by
  have front : lexis.read false mode p = lexis.read false mode p.next :=
    lex_blanks (show p.rest = [' '] ++ (w ++ tail) from hp) (List.forall_mem_singleton.mpr (by decide))
  have behind := Place.rest_next_of_cons hp
  rw [front, ← Place.offset_next_of_cons hp]
  exact lex_bare (path.bare_of_value mode_ _) path.begins stops behind

end IsPath

namespace Parser

variable {α β : Type} {s t u : ParserState} {p q : Place} {lexis : Lexis} {w tail : List Char}
  {resolver : Resolver} {options : CompileOptions} {fault : Fault} {imports : ImportState}

/-! ## Steps that are broken off -/

/-- **A step that is broken off**, from a state without what was read ahead in another one, whatever
is read ahead. -/
def Breaks (step : Parser α) (s : ParserState) (fault : Fault) (t : ParserState) : Prop :=
  ∀ s₁ : ParserState, s₁.Settled → s₁.base = s →
    ∃ t₁, step s₁ = .error fault t₁ ∧ t₁.Settled ∧ t₁.base = t

namespace Breaks

variable {step : Parser α} {next : α → Parser β} {value : α}

/-- What is behind a step that is broken off is not reached. -/
lemma bind (breaks : Breaks step s fault t) : Breaks (step >>= next) s fault t := by
  intro s₁ settled hbase
  obtain ⟨t₁, run, settled, hbase⟩ := breaks s₁ settled hbase
  exact ⟨t₁, by simp only [Bind.bind, EStateM.bind, run], settled, hbase⟩

lemma behind (runs : Runs step s value t) (breaks : Breaks (next value) t fault u) :
    Breaks (step >>= next) s fault u := by
  intro s₁ settled hbase
  obtain ⟨t₁, run, settled, hbase⟩ := runs s₁ settled hbase
  obtain ⟨u₁, broken, settled, hbase⟩ := breaks t₁ settled hbase
  exact ⟨u₁, (bind_ok run).trans broken, settled, hbase⟩

end Breaks

/-- Looking at two tokens of a line. -/
lemma runs_lookPast (governs : lexis.Governs s)
    (first : (lexis.read false .word p).reports = [])
    (second : (lexis.read false .value (lexis.read false .word p).after).reports = [])
    {next : Token → Parser α} {value : α}
    (behind : Runs (next (lexis.read false .value (lexis.read false .word p).after).token)
      (s.moveTo p) value t) :
    Runs (do
      let _ ← lookAhead false .word
      let after ← lookAhead false .value
      rewind
      next after) (s.moveTo p) value t := by
  intro s₁ settled hbase
  obtain ⟨s₂, look, looks⟩ := governs.look (Lexis.looks_of_settled settled hbase) first
  obtain ⟨s₃, past, looks⟩ := governs.look looks second
  obtain ⟨s₄, back, settled, hbase⟩ := looks.rewind
  rw [bind_ok look, bind_ok past, bind_ok back]
  exact behind s₄ settled hbase

section Line

variable (path : IsPath w) (governs : lexis.Governs s)

include path governs

/-- The path that a line names. -/
lemma runs_importPath? (hp : p.rest = ' ' :: (w ++ '\n' :: tail)) :
    Runs importPath? (s.moveTo p) (some (String.ofList w, p.offset + 1))
      (s.moveTo (p.next.skip w.length)) := by
  have token : lexis.read false .value p = _ :=
    path.read (.inr rfl) (show Stops .value ('\n' :: tail) from .inl (by decide)) hp
  have first := governs.runs_advance (show (lexis.read false .value p).reports = [] by rw [token])
  rw [token] at first
  obtain ⟨c, rest, rfl, -⟩ := path.begins
  refine first.bind ?_
  rw [if_pos (by simp [TokenKind.isText])]
  exact Runs.pure _ _

/-- A path that is no mark. -/
lemma runs_publicMark_none (hp : p.rest = ' ' :: (w ++ '\n' :: tail)) :
    Runs publicMark (s.moveTo p) false (s.moveTo p) := by
  have token : lexis.read false .word p = _ :=
    path.read (.inl rfl) (show Stops .word ('\n' :: tail) from .inl (by decide)) hp
  have ended : (p.next.skip w.length).rest = '\n' :: tail :=
    Place.rest_skip_of_append (Place.rest_next_of_cons hp)
  have lineBreak : lexis.read false .value (p.next.skip w.length) = _ :=
    lex_delimiter ended (show delimiter? .value '\n' = some .lineBreak by decide) fun _ => rfl
  refine (governs.runs_peek (by rw [token])).bind ?_
  split
  · refine runs_lookPast governs (by rw [token]) (by rw [token, lineBreak]) ?_
    rw [token, lineBreak]
    exact Runs.pure _ _
  · exact Runs.pure _ _

variable (breaksDown : resolver (String.ofList w) s.imports = .error fault imports)

include breaksDown

end Line

/-! ### The lines -/

/-- **A line that is broken off**: what it begins with, and where it is given up. -/
structure LineBreaks (options : CompileOptions) (resolver : Resolver) (lexis : Lexis) (s : ParserState)
    (p : Place) (fault : Fault) (imports : ImportState) (q : Place) : Prop where
  opens : opensStatement (lexis.read true .word p).token.kind = true
  silent : lexis.SilentHead .word p
  breaks : Breaks (parseStatement options resolver (lexis.read true .word p).token) (s.moveTo p) fault
    (ParserState.moveTo { s with imports := imports } q)

section Line

variable {h : Place} (leads : lexis.Leads h p) (governs : lexis.Governs s)

include leads

/-- The word that a line begins with. -/
lemma read_keyword {keyword behind : List Char} (word : IsPath keyword)
    (hp : p.rest = keyword ++ ' ' :: behind) :
    ∃ r, lexis.read true .word h = ⟨⟨.literal, String.ofList keyword, p.offset, r.offset⟩, r, []⟩ ∧
      r.rest = ' ' :: behind ∧ r.offset = p.offset + keyword.length := by
  have stops : Stops .word (' ' :: behind) := .inr ⟨by decide, rfl⟩
  refine ⟨p.skip keyword.length, ?_, Place.rest_skip_of_append hp, Place.offset_skip_of_append hp⟩
  rw [leads .word, Place.offset_skip_of_append hp]
  exact lex_bare (word.bare_of_value (.inl rfl) _) word.begins stops hp

/-- The head of a line that begins with a keyword and goes on with another word. -/
lemma head_of_line {keyword behind stop : List Char} {opening : StatementKeyword}
    (word : IsPath keyword) (next : IsPath behind) (stops : Stops .word stop)
    (opens : StatementKeyword.ofText? (String.ofList keyword) = some opening)
    (hp : p.rest = keyword ++ ' ' :: (behind ++ stop)) :
    ∃ r, lexis.read true .word h = ⟨⟨.literal, String.ofList keyword, p.offset, r.offset⟩, r, []⟩ ∧
      r.rest = ' ' :: (behind ++ stop) ∧ r.offset = p.offset + keyword.length ∧
      lexis.SilentHead .word h ∧ lexis.statementAt? h = some opening := by
  obtain ⟨r, first, hr, offset⟩ := read_keyword leads word hp
  have second : lexis.read false .word r = _ := next.read (.inl rfl) stops hr
  have behindName : lexis.behindName .word h = lexis.read false .word r := by
    rw [Lexis.behindName, first]
  refine ⟨r, first, hr, offset, ⟨by rw [first], fun _ => by rw [behindName, second]⟩, ?_⟩
  simp [Lexis.statementAt?, first, behindName, second, opens, TokenKind.isOpener]

include governs

end Line

/-! ## What is left of a line -/

/-- How much text is ahead. -/
lemma runs_remaining (s : ParserState) (place : Place) :
    Runs remaining (s.moveTo place) place.rest.length (s.moveTo place) := by
  intro s₁ settled hbase
  refine ⟨s₁, ?_, settled, hbase⟩
  have same : s₁.tokens.anchor = place := congrArg (·.tokens.anchor) hbase
  rw [← same]
  simp only [remaining_eq, TokenStream.place, settled.handed]

/-- **Giving up at the end of a line** leads behind it. -/
lemma runs_recover_none (governs : lexis.Governs s) (attends : s.recovering = false)
    (hp : p.rest = '\n' :: tail) : Runs (recover none) (s.moveTo p) () (s.moveTo p.next) := by
  have attend (recovering : Bool) (u : ParserState) :
      Runs (modify fun s : ParserState => { s with recovering := recovering }) u ()
        { u with recovering := recovering } :=
    runs_modify (fun _ => rfl) (fun _ => rfl) fun _ => rfl
  have lineBreak : lexis.read false .word p = _ :=
    lex_delimiter hp (show delimiter? .word '\n' = some .lineBreak by decide) fun _ => rfl
  set u : ParserState := { s with recovering := true } with hu
  have governs : lexis.Governs u := ⟨governs.operators, governs.policy, governs.reports⟩
  have back : ParserState.moveTo { u with recovering := false } p.next = s.moveTo p.next := by
    rw [hu, ← attends]
  have skips (fuel : Nat) : Runs (skipToSeparator (fuel + 1) none) (u.moveTo p) ()
      (u.moveTo p.next) := by
    have silent : (lexis.read false .word p).reports = [] := by rw [lineBreak]
    have peeks := governs.runs_peek silent
    have skip := governs.runs_skipToken silent
    rw [lineBreak] at peeks skip
    exact peeks.bind ((runs_closesAwaited .lineBreak _).bind (skip.bind (Runs.pure _ _)))
  rw [← back]
  exact (attend true _).bind ((runs_remaining u p).bind ((skips _).bind (attend false _)))

/-- **A line that is broken off** leaves its report and what the resolver learnt, and the parser behind
it. -/
theorem LineBreaks.round (lineBreaks : LineBreaks options resolver lexis s p fault imports q)
    (governs : lexis.Governs s) (resting : s.Resting) (hq : q.rest = '\n' :: tail)
    {s₁ : ParserState} (settled : s₁.Settled) (hbase : s₁.base = s.moveTo p) :
    ∃ t₁, (∀ next values, sourceRound options resolver next values s₁ = next values t₁) ∧
      t₁.Settled ∧ t₁.base = ParserState.moveTo { s with
        imports := imports
        reports := s.reports.push (.errorAt (lexis.read true .word p).token.start
          (.fault fault.detail)) } q.next := by
  set token := (lexis.read true .word p).token
  obtain ⟨s₂, peeks, settled, hbase⟩ := governs.runs_peek lineBreaks.silent.1 s₁ settled hbase
  obtain ⟨s₃, broken, settled, hbase⟩ := lineBreaks.breaks s₂ settled hbase
  -- What is left of the state is what it was, apart from the imports.
  have restarted : restart s₃ = ParserState.moveTo { s with imports := imports } q := by
    have same : restart s₃ = restart s₃.base := rfl
    rw [same, hbase]
    obtain ⟨scope, depth, suppressed, awaited, attends⟩ := resting
    cases s
    simp_all [restart, ParserState.moveTo, TokenStream.forget]
  set u : ParserState := { s with
    imports := imports
    reports := s.reports.push (.errorAt token.start (.fault fault.detail)) }
  have noted : Runs (complain token.start (.fault fault.detail))
      (ParserState.moveTo { s with imports := imports } q) () (u.moveTo q) :=
    runs_note (.errorAt token.start (.fault fault.detail)) resting.attends
  have told : Runs (giveUp token.start (.fault fault.detail))
      (ParserState.moveTo { s with imports := imports } q) () (u.moveTo q.next) :=
    noted.bind
      (runs_recover_none ⟨governs.operators, governs.policy, governs.reports⟩ resting.attends hq)
  rw [← restarted] at told
  obtain ⟨t₁, run, settled, hbase⟩ := told (restart s₃) ⟨rfl, trivial⟩ rfl
  refine ⟨t₁, fun next values => ?_, settled, hbase⟩
  obtain ⟨more, comma, comment, closer⟩ :
      token.kind ≠ .endOfInput ∧ token.kind ≠ .comma ∧ token.kind ≠ .openComment ∧
        token.kind.isCloser ≠ true := by
    simpa [token, opensStatement, not_or, and_assoc] using lineBreaks.opens
  have tried : attempt (parseStatement options resolver token) s₂ = .ok (.error fault) s₃ := by
    rw [attempt, broken]
  rw [sourceRound, bind_ok peeks, if_neg more, if_neg comma, if_neg comment, if_neg closer,
    bind_ok tried]
  exact bind_ok run

end Parser

end TreeLang
