import TreeLang.Proofs.Tiling
import TreeLang.Proofs.Upholding

/-!
# No silent placeholders

Where no value can be read, and where the macros in force refuse an invocation, a placeholder is put in.
That is never done while tokens are being skipped, so that the error which is the reason for it is
recorded first; and whatever is made of the placeholder later on, the error stays.  In a source that
imports nothing, without errors, a tree with the text of placeholders has it from a token.

* `ImportFree`, `parseAll_of_importFree` — a source that imports nothing, which needs no resolver.
* `PutsIn`, `putsIn_behind` — putting in a placeholder, behind its error.
* `Lexis.avoids`, `utters_of_rounds` — how it is seen that no token of a source has some text.
* **`compile_accounts`** — placeholders come with errors.
-/

namespace TreeLang

open TreeLang.Parser

/-- Whether the statement at a place, if one begins there, imports nothing and takes no import back. -/
def Lexis.isImportFree (lexis : Lexis) (place : Place) : Bool :=
  match lexis.statementAt? place with
  | some .use => false
  | some .undefine =>
    let what := (lexis.behindName .word place).token
    (if what.kind = .literal then StatementKeyword.ofText? what.content else none) != some .use
  | none | some .template | some .function | some .operator | some .keyword => true

namespace Parser

variable {options : CompileOptions} {resolver other : Resolver} {s t : ParserState}

/-! ## Sources that import nothing -/

/-- **No statement of a source imports anything**, or takes an import back. -/
def ImportFree (options : CompileOptions) (resolver : Resolver) (s : ParserState) : Prop :=
  ∀ t, Reaches options resolver s t → t.lexis.isImportFree t.here = true

lemma ImportFree.reached (free : ImportFree options resolver s) (reaches : Reaches options resolver s t) :
    ImportFree options resolver t :=
  fun u further => free u (reaches.trans further)

/-- A statement that imports nothing is read alike by all resolvers. -/
lemma parseStatement_of_importFree (other : Resolver) (settled : s.Settled)
    (free : s.lexis.isImportFree s.here = true) :
    parseStatement options resolver (s.reads true .word).token s
      = parseStatement options other (s.reads true .word).token s := by
  obtain ⟨found, t, keyword, settled', hfound, moves, stays⟩ := ends_statementKeyword? settled
  rw [Lexis.isImportFree, ← hfound] at free
  rw [parseStatement, parseStatement, bind_ok (valueFuel_eq settled), bind_ok (valueFuel_eq settled),
    bind_ok keyword, bind_ok keyword]
  cases found with
  | none => rfl
  | some opening =>
    cases opening with
    | template | function | operator | keyword => rfl
    | undefine =>
      -- Neither resolver is asked, since what is taken back is no import.
      have plain (resolver : Resolver) : undefineStatement resolver t = plainUndefine t := by
        refine undefineStatement_eq_plain settled' ?_
        rw [moves.lexis, stays]
        simpa using free
      show (undefineStatement resolver >>= fun _ => Pure.pure none) t
        = (undefineStatement other >>= fun _ => Pure.pure none) t
      simp only [Bind.bind, EStateM.bind, plain]
    | use => cases free

/-- So is a round. -/
lemma roundFrom_of_importFree (other : Resolver) (settled : s.Settled)
    (free : s.lexis.isImportFree s.here = true) {token : Token}
    (looked : peek true .word s = .ok token t) :
    roundFrom options resolver token t = roundFrom options other token t := by
  obtain ⟨_, _, peeked, settled, rfl, moves, stays, -⟩ := ends_peek settled true .word
  obtain ⟨rfl, rfl⟩ := ok_unique looked peeked
  have same : t.reads true .word = s.reads true .word := by
    rw [ParserState.reads, ParserState.reads, moves.lexis, stays]
  have statement : parseStatement options resolver (s.reads true .word).token t
      = parseStatement options other (s.reads true .word).token t := by
    rw [← same]
    exact parseStatement_of_importFree other settled (by rw [moves.lexis, stays]; exact free)
  have attempted : attempt (parseStatement options resolver (s.reads true .word).token) t
      = attempt (parseStatement options other (s.reads true .word).token) t := by
    rw [attempt, attempt, statement]
  rw [roundFrom, roundFrom]
  split_ifs <;> first | rfl | simp only [Bind.bind, EStateM.bind, attempted]

/-- **A source that imports nothing is read alike by all resolvers.** -/
theorem parseAll_of_importFree (other : Resolver) (settled : s.Settled) (resting : s.Resting)
    (free : ImportFree options resolver s) (fuel : Nat) (values : List Node) :
    parseAll options resolver fuel values s = parseAll options other fuel values s := by
  induction fuel generalizing s values with
  | zero => rfl
  | succ fuel ih =>
    obtain ⟨token, t, looked, -⟩ := ends_peek settled true .word
    have same : roundFrom options resolver token t = roundFrom options other token t :=
      roundFrom_of_importFree other settled (free s (.here s)) looked
    rw [parseAll_succ, parseAll_succ, sourceRound_eq, sourceRound_eq, bind_ok looked, bind_ok looked]
    split
    · rfl
    rename_i more
    match round : roundFrom options other token t with
    | .error fault u => rw [bind_error round, bind_error (same.trans round)]
    | .ok added u =>
      have reaches := Reaches.of_round settled looked more (same.trans round)
      obtain ⟨settled, resting⟩ := resting_of_reaches settled resting reaches
      rw [bind_ok round, bind_ok (same.trans round)]
      exact ih settled resting (free.reached reaches) _

/-- The states between two statements are the same for all resolvers. -/
lemma reaches_of_importFree (settled : s.Settled) (resting : s.Resting)
    (free : ImportFree options resolver s) (reaches : Reaches options other s t) :
    Reaches options resolver s t := by
  induction reaches with
  | here => exact .here _
  | @round s u _ values result more run others ih =>
    obtain ⟨_, v, looked, -, rfl, -⟩ := ends_peek settled true .word
    have same : sourceRound options resolver Pure.pure values s
        = sourceRound options other Pure.pure values s := by
      rw [sourceRound_of_more looked more, sourceRound_of_more looked more]
      simp only [Bind.bind, EStateM.bind,
        roundFrom_of_importFree other settled (free s (.here s)) looked]
    have round : Reaches options resolver s u := .round more (same.trans run) (.here u)
    obtain ⟨settled, resting⟩ := resting_of_reaches settled resting round
    exact round.trans (ih settled resting (free.reached round))

/-- How it is seen that no statement imports anything. -/
lemma importFree_of_rounds (rounds : Nat) (settled : s.Settled) (resting : s.Resting)
    (checked : throughout (fun t => t.lexis.isImportFree t.here) options resolver rounds s = true) :
    ImportFree options resolver s :=
  fun _ reaches => reaches_of_rounds _ rounds settled resting checked reaches

/-! ## Putting in a placeholder -/

/-- **A step records an error and then puts in a placeholder** at an offset. -/
def PutsIn (step : Parser Node) (s : ParserState) (report : Report) (offset : Nat) : Prop :=
  step s = .ok (.primitive placeholder ⟨s.lastId + 1, ⟨offset, offset⟩⟩)
      { s with reports := s.reports.push report, lastId := s.lastId + 1 } ∧
    s.errors < (s.reports.push report).countP Report.isError

/-- A placeholder that is put in behind an error, where nothing is being skipped. -/
lemma putsIn_behind {report : Report} (error : report.isError) (attends : s.recovering = false)
    (offset : Nat) : PutsIn (do note report; placeholderAt offset) s report offset := by
  refine ⟨?_, ?_⟩
  · show placeholderAt offset (if s.recovering then s else _) = _
    rw [attends]
    rfl
  · rw [Array.countP_push, if_pos error]
    exact Nat.lt_succ_self _

end Parser

/-! ## Texts that no token has -/

/-- Whether no value and no operand from a place on has a text. -/
def Lexis.avoids (lexis : Lexis) (text : String) (place : Place) : Bool :=
  (List.range (place.rest.length + 1)).all fun count =>
    [Mode.value, .operation].all fun mode =>
      let token := (lexis.read true mode (place.skip count)).token
      !token.kind.isText || token.content != text

lemma Lexis.spoken_of_avoids {s : ParserState} {text : String}
    (avoids : s.lexis.avoids text s.here = true) : s.Spoken (· ≠ text) := by
  intro place trail mode ofValues isText
  obtain ⟨count, skipped⟩ := trail.reaches
  obtain ⟨count, bound, rfl⟩ : ∃ count < s.here.rest.length + 1, place = s.here.skip count := by
    rcases Nat.le_total s.here.rest.length count with beyond | within
    · exact ⟨_, Nat.lt_succ_self _, skipped.trans (Place.skip_of_le beyond)⟩
    · exact ⟨count, Nat.lt_succ_of_le within, skipped⟩
  have other := List.all_eq_true.mp (List.all_eq_true.mp avoids count (List.mem_range.mpr bound))
    mode ofValues
  simpa [isText] using other

namespace Parser

/-- How it is seen that no token of a source has some text. -/
lemma utters_of_rounds {options : CompileOptions} {resolver : Resolver} {s : ParserState}
    {text : String} (rounds : Nat) (settled : s.Settled) (resting : s.Resting)
    (checked : throughout (fun t => t.lexis.avoids text t.here) options resolver rounds s = true) :
    Utters options resolver (· ≠ text) s :=
  fun _ reaches => Lexis.spoken_of_avoids (reaches_of_rounds _ rounds settled resting checked reaches)

end Parser

/-! ## Placeholders come with errors -/

/-- A parser between two statements, where nothing is being skipped. -/
lemma attentive_of_reaches {options : CompileOptions} {resolver : Resolver} {source : Source}
    {imports : ImportState} {fits : String → Prop} {good : Node → Prop} {t : ParserState}
    (reaches : Reaches options resolver (initial options source imports) t)
    (spoken : t.Spoken fits) (carries : t.visible.Carries good) : Attentive fits good t.errors t := by
  obtain ⟨settled, resting⟩ := resting_of_reaches (outside_initial source imports).settled
    (resting_initial source imports) reaches
  exact ⟨settled, resting.attends, Nat.le_refl _, .of carries, spoken⟩

/-- **No placeholder is silent** in a source that imports nothing.

* Between two statements nothing is being skipped, and the parser attends to mistakes.
* Where an invocation is refused, and where no value or operand can be read, an error is recorded and then
  a placeholder put in.
* From wherever the parser attends, an expansion and a call inside a statement leave it so; what they
  make has no other placeholders than those known from the macros in force and from what they were given,
  or else an error was recorded on the way.  Known ones are so by their numbers, zero among them if there
  are any, since the nodes of templates have no other one.
* If no token has the text of placeholders, and no error was recorded in all, then neither the root nor
  anything that is handed to importers has it. -/
theorem compile_accounts {options : CompileOptions} {resolver : Resolver} {source : Source}
    {imports : ImportState}
    (free : ImportFree options resolver (initial options source imports)) :
    (∀ t, Reaches options resolver (initial options source imports) t →
      t.recovering = false ∧ ∀ known, t.Spoken (· ≠ placeholder) →
        t.visible.Carries (Node.Confines placeholder known) →
          Attentive (· ≠ placeholder) (Node.Confines placeholder known) t.errors t) ∧
    (∀ s offset, s.recovering = false →
      (∀ report : Report, report.isError →
        PutsIn (refuse offset report) s (report.atOffset offset) offset) ∧
      ∀ cause, PutsIn (do complain offset cause; placeholderAt offset) s
        (Report.errorAt offset cause) offset) ∧
    (∀ (known : Nat → Prop) base, (∀ id, known id → known 0) →
      (∀ levels, Vouches (· ≠ placeholder) (Node.Confines placeholder known) base
        (invokeWithin levels)) ∧
      ∀ {α : Type} (call : Reading α) fuel,
        call.Vouched (· ≠ placeholder) (Node.Confines placeholder known) base
          (call.within options fuel)) ∧
    (Utters options resolver (· ≠ placeholder) (initial options source imports) →
      let compiled := (compile options resolver source imports).1
      compiled.errorCount = 0 → compiled.root.Lacks placeholder ∧
        compiled.definitions.value.Carries (Node.Lacks placeholder)) := by
  have settled : (initial options source imports).Settled := (outside_initial source imports).settled
  have resting : (initial options source imports).Resting := resting_initial source imports
  refine ⟨fun t reaches => ⟨(resting_of_reaches settled resting reaches).2.attends,
    fun known spoken => attentive_of_reaches reaches spoken⟩, ?_, ?_, ?_⟩
  · intro s offset attends
    refine ⟨fun report error => ?_, fun cause => putsIn_behind rfl attends offset⟩
    have error : (report.atOffset offset).isError := error
    exact putsIn_behind error attends offset
  · intro known base forgotten
    have grown := Node.grownFrom_confines placeholder forgotten
    exact ⟨fun levels => vouches_invokeWithin grown levels,
      fun call fuel => Reading.vouches_within grown fuel call⟩
  · intro utters compiled clean
    -- The resolver is never asked, so that one does as well that knows of nothing.
    have alone : compile options resolver source imports
        = compile options (tableResolver []) source imports := by
      rw [Harmony.compile_eq, Harmony.compile_eq,
        parseAll_of_importFree (tableResolver []) settled resting free]
    have grown : Node.GrownFrom (· ≠ placeholder) (Node.Lacks placeholder) :=
      Node.grownFrom_confines placeholder fun _ none => none
    have held := compile_upholds grown (honest_table (List.forall_mem_nil _)) source trivial
      fun t reaches => utters t (reaches_of_importFree settled resting free reaches)
    rw [← alone] at held
    exact held.resolve_left fun barred => Nat.ne_of_gt barred.2 clean

/-- A macro with a fallback, where nothing is wrong; and a list with an element that cannot be read. -/
theorem compile_accounts_of_default :
    let options : CompileOptions := { defaultOperators := false }
    let source : Source := ⟨"", "macro m[x, y = 0]: [x, y]\nm[1]"⟩
    let compiled := (compile options (tableResolver []) source {}).1
    let s := initial options ⟨"", "[1, )"⟩ {}
    let none : Nat → Prop := fun _ => False
    (ImportFree options (tableResolver []) (initial options source {}) ∧
      Utters options (tableResolver []) (· ≠ placeholder) (initial options source {}) ∧
      compiled.errorCount = 0 ∧ compiled.values.map (·.text) = ["[1, 0]"] ∧
      compiled.root.Lacks placeholder ∧ compiled.definitions.value.Carries (Node.Lacks placeholder)) ∧
    s.recovering = false ∧ Attentive (· ≠ placeholder) (Node.Confines placeholder none) s.errors s ∧
    (∃ node t, Reading.value.within options 40 s = .ok node t ∧ node.text = "[1, ERROR]" ∧
      Trails s t ∧ Barring (· ≠ placeholder) s.errors t (node.Confines placeholder none)) ∧
    PutsIn (refuse 4 (Report.of (.unknownMacro "m"))) s (Report.errorAt 4 (.unknownMacro "m")) 4 := by
  intro options source compiled s none
  have settled : (initial options source {}).Settled := (outside_initial source {}).settled
  have resting : (initial options source {}).Resting := resting_initial source {}
  have free : ImportFree options (tableResolver []) (initial options source {}) :=
    importFree_of_rounds 3 settled resting (by decide +kernel)
  have utters : Utters options (tableResolver []) (· ≠ placeholder) (initial options source {}) :=
    utters_of_rounds 3 settled resting (by decide +kernel)
  have clean : compiled.errorCount = 0 := by decide +kernel
  obtain ⟨lacks, handed⟩ := (compile_accounts free).2.2.2 utters clean
  have alone : ImportFree options (tableResolver []) s :=
    importFree_of_rounds 2 (outside_initial _ _).settled (resting_initial _ _) (by decide +kernel)
  obtain ⟨between, putsIn, made, -⟩ := compile_accounts alone
  obtain ⟨attends, attentive⟩ := between s (.here s)
  have attentive := attentive none (Lexis.spoken_of_avoids (by decide +kernel)) nofun
  have texts : (match Reading.value.within options 40 s with
      | .ok node _ => node.text
      | .error _ _ => "") = "[1, ERROR]" := by decide +kernel
  refine ⟨⟨free, utters, clean, by decide +kernel, lacks, handed⟩, attends, attentive, ?_,
    (putsIn s 4 attends).1 _ rfl⟩
  match run : Reading.value.within options 40 s with
  | .error fault t =>
    rw [run] at texts
    have other : "" ≠ "[1, ERROR]" := by decide
    exact absurd texts other
  | .ok node t =>
    rw [run] at texts
    obtain ⟨trails, gained⟩ :=
      (made none s.errors fun _ h => h).2 Reading.value 40 s attentive trivial node t run
    exact ⟨node, t, rfl, texts, trails, gained⟩

end TreeLang
