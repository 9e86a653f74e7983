import TreeLang.Proofs.Alone
import TreeLang.Proofs.Progress

/-!
# Every source is read to its end

A statement may define something, import something, or break off; in each case what follows is read
from where it stopped, or from further on.  And where a statement takes no token at all, what ends it
does: the separator behind it, or, where there is none, whatever stands there, which is skipped.  So
the loop over the statements of a source comes to the end of the source.

* `Between`, `Advanced`, `Astray` — a state between two tokens, and what a statement does to one.
* `agree_definitionStatement`, **`agree_parseStatement`** — every statement comes to an end, and
  does not feel the bound it is read with.
* `registerMacro_run`, `registerOperator_run` — what becomes of a definition, by what is in its way.
* `sourceRound` — one statement of a source, with what is read behind it left open.
* `SourceDescends` — what is read behind a statement stands further on.
* **`parse_descends_to_end`** — a source is read to its end, by rounds that go on in the text.
-/

namespace TreeLang

/-- The kind of a token that is read as a word does not depend on the operators in force. -/
lemma kind_lex_word (operators others : OperatorRegistry) (policy : EscapePolicy) (skipBreaks : Bool)
    (place : Place) :
    (lex operators policy skipBreaks .word place).token.kind
      = (lex others policy skipBreaks .word place).token.kind := by
  have word : Mode.word ≠ .operation := by decide
  simp only [lex]
  cases skipTrivia skipBreaks place with
  | token place => simp only [kind_lexHere word]
  | openComment place => rfl

namespace Parser

open TreeLang.Lexis

variable {α β : Type} {s t u : ParserState} {options : CompileOptions} {resolver : Resolver}
  {fuel more : Nat}

/-! ## Between two tokens -/

/-- **Between two tokens**, outside of any expansion, where mistakes are reported. -/
structure Between (s : ParserState) : Prop where
  settled : s.Settled
  attends : s.recovering = false
  shallow : s.depth ≤ maxNesting

/-- **What a statement leaves as it was**, except that it goes on in the text. -/
structure Advanced (s t : ParserState) : Prop where
  awaited : t.awaited = s.awaited
  recovering : t.recovering = s.recovering
  depth : t.depth = s.depth
  policy : t.tokens.policy = s.tokens.policy
  onward : s.here.Onward t.here

/-- Where a fault leaves a statement: no token is read again. -/
structure Astray (s : ParserState) (fault : Fault) (t : ParserState) : Prop where
  policy : t.tokens.policy = s.tokens.policy
  onward : s.here.Onward t.here

namespace Advanced

lemma refl (s : ParserState) : Advanced s s :=
  ⟨rfl, rfl, rfl, rfl, .refl _⟩

lemma trans (first : Advanced s t) (second : Advanced t u) : Advanced s u :=
  ⟨second.awaited.trans first.awaited, second.recovering.trans first.recovering,
    second.depth.trans first.depth, second.policy.trans first.policy,
    first.onward.trans second.onward⟩

lemma of_passed (passed : Passed s t) : Advanced s t :=
  ⟨passed.passes.awaited, passed.passes.recovering, passed.depth, passed.passes.policy,
    passed.passes.onward⟩

lemma of_moves (moves : Moves s t) : Advanced s t :=
  ⟨moves.awaited, moves.recovering, moves.depth, moves.policy, moves.onward⟩

lemma astray (advanced : Advanced s t) {fault : Fault} (broken : Astray t fault u) :
    Astray s fault u :=
  ⟨broken.policy.trans advanced.policy, advanced.onward.trans broken.onward⟩

end Advanced

namespace Between

lemma behind (between : Between s) (settled : t.Settled) (advanced : Advanced s t) : Between t :=
  ⟨settled, advanced.recovering.trans between.attends, advanced.depth ▸ between.shallow⟩

lemma moved (between : Between s) (settled : t.Settled) (moves : Moves s t) : Between t :=
  between.behind settled (.of_moves moves)

end Between

/-- A step of a statement comes to an end between two tokens, or astray. -/
def Advances (step other : Parser α) (s : ParserState) : Prop :=
  Agree (Astray s) step other s fun _ t => t.Settled ∧ Advanced s t

lemma BrokenOff.astray {fault : Fault} (broken : BrokenOff s fault t) : Astray s fault t :=
  ⟨broken.policy, broken.onward⟩

namespace Advances

variable {step other : Parser α} {next next' : α → Parser β}

lemma of_ends (ends : Ends step s fun _ t => Advanced s t) : Advances step step s :=
  Agree.of_ends ends fun _ _ settled advanced => ⟨settled, advanced⟩

lemma of_moves (ends : Ends step s fun _ t => Moves s t) : Advances step step s :=
  .of_ends (ends.mono fun _ _ => .of_moves)

/-- A statement goes on behind something. -/
lemma behind (advanced : Advanced s t) (advances : Advances step other t) :
    Agree (Astray s) step other t fun _ u => u.Settled ∧ Advanced s u :=
  (Agree.rebase advances advanced.astray).mono fun _ _ done => ⟨done.1, advanced.trans done.2⟩

/-- A step behind tokens. -/
lemma after {property : α → ParserState → Prop} (first : Ends step s property)
    (moves : ∀ value t, property value t → Moves s t)
    (second : ∀ value t, t.Settled → property value t → Advances (next value) (next' value) t) :
    Advances (step >>= next) (step >>= next') s :=
  Agree.after first fun value t settled has =>
    (second value t settled has).behind (.of_moves (moves value t has))

lemma pure (settled : s.Settled) (value : α) :
    Advances (Pure.pure value : Parser α) (Pure.pure value) s :=
  Agree.pure ⟨settled, .refl s⟩

/-- A step behind another one. -/
lemma bind (first : Advances step other s)
    (second : ∀ value t, t.Settled → Advanced s t → Advances (next value) (next' value) t) :
    Advances (step >>= next) (other >>= next') s :=
  Agree.bind first fun value t done => (second value t done.1 done.2).behind done.2

end Advances

lemma Advances.of_passes {step other : Parser α}
    (agree : Agree (BrokenOff s) step other s fun _ t => Passed s t) : Advances step other s :=
  (agree.rebase BrokenOff.astray).mono fun _ _ passed => ⟨passed.settled, .of_passed passed⟩

/-- A state with the same tokens under the same operators is between two tokens too. -/
lemma settled_of_same (settled : s.Settled) (tokens : t.tokens = s.tokens)
    (operators : t.visible.operators = s.visible.operators) : t.Settled :=
  ⟨tokens ▸ settled.handed, by rw [tokens, operators]; exact settled.coherent⟩

/-- **Recovering goes on** with or without a report in front of it. -/
lemma ends_recover_anyway (closer : Option TokenKind) (between : Between s) :
    Ends (recover closer) s fun _ t => Advanced s t := by
  have began : ParserState.Settled { s with recovering := true } :=
    settled_of_same between.settled rfl rfl
  obtain ⟨_, t, skip, settled, moves, -⟩ :=
    ends_skipToSeparator (s.here.rest.length + 1) closer began (Nat.lt_succ_self _)
  exact ⟨(), _, recover_ok between.settled skip, settled_of_same settled rfl rfl,
    ⟨moves.awaited, between.attends.symm, moves.depth, moves.policy, moves.onward⟩⟩

/-! ## Changes of the definitions in force

Between the change of an operator and the moment when what was read ahead is forgotten, what is kept
of the text need not be what would be read.  Nothing is read there.
-/

/-- A step that reads nothing. -/
def Aside (step : Parser α) : Prop :=
  ∀ s, ∃ value t, step s = .ok value t ∧ Advanced s t

namespace Aside

lemma bind {step : Parser α} {next : α → Parser β} (first : Aside step)
    (second : ∀ value, Aside (next value)) : Aside (step >>= next) := by
  intro s
  obtain ⟨value, t, hstep, advanced⟩ := first s
  obtain ⟨final, u, hnext, further⟩ := second value t
  exact ⟨final, u, by rw [bind_ok hstep, hnext], advanced.trans further⟩

lemma pure (value : α) : Aside (Pure.pure value : Parser α) :=
  fun s => ⟨value, s, rfl, .refl s⟩

lemma get {next : ParserState → Parser β} (h : ∀ s, Aside (next s)) :
    Aside (MonadState.get >>= next) :=
  fun s => h s s

/-- A step that changes definitions. -/
lemma redefine {answer : ParserState → α} {visible exported : ParserState → Definitions}
    {imports : ParserState → ImportState} :
    Aside (modifyGet fun s => (answer s, { s with
      visible := visible s, exported := exported s, imports := imports s }) : Parser α) :=
  fun s => ⟨answer s, _, rfl, ⟨rfl, rfl, rfl, rfl, .refl _⟩⟩

lemma note (report : Report) : Aside (Parser.note report) := by
  intro s
  refine ⟨(), _, note_eq report s, ?_⟩
  split
  · exact .refl s
  · exact ⟨rfl, rfl, rfl, rfl, .refl _⟩

lemma forM {items : List α} {step : α → Parser PUnit} (h : ∀ item, Aside (step item)) :
    Aside (items.forM step) := by
  induction items with
  | nil => exact Aside.pure _
  | cons item rest ih => exact (h item).bind fun _ => ih

/-- A statement goes on behind a step that reads nothing. -/
lemma advances {step : Parser α} {next : α → Parser β} (aside : Aside step) (s : ParserState)
    (h : ∀ value t, Advances (next value) (next value) t) :
    Advances (step >>= next) (step >>= next) s := by
  obtain ⟨value, t, hstep, advanced⟩ := aside s
  have agree := (h value t).behind advanced
  refine ⟨rfl, ?_⟩
  rw [bind_ok hstep]
  exact agree.2

end Aside

/-- Once what was read ahead is forgotten, reading may go on. -/
lemma advances_forget (s : ParserState) : Advances forget forget s :=
  ⟨rfl, ⟨rfl, trivial⟩, ⟨rfl, rfl, rfl, rfl, .refl _⟩⟩

lemma aside_warnIfNone (removed offset : Nat) (cause : Cause) :
    Aside (warnIfNone removed offset cause) := by
  rw [warnIfNone]
  split
  · exact .note _
  · exact .pure _

/-! ## Macro statements -/

lemma ends_attachedOpener? (settled : s.Settled) (name : Token) :
    Ends (attachedOpener? name) s fun _ t => Moves s t := by
  refine (ends_peek settled false .word).bind fun token t settled looked => ?_
  split <;> exact .pure settled looked.2.1

/-- **Registering a macro** for this source, and then for importers unless something is in its way. -/
lemma registerMacro_run (definition : MacroDefinition) (offset : Nat) (s : ParserState) :
    registerMacro definition offset s =
      let new : Shared MacroDefinition := ⟨s.imports.supply.fresh, definition⟩
      let s : ParserState :=
        { s with imports := { s.imports with supply := ⟨s.imports.supply.fresh + 1⟩ } }
      match s.visible.macros.add new with
      | .error report => note (report.atOffset offset) s
      | .ok macros =>
        let s : ParserState := { s with visible := { s.visible with macros := macros } }
        match s.exported.macros.add new with
        | .error report => note (report.atOffset offset) s
        | .ok macros => .ok () { s with exported := { s.exported with macros := macros } } := by
  rw [registerMacro, bind_get]
  dsimp only [Supply.share]
  rw [bind_set]
  cases s.visible.macros.add ⟨s.imports.supply.fresh, definition⟩ with
  | error report => rfl
  | ok macros =>
    dsimp only
    rw [bind_modify]
    cases s.exported.macros.add ⟨s.imports.supply.fresh, definition⟩ <;> rfl

/-- A macro is registered between two tokens, since it leaves the operators. -/
lemma ends_registerMacro (settled : s.Settled) (definition : MacroDefinition) (offset : Nat) :
    Ends (registerMacro definition offset) s fun _ t => Advanced s t := by
  have noted {t : ParserState} (settled : t.Settled) (advanced : Advanced s t) (report : Report) :
      Ends (note report) t fun _ u => Advanced s u :=
    (ends_note settled report).mono fun _ _ noted => advanced.trans (.of_moves noted.1)
  rw [Ends, registerMacro_run]
  dsimp only
  cases s.visible.macros.add ⟨s.imports.supply.fresh, definition⟩ with
  | error report =>
    refine noted ?_ ?_ (report.atOffset offset)
    · exact settled_of_same settled rfl rfl
    · exact ⟨rfl, rfl, rfl, rfl, .refl _⟩
  | ok macros =>
    dsimp only
    cases s.exported.macros.add ⟨s.imports.supply.fresh, definition⟩ with
    | error report =>
      refine noted ?_ ?_ (report.atOffset offset)
      · exact settled_of_same settled rfl rfl
      · exact ⟨rfl, rfl, rfl, rfl, .refl _⟩
    | ok macros =>
      exact ⟨(), _, rfl, settled_of_same settled rfl rfl, ⟨rfl, rfl, rfl, rfl, .refl _⟩⟩

/-- What can be paid for at a place can be paid for further on. -/
lemma enough_of_advanced (lexis : t.lexis = s.lexis) (onward : s.here.Onward t.here)
    (enough : s.lexis.cost s.here + s.lexis.pace ≤ fuel) :
    t.lexis.cost t.here + t.lexis.pace ≤ fuel := by
  have paid := s.lexis.cost_le onward.le
  rw [lexis]
  omega

/-- The kind of a macro and its parameters. -/
lemma advances_macroHead (between : Between s) (function : Bool) (name : Token)
    (enough : s.lexis.cost s.here + s.lexis.pace ≤ fuel)
    (enough' : s.lexis.cost s.here + s.lexis.pace ≤ more) :
    Agree (BrokenOff s) (macroHead options fuel function name) (macroHead options more function name)
      s fun _ t => Passed s t := by
  refine .after (ends_attachedOpener? between.settled name) fun opener t settled moves => ?_
  have passed := (Passed.refl between.settled).moved settled moves
  cases opener with
  | none => exact .pure passed
  | some opener =>
    refine .after (ends_skipToken settled false .word) fun _ u settled skipped => ?_
    have passed := passed.moved settled skipped.1
    have closes := Reading.isCloser_closer? opener.kind
    set closer := opener.kind.closer?.getD .rParen
    have may : (Reading.parameters closer [] true).May (u.awaiting closer) :=
      ⟨⟨settled.handed, settled.coherent⟩, passed.depth ▸ between.shallow,
        fun _ => passed.passes.recovering.trans between.attends, closes⟩
    have pace := s.lexis.ten_le_pace
    have paid := s.lexis.cost_le passed.passes.onward.le
    have reach : (Reading.parameters closer [] true).reach (u.awaiting closer)
        = s.lexis.cost u.here := by
      rw [Reading.reach, ← passed.passes.lexis]
      rfl
    exact .awaiting passed (Reading.passes_within options _ may (by rw [reach]; omega)
      (by rw [reach]; omega)) fun _ _ passed _ => .pure passed

/-- A value is read the same with any bound that the text pays for. -/
lemma agree_parseValue (between : Between s) (enough : s.lexis.cost s.here + s.lexis.pace ≤ fuel)
    (enough' : s.lexis.cost s.here + s.lexis.pace ≤ more) :
    Agree (BrokenOff s) (parseValue options fuel) (parseValue options more) s fun _ t =>
      Passed s t := by
  have pace := s.lexis.ten_le_pace
  have may : Reading.value.May s :=
    ⟨between.settled, between.shallow, fun _ => between.attends, trivial⟩
  have reach : Reading.value.reach s = s.lexis.cost s.here + 1 := rfl
  exact Reading.passes_within options .value may (by omega) (by omega)

/-- A template is a value that is read under its parameters. -/
lemma agree_template (between : Between s) (parameters : List Parameter)
    (enough : s.lexis.cost s.here + s.lexis.pace ≤ fuel)
    (enough' : s.lexis.cost s.here + s.lexis.pace ≤ more) :
    Agree (BrokenOff s) (template options fuel parameters) (template options more parameters) s
      fun _ t => Passed s t := by
  set inside : ParserState := { s with scope := some (.start (parameters.map (·.name))) } with hinside
  have value : Agree (BrokenOff inside) (parseValue options fuel) (parseValue options more) inside
      fun _ t => Passed inside t :=
    agree_parseValue ⟨settled_of_same between.settled rfl rfl, between.attends, between.shallow⟩
      enough enough'
  have value : Agree (BrokenOff s) (parseValue options fuel) (parseValue options more) inside
      fun _ t => Passed inside t :=
    value.rebase fun broken => ⟨broken.bounded, broken.settled, broken.visible, broken.exported,
      broken.imports, broken.policy, broken.onward, broken.reports⟩
  refine value.bind fun node t passed => ⟨rfl, ?_⟩
  exact ⟨settled_of_same passed.settled rfl rfl, { passed.passes with
    clean := passed.passes.clean, heard := passed.passes.heard }, passed.depth⟩

/-- The template of a macro whose parameters were checked. -/
def macroTemplate (options : CompileOptions) (fuel : Nat) (name : Token) (signature : Signature)
    (parameters : List Parameter) (checked : Except Report (List Parameter)) : Parser Unit := do
  let errorsBefore ← errorCount
  let (node, scope) ← template options fuel parameters
  match checked, scope with
  | .ok parameters, some scope =>
    if errorsBefore < (← errorCount) then return
    match MacroDefinition.build signature parameters node scope.references scope.deferred with
    | .ok (definition, warnings) =>
      warnings.forM fun warning => note (warning.atOffset name.start)
      registerMacro definition name.start
    | .error (.mistake report) => note (report.atOffset name.start)
    | .error (.fault fault) => throw fault
  | _, _ => return

lemma macroBody_eq (options : CompileOptions) (fuel : Nat) (name : Token) (signature : Signature)
    (parameters : List Parameter) :
    macroBody options fuel name signature parameters =
      match checkParameters signature.kind parameters with
      | .error report => do
        note (report.atOffset name.start)
        macroTemplate options fuel name signature parameters (.error report)
      | .ok checked => macroTemplate options fuel name signature parameters (.ok checked) := by
  unfold macroBody
  cases checkParameters signature.kind parameters <;> rfl

/-- Reports in a row. -/
lemma ends_notes {items : List α} (settled : s.Settled) (report : α → Report) :
    Ends (items.forM fun item => note (report item)) s fun _ t => Moves s t := by
  induction items generalizing s with
  | nil => exact .pure settled (.refl s)
  | cons item rest ih =>
    exact (ends_note settled (report item)).bind fun _ _ settled noted =>
      (ih settled).mono fun _ _ => noted.1.trans

lemma advances_macroTemplate (between : Between s) (name : Token) (signature : Signature)
    (parameters : List Parameter) (checked : Except Report (List Parameter))
    (enough : s.lexis.cost s.here + s.lexis.pace ≤ fuel)
    (enough' : s.lexis.cost s.here + s.lexis.pace ≤ more) :
    Advances (macroTemplate options fuel name signature parameters checked)
      (macroTemplate options more name signature parameters checked) s := by
  refine Agree.get ((Advances.of_passes (agree_template between parameters enough enough')).bind
    fun result t settled _ => ?_)
  obtain ⟨node, scope⟩ := result
  cases checked with
  | error report => exact .pure settled _
  | ok parameters =>
    cases scope with
    | none => exact .pure settled _
    | some scope =>
      refine Agree.get ?_
      split
      · exact Advances.pure settled _
      split
      · exact Advances.after (ends_notes settled _) (fun _ _ => id) fun _ u settled _ =>
          .of_ends (ends_registerMacro settled _ _)
      · exact Advances.of_moves ((ends_note settled _).mono fun _ _ noted => noted.1)
      · exact ⟨rfl, rfl, .refl _⟩

lemma advances_macroBody (between : Between s) (name : Token) (signature : Signature)
    (parameters : List Parameter) (enough : s.lexis.cost s.here + s.lexis.pace ≤ fuel)
    (enough' : s.lexis.cost s.here + s.lexis.pace ≤ more) :
    Advances (macroBody options fuel name signature parameters)
      (macroBody options more name signature parameters) s := by
  have template {t : ParserState} (settled : t.Settled) (moves : Moves s t)
      (checked : Except Report (List Parameter)) :
      Advances (macroTemplate options fuel name signature parameters checked)
        (macroTemplate options more name signature parameters checked) t :=
    advances_macroTemplate (between.moved settled moves) name signature parameters checked
      (enough_of_advanced moves.lexis moves.onward enough)
      (enough_of_advanced moves.lexis moves.onward enough')
  rw [macroBody_eq, macroBody_eq]
  cases checkParameters signature.kind parameters with
  | error report =>
    exact .after (ends_note between.settled _) (fun _ _ noted => noted.1) fun _ t settled noted =>
      template settled noted.1 _
  | ok checked => exact template between.settled (.refl s) _

lemma advances_macroStatement (between : Between s) (function : Bool)
    (enough : s.lexis.cost s.here + s.lexis.pace ≤ fuel)
    (enough' : s.lexis.cost s.here + s.lexis.pace ≤ more) :
    Advances (macroStatement options fuel function) (macroStatement options more function) s := by
  refine .after (ends_advance between.settled true .word) (fun _ _ taken => taken.2.1)
    fun word t settled taken => ?_
  have moved := taken.2.1
  refine .after (ends_advance settled false .word) (fun _ _ taken => taken.2.1)
    fun name u settled taken => ?_
  have moved := moved.trans taken.2.1
  have between := between.moved settled moved
  have enough := enough_of_advanced moved.lexis moved.onward enough
  have enough' := enough_of_advanced moved.lexis moved.onward enough'
  split
  · exact .of_moves (ends_giveUp settled between.attends _ _)
  have head : Agree (BrokenOff u) (macroHead options fuel function name)
      (macroHead options more function name) u _ :=
    advances_macroHead between function name enough enough'
  refine (Agree.rebase head BrokenOff.astray).bind fun found v passed => ?_
  have between := between.behind passed.settled (.of_passed passed)
  have lexis := passed.passes.lexis
  have enough := enough_of_advanced lexis passed.passes.onward enough
  have enough' := enough_of_advanced lexis passed.passes.onward enough'
  refine Advances.behind (.of_passed passed) ?_
  cases found with
  | none => exact .of_ends (ends_recover_anyway none between)
  | some found =>
    obtain ⟨kind, parameters⟩ := found
    refine Advances.after (ends_peek between.settled false .word) (fun _ _ looked => looked.2.1)
      fun colon w settled looked => ?_
    have between := between.moved settled looked.2.1
    split
    · exact .of_moves (ends_giveUp settled between.attends _ _)
    · refine .after (ends_skipToken settled false .word) (fun _ _ skipped => skipped.1)
        fun _ x settled skipped => ?_
      have moved := looked.2.1.trans skipped.1
      exact advances_macroBody (between.moved settled skipped.1) name _ _
        (enough_of_advanced moved.lexis moved.onward enough)
        (enough_of_advanced moved.lexis moved.onward enough')

/-! ## Operator statements -/

/-- **Registering an operator** for this source, and then for importers unless something is in its way. -/
lemma registerOperator_run (options : CompileOptions) (op : OperatorDefinition) (offset : Nat)
    (s : ParserState) :
    registerOperator options op offset s =
      let reject (conflict : OperatorConflict) : Parser Unit := do
        note ((Report.errorAt offset (.rejectedOperator op.name conflict)).withSeverity
          options.invalidOperatorSeverity)
        forget
      match s.visible.operators.add op with
      | .error conflict => reject conflict s
      | .ok operators =>
        let s : ParserState := { s with visible := { s.visible with operators := operators } }
        match s.exported.operators.add op with
        | .error conflict => reject conflict s
        | .ok operators =>
          forget { s with exported := { s.exported with operators := operators } } := by
  rw [registerOperator, bind_get]
  cases s.visible.operators.add op with
  | error conflict => rfl
  | ok operators =>
    dsimp only
    rw [bind_set]
    cases s.exported.operators.add op <;> rfl

lemma advances_registerOperator (s : ParserState) (op : OperatorDefinition) (offset : Nat) :
    Advances (registerOperator options op offset) (registerOperator options op offset) s := by
  unfold registerOperator
  dsimp only
  refine Agree.get ?_
  cases s.visible.operators.add op with
  | error conflict => exact (Aside.note _).advances s fun _ => advances_forget
  | ok operators =>
    dsimp only
    refine Agree.set (Advances.behind ⟨rfl, rfl, rfl, rfl, .refl _⟩ ?_)
    cases s.exported.operators.add op with
    | error conflict => exact (Aside.note _).advances _ fun _ => advances_forget
    | ok exported => exact Aside.redefine.advances _ fun _ => advances_forget

lemma ends_operatorAlias (between : Between s) : Ends operatorAlias s fun _ t => Moves s t := by
  refine (ends_peek between.settled false .word).bind fun token t settled looked => ?_
  have moves := looked.2.1
  split
  · exact .pure settled moves
  refine (ends_skipToken settled false .word).bind fun _ u settled skipped => ?_
  have moves := moves.trans skipped.1
  refine (ends_advance settled false .symbol).bind fun name v settled taken => ?_
  have moves := moves.trans taken.2.1
  split
  · exact .pure settled moves
  · exact (ends_giveUp settled (moves.recovering.trans between.attends) _ _).bind
      fun _ _ settled left => .pure settled (moves.trans left)

lemma advances_operatorStatement (between : Between s) (keyword : Bool)
    (enough : s.lexis.cost s.here + s.lexis.pace ≤ fuel)
    (enough' : s.lexis.cost s.here + s.lexis.pace ≤ more) :
    Advances (operatorStatement options fuel keyword) (operatorStatement options more keyword) s := by
  refine .after (ends_advance between.settled true .word) (fun _ _ taken => taken.2.1)
    fun word t settled taken => ?_
  have moved := taken.2.1
  refine .after (ends_advance settled false .symbol) (fun _ _ taken => taken.2.1)
    fun symbol u settled taken => ?_
  have moved := moved.trans taken.2.1
  split
  · exact .of_moves (ends_giveUp settled (between.moved settled moved).attends _ _)
  refine .after (ends_advance settled false .word) (fun _ _ taken => taken.2.1)
    fun asWord v settled taken => ?_
  have moved := moved.trans taken.2.1
  have between := between.moved settled moved
  split
  · exact .of_moves (ends_giveUp settled between.attends _ _)
  have pace := v.lexis.ten_le_pace
  have enough := enough_of_advanced moved.lexis moved.onward enough
  have enough' := enough_of_advanced moved.lexis moved.onward enough'
  have may : (Reading.clauses []).May v := ⟨settled, between.shallow, fun _ => between.attends, trivial⟩
  have reach : (Reading.clauses []).reach v = v.lexis.cost v.here := rfl
  refine (Advances.of_passes (Reading.passes_within options (.clauses []) may (by omega)
    (by omega))).bind fun found w settled advanced => ?_
  have between := between.behind settled advanced
  cases found with
  | none => exact .pure settled _
  | some clauses =>
    refine .after (ends_operatorAlias between) (fun _ _ => id) fun found x settled moves => ?_
    cases found with
    | none => exact .pure settled _
    | some aliasName =>
      dsimp only
      split
      · exact advances_registerOperator x _ _
      · exact .of_moves ((ends_note settled _).mono fun _ _ noted => noted.1)

/-! ## Imports, and definitions taken back -/

/-- A step that goes on as another one does. -/
lemma Ends.of_eq {step other : Parser α} {property : α → ParserState → Prop}
    (same : step s = other t) (ends : Ends other t property) : Ends step s property := by
  obtain ⟨value, u, hother, rest⟩ := ends
  exact ⟨value, u, same.trans hother, rest⟩

lemma ends_publicMark (settled : s.Settled) : Ends publicMark s fun _ t => Moves s t := by
  refine (ends_peek settled false .word).bind fun word t settled looked => ?_
  obtain ⟨-, moves, -⟩ := looked
  split
  · obtain ⟨u, look, looks, -⟩ := (looksTo_of_settled settled).look false .word
    obtain ⟨v, lookOn, looks, -⟩ := looks.look false .value
    obtain ⟨w, back, settled, moved, -⟩ := looks.rewind
    have moves := moves.trans moved
    refine .of_eq (by rw [bind_ok look, bind_ok lookOn, bind_ok back]) ?_
    split
    · exact (ends_skipToken settled false .word).bind fun _ _ settled skipped =>
        .pure settled (moves.trans skipped.1)
    · exact .pure settled moves
  · exact .pure settled moves

lemma ends_importPath? (between : Between s) : Ends importPath? s fun _ t => Moves s t := by
  refine (ends_advance between.settled false .value).bind fun token t settled taken => ?_
  have moves := taken.2.1
  split
  · exact .pure settled moves
  · exact (ends_giveUp settled (moves.recovering.trans between.attends) _ _).bind
      fun _ _ settled left => .pure settled (moves.trans left)

/-- Where the resolver breaks down, so does the statement. -/
lemma advances_resolveImport (settled : s.Settled) (path : String) :
    Advances (resolveImport resolver path) (resolveImport resolver path) s := by
  refine ⟨rfl, ?_⟩
  unfold resolveImport
  cases resolver path s.imports with
  | ok answer imports =>
    exact ⟨settled_of_same settled rfl rfl, ⟨rfl, rfl, rfl, rfl, .refl _⟩⟩
  | error fault imports => exact ⟨rfl, .refl _⟩

lemma advances_useStatement (between : Between s) :
    Advances (useStatement resolver) (useStatement resolver) s := by
  refine .after (ends_skipToken between.settled true .word) (fun _ _ skipped => skipped.1)
    fun _ t settled skipped => ?_
  refine .after (ends_publicMark settled) (fun _ _ => id) fun isPublic u settled moves => ?_
  have between := between.moved settled (skipped.1.trans moves)
  refine .after (ends_importPath? between) (fun _ _ => id) fun found v settled moves => ?_
  have between := between.moved settled moves
  cases found with
  | none => exact .pure settled _
  | some found =>
    obtain ⟨path, offset⟩ := found
    refine (advances_resolveImport settled path).bind fun answer w settled advanced => ?_
    cases answer with
    | error failure =>
      exact .after (ends_complain settled _ _) (fun _ _ noted => noted.1) fun _ _ _ _ =>
        advances_forget _
    | ok definitions =>
      have noted (conflicts : List Report) (x : ParserState) : Advances
          (do conflicts.forM fun conflict => note (conflict.asWarning.atOffset offset); forget)
          (do conflicts.forM fun conflict => note (conflict.asWarning.atOffset offset); forget) x :=
        (Aside.forM fun _ => .note _).advances x fun _ => advances_forget
      refine Aside.redefine.advances w fun visible x => ?_
      dsimp only
      split
      · exact Aside.redefine.advances x fun _ => noted _
      · exact noted _ x

lemma ends_emptyShape (between : Between s) (name : Token) :
    Ends (emptyShape name) s fun _ t => Moves s t := by
  refine (ends_attachedOpener? between.settled name).bind fun found t settled moves => ?_
  cases found with
  | none => exact .pure settled moves
  | some opener =>
    refine (ends_skipToken settled false .word).bind fun _ u settled skipped => ?_
    have moves := moves.trans skipped.1
    refine (ends_advance settled false .word).bind fun close v settled taken => ?_
    have moves := moves.trans taken.2.1
    split
    · exact .pure settled moves
    · exact (ends_giveUp settled (moves.recovering.trans between.attends) _ _).bind
        fun _ _ settled left => .pure settled (moves.trans left)

lemma advances_undefineMacro (between : Between s) (function : Bool) :
    Advances (undefineMacro function) (undefineMacro function) s := by
  refine .after (ends_advance between.settled false .word) (fun _ _ taken => taken.2.1)
    fun name t settled taken => ?_
  have between := between.moved settled taken.2.1
  split
  · exact .of_moves (ends_giveUp settled between.attends _ _)
  refine .after (ends_emptyShape between name) (fun _ _ => id) fun shape u settled moves => ?_
  cases shape with
  | none => exact .pure settled _
  | some shape =>
    have removed (kinds : List MacroKind) : Ends (removeMacros name.content kinds) u
        fun _ v => Advanced u v :=
      ⟨_, _, rfl, settled_of_same settled rfl rfl, ⟨rfl, rfl, rfl, rfl, .refl _⟩⟩
    have warned {v : ParserState} (settled : v.Settled) (count : Nat) :
        Ends (warnIfNone count name.start (.unknownMacro name.content)) v fun _ w => Moves v w := by
      rw [warnIfNone]
      split
      · exact (ends_note settled _).mono fun _ _ noted => noted.1
      · exact .pure settled (.refl v)
    exact (Advances.of_ends (removed _)).bind fun count v settled _ => .of_moves (warned settled count)

lemma advances_undefineOperator (between : Between s) (word : String) (keyword : Bool) :
    Advances (undefineOperator word keyword) (undefineOperator word keyword) s := by
  refine .after (ends_advance between.settled false .symbol) (fun _ _ taken => taken.2.1)
    fun symbol t settled taken => ?_
  split
  · exact .of_moves (ends_giveUp settled (between.moved settled taken.2.1).attends _ _)
  · exact Aside.redefine.advances t fun removed u =>
      (aside_warnIfNone _ _ _).advances u fun _ => advances_forget

lemma advances_undefineImport (between : Between s) :
    Advances (undefineImport resolver) (undefineImport resolver) s := by
  refine .after (ends_importPath? between) (fun _ _ => id) fun found t settled moves => ?_
  cases found with
  | none => exact .pure settled _
  | some found =>
    obtain ⟨path, offset⟩ := found
    refine (advances_resolveImport settled path).bind fun answer u settled advanced => ?_
    cases answer with
    | error failure =>
      exact .of_moves ((ends_complain settled _ _).mono fun _ _ noted => noted.1)
    | ok definitions =>
      exact Aside.redefine.advances u fun removed v =>
        (aside_warnIfNone _ _ _).advances v fun _ => advances_forget

lemma advances_undefineStatement (between : Between s) :
    Advances (undefineStatement resolver) (undefineStatement resolver) s := by
  refine .after (ends_skipToken between.settled true .word) (fun _ _ skipped => skipped.1)
    fun _ t settled skipped => ?_
  refine .after (ends_advance settled false .word) (fun _ _ taken => taken.2.1)
    fun what u settled taken => ?_
  have between := between.moved settled (skipped.1.trans taken.2.1)
  split
  · exact advances_undefineMacro between false
  · exact advances_undefineMacro between true
  · exact advances_undefineOperator between _ _
  · exact advances_undefineOperator between _ _
  · exact advances_undefineImport between
  · exact .of_moves (ends_giveUp settled between.attends _ _)

/-! ## Statements -/

/-- **Every definition statement comes to an end** or astray, and does not feel its bound. -/
theorem advances_definitionStatement (between : Between s) (opening : StatementKeyword)
    (enough : s.lexis.cost s.here + s.lexis.pace ≤ fuel)
    (enough' : s.lexis.cost s.here + s.lexis.pace ≤ more) :
    Advances (definitionStatement options resolver fuel opening)
      (definitionStatement options resolver more opening) s := by
  cases opening with
  | template => exact advances_macroStatement between false enough enough'
  | function => exact advances_macroStatement between true enough enough'
  | operator => exact advances_operatorStatement between false enough enough'
  | keyword => exact advances_operatorStatement between true enough enough'
  | undefine => exact advances_undefineStatement between
  | use => exact advances_useStatement between

/-- **Every statement comes to an end** or astray: also one that imports something, whatever the
resolver does. -/
theorem advances_parseStatement (between : Between s) :
    Advances (parseStatement options resolver (s.reads true .word).token)
      (parseStatement options resolver (s.reads true .word).token) s := by
  have pay : Ends valueFuel s fun fuel t =>
      fuel = s.lexis.cost s.here + s.lexis.pace ∧ t = s :=
    ⟨_, s, valueFuel_eq between.settled, between.settled, rfl, rfl⟩
  refine .after pay (fun _ _ paid => paid.2 ▸ .refl s) fun fuel t _ paid => ?_
  obtain ⟨rfl, rfl⟩ := paid
  refine .after (ends_statementKeyword? between.settled) (fun _ _ found => found.2.1)
    fun found u settled has => ?_
  obtain ⟨-, moves, stays⟩ := has
  have between := between.moved settled moves
  have enough := enough_of_advanced moves.lexis moves.onward (Nat.le_refl _)
  cases found with
  | some opening =>
    exact (advances_definitionStatement between opening enough enough).bind
      fun _ _ settled _ => .pure settled _
  | none =>
    exact (Advances.of_passes (agree_parseValue between enough enough)).bind
      fun _ _ settled _ => .pure settled _

/-! ## Sources -/

/-- **One statement of a source**, with what is read behind it left open. -/
def sourceRound (options : CompileOptions) (resolver : Resolver)
    (next : List Node → Parser (List Node)) (values : List Node) : Parser (List Node) := do
  let token ← peek true .word
  if token.kind = .endOfInput then
    noteLexical
    return values.reverse
  else if token.kind = .comma then
    skipToken true .word
    complain token.start .redundantComma
    next values
  else if token.kind = .openComment then
    skipToken true .word
    next values
  else if token.kind.isCloser then
    skipToken true .word
    complain token.start (.unexpectedCloser token)
    next values
  else
    match ← attempt (parseStatement options resolver token) with
    | .ok value =>
      endStatement
      next (value.toList ++ values)
    | .error fault =>
      isolate token.start fault
      next values

lemma parseAll_succ (fuel : Nat) (values : List Node) :
    parseAll options resolver (fuel + 1) values
      = sourceRound options resolver (parseAll options resolver fuel) values := by
  rw [parseAll]
  rfl

/-- **Between two statements**: no group is open. -/
structure Outside (s : ParserState) : Prop extends Between s where
  awaited : s.awaited = []

/-- The end of the source was reached. -/
def AtEnd (s : ParserState) : Prop :=
  s.Settled ∧ (s.reads true .word).token.kind = .endOfInput

lemma Outside.moved (outside : Outside s) (settled : t.Settled) (moves : Moves s t) : Outside t :=
  ⟨outside.toBetween.moved settled moves, moves.awaited.trans outside.awaited⟩

/-- Outside of all groups only the end of the source stands in the way. -/
lemma Outside.going (awaited : s.awaited = []) {kind : TokenKind} (more : kind ≠ .endOfInput) :
    ¬ Stopping s none kind := by
  rintro (ends | stop | ⟨-, member⟩)
  · exact more ends
  · cases stop
  · rw [awaited] at member
    cases member

/-- **Where no token was taken there is still one ahead**, whatever was defined meanwhile. -/
lemma more_of_stays (policy : t.tokens.policy = s.tokens.policy) (stays : t.here = s.here)
    (more : (s.reads true .word).token.kind ≠ .endOfInput) :
    (t.reads false .word).token.kind ≠ .endOfInput := by
  intro ends
  have same : t.reads true .word = t.reads false .word := lex_true fun breaks => by
    have breaks : (t.reads false .word).token.kind = .lineBreak := breaks
    rw [ends] at breaks
    cases breaks
  refine more ?_
  calc (s.reads true .word).token.kind
      = (t.reads true .word).token.kind := by
        simp only [ParserState.reads, Lexis.read, ParserState.lexis, policy, stays]
        exact kind_lex_word _ _ _ _ _
    _ = .endOfInput := by rw [same, ends]

/-- Behind a statement the source goes on further on. -/
lemma ends_endStatement (outside : Outside s) :
    Ends endStatement s fun _ t => Moves s t ∧
      ((s.reads false .word).token.kind ≠ .endOfInput → t.here.rest.length < s.here.rest.length) := by
  refine (ends_peek outside.settled false .word).bind fun token t settled looked => ?_
  obtain ⟨rfl, moves, stays, -⟩ := looked
  have same : t.reads false .word = s.reads false .word := by
    rw [ParserState.reads, moves.lexis, stays]
  have outside := outside.moved settled moves
  split
  · refine (ends_skipToken settled false .word).mono fun _ u skipped => ?_
    obtain ⟨skipped, place, -⟩ := skipped
    rw [same] at place
    refine ⟨moves.trans skipped, fun more => ?_⟩
    rw [place]
    exact s.reads_shortens more
  split
  · rename_i ends
    exact .pure settled ⟨moves, fun more => absurd ends more⟩
  · refine (ends_giveUp_past settled outside.attends _ _).mono fun _ u left => ?_
    refine ⟨moves.trans left.1, fun more => ?_⟩
    rw [← stays]
    refine left.2 (Outside.going outside.awaited ?_)
    rwa [same]

/-- What is left after a fault goes on further on, if a token is ahead. -/
lemma ends_isolate (offset : Nat) (fault : Fault) :
    Ends (isolate offset fault) s fun _ t => Outside t ∧ s.here.Onward t.here ∧
      t.tokens.policy = s.tokens.policy ∧
      ((s.reads false .word).token.kind ≠ .endOfInput → t.here.rest.length < s.here.rest.length) := by
  set fresh : ParserState := { s with
    scope := none, depth := 0, recovering := false, suppressed := false, awaited := []
    tokens := s.tokens.forget } with hfresh
  have settled : fresh.Settled := ⟨rfl, trivial⟩
  have outside : Outside fresh := ⟨⟨settled, rfl, Nat.zero_le _⟩, rfl⟩
  obtain ⟨_, t, left, settled, moves, past⟩ :=
    ends_giveUp_past settled rfl offset (.fault fault.detail)
  exact ⟨(), t, left, settled, outside.moved settled moves, moves.onward, moves.policy,
    fun more => past (Outside.going rfl more)⟩

/-- **A source descends** where a round of the loop over its statements rests on what is read behind
the statement, further on, and on nothing else: as long as that goes the same way to the end of the
source, so does the round.  No fault breaks it off. -/
def SourceDescends (options : CompileOptions) (resolver : Resolver) (s : ParserState) : Prop :=
  ∀ next next' : List Node → Parser (List Node),
    (∀ values t, Outside t → t.here.rest.length < s.here.rest.length →
      Agree (fun _ _ => False) (next values) (next' values) t fun _ u => AtEnd u) →
    ∀ values, Agree (fun _ _ => False) (sourceRound options resolver next values)
      (sourceRound options resolver next' values) s fun _ t => AtEnd t

/-- **What is read behind a statement stands further on.** -/
theorem sourceRound_descends (options : CompileOptions) (resolver : Resolver) (outside : Outside s) :
    SourceDescends options resolver s := by
  intro next next' below values
  refine .after (ends_peek outside.settled true .word) fun token t settled looked => ?_
  obtain ⟨rfl, moves, stays, -⟩ := looked
  have same : t.reads true .word = s.reads true .word := by
    rw [ParserState.reads, moves.lexis, stays]
  have outside := outside.moved settled moves
  split
  · rename_i ends
    refine ⟨rfl, ?_⟩
    rw [bind_ok (noteLexical_eq t)]
    exact ⟨⟨settled.handed, settled.coherent⟩, (congrArg (·.token.kind) same).trans ends⟩
  rename_i more
  -- What is taken and reported is taken.
  have skips (cause : Option Cause) : Agree (fun _ _ => False)
      (skipToken true .word >>= fun _ => cause.elim (next values) fun cause =>
        complain (s.reads true .word).token.start cause >>= fun _ => next values)
      (skipToken true .word >>= fun _ => cause.elim (next' values) fun cause =>
        complain (s.reads true .word).token.start cause >>= fun _ => next' values)
      t fun _ u => AtEnd u := by
    refine .after (ends_skipToken settled true .word) fun _ u settled skipped => ?_
    obtain ⟨skipped, place, -⟩ := skipped
    rw [same] at place
    have shorter : u.here.rest.length < s.here.rest.length := by
      rw [place]
      exact s.reads_shortens more
    have outside := outside.moved settled skipped
    cases cause with
    | none => exact below values u outside shorter
    | some cause =>
      refine .after (ends_complain settled _ cause) fun _ v settled noted => ?_
      exact below values v (outside.moved settled noted.1)
        (Nat.lt_of_le_of_lt noted.1.onward.le shorter)
  split
  · exact skips (some .redundantComma)
  split
  · exact skips none
  split
  · exact skips (some (.unexpectedCloser _))
  have statement : Advances (parseStatement options resolver (s.reads true .word).token)
      (parseStatement options resolver (s.reads true .word).token) t := by
    rw [← same]
    exact advances_parseStatement outside.toBetween
  have more : (t.reads true .word).token.kind ≠ .endOfInput := by rwa [same]
  rw [← stays] at below
  have outcome := statement.2
  cases hstep : parseStatement options resolver (s.reads true .word).token t with
  | ok value u =>
    rw [hstep] at outcome
    obtain ⟨settled, advanced⟩ := outcome
    have tried : attempt (parseStatement options resolver (s.reads true .word).token) t
        = .ok (.ok value) u := by simp only [attempt, hstep]
    have outside : Outside u :=
      ⟨outside.toBetween.behind settled advanced, advanced.awaited.trans outside.awaited⟩
    refine .onto tried (.after (ends_endStatement outside) fun _ v settled left => ?_)
    refine below _ v (outside.moved settled left.1) ?_
    rcases advanced.onward with here | shorter
    · rw [← here]
      exact left.2 (more_of_stays advanced.policy here more)
    · exact Nat.lt_of_le_of_lt left.1.onward.le shorter
  | error fault u =>
    rw [hstep] at outcome
    have tried : attempt (parseStatement options resolver (s.reads true .word).token) t
        = .ok (.error fault) u := by simp only [attempt, hstep]
    refine .onto tried (.after (ends_isolate _ fault) fun _ v settled left => ?_)
    obtain ⟨outside, onward, -, past⟩ := left
    refine below _ v outside ?_
    rcases outcome.onward with here | shorter
    · rw [← here]
      exact past (more_of_stays outcome.policy here more)
    · exact Nat.lt_of_le_of_lt onward.le shorter

/-- **A source is read to its end**, with any bound that its length pays for. -/
theorem parseAll_agrees (outside : Outside s) (enough : s.here.rest.length < fuel)
    (enough' : s.here.rest.length < more) (values : List Node) :
    Agree (fun _ _ => False) (parseAll options resolver fuel values)
      (parseAll options resolver more values) s fun _ t => AtEnd t := by
  induction fuel generalizing s more values with
  | zero => exact absurd enough (Nat.not_lt_zero _)
  | succ fuel ih =>
    obtain ⟨more, rfl⟩ : ∃ n, more = n + 1 := ⟨more - 1, by omega⟩
    rw [parseAll_succ, parseAll_succ]
    exact sourceRound_descends options resolver outside _ _
      (fun values t outside shorter => ih outside (by omega) (by omega) values) values

/-- A source is read to its end by the parser. -/
lemma parseAll_ends (outside : Outside s) (enough : s.here.rest.length < fuel) (values : List Node) :
    ∃ found t, parseAll options resolver fuel values s = .ok found t ∧ AtEnd t := by
  have ends := (parseAll_agrees outside enough enough values :
    Agree _ (parseAll options resolver fuel values) _ _ _).2
  cases run : parseAll options resolver fuel values s with
  | ok found t =>
    rw [run] at ends
    exact ⟨found, t, rfl, ends⟩
  | error fault t =>
    rw [run] at ends
    exact ends.elim

/-- What a source begins with is outside of everything. -/
lemma outside_initial (source : Source) (imports : ImportState) :
    Outside (initial options source imports) :=
  ⟨⟨⟨rfl, trivial⟩, rfl, Nat.zero_le _⟩, rfl⟩

/-- **A source is read to its end by rounds that go on in the text.**  Whatever the options and the
resolver, the parser comes to the end of the source; the loop over its statements is made of rounds
each of which goes on further on; and every function that reads inside a statement is made of rounds
that go on by calls further on, or at the same place and closer to a token. -/
theorem parse_descends_to_end (options : CompileOptions) (resolver : Resolver) :
    (∀ source imports, ∃ values t, parseAll options resolver (source.length + 1) []
      (initial options source imports) = .ok values t ∧ AtEnd t) ∧
    (∀ fuel values, parseAll options resolver (fuel + 1) values
      = sourceRound options resolver (parseAll options resolver fuel) values) ∧
    (∀ s, Outside s → SourceDescends options resolver s) ∧
    (∀ {α : Type} (call : Reading α) (fuel : Nat), call.within options (fuel + 1)
      = call.round options fun next => next.within options fuel) ∧
    (∀ {α : Type} (call : Reading α) (s : ParserState), call.May s → call.Descends options s) := by
  refine ⟨fun source imports => ?_, parseAll_succ, fun s => sourceRound_descends options resolver,
    fun call fuel => Reading.within_succ options fuel call,
    fun call s => Reading.descends options call⟩
  exact parseAll_ends (outside_initial source imports) (Nat.lt_succ_self _) []

/-- A list that is not closed, a blocking token and an element that consists of nothing. -/
theorem parse_descends_to_end_of_open_list :
    let s := initial {} ⟨"", "[(+), ] :"⟩ {}
    Outside s ∧ SourceDescends {} (tableResolver []) s ∧
      (Reading.elements 0 .operation .rParen []).May s ∧
      (Reading.elements 0 .operation .rParen []).Descends {} s ∧
      ∃ values t, parseAll {} (tableResolver []) 10 [] s = .ok values t ∧ AtEnd t := by
  intro s
  have outside : Outside s := outside_initial _ _
  have may : (Reading.elements 0 .operation .rParen []).May s :=
    ⟨outside.settled, outside.shallow, fun _ => outside.attends, .inr rfl, rfl⟩
  have descends := parse_descends_to_end {} (tableResolver [])
  exact ⟨outside, descends.2.2.1 s outside, may, descends.2.2.2.2 _ s may, descends.1 _ _⟩

end Parser

end TreeLang
