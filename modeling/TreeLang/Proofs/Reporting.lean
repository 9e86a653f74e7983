import TreeLang.Proofs.Sequencing

/-!
# Mistakes that are reported once

Where a source defines no macro and imports nothing, its statements are read without a fault, one behind
the other, and each complains of tokens of its own: a definition of one of them at most, a value of as
many as there are mistakes in it.  So no two reports of such a source have both the same offset and the
same message, unless a line is broken in front of the token that they are about.

* `blames_of_buildOperator` — what is wrong with the clauses of an operator is said of one of them.
* `Grumbles`, `Answers` — at most one complaint of a statement.
* `Interjects` — the definitions that a statement makes, and what may be said of them.
* `concludes_plainStatement` — every statement.
* `turns_parseAll` — every source.
* **`compile_reports_distinct`**, **`compile_reports_distinct_of_line`** — what is reported twice, and
  where nothing is.
-/

namespace TreeLang

/-! ## Clauses -/

namespace Clause

/-- A complaint about a clause. -/
def Blames (clause : Clause) (report : Report) : Prop :=
  ∃ cause : Cause, cause.Ranks 0 ∧ report = .errorAt clause.offset cause

end Clause

namespace ClauseSummary

variable {summary : ClauseSummary} {clause : Clause} {report : Report} {operator : String}

lemma blames_of_add (failed : summary.add operator clause = .error report) :
    clause.Blames report := by
  have blames {cause : Cause} (lead rest : String) (same : cause.message = lead ++ rest)
      (apart : Wording.Apart lead)
      (failed : (Except.error (Report.errorAt clause.offset cause) : Except Report ClauseSummary)
        = .error report) : clause.Blames report :=
    ⟨cause, .of_apart lead rest same apart, (Except.error.inj failed).symm⟩
  rw [add] at failed
  cases named : summary.addName clause with
  | error other =>
    rw [named] at failed
    obtain rfl : other = report := Except.error.inj failed
    rw [addName] at named
    split at named
    · split at named
      · split_ifs at named
        exact blames "an operator cannot be both " _ ((String.append_assoc ..).trans
          (String.append_assoc ..)) (by decide) named
      · cases named
    · split_ifs at named
      exact blames "an operator cannot be both left- and right-associative" ""
        (String.append_empty).symm (by decide) named
    · split_ifs at named
      exact blames "unknown operator property " _ rfl (by decide) named
  | ok extended =>
    rw [named] at failed
    replace failed : extended.addPriority operator clause = .error report := failed
    rw [addPriority] at failed
    split at failed
    · cases failed
    · cases failed
    · split_ifs at failed
      exact blames "conflicting priorities for " _ rfl (by decide) failed

lemma blames_of_foldlM {clauses : List Clause}
    (failed : clauses.foldlM (ClauseSummary.add operator) summary = .error report) :
    ∃ clause ∈ clauses, clause.Blames report := by
  induction clauses generalizing summary with
  | nil => cases failed
  | cons clause rest ih =>
    rw [List.foldlM_cons] at failed
    cases added : summary.add operator clause with
    | error other =>
      rw [added] at failed
      obtain rfl : other = report := Except.error.inj failed
      exact ⟨clause, List.mem_cons_self, blames_of_add added⟩
    | ok extended =>
      rw [added] at failed
      obtain ⟨other, mem, blames⟩ := ih failed
      exact ⟨other, List.mem_cons_of_mem _ mem, blames⟩

lemma ranks_of_mistake? {cause : Cause} (mistaken : summary.mistake? = some cause) :
    cause.Ranks 0 := by
  rw [mistake?] at mistaken
  split_ifs at mistaken <;> cases mistaken
  all_goals exact .of_whole (by decide)

end ClauseSummary

/-- **What is wrong with the clauses of an operator is said of one of them.** -/
lemma blames_of_buildOperator {name : String} {keyword : Bool} {clauses : List Clause}
    {aliasName : Option String} {report : Report}
    (failed : buildOperator name keyword clauses aliasName = .error report) :
    ∃ clause ∈ clauses, clause.Blames report := by
  rw [buildOperator] at failed
  cases summed : clauses.foldlM (ClauseSummary.add name) {} with
  | error other =>
    rw [summed] at failed
    obtain rfl : other = report := Except.error.inj failed
    exact ClauseSummary.blames_of_foldlM summed
  | ok summary =>
    rw [summed] at failed
    cases mistaken : summary.mistake? with
    | none => simp [bind, Except.bind, mistaken, pure, Except.pure] at failed
    | some cause =>
      have told : Report.errorAt ((clauses.head?.map Clause.offset).getD 0) cause = report := by
        simpa [bind, Except.bind, mistaken, throw, throwThe, MonadExceptOf.throw] using failed
      cases clauses with
      | nil =>
        cases summed
        cases mistaken
      | cons clause rest =>
        exact ⟨clause, List.mem_cons_self, cause, ClauseSummary.ranks_of_mistake? mistaken,
          told.symm⟩

end TreeLang

namespace TreeLang.Parser

variable {α β : Type} {text : List Char} {s t u : ParserState} {low : Nat} {options : CompileOptions}
  {resolver : Resolver}

/-! ## Statements -/

/-- A step that comes to an end does so with what it comes to. -/
lemma Leaves.ends {step : Parser α} {property other : α → ParserState → Prop}
    (leaves : Leaves step s property) (ends : Ends step s other) :
    Ends step s fun value t => property value t ∧ other value t := by
  obtain ⟨value, t, run, settled, holds⟩ := ends
  exact ⟨value, t, run, settled, leaves value t run, holds⟩

/-- **At most one complaint**, about a token that was taken. -/
abbrev Grumbles (text : List Char) (s t : ParserState) : Prop :=
  Raises text (Within (3 * s.here.offset) (3 * front t + 1)) s t

/-- **An answer**, or none and a complaint. -/
def Answers (text : List Char) (s : ParserState) (found : Option α) (t : ParserState) : Prop :=
  Grumbles text s t ∧ (found.isSome → Silences text s t)

lemma Grumbles.behind (quiet : Silences text s t) (grumbles : Grumbles text t u) : Grumbles text s u :=
  (Raises.behind quiet grumbles).mono fun _ within =>
    ⟨Nat.le_trans (Nat.mul_le_mul_left 3 quiet.strides.offset_le) within.1, within.2⟩

namespace Answers

variable {found : Option α}

lemma silent (quiet : Silences text s t) (found : Option α) : Answers text s found t :=
  ⟨quiet.mono fun _ none => none.elim, fun _ => quiet⟩

lemma none (grumbles : Grumbles text s t) : Answers text s (Option.none : Option α) t :=
  ⟨grumbles, nofun⟩

lemma behind (quiet : Silences text s t) (answers : Answers text t found u) :
    Answers text s found u :=
  ⟨.behind quiet answers.1, fun some => quiet.behind (answers.2 some)⟩

end Answers

/-! ### What is read of a statement -/

lemma ends_peek_within (amid : Amid text s) (skipBreaks : Bool) (mode : Mode) :
    Ends (peek skipBreaks mode) s fun _ t => Silences text s t :=
  ((raises_peek amid skipBreaks mode).ends (ends_peek amid.settled skipBreaks mode)).mono
    fun _ _ looked => looked.1.1

lemma ends_skipToken_within (amid : Amid text s) (skipBreaks : Bool) (mode : Mode) :
    Ends (skipToken skipBreaks mode) s fun _ t => Silences text s t :=
  ((raises_skipToken amid skipBreaks mode).ends (ends_skipToken amid.settled skipBreaks mode)).mono
    fun _ _ taken => taken.1.1

lemma ends_advance_within (amid : Amid text s) (skipBreaks : Bool) (mode : Mode) :
    Ends (advance skipBreaks mode) s fun token t => Silences text s t ∧
      token = (s.reads skipBreaks mode).token ∧ t.here = (s.reads skipBreaks mode).after ∧
        s.here.offset ≤ token.start ∧ token.start ≤ t.here.offset := by
  obtain ⟨_, t, run, settled, rfl, moves, place, -⟩ := ends_advance amid.settled skipBreaks mode
  have covers := covers_reads s skipBreaks mode
  refine ⟨_, t, run, settled, ⟨.of_moves settled moves (place ▸ .lex ..),
    StaysQuiet.advance skipBreaks mode s _ _ run⟩, rfl, place, ?_, ?_⟩
  · rw [covers.start]
    exact (reaches_begin ..).offset_le
  · rw [covers.start, place]
    exact covers.reaches.offset_le

/-- **Giving a statement up** is one complaint, about a token that was taken. -/
lemma ends_giveUp_grumbled (amid : Amid text t) (quiet : Silences text s t) {offset : Nat}
    {cause : Cause} (ranks : cause.Ranks 0) (le : s.here.offset ≤ offset)
    (le' : offset ≤ t.here.offset) :
    Ends (giveUp offset cause) t fun _ u => Grumbles text s u := by
  have grumbles : Leaves (giveUp offset cause) t fun _ u => Grumbles text s u := by
    refine (raises_complain amid offset ranks).bind fun _ u noted => ?_
    obtain ⟨complains, -, told⟩ := noted
    refine (raises_recover (amid.raises complains) told none).mono fun _ v passed => ?_
    have raises := complains.before passed.1
    have further := offset_le_front t
    have onward : front t ≤ front v := raises.front_le
    exact (quiet.behind raises).mono fun _ same => ⟨by omega, by omega⟩
  exact (grumbles.ends (ends_giveUp amid.settled amid.lone.attends offset cause)).mono
    fun _ _ left => left.1

/-- A token without which the statement is given up. -/
lemma ends_giveUp_none (amid : Amid text t) (quiet : Silences text s t) {offset : Nat}
    {cause : Cause} (ranks : cause.Ranks 0) (le : s.here.offset ≤ offset)
    (le' : offset ≤ t.here.offset) :
    Ends (do giveUp offset cause; return (none : Option α)) t fun found u =>
      Answers text s found u :=
  (ends_giveUp_grumbled amid quiet ranks le le').bind fun _ _ settled grumbled =>
    .pure settled (.none grumbled)

/-- The priority behind a clause. -/
lemma ends_clausePriority_answered (amid : Amid text s) :
    Ends clausePriority s fun found t => Answers text s found t := by
  refine (ends_peek_within amid false .word).bind fun token t settled quiet => ?_
  split
  · exact .pure settled (.silent quiet _)
  refine (ends_skipToken_within (amid.raises quiet) false .word).bind fun _ u _ skipped => ?_
  have quiet := quiet.before skipped
  refine (ends_advance_within (amid.raises quiet) false .word).bind fun number v _ taken => ?_
  obtain ⟨further, -, -, begins, stops⟩ := taken
  have le : s.here.offset ≤ number.start := Nat.le_trans quiet.strides.offset_le begins
  have quiet := quiet.before further
  split
  · refine (ends_advance_within (amid.raises quiet) false .word).bind fun close w settled taken => ?_
    obtain ⟨further, -, -, begins', stops'⟩ := taken
    split
    · exact .pure settled (.silent (quiet.before further) _)
    · refine ends_giveUp_none (amid.raises (quiet.before further)) (quiet.before further) ?_
        (Nat.le_trans quiet.strides.offset_le begins') stops'
      exact .of_apart "expected ')' after the priority, found " _ rfl (by decide)
  · refine ends_giveUp_none (amid.raises quiet) quiet ?_ le stops
    exact .of_apart "invalid priority " _ rfl (by decide)

/-- The alias of an operator. -/
lemma ends_operatorAlias_answered (amid : Amid text s) :
    Ends operatorAlias s fun found t => Answers text s found t := by
  refine (ends_peek_within amid false .word).bind fun token t settled quiet => ?_
  split
  · exact .pure settled (.silent quiet _)
  refine (ends_skipToken_within (amid.raises quiet) false .word).bind fun _ u _ skipped => ?_
  have quiet := quiet.before skipped
  refine (ends_advance_within (amid.raises quiet) false .symbol).bind fun name v settled taken => ?_
  obtain ⟨further, -, -, begins, stops⟩ := taken
  split
  · exact .pure settled (.silent (quiet.before further) _)
  · refine ends_giveUp_none (amid.raises (quiet.before further)) (quiet.before further) ?_
      (Nat.le_trans quiet.strides.offset_le begins) stops
    exact .of_apart "expected an alias after ':', found " _ rfl (by decide)

/-- The empty brackets behind the name of a macro. -/
lemma ends_emptyShape_answered (amid : Amid text s) (name : Token) :
    Ends (emptyShape name) s fun found t => Answers text s found t := by
  have opener : Ends (attachedOpener? name) s fun _ t => Silences text s t :=
    (ends_peek_within amid false .word).bind fun token t settled quiet => by
      split <;> exact .pure settled quiet
  refine opener.bind fun found t settled quiet => ?_
  cases found with
  | none => exact .pure settled (.silent quiet _)
  | some opener =>
    refine (ends_skipToken_within (amid.raises quiet) false .word).bind fun _ u _ skipped => ?_
    have quiet := quiet.before skipped
    refine (ends_advance_within (amid.raises quiet) false .word).bind fun close v settled taken => ?_
    obtain ⟨further, -, -, begins, stops⟩ := taken
    split
    · exact .pure settled (.silent (quiet.before further) _)
    · refine ends_giveUp_none (amid.raises (quiet.before further)) (quiet.before further) ?_
        (Nat.le_trans quiet.strides.offset_le begins) stops
      exact .of_apart "expected an empty shape such as '[]', found " _ rfl (by decide)

/-- Clauses that stand between an offset and a place. -/
def ClausesWithin (low : Nat) (clauses : List Clause) (s : ParserState) : Prop :=
  ∀ clause ∈ clauses, low ≤ clause.offset ∧ clause.offset ≤ s.here.offset

lemma ClausesWithin.later {clauses : List Clause} (within : ClausesWithin low clauses s)
    (le : s.here.offset ≤ t.here.offset) : ClausesWithin low clauses t :=
  fun clause mem => ⟨(within clause mem).1, Nat.le_trans (within clause mem).2 le⟩

/-- **The clauses of an operator**, by induction on the bound, which the text ahead pays for. -/
lemma ends_clauseList_answered (fuel : Nat) (amid : Amid text s)
    (enough : s.here.rest.length < fuel) {known : List Clause} (le : low ≤ s.here.offset)
    (within : ClausesWithin low known s) :
    Ends (clauseList fuel known) s fun found t => Answers text s found t ∧
      ∀ clauses, found = some clauses → ClausesWithin low clauses t := by
  induction fuel generalizing s known with
  | zero => exact absurd enough (Nat.not_lt_zero _)
  | succ fuel ih =>
    rw [clauseList]
    refine (ends_advance_within amid false .word).bind fun word t _ taken => ?_
    obtain ⟨quiet, rfl, place, begins, stops⟩ := taken
    split
    · refine (ends_giveUp_grumbled (amid.raises quiet) quiet ?_ begins stops).bind
        fun _ u settled grumbled => .pure settled ⟨.none grumbled, by rintro _ ⟨⟩⟩
      exact .of_apart "expected an operator property, found " _ rfl (by decide)
    rename_i literal
    have shorter : t.here.rest.length < s.here.rest.length := by
      rw [place]
      exact s.reads_shortens fun ends => literal (by rw [ends]; decide)
    refine (ends_clausePriority_answered (amid.raises quiet)).bind fun priority u settled answered => ?_
    cases priority with
    | none => exact .pure settled ⟨.behind quiet answered, by rintro _ ⟨⟩⟩
    | some priority =>
      have further := answered.2 rfl
      have quiet := quiet.before further
      have within : ClausesWithin low (known ++ [⟨(s.reads false .word).token.content, priority,
          (s.reads false .word).token.start⟩]) u := by
        intro clause mem
        rcases List.mem_append.mp mem with mem | mem
        · exact within.later quiet.strides.offset_le clause mem
        · rw [List.mem_singleton.mp mem]
          exact ⟨Nat.le_trans le begins, Nat.le_trans stops further.strides.offset_le⟩
      refine (ends_peek_within (amid.raises quiet) false .word).bind fun next v settled looked => ?_
      have quiet := quiet.before looked
      split
      · refine (ends_skipToken_within (amid.raises quiet) false .word).bind fun _ w _ skipped => ?_
        have onward := looked.before skipped
        have quiet := quiet.before skipped
        refine (ih (amid.raises quiet) ?_ (Nat.le_trans le quiet.strides.offset_le)
          (within.later onward.strides.offset_le)).mono fun found x answered =>
            ⟨.behind quiet answered.1, answered.2⟩
        have strides := (further.before onward).strides
        have total := strides.leads.reaches.total
        have le := strides.offset_le
        omega
      · refine .pure settled ⟨.silent quiet _, ?_⟩
        rintro _ ⟨⟩
        exact within.later looked.strides.offset_le

/-! ### Definitions -/

/-- **A step comes to an end**, and something holds then. -/
def Concludes (step : Parser α) (s : ParserState) (property : α → ParserState → Prop) : Prop :=
  ∃ value t, step s = .ok value t ∧ property value t

namespace Concludes

variable {step : Parser α} {next : α → Parser β} {property : α → ParserState → Prop}
  {result : β → ParserState → Prop}

lemma pure {value : α} (holds : property value s) : Concludes (Pure.pure value) s property :=
  ⟨value, s, rfl, holds⟩

lemma of_ends (ends : Ends step s property) : Concludes step s property := by
  obtain ⟨value, t, run, -, holds⟩ := ends
  exact ⟨value, t, run, holds⟩

lemma bind (first : Concludes step s property)
    (second : ∀ value t, property value t → Concludes (next value) t result) :
    Concludes (step >>= next) s result := by
  obtain ⟨value, t, run, holds⟩ := first
  obtain ⟨final, u, run', holds⟩ := second value t holds
  exact ⟨final, u, by rw [bind_ok run, run'], holds⟩

lemma mono {weaker : α → ParserState → Prop} (concludes : Concludes step s property)
    (h : ∀ value t, property value t → weaker value t) : Concludes step s weaker := by
  obtain ⟨value, t, run, holds⟩ := concludes
  exact ⟨value, t, run, h value t holds⟩

/-- A report changes nothing but the reports. -/
lemma note (report : Report) :
    Concludes (note report) s fun _ t => ∃ reports, t = { s with reports := reports } := by
  refine ⟨(), _, note_eq report s, ?_⟩
  split
  · exact ⟨s.reports, rfl⟩
  · exact ⟨_, rfl⟩

lemma notes {items : List α} (report : α → Report) :
    Concludes (items.forM fun item => Parser.note (report item)) s
      fun _ t => ∃ reports, t = { s with reports := reports } := by
  induction items generalizing s with
  | nil => exact pure ⟨s.reports, rfl⟩
  | cons item rest ih =>
    refine (note (report item)).bind ?_
    rintro _ _ ⟨reports, rfl⟩
    exact ih

lemma warnIfNone (removed offset : Nat) (cause : Cause) :
    Concludes (warnIfNone removed offset cause) s
      fun _ t => ∃ reports, t = { s with reports := reports } := by
  rw [Parser.warnIfNone]
  split
  · exact note _
  · exact pure ⟨s.reports, rfl⟩

end Concludes

/-- **A step aside**, which reads nothing, and complains in some turns where it is listened to. -/
def Interjects (text : List Char) (turns : Nat → Prop) (step : Parser α) : Prop :=
  ∀ s, s.recovering = false → Concludes step s fun _ t =>
    Complains text turns s t ∧ t.here = s.here ∧ t.recovering = false

namespace Interjects

variable {step : Parser α} {next : α → Parser β} {turns : Nat → Prop}

lemma pure (value : α) : Interjects text turns (Pure.pure value : Parser α) :=
  fun s attends => .pure ⟨(Complains.refl s).mono fun _ none => none.elim, rfl, attends⟩

/-- A change of the definitions in force, or of what was read ahead. -/
lemma change {change : ParserState → α × ParserState}
    (same : ∀ s, (change s).2.reports = s.reports ∧ (change s).2.recovering = s.recovering ∧
      (change s).2.tokens.reports = s.tokens.reports ∧
      (change s).2.tokens.reported = s.tokens.reported ∧ (change s).2.here = s.here) :
    Interjects text (fun _ => False) (MonadStateOf.modifyGet change) := by
  intro s attends
  obtain ⟨reports, recovering, waiting, reported, stays⟩ := same s
  exact ⟨_, _, rfl, .of_same (congrArg _ reports) waiting reported, stays, recovering.trans attends⟩

lemma note {report : Report} {turn : Nat} (parsed : ¬ report.Lexical) (same : report.turn = turn) :
    Interjects text (fun other => other = turn) (note report) := by
  subst same
  intro s attends
  have run := note_eq report s
  refine ⟨_, _, run, complains_note attends parsed _ _ run, ?_⟩
  rw [if_neg (by simp [attends])]
  exact ⟨rfl, attends⟩

/-- Behind a change. -/
lemma behind (first : Interjects text (fun _ => False) step)
    (second : ∀ value, Interjects text turns (next value)) : Interjects text turns (step >>= next) :=
  fun s attends => (first s attends).bind fun value t changed =>
    (second value t changed.2.2).mono fun _ _ told =>
      ⟨.behind changed.1 told.1, told.2.1.trans changed.2.1, told.2.2⟩

/-- In front of a change. -/
lemma before (first : Interjects text turns step)
    (second : ∀ value, Interjects text (fun _ => False) (next value)) :
    Interjects text turns (step >>= next) :=
  fun s attends => (first s attends).bind fun value t told =>
    (second value t told.2.2).mono fun _ _ changed =>
      ⟨told.1.before changed.1, changed.2.1.trans told.2.1, changed.2.2⟩

lemma forget : Interjects text (fun _ => False) forget :=
  change fun _ => ⟨rfl, rfl, rfl, rfl, rfl⟩

/-- **Registering an operator.** -/
lemma registerOperator (op : OperatorDefinition) (offset : Nat) :
    Interjects text (fun turn => turn = 3 * offset) (registerOperator options op offset) := by
  have rejects (conflict : OperatorConflict) : Interjects text (fun turn => turn = 3 * offset)
      (Parser.note ((Report.errorAt offset (.rejectedOperator op.name conflict)).withSeverity
        options.invalidOperatorSeverity)) := by
    have ranks : (Cause.rejectedOperator op.name conflict).Ranks 0 :=
      .of_apart "cannot register " _ ((String.append_assoc ..).trans (String.append_assoc ..))
        (by decide)
    exact note (ranks.not_lexical offset) (ranks.turn offset)
  have visible : Interjects text (fun _ => False) (Harmony.enlistVisibleOperator op) :=
    change fun _ => ⟨rfl, rfl, rfl, rfl, rfl⟩
  have exported : Interjects text (fun _ => False) (Harmony.enlistExportedOperator op) :=
    change fun _ => ⟨rfl, rfl, rfl, rfl, rfl⟩
  rw [Harmony.registerOperator_eq]
  refine visible.behind fun conflict => ?_
  cases conflict with
  | some conflict => exact (rejects conflict).before fun _ => forget
  | none =>
    refine exported.behind fun conflict => ?_
    cases conflict with
    | some conflict => exact (rejects conflict).before fun _ => forget
    | none => exact (pure ()).before fun _ => forget

/-- A warning that there was nothing to take back. -/
lemma warnIfNone (removed offset : Nat) {cause : Cause} (ranks : cause.Ranks 0) :
    Interjects text (fun turn => turn = 3 * offset) (warnIfNone removed offset cause) := by
  rw [Parser.warnIfNone]
  split
  · exact note (ranks.not_lexical offset) (ranks.turn offset)
  · exact pure _

end Interjects

/-- Behind what is quiet a step aside complains of a token that was taken. -/
lemma Interjects.grumbled {step : Parser α} {offset : Nat}
    (interjects : Interjects text (fun turn => turn = 3 * offset) step) (amid : Amid text t)
    (quiet : Silences text s t) (le : s.here.offset ≤ offset) (le' : offset ≤ t.here.offset) :
    Concludes step t fun _ u => Complains text (Within (3 * s.here.offset) (3 * front u + 1)) s u :=
  (interjects t amid.lone.attends).mono fun _ u told => by
    have further := offset_le_front u
    rw [told.2.1] at further
    exact (quiet.complains.behind told.1).mono fun _ same => ⟨by omega, by omega⟩

/-- A statement behind its first token. -/
lemma Concludes.behind {step : Parser α} (quiet : Silences text s t) (le : front s ≤ t.here.offset)
    (concludes : Concludes step t fun _ u =>
      Complains text (Within (3 * t.here.offset) (3 * front u + 1)) t u) :
    Concludes step t fun _ u => Complains text (Within (3 * front s) (3 * front u + 1)) s u :=
  concludes.mono fun _ _ told => (quiet.complains.behind told).mono fun _ within =>
    ⟨Nat.le_trans (Nat.mul_le_mul_left 3 le) within.1, within.2⟩

/-- A statement that is given up. -/
lemma concludes_giveUp (amid : Amid text t) (quiet : Silences text s t) {offset : Nat} {cause : Cause}
    (ranks : cause.Ranks 0) (le : s.here.offset ≤ offset) (le' : offset ≤ t.here.offset) :
    Concludes (giveUp offset cause) t fun _ u =>
      Complains text (Within (3 * s.here.offset) (3 * front u + 1)) s u :=
  (Concludes.of_ends (ends_giveUp_grumbled amid quiet ranks le le')).mono fun _ _ => Raises.complains

/-- **An operator statement** complains of one thing at most. -/
lemma concludes_operatorStatement (amid : Amid text s) (fuel : Nat) (keyword : Bool)
    (enough : s.here.rest.length < fuel) :
    Concludes (operatorStatement options fuel keyword) s fun _ t =>
      Complains text (Within (3 * front s) (3 * front t + 1)) s t := by
  refine .bind (.of_ends (ends_advance_within amid true .word)) fun word t taken => ?_
  obtain ⟨first, rfl, -, -, stops⟩ := taken
  rw [start_reads] at stops
  refine .behind first stops ?_
  have amid := amid.raises first
  refine .bind (.of_ends (ends_advance_within amid false .symbol)) fun symbol u taken => ?_
  obtain ⟨quiet, -, -, begins, stops⟩ := taken
  split
  · refine concludes_giveUp (amid.raises quiet) quiet ?_ begins stops
    exact .of_apart "expected a symbol after " _ ((String.append_assoc ..).trans
      (String.append_assoc ..)) (by decide)
  refine .bind (.of_ends (ends_advance_within (amid.raises quiet) false .word)) fun asWord v taken => ?_
  obtain ⟨further, -, -, begins', stops'⟩ := taken
  have le := further.strides.offset_le
  have quiet' := quiet.before further
  split
  · refine concludes_giveUp (amid.raises quiet') quiet' ?_
      (Nat.le_trans quiet.strides.offset_le begins') stops'
    exact .of_apart "expected 'as' after " _ ((String.append_assoc ..).trans
      (String.append_assoc ..)) (by decide)
  refine .bind (.of_ends (ends_clauseList_answered fuel (amid.raises quiet') ?_
    quiet'.strides.offset_le (List.forall_mem_nil _))) fun found w answered => ?_
  · have strides := (first.before quiet').strides
    have total := strides.leads.reaches.total
    have le := strides.offset_le
    omega
  obtain ⟨answered, within⟩ := answered
  cases found with
  | none => exact .pure (Grumbles.behind quiet' answered.1).complains
  | some clauses =>
    have further := answered.2 rfl
    have within := within clauses rfl
    have quiet'' := quiet'.before further
    refine .bind (.of_ends (ends_operatorAlias_answered (amid.raises quiet''))) fun found x answered => ?_
    cases found with
    | none => exact .pure (Grumbles.behind quiet'' answered.1).complains
    | some aliasName =>
      have onward := answered.2 rfl
      have quiet := quiet''.before onward
      dsimp only
      split
      · exact (Interjects.registerOperator _ _).grumbled (amid.raises quiet) quiet begins (by
          have := (further.before onward).strides.offset_le
          omega)
      · rename_i report failed
        obtain ⟨clause, mem, cause, ranks, rfl⟩ := blames_of_buildOperator failed
        have within := within.later onward.strides.offset_le clause mem
        exact (Interjects.note (ranks.not_lexical _) (ranks.turn _)).grumbled (amid.raises quiet) quiet
          within.1 within.2

/-- Taking a macro back. -/
lemma concludes_undefineMacro (amid : Amid text s) (function : Bool) :
    Concludes (undefineMacro function) s fun _ t =>
      Complains text (Within (3 * s.here.offset) (3 * front t + 1)) s t := by
  refine .bind (.of_ends (ends_advance_within amid false .word)) fun name t taken => ?_
  obtain ⟨quiet, -, -, begins, stops⟩ := taken
  split
  · refine concludes_giveUp (amid.raises quiet) quiet ?_ begins stops
    exact .of_apart "expected a macro name, found " _ rfl (by decide)
  refine .bind (.of_ends (ends_emptyShape_answered (amid.raises quiet) name)) fun found u answered => ?_
  cases found with
  | none => exact .pure (Grumbles.behind quiet answered.1).complains
  | some shape =>
    have further := answered.2 rfl
    have ranks : (Cause.unknownMacro name.content).Ranks 0 :=
      .of_apart "no macro named " _ (String.append_assoc ..) (by decide)
    have removes (kinds : List MacroKind) :
        Interjects text (fun _ => False) (removeMacros name.content kinds) :=
      .change fun _ => ⟨rfl, rfl, rfl, rfl, rfl⟩
    exact ((removes _).behind fun removed => .warnIfNone removed name.start ranks).grumbled
      (amid.raises (quiet.before further)) (quiet.before further) begins
      (Nat.le_trans stops further.strides.offset_le)

/-- Taking an operator back. -/
lemma concludes_undefineOperator (amid : Amid text s) {word : String} (keyword : Bool)
    (known : word = "operator" ∨ word = "keyword") :
    Concludes (undefineOperator word keyword) s fun _ t =>
      Complains text (Within (3 * s.here.offset) (3 * front t + 1)) s t := by
  refine .bind (.of_ends (ends_advance_within amid false .symbol)) fun symbol t taken => ?_
  obtain ⟨quiet, -, -, begins, stops⟩ := taken
  split
  · refine concludes_giveUp (amid.raises quiet) quiet ?_ begins stops
    exact .of_apart "expected a symbol after " _ ((String.append_assoc ..).trans
      (String.append_assoc ..)) (by decide)
  have ranks : (Cause.unknownOperator word symbol.content).Ranks 0 := by
    rcases known with rfl | rfl
    · exact .of_apart "operator " _ (String.append_assoc ..) (by decide)
    · exact .of_apart "keyword " _ (String.append_assoc ..) (by decide)
  have removes : Interjects text (fun _ => False) (removeOperators symbol.content keyword) :=
    .change fun _ => ⟨rfl, rfl, rfl, rfl, rfl⟩
  exact (removes.behind fun removed =>
    (Interjects.warnIfNone removed symbol.start ranks).before fun _ => .forget).grumbled
      (amid.raises quiet) quiet begins stops

/-- **Taking something back** that is not imported. -/
lemma concludes_plainUndefine (amid : Amid text s) :
    Concludes plainUndefine s fun _ t =>
      Complains text (Within (3 * front s) (3 * front t + 1)) s t := by
  have skip : Ends (skipToken true .word) s fun _ t => Silences text s t ∧ front s ≤ t.here.offset :=
    (ends_advance_within amid true .word).bind fun _ t settled taken => .pure settled
      ⟨taken.1, by rw [← start_reads s .word, ← taken.2.1]; exact taken.2.2.2.2⟩
  refine .bind (.of_ends skip) fun _ t skipped => ?_
  refine .behind skipped.1 skipped.2 ?_
  have amid := amid.raises skipped.1
  refine .bind (.of_ends (ends_advance_within amid false .word)) fun what u taken => ?_
  obtain ⟨quiet, -, -, begins, stops⟩ := taken
  have amid := amid.raises quiet
  -- What is taken back is named behind the keyword.
  have further {step : Parser Unit} (concludes : Concludes step u fun _ v =>
      Complains text (Within (3 * u.here.offset) (3 * front v + 1)) u v) :
      Concludes step u fun _ v => Complains text (Within (3 * t.here.offset) (3 * front v + 1)) t v :=
    concludes.mono fun _ _ told => (quiet.complains.behind told).mono fun _ within =>
      ⟨Nat.le_trans (Nat.mul_le_mul_left 3 quiet.strides.offset_le) within.1, within.2⟩
  have named {opening : StatementKeyword} (found : (if what.kind = .literal then
      StatementKeyword.ofText? what.content else none) = some opening) :
      what.content = opening.text := by
    split_ifs at found
    have same := List.find?_some found
    exact (of_decide_eq_true same).symm
  split
  · exact further (concludes_undefineMacro amid false)
  · exact further (concludes_undefineMacro amid true)
  · rename_i found
    exact further (concludes_undefineOperator amid false (.inl (named found)))
  · rename_i found
    exact further (concludes_undefineOperator amid true (.inr (named found)))
  · exact .pure (quiet.complains.mono fun _ none => none.elim)
  · refine concludes_giveUp amid quiet ?_ begins stops
    exact .of_apart "expected what to undefine, found " _ rfl (by decide)

/-! ### Values -/

/-- **A value** is read without a fault, where there are no macros. -/
lemma concludes_parseValue (amid : Amid text s) (shallow : s.depth ≤ maxNesting) {fuel : Nat}
    (enough : s.lexis.cost s.here + s.lexis.pace ≤ fuel) :
    Concludes (parseValue options fuel) s fun _ t =>
      Complains text (Within (3 * front s) (3 * front t + 1)) s t := by
  have pace := s.lexis.ten_le_pace
  have ready : Ready (Kept fun _ => True) s [] :=
    ⟨amid.settled, amid.lone.attends, ⟨by simp [Armed, amid.lone.macros], shallow, by simp⟩⟩
  obtain ⟨node, t, run, -⟩ : Ends (parseValue options fuel) s _ :=
    ends_parseValue (upkeep_any options) ready (by omega)
  have turns : Reading.value.TakesTurns text (parseValue options fuel) :=
    Reading.takesTurns_within fuel .value
  exact ⟨node, t, run, Raises.complains (turns s amid node t run)⟩

/-- **A statement without macros and imports** is read without a fault. -/
lemma concludes_plainStatement (amid : Amid text s) (shallow : s.depth ≤ maxNesting) :
    Concludes (plainStatement options (s.reads true .word).token) s fun _ t =>
      Complains text (Within (3 * front s) (3 * front t + 1)) s t := by
  have pay : Concludes valueFuel s fun fuel t => s.lexis.cost s.here + s.lexis.pace = fuel ∧ s = t :=
    ⟨_, s, valueFuel_eq amid.settled, rfl, rfl⟩
  refine pay.bind ?_
  rintro _ _ ⟨rfl, rfl⟩
  obtain ⟨found, t, run, settled, -, moves, stays⟩ := ends_statementKeyword? amid.settled
  have quiet : Silences text s t := ⟨.of_moves settled moves (.of_eq stays.symm),
    StaysQuiet.statementKeyword? _ s _ _ run⟩
  have amid' := amid.raises quiet
  have front_eq : front t = front s := front_eq_of_here stays
  have pace := s.lexis.ten_le_pace
  have paid : s.here.rest.length ≤ s.lexis.cost s.here := Nat.le_mul_of_pos_right _ (by omega)
  have looked : Concludes (statementKeyword? (s.reads true .word).token) s fun value u =>
      found = value ∧ t = u := ⟨found, t, run, rfl, rfl⟩
  refine looked.bind ?_
  rintro _ _ ⟨rfl, rfl⟩
  have behind {step : Parser (Option Node)} (concludes : Concludes step t fun _ u =>
      Complains text (Within (3 * front t) (3 * front u + 1)) t u) :
      Concludes step t fun _ u => Complains text (Within (3 * front s) (3 * front u + 1)) s u := by
    rw [← front_eq]
    exact concludes.mono fun _ _ told => quiet.complains.behind told
  cases found with
  | none =>
    refine behind ((concludes_parseValue amid' (moves.depth ▸ shallow) ?_).bind
      fun _ _ told => .pure told)
    rw [moves.lexis, stays]
  | some opening =>
    have silent : Complains text (Within (3 * front t) (3 * front t + 1)) t t :=
      (Complains.refl t).mono fun _ none => none.elim
    refine behind (Concludes.bind ?_ fun _ _ told => .pure told)
    cases opening with
    | operator => exact concludes_operatorStatement amid' _ false (by rw [stays]; omega)
    | keyword => exact concludes_operatorStatement amid' _ true (by rw [stays]; omega)
    | undefine => exact concludes_plainUndefine amid'
    | template | function | use => exact .pure silent

/-! ## Sources -/

/-- **From which turn on complaints may follow** in front of a statement.  At the end of the text there
will be none. -/
def Ahead (low : Nat) (s : ParserState) : Prop :=
  low ≤ 3 * front s ∨ (s.reads true .word).token.kind = .endOfInput

/-- **The separator behind a statement**: complaints about what follows are free to come. -/
lemma turns_endStatement {r : ParserState} (amid : Amid text s) (awaited : s.awaited = [])
    (before : Complains text (Within low (3 * front s + 1)) r s) (le : low ≤ 3 * front s) :
    Leaves endStatement s fun _ t =>
      ∃ high, low ≤ high ∧ Ahead high t ∧ Complains text (Within low high) r t := by
  refine (raises_peek amid false .word).bind fun token t looked => ?_
  obtain ⟨quiet, rfl, rests⟩ := looked
  have amid := amid.raises quiet
  have before := before.before quiet.complains
  rw [← quiet.strides.reads_eq rests.here]
  rw [← rests.front_eq] at before le
  split
  · rename_i separates
    refine (raises_skipSeparator amid before le (Or.symm (by simpa using separates))).mono
      fun _ u taken => ?_
    obtain ⟨-, high, le, le', complains⟩ := taken
    exact ⟨high, le, .inl le', complains⟩
  rename_i separates
  have inside : (t.reads false .word).token.kind ≠ .lineBreak := fun breaks => by
    simp [breaks] at separates
  split
  · rename_i ends
    refine .pure ⟨3 * front t + 1, by omega, .inr ?_, before⟩
    rw [(begin_eq inside).1]
    exact ends
  · rename_i going
    have ranks : (Cause.expectedStatementEnd (t.reads false .word).token).Ranks 1 :=
      .of_lead "expected a line break or ',' after the statement, found " _ rfl (by decide) (by decide)
        (by decide)
    refine (raises_missingSeparator amid ranks none before le inside).mono fun _ u passed => ?_
    obtain ⟨strides, complains, past | ⟨stops, -⟩⟩ := passed
    · exact ⟨3 * front u, by omega, .inl (Nat.le_refl _),
        complains.mono fun _ within => ⟨within.1, by have := within.2; omega⟩⟩
    · rcases stops with ends | closes | ⟨-, closes⟩
      · exact absurd ends going
      · cases closes
      · rw [rests.awaited, awaited] at closes
        cases closes

/-- **A round of a source** complains in turns of its own. -/
lemma turns_roundFrom (amid : Amid text s) (resting : s.Resting)
    (contained : s.lexis.isSelfContained s.here = true)
    (more : (s.reads true .word).token.kind ≠ .endOfInput) (le : low ≤ 3 * front s) :
    Leaves (roundFrom options resolver (s.reads true .word).token) s fun _ t =>
      ∃ high, low ≤ high ∧ Ahead high t ∧ Complains text (Within low high) s t := by
  have misplaced {cause : Cause} (ranks : cause.Ranks 0) : Leaves (do
      skipToken true .word
      complain (s.reads true .word).token.start cause
      return ([] : List Node)) s fun _ t =>
        ∃ high, low ≤ high ∧ Ahead high t ∧ Complains text (Within low high) s t := by
    refine raises_misplaced amid ranks more fun t told => .pure ?_
    have onward : front s ≤ front t := told.front_le
    exact ⟨3 * front t, by omega, .inl (Nat.le_refl _),
      told.complains.mono fun _ within => ⟨Nat.le_trans le within.1, within.2⟩⟩
  rw [roundFrom]
  split
  · exact misplaced (.of_whole (by decide))
  split
  · refine (raises_skipToken amid true .word).bind fun _ t taken => .pure ?_
    have onward : front s ≤ front t := taken.1.front_le
    exact ⟨3 * front t, by omega, .inl (Nat.le_refl _), taken.1.complains.mono fun _ none => none.elim⟩
  split
  · exact misplaced (.of_apart "unexpected " _ rfl (by decide))
  · obtain ⟨found, t, run, told⟩ : Concludes (plainStatement options (s.reads true .word).token) s _ :=
      concludes_plainStatement amid (by rw [resting.depth]; exact Nat.zero_le _)
    obtain ⟨-, leads, bears⟩ := leaves_of_travels amid.settled.coherent
      ((travels_uniform options).plainStatement (s.reads true .word).token)
      ((uniform_bearing options).plainStatement (s.reads true .word).token) found t run
    have same : parseStatement options resolver (s.reads true .word).token s
        = plainStatement options (s.reads true .word).token s :=
      parseStatement_eq_plain amid.settled contained
    rw [← same] at run
    have tried : attempt (parseStatement options resolver (s.reads true .word).token) s
        = .ok (.ok found) t := by rw [attempt, run]
    obtain ⟨settled, resting⟩ := ends_parseStatement_resting amid.settled resting run
    have amid' : Amid text t := ⟨⟨settled, bears.macros amid.lone.macros, resting.scope,
      resting.attends, leads.reaches.total.trans amid.lone.total⟩, amid.reached.trans leads.reaches⟩
    have onward : front s ≤ front t := leads.begins
    have told : Complains text (Within low (3 * front t + 1)) s t :=
      told.mono fun _ within => ⟨Nat.le_trans le within.1, within.2⟩
    have ended : Leaves (do endStatement; return found.toList) t fun _ u =>
        ∃ high, low ≤ high ∧ Ahead high u ∧ Complains text (Within low high) s u :=
      (turns_endStatement amid' resting.awaited told (by omega)).bind fun _ _ passed => .pure passed
    intro added u whole
    rw [bind_ok tried] at whole
    exact ended added u whole

/-- Behind a round such a source goes on. -/
lemma amid_of_round {token : Token} {added : List Node} (amid : Amid text s) (resting : s.Resting)
    (contained : SelfContained options resolver s) (looked : peek true .word s = .ok token t)
    (more : token.kind ≠ .endOfInput) (run : roundFrom options resolver token t = .ok added u) :
    Amid text u ∧ u.Resting ∧ SelfContained options resolver u := by
  have reaches := Reaches.of_round amid.settled looked more run
  obtain ⟨settled', resting'⟩ := resting_of_reaches amid.settled resting reaches
  obtain ⟨_, _, hpeek, settled, -, moves, stays, -⟩ := ends_peek amid.settled true .word
  obtain ⟨rfl, rfl⟩ := ok_unique looked hpeek
  rw [roundFrom_eq_plain amid.settled (contained s (.here s)) looked] at run
  obtain ⟨-, leads, bears⟩ := leaves_of_travels settled.coherent
    ((travels_uniform options).plainRound _) ((uniform_bearing options).plainRound _) added u run
  rw [stays] at leads
  have total := leads.reaches.total.trans amid.lone.total
  exact ⟨⟨⟨settled', bears.macros (moves.visible ▸ amid.lone.macros), resting'.scope,
    resting'.attends, total⟩, amid.reached.trans leads.reaches⟩, resting', contained.reached reaches⟩

/-- **Every complaint of a source has a turn of its own**, by induction on its rounds. -/
lemma turns_parseAll (amid : Amid text s) (resting : s.Resting)
    (contained : SelfContained options resolver s) (fuel : Nat) (values : List Node)
    (ahead : Ahead low s) :
    Leaves (parseAll options resolver fuel values) s fun _ t =>
      Complains text (fun turn => low ≤ turn) s t := by
  induction fuel generalizing s values low with
  | zero => exact fun _ _ run => nomatch run
  | succ fuel ih =>
    obtain ⟨_, t, looked, -, rfl, moves, stays, -⟩ := ends_peek amid.settled true .word
    obtain ⟨quiet, same, rests⟩ := raises_peek amid true .word _ _ looked
    rw [parseAll_succ]
    intro result u run
    rw [sourceRound_eq, bind_ok looked] at run
    split at run
    · obtain ⟨_, _, noted, ended⟩ := bind_eq_ok.mp run
      cases ended
      exact (quiet.complains.before (StaysQuiet.noteLexical t _ _ noted)).mono fun _ none => none.elim
    rename_i more
    have free : low ≤ 3 * front t := by
      rw [rests.front_eq]
      exact ahead.resolve_right more
    obtain ⟨added, v, taken, run⟩ := bind_eq_ok.mp run
    obtain ⟨amid', resting', contained'⟩ := amid_of_round amid resting contained looked more taken
    rw [← quiet.strides.reads_eq rests.here] at taken more
    obtain ⟨high, le, ahead, told⟩ := turns_roundFrom (amid.raises quiet) (resting.moved moves)
      (by rw [moves.lexis, stays]; exact contained s (.here s)) more
      free added v taken
    refine ((quiet.complains.behind told).append
      (ih amid' resting' contained' (added ++ values) ahead result u run)
        fun turn within above => ?_).mono fun turn turns => ?_
    · exact Nat.not_lt_of_le above within.2
    · exact turns.elim (fun within => within.1) fun above => Nat.le_trans le above

/-- Reports with turns of their own, and those about characters, are told apart. -/
lemma pairwise_of_complains (complains : Complains text (fun _ => True) s t) (audited : Audited s)
    (silent : s.reports = #[]) :
    t.reports.toList.Pairwise fun a b =>
      a.offset = b.offset → a.message = b.message → BehindBreak text a.place := by
  obtain ⟨audited, reports, grown, distinct, -⟩ := complains audited
  rw [silent, List.nil_append] at grown
  have once := (List.pairwise_append.mp audited.once).1
  rw [grown] at once ⊢
  refine (once.and distinct).imp fun {a b} apart offset message => by_contra fun inside => ?_
  obtain ⟨once, distinct⟩ := apart
  have place : a.place = b.place := by rw [Report.place, Report.place, offset]
  have lexical : a.Lexical ↔ b.Lexical := by rw [Report.Lexical, Report.Lexical, message]
  by_cases known : a.Lexical
  · exact once known (lexical.mp known) place
  · exact distinct ⟨known, inside⟩ ⟨lexical.not.mp known, place ▸ inside⟩
      (Report.turn_congr offset message)

/-- **Of two reports with the same words about the same token** it is true that a line is broken in front
of the token. -/
theorem compile_reports_distinct (options : CompileOptions) (resolver : Resolver) (source : Source)
    (imports : ImportState)
    (contained : SelfContained options resolver (initial options source imports)) :
    (compile options resolver source imports).1.reports.Pairwise fun a b =>
      a.offset = b.offset → a.message = b.message → BehindBreak source.chars a.place := by
  have amid : Amid source.chars (initial options source imports) :=
    ⟨⟨(outside_initial source imports).settled, rfl, rfl, rfl, Nat.zero_add _⟩, .refl _⟩
  have audited : Audited (initial options source imports) :=
    ⟨List.forall_mem_nil _, List.forall_mem_nil _, List.Pairwise.nil⟩
  have complains := turns_parseAll amid (resting_initial source imports) contained
    (source.length + 1) [] (.inl (Nat.zero_le _))
  rw [Harmony.compile_eq]
  generalize hp : parseAll options resolver _ _ _ = outcome
  cases outcome with
  | error fault t => exact List.pairwise_singleton _ _
  | ok values t =>
    exact pairwise_of_complains ((complains values t hp).mono fun _ _ => trivial) audited rfl

/-- For instance, a brace that is no key, behind a line break.  What is skipped behind the first report is
the line break alone. -/
theorem compile_reports_distinct_of_brace_behind_break :
    let source : Source := ⟨"", "\x7b\n\x7b\x7d\x7d"⟩
    let compiled := (compile {} (tableResolver []) source {}).1
    SelfContained {} (tableResolver []) (initial {} source {}) ∧
      (compiled.reports.map fun report => (report.offset, report.message)) =
        [(some 2, "expected a key, found '\x7b'"), (some 2, "expected a key, found '\x7b'")] ∧
      BehindBreak source.chars 2 := by
  intro source compiled
  have contained : SelfContained {} (tableResolver []) (initial {} source {}) :=
    selfContained_of_rounds 3 (outside_initial source {}).settled (resting_initial source {})
      (by decide +kernel)
  have told : (compiled.reports.map fun report => (report.offset, report.message)) =
      [(some 2, "expected a key, found '\x7b'"), (some 2, "expected a key, found '\x7b'")] := by
    decide +kernel
  obtain ⟨first, others, listed, same, others'⟩ := List.map_eq_cons_iff.mp told
  obtain ⟨second, _, rfl, same', -⟩ := List.map_eq_cons_iff.mp others'
  obtain ⟨offset, message⟩ := Prod.mk.inj same
  obtain ⟨offset', message'⟩ := Prod.mk.inj same'
  have apart := compile_reports_distinct {} (tableResolver []) source {} contained
  rw [show (compile {} (tableResolver []) source {}).1.reports = _ from listed] at apart
  have behind := (List.pairwise_cons.mp apart).1 second List.mem_cons_self
    (offset.trans offset'.symm) (message.trans message'.symm)
  rw [Report.place, offset] at behind
  exact ⟨contained, told, behind⟩

/-- **In a source of one line no two reports say the same of the same token.** -/
theorem compile_reports_distinct_of_line (options : CompileOptions) (resolver : Resolver)
    (source : Source) (imports : ImportState) (line : '\n' ∉ source.chars)
    (contained : SelfContained options resolver (initial options source imports)) :
    (compile options resolver source imports).1.reports.Pairwise fun a b =>
      a.offset = b.offset → a.message ≠ b.message :=
  (compile_reports_distinct options resolver source imports contained).imp
    fun told offset message => not_behindBreak line (told offset message)

/-- For instance, a parenthesis that is no value, and does not separate anything either. -/
theorem compile_reports_distinct_of_parenthesis :
    let source : Source := ⟨"", "[)]"⟩
    let compiled := (compile {} (tableResolver []) source {}).1
    (compiled.reports.map fun report => (report.offset, report.message)) =
        [(some 1, "expected a value, found ')'"), (some 1, "expected ',' or ']', found ')'")] ∧
      compiled.reports.Pairwise fun a b => a.offset = b.offset → a.message ≠ b.message := by
  intro source compiled
  have contained : SelfContained {} (tableResolver []) (initial {} source {}) :=
    selfContained_of_rounds 3 (outside_initial source {}).settled (resting_initial source {})
      (by decide +kernel)
  exact ⟨by decide +kernel, compile_reports_distinct_of_line {} (tableResolver []) source {}
    (by decide) contained⟩

end TreeLang.Parser
