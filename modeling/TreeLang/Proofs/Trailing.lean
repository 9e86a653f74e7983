import TreeLang.Proofs.Enclosing

/-!
# The trail of the tokens

Inside a statement the operators in force stay the same, and so does the way in which the text is cut.
A parser goes from the place it stands at to other places by taking tokens there, under one mode or
another.  The places it may come to in this way are the trail of a place; what holds of every token on
the trail holds of every token that is read.

* `Lexis.Trail` — the places that tokens lead to, under one way of cutting the text.
* **`Trails`** — how a parser goes on inside a statement: along the trail, and keeping its reports.
* `trails_peek`, `trails_skipToken`, `trails_groupHead?`, … — the steps that take tokens.
* `leaves_recover`, `leaves_separator` — recovering, which takes any number of them.
* `trails_of_nodewise` — the steps that make nodes take none.
-/

namespace TreeLang

/-- **The places that tokens lead to** from a place, whatever the mode they are read in. -/
inductive Lexis.Trail (lexis : Lexis) (p : Place) : Place → Prop
  | here : Trail lexis p p
  | token {q : Place} (skipBreaks : Bool) (mode : Mode) (before : Trail lexis p q) :
      Trail lexis p (lexis.read skipBreaks mode q).after

namespace Lexis.Trail

variable {lexis : Lexis} {p q r : Place}

lemma of_eq (same : q = p) : lexis.Trail p q := same ▸ .here

lemma trans (first : lexis.Trail p q) (second : lexis.Trail q r) : lexis.Trail p r := by
  induction second with
  | here => exact first
  | token skipBreaks mode _ ih => exact .token skipBreaks mode ih

/-- The trail leads on in the text. -/
lemma reaches (trail : lexis.Trail p q) : p.Reaches q := by
  induction trail with
  | here => exact .refl p
  | token skipBreaks mode _ ih => exact ih.trans (reaches_lex ..)

/-- The opener of a group is on the trail. -/
lemma of_headAt? {mode : Mode} {name : Option Token} {opener : Token}
    (found : lexis.headAt? mode p = some (name, opener, q)) : lexis.Trail p q := by
  have first : lexis.Trail p (lexis.read true mode p).after := .token true mode .here
  rw [headAt?] at found
  split at found
  · cases found
    exact first
  split at found
  · dsimp only at found
    split at found
    · cases found
      exact .token false mode first
    · cases found
  · cases found

/-- So is an operator. -/
lemma of_operatorAt? {group : PriorityGroup} {skipBreaks : Bool} {op : OperatorDefinition}
    (found : lexis.operatorAt? group skipBreaks p = some (op, q)) : lexis.Trail p q := by
  rw [operatorAt?] at found
  split at found
  · obtain ⟨_, -, same⟩ := Option.map_eq_some_iff.mp found
    cases same
    exact .token skipBreaks .operation .here
  · cases found

end Lexis.Trail

namespace Parser

open TokenStream

variable {α β : Type} {s t u : ParserState}

/-! ## Going on inside a statement -/

/-- **How a parser goes on inside a statement.** -/
structure Trails (s t : ParserState) : Prop where
  settled : t.Settled
  visible : t.visible = s.visible
  policy : t.tokens.policy = s.tokens.policy
  recovering : t.recovering = s.recovering
  trail : s.lexis.Trail s.here t.here
  reports : s.reports.toList <+: t.reports.toList

namespace Trails

lemma lexis (trails : Trails s t) : t.lexis = s.lexis := by
  simp only [ParserState.lexis, trails.visible, trails.policy]

lemma refl (settled : s.Settled) : Trails s s :=
  ⟨settled, rfl, rfl, rfl, .here, List.prefix_refl _⟩

lemma trans (first : Trails s t) (second : Trails t u) : Trails s u where
  settled := second.settled
  visible := second.visible.trans first.visible
  policy := second.policy.trans first.policy
  recovering := second.recovering.trans first.recovering
  trail := first.trail.trans (first.lexis ▸ second.trail)
  reports := first.reports.trans second.reports

lemma of_moves (settled : t.Settled) (moves : Moves s t) (trail : s.lexis.Trail s.here t.here) :
    Trails s t :=
  ⟨settled, moves.visible, moves.policy, moves.recovering, trail, moves.reports⟩

/-- A change of what is in mind. -/
lemma change (settled : s.Settled) (tokens : t.tokens = s.tokens) (visible : t.visible = s.visible)
    (recovering : t.recovering = s.recovering) (reports : t.reports = s.reports) : Trails s t where
  settled := settled_of_same settled tokens (congrArg _ visible)
  visible := visible
  policy := congrArg TokenStream.policy tokens
  recovering := recovering
  trail := .of_eq (congrArg TokenStream.anchor tokens)
  reports := reports ▸ List.prefix_refl _

/-- What is read on the trail is what would have been read from the beginning. -/
lemma reads_eq (trails : Trails s t) (stays : t.here = s.here) (skipBreaks : Bool) (mode : Mode) :
    t.reads skipBreaks mode = s.reads skipBreaks mode := by
  rw [ParserState.reads, trails.lexis, stays]

end Trails

/-! ### Tokens -/

lemma trails_peek (settled : s.Settled) (skipBreaks : Bool) (mode : Mode) :
    Ends (peek skipBreaks mode) s fun token t =>
      token = (s.reads skipBreaks mode).token ∧ Trails s t ∧ t.here = s.here := by
  obtain ⟨token, t, run, settled', same, moves, stays, -⟩ := ends_peek settled skipBreaks mode
  exact ⟨token, t, run, settled', same, .of_moves settled' moves (.of_eq stays), stays⟩

lemma trails_advance (settled : s.Settled) (skipBreaks : Bool) (mode : Mode) :
    Ends (advance skipBreaks mode) s fun _ t => Trails s t := by
  obtain ⟨token, t, run, settled', -, moves, place, -⟩ := ends_advance settled skipBreaks mode
  exact ⟨token, t, run, settled', .of_moves settled' moves (place ▸ .token skipBreaks mode .here)⟩

lemma trails_skipToken (settled : s.Settled) (skipBreaks : Bool) (mode : Mode) :
    Ends (skipToken skipBreaks mode) s fun _ t => Trails s t :=
  (trails_advance settled skipBreaks mode).bind fun _ _ settled trails => .pure settled trails

lemma trails_note (settled : s.Settled) (report : Report) :
    Ends (note report) s fun _ t => Trails s t := by
  obtain ⟨_, t, run, settled', moves, stays, -⟩ := ends_note settled report
  exact ⟨_, t, run, settled', .of_moves settled' moves (.of_eq stays)⟩

lemma trails_attachedOpener? (settled : s.Settled) (name : Token) :
    Ends (attachedOpener? name) s fun _ t => Trails s t := by
  refine (trails_peek settled false .word).bind fun token t settled looked => ?_
  split <;> exact .pure settled looked.2.1

lemma trails_operatorOf? (settled : s.Settled) (group : PriorityGroup) (skipBreaks : Bool) :
    Ends (operatorOf? group skipBreaks) s fun _ t => Trails s t := by
  obtain ⟨found, t, run, settled', moves, place, stays, -⟩ :=
    ends_operatorOf? settled group skipBreaks
  refine ⟨found, t, run, settled', .of_moves settled' moves ?_⟩
  cases found with
  | none => exact .of_eq (stays rfl)
  | some op => exact .of_operatorAt? place

lemma trails_groupHead? (settled : s.Settled) (mode : Mode) :
    Ends (groupHead? mode) s fun _ t => Trails s t := by
  obtain ⟨found, t, run, settled', moves, place, stays, -⟩ := ends_groupHead? settled mode
  refine ⟨found, t, run, settled', .of_moves settled' moves ?_⟩
  cases found with
  | none => exact .of_eq (stays rfl)
  | some head => exact .of_headAt? place

lemma trails_parameterType (settled : s.Settled) (parameter : Parameter) :
    Ends (parameterType parameter) s fun found t =>
      Trails s t ∧ found.1.fallback = parameter.fallback := by
  refine (trails_peek settled false .parameter).bind fun colon t settled looked => ?_
  obtain ⟨-, trails, -⟩ := looked
  split
  · refine (trails_skipToken settled false .parameter).bind fun _ u settled skipped => ?_
    refine (trails_advance settled false .word).bind fun type v settled taken => ?_
    have trails := trails.trans (skipped.trans taken)
    split
    · exact .pure settled ⟨trails, rfl⟩
    · exact (trails_note settled _).bind fun _ w settled noted =>
        .pure settled ⟨trails.trans noted, rfl⟩
  · exact .pure settled ⟨trails, rfl⟩

/-! ### Recovering -/

lemma leaves_skipGroup (fuel : Nat) (closer : Option TokenKind) (settled : s.Settled) :
    Leaves (skipGroup fuel closer) s fun _ t => Trails s t := by
  induction fuel generalizing s closer with
  | zero => exact fun _ _ run => nomatch run
  | succ fuel ih =>
    rw [skipGroup]
    refine .after (trails_peek settled true .word) fun token t settled looked => ?_
    obtain ⟨-, trails, -⟩ := looked
    split
    · exact .pure trails
    refine .closesAwaited ?_
    split
    · exact .pure trails
    refine .after (trails_skipToken settled true .word) fun _ u settled skipped => ?_
    have trails := trails.trans skipped
    split
    · exact .pure trails
    split
    · refine (ih _ settled).bind fun _ v inner => ?_
      exact (ih _ inner.settled).mono fun _ _ rest => (trails.trans inner).trans rest
    · exact (ih _ settled).mono fun _ _ rest => trails.trans rest

lemma leaves_skipToSeparator (fuel : Nat) (closer : Option TokenKind) (settled : s.Settled) :
    Leaves (skipToSeparator fuel closer) s fun _ t => Trails s t := by
  induction fuel generalizing s with
  | zero => exact fun _ _ run => nomatch run
  | succ fuel ih =>
    rw [skipToSeparator]
    refine .after (trails_peek settled false .word) fun token t settled looked => ?_
    obtain ⟨-, trails, -⟩ := looked
    split
    · exact .pure trails
    refine .closesAwaited ?_
    split
    · exact .pure trails
    refine .after (trails_skipToken settled false .word) fun _ u settled skipped => ?_
    have trails := trails.trans skipped
    split
    · exact .pure trails
    split
    · refine (leaves_skipGroup fuel _ settled).bind fun _ v inner => ?_
      exact (ih inner.settled).mono fun _ _ rest => (trails.trans inner).trans rest
    · exact (ih settled).mono fun _ _ rest => trails.trans rest

/-- **Recovering goes along the trail**, and listens again in the end. -/
lemma leaves_recover (settled : s.Settled) (attends : s.recovering = false)
    (closer : Option TokenKind) : Leaves (recover closer) s fun _ t => Trails s t := by
  intro _ u run
  rw [recover_eq] at run
  have began : ParserState.Settled { s with recovering := true } := settled_of_same settled rfl rfl
  match skips : skipToSeparator (s.tokens.place.rest.length + 1) closer
      { s with recovering := true } with
  | .error _ t =>
    rw [skips] at run
    cases run
  | .ok _ t =>
    rw [skips] at run
    cases run
    have trails := leaves_skipToSeparator _ closer began _ t skips
    exact ⟨settled_of_same trails.settled rfl rfl, trails.visible, trails.policy, attends.symm,
      trails.trail, trails.reports⟩

/-- A report, and recovering from the mistake. -/
lemma leaves_giveUp (settled : s.Settled) (attends : s.recovering = false) (offset : Nat)
    (cause : Cause) (closer : Option TokenKind) :
    Leaves (do complain offset cause; recover closer) s fun _ t => Trails s t :=
  .after (trails_note settled _) fun _ _ settled noted =>
    (leaves_recover settled (noted.recovering.trans attends) closer).mono fun _ _ => noted.trans

lemma leaves_separator (settled : s.Settled) (attends : s.recovering = false) (mode : Mode)
    (closer : TokenKind) : Leaves (separator mode closer) s fun _ t => Trails s t := by
  refine .after (trails_peek settled false mode) fun token t settled looked => ?_
  obtain ⟨-, trails, -⟩ := looked
  split
  · exact .of_ends ((trails_skipToken settled false mode).mono fun _ _ => trails.trans)
  refine .closesAwaited ?_
  split
  · exact .pure trails
  · exact (leaves_giveUp settled (trails.recovering.trans attends) _ _ _).mono fun _ _ =>
      trails.trans

lemma leaves_parameterSeparator (settled : s.Settled) (attends : s.recovering = false)
    (closer : TokenKind) (parameter : Parameter) :
    Leaves (parameterSeparator closer parameter) s fun _ t => Trails s t := by
  refine .after (trails_peek settled false .parameter) fun token t settled looked => ?_
  obtain ⟨-, trails, -⟩ := looked
  split
  · exact .after (trails_skipToken settled false .parameter) fun _ _ _ skipped =>
      .pure (trails.trans skipped)
  refine .closesAwaited ?_
  split
  · exact .pure trails
  refine .after (trails_note settled _) fun _ u settled noted => ?_
  have trails := trails.trans noted
  exact (leaves_recover settled (trails.recovering.trans attends) (some closer)).bind
    fun _ _ recovered => .pure (trails.trans recovered)

/-! ### Making nodes -/

/-- **Steps that make nodes take no token.** -/
lemma trails_of_nodewise {step : Parser α} (nodewise : Nodewise step) (settled : s.Settled) :
    Leaves step s fun _ t => Trails s t := by
  intro value t run
  obtain ⟨change, rfl, -⟩ := nodewise.exists_change run
  have passes := passes_of_change change s
  exact ⟨⟨settled.handed, settled.coherent⟩, passes.visible, passes.policy, passes.recovering, .here,
    passes.reports⟩

end Parser

end TreeLang
