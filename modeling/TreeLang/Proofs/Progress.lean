import TreeLang.Proofs.Nesting
import TreeLang.Proofs.Rounds

/-!
# Reading makes progress

Every function that reads inside a statement goes on by calls that are below it: either a token was
taken before the call, or the call stands at the same place and is closer to a token.  What stands
in the way is that a round may take nothing.  An element need not consist of anything; the token
that blocks it is looked at once more by the separator, in the mode of the group, and by recovering,
as a word.  All of them must agree that it neither ends the group nor may be left where it is.

* `Agree.made`, `Agree.recovering` — steps that make nodes, and mistakes that are recovered from.
* `descends_elements`, `descends_properties`, … — the functions, one after the other.
* **`Reading.descends`** — every call descends.
* **`Reading.passes_within`** — every call comes to an end within the bound that it is given.
-/

namespace TreeLang.Parser

open TreeLang.Lexis

variable {α β : Type} {s t u : ParserState}

/-! ## Steps inside a round -/

namespace Agree

variable {step other : Parser α} {property : α → ParserState → Prop}
  {next next' : α → Parser β} {result : β → ParserState → Prop}

/-- A step that makes nodes stays where it is. -/
lemma made (nodewise : Nodewise step) (shallow : Shallow u.depth step) (passed : Passed s u) :
    Agree (BrokenOff s) step step u fun _ t => Passed s t ∧ t.here = u.here := by
  have outcome := shallow u rfl
  obtain ⟨found, change, hstep⟩ := nodewise u
  have hstep := hstep u (.refl u)
  refine ⟨rfl, ?_⟩
  rw [hstep] at outcome ⊢
  have settled : (change.apply u).Settled := ⟨passed.settled.handed, passed.settled.coherent⟩
  have passes := passes_of_change change u
  cases found with
  | ok value => exact ⟨passed.trans ⟨settled, passes, outcome⟩, rfl⟩
  | error fault =>
    exact BrokenOff.behind passed.passes ⟨outcome, settled, rfl, rfl, rfl, rfl, passes.onward,
      passes.reports⟩

/-- What is read while one more closer is awaited. -/
lemma awaiting {closer : TokenKind} (passed : Passed s u)
    (inside : Agree (BrokenOff (u.awaiting closer)) step other (u.awaiting closer) fun _ v =>
      Passed (u.awaiting closer) v)
    (behind : ∀ value v, Passed s v → v.here.rest.length ≤ u.here.rest.length →
      Agree (BrokenOff s) (next value) (next' value) v result) :
    Agree (BrokenOff s) (do await closer; let value ← step; settle; next value)
      (do await closer; let value ← other; settle; next' value) u result := by
  have inside : Agree (BrokenOff s) step other (u.awaiting closer) _ :=
    Agree.behind passed.passes (inside.rebase fun broken => ⟨broken.bounded, broken.settled,
      broken.visible, broken.exported, broken.imports, broken.policy, broken.onward, broken.reports⟩)
  refine inside.bind fun value v inside => ?_
  have closed : Passed u { v with awaited := v.awaited.tail } :=
    { settled := ⟨inside.settled.handed, inside.settled.coherent⟩
      passes :=
        { inside.passes with
          awaited := by rw [inside.passes.awaited]; rfl
          clean := inside.passes.clean
          heard := inside.passes.heard }
      depth := inside.depth }
  exact behind value { v with awaited := v.awaited.tail } (passed.trans closed)
    inside.passes.onward.le

/-- Whether the right operand of an accessor is next shows in the state. -/
lemma takeSuppressed {next next' : Bool → Parser β}
    (h : Agree (BrokenOff s) (next u.suppressed) (next' u.suppressed) (u.suppress false) result) :
    Agree (BrokenOff s) (Parser.takeSuppressed >>= next) (Parser.takeSuppressed >>= next') u result :=
  h

lemma setSuppressed {suppressed : Bool} {next next' : Unit → Parser β}
    (h : Agree (BrokenOff s) (next ()) (next' ()) (u.suppress suppressed) result) :
    Agree (BrokenOff s) (Parser.setSuppressed suppressed >>= next) (Parser.setSuppressed suppressed >>= next') u
      result :=
  h

/-- A mistake that is recovered from. -/
lemma recovering {offset : Nat} {cause : Cause} {closer : Option TokenKind} {next next' : Parser β}
    (passed : Passed s u) (attends : u.recovering = false)
    (h : ∀ t, Passed s t → Moves u t →
      (¬ Stopping u closer (u.reads false .word).token.kind →
        t.here.rest.length < u.here.rest.length) → Agree (BrokenOff s) next next' t result) :
    Agree (BrokenOff s) (do complain offset cause; recover closer; next)
      (do complain offset cause; recover closer; next') u result := by
  refine after (ends_complain passed.settled offset cause) fun _ t settled noted => ?_
  obtain ⟨moves, stays, told⟩ := noted
  have same : t.reads false .word = u.reads false .word := by
    rw [ParserState.reads, moves.lexis, stays]
  refine after (ends_recover closer settled (moves.recovering.trans attends) (told attends))
    fun _ v settled recovered => ?_
  have moved := moves.trans recovered.1
  refine h v (passed.moved settled moved) moved fun going => ?_
  rw [← stays]
  refine recovered.2 ?_
  rwa [same, Stopping, moves.awaited]

end Agree

/-! ## Steps of statements -/

/-- Giving a statement up takes a token, unless none may be taken. -/
lemma ends_giveUp_past (settled : s.Settled) (attends : s.recovering = false) (offset : Nat)
    (cause : Cause) : Ends (giveUp offset cause) s fun _ t => Moves s t ∧
      (¬ Stopping s none (s.reads false .word).token.kind →
        t.here.rest.length < s.here.rest.length) := by
  refine (ends_complain settled offset cause).bind fun _ t settled noted => ?_
  obtain ⟨moves, stays, told⟩ := noted
  have same : t.reads false .word = s.reads false .word := by
    rw [ParserState.reads, moves.lexis, stays]
  refine (ends_recover none settled (moves.recovering.trans attends) (told attends)).mono
    fun _ u recovered => ⟨moves.trans recovered.1, fun going => ?_⟩
  rw [← stays]
  refine recovered.2 ?_
  rwa [same, Stopping, moves.awaited]

/-- Giving a statement up. -/
lemma ends_giveUp (settled : s.Settled) (attends : s.recovering = false) (offset : Nat)
    (cause : Cause) : Ends (giveUp offset cause) s fun _ t => Moves s t :=
  (ends_giveUp_past settled attends offset cause).mono fun _ _ left => left.1

lemma ends_parameterType (settled : s.Settled) (parameter : Parameter) :
    Ends (parameterType parameter) s fun _ t => Moves s t := by
  refine (ends_peek settled false .parameter).bind fun token t settled looked => ?_
  obtain ⟨-, moves, -⟩ := looked
  split
  · refine (ends_skipToken settled false .parameter).bind fun _ u settled skipped => ?_
    have moves := moves.trans skipped.1
    refine (ends_advance settled false .word).bind fun type v settled taken => ?_
    have moves := moves.trans taken.2.1
    split
    · exact .pure settled moves
    · exact (ends_complain settled _ _).bind fun _ _ settled noted =>
        .pure settled (moves.trans noted.1)
  · exact .pure settled moves

lemma ends_parameterSeparator (settled : s.Settled) (attends : s.recovering = false)
    (closer : TokenKind) (parameter : Parameter) :
    Ends (parameterSeparator closer parameter) s fun _ t => Moves s t := by
  refine (ends_peek settled false .parameter).bind fun token t settled looked => ?_
  obtain ⟨-, moves, -⟩ := looked
  split
  · exact (ends_skipToken settled false .parameter).bind fun _ _ settled skipped =>
      .pure settled (moves.trans skipped.1)
  refine .closesAwaited ?_
  split
  · exact .pure settled moves
  · have attends := moves.recovering.trans attends
    refine (ends_complain settled _ _).bind fun _ u settled noted => ?_
    exact (ends_recover _ settled (noted.1.recovering.trans attends) (noted.2.2 attends)).bind
      fun _ _ settled recovered => .pure settled ((moves.trans noted.1).trans recovered.1)

lemma ends_clausePriority (settled : s.Settled) (attends : s.recovering = false) :
    Ends clausePriority s fun _ t => Moves s t := by
  refine (ends_peek settled false .word).bind fun token t settled looked => ?_
  obtain ⟨-, moves, -⟩ := looked
  split
  · exact .pure settled moves
  refine (ends_skipToken settled false .word).bind fun _ u settled skipped => ?_
  have moves := moves.trans skipped.1
  refine (ends_advance settled false .word).bind fun number v settled taken => ?_
  have moves := moves.trans taken.2.1
  have givesUp (offset : Nat) (cause : Cause) {w : ParserState} (settled : w.Settled)
      (moves : Moves s w) : Ends (do giveUp offset cause; return none : Parser (Option (Option Priority)))
        w fun _ t => Moves s t :=
    (ends_giveUp settled (moves.recovering.trans attends) offset cause).bind fun _ _ settled left =>
      .pure settled (moves.trans left)
  split
  · refine (ends_advance settled false .word).bind fun close w settled taken => ?_
    have moves := moves.trans taken.2.1
    split
    · exact .pure settled moves
    · exact givesUp _ _ settled moves
  · exact givesUp _ _ settled moves

/-- What is said about the right operand of an accessor leaves everything else. -/
lemma Passed.suppress (passed : Passed s t) (suppressed : Bool) : Passed s (t.suppress suppressed) :=
  passed.trans ⟨⟨passed.settled.handed, passed.settled.coherent⟩,
    ⟨rfl, rfl, rfl, rfl, rfl, rfl, .refl _, List.prefix_refl _, id, id⟩, rfl⟩

namespace Reading

variable {options : CompileOptions} {calls calls' : ∀ {β : Type}, Reading β → Parser β}

/-- Behind something that was passed another call may be made. -/
lemma May.behind {call : Reading α} (may : call.May s) (passed : Passed s t) (next : Reading β)
    (attends : call.skips = false ∨ next.skips = true) (fits : next.Fits t) : next.May t where
  settled := passed.settled
  shallow := passed.depth ▸ may.shallow
  attends := fun reads => by
    rcases attends with attends | skips
    · exact passed.passes.recovering.trans (may.attends attends)
    · rw [reads] at skips
      cases skips
  fits := fits

/-- A call behind a token. -/
lemma AgreeBelow.call {call : Reading α} (below : AgreeBelow calls calls' call s) (may : call.May s)
    (passed : Passed s t) (shorter : t.here.rest.length < s.here.rest.length) (next : Reading β)
    (attends : call.skips = false ∨ next.skips = true) (fits : next.Fits t) :
    Agree (BrokenOff s) (calls next) (calls' next) t fun _ u =>
      Passed s u ∧ u.here.rest.length < s.here.rest.length :=
  ((below next t (may.behind passed next attends fits) ⟨passed.passes.lexis, .inl shorter⟩).behind
    passed.passes).mono fun _ _ read =>
      ⟨passed.trans read, Nat.lt_of_le_of_lt read.passes.onward.le shorter⟩

/-- A call at the same place, closer to a token. -/
lemma AgreeBelow.call_here {call : Reading α} (below : AgreeBelow calls calls' call s)
    (may : call.May s) (passed : Passed s t) (stays : t.here = s.here) (next : Reading β)
    (fewer : next.rank t < call.rank s) (attends : call.skips = false ∨ next.skips = true)
    (fits : next.Fits t) :
    Agree (BrokenOff s) (calls next) (calls' next) t fun _ u => Passed s u :=
  ((below next t (may.behind passed next attends fits) ⟨passed.passes.lexis, .inr ⟨stays, fewer⟩⟩).behind
    passed.passes).mono fun _ _ read => passed.trans read

/-- A call at the same place or further on, closer to a token. -/
lemma AgreeBelow.call_onward {call : Reading α} (below : AgreeBelow calls calls' call s)
    (may : call.May s) (passed : Passed s t) (next : Reading β)
    (fewer : next.rank t < call.rank s) (attends : call.skips = false ∨ next.skips = true)
    (fits : next.Fits t) :
    Agree (BrokenOff s) (calls next) (calls' next) t fun _ u => Passed s u := by
  rcases passed.passes.onward with stays | shorter
  · exact below.call_here may passed stays next fewer attends fits
  · exact (below.call may passed shorter next attends fits).mono fun _ _ read => read.1

/-! ## Skipping -/

lemma descends_skipGroup (closer : Option TokenKind) (may : (skipGroup closer).May s) :
    (skipGroup closer).Descends options s := by
  intro calls calls' below
  simp only [round, skipGroupRound]
  refine .after (ends_peek may.settled true .word) fun token t settled looked => ?_
  obtain ⟨rfl, moves, stays, -⟩ := looked
  have passed := (Passed.refl may.settled).moved settled moves
  have same : t.reads true .word = s.reads true .word := by
    rw [ParserState.reads, moves.lexis, stays]
  by_cases done : (s.reads true .word).token.kind = .endOfInput
  · rw [if_pos done, if_pos done]
    exact .pure passed
  rw [if_neg done, if_neg done]
  have shorter := s.reads_shortens done
  refine .closesAwaited ?_
  split
  · exact .pure passed
  refine .after (ends_skipToken settled true .word) fun _ u settled skipped => ?_
  obtain ⟨skipped, place, -⟩ := skipped
  have passed := passed.moved settled skipped
  rw [same] at place
  rw [← place] at shorter
  split
  · exact .pure passed
  split
  · refine (below.call may passed shorter (skipGroup (s.reads true .word).token.kind.closer?)
      (.inr rfl) trivial).bind fun _ v inner => ?_
    exact (below.call may inner.1 inner.2 (skipGroup closer) (.inr rfl) trivial).mono
      fun _ _ rest => rest.1
  · exact (below.call may passed shorter (skipGroup closer) (.inr rfl) trivial).mono
      fun _ _ rest => rest.1

lemma descends_skipToSeparator (closer : Option TokenKind) (may : (skipToSeparator closer).May s) :
    (skipToSeparator closer).Descends options s := by
  intro calls calls' below
  simp only [round, skipToSeparatorRound]
  refine .after (ends_peek may.settled false .word) fun token t settled looked => ?_
  obtain ⟨rfl, moves, stays, -⟩ := looked
  have passed := (Passed.refl may.settled).moved settled moves
  have same : t.reads false .word = s.reads false .word := by
    rw [ParserState.reads, moves.lexis, stays]
  by_cases done : (s.reads false .word).token.kind = .endOfInput
  · rw [if_pos done, if_pos done]
    exact .pure passed
  rw [if_neg done, if_neg done]
  have shorter := s.reads_shortens done
  refine .closesAwaited ?_
  split
  · exact .pure passed
  refine .after (ends_skipToken settled false .word) fun _ u settled skipped => ?_
  obtain ⟨skipped, place, -⟩ := skipped
  have passed := passed.moved settled skipped
  rw [same] at place
  rw [← place] at shorter
  split
  · exact .pure passed
  split
  · refine (below.call may passed shorter (skipGroup (s.reads false .word).token.kind.closer?)
      (.inr rfl) trivial).bind fun _ v inner => ?_
    exact (below.call may inner.1 inner.2 (skipToSeparator closer) (.inr rfl) trivial).mono
      fun _ _ rest => rest.1
  · exact (below.call may passed shorter (skipToSeparator closer) (.inr rfl) trivial).mono
      fun _ _ rest => rest.1

/-! ## Values -/

/-- An atom: the group may stand at the same place. -/
lemma agree_atomRound {call : Reading Node} (below : AgreeBelow calls calls' call s)
    (may : call.May s) (reads : call.skips = false) (ranked : 0 < call.rank s)
    (nameMode mode : Mode) (missing : Token → Cause) :
    Agree (BrokenOff s) (atomRound calls nameMode mode missing) (atomRound calls' nameMode mode missing) s
      fun _ t => Passed s t := by
  refine .takeSuppressed ?_
  have passed := (Passed.refl may.settled).suppress false
  refine (below.call_here may passed rfl (group nameMode !s.suppressed) ranked (.inl reads)
    trivial).bind fun found t passed => ?_
  cases found with
  | some node => exact .pure passed
  | none =>
    refine .after (ends_peek passed.settled true mode) fun token u settled looked => ?_
    obtain ⟨rfl, moves, stays, -⟩ := looked
    have passed := passed.moved settled moves
    split
    · refine .after (ends_skipToken settled true mode) fun _ v settled skipped => ?_
      have passed := passed.moved settled skipped.1
      exact (Agree.made (nodewise_primitive _ _)
        (shallow_primitive (passed.depth ▸ may.shallow) _ _) passed).mono fun _ _ made => made.1
    · refine .after (ends_complain settled _ _) fun _ v settled noted => ?_
      exact (Agree.made (nodewise_placeholderAt _) (shallow_placeholderAt _)
        (passed.moved settled noted.1)).mono fun _ _ made => made.1

lemma shallow_reference {depth : Nat} (head : Head) : Shallow depth head.reference := by
  rw [Head.reference]
  split
  · split
    · exact shallow_parameterIndex? _
    · exact .pure _
  · exact .pure _

/-- Where an operator was found, a token was taken. -/
lemma shorter_of_operatorAt? {ops : PriorityGroup} {skipBreaks : Bool}
    {found : Option OperatorDefinition} {op : OperatorDefinition}
    (is : s.lexis.operatorAt? ops skipBreaks s.here = found.map (·, t.here))
    (some : found = some op) : t.here.rest.length < s.here.rest.length := by
  rw [some] at is
  exact operatorAt?_shortens is

lemma isCloser_closer? (kind : TokenKind) : (kind.closer?.getD .rParen).isCloser := by
  cases kind <;> rfl

/-- The contents of a group behind its opener, while its closer is awaited. -/
lemma agree_contentRound {call : Reading α} (below : AgreeBelow calls calls' call s)
    (may : call.May s) (reads : call.skips = false) (passed : Passed s t)
    (shorter : t.here.rest.length < s.here.rest.length) (opener : TokenKind) (start : Nat) :
    let u := t.awaiting (opener.closer?.getD .rParen)
    Agree (BrokenOff u) (contentRound calls opener start) (contentRound calls' opener start) u
      fun _ v => Passed u v := by
  intro u
  have inside {β : Type} (next : Reading β) (fits : next.Fits u) :
      Agree (BrokenOff u) (calls next) (calls' next) u fun _ v => Passed u v :=
    below next u ⟨⟨passed.settled.handed, passed.settled.coherent⟩, passed.depth ▸ may.shallow,
      fun _ => passed.passes.recovering.trans (may.attends reads), fits⟩
      ⟨passed.passes.lexis, .inl shorter⟩
  have closes := isCloser_closer? opener
  rw [contentRound, contentRound]
  set closer := opener.closer?.getD .rParen
  split
  · exact (inside (properties start []) trivial).bind fun _ _ passed => .pure passed
  · split
    · exact (inside (elements start .value closer []) ⟨.inl rfl, closes⟩).bind
        fun _ _ passed => .pure passed
    · exact (inside (elements start .operation closer []) ⟨.inr rfl, closes⟩).bind
        fun _ _ passed => .pure passed

lemma descends_group (nameMode : Mode) (expands : Bool) (may : (group nameMode expands).May s) :
    (group nameMode expands).Descends options s := by
  intro calls calls' below
  simp only [round, groupRound]
  refine .after (ends_groupHead? may.settled nameMode) fun found t settled looked => ?_
  obtain ⟨moves, head, -, -⟩ := looked
  have passed := (Passed.refl may.settled).moved settled moves
  rcases found with _ | ⟨name, opener⟩
  · exact .pure passed
  · have shorter : t.here.rest.length < s.here.rest.length := headAt?_shortens head
    refine (Agree.made (nodewise_reference ⟨name, opener, expands⟩)
      (shallow_reference _) passed).bind fun reference u named => ?_
    obtain ⟨passed, stays⟩ := named
    rw [← stays] at shorter
    refine .awaiting passed (agree_contentRound below may rfl passed shorter opener.kind _)
      fun content v passed _ => ?_
    exact (Agree.made (nodewise_completeGroup _ _ _ _ _ _)
      (shallow_completeGroup (passed.depth ▸ may.shallow) _ _ _ _ _ _) passed).bind
        fun _ _ made => .pure made.1

/-! ## Elements and properties -/

lemma agree_elementRound {call : Reading α} (below : AgreeBelow calls calls' call s)
    (may : call.May s) (reads : call.skips = false) (passed : Passed s t)
    (ranked : s.visible.operators.priorityGroups.length + 3 < call.rank s) (mode : Mode) :
    Agree (BrokenOff s) (elementRound calls mode) (elementRound calls' mode) t fun _ u => Passed s u := by
  rw [elementRound, elementRound]
  have visible := passed.passes.visible
  split
  · exact below.call_onward may passed expression (by rw [rank, visible]; exact ranked)
      (.inl reads) trivial
  · exact below.call_onward may passed value (by rw [rank]; omega) (.inl reads) trivial

lemma descends_elements (start : Nat) (mode : Mode) (closer : TokenKind) (known : List Node)
    (may : (elements start mode closer known).May s) :
    (elements start mode closer known).Descends options s := by
  obtain ⟨reads, closes⟩ := may.fits
  intro calls calls' below
  simp only [round, elementsRound]
  refine .after (ends_peek may.settled true mode) fun token t settled looked => ?_
  obtain ⟨rfl, moves, stays, -⟩ := looked
  have passed := (Passed.refl may.settled).moved settled moves
  have same : t.reads true mode = s.reads true mode := by
    rw [ParserState.reads, moves.lexis, stays]
  have again {u : ParserState} (passed : Passed s u)
      (shorter : u.here.rest.length < s.here.rest.length) (known : List Node) :
      Agree (BrokenOff s) (calls (elements start mode closer known)) (calls' (elements start mode closer known))
        u fun _ v => Passed s v :=
    (below.call may passed shorter (elements start mode closer known) (.inl rfl)
      ⟨reads, closes⟩).mono fun _ _ rest => rest.1
  by_cases closed : (s.reads true mode).token.kind = closer
  · rw [if_pos closed, if_pos closed]
    exact .after (ends_skipToken settled true mode) fun _ u settled skipped =>
      .pure (passed.moved settled skipped.1)
  rw [if_neg closed, if_neg closed]
  refine .closesAwaited ?_
  split
  · exact .after (ends_complain settled _ _) fun _ u settled noted =>
      .pure (passed.moved settled noted.1)
  rename_i ends
  have going : ¬ Stopping t (some closer) (t.reads true mode).token.kind := by
    rw [same]
    exact not_stopping_of_open closed ends
  have more : (s.reads true mode).token.kind ≠ .endOfInput := fun h => ends (by simp [h])
  split
  · refine .after (ends_skipToken settled true mode) fun _ u settled skipped => ?_
    obtain ⟨skipped, place, -⟩ := skipped
    have passed := passed.moved settled skipped
    rw [same] at place
    refine .after (ends_complain settled _ _) fun _ v settled noted => ?_
    obtain ⟨noted, here, -⟩ := noted
    refine again (passed.moved settled noted) ?_ known
    rw [here, place]
    exact s.reads_shortens more
  · refine (agree_elementRound below may rfl passed (by rw [rank]; omega) mode).bind
      fun node u element => ?_
    refine .after (ends_separator element.settled
      (element.passes.recovering.trans (may.attends rfl)) closes) fun _ v settled separated => ?_
    obtain ⟨separated, -, onward⟩ := separated
    refine again (element.moved settled separated) ?_ _
    -- Where the element took nothing, the separator meets the token that did not end the group.
    rcases element.passes.onward with here | shorter
    · rw [← here]
      have reread : u.reads true mode = t.reads true mode := by
        rw [ParserState.reads, element.passes.lexis, here, same]
      refine onward (by rcases reads with rfl | rfl <;> decide) ?_
      rwa [reread, Stopping, element.passes.awaited, ← passed.passes.awaited]
    · exact Nat.lt_of_le_of_lt separated.onward.le shorter

/-- Where a key does not end the object, recovering takes a token. -/
lemma descends_properties (start : Nat) (known : List (String × Node))
    (may : (properties start known).May s) : (properties start known).Descends options s := by
  intro calls calls' below
  simp only [round, propertiesRound]
  refine .after (ends_peek may.settled true .key) fun token t settled looked => ?_
  obtain ⟨rfl, moves, stays, -⟩ := looked
  have passed := (Passed.refl may.settled).moved settled moves
  have attends := passed.passes.recovering.trans (may.attends rfl)
  have same : t.reads true .key = s.reads true .key := by
    rw [ParserState.reads, moves.lexis, stays]
  have again {u : ParserState} (passed : Passed s u)
      (shorter : u.here.rest.length < s.here.rest.length) (known : List (String × Node)) :
      Agree (BrokenOff s) (calls (properties start known)) (calls' (properties start known)) u
        fun _ v => Passed s v :=
    (below.call may passed shorter (properties start known) (.inl rfl) trivial).mono
      fun _ _ rest => rest.1
  by_cases closed : (s.reads true .key).token.kind = .rBrace
  · rw [if_pos closed, if_pos closed]
    exact .after (ends_skipToken settled true .key) fun _ u settled skipped =>
      .pure (passed.moved settled skipped.1)
  rw [if_neg closed, if_neg closed]
  refine .closesAwaited ?_
  split
  · exact .after (ends_complain settled _ _) fun _ u settled noted =>
      .pure (passed.moved settled noted.1)
  rename_i ends
  have more : (s.reads true .key).token.kind ≠ .endOfInput := fun h => ends (by simp [h])
  split
  · refine .after (ends_skipToken settled true .key) fun _ u settled skipped => ?_
    obtain ⟨skipped, place, -⟩ := skipped
    have passed := passed.moved settled skipped
    rw [same] at place
    refine .after (ends_complain settled _ _) fun _ v settled noted => ?_
    obtain ⟨noted, here, -⟩ := noted
    refine again (passed.moved settled noted) ?_ known
    rw [here, place]
    exact s.reads_shortens more
  split
  · refine .after (ends_skipToken settled true .key) fun _ u settled skipped => ?_
    obtain ⟨skipped, place, -⟩ := skipped
    have passed := passed.moved settled skipped
    rw [same] at place
    have shorter : u.here.rest.length < s.here.rest.length := by
      rw [place]
      exact s.reads_shortens more
    refine .after (ends_peek settled false .key) fun colon v settled looked => ?_
    obtain ⟨-, looked, stayed, -⟩ := looked
    have passed := passed.moved settled looked
    rw [← stayed] at shorter
    split
    · exact .recovering passed (passed.passes.recovering.trans (may.attends rfl))
        fun w passed moves _ => again passed (Nat.lt_of_le_of_lt moves.onward.le shorter) known
    · refine .after (ends_skipToken settled false .key) fun _ w settled skipped => ?_
      have passed := passed.moved settled skipped.1
      refine (below.call may passed (Nat.lt_of_le_of_lt skipped.1.onward.le shorter) value
        (.inl rfl) trivial).bind fun node x read => ?_
      obtain ⟨passed, shorter⟩ := read
      refine (Agree.made (nodewise_addProperty _ _ _ _) (shallow_addProperty _ _ _ _) passed).bind
        fun extended y added => ?_
      obtain ⟨passed, here⟩ := added
      refine .after (ends_separator passed.settled
        (passed.passes.recovering.trans (may.attends rfl)) rfl) fun _ z settled separated => ?_
      rw [← here] at shorter
      exact again (passed.moved settled separated.1)
        (Nat.lt_of_le_of_lt separated.1.onward.le shorter) extended
  · rename_i text
    have going : ¬ Stopping t (some .rBrace) (t.reads true .key).token.kind := by
      rw [same]
      exact not_stopping_of_open closed ends
    refine .recovering passed attends fun u passed _ onward => again passed ?_ known
    rw [← stays]
    exact onward (not_stopping rfl going fun _ => by rw [same]; simpa using text)

/-! ## Expressions -/

lemma descends_expression (may : expression.May s) : expression.Descends options s := by
  intro calls calls' below
  exact .get (below.call_here may (.refl may.settled) rfl (level s.visible.operators.priorityGroups)
    (by simp only [rank]; omega) (.inl rfl) (affords_priorityGroups s.lexis))

lemma descends_level (groups : List PriorityGroup) (may : (level groups).May s) :
    (level groups).Descends options s := by
  intro calls calls' below
  have passed := Passed.refl may.settled
  match groups with
  | [] => exact below.call_here may passed rfl operand (by simp [rank]) (.inl rfl) trivial
  | ops :: tighter =>
    have affords : s.lexis.Affords (ops :: tighter) := may.fits
    have inner {t : ParserState} (passed : Passed s t) (stays : t.here = s.here) :
        Agree (BrokenOff s) (calls (level tighter)) (calls' (level tighter)) t fun _ u => Passed s u :=
      below.call_here may passed stays (level tighter) (by simp [rank]) (.inl rfl)
        (by rw [Fits, passed.passes.lexis]; exact affords.tail)
    simp only [round, levelRound]
    cases ops.fixity with
    | binary =>
      refine (inner passed rfl).bind fun left t passed => ?_
      exact below.call_onward may passed (binary ops tighter left) (by simp [rank]) (.inl rfl)
        (by rw [Fits, passed.passes.lexis]; exact affords)
    | postfixed =>
      refine (inner passed rfl).bind fun node t passed => ?_
      exact below.call_onward may passed (postfixes ops node) (by simp [rank]) (.inl rfl) trivial
    | prefixed =>
      have looks : Ends position s fun _ t => Moves s t ∧ t.here = s.here := by
        refine ⟨_, s, rfl, may.settled, .refl s, rfl⟩
      refine .after looks fun start t settled looked => ?_
      obtain ⟨moves, stays⟩ := looked
      have passed := passed.moved settled moves
      refine .after (ends_operatorOf? settled ops true) fun found u settled looked => ?_
      obtain ⟨moves, operator, absent, -⟩ := looked
      have passed := passed.moved settled moves
      cases found with
      | none => exact inner passed ((absent rfl).trans stays)
      | some op =>
        have shorter := shorter_of_operatorAt? operator rfl
        rw [stays] at shorter
        refine (below.call may passed shorter (level (ops :: tighter)) (.inl rfl)
          (by rw [Fits, passed.passes.lexis]; exact affords)).bind fun node v read => ?_
        obtain ⟨passed, -⟩ := read
        exact (Agree.made (nodewise_operatorNode _ _ _)
          (shallow_operatorNode (passed.depth ▸ may.shallow) _ _ _) passed).mono
            fun _ _ made => made.1

lemma descends_binary (ops : PriorityGroup) (tighter : List PriorityGroup) (left : Node)
    (may : (binary ops tighter left).May s) : (binary ops tighter left).Descends options s := by
  intro calls calls' below
  have affords : s.lexis.Affords (ops :: tighter) := may.fits
  simp only [round, binaryRound]
  refine .after (ends_operatorOf? may.settled ops false) fun found t settled looked => ?_
  obtain ⟨moves, operator, -, -⟩ := looked
  have passed := (Passed.refl may.settled).moved settled moves
  cases found with
  | none => exact .pure passed
  | some op =>
    have shorter := shorter_of_operatorAt? operator rfl
    have makes {u : ParserState} (passed : Passed s u) (right : Node) :
        Agree (BrokenOff s) (binaryNode op left right) (binaryNode op left right) u
          fun _ v => Passed s v ∧ v.here = u.here :=
      .made (nodewise_binaryNode _ _ _) (shallow_binaryNode (passed.depth ▸ may.shallow) _ _ _)
        passed
    dsimp only
    split
    · refine (below.call may passed shorter (level (ops :: tighter)) (.inl rfl)
        (by rw [Fits, passed.passes.lexis]; exact affords)).bind fun right u read => ?_
      exact (makes read.1 right).mono fun _ _ made => made.1
    · refine .setSuppressed ?_
      refine (below.call may (passed.suppress op.accessor) shorter (level tighter) (.inl rfl)
        (by rw [Fits, (passed.suppress _).passes.lexis]; exact affords.tail)).bind
          fun right u read => .setSuppressed ?_
      obtain ⟨passed, shorter⟩ := read
      refine (makes (passed.suppress false) right).bind fun node v made => ?_
      obtain ⟨passed, here⟩ := made
      have shorter : v.here.rest.length < s.here.rest.length := by
        rw [here]
        exact shorter
      exact (below.call may passed shorter (binary ops tighter node) (.inl rfl)
        (by rw [Fits, passed.passes.lexis]; exact affords)).mono fun _ _ rest => rest.1

lemma descends_postfixes (ops : PriorityGroup) (inner : Node) (may : (postfixes ops inner).May s) :
    (postfixes ops inner).Descends options s := by
  intro calls calls' below
  simp only [round, postfixesRound]
  refine .after (ends_operatorOf? may.settled ops false) fun found t settled looked => ?_
  obtain ⟨moves, operator, -, -⟩ := looked
  have passed := (Passed.refl may.settled).moved settled moves
  cases found with
  | none => exact .pure passed
  | some op =>
    have shorter := shorter_of_operatorAt? operator rfl
    refine .get ((Agree.made (nodewise_operatorNode _ _ _)
      (shallow_operatorNode (passed.depth ▸ may.shallow) _ _ _) passed).bind fun node u made => ?_)
    obtain ⟨passed, here⟩ := made
    rw [← here] at shorter
    exact (below.call may passed shorter (postfixes ops node) (.inl rfl) trivial).mono
      fun _ _ rest => rest.1

/-! ## Parameters and clauses -/

lemma agree_fallbackRound {call : Reading α} (below : AgreeBelow calls calls' call s)
    (may : call.May s) (reads : call.skips = false) (passed : Passed s t)
    (shorter : t.here.rest.length < s.here.rest.length) (parameter : Parameter) :
    Agree (BrokenOff s) (fallbackRound calls parameter) (fallbackRound calls' parameter) t
      fun _ u => Passed s u ∧ u.here.rest.length < s.here.rest.length := by
  refine .after (ends_peek passed.settled false .parameter) fun token u settled looked => ?_
  obtain ⟨-, moves, stays, -⟩ := looked
  have passed := passed.moved settled moves
  rw [← stays] at shorter
  split
  · refine .after (ends_skipToken settled false .parameter) fun _ v settled skipped => ?_
    have passed := passed.moved settled skipped.1
    exact (below.call may passed (Nat.lt_of_le_of_lt skipped.1.onward.le shorter) value (.inl reads)
      trivial).bind fun _ _ read => .pure read
  · exact .pure ⟨passed, shorter⟩

lemma descends_parameters (closer : TokenKind) (known : List Parameter) (complete : Bool)
    (may : (parameters closer known complete).May s) :
    (parameters closer known complete).Descends options s := by
  intro calls calls' below
  have closes : closer.isCloser := may.fits
  simp only [round, parametersRound]
  refine .after (ends_peek may.settled true .parameter) fun token t settled looked => ?_
  obtain ⟨rfl, moves, stays, -⟩ := looked
  have passed := (Passed.refl may.settled).moved settled moves
  have attends := passed.passes.recovering.trans (may.attends rfl)
  have same : t.reads true .parameter = s.reads true .parameter := by
    rw [ParserState.reads, moves.lexis, stays]
  have again {u : ParserState} (passed : Passed s u)
      (shorter : u.here.rest.length < s.here.rest.length) (known : List Parameter)
      (complete : Bool) :
      Agree (BrokenOff s) (calls (parameters closer known complete)) (calls' (parameters closer known complete))
        u fun _ v => Passed s v :=
    (below.call may passed shorter (parameters closer known complete) (.inl rfl) closes).mono
      fun _ _ rest => rest.1
  by_cases closed : (s.reads true .parameter).token.kind = closer
  · rw [if_pos closed, if_pos closed]
    exact .after (ends_skipToken settled true .parameter) fun _ u settled skipped =>
      .pure (passed.moved settled skipped.1)
  rw [if_neg closed, if_neg closed]
  refine .closesAwaited ?_
  split
  · exact .after (ends_complain settled _ _) fun _ u settled noted =>
      .pure (passed.moved settled noted.1)
  rename_i ends
  have more : (s.reads true .parameter).token.kind ≠ .endOfInput := fun h => ends (by simp [h])
  split
  · refine .after (ends_skipToken settled true .parameter) fun _ u settled skipped => ?_
    obtain ⟨skipped, place, -⟩ := skipped
    have passed := passed.moved settled skipped
    rw [same] at place
    refine .after (ends_complain settled _ _) fun _ v settled noted => ?_
    obtain ⟨noted, here, -⟩ := noted
    refine again (passed.moved settled noted) ?_ known complete
    rw [here, place]
    exact s.reads_shortens more
  split
  · refine .after (ends_skipToken settled true .parameter) fun _ u settled skipped => ?_
    obtain ⟨skipped, place, -⟩ := skipped
    have passed := passed.moved settled skipped
    rw [same] at place
    have shorter : u.here.rest.length < s.here.rest.length := by
      rw [place]
      exact s.reads_shortens more
    refine .after (ends_parameterType settled _) fun typed v settled moves => ?_
    have passed := passed.moved settled moves
    refine (agree_fallbackRound below may rfl passed (Nat.lt_of_le_of_lt moves.onward.le shorter)
      typed.1).bind fun parameter w read => ?_
    obtain ⟨passed, shorter⟩ := read
    refine .after (ends_parameterSeparator passed.settled
      (passed.passes.recovering.trans (may.attends rfl)) closer parameter)
      fun separated x settled moves => ?_
    exact again (passed.moved settled moves) (Nat.lt_of_le_of_lt moves.onward.le shorter) _ _
  · have going : ¬ Stopping t (some closer) (t.reads true .parameter).token.kind := by
      rw [same]
      exact not_stopping_of_open closed ends
    refine .recovering passed attends fun u passed _ onward => again passed ?_ known false
    rw [← stays]
    exact onward (not_stopping closes going (by rintro ⟨⟩))

lemma descends_clauses (known : List Clause) (may : (clauses known).May s) :
    (clauses known).Descends options s := by
  intro calls calls' below
  simp only [round, clausesRound]
  refine .after (ends_advance may.settled false .word) fun word t settled taken => ?_
  obtain ⟨rfl, moves, place, -⟩ := taken
  have passed := (Passed.refl may.settled).moved settled moves
  have attends := passed.passes.recovering.trans (may.attends rfl)
  split
  · exact .after (ends_giveUp settled attends _ _) fun _ u settled moves =>
      .pure (passed.moved settled moves)
  rename_i literal
  have shorter : t.here.rest.length < s.here.rest.length := by
    rw [place]
    exact s.reads_shortens fun h => literal (by rw [h]; decide)
  refine .after (ends_clausePriority settled attends) fun priority u settled moves => ?_
  have passed := passed.moved settled moves
  have shorter := Nat.lt_of_le_of_lt moves.onward.le shorter
  cases priority with
  | none => exact .pure passed
  | some priority =>
    refine .after (ends_peek settled false .word) fun next v settled looked => ?_
    obtain ⟨-, moves, stays, -⟩ := looked
    have passed := passed.moved settled moves
    split
    · refine .after (ends_skipToken settled false .word) fun _ w settled skipped => ?_
      have moves := moves.trans skipped.1
      exact (below.call may (passed.moved settled skipped.1)
        (Nat.lt_of_le_of_lt moves.onward.le shorter) (clauses _) (.inl rfl) (by trivial)).mono
          fun _ _ rest => rest.1
    · exact .pure passed

/-! ## Every call -/

/-- **Every call descends**: what a function that reads goes on with stands further on in the text,
or at the same place and closer to a token. -/
theorem descends (options : CompileOptions) (call : Reading α) (may : call.May s) :
    call.Descends options s := by
  cases call with
  | value => exact fun _ _ below => agree_atomRound below may rfl Nat.one_pos _ _ _
  | operand => exact fun _ _ below => agree_atomRound below may rfl Nat.one_pos _ _ _
  | group nameMode expands => exact descends_group nameMode expands may
  | properties start known => exact descends_properties start known may
  | elements start mode closer known => exact descends_elements start mode closer known may
  | expression => exact descends_expression may
  | level groups => exact descends_level groups may
  | binary ops tighter left => exact descends_binary ops tighter left may
  | postfixes ops inner => exact descends_postfixes ops inner may
  | parameters closer known complete => exact descends_parameters closer known complete may
  | clauses known => exact descends_clauses known may
  | skipGroup closer => exact descends_skipGroup closer may
  | skipToSeparator closer => exact descends_skipToSeparator closer may

/-- **Every call comes to an end within its bound**, or a fault breaks it off that no bound is the
reason of; and a greater bound makes no difference. -/
theorem passes_within (options : CompileOptions) (call : Reading α) (may : call.May s)
    {fuel more : Nat} (enough : call.reach s < fuel) (enough' : call.reach s < more) :
    Agree (BrokenOff s) (call.within options fuel) (call.within options more) s fun _ t => Passed s t :=
  agree_within (fun call _ => descends options call) may enough enough'

end Reading

end TreeLang.Parser
