import TreeLang.Proofs.Blindness
import TreeLang.Proofs.Nesting

/-!
# Expansion, call by call

A node is offered to the macros in force; a macro that answers is used, unless that is nested too
deeply; and the invocations that wait in what it makes are expanded, each by offering a node again.  So
three functions call each other, on trees that earlier calls made, and any number of macros may come to
be used inside the results of each other.

The functions that run are handed a number of levels.  This file describes their calls without it, by
what is called in turn and what comes of that.  A call that has such a course comes to an end, as a
course is finite; and every call has one.

* `Expansion.Call`, `Expansion.Event` — the calls, and what happens in the course of one.
* **`Expansion.Course`** — the course of a call, by the rules that the three functions follow.
* `Event.Sound`, **`Course.sound`** — what holds of every event, at any depth: no macro is applied at the
  limit, and every call that comes back comes back to its depth.
* `Course.unique` — a call has one course.
* **`course_run`** — every call has a course, and it is that of the functions that run.
-/

namespace TreeLang

open TreeLang.Parser (invokedName refuse placeholder expandDeferred nested useMacro invokeWithin
  invokeWithin_undecided invokeWithin_unanswered invokeWithin_answered bind_ok bind_error note_eq
  forM_note)

namespace ParserState

/-- A state in which the warnings about an application were noted. -/
def warned (s : ParserState) (offset : Nat) (warnings : List Report) : ParserState :=
  { s with reports :=
      if s.recovering then s.reports else s.reports ++ warnings.map (·.atOffset offset) }

/-- A state in which a mistake was noted, and its placeholder numbered. -/
def refused (s : ParserState) (report : Report) : ParserState :=
  { s with
    reports := if s.recovering then s.reports else s.reports.push report
    lastId := s.lastId + 1 }

/-- A state one level deeper. -/
def deeper (s : ParserState) : ParserState :=
  { s with depth := s.depth + 1 }

end ParserState

namespace Expansion

/-! ## Calls -/

/-- What a call comes to. -/
abbrev Outcome := EStateM.Result Fault ParserState Node

/-- **A call that expansion makes.** -/
inductive Call where
  /-- A node is offered to the macros in force. -/
  | invoke (node : Node) (kind : MacroKind)
  /-- A macro is to be used for a node. -/
  | use (definition : MacroDefinition) (node : Node)
  /-- The invocations that wait in a tree are to be expanded. -/
  | expand (span : Span) (tree : Node) (waiting : List DeferredInvocation)

/-- The step that a call runs. -/
def Call.run : Call → Parser Node
  | .invoke node kind => Parser.invoke node kind
  | .use definition node => useMacro Parser.invoke definition node
  | .expand span tree waiting => expandDeferred Parser.invoke span tree waiting

/-- What happens in the course of a call. -/
inductive Event where
  /-- A macro is applied to a node, where its use began in this state. -/
  | applied (definition : MacroDefinition) (node : Node) (before : ParserState)
  /-- A call that began in this state comes to an end. -/
  | ended (call : Call) (before : ParserState) (outcome : Outcome)

/-- An outcome one level higher.  A fault leaves the depth where it broke off. -/
def surface : Outcome → Outcome
  | .ok made t => .ok made { t with depth := t.depth - 1 }
  | .error fault t => .error fault t

/-- **The course of a call**: what happens until it comes to an end, and what it comes to. -/
inductive Course : Call → ParserState → List Event → Outcome → Prop
  /-- No macro answers to the node. -/
  | unanswered {node : Node} {kind : MacroKind} {s : ParserState}
      (answer : s.visible.macros.resolve (invokedName node) kind node = .ok none) :
      Course (.invoke node kind) s [] (.ok node s)
  /-- Which macro is meant cannot be told. -/
  | undecided {node : Node} {kind : MacroKind} {s : ParserState} {report : Report}
      (answer : s.visible.macros.resolve (invokedName node) kind node = .error report) :
      Course (.invoke node kind) s [] (refuse node.span.start report s)
  /-- A macro answers. -/
  | answered {node : Node} {kind : MacroKind} {s : ParserState} {found : Shared MacroDefinition}
      {events : List Event} {outcome : Outcome}
      (answer : s.visible.macros.resolve (invokedName node) kind node = .ok (some found))
      (used : Course (.use found.value node) s events outcome) :
      Course (.invoke node kind) s (events ++ [.ended (.use found.value node) s outcome]) outcome
  /-- The limit is reached. -/
  | limit {definition : MacroDefinition} {node : Node} {s : ParserState}
      (deep : maxNesting ≤ s.depth) :
      Course (.use definition node) s []
        (refuse node.span.start (.of (.nestingLimit definition.signature)) s)
  /-- The macro contradicts itself. -/
  | faulty {definition : MacroDefinition} {node : Node} {s : ParserState} {fault : Fault}
      (shallow : s.depth < maxNesting)
      (application : (definition.apply node).result = .error (.fault fault)) :
      Course (.use definition node) s [.applied definition node s] (.error fault s)
  /-- The node does not suit the macro. -/
  | mistaken {definition : MacroDefinition} {node : Node} {s : ParserState} {report : Report}
      (shallow : s.depth < maxNesting)
      (application : (definition.apply node).result = .error (.mistake report)) :
      Course (.use definition node) s [.applied definition node s]
        (refuse node.span.start report
          (s.warned node.span.start (definition.apply node).warnings))
  /-- Nothing waits in what the macro makes. -/
  | complete {definition : MacroDefinition} {node made : Node} {s : ParserState}
      (shallow : s.depth < maxNesting) (application : (definition.apply node).result = .ok made)
      (none : definition.deferred.isEmpty = true) :
      Course (.use definition node) s [.applied definition node s]
        (.ok made (s.warned node.span.start (definition.apply node).warnings))
  /-- What waits in it is expanded, one level deeper. -/
  | deferred {definition : MacroDefinition} {node made : Node} {s inner : ParserState}
      {events : List Event} {outcome : Outcome}
      (shallow : s.depth < maxNesting) (application : (definition.apply node).result = .ok made)
      (some : definition.deferred.isEmpty = false)
      (entered : inner = (s.warned node.span.start (definition.apply node).warnings).deeper)
      (expanded : Course (.expand node.span made definition.deferred) inner events outcome) :
      Course (.use definition node) s
        (.applied definition node s ::
          (events ++ [.ended (.expand node.span made definition.deferred) inner outcome]))
        (surface outcome)
  /-- Nothing waits any more. -/
  | done {span : Span} {tree : Node} {s : ParserState} :
      Course (.expand span tree []) s [] (.ok tree s)
  /-- What waited is gone. -/
  | gone {span : Span} {tree : Node} {s : ParserState} {invocation : DeferredInvocation}
      {waiting : List DeferredInvocation} {events : List Event} {outcome : Outcome}
      (absent : tree.get? invocation.path = none)
      (rest : Course (.expand span tree waiting) s events outcome) :
      Course (.expand span tree (invocation :: waiting)) s events outcome
  /-- It has its turn, whatever came of those before it. -/
  | turn {span : Span} {tree target made : Node} {s t : ParserState}
      {invocation : DeferredInvocation} {waiting : List DeferredInvocation}
      {events others : List Event} {outcome : Outcome}
      (present : tree.get? invocation.path = some target)
      (offered : Course (.invoke (target.withSpan span) invocation.kind) s events (.ok made t))
      (rest : Course (.expand span ((tree.set? invocation.path made).getD tree) waiting) t others
        outcome) :
      Course (.expand span tree (invocation :: waiting)) s
        (events ++ .ended (.invoke (target.withSpan span) invocation.kind) s (.ok made t) :: others)
        outcome
  /-- A fault breaks it off. -/
  | stopped {span : Span} {tree target : Node} {s t : ParserState} {fault : Fault}
      {invocation : DeferredInvocation} {waiting : List DeferredInvocation} {events : List Event}
      (present : tree.get? invocation.path = some target)
      (offered : Course (.invoke (target.withSpan span) invocation.kind) s events (.error fault t)) :
      Course (.expand span tree (invocation :: waiting)) s
        (events ++ [.ended (.invoke (target.withSpan span) invocation.kind) s (.error fault t)])
        (.error fault t)

/-! ## What holds of every event -/

/-- **What holds of an event.**  A macro is applied below the limit only.  A call runs into no bound, and
if it comes back it does so to the depth at which it began.  At the limit the use of a macro comes to a
placeholder, and changes nothing but that the nesting is reported and the placeholder numbered. -/
def Event.Sound : Event → Prop
  | .applied _ _ before => before.depth < maxNesting
  | .ended call before outcome =>
    (∀ made after, outcome = .ok made after → after.depth = before.depth) ∧
    (∀ fault after, outcome = .error fault after → fault ≠ .exhausted) ∧
    ∀ definition node, call = .use definition node → maxNesting ≤ before.depth →
      outcome = .ok
        (.primitive placeholder ⟨before.lastId + 1, ⟨node.span.start, node.span.start⟩⟩)
        (before.refused (.errorAt node.span.start (.nestingLimit definition.signature)))

variable {call : Call} {s t : ParserState} {events others : List Event} {outcome other : Outcome}

/-- A mistake is noted, and a placeholder stands in for the node. -/
lemma refuse_eq_refused (offset : Nat) (report : Report) (s : ParserState) :
    refuse offset report s
      = .ok (.primitive placeholder ⟨s.lastId + 1, ⟨offset, offset⟩⟩)
        (s.refused (report.atOffset offset)) := by
  have numbered (t : ParserState) : Parser.placeholderAt offset t
      = .ok (.primitive placeholder ⟨t.lastId + 1, ⟨offset, offset⟩⟩)
        { t with lastId := t.lastId + 1 } := rfl
  rw [refuse, bind_ok (note_eq _ _), numbered, ParserState.refused]
  split <;> rfl

/-- Whether a call is the use of a macro, at the limit. -/
def AtLimit (call : Call) (s : ParserState) : Prop :=
  ∃ definition node, call = .use definition node ∧ maxNesting ≤ s.depth

lemma not_atLimit_invoke (node : Node) (kind : MacroKind) : ¬ AtLimit (.invoke node kind) s := by
  rintro ⟨_, _, ⟨⟩, -⟩

lemma not_atLimit_expand (span : Span) (tree : Node) (waiting : List DeferredInvocation) :
    ¬ AtLimit (.expand span tree waiting) s := by
  rintro ⟨_, _, ⟨⟩, -⟩

lemma not_atLimit_of_lt (shallow : s.depth < maxNesting) : ¬ AtLimit call s := by
  rintro ⟨_, _, -, deep⟩
  exact absurd shallow (Nat.not_lt.mpr deep)

/-- A call that is not the use of a macro at the limit. -/
lemma sound_ended (elsewhere : ¬ AtLimit call s)
    (back : ∀ made after, outcome = .ok made after → after.depth = s.depth)
    (unbounded : ∀ fault after, outcome = .error fault after → fault ≠ .exhausted) :
    (Event.ended call s outcome).Sound :=
  ⟨back, unbounded, fun definition node same deep => absurd ⟨definition, node, same, deep⟩ elsewhere⟩

lemma sound_ok (elsewhere : ¬ AtLimit call s) {made : Node} (depth : t.depth = s.depth) :
    (Event.ended call s (.ok made t)).Sound := by
  refine sound_ended elsewhere ?_ ?_
  · rintro _ _ ⟨⟩
    exact depth
  · rintro _ _ ⟨⟩

lemma sound_error (elsewhere : ¬ AtLimit call s) {fault : Fault} (unbounded : fault ≠ .exhausted) :
    (Event.ended call s (.error fault t)).Sound := by
  refine sound_ended elsewhere ?_ ?_
  · rintro _ _ ⟨⟩
  · rintro _ _ ⟨⟩
    exact unbounded

/-- **What holds of every event in the course of a call**, and of its end. -/
theorem Course.sound (course : Course call s events outcome) :
    (∀ event ∈ events, event.Sound) ∧ (Event.ended call s outcome).Sound := by
  induction course with
  | unanswered answer => exact ⟨List.forall_mem_nil _, sound_ok (not_atLimit_invoke _ _) rfl⟩
  | undecided answer =>
    rw [refuse_eq_refused]
    exact ⟨List.forall_mem_nil _, sound_ok (not_atLimit_invoke _ _) rfl⟩
  | answered answer used ih =>
    refine ⟨List.forall_mem_append.mpr ⟨ih.1, List.forall_mem_singleton.mpr ih.2⟩, ?_⟩
    exact sound_ended (not_atLimit_invoke _ _) ih.2.1 ih.2.2.1
  | limit deep =>
    rw [refuse_eq_refused]
    refine ⟨List.forall_mem_nil _, ?_, ?_, ?_⟩
    · rintro _ _ ⟨⟩
      rfl
    · rintro _ _ ⟨⟩
    · rintro _ _ ⟨⟩ -
      rfl
  | faulty shallow application =>
    refine ⟨List.forall_mem_singleton.mpr shallow, sound_error (not_atLimit_of_lt shallow) ?_⟩
    rintro rfl
    exact MacroDefinition.apply_ne_exhausted _ _ application
  | mistaken shallow application =>
    rw [refuse_eq_refused]
    exact ⟨List.forall_mem_singleton.mpr shallow, sound_ok (not_atLimit_of_lt shallow) rfl⟩
  | complete shallow application none =>
    exact ⟨List.forall_mem_singleton.mpr shallow, sound_ok (not_atLimit_of_lt shallow) rfl⟩
  | @deferred definition node made s inner events outcome shallow application some entered expanded ih =>
    refine ⟨List.forall_mem_cons.mpr ⟨shallow, List.forall_mem_append.mpr
      ⟨ih.1, List.forall_mem_singleton.mpr ih.2⟩⟩, ?_⟩
    obtain ⟨-, back, unbounded, -⟩ := ih
    cases outcome with
    | ok result t =>
      refine sound_ok (not_atLimit_of_lt shallow) ?_
      have left : t.depth = s.depth + 1 := by
        rw [back result t rfl, entered]
        rfl
      exact Nat.sub_eq_of_eq_add left
    | error fault t => exact sound_error (not_atLimit_of_lt shallow) (unbounded fault t rfl)
  | done => exact ⟨List.forall_mem_nil _, sound_ok (not_atLimit_expand _ _ _) rfl⟩
  | gone absent rest ih =>
    exact ⟨ih.1, sound_ended (not_atLimit_expand _ _ _) ih.2.1 ih.2.2.1⟩
  | turn present offered rest first second =>
    refine ⟨List.forall_mem_append.mpr ⟨first.1, List.forall_mem_cons.mpr ⟨first.2, second.1⟩⟩, ?_⟩
    refine sound_ended (not_atLimit_expand _ _ _) (fun made after same => ?_) second.2.2.1
    exact (second.2.1 made after same).trans (first.2.1 _ _ rfl)
  | stopped present offered ih =>
    refine ⟨List.forall_mem_append.mpr ⟨ih.1, List.forall_mem_singleton.mpr ih.2⟩, ?_⟩
    exact sound_ended (not_atLimit_expand _ _ _) ih.2.1 ih.2.2.1

/-- A call that comes back does so to the depth at which it began. -/
lemma Course.depth_eq {made : Node} (course : Course call s events (.ok made t)) :
    t.depth = s.depth :=
  course.sound.2.1 made t rfl

/-! ## One course -/

/-- **A call has one course.** -/
theorem Course.unique (course : Course call s events outcome) (another : Course call s others other) :
    others = events ∧ other = outcome := by
  induction course generalizing others other with
  | unanswered answer =>
    cases another with
    | unanswered => exact ⟨rfl, rfl⟩
    | undecided answer' | answered answer' => cases answer.symm.trans answer'
  | undecided answer =>
    cases another with
    | undecided answer' =>
      cases answer.symm.trans answer'
      exact ⟨rfl, rfl⟩
    | unanswered answer' | answered answer' => cases answer.symm.trans answer'
  | answered answer used ih =>
    cases another with
    | unanswered answer' | undecided answer' => cases answer.symm.trans answer'
    | answered answer' used' =>
      cases answer.symm.trans answer'
      obtain ⟨rfl, rfl⟩ := ih used'
      exact ⟨rfl, rfl⟩
  | limit deep =>
    cases another with
    | limit => exact ⟨rfl, rfl⟩
    | faulty shallow | mistaken shallow | complete shallow | deferred shallow =>
      exact absurd shallow (Nat.not_lt.mpr deep)
  | faulty shallow application =>
    cases another with
    | limit deep => exact absurd shallow (Nat.not_lt.mpr deep)
    | faulty _ application' =>
      cases application.symm.trans application'
      exact ⟨rfl, rfl⟩
    | mistaken _ application' | complete _ application' | deferred _ application' =>
      cases application.symm.trans application'
  | mistaken shallow application =>
    cases another with
    | limit deep => exact absurd shallow (Nat.not_lt.mpr deep)
    | mistaken _ application' =>
      cases application.symm.trans application'
      exact ⟨rfl, rfl⟩
    | faulty _ application' | complete _ application' | deferred _ application' =>
      cases application.symm.trans application'
  | complete shallow application none =>
    cases another with
    | limit deep => exact absurd shallow (Nat.not_lt.mpr deep)
    | faulty _ application' | mistaken _ application' => cases application.symm.trans application'
    | complete _ application' =>
      cases application.symm.trans application'
      exact ⟨rfl, rfl⟩
    | deferred _ _ some => cases none.symm.trans some
  | deferred shallow application some entered expanded ih =>
    cases another with
    | limit deep => exact absurd shallow (Nat.not_lt.mpr deep)
    | faulty _ application' | mistaken _ application' => cases application.symm.trans application'
    | complete _ _ none => cases none.symm.trans some
    | deferred _ application' _ entered' expanded' =>
      cases application.symm.trans application'
      obtain rfl := entered.trans entered'.symm
      obtain ⟨rfl, rfl⟩ := ih expanded'
      exact ⟨rfl, rfl⟩
  | done =>
    cases another with
    | done => exact ⟨rfl, rfl⟩
  | gone absent rest ih =>
    cases another with
    | gone _ rest' => exact ih rest'
    | turn present | stopped present => cases absent.symm.trans present
  | turn present offered rest first second =>
    cases another with
    | gone absent => cases absent.symm.trans present
    | turn present' offered' rest' =>
      cases present.symm.trans present'
      obtain ⟨rfl, same⟩ := first offered'
      cases same
      obtain ⟨rfl, rfl⟩ := second rest'
      exact ⟨rfl, rfl⟩
    | stopped present' offered' =>
      cases present.symm.trans present'
      cases (first offered').2
  | stopped present offered ih =>
    cases another with
    | gone absent => cases absent.symm.trans present
    | turn present' offered' =>
      cases present.symm.trans present'
      cases (ih offered').2
    | stopped present' offered' =>
      cases present.symm.trans present'
      obtain ⟨rfl, same⟩ := ih offered'
      cases same
      exact ⟨rfl, rfl⟩

/-! ## The functions that run -/

variable {expandOne : Node → MacroKind → Parser Node}

/-- **What waits is expanded in its course**, if the nodes that are offered at this depth are. -/
lemma exists_course_expand {depth : Nat} (each : ∀ node kind t, t.depth = depth →
      ∃ events, Course (.invoke node kind) t events (expandOne node kind t))
    (span : Span) (waiting : List DeferredInvocation) (tree : Node) (here : s.depth = depth) :
    ∃ events, Course (.expand span tree waiting) s events
      (expandDeferred expandOne span tree waiting s) := by
  induction waiting generalizing tree s with
  | nil => exact ⟨_, .done⟩
  | cons invocation waiting ih =>
    rw [expandDeferred, List.foldlM_cons]
    cases present : tree.get? invocation.path with
    | none =>
      obtain ⟨events, rest⟩ := ih tree here
      exact ⟨events, .gone present rest⟩
    | some target =>
      simp only [bind_assoc, pure_bind]
      obtain ⟨events, offered⟩ := each (target.withSpan span) invocation.kind s here
      cases made : expandOne (target.withSpan span) invocation.kind s with
      | ok result t =>
        rw [made] at offered
        obtain ⟨others, rest⟩ := ih ((tree.set? invocation.path result).getD tree)
          (offered.depth_eq.trans here)
        rw [bind_ok made]
        exact ⟨_, .turn present offered rest⟩
      | error fault t =>
        rw [made] at offered
        rw [bind_error made]
        exact ⟨_, .stopped present offered⟩

/-- **A macro is used in its course**, if below the limit the nodes that are offered one level deeper
are. -/
lemma exists_course_use (each : s.depth < maxNesting → ∀ node kind t, t.depth = s.depth + 1 →
      ∃ events, Course (.invoke node kind) t events (expandOne node kind t))
    (definition : MacroDefinition) (node : Node) :
    ∃ events, Course (.use definition node) s events (useMacro expandOne definition node s) := by
  have step : useMacro expandOne definition node s
      = (if maxNesting ≤ s.depth then
          refuse node.span.start (.of (.nestingLimit definition.signature))
        else _ : Parser Node) s := rfl
  rw [step]
  by_cases deep : maxNesting ≤ s.depth
  · rw [if_pos deep]
    exact ⟨_, .limit deep⟩
  have shallow := Nat.lt_of_not_le deep
  have warned : (definition.apply node).warnings.forM
      (fun warning => Parser.note (warning.atOffset node.span.start)) s
        = .ok () (s.warned node.span.start (definition.apply node).warnings) := by
    have mapped : ((definition.apply node).warnings.map (·.atOffset node.span.start)).forM Parser.note
        = (definition.apply node).warnings.forM
          (fun warning => Parser.note (warning.atOffset node.span.start)) := List.forM_map
    rw [← mapped, forM_note]
    rfl
  rw [if_neg deep]
  cases application : (definition.apply node).result with
  | error failure =>
    cases failure with
    | fault fault => exact ⟨_, .faulty shallow application⟩
    | mistake report =>
      dsimp only
      rw [bind_ok warned]
      exact ⟨_, .mistaken shallow application⟩
  | ok made =>
    dsimp only
    rw [bind_ok warned]
    cases waits : definition.deferred.isEmpty with
    | true => exact ⟨_, .complete shallow application waits⟩
    | false =>
      obtain ⟨events, expanded⟩ := exists_course_expand (each shallow) node.span definition.deferred
        made (s := (s.warned node.span.start (definition.apply node).warnings).deeper) rfl
      have course := Course.deferred shallow application waits rfl expanded
      have inside (t : ParserState) : nested (expandDeferred expandOne node.span made definition.deferred) t
          = surface (expandDeferred expandOne node.span made definition.deferred t.deeper) := by
        show (expandDeferred expandOne node.span made definition.deferred >>= fun result => do
            modify fun s => { s with depth := s.depth - 1 }
            return result) t.deeper = _
        cases ended : expandDeferred expandOne node.span made definition.deferred t.deeper with
        | ok result u =>
          rw [bind_ok ended]
          rfl
        | error fault u => exact bind_error ended
      rw [← inside] at course
      exact ⟨_, course⟩

/-- A node is offered in its course if the macro that answers is used in its own. -/
lemma exists_course_answer {node : Node} {kind : MacroKind} {levels : Nat}
    (used : ∀ definition, ∃ events, Course (.use definition node) s events
      (useMacro (invokeWithin levels) definition node s)) :
    ∃ events, Course (.invoke node kind) s events (invokeWithin (levels + 1) node kind s) := by
  cases answer : s.visible.macros.resolve (invokedName node) kind node with
  | error report =>
    rw [invokeWithin_undecided answer]
    exact ⟨_, .undecided answer⟩
  | ok found =>
    cases found with
    | none =>
      rw [invokeWithin_unanswered answer]
      exact ⟨_, .unanswered answer⟩
    | some found =>
      rw [invokeWithin_answered answer]
      obtain ⟨events, course⟩ := used found.value
      exact ⟨_, .answered answer course⟩

/-- **A node is offered in its course**, whatever the number of levels, if they reach to the limit. -/
lemma exists_course_invokeWithin (levels : Nat) (reach : maxNesting ≤ s.depth + levels) (node : Node)
    (kind : MacroKind) :
    ∃ events, Course (.invoke node kind) s events (invokeWithin (levels + 1) node kind s) := by
  induction levels generalizing s node kind with
  | zero =>
    refine exists_course_answer (fun found => exists_course_use (fun shallow => ?_) found node)
    exact absurd reach (Nat.not_le.mpr shallow)
  | succ levels ih =>
    refine exists_course_answer (fun found => exists_course_use (fun shallow => ?_) found node)
    exact fun node kind t deeper => ih (by omega) node kind

/-- **Every call has a course, and one only**: however the macros in force use each other, it comes to an
end, and it comes to that in the functions that run.  In its course no macro is applied at the limit,
every attempt to use one there comes to a placeholder and a report about the nesting, and every call that
comes back comes back to the depth at which it began. -/
theorem course_run (call : Call) (s : ParserState) :
    ∃ events, Course call s events (call.run s) ∧
      (∀ others other, Course call s others other → others = events ∧ other = call.run s) ∧
      ∀ event ∈ events ++ [.ended call s (call.run s)], event.Sound := by
  have offered (node : Node) (kind : MacroKind) (t : ParserState) :
      ∃ events, Course (.invoke node kind) t events (Parser.invoke node kind t) :=
    exists_course_invokeWithin (maxNesting - t.depth) (by omega) node kind
  have course : ∃ events, Course call s events (call.run s) := by
    cases call with
    | invoke node kind => exact offered node kind s
    | use definition node =>
      exact exists_course_use (fun _ node kind t _ => offered node kind t) definition node
    | expand span tree waiting =>
      exact exists_course_expand (fun node kind t _ => offered node kind t) span waiting tree rfl
  obtain ⟨events, course⟩ := course
  refine ⟨events, course, fun others other another => course.unique another, ?_⟩
  exact List.forall_mem_append.mpr ⟨course.sound.1, List.forall_mem_singleton.mpr course.sound.2⟩

/-- A macro whose result invokes another one twice. -/
def branching (name other : String) : MacroDefinition where
  signature := ⟨name, .list⟩
  parameters := [.plain "x"]
  template := .listOf "" [.listOf other [.plain "x"] false, .listOf other [.plain "x"] false] false
  replacements := [⟨[.index 0, .index 0], 0, .value⟩, ⟨[.index 1, .index 0], 0, .value⟩]
  deferred := [⟨[.index 0], .list⟩, ⟨[.index 1], .list⟩]

/-- A state two levels above the limit, in which two macros invoke each other. -/
def nearLimit : ParserState :=
  { Parser.initial {} ⟨"", ""⟩ {} with
    visible := ⟨⟨[⟨0, branching "f" "g"⟩, ⟨1, branching "g" "f"⟩]⟩, .empty⟩
    depth := maxNesting - 2 }

/-- What an outcome shows: the text of the node, the number of reports, and the depth. -/
def shown : Outcome → Option (String × Nat × Nat)
  | .ok made after => some (made.text, after.reports.size, after.depth)
  | .error _ _ => none

-- All four uses at the limit have their turn, and each is refused by itself.
example : shown ((Call.invoke (.listOf "f" [.plain "a"] false) .list).run nearLimit)
    = some ("[[ERROR, ERROR], [ERROR, ERROR]]", 4, 126) := by
  decide +kernel

end Expansion

end TreeLang
