import TreeLang.Proofs.Accounting
import TreeLang.Proofs.Deferring
import TreeLang.Proofs.Marking
import TreeLang.Proofs.Reporting

/-!
# Numbers throughout a source

Marks are put on the nodes of a template by their numbers, and numbers are given out one by one from the
beginning of a source to its end.  The nodes of a finished template have none left; but a fallback keeps
those that it was read with.  Where it was read in the same source they were given out before, and are
never given out again.  An imported one has the numbers of another source, any of which may be given out
again while a template is read into which the fallback was put.  Then a node is taken for a reference that
is none, more references are found than were made, and the statement breaks off.

There is no other way for it to do so.

* `MacroDefinition.Numbered` — a macro whose fallbacks have numbers of some sort.
* `Parser.Issued` — the macros in force have fallbacks whose numbers were given out, or are foreign ones.
* **`ends_template`** — the marks on a template are exact, unless a foreign number was given out again.
* `Completes`, **`completes_macroStatement`** — a macro statement comes to an end, with that exception.
* **`completes_of_reaches`** — so does every statement of a source.
-/

namespace TreeLang

variable {known wider foreign : Nat → Prop}

/-! ## Numbers that macros bring with them -/

namespace MacroDefinition

/-- **A macro whose fallbacks have known numbers**, and that has the parameters it needs. -/
structure Numbered (known : Nat → Prop) (definition : MacroDefinition) : Prop where
  sound : definition.Sound
  fallbacks : definition.Fallbacks (Node.Within known)

variable {definition : MacroDefinition} {template : Node} {signature : Signature}
  {parameters : List Parameter} {references : Marks Reference} {deferred : Marks MacroKind}

lemma Numbered.mono (numbered : definition.Numbered known) (h : ∀ number, known number → wider number) :
    definition.Numbered wider :=
  ⟨numbered.sound, fun parameter member node fallback =>
    (numbered.fallbacks parameter member node fallback).mono h⟩

/-- A narrowed parameter has the fallback that it had. -/
lemma exists_of_mem_narrow {replacements : List Replacement} {parameter : Parameter}
    (member : parameter ∈ narrow replacements parameters) :
    ∃ other ∈ parameters, parameter.fallback = other.fallback := by
  obtain ⟨index, before, rfl⟩ := List.mem_mapIdx.mp member
  refine ⟨_, List.getElem_mem before, ?_⟩
  split <;> rfl

/-- **What is built of a template** has the fallbacks of its parameters, if as many are there as its kind
and the marks on the template ask for. -/
lemma numbered_of_build {warnings : List Report} (arity : signature.kind.Takes parameters.length)
    (named : ∀ mark ∈ references.entries, mark.2.parameter < parameters.length)
    (fallbacks : ∀ parameter ∈ parameters, ∀ node ∈ parameter.fallback, node.Within known)
    (built : build signature parameters template references deferred = .ok (definition, warnings)) :
    definition.Numbered known := by
  obtain ⟨rfl, -⟩ := eq_of_build built
  have count : (narrow (findReplacements template references) parameters).length
      = parameters.length := List.length_mapIdx
  refine ⟨⟨?_, fun replacement member => ?_, Node.within_clearIds template⟩,
    fun parameter member node fallback => ?_⟩
  · rwa [count]
  · obtain ⟨_, -, reference, marked, rfl⟩ := exists_of_mem_findReplacements member
    rw [count]
    exact named _ (Marks.mem_of_find? marked)
  · obtain ⟨other, inside, same⟩ := exists_of_mem_narrow member
    exact fallbacks other inside node (same ▸ fallback)

/-- **Where the marks are exact** a definition is built. -/
lemma exists_build_of_exact {floor top : Nat} {deferred : Marks MacroKind}
    (exact : Exact floor top references.keys deferred.keys [template]) :
    ∃ built, build signature parameters template references deferred = .ok built := by
  rw [build]
  dsimp only
  rw [length_findReplacements_of_exact exact, if_neg (lt_irrefl _), if_neg (lt_irrefl _)]
  exact ⟨_, rfl⟩

end MacroDefinition

namespace Parser

open MacroDefinition (Numbered build)

variable {α β : Type} {options : CompileOptions} {resolver : Resolver} {s t u : ParserState}
  {names : List String} {fuel floor top : Nat}

/-- Numbers that were given out, the last of them `top`, and foreign ones. -/
def issued (foreign : Nat → Prop) (top : Nat) (number : Nat) : Prop :=
  number ≤ top ∨ foreign number

lemma issued_mono (le : floor ≤ top) (number : Nat) (h : issued foreign floor number) :
    issued foreign top number :=
  h.imp_left (Nat.le_trans · le)

/-- Only a foreign number is given out again. -/
lemma clash_of_issued (clash : Clash (issued foreign floor) floor top) : Clash foreign floor top := by
  obtain ⟨number, brought, above, below⟩ := clash
  exact ⟨number, brought.resolve_left (Nat.not_le_of_lt above), above, below⟩

/-- **The fallbacks of the macros in force have numbers that were given out**, or foreign ones. -/
def Issued (foreign : Nat → Prop) (s : ParserState) : Prop :=
  s.visible.Every (Numbered (issued foreign s.lastId))

lemma Issued.moved (issued : Issued foreign s) (moves : Moves s t) : Issued foreign t := by
  rw [Issued, moves.visible, moves.lastId]
  exact issued

/-- **Between two tokens, outside of any expansion**, where mistakes are reported. -/
structure Tidy (foreign : Nat → Prop) (s : ParserState) : Prop where
  settled : s.Settled
  attends : s.recovering = false
  shallow : s.depth = 0
  issued : Issued foreign s

/-- **Something was read**, for which numbers may have been given out. -/
structure Rises (foreign : Nat → Prop) (s t : ParserState) : Prop extends Passes s t where
  tidy : Tidy foreign t
  le : s.lastId ≤ t.lastId
  outside : s.scope = none → t.scope = none

namespace Rises

lemma refl (tidy : Tidy foreign s) : Rises foreign s s :=
  ⟨.refl s, tidy, le_rfl, id⟩

lemma trans (first : Rises foreign s t) (second : Rises foreign t u) : Rises foreign s u :=
  ⟨first.toPasses.trans second.toPasses, second.tidy, first.le.trans second.le,
    second.outside ∘ first.outside⟩

lemma of_moves (tidy : Tidy foreign s) (settled : t.Settled) (moves : Moves s t) : Rises foreign s t where
  toPasses := moves.toPasses
  tidy := ⟨settled, moves.recovering.trans tidy.attends, moves.depth.trans tidy.shallow,
    tidy.issued.moved moves⟩
  le := moves.lastId.ge
  outside := moves.scope.trans

lemma moved (rises : Rises foreign s t) (settled : u.Settled) (moves : Moves t u) : Rises foreign s u :=
  rises.trans (.of_moves rises.tidy settled moves)

/-- What could be paid for can be paid for further on. -/
lemma enough (rises : Rises foreign s t) (enough : s.lexis.cost s.here + s.lexis.pace ≤ fuel) :
    t.lexis.cost t.here + t.lexis.pace ≤ fuel :=
  enough_of_advanced rises.lexis rises.onward enough

end Rises

/-! ## Values and templates -/

/-- The marks on a template that was read are those of its parameters, and exact unless a foreign number
was given out again. -/
def Marked (names : List String) (foreign : Nat → Prop) (floor top : Nat) (scope : TemplateScope)
    (node : Node) : Prop :=
  (∀ mark ∈ scope.references.entries, mark.2.parameter < names.length) ∧
    (Clash foreign floor top ∨ Exact floor top scope.references.keys scope.deferred.keys [node])

/-- **A value is read from any text**, outside of any template or as one. -/
lemma ends_parseValue_rises (tidy : Tidy foreign s) (fresh : ∀ scope ∈ s.scope, scope = .start names)
    (enough : s.lexis.cost s.here + s.lexis.pace ≤ fuel) :
    Ends (parseValue options fuel) s fun node t => Rises foreign s t ∧
      node.Within (issued foreign t.lastId) ∧
        ∀ scope ∈ t.scope, Marked names foreign s.lastId t.lastId scope node := by
  have tracks : Tracks names (issued foreign s.lastId) s.lastId s [] :=
    { sound := fun entry member => ⟨(tidy.issued entry member).sound, (tidy.issued entry member).fallbacks⟩
      shallow := tidy.shallow
      above := le_rfl
      known := nofun
      parameters := fun scope inside => by rw [fresh scope inside]; rfl
      named := fun scope inside => by rw [fresh scope inside]; nofun
      marks := fun scope inside => .inr (by rw [fresh scope inside]; exact .start _ _) }
  have pace := s.lexis.ten_le_pace
  obtain ⟨node, t, run, settled, passes, -, tracks, -⟩ :=
    ends_parseValue (upkeep_tracks options names _ _) ⟨tidy.settled, tidy.attends, tracks⟩
      (show s.lexis.cost s.here + 2 ≤ fuel by omega)
  refine ⟨node, t, run, settled, ⟨passes, ⟨settled, passes.recovering.trans tidy.attends,
    tracks.shallow, fun entry member => ?_⟩, tracks.above, (StaysCalm.calms run).scope.mpr⟩, ?_,
    fun scope inside => ⟨tracks.named scope inside, (tracks.marks scope inside).imp_left clash_of_issued⟩⟩
  · obtain ⟨sound, fallbacks⟩ := tracks.sound entry member
    exact Numbered.mono ⟨sound, fallbacks⟩ (issued_mono tracks.above)
  · refine (tracks.known node (List.mem_singleton_self node)).mono fun number given => ?_
    exact given.elim .inl (issued_mono tracks.above number)

/-- **The marks on a template are exact**, unless a foreign number was given out again while it was read:
each of them is on one node of the template, and was put on it in the meantime. -/
theorem ends_template (tidy : Tidy foreign s) (parameters : List Parameter)
    (enough : s.lexis.cost s.here + s.lexis.pace ≤ fuel) :
    Ends (template options fuel parameters) s fun found t => Rises foreign s t ∧
      ∀ scope ∈ found.2,
        Marked (parameters.map (·.name)) foreign s.lastId t.lastId scope found.1 := by
  set inside : ParserState := { s with scope := some (.start (parameters.map (·.name))) }
  have begun : Tidy foreign inside :=
    ⟨settled_of_same tidy.settled rfl rfl, tidy.attends, tidy.shallow, tidy.issued⟩
  have fresh : ∀ scope ∈ inside.scope, scope = .start (parameters.map (·.name)) := by
    rintro _ ⟨⟩
    rfl
  obtain ⟨node, t, run, settled, rises, -, marked⟩ : Ends (parseValue options fuel) inside _ :=
    ends_parseValue_rises begun fresh enough
  have settled : ParserState.Settled { t with scope := s.scope } := settled_of_same settled rfl rfl
  refine ⟨(node, t.scope), { t with scope := s.scope }, ?_, settled, ⟨?_, ⟨settled, rises.tidy.attends,
    rises.tidy.shallow, rises.tidy.issued⟩, rises.le, id⟩, marked⟩
  · rw [template, bind_get, bind_modify, bind_ok run]
    rfl
  · exact { rises.toPasses with clean := rises.clean, heard := rises.heard }

/-! ## Parameters -/

/-- The fallbacks of parameters have known numbers. -/
def Backed (known : Nat → Prop) (parameters : List Parameter) : Prop :=
  ∀ parameter ∈ parameters, ∀ node ∈ parameter.fallback, node.Within known

lemma Backed.mono {parameters : List Parameter} (backed : Backed known parameters)
    (h : ∀ number, known number → wider number) : Backed wider parameters :=
  fun parameter member node fallback => (backed parameter member node fallback).mono h

/-- The fallback of a parameter, if there is one. -/
lemma ends_parameterFallback (tidy : Tidy foreign s) (outside : s.scope = none) {parameter : Parameter}
    (bare : parameter.fallback = none) (enough : s.lexis.cost s.here + s.lexis.pace ≤ fuel) :
    Ends (parameterFallback options fuel parameter) s fun parameter t =>
      Rises foreign s t ∧ ∀ node ∈ parameter.fallback, node.Within (issued foreign t.lastId) := by
  refine (ends_peek tidy.settled false .parameter).bind fun token t settled looked => ?_
  have rises : Rises foreign s t := .of_moves tidy settled looked.2.1
  split
  · refine (ends_skipToken settled false .parameter).bind fun _ u settled skipped => ?_
    have rises := rises.moved settled skipped.1
    have unscoped : ∀ scope ∈ u.scope, scope = .start [] := by simp [rises.outside outside]
    refine (ends_parseValue_rises rises.tidy unscoped (rises.enough enough)).bind
      fun node v settled read => .pure settled ⟨rises.trans read.1, ?_⟩
    rintro _ ⟨⟩
    exact read.2.1
  · exact .pure settled ⟨rises, by simp [bare]⟩

/-- **The parameters of a macro**, by induction on the bound, which the text ahead pays for. -/
theorem ends_parameterList (fuel : Nat) {closer : TokenKind} (closes : closer.isCloser)
    (tidy : Tidy foreign s) (outside : s.scope = none) {known : List Parameter}
    (backed : Backed (issued foreign s.lastId) known) (complete : Bool)
    (enough : s.lexis.cost s.here + s.lexis.pace ≤ fuel) :
    Ends (parameterList options closer fuel known complete) s fun found t =>
      Rises foreign s t ∧ ∀ known ∈ found, Backed (issued foreign t.lastId) known := by
  have pace := s.lexis.ten_le_pace
  induction fuel generalizing s known complete with
  | zero => exact absurd enough (by omega)
  | succ fuel ih =>
    rw [parameterList]
    refine (ends_peek tidy.settled true .parameter).bind fun token t settled looked => ?_
    obtain ⟨rfl, moves, stays, -⟩ := looked
    have rises : Rises foreign s t := .of_moves tidy settled moves
    have same : t.reads true .parameter = s.reads true .parameter := by
      rw [ParserState.reads, moves.lexis, stays]
    -- Further on parsing goes on with the next parameter.
    have again {u : ParserState} (rises : Rises foreign s u)
        (shorter : u.here.rest.length < s.here.rest.length) {known : List Parameter}
        (backed : Backed (issued foreign u.lastId) known) (complete : Bool) :
        Ends (parameterList options closer fuel known complete) u fun found v =>
          Rises foreign s v ∧ ∀ known ∈ found, Backed (issued foreign v.lastId) known := by
      have paid := s.lexis.cost_lt shorter
      refine (ih rises.tidy (rises.outside outside) backed complete ?_ ?_).mono
        fun _ _ rest => ⟨rises.trans rest.1, rest.2⟩ <;> rw [rises.lexis] <;> omega
    by_cases closed : (s.reads true .parameter).token.kind = closer
    · rw [if_pos closed]
      refine (ends_skipToken settled true .parameter).bind fun _ u settled skipped =>
        .pure settled ⟨rises.moved settled skipped.1, ?_⟩
      split
      · rintro _ ⟨⟩
        exact backed.mono (issued_mono (rises.moved settled skipped.1).le)
      · rintro _ ⟨⟩
    rw [if_neg closed]
    refine .closesAwaited ?_
    split
    · exact (ends_complain settled _ _).bind fun _ u settled noted =>
        .pure settled ⟨rises.moved settled noted.1, by rintro _ ⟨⟩⟩
    rename_i ends
    have more : (s.reads true .parameter).token.kind ≠ .endOfInput := fun h => ends (by simp [h])
    split
    · refine (ends_skipToken settled true .parameter).bind fun _ u settled skipped => ?_
      obtain ⟨skipped, place, -⟩ := skipped
      have rises := rises.moved settled skipped
      refine (ends_complain settled _ _).bind fun _ v settled noted => ?_
      have rises := rises.moved settled noted.1
      refine again rises ?_ (backed.mono (issued_mono rises.le)) complete
      rw [noted.2.1, place, same]
      exact s.reads_shortens more
    split
    · refine (ends_skipToken settled true .parameter).bind fun _ u settled skipped => ?_
      obtain ⟨skipped, place, -⟩ := skipped
      have rises := rises.moved settled skipped
      have shorter : u.here.rest.length < s.here.rest.length := by
        rw [place, same]
        exact s.reads_shortens more
      refine ((Leaves.of_ends (trails_parameterType settled _)).ends
        (ends_parameterType settled _)).bind fun typed v settled has => ?_
      have rises := rises.moved settled has.2
      have shorter := Nat.lt_of_le_of_lt has.2.onward.le shorter
      have paid := s.lexis.cost_lt shorter
      refine (ends_parameterFallback rises.tidy (rises.outside outside) has.1.2 ?_).bind
        fun parameter w settled read => ?_
      · rw [rises.lexis]
        omega
      have rises := rises.trans read.1
      refine (ends_parameterSeparator settled rises.tidy.attends closer parameter).bind
        fun separated x settled moves => ?_
      have last := rises.moved settled moves
      refine again last ?_ (List.forall_mem_append.mpr ⟨backed.mono (issued_mono last.le),
        List.forall_mem_singleton.mpr ?_⟩) _
      · exact Nat.lt_of_le_of_lt (moves.onward.le.trans read.1.onward.le) shorter
      · rw [moves.lastId]
        exact read.2
    · have going : ¬ Stopping t (some closer) (t.reads true .parameter).token.kind := by
        rw [same]
        exact not_stopping_of_open closed ends
      refine ends_recovering settled rises.tidy.attends _ _ _ fun u settled moves _ onward => ?_
      have rises := rises.moved settled moves
      refine again rises ?_ (backed.mono (issued_mono rises.le)) false
      rw [← stays]
      exact onward (not_stopping closes going (by rintro ⟨⟩))

/-- **The kind that a macro is defined with** takes the parameters in its brackets, behind the receiver of
a function. -/
lemma takes_macroKindOf (function : Bool) (opener : Option TokenKind) {parameters : List Parameter}
    (bare : opener = none → parameters = []) :
    (macroKindOf function opener).Takes
      (if function then Parameter.plain "self" :: parameters else parameters).length := by
  cases opener with
  | none =>
    obtain rfl := bare rfl
    cases function <;> rfl
  | some opener =>
    have one : 1 ≤ (Parameter.plain "self" :: parameters).length := Nat.succ_le_succ (Nat.zero_le _)
    cases function <;> cases opener <;> first | exact Nat.zero_le _ | exact one

/-- **The kind of a macro and its parameters.** -/
lemma ends_macroHead (tidy : Tidy foreign s) (outside : s.scope = none) (function : Bool) (name : Token)
    (enough : s.lexis.cost s.here + s.lexis.pace ≤ fuel) :
    Ends (macroHead options fuel function name) s fun found t => Rises foreign s t ∧
      ∀ head ∈ found, Backed (issued foreign t.lastId) head.2 ∧
        head.1.Takes (if function then Parameter.plain "self" :: head.2 else head.2).length := by
  refine (ends_attachedOpener? tidy.settled name).bind fun opener t settled moves => ?_
  have rises : Rises foreign s t := .of_moves tidy settled moves
  cases opener with
  | none =>
    refine .pure settled ⟨rises, ?_⟩
    rintro _ ⟨⟩
    exact ⟨List.forall_mem_nil _, takes_macroKindOf function none fun _ => rfl⟩
  | some opener =>
    refine (ends_skipToken settled false .word).bind fun _ u settled skipped => ?_
    have rises := rises.moved settled skipped.1
    have closes := Reading.isCloser_closer? opener.kind
    set closer := opener.kind.closer?.getD .rParen
    have waiting : Tidy foreign (u.awaiting closer) :=
      ⟨settled_of_same settled rfl rfl, rises.tidy.attends, rises.tidy.shallow, rises.tidy.issued⟩
    obtain ⟨found, v, run, settled, read, backed⟩ :
        Ends (parameterList options closer fuel [] true) (u.awaiting closer) _ :=
      ends_parameterList fuel closes waiting (rises.outside outside) (List.forall_mem_nil _) true
        (rises.enough enough)
    have settled : ParserState.Settled { v with awaited := v.awaited.tail } :=
      settled_of_same settled rfl rfl
    have further : Rises foreign u { v with awaited := v.awaited.tail } :=
      { visible := read.visible, exported := read.exported, imports := read.imports,
        awaited := by rw [read.awaited]; rfl
        recovering := read.recovering, policy := read.policy, onward := read.onward
        reports := read.reports, clean := read.clean, heard := read.heard
        tidy := ⟨settled, read.tidy.attends, read.tidy.shallow, read.tidy.issued⟩
        le := read.le, outside := read.outside }
    refine ⟨found.map fun parameters => (macroKindOf function (some opener.kind), parameters), _, ?_,
      settled, rises.trans further, fun head inside => ?_⟩
    · have awaits : await closer u = .ok () (u.awaiting closer) := rfl
      dsimp only
      rw [bind_ok awaits, bind_ok run]
      rfl
    · obtain ⟨parameters, known, rfl⟩ := Option.map_eq_some_iff.mp inside
      exact ⟨backed parameters known, takes_macroKindOf function (some opener.kind) nofun⟩

/-! ## Macro statements -/

/-- **A step comes to an end**, unless it breaks off where a foreign number was given out again behind
`floor`. -/
def Completes (foreign : Nat → Prop) (floor : Nat) (step : Parser α) (s : ParserState)
    (property : α → ParserState → Prop) : Prop :=
  (∃ value t, step s = .ok value t ∧ property value t) ∨
    ∃ fault t, step s = .error fault t ∧ Clash foreign floor t.lastId ∧ Issued foreign t

namespace Completes

variable {step : Parser α} {next : α → Parser β} {property : α → ParserState → Prop}
  {result : β → ParserState → Prop}

lemma of_concludes (concludes : Concludes step s property) : Completes foreign floor step s property :=
  .inl concludes

/-- A step behind another one. -/
lemma bind (first : Completes foreign floor step s property)
    (second : ∀ value t, property value t → Completes foreign floor (next value) t result) :
    Completes foreign floor (step >>= next) s result := by
  rcases first with ⟨value, t, run, has⟩ | ⟨fault, t, run, broken⟩
  · rw [Completes, bind_ok run]
    exact second value t has
  · exact .inr ⟨fault, t, bind_error run, broken⟩

/-- A step behind one that comes to an end. -/
lemma after (first : Ends step s property)
    (second : ∀ value t, t.Settled → property value t → Completes foreign floor (next value) t result) :
    Completes foreign floor (step >>= next) s result := by
  obtain ⟨value, t, run, settled, has⟩ := first
  rw [Completes, bind_ok run]
  exact second value t settled has

lemma mono {weaker : α → ParserState → Prop} (completes : Completes foreign floor step s property)
    (h : ∀ value t, property value t → weaker value t) : Completes foreign floor step s weaker :=
  completes.imp_left fun ⟨value, t, run, has⟩ => ⟨value, t, run, h value t has⟩

/-- Behind a lower number there are more to be given out again. -/
lemma lower {above : Nat} (completes : Completes foreign above step s property) (le : floor ≤ above) :
    Completes foreign floor step s property :=
  completes.imp_right fun ⟨fault, t, run, ⟨number, brought, behind, below⟩, issued⟩ =>
    ⟨fault, t, run, ⟨number, brought, Nat.lt_of_le_of_lt le behind, below⟩, issued⟩

end Completes

/-- **No number was given out**, and the macros in force are of some sort if they were before. -/
structure Abides (fine : MacroDefinition → Prop) (s t : ParserState) : Prop where
  lastId : t.lastId = s.lastId
  every : s.visible.Every fine → t.visible.Every fine

namespace Abides

variable {fine : MacroDefinition → Prop}

lemma refl (s : ParserState) : Abides fine s s :=
  ⟨rfl, id⟩

lemma trans (first : Abides fine s t) (second : Abides fine t u) : Abides fine s u :=
  ⟨second.lastId.trans first.lastId, second.every ∘ first.every⟩

lemma of_same (lastId : t.lastId = s.lastId) (macros : t.visible.macros = s.visible.macros) :
    Abides fine s t :=
  ⟨lastId, fun every => by rwa [Definitions.Every, macros]⟩

lemma of_moves (moves : Moves s t) : Abides fine s t :=
  .of_same moves.lastId (by rw [moves.visible])

lemma issued (abides : Abides (Numbered (issued foreign s.lastId)) s t) (issued : Issued foreign s) :
    Issued foreign t := by
  rw [Issued, abides.lastId]
  exact abides.every issued

end Abides

section

variable {fine : MacroDefinition → Prop}

lemma Abides.of_told {reports : Array Report} : Abides fine s { s with reports := reports } :=
  .of_same rfl rfl

lemma abides_note (report : Report) : Concludes (note report) s fun _ t => Abides fine s t :=
  (Concludes.note report).mono (by rintro _ _ ⟨reports, rfl⟩; exact .of_told)

lemma abides_notes {items : List α} (report : α → Report) :
    Concludes (items.forM fun item => note (report item)) s fun _ t => Abides fine s t :=
  (Concludes.notes report).mono (by rintro _ _ ⟨reports, rfl⟩; exact .of_told)

/-- Recovering, with or without a report in front of it. -/
lemma abides_recover (settled : s.Settled) (closer : Option TokenKind) :
    Concludes (recover closer) s fun _ t => Abides fine s t := by
  have began : ParserState.Settled { s with recovering := true } := settled_of_same settled rfl rfl
  obtain ⟨_, t, skip, -, moves, -⟩ :=
    ends_skipToSeparator (s.here.rest.length + 1) closer began (Nat.lt_succ_self _)
  exact ⟨(), _, recover_ok settled skip, .of_same moves.lastId (congrArg (·.macros) moves.visible)⟩

/-- A macro of the sort is registered. -/
lemma abides_registerMacro {definition : MacroDefinition} (one : fine definition) (offset : Nat) :
    Concludes (registerMacro definition offset) s fun _ t => Abides fine s t := by
  have noted {t : ParserState} (abides : Abides fine s t) (report : Report) :
      Concludes (note report) t fun _ u => Abides fine s u :=
    (abides_note report).mono fun _ _ => abides.trans
  rw [Concludes, registerMacro_run]
  dsimp only
  cases added : s.visible.macros.add ⟨s.imports.supply.fresh, definition⟩ with
  | error report =>
    refine noted ?_ (report.atOffset offset)
    exact .of_same rfl rfl
  | ok macros =>
    dsimp only
    cases s.exported.macros.add ⟨s.imports.supply.fresh, definition⟩ with
    | error report =>
      refine noted ?_ (report.atOffset offset)
      exact ⟨rfl, fun every => every.add one added⟩
    | ok macros => exact ⟨(), _, rfl, rfl, fun every => every.add one added⟩

end

/-- Reading the template of a macro, and registering the macro. -/
lemma completes_macroTemplate (tidy : Tidy foreign s) (name : Token) {signature : Signature}
    {parameters : List Parameter} {checked : Except Report (List Parameter)}
    (passed : ∀ known, checked = .ok known → known = parameters)
    (arity : signature.kind.Takes parameters.length)
    (backed : Backed (issued foreign s.lastId) parameters)
    (enough : s.lexis.cost s.here + s.lexis.pace ≤ fuel) :
    Completes foreign s.lastId (macroTemplate options fuel name signature parameters checked) s
      fun _ t => Issued foreign t := by
  have counted {t : ParserState} (settled : t.Settled) : Ends errorCount t fun _ u => t = u :=
    ⟨_, t, rfl, settled, rfl⟩
  refine .after (counted tidy.settled) ?_
  rintro before _ - rfl
  refine .after (ends_template tidy parameters enough) fun found t settled read => ?_
  obtain ⟨node, scope⟩ := found
  obtain ⟨rises, marked⟩ := read
  cases checked with
  | error report => exact .of_concludes (.pure rises.tidy.issued)
  | ok known =>
    obtain rfl := passed known rfl
    cases scope with
    | none => exact .of_concludes (.pure rises.tidy.issued)
    | some scope =>
      obtain ⟨named, exact⟩ := marked scope rfl
      rw [List.length_map] at named
      refine .after (counted settled) ?_
      rintro errors _ - rfl
      split
      · exact .of_concludes (.pure rises.tidy.issued)
      match built : build signature known node scope.references scope.deferred with
      | .ok (definition, warnings) =>
        refine .after (ends_notes settled _) fun _ u _ moves => .of_concludes ?_
        have one : Numbered (issued foreign u.lastId) definition := by
          rw [moves.lastId]
          exact MacroDefinition.numbered_of_build arity named (backed.mono (issued_mono rises.le)) built
        exact (abides_registerMacro one name.start).mono fun _ _ abides =>
          abides.issued ((Abides.of_moves moves).issued rises.tidy.issued)
      | .error (.mistake report) =>
        exact .of_concludes ((abides_note _).mono fun _ _ abides => abides.issued rises.tidy.issued)
      | .error (.fault fault) =>
        -- Something that is no reference was taken for one.
        refine .inr ⟨fault, t, rfl, exact.resolve_right fun exact => ?_, rises.tidy.issued⟩
        obtain ⟨_, other⟩ := MacroDefinition.exists_build_of_exact exact
        rw [built] at other
        cases other

/-- **A macro statement comes to an end**, unless it breaks off where a foreign number was given out again
in the course of it. -/
theorem completes_macroStatement (tidy : Tidy foreign s) (outside : s.scope = none) (function : Bool)
    (enough : s.lexis.cost s.here + s.lexis.pace ≤ fuel) :
    Completes foreign s.lastId (macroStatement options fuel function) s fun _ t => Issued foreign t := by
  have givesUp {t : ParserState} (tidy : Tidy foreign t) (offset : Nat) (cause : Cause) :
      Completes foreign s.lastId (giveUp offset cause) t fun _ u => Issued foreign u :=
    .of_concludes ((Concludes.of_ends (ends_giveUp tidy.settled tidy.attends offset cause)).mono
      fun _ _ moves => (Abides.of_moves moves).issued tidy.issued)
  refine .after (ends_advance tidy.settled true .word) fun word t settled taken => ?_
  have rises : Rises foreign s t := .of_moves tidy settled taken.2.1
  refine .after (ends_advance settled false .word) fun name u settled taken => ?_
  have rises := rises.moved settled taken.2.1
  split
  · exact givesUp rises.tidy _ _
  refine .after (ends_macroHead rises.tidy (rises.outside outside) function name (rises.enough enough))
    fun head v settled read => ?_
  have rises := rises.trans read.1
  match head with
  | none =>
    exact .of_concludes ((abides_recover settled none).mono fun _ _ abides =>
      abides.issued rises.tidy.issued)
  | some (kind, parameters) =>
    obtain ⟨backed, takes⟩ := read.2 _ rfl
    refine .after (ends_peek settled false .word) fun colon w settled looked => ?_
    have rises := rises.moved settled looked.2.1
    split
    · exact givesUp rises.tidy _ _
    refine .after (ends_skipToken settled false .word) fun _ x settled skipped => ?_
    have rises := rises.moved settled skipped.1
    -- The receiver of a function is a parameter in front, without a fallback.
    have backed {y : ParserState} (same : y.lastId = v.lastId) : Backed (issued foreign y.lastId)
        (if function then .plain "self" :: parameters else parameters) := by
      rw [same]
      split
      · exact List.forall_mem_cons.mpr ⟨nofun, backed⟩
      · exact backed
    have same := skipped.1.lastId.trans looked.2.1.lastId
    rw [macroBody_eq]
    cases checked : checkParameters kind
        (if function then .plain "self" :: parameters else parameters) with
    | error report =>
      refine .after (ends_note settled _) fun _ y settled noted => ?_
      have rises := rises.moved settled noted.1
      exact (completes_macroTemplate rises.tidy name (by rintro _ ⟨⟩) takes (backed (noted.1.lastId.trans same))
        (rises.enough enough)).lower rises.le
    | ok known =>
      refine (completes_macroTemplate rises.tidy name ?_ takes (backed same)
        (rises.enough enough)).lower rises.le
      rintro _ ⟨⟩
      exact checkParameters_ok checked

/-! ## Other statements -/

section

variable {fine : MacroDefinition → Prop} {table : List (String × Shared Definitions)}

/-- The clauses of an operator, by induction on the bound, which the text ahead pays for. -/
lemma ends_clauseList (fuel : Nat) (between : Between s) (enough : s.here.rest.length < fuel)
    (known : List Clause) : Ends (clauseList fuel known) s fun _ t => Moves s t := by
  induction fuel generalizing s known with
  | zero => exact absurd enough (Nat.not_lt_zero _)
  | succ fuel ih =>
    rw [clauseList]
    refine (ends_advance between.settled false .word).bind fun word t settled taken => ?_
    obtain ⟨rfl, moves, place, -⟩ := taken
    split
    · exact (ends_giveUp settled (moves.recovering.trans between.attends) _ _).bind
        fun _ _ settled left => .pure settled (moves.trans left)
    rename_i literal
    have shorter : t.here.rest.length < s.here.rest.length := by
      rw [place]
      exact s.reads_shortens fun ends => literal (by rw [ends]; decide)
    refine (ends_clausePriority settled (moves.recovering.trans between.attends)).bind
      fun priority u settled further => ?_
    have shorter := Nat.lt_of_le_of_lt further.onward.le shorter
    have moves := moves.trans further
    cases priority with
    | none => exact .pure settled moves
    | some priority =>
      refine (ends_peek settled false .word).bind fun next v settled looked => ?_
      have moves := moves.trans looked.2.1
      split
      · refine (ends_skipToken settled false .word).bind fun _ w settled skipped => ?_
        have onward := (looked.2.1.trans skipped.1).onward.le
        have moves := moves.trans skipped.1
        exact (ih (between.moved settled moves) (by omega) _).mono fun _ _ => moves.trans
      · exact .pure settled moves

/-- A step aside behind another one. -/
lemma abides_bind {step : Parser α} {next : α → Parser β}
    (first : Concludes step s fun _ t => Abides fine s t)
    (second : ∀ value t, Concludes (next value) t fun _ u => Abides fine t u) :
    Concludes (step >>= next) s fun _ u => Abides fine s u :=
  first.bind fun value t has => (second value t).mono fun _ _ => has.trans

lemma abides_forget : Concludes forget s fun _ t => Abides fine s t :=
  ⟨(), _, rfl, .of_same rfl rfl⟩

lemma abides_registerOperator (op : OperatorDefinition) (offset : Nat) :
    Concludes (registerOperator options op offset) s fun _ t => Abides fine s t := by
  have rejects {t : ParserState} (abides : Abides fine s t) (report : Report) :
      Concludes (do note report; forget) t fun _ u => Abides fine s u :=
    (abides_bind (abides_note report) fun _ _ => abides_forget).mono fun _ _ => abides.trans
  rw [Concludes, registerOperator_run]
  dsimp only
  cases s.visible.operators.add op with
  | error conflict => exact rejects (.refl s) _
  | ok operators =>
    dsimp only
    cases s.exported.operators.add op with
    | error conflict =>
      refine rejects ?_ _
      exact .of_same rfl rfl
    | ok operators => exact ⟨(), _, rfl, .of_same rfl rfl⟩

/-- A statement that is given up. -/
lemma completes_giveUp (between : Between t) (moves : Moves s t) (offset : Nat) (cause : Cause) :
    Completes foreign floor (giveUp offset cause) t fun _ u => Abides fine s u :=
  .of_concludes ((Concludes.of_ends (ends_giveUp between.settled between.attends offset cause)).mono
    fun _ _ left => .of_moves (moves.trans left))

/-- A statement goes on aside, behind what was read of it. -/
lemma completes_behind {step : Parser α} (moves : Moves s t)
    (concludes : Concludes step t fun _ u => Abides fine t u) :
    Completes foreign floor step t fun _ u => Abides fine s u :=
  .of_concludes (concludes.mono fun _ _ => (Abides.of_moves moves).trans)

/-- **An operator statement** leaves the macros. -/
lemma completes_operatorStatement (between : Between s) (keyword : Bool)
    (enough : s.here.rest.length < fuel) :
    Completes foreign floor (operatorStatement options fuel keyword) s fun _ t => Abides fine s t := by
  refine .after (ends_advance between.settled true .word) fun word t settled taken => ?_
  have moves := taken.2.1
  refine .after (ends_advance settled false .symbol) fun symbol u settled taken => ?_
  have moves := moves.trans taken.2.1
  split
  · exact completes_giveUp (between.moved settled moves) moves _ _
  refine .after (ends_advance settled false .word) fun asWord v settled taken => ?_
  have moves := moves.trans taken.2.1
  split
  · exact completes_giveUp (between.moved settled moves) moves _ _
  refine .after (ends_clauseList fuel (between.moved settled moves)
    (Nat.lt_of_le_of_lt moves.onward.le enough) []) fun found w settled further => ?_
  have moves := moves.trans further
  cases found with
  | none => exact .of_concludes (.pure (.of_moves moves))
  | some clauses =>
    refine .after (ends_operatorAlias (between.moved settled moves)) fun found x settled further => ?_
    have moves := moves.trans further
    cases found with
    | none => exact completes_behind moves (.pure (.refl x))
    | some aliasName =>
      dsimp only
      split
      · exact completes_behind moves (abides_registerOperator _ _)
      · exact completes_behind moves (abides_note _)

/-! ### Taking definitions back, and importing them -/

lemma abides_warnIfNone (removed offset : Nat) (cause : Cause) :
    Concludes (warnIfNone removed offset cause) s fun _ t => Abides fine s t :=
  (Concludes.warnIfNone removed offset cause).mono (by rintro _ _ ⟨reports, rfl⟩; exact .of_told)

/-- Taking a macro back. -/
lemma completes_undefineMacro (between : Between s) (function : Bool) :
    Completes foreign floor (undefineMacro function) s fun _ t => Abides fine s t := by
  refine .after (ends_advance between.settled false .word) fun name t settled taken => ?_
  have moves := taken.2.1
  split
  · exact completes_giveUp (between.moved settled moves) moves _ _
  refine .after (ends_emptyShape (between.moved settled moves) name) fun found u settled further => ?_
  have moves := moves.trans further
  cases found with
  | none => exact completes_behind moves (.pure (.refl u))
  | some shape =>
    have removes (kinds : List MacroKind) :
        Concludes (removeMacros name.content kinds) u fun _ v => Abides fine u v :=
      ⟨_, _, rfl, rfl, fun every => every.remove _ _⟩
    exact completes_behind moves (abides_bind (removes _) fun _ _ => abides_warnIfNone _ _ _)

/-- Taking an operator back. -/
lemma completes_undefineOperator (between : Between s) (word : String) (keyword : Bool) :
    Completes foreign floor (undefineOperator word keyword) s fun _ t => Abides fine s t := by
  refine .after (ends_advance between.settled false .symbol) fun symbol t settled taken => ?_
  split
  · exact completes_giveUp (between.moved settled taken.2.1) taken.2.1 _ _
  have removes : Concludes (removeOperators symbol.content keyword) t fun _ u => Abides fine t u :=
    ⟨_, _, rfl, .of_same rfl rfl⟩
  exact completes_behind taken.2.1 (abides_bind removes fun _ _ =>
    abides_bind (abides_warnIfNone _ _ _) fun _ _ => abides_forget)

section Imports

variable (every : ∀ entry ∈ table, entry.2.value.Every fine)

include every

/-- What a table answers, which is macros of the sort. -/
lemma abides_resolveImport (path : String) :
    Concludes (resolveImport (tableResolver table) path) s fun answer t =>
      Abides fine s t ∧ ∀ definitions, answer = .ok definitions → definitions.value.Every fine := by
  rw [Concludes, resolveImport, tableResolver_eq]
  cases found : definitionsIn table path with
  | none => exact ⟨_, _, rfl, .refl s, by rintro _ ⟨⟩⟩
  | some definitions =>
    refine ⟨_, _, rfl, .refl s, ?_⟩
    rintro _ ⟨⟩
    obtain ⟨entry, inside, rfl⟩ := Option.map_eq_some_iff.mp found
    exact every entry (List.mem_of_find?_eq_some inside)

/-- **An importing statement** brings macros of the sort. -/
lemma completes_useStatement (between : Between s) :
    Completes foreign floor (useStatement (tableResolver table)) s fun _ t => Abides fine s t := by
  refine .after (ends_skipToken between.settled true .word) fun _ t settled skipped => ?_
  have moves := skipped.1
  refine .after (ends_publicMark settled) fun isPublic u settled further => ?_
  have moves := moves.trans further
  refine .after (ends_importPath? (between.moved settled moves)) fun found v settled further => ?_
  have moves := moves.trans further
  cases found with
  | none => exact completes_behind moves (.pure (.refl v))
  | some named =>
    obtain ⟨path, offset⟩ := named
    refine completes_behind moves ((abides_resolveImport every path).bind fun answer w resolved => ?_)
    refine Concludes.mono ?_ fun _ _ => resolved.1.trans
    cases answer with
    | error failure => exact abides_bind (abides_note _) fun _ _ => abides_forget
    | ok definitions =>
      have brought := resolved.2 definitions rfl
      have visible : Concludes (importVisible definitions.value) w fun _ x => Abides fine w x :=
        ⟨_, _, rfl, rfl, fun every => every.copyFrom brought⟩
      have told (conflicts : List Report) {x : ParserState} : Concludes (do
          conflicts.forM fun conflict => note (conflict.asWarning.atOffset offset)
          forget) x fun _ y => Abides fine x y :=
        abides_bind (abides_notes _) fun _ _ => abides_forget
      refine abides_bind visible fun conflicts x => ?_
      dsimp only
      split
      · have exported : Concludes (importExported definitions.value) x fun _ y => Abides fine x y :=
          ⟨_, _, rfl, .of_same rfl rfl⟩
        exact abides_bind exported fun _ _ => told _
      · exact told _

/-- Taking an import back. -/
lemma completes_undefineImport (between : Between s) :
    Completes foreign floor (undefineImport (tableResolver table)) s fun _ t => Abides fine s t := by
  refine .after (ends_importPath? between) fun found t settled moves => ?_
  cases found with
  | none => exact completes_behind moves (.pure (.refl t))
  | some named =>
    obtain ⟨path, offset⟩ := named
    refine completes_behind moves ((abides_resolveImport every path).bind fun answer u resolved => ?_)
    refine Concludes.mono ?_ fun _ _ => resolved.1.trans
    cases answer with
    | error failure => exact abides_note _
    | ok definitions =>
      have removes : Concludes (removeImported definitions.value) u fun _ v => Abides fine u v :=
        ⟨_, _, rfl, rfl, fun every => every.removeAll _⟩
      exact abides_bind removes fun _ _ =>
        abides_bind (abides_warnIfNone _ _ _) fun _ _ => abides_forget

/-- **A statement that takes definitions back.** -/
lemma completes_undefineStatement (between : Between s) :
    Completes foreign floor (undefineStatement (tableResolver table)) s fun _ t => Abides fine s t := by
  refine .after (ends_skipToken between.settled true .word) fun _ t settled skipped => ?_
  refine .after (ends_advance settled false .word) fun what u settled taken => ?_
  have moves := skipped.1.trans taken.2.1
  have between := between.moved settled moves
  have behind {step : Parser Unit} (completes : Completes foreign floor step u fun _ t => Abides fine u t) :
      Completes foreign floor step u fun _ t => Abides fine s t :=
    completes.mono fun _ _ => (Abides.of_moves moves).trans
  split
  · exact behind (completes_undefineMacro between false)
  · exact behind (completes_undefineMacro between true)
  · exact behind (completes_undefineOperator between _ false)
  · exact behind (completes_undefineOperator between _ true)
  · exact behind (completes_undefineImport every between)
  · exact completes_giveUp between moves _ _

end Imports

end

/-! ## Whole sources -/

section

variable {table : List (String × Shared Definitions)}
  (every : ∀ entry ∈ table, entry.2.value.Every (Numbered foreign))

include every

/-- **A definition statement.** -/
lemma completes_definitionStatement (tidy : Tidy foreign s) (outside : s.scope = none)
    (opening : StatementKeyword) (enough : s.lexis.cost s.here + s.lexis.pace ≤ fuel) :
    Completes foreign s.lastId (definitionStatement options (tableResolver table) fuel opening) s
      fun _ t => Issued foreign t := by
  have between : Between s :=
    ⟨tidy.settled, tidy.attends, tidy.shallow ▸ Nat.zero_le _⟩
  have pace := s.lexis.ten_le_pace
  have paid : s.here.rest.length ≤ s.lexis.cost s.here := Nat.le_mul_of_pos_right _ (by omega)
  have abides {step : Parser Unit} (completes : Completes foreign s.lastId step s fun _ t =>
      Abides (Numbered (issued foreign s.lastId)) s t) :
      Completes foreign s.lastId step s fun _ t => Issued foreign t :=
    completes.mono fun _ _ abides => abides.issued tidy.issued
  have brought : ∀ entry ∈ table, entry.2.value.Every (Numbered (issued foreign s.lastId)) :=
    fun entry member macro_ inside => (every entry member macro_ inside).mono fun _ => .inr
  cases opening with
  | template => exact completes_macroStatement tidy outside false enough
  | function => exact completes_macroStatement tidy outside true enough
  | operator => exact abides (completes_operatorStatement between false (by omega))
  | keyword => exact abides (completes_operatorStatement between true (by omega))
  | undefine => exact abides (completes_undefineStatement brought between)
  | use => exact abides (completes_useStatement brought between)

/-- **A statement or a value** comes to an end, with that exception. -/
theorem completes_parseStatement (settled : s.Settled) (resting : s.Resting) (issued : Issued foreign s) :
    Completes foreign s.lastId
      (parseStatement options (tableResolver table) (s.reads true .word).token) s
        fun _ t => Issued foreign t := by
  have tidy : Tidy foreign s := ⟨settled, resting.attends, resting.depth, issued⟩
  have pay : Ends valueFuel s fun fuel t => s.lexis.cost s.here + s.lexis.pace = fuel ∧ s = t :=
    ⟨_, s, valueFuel_eq settled, settled, rfl, rfl⟩
  refine .after pay ?_
  rintro _ _ - ⟨rfl, rfl⟩
  refine .after (ends_statementKeyword? settled) fun opening t settled has => ?_
  have rises : Rises foreign s t := .of_moves tidy settled has.2.1
  have enough := rises.enough (Nat.le_refl _)
  cases opening with
  | some opening =>
    have statement : Completes foreign t.lastId
        (definitionStatement options (tableResolver table) _ opening) t _ :=
      completes_definitionStatement every rises.tidy (rises.outside resting.scope) opening enough
    exact (statement.lower rises.le).bind fun _ _ issued => .of_concludes (.pure issued)
  | none =>
    have unscoped : ∀ scope ∈ t.scope, scope = .start [] := by simp [rises.outside resting.scope]
    exact .after (ends_parseValue_rises rises.tidy unscoped enough) fun _ _ _ read =>
      .of_concludes (.pure read.1.tidy.issued)

omit every in
/-- What is left after a fault. -/
lemma issued_isolate (issued : Issued foreign s) (offset : Nat) (fault : Fault) :
    Leaves (isolate offset fault) s fun _ t => Issued foreign t := by
  set fresh : ParserState := { s with
    scope := none, depth := 0, recovering := false, suppressed := false, awaited := []
    tokens := s.tokens.forget }
  have settled : fresh.Settled := ⟨rfl, trivial⟩
  have given : Issued foreign fresh := issued
  intro _ t run
  obtain ⟨_, _, left, -, moves⟩ := ends_giveUp settled rfl offset (.fault fault.detail)
  obtain ⟨-, rfl⟩ := ok_unique left run
  exact given.moved moves

/-- **A round of a source** leaves macros in force whose fallbacks have numbers that were given out, also
where a statement breaks off. -/
lemma issued_roundFrom (settled : s.Settled) (resting : s.Resting) (issued : Issued foreign s) :
    Leaves (roundFrom options (tableResolver table) (s.reads true .word).token) s
      fun _ t => Issued foreign t := by
  have misplaced (cause : Cause) : Leaves (do
      skipToken true .word
      complain (s.reads true .word).token.start cause
      return ([] : List Node)) s fun _ t => Issued foreign t :=
    .after (ends_skipToken settled true .word) fun _ _ settled skipped =>
      .after (ends_complain settled _ cause) fun _ _ _ noted =>
        .pure (issued.moved (skipped.1.trans noted.1))
  rw [roundFrom]
  split
  · exact misplaced .redundantComma
  split
  · exact .after (ends_skipToken settled true .word) fun _ _ _ skipped => .pure (issued.moved skipped.1)
  split
  · exact misplaced (.unexpectedCloser _)
  intro added u run
  obtain ⟨outcome, t, tried, rest⟩ := bind_eq_ok.mp run
  have statement : Completes foreign s.lastId
      (parseStatement options (tableResolver table) (s.reads true .word).token) s _ :=
    completes_parseStatement every settled resting issued
  rcases statement with ⟨value, v, read, issued⟩ | ⟨fault, v, broken, -, issued⟩
  · rw [attempt, read] at tried
    cases tried
    obtain ⟨settled, resting⟩ := ends_parseStatement_resting settled resting read
    have ended : Leaves (do endStatement; return value.toList) t fun _ t => Issued foreign t :=
      .after (ends_endStatement (resting.outside settled)) fun _ _ _ left => .pure (issued.moved left.1)
    exact ended added u rest
  · rw [attempt, broken] at tried
    cases tried
    have isolated : Leaves (do isolate (s.reads true .word).token.start fault; return ([] : List Node)) t
        fun _ t => Issued foreign t :=
      (issued_isolate issued _ fault).bind fun _ _ issued => .pure issued
    exact isolated added u rest

/-- **So it is between any two statements**, by induction on the rounds. -/
theorem issued_of_reaches (settled : s.Settled) (resting : s.Resting) (issued : Issued foreign s)
    (reaches : Reaches options (tableResolver table) s t) : Issued foreign t := by
  induction reaches with
  | here => exact issued
  | @round s _ _ values _ more run others ih =>
    obtain ⟨v, added, looked, taken⟩ := exists_taken_of_round settled more run
    obtain ⟨_, _, round, further, rests, -⟩ := ends_sourceRound_resting settled resting values
    obtain ⟨rfl, rfl⟩ := ok_unique round run
    obtain ⟨same, begun, moves, -⟩ := moves_of_peek settled looked
    rw [same] at taken
    exact ih further rests
      (issued_roundFrom every begun (resting.moved moves) (issued.moved moves) added _ taken)

end

/-- No macro is in force where a source begins. -/
lemma issued_initial (foreign : Nat → Prop) (options : CompileOptions) (source : Source)
    (imports : ImportState) : Issued foreign (initial options source imports) := by
  rintro _ ⟨⟩

/-- **Every statement of a source comes to an end**, unless a number of an imported fallback is given out
again in it.

* With any table of definitions, whose macros have fallbacks with some foreign numbers: between two
  statements the macros in force have no other numbers than these and those that were given out, and the
  next statement breaks off only where one of these is given out again.
* In a source that imports nothing no statement breaks off. -/
theorem completes_of_reaches (options : CompileOptions) (source : Source) (imports : ImportState) :
    (∀ foreign table, (∀ entry ∈ table, entry.2.value.Every (Numbered foreign)) →
      ∀ s, Reaches options (tableResolver table) (initial options source imports) s →
        Issued foreign s ∧ ∀ token t, peek true .word s = .ok token t →
          Completes foreign s.lastId (parseStatement options (tableResolver table) token) t
            fun _ u => Issued foreign u) ∧
    ∀ resolver, ImportFree options resolver (initial options source imports) →
      ∀ s, Reaches options resolver (initial options source imports) s →
        ∀ token t, peek true .word s = .ok token t →
          ∃ value u, parseStatement options resolver token t = .ok value u := by
  have settled : (initial options source imports).Settled := (outside_initial source imports).settled
  have resting : (initial options source imports).Resting := resting_initial source imports
  have completes (foreign : Nat → Prop) (table : List (String × Shared Definitions))
      (every : ∀ entry ∈ table, entry.2.value.Every (Numbered foreign)) (s : ParserState)
      (reaches : Reaches options (tableResolver table) (initial options source imports) s) :
      Issued foreign s ∧ ∀ token t, peek true .word s = .ok token t →
        Completes foreign s.lastId (parseStatement options (tableResolver table) token) t
          fun _ u => Issued foreign u := by
    have issued := issued_of_reaches every settled resting (issued_initial foreign options source imports) reaches
    refine ⟨issued, fun token t looked => ?_⟩
    obtain ⟨settled, resting⟩ := resting_of_reaches settled resting reaches
    obtain ⟨rfl, begun, moves, -⟩ := moves_of_peek settled looked
    rw [← moves.lastId]
    exact completes_parseStatement every begun (resting.moved moves) (issued.moved moves)
  refine ⟨completes, fun resolver free s reaches token t looked => ?_⟩
  -- Without imports any table will do, and the empty one has no foreign numbers.
  have alike : Reaches options (tableResolver []) (initial options source imports) s :=
    reaches_of_importFree settled resting
      (fun u further => free u (reaches_of_importFree settled resting free further)) reaches
  have statement := (completes (fun _ => False) [] nofun s alike).2 token t looked
  obtain ⟨settled, -⟩ := resting_of_reaches settled resting reaches
  obtain ⟨rfl, begun, moves, stays⟩ := moves_of_peek settled looked
  have plain : t.lexis.isImportFree t.here = true := by
    rw [moves.lexis, stays]
    exact free s reaches
  rw [parseStatement_of_importFree (tableResolver []) begun plain]
  rcases statement with ⟨value, u, run, -⟩ | ⟨_, _, -, ⟨_, foreign, -⟩, -⟩
  · exact ⟨value, u, run⟩
  · exact foreign.elim

/-- For instance, the fallback of `f` has the number that the parameter of `g` is given once more. -/
example :
    let table := (precompile {} [("lib", ⟨"lib", "macro f[x = d]: [x]"⟩)] {}).1
    (compile {} (tableResolver table) ⟨"", "use lib\nmacro g[p]: [p, f[]]\ng[1]"⟩ {}).1.reports
      = [.errorAt 8 (.fault "attempt to subtract with overflow")] := by
  decide +kernel

end Parser

end TreeLang
