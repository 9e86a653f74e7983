import TreeLang.Proofs.Reporting
import TreeLang.Proofs.Upholding

/-!
# What a definition statement changes

A definition is entered for the source that it stands in and for the importers of that source.  A statement
that is mistaken enters nothing, and records an error.  What is mistaken in the parameters of a macro but can
be made up for is no reason not to enter the macro; a mistake in its template is.  A definition that the
source refuses is not entered for importers either.  It may be refused for importers alone, if something
else was handed on to them that the source itself refused; that takes a public import.

* `Definitions.enter?`, `Definitions.Within` — one more definition, and fewer definitions, which have less
  in its way.
* `Spares`, `Mistakes` — nothing is defined, without or with an error.
* `Enters`, **`Settles`** — how a definition is entered, and what becomes of a definition statement.
* **`changes_macroStatement`**, **`changes_operatorStatement`** — the statements that define something.
* **`settles_of_reaches`** — without public imports they enter a definition wholly or not at all.
-/

namespace TreeLang

/-- What a statement defines. -/
inductive Entry where
  | ofMacro (new : Shared MacroDefinition)
  | ofOperator (op : OperatorDefinition)

/-! ## Sets of definitions -/

section

variable {α β : Type}

/-- What is counted while it is taken away makes no difference to what is left. -/
lemma rel_foldl_snd {R : β → β → Prop} {step : Nat × β → α → Nat × β}
    (h : ∀ x y item, R x.2 y.2 → R (step x item).2 (step y item).2) (items : List α) {x y : Nat × β}
    (related : R x.2 y.2) : R (items.foldl step x).2 (items.foldl step y).2 := by
  induction items generalizing x y with
  | nil => exact related
  | cons item rest ih => exact ih (h x y item related)

end

namespace MacroRegistry

variable {registry larger : MacroRegistry} {new : Shared MacroDefinition}

/-- **Among fewer macros a macro has fewer duplicates.** -/
lemma exists_add_of_subset (subset : registry.definitions ⊆ larger.definitions) {added : MacroRegistry}
    (enters : larger.add new = .ok added) :
    registry.add new = .ok ⟨insertOrdered new registry.definitions⟩ := by
  obtain ⟨-, unlike⟩ := unlike_of_add enters
  rw [add]
  split
  · rename_i existing found
    obtain ⟨member, same⟩ := List.mem_filter.mp (List.mem_of_find?_eq_some found)
    exact absurd (List.find?_some found) (unlike existing (subset member) (of_decide_eq_true same))
  · rfl

lemma subset_of_add {added : MacroRegistry} (enters : registry.add new = .ok added) :
    registry.definitions ⊆ added.definitions := by
  rw [(unlike_of_add enters).1]
  exact fun entry member => mem_insertOrdered.mpr (.inr member)

/-- What is there stays there when something is copied. -/
lemma subset_copyFrom (registry other : MacroRegistry) :
    registry.definitions ⊆ (registry.copyFrom other).2.definitions := by
  have copied (new : List (Shared MacroDefinition)) : ∀ state : List Report × MacroRegistry,
      state.2.definitions ⊆ (new.foldl copyOne state).2.definitions := by
    induction new with
    | nil => exact fun _ _ member => member
    | cons first rest ih =>
      rintro ⟨conflicts, registry⟩
      refine List.Subset.trans ?_ (ih _)
      rw [copyOne]
      split
      · exact fun _ member => member
      · split
        · rename_i added
          exact subset_of_add added
        · exact fun _ member => member
  exact copied _ ([], registry)

end MacroRegistry

namespace OperatorRegistry

variable {registry larger : OperatorRegistry} {op : OperatorDefinition}

lemma exists_add_of_subset (subset : registry.definitions ⊆ larger.definitions) {added : OperatorRegistry}
    (enters : larger.add op = .ok added) : registry.add op = .ok ⟨registry.definitions ++ [op]⟩ := by
  rw [add, conflict?_of_subset subset (conflict?_of_add enters).1]

lemma subset_of_add {added : OperatorRegistry} (enters : registry.add op = .ok added) :
    registry.definitions ⊆ added.definitions := by
  rw [(conflict?_of_add enters).2]
  exact List.subset_append_left _ _

/-- What is there stays there when something is copied. -/
lemma subset_copyFrom (registry other : OperatorRegistry) :
    registry.definitions ⊆ (registry.copyFrom other).2.definitions := by
  have copied (new : List OperatorDefinition) : ∀ state : List OperatorConflict × OperatorRegistry,
      state.2.definitions ⊆ (new.foldl copyOne state).2.definitions := by
    induction new with
    | nil => exact fun _ _ member => member
    | cons first rest ih =>
      rintro ⟨conflicts, registry⟩
      refine List.Subset.trans ?_ (ih _)
      rw [copyOne]
      split
      · exact fun _ member => member
      · split
        · rename_i added
          exact subset_of_add added
        · exact fun _ member => member
  exact copied _ ([], registry)

end OperatorRegistry

namespace Definitions

variable {fewer more others : Definitions} {entry : Entry}

/-- A set with one more definition, if nothing is in its way. -/
def enter? (definitions : Definitions) : Entry → Option Definitions
  | .ofMacro new =>
    match definitions.macros.add new with
    | .ok macros => some { definitions with macros := macros }
    | .error _ => none
  | .ofOperator op =>
    match definitions.operators.add op with
    | .ok operators => some { definitions with operators := operators }
    | .error _ => none

lemma enter?_ofMacro {new : Shared MacroDefinition} {macros : MacroRegistry}
    (added : more.macros.add new = .ok macros) :
    more.enter? (.ofMacro new) = some { more with macros := macros } := by
  rw [enter?, added]

lemma enter?_ofOperator {op : OperatorDefinition} {operators : OperatorRegistry}
    (added : more.operators.add op = .ok operators) :
    more.enter? (.ofOperator op) = some { more with operators := operators } := by
  rw [enter?, added]

lemma enter?_eq_none_of_macro {new : Shared MacroDefinition} {report : Report}
    (refused : more.macros.add new = .error report) : more.enter? (.ofMacro new) = none := by
  rw [enter?, refused]

lemma enter?_eq_none_of_operator {op : OperatorDefinition} {conflict : OperatorConflict}
    (refused : more.operators.add op = .error conflict) : more.enter? (.ofOperator op) = none := by
  rw [enter?, refused]

/-- How a definition enters. -/
lemma exists_of_enter? (enters : more.enter? entry = some others) :
    (∃ new macros, entry = .ofMacro new ∧ more.macros.add new = .ok macros ∧
      others = { more with macros := macros }) ∨
    ∃ op operators, entry = .ofOperator op ∧ more.operators.add op = .ok operators ∧
      others = { more with operators := operators } := by
  cases entry with
  | ofMacro new =>
    rw [enter?] at enters
    split at enters
    · rename_i macros added
      exact .inl ⟨new, macros, rfl, added, (Option.some.inj enters).symm⟩
    · cases enters
  | ofOperator op =>
    rw [enter?] at enters
    split at enters
    · rename_i operators added
      exact .inr ⟨op, operators, rfl, added, (Option.some.inj enters).symm⟩
    · cases enters

/-- Whatever is in one set is in another one. -/
structure Within (fewer more : Definitions) : Prop where
  macros : fewer.macros.definitions ⊆ more.macros.definitions
  operators : fewer.operators.definitions ⊆ more.operators.definitions

namespace Within

lemma trans (within : fewer.Within more) (further : more.Within others) : fewer.Within others :=
  ⟨List.Subset.trans within.macros further.macros, List.Subset.trans within.operators further.operators⟩

lemma of_copyFrom (more other : Definitions) : more.Within (more.copyFrom other).2 :=
  ⟨MacroRegistry.subset_copyFrom _ _, OperatorRegistry.subset_copyFrom _ _⟩

lemma removeAll (within : fewer.Within more) (other : Definitions) :
    (fewer.removeAll other).2.Within (more.removeAll other).2 where
  macros := rel_foldl_snd (R := fun a b : MacroRegistry => a.definitions ⊆ b.definitions)
    (fun _ _ _ subset => List.filter_subset _ subset) _ within.macros
  operators := rel_foldl_snd (R := fun a b : OperatorRegistry => a.definitions ⊆ b.definitions)
    (fun _ _ _ subset => List.filter_subset _ subset) _ within.operators

lemma removeMacros (within : fewer.Within more) (name : String) (kinds : List MacroKind) :
    Within { fewer with macros := (fewer.macros.remove name kinds).2 }
      { more with macros := (more.macros.remove name kinds).2 } := by
  refine ⟨?_, within.operators⟩
  simp only [MacroRegistry.remove, List.partition_eq_filter_filter]
  exact List.filter_subset _ within.macros

lemma removeOperators (within : fewer.Within more) (name : String) (keyword : Bool) :
    Within { fewer with operators := (fewer.operators.remove name keyword).2 }
      { more with operators := (more.operators.remove name keyword).2 } := by
  refine ⟨within.macros, ?_⟩
  simp only [OperatorRegistry.remove, List.partition_eq_filter_filter]
  exact List.filter_subset _ within.operators

/-- **Among fewer definitions less is in the way** of one more. -/
lemma enters (within : fewer.Within more) (enters : more.enter? entry = some others) :
    ∃ extended, fewer.enter? entry = some extended ∧ extended.Within others := by
  rcases exists_of_enter? enters with ⟨new, macros, rfl, added, rfl⟩ | ⟨op, operators, rfl, added, rfl⟩
  · have enters := MacroRegistry.exists_add_of_subset within.macros added
    refine ⟨_, enter?_ofMacro enters, ?_, within.operators⟩
    rw [(MacroRegistry.unlike_of_add added).1]
    intro entry member
    exact MacroRegistry.mem_insertOrdered.mpr
      ((MacroRegistry.mem_insertOrdered.mp member).imp_right (within.macros ·))
  · have enters := OperatorRegistry.exists_add_of_subset within.operators added
    refine ⟨_, enter?_ofOperator enters, within.macros, ?_⟩
    rw [(OperatorRegistry.conflict?_of_add added).2]
    exact List.append_subset.mpr
      ⟨List.subset_append_of_subset_left _ within.operators, List.subset_append_right _ _⟩

end Within

end Definitions

namespace Parser

variable {α β : Type} {options : CompileOptions} {resolver : Resolver} {s t u : ParserState}
  {fuel : Nat}

/-! ## Statements that define nothing -/

/-- **Something was read, and nothing defined**; mistakes are reported. -/
structure Spares (s t : ParserState) : Prop where
  visible : t.visible = s.visible
  exported : t.exported = s.exported
  errors : s.errors ≤ t.errors
  attends : t.recovering = false

/-- **Something was mistaken, and nothing defined**: an error was recorded. -/
structure Mistakes (s t : ParserState) : Prop extends Spares s t where
  told : s.errors < t.errors

namespace Spares

lemma refl (attends : s.recovering = false) : Spares s s :=
  ⟨rfl, rfl, le_rfl, attends⟩

lemma trans (first : Spares s t) (second : Spares t u) : Spares s u :=
  ⟨second.visible.trans first.visible, second.exported.trans first.exported,
    first.errors.trans second.errors, second.attends⟩

lemma mistakes (first : Spares s t) (second : Mistakes t u) : Mistakes s u :=
  ⟨first.trans second.toSpares, first.errors.trans_lt second.told⟩

end Spares

lemma Mistakes.spares (first : Mistakes s t) (second : Spares t u) : Mistakes s u :=
  ⟨first.toSpares.trans second, first.told.trans_le second.errors⟩

/-- **What a step does to the definitions**, if it comes to an end; one that breaks off does nothing. -/
structure Changes (step : Parser α) (s : ParserState) (property : α → ParserState → Prop) : Prop where
  ends : Leaves step s property
  breaks : ∀ fault t, step s = .error fault t → t.visible = s.visible ∧ t.exported = s.exported

namespace Changes

variable {step : Parser α} {next : α → Parser β} {property weaker : α → ParserState → Prop}
  {result : β → ParserState → Prop}

lemma of_blind (blind : Blind step) (attends : s.recovering = false) :
    Changes step s fun _ t => Spares s t where
  ends _ _ run :=
    have ⟨visible, exported, _⟩ := blind.of_ok run
    ⟨visible, exported, ParserState.errors_le ((Accumulates.of_blind blind).ok run),
      blind.attends run attends⟩
  breaks _ _ run :=
    have ⟨visible, exported, _⟩ := blind.of_error run
    ⟨visible, exported⟩

lemma of_concludes (concludes : Concludes step s property) : Changes step s property := by
  obtain ⟨value, t, run, holds⟩ := concludes
  refine ⟨fun _ _ other => ?_, fun _ _ other => ?_⟩
  · obtain ⟨rfl, rfl⟩ := ok_unique run other
    exact holds
  · rw [run] at other
    cases other

lemma mono (changes : Changes step s property) (h : ∀ value t, property value t → weaker value t) :
    Changes step s weaker :=
  ⟨changes.ends.mono h, changes.breaks⟩

lemma and (changes : Changes step s property) (leaves : Leaves step s weaker) :
    Changes step s fun value t => property value t ∧ weaker value t :=
  ⟨changes.ends.and leaves, changes.breaks⟩

lemma pure {value : α} (holds : property value s) : Changes (Pure.pure value) s property :=
  ⟨.pure holds, by rintro _ _ ⟨⟩⟩

/-- A step with another answer. -/
lemma returning {value : β} (first : Changes step s property)
    (h : ∀ other t, property other t → result value t) :
    Changes (step >>= fun _ => Pure.pure value) s result where
  ends := first.ends.bind fun other t has => .pure (h other t has)
  breaks fault t run := by
    cases begun : step s with
    | ok other u =>
      rw [bind_ok begun] at run
      cases run
    | error fault u =>
      rw [bind_error begun] at run
      cases run
      exact first.breaks fault _ begun

/-- A step behind one that defines nothing. -/
lemma after (first : Changes step s fun value t => Spares s t ∧ property value t)
    (second : ∀ value t, Spares s t → property value t → Changes (next value) t result) :
    Changes (step >>= next) s result where
  ends := first.ends.bind fun value t has => (second value t has.1 has.2).ends
  breaks fault t run := by
    cases begun : step s with
    | ok value u =>
      obtain ⟨spares, has⟩ := first.ends value u begun
      rw [bind_ok begun] at run
      obtain ⟨visible, exported⟩ := (second value u spares has).breaks fault t run
      exact ⟨visible.trans spares.visible, exported.trans spares.exported⟩
    | error fault u =>
      rw [bind_error begun] at run
      cases run
      exact first.breaks fault _ begun

/-- A step behind one that looks at no definitions. -/
lemma behind (blind : Blind step) (attends : s.recovering = false)
    (second : ∀ value t, Spares s t → Changes (next value) t result) :
    Changes (step >>= next) s result := by
  have first : Changes step s fun _ t => Spares s t ∧ True :=
    (of_blind blind attends).mono fun _ _ spares => ⟨spares, trivial⟩
  exact first.after fun value t spares _ => second value t spares

end Changes

/-- An error is recorded. -/
lemma changes_note {report : Report} (error : report.isError) (attends : s.recovering = false) :
    Changes (note report) s fun _ t => Mistakes s t := by
  refine ((Changes.of_blind (blind_note report) attends).and fun _ t run => ?_).mono
    fun _ _ has => ⟨has.1, has.2⟩
  rw [note_eq, attends] at run
  cases run
  show s.errors < (s.reports.push report).countP Report.isError
  rw [Array.countP_push, if_pos error]
  exact Nat.lt_succ_self _

lemma changes_complain (offset : Nat) (cause : Cause) (attends : s.recovering = false) :
    Changes (complain offset cause) s fun _ t => Mistakes s t :=
  changes_note rfl attends

/-- A mistake for which a statement is given up. -/
lemma changes_giveUp (offset : Nat) (cause : Cause) (attends : s.recovering = false) :
    Changes (giveUp offset cause) s fun _ t => Mistakes s t :=
  .after ((changes_complain offset cause attends).mono fun _ _ mistakes => ⟨mistakes.toSpares, mistakes⟩)
    fun _ _ _ mistakes => (Changes.of_blind (blind_recover none) mistakes.attends).mono
      fun _ _ => mistakes.spares

/-! ## The parameters of a macro -/

section Parameters

variable {step : Parser α} {next : α → Parser β} {result : β → ParserState → Prop} {base : Nat}

/-- Behind a step that looks at no definitions. -/
lemma Spares.leaves (attends : s.recovering = false) (blind : Blind step)
    (second : ∀ value t, Spares s t → Leaves (next value) t result) :
    Leaves (step >>= next) s result :=
  (Changes.of_blind blind attends).ends.bind second

/-- A mistaken type is reported. -/
lemma told_parameterType (attends : s.recovering = false) (parameter : Parameter) :
    Leaves (parameterType parameter) s fun found t => found.2 = false → s.errors < t.errors := by
  refine Spares.leaves attends (blind_peek false .parameter) fun colon t spares => ?_
  split
  · refine Spares.leaves spares.attends (blind_skipToken false .parameter) fun _ u further => ?_
    have spares := spares.trans further
    refine Spares.leaves spares.attends (blind_advance false .word) fun type v further => ?_
    have spares := spares.trans further
    split
    · exact .pure (by rintro ⟨⟩)
    · exact (changes_complain _ _ spares.attends).ends.bind fun _ w mistakes =>
        .pure fun _ => (spares.mistakes mistakes).told
  · exact .pure (by rintro ⟨⟩)

lemma blind_parameterFallback (parameter : Parameter) :
    Blind (parameterFallback options fuel parameter) :=
  (blind_peek _ _).bind fun _ => .ite
    ((blind_skipToken _ _).bind fun _ => (blind_parseValue _ _).bind fun _ => .pure _) (.pure _)

/-- So is a missing separator. -/
lemma told_parameterSeparator (attends : s.recovering = false) (closer : TokenKind)
    (parameter : Parameter) :
    Leaves (parameterSeparator closer parameter) s fun found t => found = false → s.errors < t.errors := by
  refine Spares.leaves attends (blind_peek false .parameter) fun token t spares => ?_
  split
  · exact Spares.leaves spares.attends (blind_skipToken false .parameter) fun _ _ _ => .pure (by rintro ⟨⟩)
  refine .closesAwaited ?_
  split
  · exact .pure (by rintro ⟨⟩)
  refine (changes_complain _ _ spares.attends).ends.bind fun _ u mistakes => ?_
  exact Spares.leaves mistakes.attends (blind_recover (some closer)) fun _ _ further =>
    .pure fun _ => (spares.mistakes (mistakes.spares further)).told

/-- **Where parameters are missing, an error was recorded**, by induction on the bound. -/
theorem told_parameterList (fuel : Nat) (closer : TokenKind) (attends : s.recovering = false)
    (known : List Parameter) {complete : Bool} (le : base ≤ s.errors)
    (told : complete = false → base < s.errors) :
    Leaves (parameterList options closer fuel known complete) s
      fun found t => found = none → base < t.errors := by
  induction fuel generalizing s known complete with
  | zero => rintro _ _ ⟨⟩
  | succ fuel ih =>
    rw [parameterList]
    refine Spares.leaves attends (blind_peek true .parameter) fun token t spares => ?_
    split
    · refine Spares.leaves spares.attends (blind_skipToken true .parameter) fun _ u further => .pure ?_
      have spares := spares.trans further
      split
      · rintro ⟨⟩
      · rename_i incomplete
        exact fun _ => (told (Bool.eq_false_of_not_eq_true incomplete)).trans_le spares.errors
    refine .closesAwaited ?_
    split
    · exact (changes_complain _ _ spares.attends).ends.bind fun _ u mistakes =>
        .pure fun _ => le.trans_lt (spares.mistakes mistakes).told
    split
    · refine Spares.leaves spares.attends (blind_skipToken true .parameter) fun _ u further => ?_
      have spares := spares.trans further
      refine (changes_complain _ _ spares.attends).ends.bind fun _ v mistakes => ?_
      have spares := spares.trans mistakes.toSpares
      exact ih spares.attends known (le.trans spares.errors) fun h => (told h).trans_le spares.errors
    split
    · refine Spares.leaves spares.attends (blind_skipToken true .parameter) fun _ u further => ?_
      have spares := spares.trans further
      refine ((Changes.of_blind (blind_parameterType _) spares.attends).and
        (told_parameterType spares.attends _)).ends.bind fun found v typed => ?_
      obtain ⟨parameter, wellTyped⟩ := found
      obtain ⟨further, typed⟩ := typed
      have typed (h : wellTyped = false) : base < v.errors :=
        (le.trans spares.errors).trans_lt (typed h)
      have spares := spares.trans further
      refine Spares.leaves spares.attends (blind_parameterFallback parameter) fun parameter w further => ?_
      have spares := spares.trans further
      have before := le.trans spares.errors
      refine ((Changes.of_blind (blind_parameterSeparator closer parameter) spares.attends).and
        (told_parameterSeparator spares.attends closer parameter)).ends.bind fun separated x told' => ?_
      obtain ⟨last, separates⟩ := told'
      have spares := spares.trans last
      refine ih spares.attends _ (le.trans spares.errors) fun h => ?_
      rw [Bool.and_eq_false_iff, Bool.and_eq_false_iff] at h
      rcases h with (incomplete | mistyped) | run
      · exact (told incomplete).trans_le spares.errors
      · exact (typed mistyped).trans_le (further.errors.trans last.errors)
      · exact before.trans_lt (separates run)
    · refine (changes_complain _ _ spares.attends).ends.bind fun _ u mistakes => ?_
      refine Spares.leaves mistakes.attends (blind_recover (some closer)) fun _ v further => ?_
      have mistakes := spares.mistakes (mistakes.spares further)
      exact ih mistakes.attends known (le.trans mistakes.errors) fun _ => le.trans_lt mistakes.told

/-- Where the head of a macro is missing, an error was recorded. -/
lemma told_macroHead (attends : s.recovering = false) (function : Bool) (name : Token) :
    Leaves (macroHead options fuel function name) s fun found t => found = none → s.errors < t.errors := by
  refine Spares.leaves attends (blind_attachedOpener? name) fun opener t spares => ?_
  match opener with
  | none => exact .pure (by rintro ⟨⟩)
  | some opener =>
    refine Spares.leaves spares.attends (blind_skipToken false .word) fun _ u further => .modify ?_
    have spares := spares.trans further
    set closer := opener.kind.closer?.getD .rParen
    have waiting : Spares s (u.awaiting closer) :=
      ⟨spares.visible, spares.exported, spares.errors, spares.attends⟩
    have told : Leaves (parameterList options closer fuel [] true) (u.awaiting closer)
        fun found t => found = none → s.errors < t.errors :=
      told_parameterList fuel closer waiting.attends [] waiting.errors (by rintro ⟨⟩)
    exact told.bind fun found v told => .modify (.pure fun none => told (Option.map_eq_none_iff.mp none))

end Parameters

/-! ## Entering a definition -/

/-- **How a definition is entered**: for the source and for its importers, for the source alone, or not at
all.  Whoever refuses it says so. -/
inductive Enters (entry : Entry) (s t : ParserState) : Prop
  | wholly (visible : s.visible.enter? entry = some t.visible)
      (exported : s.exported.enter? entry = some t.exported) (silent : t.reports = s.reports)
  | halfway (visible : s.visible.enter? entry = some t.visible)
      (refused : s.exported.enter? entry = none) (exported : t.exported = s.exported)
      (told : ∃ report, t.reports = s.reports.push report)
  | refused (refused : s.visible.enter? entry = none) (visible : t.visible = s.visible)
      (exported : t.exported = s.exported) (told : ∃ report, t.reports = s.reports.push report)

/-- **What becomes of a definition statement**: it is mistaken, or what it defines is entered. -/
inductive Settles (defines : Entry → ParserState → Prop)
    (enters : Entry → ParserState → ParserState → Prop) (s t : ParserState) : Prop
  | mistaken (mistakes : Mistakes s t)
  | entered {entry : Entry} {u : ParserState} (meant : defines entry u) (spares : Spares s u)
      (enters : enters entry u t)

section

variable {defines : Entry → ParserState → Prop} {enters : Entry → ParserState → ParserState → Prop}
  {property : Unit → ParserState → Prop}

lemma Spares.settles (first : Spares s t) (second : Settles defines enters t u) :
    Settles defines enters s u := by
  cases second with
  | mistaken mistakes => exact .mistaken (first.mistakes mistakes)
  | entered meant spares enters => exact .entered meant (first.trans spares) enters

end

/-- **A macro is entered.** -/
lemma changes_registerMacro (attends : s.recovering = false) (definition : MacroDefinition)
    (offset : Nat) : Changes (registerMacro definition offset) s fun _ t =>
      Enters (.ofMacro ⟨s.imports.supply.fresh, definition⟩) s t := by
  have entered := registerMacro_run definition offset s
  dsimp only at entered
  cases source : s.visible.macros.add ⟨s.imports.supply.fresh, definition⟩ with
  | error report =>
    simp only [source, note_eq, attends, Bool.false_eq_true, if_false] at entered
    exact .of_concludes
      ⟨_, _, entered, .refused (Definitions.enter?_eq_none_of_macro source) rfl rfl ⟨_, rfl⟩⟩
  | ok macros =>
    have visible := Definitions.enter?_ofMacro source
    cases importers : s.exported.macros.add ⟨s.imports.supply.fresh, definition⟩ with
    | error report =>
      simp only [source, importers, note_eq, attends, Bool.false_eq_true, if_false] at entered
      exact .of_concludes ⟨_, _, entered,
        .halfway visible (Definitions.enter?_eq_none_of_macro importers) rfl ⟨_, rfl⟩⟩
    | ok others =>
      simp only [source, importers] at entered
      exact .of_concludes ⟨_, _, entered, .wholly visible (Definitions.enter?_ofMacro importers) rfl⟩

/-- **An operator is entered.** -/
lemma changes_registerOperator (attends : s.recovering = false) (op : OperatorDefinition)
    (offset : Nat) :
    Changes (registerOperator options op offset) s fun _ t => Enters (.ofOperator op) s t := by
  have entered := registerOperator_run options op offset s
  dsimp only at entered
  cases source : s.visible.operators.add op with
  | error conflict =>
    simp only [source, Bind.bind, EStateM.bind, note_eq, attends, Bool.false_eq_true, if_false] at entered
    exact .of_concludes
      ⟨_, _, entered, .refused (Definitions.enter?_eq_none_of_operator source) rfl rfl ⟨_, rfl⟩⟩
  | ok operators =>
    have visible := Definitions.enter?_ofOperator source
    cases importers : s.exported.operators.add op with
    | error conflict =>
      simp only [source, importers, Bind.bind, EStateM.bind, note_eq, attends, Bool.false_eq_true,
        if_false] at entered
      exact .of_concludes ⟨_, _, entered,
        .halfway visible (Definitions.enter?_eq_none_of_operator importers) rfl ⟨_, rfl⟩⟩
    | ok others =>
      simp only [source, importers] at entered
      exact .of_concludes ⟨_, _, entered, .wholly visible (Definitions.enter?_ofOperator importers) rfl⟩

/-! ## Macro statements -/

/-- The marks of a template are those that were made on it. -/
lemma exists_scope_of_template {parameters : List Parameter} {found : Node × Option TemplateScope}
    (run : template options fuel parameters s = .ok found t) : ∃ scope, found.2 = some scope := by
  obtain ⟨_, _, look, run⟩ := bind_eq_ok.mp run
  cases look
  obtain ⟨_, _, begins, run⟩ := bind_eq_ok.mp run
  cases begins
  obtain ⟨node, u, read, run⟩ := bind_eq_ok.mp run
  cases run
  refine Option.ne_none_iff_exists'.mp fun none => ?_
  cases (StaysCalm.calms read).scope.mp none

/-- What is wrong with the parameters of a macro is an error. -/
lemma isError_of_checkParameters {kind : MacroKind} {parameters : List Parameter} {report : Report}
    (mistaken : checkParameters kind parameters = .error report) : report.isError := by
  rw [checkParameters] at mistaken
  split at mistaken
  · cases mistaken
    rfl
  · split at mistaken <;> cases mistaken
    rfl

/-- So is what is wrong with its template. -/
lemma isError_of_build {signature : Signature} {parameters : List Parameter} {template : Node}
    {references : Marks Reference} {deferred : Marks MacroKind} {report : Report}
    (mistaken : MacroDefinition.build signature parameters template references deferred
      = .error (.mistake report)) : report.isError := by
  rw [MacroDefinition.build] at mistaken
  dsimp only at mistaken
  split_ifs at mistaken
  · cases mistaken
    rfl
  · cases mistaken

/-- **A macro built of a template** in which no error was recorded. -/
def Drafted (options : CompileOptions) (fuel : Nat) (definition : MacroDefinition) (u : ParserState) :
    Prop :=
  ∃ (parameters : List Parameter) (s t : ParserState) (node : Node) (scope : TemplateScope)
    (warnings : List Report),
    template options fuel parameters s = .ok (node, some scope) t ∧ t.errors = s.errors ∧
      MacroDefinition.build definition.signature parameters node scope.references scope.deferred
        = .ok (definition, warnings) ∧ Spares t u

/-- What a macro statement defines. -/
def DefinesMacro (options : CompileOptions) (fuel : Nat) (entry : Entry) (u : ParserState) : Prop :=
  ∃ new, entry = .ofMacro new ∧ Drafted options fuel new.value u

/-- What an operator statement defines. -/
def DefinesOperator (keyword : Bool) (entry : Entry) (_ : ParserState) : Prop :=
  ∃ name clauses aliasName op, entry = .ofOperator op ∧
    buildOperator name keyword clauses aliasName = .ok op

lemma changes_throw (fault : Fault) {property : α → ParserState → Prop} :
    Changes (throw fault : Parser α) s property :=
  ⟨by rintro _ _ ⟨⟩, by rintro _ _ ⟨⟩; exact ⟨rfl, rfl⟩⟩

lemma changes_errorCount (attends : s.recovering = false) :
    Changes errorCount s fun count t => Spares s t ∧ count = s.errors ∧ s = t :=
  ⟨by rintro _ _ ⟨⟩; exact ⟨.refl attends, rfl, rfl⟩, by rintro _ _ ⟨⟩⟩

/-- Reading the template of a macro whose parameters are mistaken. -/
lemma changes_macroTemplate_error (attends : s.recovering = false) (name : Token)
    (signature : Signature) (parameters : List Parameter) (report : Report) :
    Changes (macroTemplate options fuel name signature parameters (.error report)) s
      fun _ t => Spares s t := by
  refine .after (changes_errorCount attends) ?_
  rintro _ _ - ⟨rfl, rfl⟩
  exact .behind (blind_template options fuel parameters) attends fun _ _ spares => .pure spares

/-- Reading the template of a macro, and entering the macro. -/
lemma changes_macroTemplate (attends : s.recovering = false) (name : Token) (signature : Signature)
    (parameters : List Parameter) :
    Changes (macroTemplate options fuel name signature parameters (.ok parameters)) s
      fun _ t => Settles (DefinesMacro options fuel) Enters s t := by
  refine .after (changes_errorCount attends) ?_
  rintro _ _ - ⟨rfl, rfl⟩
  refine .after ((Changes.of_blind (blind_template options fuel parameters) attends).and
    fun _ _ run => run) fun found t spares read => ?_
  obtain ⟨node, marks⟩ := found
  obtain ⟨scope, rfl⟩ := exists_scope_of_template read
  refine .after (changes_errorCount spares.attends) ?_
  rintro _ _ - ⟨rfl, rfl⟩
  split
  · rename_i told
    exact .pure (.mistaken ⟨spares, told⟩)
  rename_i quiet
  match built : MacroDefinition.build signature parameters node scope.references scope.deferred with
  | .ok (definition, warnings) =>
    refine .behind (.forM fun _ => blind_note _) spares.attends fun _ u warned => ?_
    obtain rfl : definition.signature = signature := by
      obtain ⟨rfl, -⟩ := MacroDefinition.eq_of_build built
      rfl
    have drafted : Drafted options fuel definition u :=
      ⟨parameters, _, _, node, scope, warnings, read, (spares.errors.antisymm (Nat.le_of_not_lt quiet)).symm,
        built, warned⟩
    exact (changes_registerMacro warned.attends definition name.start).mono fun _ _ enters =>
      .entered ⟨_, rfl, drafted⟩ (spares.trans warned) enters
  | .error (.mistake report) =>
    have error : (report.atOffset name.start).isError :=
      show report.isError from isError_of_build built
    exact (changes_note error spares.attends).mono fun _ _ mistakes => .mistaken (spares.mistakes mistakes)
  | .error (.fault fault) => exact changes_throw fault

/-- **The part of a macro statement behind the colon**: parameters that are mistaken as a whole, and
mistakes in the template, are reasons not to enter the macro. -/
theorem changes_macroBody (attends : s.recovering = false) (name : Token) (signature : Signature)
    (parameters : List Parameter) :
    Changes (macroBody options fuel name signature parameters) s
      fun _ t => Settles (DefinesMacro options fuel) Enters s t := by
  rw [macroBody_eq]
  cases checked : checkParameters signature.kind parameters with
  | error report =>
    have error : (report.atOffset name.start).isError :=
      show report.isError from isError_of_checkParameters checked
    refine .after ((changes_note error attends).mono fun _ _ mistakes => ⟨mistakes.toSpares, mistakes⟩)
      fun _ t _ mistakes => ?_
    exact (changes_macroTemplate_error mistakes.attends name signature parameters report).mono
      fun _ _ spares => .mistaken (mistakes.spares spares)
  | ok known =>
    obtain rfl := checkParameters_ok checked
    exact changes_macroTemplate attends name signature known

/-- **A macro statement**: it is mistaken, or enters a macro in whose template no error was recorded. -/
theorem changes_macroStatement (attends : s.recovering = false) (function : Bool) :
    Changes (macroStatement options fuel function) s
      fun _ t => Settles (DefinesMacro options fuel) Enters s t := by
  refine .behind (blind_advance true .word) attends fun word t spares => ?_
  refine .behind (blind_advance false .word) spares.attends fun name u further => ?_
  have spares := spares.trans further
  split
  · exact (changes_giveUp _ _ spares.attends).mono fun _ _ mistakes =>
      .mistaken (spares.mistakes mistakes)
  refine .after ((Changes.of_blind (blind_macroHead options fuel function name) spares.attends).and
    (told_macroHead spares.attends function name)) fun head v further told => ?_
  cases head with
  | none =>
    have mistakes : Mistakes u v := ⟨further, told rfl⟩
    exact (Changes.of_blind (blind_recover none) mistakes.attends).mono fun _ _ recovered =>
      .mistaken (spares.mistakes (mistakes.spares recovered))
  | some head =>
    obtain ⟨kind, parameters⟩ := head
    have spares := spares.trans further
    refine .behind (blind_peek false .word) spares.attends fun colon w further => ?_
    have spares := spares.trans further
    split
    · exact (changes_giveUp _ _ spares.attends).mono fun _ _ mistakes =>
        .mistaken (spares.mistakes mistakes)
    refine .behind (blind_skipToken false .word) spares.attends fun _ x further => ?_
    have spares := spares.trans further
    exact (changes_macroBody spares.attends name _ _).mono fun _ _ => spares.settles

/-! ## Operator statements -/

/-- Where a priority is missing, an error was recorded. -/
lemma told_clausePriority (attends : s.recovering = false) :
    Leaves clausePriority s fun found t => found = none → s.errors < t.errors := by
  refine Spares.leaves attends (blind_peek false .word) fun token t spares => ?_
  split
  · exact .pure (by rintro ⟨⟩)
  refine Spares.leaves spares.attends (blind_skipToken false .word) fun _ u further => ?_
  have spares := spares.trans further
  refine Spares.leaves spares.attends (blind_advance false .word) fun number v further => ?_
  have spares := spares.trans further
  have givesUp {w : ParserState} (spares : Spares s w) (offset : Nat) (cause : Cause) :
      Leaves (do giveUp offset cause; return none : Parser (Option (Option Priority))) w
        fun found t => found = none → s.errors < t.errors :=
    (changes_giveUp offset cause spares.attends).ends.bind fun _ _ mistakes =>
      .pure fun _ => (spares.mistakes mistakes).told
  split
  · refine Spares.leaves spares.attends (blind_advance false .word) fun close w further => ?_
    have spares := spares.trans further
    split
    · exact .pure (by rintro ⟨⟩)
    · exact givesUp spares _ _
  · exact givesUp spares _ _

/-- So it is where clauses are. -/
lemma told_clauseList (fuel : Nat) (attends : s.recovering = false) (known : List Clause) :
    Leaves (clauseList fuel known) s fun found t => found = none → s.errors < t.errors := by
  induction fuel generalizing s known with
  | zero => rintro _ _ ⟨⟩
  | succ fuel ih =>
    rw [clauseList]
    refine Spares.leaves attends (blind_advance false .word) fun word t spares => ?_
    split
    · exact (changes_giveUp _ _ spares.attends).ends.bind fun _ _ mistakes =>
        .pure fun _ => (spares.mistakes mistakes).told
    refine ((Changes.of_blind blind_clausePriority spares.attends).and
      (told_clausePriority spares.attends)).ends.bind fun priority u has => ?_
    obtain ⟨further, told⟩ := has
    cases priority with
    | none => exact .pure fun _ => spares.errors.trans_lt (told rfl)
    | some priority =>
      have spares := spares.trans further
      refine Spares.leaves spares.attends (blind_peek false .word) fun next v further => ?_
      have spares := spares.trans further
      split
      · refine Spares.leaves spares.attends (blind_skipToken false .word) fun _ w further => ?_
        have spares := spares.trans further
        exact (ih spares.attends _).mono fun _ _ told none => spares.errors.trans_lt (told none)
      · exact .pure (by rintro ⟨⟩)

/-- So it is where an alias is. -/
lemma told_operatorAlias (attends : s.recovering = false) :
    Leaves operatorAlias s fun found t => found = none → s.errors < t.errors := by
  refine Spares.leaves attends (blind_peek false .word) fun token t spares => ?_
  split
  · exact .pure (by rintro ⟨⟩)
  refine Spares.leaves spares.attends (blind_skipToken false .word) fun _ u further => ?_
  have spares := spares.trans further
  refine Spares.leaves spares.attends (blind_advance false .symbol) fun token v further => ?_
  have spares := spares.trans further
  split
  · exact .pure (by rintro ⟨⟩)
  · exact (changes_giveUp _ _ spares.attends).ends.bind fun _ _ mistakes =>
      .pure fun _ => (spares.mistakes mistakes).told

/-- **An operator statement**: it is mistaken, or enters an operator. -/
theorem changes_operatorStatement (attends : s.recovering = false) (keyword : Bool) :
    Changes (operatorStatement options fuel keyword) s
      fun _ t => Settles (DefinesOperator keyword) Enters s t := by
  have givesUp {t : ParserState} (spares : Spares s t) (offset : Nat) (cause : Cause) :
      Changes (giveUp offset cause) t fun _ u => Settles (DefinesOperator keyword) Enters s u :=
    (changes_giveUp offset cause spares.attends).mono fun _ _ mistakes =>
      .mistaken (spares.mistakes mistakes)
  refine .behind (blind_advance true .word) attends fun word t spares => ?_
  refine .behind (blind_advance false .symbol) spares.attends fun symbol u further => ?_
  have spares := spares.trans further
  split
  · exact givesUp spares _ _
  refine .behind (blind_advance false .word) spares.attends fun asWord v further => ?_
  have spares := spares.trans further
  split
  · exact givesUp spares _ _
  refine .after ((Changes.of_blind (blind_clauseList fuel []) spares.attends).and
    (told_clauseList fuel spares.attends [])) fun found w further told => ?_
  cases found with
  | none => exact .pure (.mistaken (spares.mistakes ⟨further, told rfl⟩))
  | some clauses =>
    have spares := spares.trans further
    refine .after ((Changes.of_blind blind_operatorAlias spares.attends).and
      (told_operatorAlias spares.attends)) fun found x further told => ?_
    cases found with
    | none => exact .pure (.mistaken (spares.mistakes ⟨further, told rfl⟩))
    | some aliasName =>
      have spares := spares.trans further
      dsimp only
      split
      · rename_i op built
        exact (changes_registerOperator spares.attends op symbol.start).mono fun _ _ enters =>
          .entered ⟨_, _, _, op, rfl, built⟩ spares enters
      · rename_i report failed
        obtain ⟨clause, -, cause, -, rfl⟩ := blames_of_buildOperator failed
        exact (changes_note rfl spares.attends).mono fun _ _ mistakes =>
          .mistaken (spares.mistakes mistakes)

/-! ## Sources without public imports -/

/-- **A definition is entered wholly, or not at all.** -/
inductive EntersWholly (entry : Entry) (s t : ParserState) : Prop
  | wholly (visible : s.visible.enter? entry = some t.visible)
      (exported : s.exported.enter? entry = some t.exported) (silent : t.reports = s.reports)
  | refused (refused : s.visible.enter? entry = none) (visible : t.visible = s.visible)
      (exported : t.exported = s.exported) (told : ∃ report, t.reports = s.reports.push report)

/-- **Where importers are handed nothing that the source itself lacks**, nothing is refused for them
alone. -/
lemma Enters.entersWholly {entry : Entry} (enters : Enters entry s t)
    (within : s.exported.Within s.visible) : EntersWholly entry s t := by
  cases enters with
  | wholly visible exported silent => exact .wholly visible exported silent
  | halfway visible refused exported told =>
    obtain ⟨extended, enters, -⟩ := within.enters visible
    rw [refused] at enters
    cases enters
  | refused refused visible exported told => exact .refused refused visible exported told

lemma EntersWholly.within {entry : Entry} (enters : EntersWholly entry s t)
    (within : s.exported.Within s.visible) : t.exported.Within t.visible := by
  cases enters with
  | wholly visible exported silent =>
    obtain ⟨extended, enters, further⟩ := within.enters visible
    rw [exported] at enters
    cases enters
    exact further
  | refused refused visible exported told => rwa [visible, exported]

lemma Spares.within (spares : Spares s t) (within : s.exported.Within s.visible) :
    t.exported.Within t.visible := by
  rwa [spares.visible, spares.exported]

section

variable {defines : Entry → ParserState → Prop}

lemma Settles.wholly (settles : Settles defines Enters s t) (within : s.exported.Within s.visible) :
    Settles defines EntersWholly s t := by
  cases settles with
  | mistaken mistakes => exact .mistaken mistakes
  | entered meant spares enters => exact .entered meant spares (enters.entersWholly (spares.within within))

lemma Settles.within (settles : Settles defines EntersWholly s t)
    (within : s.exported.Within s.visible) : t.exported.Within t.visible := by
  cases settles with
  | mistaken mistakes => exact mistakes.within within
  | entered meant spares enters => exact enters.within (spares.within within)

end

/-! ### Imports -/

lemma changes_resolveImport (attends : s.recovering = false) (path : String) :
    Changes (resolveImport resolver path) s fun _ t => Spares s t := by
  refine ⟨fun value t run => ?_, fun fault t run => ?_⟩
  all_goals
    rw [resolveImport] at run
    split at run <;> cases run
  · exact ⟨rfl, rfl, le_rfl, attends⟩
  · exact ⟨rfl, rfl⟩

/-- Taking one word away, and what comes behind it. -/
lemma leaves_publicMark (settled : s.Settled)
    (isPrivate : (s.lexis.behindName .word s.here).token.isWord "public" = false) :
    Leaves (skipToken true .word) s fun _ t => Leaves publicMark t fun isPublic _ => isPublic = false := by
  obtain ⟨_, t, run, settled', skipped, place, -⟩ := ends_skipToken settled true .word
  intro _ u other
  obtain ⟨-, rfl⟩ := ok_unique run other
  refine .after (ends_peek settled' false .word) fun token v _ looked => ?_
  obtain ⟨rfl, -⟩ := looked
  have same : t.reads false .word = s.lexis.behindName .word s.here := by
    rw [ParserState.reads, skipped.lexis, place]
    rfl
  rw [same, isPrivate]
  exact .pure rfl

/-- **What a source imports for itself** it does not hand on. -/
lemma within_useStatement (settled : s.Settled) (attends : s.recovering = false)
    (isPrivate : (s.lexis.behindName .word s.here).token.isWord "public" = false)
    (within : s.exported.Within s.visible) :
    Changes (useStatement resolver) s fun _ t => t.exported.Within t.visible := by
  refine .after ((Changes.of_blind (blind_skipToken true .word) attends).and
    (leaves_publicMark settled isPrivate)) fun _ t spares mark => ?_
  refine .after ((Changes.of_blind blind_publicMark spares.attends).and mark) fun isPublic u further h => ?_
  subst h
  have spares := spares.trans further
  refine .behind blind_importPath? spares.attends fun found v further => ?_
  have spares := spares.trans further
  cases found with
  | none => exact .pure (spares.within within)
  | some named =>
    obtain ⟨path, offset⟩ := named
    refine .after ((changes_resolveImport spares.attends path).mono fun _ _ => (⟨·, trivial⟩))
      fun answer w further _ => ?_
    have within := (spares.trans further).within within
    cases answer with
    | error failure =>
      exact (Changes.of_blind ((blind_complain _ _).bind fun _ => blind_forget) further.attends).mono
        fun _ _ spares => spares.within within
    | ok definitions =>
      refine .of_concludes ?_
      have imported : Concludes (importVisible definitions.value) w
          fun _ x => x.exported = w.exported ∧ x.visible = (w.visible.copyFrom definitions.value).2 :=
        ⟨_, _, rfl, rfl, rfl⟩
      refine imported.bind fun conflicts x has => ?_
      obtain ⟨exported, visible⟩ := has
      have within : x.exported.Within x.visible := by
        rw [exported, visible]
        exact within.trans (.of_copyFrom _ _)
      refine (Concludes.notes fun conflict : Report => conflict.asWarning.atOffset offset).bind ?_
      rintro _ _ ⟨reports, rfl⟩
      exact ⟨(), _, rfl, within⟩

/-- **A macro that is taken back** is taken back for all. -/
lemma within_undefineMacro (attends : s.recovering = false) (within : s.exported.Within s.visible)
    (function : Bool) :
    Changes (undefineMacro function) s fun _ t => t.exported.Within t.visible := by
  refine .behind (blind_advance false .word) attends fun name t spares => ?_
  split
  · exact (changes_giveUp _ _ spares.attends).mono fun _ _ mistakes =>
      (spares.mistakes mistakes).within within
  refine .behind (blind_emptyShape name) spares.attends fun found u further => ?_
  have within := (spares.trans further).within within
  cases found with
  | none => exact .pure within
  | some shape =>
    have removes (kinds : List MacroKind) : Concludes (removeMacros name.content kinds) u
        fun _ v => v.exported.Within v.visible :=
      ⟨_, _, rfl, within.removeMacros _ _⟩
    refine .of_concludes ((removes _).bind fun removed v within => ?_)
    refine (Concludes.warnIfNone removed _ _).mono ?_
    rintro _ _ ⟨reports, rfl⟩
    exact within

/-- So is an operator. -/
lemma within_undefineOperator (attends : s.recovering = false) (within : s.exported.Within s.visible)
    (word : String) (keyword : Bool) :
    Changes (undefineOperator word keyword) s fun _ t => t.exported.Within t.visible := by
  refine .behind (blind_advance false .symbol) attends fun symbol t spares => ?_
  split
  · exact (changes_giveUp _ _ spares.attends).mono fun _ _ mistakes =>
      (spares.mistakes mistakes).within within
  have within := spares.within within
  have removes : Concludes (removeOperators symbol.content keyword) t
      fun _ u => u.exported.Within u.visible :=
    ⟨_, _, rfl, within.removeOperators _ _⟩
  refine .of_concludes (removes.bind fun removed u within => ?_)
  refine (Concludes.warnIfNone removed _ _).bind ?_
  rintro _ _ ⟨reports, rfl⟩
  exact ⟨(), _, rfl, within⟩

/-- So is what was imported. -/
lemma within_undefineImport (attends : s.recovering = false) (within : s.exported.Within s.visible) :
    Changes (undefineImport resolver) s fun _ t => t.exported.Within t.visible := by
  refine .behind blind_importPath? attends fun found t spares => ?_
  cases found with
  | none => exact .pure (spares.within within)
  | some named =>
    obtain ⟨path, offset⟩ := named
    refine .after ((changes_resolveImport spares.attends path).mono fun _ _ => (⟨·, trivial⟩))
      fun answer u further _ => ?_
    have within := (spares.trans further).within within
    cases answer with
    | error failure =>
      exact (changes_complain _ _ further.attends).mono fun _ _ mistakes => mistakes.within within
    | ok definitions =>
      have removes : Concludes (removeImported definitions.value) u
          fun _ v => v.exported.Within v.visible :=
        ⟨_, _, rfl, within.removeAll _⟩
      refine .of_concludes (removes.bind fun removed v within => ?_)
      refine (Concludes.warnIfNone removed _ _).bind ?_
      rintro _ _ ⟨reports, rfl⟩
      exact ⟨(), _, rfl, within⟩

lemma within_undefineStatement (attends : s.recovering = false)
    (within : s.exported.Within s.visible) :
    Changes (undefineStatement resolver) s fun _ t => t.exported.Within t.visible := by
  refine .behind (blind_skipToken true .word) attends fun _ t spares => ?_
  refine .behind (blind_advance false .word) spares.attends fun what u further => ?_
  have attends := further.attends
  have within := (spares.trans further).within within
  split
  · exact within_undefineMacro attends within false
  · exact within_undefineMacro attends within true
  · exact within_undefineOperator attends within _ false
  · exact within_undefineOperator attends within _ true
  · exact within_undefineImport attends within
  · exact (changes_giveUp _ _ attends).mono fun _ _ mistakes => mistakes.within within

/-! ### Whole sources -/

/-- **A statement keeps what importers are handed** within what is in force. -/
lemma within_definitionStatement (settled : s.Settled) (attends : s.recovering = false)
    (opening : StatementKeyword)
    (isPrivate : opening = .use → (s.lexis.behindName .word s.here).token.isWord "public" = false)
    (within : s.exported.Within s.visible) :
    Changes (definitionStatement options resolver fuel opening) s
      fun _ t => t.exported.Within t.visible := by
  cases opening with
  | template => exact (changes_macroStatement attends false).mono fun _ _ settles =>
      (settles.wholly within).within within
  | function => exact (changes_macroStatement attends true).mono fun _ _ settles =>
      (settles.wholly within).within within
  | operator => exact (changes_operatorStatement attends false).mono fun _ _ settles =>
      (settles.wholly within).within within
  | keyword => exact (changes_operatorStatement attends true).mono fun _ _ settles =>
      (settles.wholly within).within within
  | undefine => exact within_undefineStatement attends within
  | use => exact within_useStatement settled attends (isPrivate rfl) within

end Parser

/-- Whether the statement at a place, if one begins there, imports nothing publicly. -/
def Lexis.importsPrivately (lexis : Lexis) (place : Place) : Bool :=
  lexis.statementAt? place != some .use || !(lexis.behindName .word place).token.isWord "public"

namespace Parser

lemma within_parseStatement (settled : s.Settled) (resting : s.Resting)
    (isPrivate : s.lexis.importsPrivately s.here = true) (within : s.exported.Within s.visible) :
    Changes (parseStatement options resolver (s.reads true .word).token) s
      fun _ t => t.exported.Within t.visible := by
  have pay : Concludes valueFuel s fun _ t => Spares s t ∧ s = t :=
    ⟨_, s, valueFuel_eq settled, .refl resting.attends, rfl⟩
  refine .after (.of_concludes pay) ?_
  rintro fuel _ - rfl
  obtain ⟨found, t, run, settled, same, moves, stays⟩ := ends_statementKeyword? settled
  have spares : Spares s t :=
    (Changes.of_blind (blind_statementKeyword? _) resting.attends).ends found t run
  have keyword : Concludes (statementKeyword? (s.reads true .word).token) s
      fun opening u => Spares s u ∧ found = opening ∧ t = u :=
    ⟨found, t, run, spares, rfl, rfl⟩
  refine .after (.of_concludes keyword) ?_
  rintro _ _ - ⟨rfl, rfl⟩
  have within := spares.within within
  cases found with
  | none =>
    exact .behind (blind_parseValue options fuel) spares.attends fun _ _ further =>
      .pure (further.within within)
  | some opening =>
    have statement : Changes (definitionStatement options resolver fuel opening) t
        fun _ u => u.exported.Within u.visible := by
      refine within_definitionStatement settled spares.attends opening ?_ within
      rintro rfl
      rw [moves.lexis, stays]
      simpa [Lexis.importsPrivately, ← same] using isPrivate
    exact statement.returning fun _ _ within => within

/-- **A round of a source** does so as well, also where a statement breaks off. -/
lemma within_roundFrom (settled : s.Settled) (resting : s.Resting)
    (isPrivate : s.lexis.importsPrivately s.here = true) (within : s.exported.Within s.visible) :
    Leaves (roundFrom options resolver (s.reads true .word).token) s
      fun _ t => t.exported.Within t.visible := by
  have attends := resting.attends
  have spared {step : Parser (List Node)} (blind : Blind step) : Leaves step s
      fun _ t => t.exported.Within t.visible :=
    (Changes.of_blind blind attends).ends.mono fun _ _ spares => spares.within within
  rw [roundFrom]
  split
  · exact spared ((blind_skipToken _ _).bind fun _ => (blind_complain _ _).bind fun _ => .pure _)
  split
  · exact spared ((blind_skipToken _ _).bind fun _ => .pure _)
  split
  · exact spared ((blind_skipToken _ _).bind fun _ => (blind_complain _ _).bind fun _ => .pure _)
  intro added u run
  obtain ⟨outcome, t, tried, rest⟩ := bind_eq_ok.mp run
  have statement : Changes (parseStatement options resolver (s.reads true .word).token) s _ :=
    within_parseStatement settled resting isPrivate within
  rw [attempt] at tried
  split at tried
  · rename_i value v read
    cases tried
    have ended : Blind (do endStatement; return value.toList) :=
      blind_endStatement.bind fun _ => .pure _
    obtain ⟨visible, exported, -⟩ := ended.of_ok rest
    rw [visible, exported]
    exact statement.ends value t read
  · rename_i fault v broken
    cases tried
    obtain ⟨_, w, gone, done⟩ := bind_eq_ok.mp rest
    rw [isolate_eq] at gone
    cases done
    obtain ⟨visible, exported, -⟩ := (blind_giveUp _ _).of_ok gone
    obtain ⟨same, handed⟩ := statement.breaks fault t broken
    rw [visible, exported]
    show t.exported.Within t.visible
    rwa [same, handed]

/-- **So it is between any two statements** of a source without public imports, by induction on the
rounds. -/
theorem within_of_reaches (settled : s.Settled) (resting : s.Resting)
    (isPrivate : ∀ t, Reaches options resolver s t → t.lexis.importsPrivately t.here = true)
    (within : s.exported.Within s.visible) (reaches : Reaches options resolver s t) :
    t.exported.Within t.visible := by
  induction reaches with
  | here => exact within
  | @round s _ _ values _ more run others ih =>
    obtain ⟨v, added, looked, taken⟩ := exists_taken_of_round settled more run
    obtain ⟨_, _, round, further, rests, -⟩ := ends_sourceRound_resting settled resting values
    obtain ⟨rfl, rfl⟩ := ok_unique round run
    obtain ⟨same, begun, moves, stays⟩ := moves_of_peek settled looked
    rw [same] at taken
    refine ih further rests (fun t reaches => isPrivate t (.round more run reaches)) ?_
    refine within_roundFrom begun (resting.moved moves) ?_ ?_ added _ taken
    · rw [moves.lexis, stays]
      exact isPrivate s (.here s)
    · rwa [moves.exported, moves.visible]

/-- **A statement that defines something is settled in one of two ways.**

* Wherever it stands, and whatever was imported: it is mistaken, which records an error and leaves all
  definitions as they were, or what it defines is entered.  No error was recorded in the template of a macro
  that is entered; one that was recorded in a fallback, and made up for, does not count.
* In a source without public imports it is entered for the source and its importers alike, or refused for
  both, which is reported. -/
theorem settles_of_reaches (options : CompileOptions) (resolver : Resolver) :
    (∀ s : ParserState, s.recovering = false → ∀ fuel,
      (∀ function, Changes (macroStatement options fuel function) s
        fun _ t => Settles (DefinesMacro options fuel) Enters s t) ∧
      ∀ keyword, Changes (operatorStatement options fuel keyword) s
        fun _ t => Settles (DefinesOperator keyword) Enters s t) ∧
    ∀ source imports,
      (∀ s, Reaches options resolver (initial options source imports) s →
        s.lexis.importsPrivately s.here = true) →
      ∀ s, Reaches options resolver (initial options source imports) s → ∀ t, Spares s t → ∀ fuel,
        (∀ function, Changes (macroStatement options fuel function) t
          fun _ u => Settles (DefinesMacro options fuel) EntersWholly t u) ∧
        ∀ keyword, Changes (operatorStatement options fuel keyword) t
          fun _ u => Settles (DefinesOperator keyword) EntersWholly t u := by
  refine ⟨fun s attends fuel =>
    ⟨changes_macroStatement attends, changes_operatorStatement attends⟩, ?_⟩
  intro source imports isPrivate s reaches t spares fuel
  have initially : (initial options source imports).exported.Within
      (initial options source imports).visible := ⟨List.nil_subset _, List.nil_subset _⟩
  have within : t.exported.Within t.visible := spares.within
    (within_of_reaches (outside_initial source imports).settled (resting_initial source imports) isPrivate
      initially reaches)
  exact ⟨fun function => (changes_macroStatement spares.attends function).mono
      fun _ _ settles => settles.wholly within,
    fun keyword => (changes_operatorStatement spares.attends keyword).mono
      fun _ _ settles => settles.wholly within⟩

/-- For instance, `m` is entered although a key of its fallback is repeated. -/
example :
    let result := (compile {} (tableResolver []) ⟨"", "macro m[x = \x7ba: 1, a: 2\x7d]: [x]"⟩ {}).1
    result.reports.map (·.cause) = [.duplicateKey "a"] ∧
      result.definitions.value.macros.definitions.length = 1 := by
  decide +kernel

/-- Here the last `macro m` is refused for importers alone, to whom another one was handed on. -/
example :
    let table := (precompile {}
      [("one", ⟨"one", "macro m: [1]"⟩), ("two", ⟨"two", "macro m: [2]"⟩)] {}).1
    let result := (compile {} (tableResolver table)
      ⟨"", "use one\nuse public two\nundef use one\nmacro m: [3]\nm"⟩ {}).1
    result.reports.map (·.offset) = [some 19, some 43] ∧
      result.values.map (·.span) = [⟨46, 49⟩] := by
  decide +kernel

end Parser

end TreeLang
