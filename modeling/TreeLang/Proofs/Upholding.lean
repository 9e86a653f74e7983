import TreeLang.Proofs.Barring
import TreeLang.Proofs.Precompiling

/-!
# What sources make of each other

A source makes nodes and definitions of its own texts, and of the definitions that it imports.  As long
as what is imported carries a property that trees have by the way they grow, barring errors everything
has it that comes of the source: its root, and whatever it hands to its importers in turn.  More may be
known of its macros, if it is known of every macro that is built where such macros are in force.  What
does not depend on the texts goes through any number of sources that import one another.

* `Sustains` — macros of some sort are built where such macros are in force, and carry a property.
* `Supplies`, `Honest` — a resolver that brings definitions of some sort, or that carry a property.
* `ParserState.Furnished`, `Upholds` — the definitions at hand are of that sort, and a step keeps it so.
* `furnished_macroStatement`, `furnished_definitionStatement` — statements that define something.
* `Utters` — every text of a source is of some sort.
* **`furnished_of_reaches`** — the definitions at hand between two statements.
* **`compile_furnishes`**, `compile_upholds` — what comes of a source.
* **`supplies_loading`**, `every_precompile` — definitions that come of other sources.
-/

namespace TreeLang

variable {α β : Type} {fits : String → Prop} {good : Node → Prop} {fine : MacroDefinition → Prop}
  {J : ImportState → Prop}

/-! ## Macros of some sort -/

/-- **Macros of some sort carry a property** that trees have by the way they grow, and every macro is of
that sort that is built, of any template, where such macros are in force. -/
structure Sustains (fits : String → Prop) (good : Node → Prop) (fine : MacroDefinition → Prop) : Prop where
  grown : Node.GrownFrom fits good
  carries : ∀ {definition : MacroDefinition}, fine definition → definition.Carries good
  builds : ∀ {options fuel s t signature parameters checked tree definition warnings}
    {scope : TemplateScope}, Parser.template options fuel parameters s = .ok (tree, some scope) t →
      MacroDefinition.build signature checked tree scope.references scope.deferred
        = .ok (definition, warnings) → definition.Carries good → fine definition

/-- Macros that carry a property, and of which nothing else is known. -/
lemma Node.GrownFrom.sustains (grown : Node.GrownFrom fits good) :
    Sustains fits good (·.Carries good) :=
  ⟨grown, fun carries => carries, fun _ _ carries => carries⟩

lemma Sustains.every (sustains : Sustains fits good fine) {definitions : Definitions}
    (every : definitions.Every fine) : definitions.Carries good :=
  fun entry member => sustains.carries (every entry member)

/-! ## Imports -/

/-- **A resolver brings definitions of some sort**, as long as something holds of what is known of
imports, which it keeps. -/
structure Supplies (fine : MacroDefinition → Prop) (J : ImportState → Prop) (resolver : Resolver) :
    Prop where
  shared : ∀ i, J i → J i.shared
  keeps : ∀ path {i}, J i → J (importsOf (resolver path i))
  brings : ∀ path {i j} {definitions : Shared Definitions}, J i →
    resolver path i = .ok (.ok definitions) j → definitions.value.Every fine

/-- **A resolver brings definitions that carry a property.** -/
abbrev Honest (good : Node → Prop) : (ImportState → Prop) → Resolver → Prop :=
  Supplies (·.Carries good)

lemma Definitions.Every.enlist {definitions : Definitions} {new : Shared MacroDefinition}
    (every : definitions.Every fine) (one : fine new.value) :
    Every fine { definitions with macros := (definitions.macros.enlist new).2 } := by
  unfold MacroRegistry.enlist
  cases added : definitions.macros.add new with
  | error report => exact every
  | ok macros => exact every.add one added

/-! ## The definitions at hand -/

namespace ParserState

variable {s t : ParserState}

/-- **The definitions at hand are of some sort**, barring errors: those in force, and those that are
handed to importers. -/
structure Furnished (fits : String → Prop) (fine : MacroDefinition → Prop) (J : ImportState → Prop)
    (s : ParserState) : Prop where
  imports : J s.imports
  visible : Parser.Barring fits 0 s (s.visible.Every fine)
  exported : Parser.Barring fits 0 s (s.exported.Every fine)

/-- Where the same definitions are at hand, and nothing is unsaid. -/
lemma Furnished.of_same (furnished : s.Furnished fits fine J) (visible : t.visible = s.visible)
    (exported : t.exported = s.exported) (imports : t.imports = s.imports)
    (reports : s.reports.toList <+: t.reports.toList) : t.Furnished fits fine J where
  imports := imports ▸ furnished.imports
  visible := furnished.visible.later reports fun every => visible ▸ every
  exported := furnished.exported.later reports fun every => exported ▸ every

end ParserState

/-- Parameters that pass stay as they are. -/
lemma checkParameters_ok {kind : MacroKind} {parameters checked : List Parameter}
    (h : checkParameters kind parameters = .ok checked) : checked = parameters := by
  rw [checkParameters] at h
  split at h
  · cases h
  split at h
  · cases h
  · cases h
    rfl

namespace Parser

open TreeLang.Harmony (claim enlistVisible enlistExported registerMacro_eq enlistVisibleOperator
  enlistExportedOperator registerOperator_eq resolveImport_eq takeImport dropImport)

variable {s t u : ParserState} {options : CompileOptions} {resolver : Resolver}

/-! ## What was reported -/

/-- **A step takes no report back.** -/
def Accumulates (step : Parser α) : Prop :=
  ∀ s, s.reports.toList <+: (stateOf (step s)).reports.toList

namespace Accumulates

lemma of_blind {step : Parser α} (blind : Blind step) : Accumulates step := by
  intro s
  have same (t : ParserState) : s.reports.toList <+: (s.reports ++ t.reports).toList := by
    rw [Array.toList_append]
    exact List.prefix_append _ _
  rw [blind.apply s]
  cases step s.bare <;> exact same _

lemma modifyGet {change : ParserState → α × ParserState}
    (reports : ∀ s, (change s).2.reports = s.reports) :
    Accumulates (MonadStateOf.modifyGet change) := by
  intro s
  have same : s.reports.toList = (change s).2.reports.toList := congrArg _ (reports s).symm
  exact same ▸ List.prefix_refl _

lemma bind {step : Parser α} {next : α → Parser β} (first : Accumulates step)
    (second : ∀ value, Accumulates (next value)) : Accumulates (step >>= next) := by
  intro s
  have before := first s
  cases outcome : step s with
  | ok value t =>
    rw [outcome] at before
    rw [bind_ok outcome]
    exact List.IsPrefix.trans before (second value t)
  | error fault t =>
    rw [outcome] at before
    rw [bind_error outcome]
    exact before

lemma attempt {step : Parser α} (accumulates : Accumulates step) : Accumulates (attempt step) := by
  intro s
  have before := accumulates s
  rw [Parser.attempt]
  generalize step s = outcome at before
  cases outcome <;> exact before

lemma ok {step : Parser α} (accumulates : Accumulates step) {value : α} (run : step s = .ok value t) :
    s.reports.toList <+: t.reports.toList := by
  have grown := accumulates s
  rwa [run] at grown

end Accumulates

/-- **No part of the parser takes a report back.** -/
theorem throughout_accumulates (options : CompileOptions) (resolver : Resolver) :
    Throughout options options resolver fun step _ => Accumulates step where
  collapse := rfl
  pure value := .of_blind (.pure value)
  throw fault := .of_blind (.throw fault)
  bind first second := first.bind second
  attempt accumulates := accumulates.attempt
  lookAhead skipBreaks mode := .of_blind (blind_lookAhead skipBreaks mode)
  rewind := .of_blind blind_rewind
  commit := .of_blind blind_commit
  noteLexical := .of_blind blind_noteLexical
  note report := .of_blind (blind_note report)
  change seen _ := .modifyGet fun s => by rw [seen s]; rfl
  restart := .modifyGet fun _ => rfl
  repeated offset key := .of_blind (blind_note _)
  removeMacros name kinds := .modifyGet fun _ => rfl
  registerOperator op offset := by
    have visible : Accumulates (enlistVisibleOperator op) := .modifyGet fun _ => rfl
    have exported : Accumulates (enlistExportedOperator op) := .modifyGet fun _ => rfl
    have rejected (report : Report) : Accumulates (do note report; forget) :=
      .of_blind ((blind_note _).bind fun _ => blind_forget)
    rw [registerOperator_eq]
    refine visible.bind fun conflict => ?_
    cases conflict with
    | some conflict => exact rejected _
    | none =>
      refine exported.bind fun conflict => ?_
      cases conflict with
      | some conflict => exact rejected _
      | none => exact .of_blind blind_forget
  dropOperators name keyword offset cause :=
    .bind (.modifyGet fun _ => rfl) fun _ =>
      .of_blind ((blind_warnIfNone _ _ _).bind fun _ => blind_forget)
  counted accumulates :=
    have counts : Accumulates errorCount := fun s => List.prefix_refl _
    counts.bind fun _ => accumulates.bind fun _ => counts.bind fun _ => .of_blind (.pure _)
  enlistVisible new := .modifyGet fun _ => rfl
  resolveImport path s := by
    rw [resolveImport_eq]
    cases resolver path s.imports <;> exact List.prefix_refl _
  takeImport isPublic path offset answer := by
    have told (conflicts : List Report) : Accumulates (do
        conflicts.forM fun conflict => note (conflict.asWarning.atOffset offset)
        forget) :=
      .of_blind ((Blind.forM fun _ => blind_note _).bind fun _ => blind_forget)
    cases answer with
    | error failure => exact .of_blind ((blind_complain _ _).bind fun _ => blind_forget)
    | ok definitions =>
      refine .bind (.modifyGet fun _ => rfl) fun conflicts => ?_
      dsimp only
      split
      · exact .bind (.modifyGet fun _ => rfl) fun others => told _
      · exact .bind (.of_blind (.pure _)) fun others => told _
  dropImport path offset answer := by
    cases answer with
    | error failure => exact .of_blind (blind_complain _ _)
    | ok definitions =>
      exact .bind (.modifyGet fun _ => rfl) fun _ =>
        .of_blind ((blind_warnIfNone _ _ _).bind fun _ => blind_forget)

/-- **Rounds of a source** are related where their parts are. -/
lemma Throughout.roundFrom {options' : CompileOptions}
    {R : ∀ {α : Type}, Parser α → Parser α → Prop} (h : Throughout options options' resolver R)
    (token : Token) : R (roundFrom options resolver token) (roundFrom options' resolver token) := by
  refine h.ite ?_ (h.ite ?_ (h.ite ?_ ?_))
  · exact h.bind (h.skipToken _ _) fun _ => h.bind (h.complain _ _) fun _ => h.pure _
  · exact h.bind (h.skipToken _ _) fun _ => h.pure _
  · exact h.bind (h.skipToken _ _) fun _ => h.bind (h.complain _ _) fun _ => h.pure _
  · refine h.bind (h.attempt (h.parseStatement token)) fun outcome => ?_
    cases outcome with
    | ok value => exact h.bind h.endStatement fun _ => h.pure _
    | error fault => exact h.bind (h.isolate _ _) fun _ => h.pure _

/-! ## Steps that keep the definitions -/

lemma Blind.furnished {step : Parser α} (blind : Blind step) (furnished : s.Furnished fits fine J) :
    (stateOf (step s)).Furnished fits fine J := by
  have reports := Accumulates.of_blind blind s
  cases run : step s with
  | ok value t =>
    rw [run] at reports
    obtain ⟨visible, exported, imports⟩ := blind.of_ok run
    exact furnished.of_same visible exported imports reports
  | error fault t =>
    rw [run] at reports
    obtain ⟨visible, exported, imports⟩ := blind.of_error run
    exact furnished.of_same visible exported imports reports

/-- **A step keeps the definitions at hand.** -/
def Upholds (fits : String → Prop) (fine : MacroDefinition → Prop) (J : ImportState → Prop)
    (step : Parser α) : Prop :=
  ∀ s, s.Furnished fits fine J → (stateOf (step s)).Furnished fits fine J

/-- A step behind another one, from a state of which more is known. -/
lemma furnished_bind {step : Parser α} {next : α → Parser β}
    (first : (stateOf (step s)).Furnished fits fine J)
    (second : ∀ value t, step s = .ok value t → t.Furnished fits fine J →
      (stateOf (next value t)).Furnished fits fine J) :
    (stateOf ((step >>= next) s)).Furnished fits fine J := by
  cases outcome : step s with
  | ok value t =>
    rw [outcome] at first
    rw [bind_ok outcome]
    exact second value t outcome first
  | error fault t =>
    rw [outcome] at first
    rw [bind_error outcome]
    exact first

/-- A step behind one that leaves the definitions as they are. -/
lemma furnished_after {step : Parser α} {next : α → Parser β} {property : α → ParserState → Prop}
    (blind : Blind step) (furnished : s.Furnished fits fine J) (leaves : Leaves step s property)
    (second : ∀ value t, t.Furnished fits fine J → property value t →
      (stateOf (next value t)).Furnished fits fine J) :
    (stateOf ((step >>= next) s)).Furnished fits fine J :=
  furnished_bind (blind.furnished furnished) fun value t run furnished =>
    second value t furnished (leaves value t run)

namespace Upholds

lemma of_blind {step : Parser α} (blind : Blind step) : Upholds fits fine J step :=
  fun _ => blind.furnished

lemma bind {step : Parser α} {next : α → Parser β} (first : Upholds fits fine J step)
    (second : ∀ value, Upholds fits fine J (next value)) : Upholds fits fine J (step >>= next) :=
  fun s furnished => furnished_bind (first s furnished) fun value t _ => second value t

lemma after {step : Parser α} {next : α → Parser β} (first : Blind step)
    (second : ∀ value, Upholds fits fine J (next value)) : Upholds fits fine J (step >>= next) :=
  bind (of_blind first) second

lemma ite {condition : Prop} [Decidable condition] {first second : Parser α}
    (h : Upholds fits fine J first) (h' : Upholds fits fine J second) :
    Upholds fits fine J (if condition then first else second) := by
  split <;> assumption

/-- A step that changes what is at hand, if it stays of the sort. -/
lemma redefine {change : ParserState → α × ParserState}
    (imports : ∀ s, (change s).2.imports = s.imports) (reports : ∀ s, (change s).2.reports = s.reports)
    (visible : ∀ s, s.visible.Every fine → (change s).2.visible.Every fine)
    (exported : ∀ s, s.exported.Every fine → (change s).2.exported.Every fine) :
    Upholds fits fine J (MonadStateOf.modifyGet change) := by
  intro s furnished
  have same : s.reports.toList <+: (change s).2.reports.toList := reports s ▸ List.prefix_refl _
  show (change s).2.Furnished fits fine J
  exact ⟨imports s ▸ furnished.imports, furnished.visible.later same (visible s),
    furnished.exported.later same (exported s)⟩

end Upholds

/-! ## Statements -/

section

variable (sustains : Sustains fits good fine) (supplies : Supplies fine J resolver)

/-! ### Operators -/

lemma upholds_registerOperator (op : OperatorDefinition) (offset : Nat) :
    Upholds fits fine J (registerOperator options op offset) := by
  have visible : Upholds fits fine J (enlistVisibleOperator op) :=
    .redefine (fun _ => rfl) (fun _ => rfl) (fun _ h => h) fun _ h => h
  have exported : Upholds fits fine J (enlistExportedOperator op) :=
    .redefine (fun _ => rfl) (fun _ => rfl) (fun _ h => h) fun _ h => h
  rw [registerOperator_eq]
  refine visible.bind fun conflict => ?_
  cases conflict with
  | some conflict => exact .after (blind_note _) fun _ => .of_blind blind_forget
  | none =>
    refine exported.bind fun conflict => ?_
    cases conflict with
    | some conflict => exact .after (blind_note _) fun _ => .of_blind blind_forget
    | none => exact .of_blind blind_forget

lemma upholds_operatorStatement (fuel : Nat) (keyword : Bool) :
    Upholds fits fine J (operatorStatement options fuel keyword) := by
  refine .after (blind_advance _ _) fun word => .after (blind_advance _ _) fun symbol => ?_
  refine .ite (.of_blind (blind_giveUp _ _)) (.after (blind_advance _ _) fun asWord => ?_)
  refine .ite (.of_blind (blind_giveUp _ _)) (.after (blind_clauseList _ _) fun clauses => ?_)
  cases clauses with
  | none => exact .of_blind (.pure ())
  | some clauses =>
    refine .after blind_operatorAlias fun found => ?_
    cases found with
    | none => exact .of_blind (.pure ())
    | some aliasName =>
      dsimp only
      split
      · exact upholds_registerOperator _ _
      · exact .of_blind (blind_note _)

/-! ### Taking definitions back, and importing them -/

lemma upholds_undefineMacro (function : Bool) : Upholds fits fine J (undefineMacro function) := by
  refine .after (blind_advance _ _) fun name => .ite (.of_blind (blind_giveUp _ _)) ?_
  refine .after (blind_emptyShape _) fun shape => ?_
  cases shape with
  | none => exact .of_blind (.pure ())
  | some shape =>
    refine .bind (.redefine (fun _ => rfl) (fun _ => rfl) (fun _ every => every.remove _ _)
      fun _ every => every.remove _ _) fun _ => .of_blind (blind_warnIfNone _ _ _)

lemma upholds_undefineOperator (word : String) (keyword : Bool) :
    Upholds fits fine J (undefineOperator word keyword) := by
  refine .after (blind_advance _ _) fun symbol => .ite (.of_blind (blind_giveUp _ _)) ?_
  refine .bind (.redefine (fun _ => rfl) (fun _ => rfl) (fun _ h => h) fun _ h => h) fun _ => ?_
  exact .after (blind_warnIfNone _ _ _) fun _ => .of_blind blind_forget

include supplies in
/-- What is done with the answer of such a resolver. -/
lemma upholds_resolveImport (path : String)
    {next : Except ImportFailure (Shared Definitions) → Parser Unit}
    (found : ∀ definitions : Shared Definitions, definitions.value.Every fine →
      Upholds fits fine J (next (.ok definitions)))
    (failed : ∀ failure, Upholds fits fine J (next (.error failure))) :
    Upholds fits fine J (resolveImport resolver path >>= next) := by
  intro s before
  have known := supplies.keeps path before.imports
  refine furnished_bind ?_ fun answer t run furnished => ?_
  · rw [resolveImport_eq]
    cases resolved : resolver path s.imports <;> rw [resolved] at known <;>
      exact { before with imports := known }
  · cases answer with
    | error failure => exact failed failure t furnished
    | ok definitions =>
      refine found definitions ?_ t furnished
      rw [resolveImport_eq] at run
      match resolved : resolver path s.imports with
      | .error fault j =>
        rw [resolved] at run
        cases run
      | .ok answer j =>
        rw [resolved] at run
        cases run
        exact supplies.brings path before.imports resolved

include supplies in
lemma upholds_useStatement : Upholds fits fine J (useStatement resolver) := by
  refine .after (blind_skipToken _ _) fun _ => .after blind_publicMark fun isPublic => ?_
  refine .after blind_importPath? fun found => ?_
  rcases found with - | ⟨path, offset⟩
  · exact .of_blind (.pure ())
  · refine upholds_resolveImport supplies path (fun definitions every => ?_) fun failure =>
      .after (blind_complain _ _) fun _ => .of_blind blind_forget
    have visible : Upholds fits fine J (importVisible definitions.value) :=
      .redefine (fun _ => rfl) (fun _ => rfl) (fun _ before => before.copyFrom every) fun _ h => h
    have exported : Upholds fits fine J (importExported definitions.value) :=
      .redefine (fun _ => rfl) (fun _ => rfl) (fun _ h => h) fun _ before => before.copyFrom every
    have told (conflicts : List Report) : Upholds fits fine J (do
        conflicts.forM fun conflict => note (conflict.asWarning.atOffset offset)
        forget) :=
      .after (.forM fun _ => blind_note _) fun _ => .of_blind blind_forget
    refine visible.bind fun conflicts => ?_
    dsimp only
    split
    · exact exported.bind fun others => told _
    · exact .after (.pure _) fun others => told _

include supplies in
lemma upholds_undefineImport : Upholds fits fine J (undefineImport resolver) := by
  refine .after blind_importPath? fun found => ?_
  rcases found with - | ⟨path, offset⟩
  · exact .of_blind (.pure ())
  · refine upholds_resolveImport supplies path (fun definitions _ => ?_) fun failure =>
      .of_blind (blind_complain _ _)
    refine .bind (.redefine (fun _ => rfl) (fun _ => rfl) (fun _ before => before.removeAll _)
      fun _ before => before.removeAll _) fun _ => ?_
    exact .after (blind_warnIfNone _ _ _) fun _ => .of_blind blind_forget

include supplies in
lemma upholds_undefineStatement : Upholds fits fine J (undefineStatement resolver) := by
  refine .after (blind_skipToken _ _) fun _ => .after (blind_advance _ _) fun what => ?_
  split
  · exact upholds_undefineMacro false
  · exact upholds_undefineMacro true
  · exact upholds_undefineOperator _ false
  · exact upholds_undefineOperator _ true
  · exact upholds_undefineImport supplies
  · exact .of_blind (blind_giveUp _ _)

/-! ### Macros -/

/-- **A macro that is registered** is of the sort, as those before it are. -/
lemma furnished_registerMacro (shared : ∀ i, J i → J i.shared) {definition : MacroDefinition}
    (offset : Nat) (furnished : s.Furnished fits fine J)
    (one : Barring fits 0 s (fine definition)) :
    (stateOf (registerMacro definition offset s)).Furnished fits fine J := by
  set new : Shared MacroDefinition := ⟨s.imports.supply.fresh, definition⟩
  let visible : Definitions :=
    { s.visible with macros := (s.visible.macros.enlist new).2 }
  let exported : Definitions :=
    { s.exported with macros := (s.exported.macros.enlist new).2 }
  have seen : Barring fits 0 s (visible.Every fine) :=
    (furnished.visible.both one).imp_right fun both => both.1.enlist both.2
  have handed : Barring fits 0 s (exported.Every fine) :=
    (furnished.exported.both one).imp_right fun both => both.1.enlist both.2
  have known := shared _ furnished.imports
  rw [registerMacro_eq, claim, bind_modifyGet, enlistVisible, bind_modifyGet]
  dsimp only
  cases (s.visible.macros.enlist new).1 with
  | some report => exact (blind_note _).furnished ⟨known, seen, furnished.exported⟩
  | none =>
    dsimp only
    rw [enlistExported, bind_modifyGet]
    dsimp only
    cases (s.exported.macros.enlist new).1 with
    | some report => exact (blind_note _).furnished ⟨known, seen, handed⟩
    | none => exact ⟨known, seen, handed⟩

lemma Leaves.counted {step : Parser α} {property : α → ParserState → Prop}
    (leaves : Leaves step s property) :
    Leaves (counted step) s fun found t => property found.1 t := by
  intro found t run
  rw [counted_eq] at run
  obtain ⟨value, u, read, ends⟩ := bind_eq_ok.mp run
  cases ends
  exact leaves value _ read

variable {base fuel : Nat}

/-- The template of a macro. -/
lemma vouches_template (grown : Node.GrownFrom fits good) (attentive : Attentive fits good base s)
    (parameters : List Parameter) :
    Leaves (template options fuel parameters) s fun found t =>
      Trails s t ∧ Barring fits base t (good found.1) := by
  have begins : Trails s { s with scope := some (.start (parameters.map (·.name))) } :=
    .change attentive.settled rfl rfl rfl rfl
  have read : Reading.value.Vouched fits good base (parseValue options fuel) :=
    Reading.vouches_within grown fuel .value
  have read := read _ (attentive.trails begins) trivial
  refine .get (.modify (Leaves.bind read fun node t read => .get (.modify (.pure ?_))))
  exact ⟨begins.trans (read.1.trans (.change read.1.settled rfl rfl rfl rfl)), read.2⟩

/-- The kind of a macro and its parameters. -/
lemma vouches_macroHead (grown : Node.GrownFrom fits good) (attentive : Attentive fits good base s)
    (function : Bool) (name : Token) :
    Leaves (macroHead options fuel function name) s fun found t =>
      Trails s t ∧ Barring fits base t
        (∀ head ∈ found, ∀ parameter ∈ head.2, ∀ node ∈ parameter.fallback, good node) := by
  refine .after (trails_attachedOpener? attentive.settled name) fun opener t settled trails => ?_
  match opener with
  | none =>
    refine .pure ⟨trails, .of ?_⟩
    rintro _ ⟨⟩
    nofun
  | some opener =>
    refine .after (trails_skipToken settled false .word) fun _ u settled taken => .modify ?_
    set closer := opener.kind.closer?.getD .rParen
    have trails := trails.trans (taken.trans
      (.change (t := u.awaiting closer) settled rfl rfl rfl rfl))
    have read : (Reading.parameters closer [] true).Vouched fits good base
        (parameterList options closer fuel [] true) :=
      Reading.vouches_within grown fuel (.parameters closer [] true)
    refine (read _ (attentive.trails trails) (.of nofun)).bind fun found v read => .modify (.pure ?_)
    refine ⟨trails.trans (read.1.trans (.change read.1.settled rfl rfl rfl rfl)),
      read.2.imp_right fun read => ?_⟩
    rintro _ inside
    obtain ⟨parameters, known, rfl⟩ := Option.map_eq_some_iff.mp inside
    exact read parameters known

include sustains

/-- Reading the template, and registering the macro. -/
lemma furnished_macroTemplate (shared : ∀ i, J i → J i.shared) (name : Token)
    (signature : Signature) (parameters : List Parameter) {checked : Except Report (List Parameter)}
    (attentive : Attentive fits good 0 s) (furnished : s.Furnished fits fine J)
    (fallbacks : ∀ known, checked = .ok known →
      Barring fits 0 s (∀ parameter ∈ known, ∀ node ∈ parameter.fallback, good node)) :
    (stateOf (macroTemplate options fuel name signature parameters checked s)).Furnished fits fine J := by
  have template : Leaves (template options fuel parameters) s fun found t =>
      (Trails s t ∧ Barring fits 0 t (good found.1)) ∧ template options fuel parameters s = .ok found t :=
    (vouches_template sustains.grown attentive parameters).and fun _ _ run => run
  rw [macroTemplate_eq]
  refine furnished_after (blind_counted (blind_template options fuel parameters)) furnished
    template.counted fun found t furnished read => ?_
  obtain ⟨⟨tree, scope⟩, mistaken⟩ := found
  obtain ⟨⟨trails, node⟩, run⟩ := read
  cases checked with
  | error report => exact (Blind.pure ()).furnished furnished
  | ok known =>
    cases scope with
    | none => exact (Blind.pure ()).furnished furnished
    | some scope =>
      dsimp only
      split
      · exact (Blind.pure ()).furnished furnished
      match built : MacroDefinition.build signature known tree scope.references scope.deferred with
      | .ok (definition, warnings) =>
        have one : Barring fits 0 t (fine definition) :=
          (((fallbacks known rfl).later trails.reports id).both node).imp_right fun parts =>
            sustains.builds run built (.of_build sustains.grown parts.2 parts.1 built)
        have warned : Leaves (warnings.forM fun warning => note (warning.atOffset name.start)) t
            fun _ u => Trails t u :=
          trails_of_nodewise (.forM fun _ => .note _) trails.settled
        exact furnished_after (.forM fun _ => blind_note _) furnished warned
          fun _ u furnished warned => furnished_registerMacro shared _ furnished
            (one.later warned.reports id)
      | .error (.mistake report) => exact (blind_note _).furnished furnished
      | .error (.fault fault) => exact (Blind.throw fault).furnished furnished

/-- **A macro statement**: what it registers is of the sort, barring errors. -/
theorem furnished_macroStatement (shared : ∀ i, J i → J i.shared) (function : Bool)
    (attentive : Attentive fits good 0 s) (furnished : s.Furnished fits fine J) :
    (stateOf (macroStatement options fuel function s)).Furnished fits fine J := by
  refine furnished_after (blind_advance _ _) furnished
    (.of_ends (trails_advance attentive.settled true .word)) fun word t furnished taken => ?_
  refine furnished_after (blind_advance _ _) furnished
    (.of_ends (trails_advance taken.settled false .word)) fun name u furnished named => ?_
  have trails := taken.trans named
  dsimp only
  split
  · exact (blind_giveUp _ _).furnished furnished
  refine furnished_after (blind_macroHead _ _ _ _) furnished
    (vouches_macroHead sustains.grown (attentive.trails trails) function name) fun head v furnished read => ?_
  have trails := trails.trans read.1
  match head with
  | none => exact (blind_recover _).furnished furnished
  | some (kind, parameters) =>
    refine furnished_after (blind_peek _ _) furnished
      (.of_ends (trails_peek trails.settled false .word)) fun colon w furnished looked => ?_
    have further := looked.2.1
    split
    · exact (blind_giveUp _ _).furnished furnished
    refine furnished_after (blind_skipToken _ _) furnished
      (.of_ends (trails_skipToken further.settled false .word)) fun _ x furnished skipped => ?_
    have further := further.trans skipped
    have attentive := attentive.trails (trails.trans further)
    -- A function has its receiver in front, which has no fallback.
    have fallbacks : Barring fits 0 x (∀ parameter ∈
        (if function then .plain "self" :: parameters else parameters),
          ∀ node ∈ parameter.fallback, good node) := by
      refine read.2.later further.reports fun held => ?_
      have held := held _ rfl
      split
      · exact List.forall_mem_cons.mpr ⟨nofun, held⟩
      · exact held
    rw [macroBody_eq]
    cases checked : checkParameters (Signature.mk name.content kind).kind
        (if function then .plain "self" :: parameters else parameters) with
    | error report =>
      refine furnished_after (blind_note _) furnished (.of_ends (trails_note attentive.settled _))
        fun _ y furnished noted => ?_
      exact furnished_macroTemplate sustains shared name _ _ (attentive.trails noted) furnished nofun
    | ok known =>
      refine furnished_macroTemplate sustains shared name _ _ attentive furnished ?_
      rintro _ ⟨⟩
      rwa [checkParameters_ok checked]

end

/-- **Every text of a source is of some sort**, wherever a statement begins. -/
def Utters (options : CompileOptions) (resolver : Resolver) (fits : String → Prop) (s : ParserState) :
    Prop :=
  ∀ t, Reaches options resolver s t → t.Spoken fits

lemma Utters.reached (utters : Utters options resolver fits s)
    (reaches : Reaches options resolver s t) : Utters options resolver fits t :=
  fun u further => utters u (reaches.trans further)

/-! ### All statements -/

section

variable (sustains : Sustains fits good fine) (supplies : Supplies fine J resolver)

include sustains supplies

/-- **A definition statement** keeps the definitions at hand. -/
lemma furnished_definitionStatement (fuel : Nat) (opening : StatementKeyword)
    (attentive : Attentive fits good 0 s) (furnished : s.Furnished fits fine J) :
    (stateOf (definitionStatement options resolver fuel opening s)).Furnished fits fine J :=
  match opening with
  | .template => furnished_macroStatement sustains supplies.shared false attentive furnished
  | .function => furnished_macroStatement sustains supplies.shared true attentive furnished
  | .operator => upholds_operatorStatement fuel false s furnished
  | .keyword => upholds_operatorStatement fuel true s furnished
  | .undefine => upholds_undefineStatement supplies s furnished
  | .use => upholds_useStatement supplies s furnished

/-- **A statement or a value**, from a state between two statements. -/
lemma vouches_parseStatement (settled : s.Settled) (resting : s.Resting) (spoken : s.Spoken fits)
    (furnished : s.Furnished fits fine J) :
    (stateOf (parseStatement options resolver (s.reads true .word).token s)).Furnished fits fine J ∧
      Leaves (parseStatement options resolver (s.reads true .word).token) s fun found t =>
        Barring fits 0 t (∀ node ∈ found, good node) := by
  obtain ⟨opening, t, keyword, settled', -, moves, stays⟩ := ends_statementKeyword? settled
  have trails : Trails s t := .of_moves settled' moves (.of_eq stays)
  have attentive : Attentive fits good 0 s :=
    ⟨settled, resting.attends, Nat.zero_le _, furnished.visible.imp_right sustains.every, spoken⟩
  have attentive := attentive.trails trails
  have furnished := (blind_statementKeyword? (s.reads true .word).token).furnished furnished
  rw [keyword] at furnished
  rw [parseStatement, Leaves, bind_ok (valueFuel_eq settled), bind_ok keyword]
  cases opening with
  | some opening =>
    refine ⟨furnished_bind (furnished_definitionStatement sustains supplies _ opening attentive furnished)
      fun _ _ _ furnished => furnished, fun found u run => ?_⟩
    obtain ⟨_, _, -, ends⟩ := bind_eq_ok.mp run
    cases ends
    exact .of (by rintro _ ⟨⟩)
  | none =>
    refine ⟨((blind_parseValue _ _).bind fun _ => .pure _).furnished furnished, fun found u run => ?_⟩
    obtain ⟨node, v, read, ends⟩ := bind_eq_ok.mp run
    cases ends
    have vouched (fuel : Nat) : Reading.value.Vouched fits good 0 (parseValue options fuel) :=
      Reading.vouches_within sustains.grown fuel .value
    refine (vouched _ t attentive trivial node _ read).2.imp_right fun made => ?_
    rintro _ ⟨⟩
    exact made

/-- **A round of a source** keeps the definitions at hand, and so much for the values it adds. -/
theorem vouches_roundFrom {token : Token} (settled : s.Settled) (resting : s.Resting)
    (spoken : s.Spoken fits) (furnished : s.Furnished fits fine J)
    (looked : peek true .word s = .ok token t) :
    Leaves (roundFrom options resolver token) t fun added u =>
      u.Furnished fits fine J ∧ Barring fits 0 u (∀ node ∈ added, good node) := by
  obtain ⟨_, t', peeked, settled', rfl, moves, stays, -⟩ := ends_peek settled true .word
  obtain ⟨rfl, rfl⟩ := ok_unique looked peeked
  have trails : Trails s t := .of_moves settled' moves (.of_eq stays)
  have kept := (blind_peek true .word).furnished furnished
  rw [looked] at kept
  have passed {step : Parser (List Node)} (blind : Blind step)
      (none : Leaves step t fun added _ => added = []) :
      Leaves step t fun added u =>
        u.Furnished fits fine J ∧ Barring fits 0 u (∀ node ∈ added, good node) := by
    intro added u run
    have left : (stateOf (step t)).Furnished fits fine J := blind.furnished kept
    rw [run] at left
    rw [none added u run]
    exact ⟨left, .of (List.forall_mem_nil _)⟩
  have complained (offset : Nat) (cause : Cause) :
      Leaves (do skipToken true .word; complain offset cause; return []) t fun added u =>
        u.Furnished fits fine J ∧ Barring fits 0 u (∀ node ∈ added, good node) :=
    passed ((blind_skipToken _ _).bind fun _ => (blind_complain _ _).bind fun _ => .pure _)
      (.behind fun _ _ => .behind fun _ _ => .pure rfl)
  rw [roundFrom]
  split
  · exact complained _ _
  split
  · exact passed ((blind_skipToken _ _).bind fun _ => .pure _) (.behind fun _ _ => .pure rfl)
  split
  · exact complained _ _
  have spoken : t.Spoken fits := by
    intro place trail
    rw [trails.lexis] at trail ⊢
    exact spoken place (stays ▸ trail)
  obtain ⟨left, made⟩ : (stateOf (parseStatement options resolver (t.reads true .word).token t)).Furnished
      fits fine J ∧ _ := vouches_parseStatement sustains supplies settled' (resting.moved moves) spoken kept
  rw [trails.reads_eq stays] at left made
  intro added u run
  obtain ⟨outcome, v, tried, run⟩ := bind_eq_ok.mp run
  rw [attempt] at tried
  cases statement : parseStatement options resolver (s.reads true .word).token t with
  | ok found w =>
    rw [statement] at left tried
    cases tried
    obtain ⟨_, x, ended, ends⟩ := bind_eq_ok.mp run
    cases ends
    have held := made found v statement
    have left : (stateOf (endStatement v)).Furnished fits fine J := blind_endStatement.furnished left
    rw [ended] at left
    exact ⟨left, held.later (Accumulates.ok (.of_blind blind_endStatement) ended)
      fun held node member => held node (by simpa using member)⟩
  | error fault w =>
    rw [statement] at left tried
    cases tried
    obtain ⟨_, x, ended, ends⟩ := bind_eq_ok.mp run
    cases ends
    have restarted : (restart v).Furnished fits fine J :=
      left.of_same rfl rfl rfl (List.prefix_refl _)
    have left := (blind_giveUp (s.reads true .word).token.start (.fault fault.detail)).furnished
      restarted
    rw [← isolate_eq, ended] at left
    exact ⟨left, .of (List.forall_mem_nil _)⟩

/-- **The values of a source**, one round after the other. -/
theorem vouches_parseAll (settled : s.Settled) (resting : s.Resting)
    (utters : Utters options resolver fits s) (furnished : s.Furnished fits fine J) (fuel : Nat)
    {values : List Node} (held : Barring fits 0 s (∀ node ∈ values, good node)) :
    Leaves (parseAll options resolver fuel values) s fun result t =>
      t.Furnished fits fine J ∧ Barring fits 0 t (∀ node ∈ result, good node) := by
  induction fuel generalizing s values with
  | zero => exact fun _ _ run => nomatch run
  | succ fuel ih =>
    obtain ⟨_, t, looked, settled', rfl, moves, -⟩ := ends_peek settled true .word
    rw [parseAll_succ]
    intro result u run
    rw [sourceRound_eq, bind_ok looked] at run
    have kept := (blind_peek true .word).furnished furnished
    rw [looked] at kept
    have held := held.later moves.reports id
    split at run
    · have left : (stateOf (noteLexical t)).Furnished fits fine J := blind_noteLexical.furnished kept
      obtain ⟨_, v, flushed, ends⟩ := bind_eq_ok.mp run
      cases ends
      rw [flushed] at left
      exact ⟨left, held.later (Accumulates.ok (.of_blind blind_noteLexical) flushed)
        fun held node member => held node (List.mem_reverse.mp member)⟩
    · rename_i more
      obtain ⟨added, v, round, run⟩ := bind_eq_ok.mp run
      obtain ⟨left, gained⟩ := vouches_roundFrom sustains supplies settled resting (utters s (.here s))
        furnished looked added v round
      have held := held.later
        (Accumulates.ok ((throughout_accumulates options resolver).roundFrom _) round) id
      have reaches := Reaches.of_round settled looked more round
      obtain ⟨settled, resting⟩ := resting_of_reaches settled resting reaches
      -- The values so far and those of the round are put together behind the round.
      refine ih settled resting (utters.reached reaches) left ?_ result u run
      exact (gained.both held).imp_right List.forall_mem_append.mpr

/-- **The definitions at hand between two statements** of a source. -/
theorem furnished_of_reaches (settled : s.Settled) (resting : s.Resting)
    (utters : Utters options resolver fits s) (furnished : s.Furnished fits fine J)
    (reaches : Reaches options resolver s t) : t.Furnished fits fine J := by
  induction reaches with
  | here => exact furnished
  | @round s u _ values result more run others ih =>
    obtain ⟨v, added, looked, taken⟩ := exists_taken_of_round settled more run
    obtain ⟨_, _, round, settled', resting', -⟩ := ends_sourceRound_resting settled resting values
    obtain ⟨rfl, rfl⟩ := ok_unique round run
    have left := vouches_roundFrom sustains supplies settled resting (utters s (.here s)) furnished
      looked added _ taken
    exact ih settled' resting' (utters.reached (.of_round settled looked more taken)) left.1

end

end Parser

/-! ## Compilations -/

open TreeLang.Parser

variable {options : CompileOptions} {resolver : Resolver}

/-- A source begins with nothing at hand. -/
lemma furnished_initial (source : Source) {imports : ImportState} (known : J imports) :
    (initial options source imports).Furnished fits fine J :=
  ⟨known, .of (Definitions.Every.empty fine), .of (Definitions.Every.empty fine)⟩

/-- **What comes of a source**: its root has a property that trees have by the way they grow from its
texts, and what it hands to importers are macros of a sort that carry it.  Only errors may bar that, if
the text that stands in for what could not be read does not fit. -/
theorem compile_furnishes (sustains : Sustains fits good fine) (supplies : Supplies fine J resolver)
    (source : Source) {imports : ImportState} (known : J imports)
    (utters : Utters options resolver fits (initial options source imports)) :
    let compiled := (compile options resolver source imports).1
    (¬ fits placeholder ∧ 0 < compiled.errorCount) ∨
      (good compiled.root ∧ compiled.definitions.value.Every fine) := by
  have none : Barring fits 0 (initial options source imports) (∀ node ∈ ([] : List Node), good node) :=
    .of nofun
  have read := vouches_parseAll sustains supplies (outside_initial source imports).settled
    (resting_initial source imports) utters (furnished_initial source known) (source.length + 1) none
  rw [Harmony.compile_eq]
  match outcome : parseAll options resolver (source.length + 1) [] (initial options source imports) with
  | .error fault t => exact .inr ⟨sustains.grown.list _ _ _ _ nofun, .empty fine⟩
  | .ok values t =>
    obtain ⟨furnished, gained⟩ := read values t outcome
    refine (gained.both furnished.exported).imp (fun barred => ⟨barred.1, ?_⟩) fun has =>
      ⟨sustains.grown.list _ _ _ _ has.1, has.2⟩
    show 0 < (t.reports.toList.filter Report.isError).length
    rw [← List.countP_eq_length_filter, Array.countP_toList]
    exact barred.2

/-- What is known of imports is kept by a compilation. -/
lemma compile_keeps (supplies : Supplies fine J resolver) (options : CompileOptions) (source : Source)
    {imports : ImportState} (known : J imports) : J (compile options resolver source imports).2 :=
  compile_evolves (G := fun i j => J i → J j)
    ⟨fun _ => id, fun first second => second ∘ first, supplies.shared, fun path _ => supplies.keeps path⟩
    options source imports known

/-- **Definitions of some sort in a table** are brought by it. -/
lemma supplies_table {table : List (String × Shared Definitions)}
    (every : ∀ entry ∈ table, entry.2.value.Every fine) :
    Supplies fine (fun _ => True) (tableResolver table) where
  shared _ _ := trivial
  keeps _ _ _ := trivial
  brings path {i j definitions} _ run := by
    rw [tableResolver_eq] at run
    match found : definitionsIn table path with
    | none =>
      rw [found] at run
      cases run
    | some known =>
      rw [found] at run
      cases run
      obtain ⟨entry, inside, rfl⟩ := Option.map_eq_some_iff.mp found
      exact every entry (List.mem_of_find?_eq_some inside)

/-- What is remembered of imports are definitions of some sort. -/
def ImportState.Every (fine : MacroDefinition → Prop) (imports : ImportState) : Prop :=
  ∀ entry ∈ imports.cache, entry.2.value.Every fine

lemma ImportState.Every.definitionsOf {imports : ImportState} (every : imports.Every fine)
    {path : String} {definitions : Shared Definitions}
    (found : imports.definitionsOf path = some definitions) : definitions.value.Every fine := by
  obtain ⟨entry, inside, rfl⟩ := Option.map_eq_some_iff.mp found
  exact every entry (List.mem_of_find?_eq_some inside)

/-! ### Whatever the texts -/

/-- Texts of every sort. -/
lemma utters_any (s : ParserState) : Utters options resolver (fun _ => True) s :=
  fun _ _ _ _ _ _ _ => trivial

section

variable (sustains : Sustains (fun _ => True) good fine)

include sustains

/-- **The definitions at hand between two statements** of a source, in force or for importers. -/
theorem every_of_reaches (supplies : Supplies fine J resolver) {source : Source} {imports : ImportState}
    (known : J imports) {s : ParserState}
    (reaches : Reaches options resolver (initial options source imports) s) :
    s.visible.Every fine ∧ s.exported.Every fine := by
  have furnished := furnished_of_reaches sustains supplies (outside_initial source imports).settled
    (resting_initial source imports) (utters_any _) (furnished_initial source known) reaches
  exact (furnished.visible.both furnished.exported).resolve_left fun barred => barred.1 trivial

/-- **What a source defines** is of a sort that does not depend on the texts. -/
lemma every_compile (supplies : Supplies fine J resolver) (source : Source) {imports : ImportState}
    (known : J imports) :
    good (compile options resolver source imports).1.root ∧
      (compile options resolver source imports).1.definitions.value.Every fine :=
  (compile_furnishes sustains supplies source known (utters_any _)).resolve_left
    fun barred => barred.1 trivial

/-- **Sources that import one another** bring such definitions, however deep imports are nested. -/
theorem supplies_loading (options : CompileOptions) (loader : Loader) (depth : Nat) :
    Supplies fine (ImportState.Every fine) (loadingResolver options loader depth) := by
  induction depth with
  | zero =>
    exact ⟨fun _ every => every, fun _ _ every => every, by rintro _ _ _ _ _ ⟨⟩⟩
  | succ depth ih =>
    have both (path : String) (i : ImportState) (every : i.Every fine) :
        (importsOf (loadingResolver options loader (depth + 1) path i)).Every fine ∧
          ∀ (d : Shared Definitions) j,
            loadingResolver options loader (depth + 1) path i = .ok (.ok d) j → d.value.Every fine := by
      rw [loadingResolver_succ]
      cases found : i.definitionsOf path with
      | some known =>
        refine ⟨every, ?_⟩
        rintro _ _ ⟨⟩
        exact every.definitionsOf found
      | none =>
        dsimp only
        split
        · exact ⟨every, by rintro _ _ ⟨⟩⟩
        cases loader path with
        | failure failure => exact ⟨every, by rintro _ _ ⟨⟩⟩
        | fault message => exact ⟨every, by rintro _ _ ⟨⟩⟩
        -- The imports of the source are one level less deep.
        | source source =>
          have inner : ((i.asked path).enter path).Every fine := every
          have kept := compile_keeps ih options source inner
          have made : (compile options (loadingResolver options loader depth) source
              ((i.asked path).enter path)).1.definitions.value.Every fine :=
            (every_compile sustains ih source inner).2
          dsimp only
          rw [concludeImport]
          split
          · refine ⟨List.forall_mem_cons.mpr ⟨made, kept⟩, ?_⟩
            rintro _ _ ⟨⟩
            exact made
          · exact ⟨kept, by rintro _ _ ⟨⟩⟩
    exact ⟨fun _ every => every, fun path i every => (both path i every).1,
      fun path i _ definitions every run => (both path i every).2 definitions _ run⟩

/-- **Sources that were compiled beforehand** define such macros, one after the other. -/
theorem every_precompile (options : CompileOptions) (sources : List (String × Source))
    (imports : ImportState) :
    ∀ entry ∈ (precompile options sources imports).1, entry.2.value.Every fine := by
  induction sources using List.reverseRecOn with
  | nil => exact nofun
  | append_singleton sources last ih =>
    rw [precompile, List.foldl_append]
    exact List.forall_mem_cons.mpr ⟨(every_compile sustains (supplies_table ih) last.2 trivial).2, ih⟩

end

/-! ### Properties of trees -/

/-- **What comes of a source** has a property that trees have by the way they grow from its texts: its
root, and all that it hands to importers.  Only errors may bar that. -/
theorem compile_upholds (grown : Node.GrownFrom fits good) (honest : Honest good J resolver)
    (source : Source) {imports : ImportState} (known : J imports)
    (utters : Utters options resolver fits (initial options source imports)) :
    let compiled := (compile options resolver source imports).1
    (¬ fits placeholder ∧ 0 < compiled.errorCount) ∨
      (good compiled.root ∧ compiled.definitions.value.Carries good) :=
  compile_furnishes grown.sustains honest source known utters

/-- **Definitions in a table that carry a property** are brought by it. -/
lemma honest_table {table : List (String × Shared Definitions)}
    (carries : ∀ entry ∈ table, entry.2.value.Carries good) :
    Honest good (fun _ => True) (tableResolver table) :=
  supplies_table carries

/-- What is remembered of imports carries a property. -/
def ImportState.Carries (good : Node → Prop) (imports : ImportState) : Prop :=
  ∀ entry ∈ imports.cache, entry.2.value.Carries good

section

variable (grown : Node.GrownFrom (fun _ => True) good)

include grown

/-- **What a source defines** carries a property that does not depend on the texts. -/
lemma carries_compile (honest : Honest good J resolver) (source : Source) {imports : ImportState}
    (known : J imports) :
    good (compile options resolver source imports).1.root ∧
      (compile options resolver source imports).1.definitions.value.Carries good :=
  every_compile grown.sustains honest source known

/-- **Sources that import one another** bring definitions that carry it. -/
theorem honest_loading (options : CompileOptions) (loader : Loader) (depth : Nat) :
    Honest good (ImportState.Carries good) (loadingResolver options loader depth) :=
  supplies_loading grown.sustains options loader depth

/-- **Sources that were compiled beforehand** define macros that carry it. -/
theorem carries_precompile (options : CompileOptions) (sources : List (String × Source))
    (imports : ImportState) :
    ∀ entry ∈ (precompile options sources imports).1, entry.2.value.Carries good :=
  every_precompile grown.sustains options sources imports

end

end TreeLang
