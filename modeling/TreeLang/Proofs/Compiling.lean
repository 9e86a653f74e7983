import TreeLang.Compilation
import TreeLang.Proofs.Harmony

/-!
# Compilations side by side

Statements change the definitions in force, and take identities for the macros they define.  Two
compilations of one source with resolvers in harmony do so side by side: each statement leads from
states that are alike to states that are alike, and so does the whole source.

* `follows_registerMacro`, `follows_registerOperator`, … — steps that change definitions.
* `follows_resolveImport` — imports.
* `follows_definitionStatement`, `follows_parseAll` — statements and sources.
* **`Harmony.compile`** — the compilations of a source are alike.
-/

namespace TreeLang

variable {α β γ δ : Type} {R R' : Pairing}

namespace Harmony

open TreeLang.Parser

variable {first second : Resolver} {harmony : Harmony first second} {V : Pairing → α → β → Prop}
  {W : Pairing → γ → δ → Prop} {s t : ParserState}

/-! ## Definitions -/

/-- The definition of a macro, with an identity of its own. -/
def claim (definition : MacroDefinition) : Parser (Shared MacroDefinition) :=
  modifyGet fun s => (⟨s.imports.supply.fresh, definition⟩, { s with imports := s.imports.shared })

/-- Registers a macro for this source; answers the conflict if there is one. -/
def enlistVisible (macro_ : Shared MacroDefinition) : Parser (Option Report) :=
  modifyGet fun s => ((s.visible.macros.enlist macro_).1,
    { s with visible := { s.visible with macros := (s.visible.macros.enlist macro_).2 } })

/-- Registers a macro for importers; answers the conflict if there is one. -/
def enlistExported (macro_ : Shared MacroDefinition) : Parser (Option Report) :=
  modifyGet fun s => ((s.exported.macros.enlist macro_).1,
    { s with exported := { s.exported with macros := (s.exported.macros.enlist macro_).2 } })

lemma registerMacro_eq (definition : MacroDefinition) (offset : Nat) :
    registerMacro definition offset = (do
      let macro_ ← claim definition
      match ← enlistVisible macro_ with
      | some report => note (report.atOffset offset)
      | none =>
        match ← enlistExported macro_ with
        | some report => note (report.atOffset offset)
        | none => pure ()) := by
  funext s
  rw [registerMacro_run, claim, bind_modifyGet, enlistVisible, bind_modifyGet, MacroRegistry.enlist]
  dsimp only
  cases s.visible.macros.add ⟨s.imports.supply.fresh, definition⟩ with
  | error report => rfl
  | ok macros =>
    dsimp only
    rw [enlistExported, bind_modifyGet, MacroRegistry.enlist]
    dsimp only
    cases s.exported.macros.add ⟨s.imports.supply.fresh, definition⟩ <;> rfl

/-- A pair of fresh identities corresponds in the pairing that has it. -/
lemma follows_claim (definition : MacroDefinition) :
    harmony.Follows Shared.Paired R (claim definition) (claim definition) :=
  .redefine fun _ _ _ alike => ⟨_, Pairing.le_insert _ _ _, ⟨.inr ⟨rfl, rfl⟩, rfl⟩,
    alike.visible.mono (Pairing.le_insert _ _ _), alike.exported.mono (Pairing.le_insert _ _ _),
    harmony.share alike.imports⟩

/-- A step that changes definitions, and nothing else. -/
lemma Follows.define {answer : ParserState → α} {answer' : ParserState → β}
    {visible exported visible' exported' : ParserState → Definitions}
    (h : ∀ {R'}, R ≤ R' → ∀ {s t}, harmony.Alike R' s t → V R' (answer s) (answer' t) ∧
      (visible s).Matched R' (visible' t) ∧ (exported s).Matched R' (exported' t)) :
    harmony.Follows V R
      (modifyGet fun s => (answer s, { s with visible := visible s, exported := exported s }))
      (modifyGet fun t => (answer' t, { t with visible := visible' t, exported := exported' t })) :=
  .redefine fun le _ _ alike => ⟨_, le_refl _, (h le alike).1, (h le alike).2.1,
    (h le alike).2.2, alike.imports⟩

lemma follows_enlistVisible {macro_ other : Shared MacroDefinition}
    (paired : macro_.Paired R other) :
    harmony.Follows Equal R (enlistVisible macro_) (enlistVisible other) := by
  refine .define fun le _ _ alike => ?_
  obtain ⟨same, macros⟩ := alike.visible.macros.enlist (paired.mono le)
  exact ⟨same, ⟨macros, alike.visible.operators⟩, alike.exported⟩

lemma follows_enlistExported {macro_ other : Shared MacroDefinition}
    (paired : macro_.Paired R other) :
    harmony.Follows Equal R (enlistExported macro_) (enlistExported other) := by
  refine .define fun le _ _ alike => ?_
  obtain ⟨same, macros⟩ := alike.exported.macros.enlist (paired.mono le)
  exact ⟨same, alike.visible, ⟨macros, alike.exported.operators⟩⟩

/-- **Registering a macro** takes an identity on both sides. -/
theorem follows_registerMacro (definition : MacroDefinition) (offset : Nat) :
    harmony.Follows Equal R (registerMacro definition offset) (registerMacro definition offset) := by
  rw [registerMacro_eq]
  refine (follows_claim definition).bindWith (fun macro_ => ?_) fun {R'} _ {macro_ other} paired => ?_
  · refine Retains.bind (Retains.modifyGet fun _ => rfl) fun conflict => ?_
    cases conflict with
    | some report => exact (blind_note _).retains
    | none =>
      refine Retains.bind (Retains.modifyGet fun _ => rfl) fun conflict => ?_
      cases conflict with
      | some report => exact (blind_note _).retains
      | none => exact (Blind.pure ()).retains
  · refine (follows_enlistVisible paired).bind fun conflict => ?_
    cases conflict with
    | some report => exact .of_blind (blind_note _)
    | none =>
      refine (follows_enlistExported paired).bind fun conflict => ?_
      cases conflict with
      | some report => exact .of_blind (blind_note _)
      | none => exact .of_blind (.pure ())

/-- Registers an operator for this source; answers the conflict if there is one. -/
def enlistVisibleOperator (op : OperatorDefinition) : Parser (Option OperatorConflict) :=
  modifyGet fun s => ((s.visible.operators.enlist op).1,
    { s with visible := { s.visible with operators := (s.visible.operators.enlist op).2 } })

/-- Registers an operator for importers; answers the conflict if there is one. -/
def enlistExportedOperator (op : OperatorDefinition) : Parser (Option OperatorConflict) :=
  modifyGet fun s => ((s.exported.operators.enlist op).1,
    { s with exported := { s.exported with operators := (s.exported.operators.enlist op).2 } })

lemma registerOperator_eq (options : CompileOptions) (op : OperatorDefinition) (offset : Nat) :
    registerOperator options op offset = (do
      let reject (conflict : OperatorConflict) : Parser Unit :=
        note ((Report.errorAt offset (.rejectedOperator op.name conflict)).withSeverity
          options.invalidOperatorSeverity)
      match ← enlistVisibleOperator op with
      | some conflict => reject conflict
      | none =>
        match ← enlistExportedOperator op with
        | some conflict => reject conflict
        | none => pure ()
      forget) := by
  funext s
  rw [registerOperator_run, enlistVisibleOperator, bind_modifyGet, OperatorRegistry.enlist]
  dsimp only
  cases s.visible.operators.add op with
  | error conflict => rfl
  | ok operators =>
    dsimp only
    rw [enlistExportedOperator, bind_modifyGet, OperatorRegistry.enlist]
    dsimp only
    cases s.exported.operators.add op <;> rfl

/-- **Registering an operator** does the same on both sides. -/
theorem follows_registerOperator (options : CompileOptions) (op : OperatorDefinition)
    (offset : Nat) : harmony.Follows Equal R (registerOperator options op offset)
      (registerOperator options op offset) := by
  have visible : harmony.Follows Equal R (enlistVisibleOperator op) (enlistVisibleOperator op) :=
    .define fun _ _ _ alike => by
      refine ⟨?_, ⟨alike.visible.macros, ?_⟩, alike.exported⟩ <;> rw [alike.visible.operators]
      rfl
  have exported : harmony.Follows Equal R (enlistExportedOperator op) (enlistExportedOperator op) :=
    .define fun _ _ _ alike => by
      refine ⟨?_, alike.visible, ⟨alike.exported.macros, ?_⟩⟩ <;> rw [alike.exported.operators]
      rfl
  rw [registerOperator_eq]
  refine visible.bind fun conflict => ?_
  cases conflict with
  | some conflict => exact .after (blind_note _) fun _ => .of_blind blind_forget
  | none =>
    refine exported.bind fun conflict => ?_
    cases conflict with
    | some conflict => exact .after (blind_note _) fun _ => .of_blind blind_forget
    | none => exact .of_blind blind_forget

/-! ## Imports -/

lemma follows_importVisible {d e : Definitions} (matched : d.Matched R e) :
    harmony.Follows Equal R (importVisible d) (importVisible e) := by
  refine .define fun le _ _ alike => ?_
  obtain ⟨same, visible⟩ :=
    alike.visible.copyFrom (harmony.oneToOne alike.imports) (matched.mono le)
  exact ⟨same, visible, alike.exported⟩

lemma follows_importExported {d e : Definitions} (matched : d.Matched R e) :
    harmony.Follows Equal R (importExported d) (importExported e) := by
  refine .define fun le _ _ alike => ?_
  obtain ⟨same, exported⟩ :=
    alike.exported.copyFrom (harmony.oneToOne alike.imports) (matched.mono le)
  exact ⟨same, alike.visible, exported⟩

lemma follows_removeImported {d e : Definitions} (matched : d.Matched R e) :
    harmony.Follows Equal R (removeImported d) (removeImported e) := by
  refine .define fun le _ _ alike => ?_
  obtain ⟨first, visible⟩ :=
    alike.visible.removeAll (harmony.oneToOne alike.imports) (matched.mono le)
  obtain ⟨second, exported⟩ :=
    alike.exported.removeAll (harmony.oneToOne alike.imports) (matched.mono le)
  exact ⟨congrArg₂ (· + ·) first second, visible, exported⟩

lemma follows_removeMacros (name : String) (kinds : List MacroKind) :
    harmony.Follows Equal R (removeMacros name kinds) (removeMacros name kinds) := by
  refine .define fun _ _ _ alike => ?_
  obtain ⟨first, visible⟩ := alike.visible.macros.remove name kinds
  obtain ⟨second, exported⟩ := alike.exported.macros.remove name kinds
  exact ⟨congrArg₂ (· + ·) first second, ⟨visible, alike.visible.operators⟩,
    ⟨exported, alike.exported.operators⟩⟩

lemma follows_removeOperators (name : String) (keyword : Bool) :
    harmony.Follows Equal R (removeOperators name keyword) (removeOperators name keyword) := by
  refine .define fun _ _ _ alike => ?_
  refine ⟨?_, ⟨alike.visible.macros, ?_⟩, ⟨alike.exported.macros, ?_⟩⟩
  · show _ = _
    rw [alike.visible.operators, alike.exported.operators]
  · rw [alike.visible.operators]
  · rw [alike.exported.operators]

/-- An answer within a parse. -/
def answered (s : ParserState) :
    Answer → EStateM.Result Fault ParserState (Except ImportFailure (Shared Definitions))
  | .ok answer imports => .ok answer { s with imports := imports }
  | .error fault imports => .error fault { s with imports := imports }

lemma resolveImport_eq (resolver : Resolver) (path : String) (s : ParserState) :
    resolveImport resolver path s = answered s (resolver path s.imports) := by
  rw [resolveImport]
  cases resolver path s.imports <;> rfl

lemma retains_resolveImport (resolver : Resolver) (path : String) :
    Retains (resolveImport resolver path) := by
  intro s mistaken
  rw [resolveImport_eq]
  cases resolver path s.imports with
  | ok => exact mistaken
  | error => trivial

/-- **Resolving an import**, and what is done with the answer. -/
theorem follows_resolveImport {path : String}
    {next next' : Except ImportFailure (Shared Definitions) → Parser Unit}
    (retains : ∀ answer, Retains (next answer))
    (found : ∀ {R'}, R ≤ R' → ∀ {d e : Shared Definitions}, d.value.Matched R' e.value →
      harmony.Follows Equal R' (next (.ok d)) (next' (.ok e)))
    (unresolved : ∀ {R'}, R ≤ R' → ∀ {f g : ImportFailure},
      (∀ offset path, harmony.told (Report.errorAt offset (.unresolvedImport path f))
        (Report.errorAt offset (.unresolvedImport path g))) →
      harmony.Follows Equal R' (next (.error f)) (next' (.error g)))
    (fails : ∀ failure {s : ParserState}, s.recovering = false → Fails (next (.error failure) s)) :
    harmony.Follows Equal R (resolveImport first path >>= next)
      (resolveImport second path >>= next') where
  retains := Retains.bind (retains_resolveImport first path) retains
  together {R'} le s t alike attends := by
    have asked := harmony.resolve alike.imports path
    generalize hp : first path s.imports = p at asked
    generalize hq : second path t.imports = q at asked
    have first_eq := resolveImport_eq first path s
    have second_eq := resolveImport_eq second path t
    rw [hp] at first_eq
    rw [hq] at second_eq
    cases asked with
    | found le' matched joined =>
      rw [bind_ok first_eq, bind_ok second_eq]
      exact ((found (le.trans le') matched).together (le_refl _)
        (alike.redefine (alike.visible.mono le') (alike.exported.mono le') joined)
        attends).mono le'
    | unresolved le' told joined =>
      rw [bind_ok first_eq, bind_ok second_eq]
      exact ((unresolved (le.trans le') told).together (le_refl _)
        (alike.redefine (alike.visible.mono le') (alike.exported.mono le') joined)
        attends).mono le'
    | fault le' fault joined =>
      rw [bind_error first_eq, bind_error second_eq]
      exact .fault le' fault
        (alike.redefine (alike.visible.mono le') (alike.exported.mono le') joined)
    | missing forgives none =>
      refine .forgiven forgives ?_
      match p with
      | .ok (.ok d) i => exact absurd rfl (none d i)
      | .ok (.error failure) i =>
        rw [bind_ok first_eq]
        exact fails failure attends
      | .error _ i =>
        rw [bind_error first_eq]
        trivial

/-- What is done with the answer of an importing statement. -/
def takeImport (isPublic : Bool) (path : String) (offset : Nat)
    (answer : Except ImportFailure (Shared Definitions)) : Parser Unit := do
  match answer with
  | .ok definitions =>
    let visibleConflicts ← importVisible definitions.value
    let exportedConflicts ← if isPublic then importExported definitions.value else pure []
    (visibleConflicts ++ exportedConflicts).forM fun conflict =>
      note (conflict.asWarning.atOffset offset)
  | .error failure => complain offset (.unresolvedImport path failure)
  forget

/-- What is done with the answer of a statement that takes an import back. -/
def dropImport (path : String) (offset : Nat)
    (answer : Except ImportFailure (Shared Definitions)) : Parser Unit := do
  match answer with
  | .error failure => complain offset (.unresolvedImport path failure)
  | .ok definitions =>
    let removed ← removeImported definitions.value
    warnIfNone removed offset (.nothingImported path)
    forget

/-- Reports that count as the same. -/
lemma follows_note {report other : Report} (told : harmony.told report other) :
    harmony.Follows Equal R (note report) (note other) where
  retains := (blind_note _).retains
  together {R'} _ s t alike attends := by
    have attends' : t.recovering = false := alike.recovering_eq.trans attends
    rw [note_eq, note_eq, if_neg (by simp [attends]), if_neg (by simp [attends'])]
    refine .ok (le_refl _) rfl attends ⟨?_, alike.visible, alike.exported, alike.imports, ?_⟩
    · have rest := alike.rest
      simp only [ParserState.surroundings, Surroundings.place, ParserState.bare] at rest ⊢
      rw [rest]
      simp
    · simp only [Array.toList_push]
      exact List.rel_append alike.reports (.cons told .nil)

lemma follows_takeImport_ok (isPublic : Bool) (path : String) (offset : Nat)
    {d e : Shared Definitions} (matched : d.value.Matched R e.value) :
    harmony.Follows Equal R (takeImport isPublic path offset (.ok d))
      (takeImport isPublic path offset (.ok e)) := by
  have noted (conflicts : List Report) : Blind (do
      conflicts.forM fun conflict => note (conflict.asWarning.atOffset offset)
      forget) :=
    (Blind.forM fun _ => blind_note _).bind fun _ => blind_forget
  refine (follows_importVisible matched).bind fun visible => .ite ?_ ?_
  · exact (follows_importExported matched).bind fun exported => .of_blind (noted _)
  · exact .of_blind (noted _)

lemma follows_dropImport_ok (path : String) (offset : Nat) {d e : Shared Definitions}
    (matched : d.value.Matched R e.value) :
    harmony.Follows Equal R (dropImport path offset (.ok d)) (dropImport path offset (.ok e)) :=
  (follows_removeImported matched).bind fun _ =>
    .of_blind ((blind_warnIfNone _ _ _).bind fun _ => blind_forget)

lemma retains_takeImport (isPublic : Bool) (path : String) (offset : Nat)
    (answer : Except ImportFailure (Shared Definitions)) :
    Retains (takeImport isPublic path offset answer) := by
  cases answer with
  | error failure => exact Retains.bind (blind_complain _ _).retains fun _ => blind_forget.retains
  | ok d =>
    have noted (conflicts : List Report) : Retains (do
        conflicts.forM fun conflict => note (conflict.asWarning.atOffset offset)
        forget) :=
      ((Blind.forM fun _ => blind_note _).bind fun _ => blind_forget).retains
    have visible : Retains (importVisible d.value) := Retains.modifyGet fun _ => rfl
    have exported : Retains (importExported d.value) := Retains.modifyGet fun _ => rfl
    refine visible.bind fun _ => ?_
    cases isPublic with
    | true => exact exported.bind fun _ => noted _
    | false => exact noted _

lemma retains_dropImport (path : String) (offset : Nat)
    (answer : Except ImportFailure (Shared Definitions)) : Retains (dropImport path offset answer) := by
  cases answer with
  | error failure => exact (blind_complain _ _).retains
  | ok d =>
    have removed : Retains (removeImported d.value) := Retains.modifyGet fun _ => rfl
    exact removed.bind fun _ => ((blind_warnIfNone _ _ _).bind fun _ => blind_forget).retains

/-- **Importing statements** go side by side. -/
theorem follows_useStatement :
    harmony.Follows Equal R (useStatement first) (useStatement second) := by
  refine .after (blind_skipToken _ _) fun _ => .after blind_publicMark fun isPublic => ?_
  refine .after blind_importPath? fun path => ?_
  match path with
  | none => exact .of_blind (.pure ())
  | some (path, offset) =>
    show harmony.Follows Equal R (resolveImport first path >>= takeImport isPublic path offset)
      (resolveImport second path >>= takeImport isPublic path offset)
    refine follows_resolveImport (retains_takeImport isPublic path offset) ?_ ?_ ?_
    · exact fun _ _ _ matched => follows_takeImport_ok isPublic path offset matched
    · exact fun _ _ _ told => (follows_note (told offset path)).bind fun _ => .of_blind blind_forget
    · exact fun failure _ attends => (fails_complain offset _ attends).bind fun _ => blind_forget.retains

lemma follows_undefineImport :
    harmony.Follows Equal R (undefineImport first) (undefineImport second) := by
  refine .after blind_importPath? fun path => ?_
  match path with
  | none => exact .of_blind (.pure ())
  | some (path, offset) =>
    show harmony.Follows Equal R (resolveImport first path >>= dropImport path offset)
      (resolveImport second path >>= dropImport path offset)
    refine follows_resolveImport (retains_dropImport path offset) ?_ ?_ ?_
    · exact fun _ _ _ matched => follows_dropImport_ok path offset matched
    · exact fun _ _ _ told => follows_note (told offset path)
    · exact fun failure _ attends => fails_complain offset _ attends

/-! ## Statements -/

lemma follows_undefineMacro (function : Bool) :
    harmony.Follows Equal R (undefineMacro function) (undefineMacro function) := by
  refine .after (blind_advance _ _) fun name => .ite (.of_blind (blind_giveUp _ _)) ?_
  refine .after (blind_emptyShape _) fun shape => ?_
  cases shape with
  | none => exact .of_blind (.pure ())
  | some shape =>
    exact (follows_removeMacros _ _).bind fun _ => .of_blind (blind_warnIfNone _ _ _)

lemma follows_undefineOperator (word : String) (keyword : Bool) :
    harmony.Follows Equal R (undefineOperator word keyword) (undefineOperator word keyword) := by
  refine .after (blind_advance _ _) fun symbol => .ite (.of_blind (blind_giveUp _ _)) ?_
  exact (follows_removeOperators _ _).bind fun _ =>
    .of_blind ((blind_warnIfNone _ _ _).bind fun _ => blind_forget)

lemma follows_undefineStatement :
    harmony.Follows Equal R (undefineStatement first) (undefineStatement second) := by
  refine .after (blind_skipToken _ _) fun _ => .after (blind_advance _ _) fun what => ?_
  split
  · exact follows_undefineMacro false
  · exact follows_undefineMacro true
  · exact follows_undefineOperator _ false
  · exact follows_undefineOperator _ true
  · exact follows_undefineImport
  · exact .of_blind (blind_giveUp _ _)

variable (options : CompileOptions)

lemma follows_macroTemplate (fuel : Nat) (name : Token) (signature : Signature)
    (parameters : List Parameter) (checked : Except Report (List Parameter)) :
    harmony.Follows Equal R (macroTemplate options fuel name signature parameters checked)
      (macroTemplate options fuel name signature parameters checked) := by
  rw [macroTemplate_eq]
  refine .after (blind_counted (blind_template options fuel parameters)) fun found => ?_
  obtain ⟨⟨node, scope⟩, mistaken⟩ := found
  cases checked with
  | error report => exact .of_blind (.pure ())
  | ok parameters =>
    cases scope with
    | none => exact .of_blind (.pure ())
    | some scope =>
      refine .ite (.of_blind (.pure ())) ?_
      split
      · exact .after (.forM fun _ => blind_note _) fun _ => follows_registerMacro _ _
      · exact .of_blind (blind_note _)
      · exact .of_blind (.throw _)

lemma follows_macroStatement (fuel : Nat) (function : Bool) :
    harmony.Follows Equal R (macroStatement options fuel function)
      (macroStatement options fuel function) := by
  refine .after (blind_advance _ _) fun word => .after (blind_advance _ _) fun name => ?_
  refine .ite (.of_blind (blind_giveUp _ _)) (.after (blind_macroHead _ _ _ _) fun head => ?_)
  match head with
  | none => exact .of_blind (blind_recover _)
  | some (kind, parameters) =>
    refine .after (blind_peek _ _) fun colon => .ite (.of_blind (blind_giveUp _ _)) ?_
    refine .after (blind_skipToken _ _) fun _ => ?_
    rw [macroBody_eq]
    split
    · exact .after (blind_note _) fun _ => follows_macroTemplate options _ _ _ _ _
    · exact follows_macroTemplate options _ _ _ _ _

lemma follows_operatorStatement (fuel : Nat) (keyword : Bool) :
    harmony.Follows Equal R (operatorStatement options fuel keyword)
      (operatorStatement options fuel keyword) := by
  refine .after (blind_advance _ _) fun word => .after (blind_advance _ _) fun symbol => ?_
  refine .ite (.of_blind (blind_giveUp _ _)) (.after (blind_advance _ _) fun asWord => ?_)
  refine .ite (.of_blind (blind_giveUp _ _)) (.after (blind_clauseList _ _) fun clauses => ?_)
  cases clauses with
  | none => exact .of_blind (.pure ())
  | some clauses =>
    refine .after blind_operatorAlias fun found => ?_
    cases found with
    | none => exact .of_blind (.pure ())
    | some aliasName =>
      dsimp only
      split
      · exact follows_registerOperator options _ _
      · exact .of_blind (blind_note _)

/-- **Definition statements** go side by side. -/
theorem follows_definitionStatement (fuel : Nat) (opening : StatementKeyword) :
    harmony.Follows Equal R (definitionStatement options first fuel opening)
      (definitionStatement options second fuel opening) := by
  cases opening with
  | template => exact follows_macroStatement options fuel false
  | function => exact follows_macroStatement options fuel true
  | operator => exact follows_operatorStatement options fuel false
  | keyword => exact follows_operatorStatement options fuel true
  | undefine => exact follows_undefineStatement
  | use => exact follows_useStatement

theorem follows_parseStatement (token : Token) :
    harmony.Follows Equal R (parseStatement options first token)
      (parseStatement options second token) := by
  refine .after blind_valueFuel fun fuel => .after (blind_statementKeyword? token) fun opening => ?_
  cases opening with
  | some opening =>
    exact (follows_definitionStatement options fuel opening).bind fun _ => .of_blind (.pure _)
  | none => exact .of_blind ((blind_parseValue _ _).bind fun _ => .pure _)

/-! ## Sources -/

lemma attempt_bind {step : Parser α} (next : Except Fault α → Parser β) (s : ParserState) :
    (attempt step >>= next) s =
      match step s with
      | .ok value t => next (.ok value) t
      | .error fault t => next (.error fault) t := by
  match h : step s with
  | .ok value t => exact bind_ok (show attempt step s = .ok (.ok value) t by rw [attempt, h])
  | .error fault t => exact bind_ok (show attempt step s = .ok (.error fault) t by rw [attempt, h])

/-- What was left behind by a fault is set aside on both sides. -/
lemma Alike.restart (alike : harmony.Alike R s t) : harmony.Alike R (restart s) (restart t) where
  rest := by
    have rest := alike.rest
    simp only [ParserState.surroundings, Surroundings.place, ParserState.bare,
      Parser.restart] at rest ⊢
    rw [rest]
    simp
  visible := alike.visible
  exported := alike.exported
  imports := alike.imports
  reports := alike.reports

/-- **Statements that may break off** go side by side, if what is read behind them does. -/
lemma follows_attempt {step other : Parser α} {next next' : Except Fault α → Parser β}
    {rest rest' : Parser β} (offset : Nat) (follows : harmony.Follows Equal R step other)
    (h : ∀ value, harmony.Follows Equal R (next (.ok value)) (next' (.ok value)))
    (h' : harmony.Follows Equal R rest rest')
    (isolates : ∀ fault, next (.error fault) = isolate offset fault >>= fun _ => rest)
    (isolates' : ∀ fault, next' (.error fault) = isolate offset fault >>= fun _ => rest') :
    harmony.Follows Equal R (attempt step >>= next) (attempt other >>= next') where
  retains s mistaken := by
    rw [attempt_bind]
    have fails := follows.retains s mistaken
    cases outcome : step s with
    | ok value t =>
      rw [outcome] at fails
      exact (h value).retains t fails
    | error fault t =>
      dsimp only
      rw [isolates]
      exact (fails_isolate offset fault t).bind fun _ => h'.retains
  together {R'} le s t alike attends := by
    rw [attempt_bind, attempt_bind]
    have together := follows.together le alike attends
    generalize step s = p at together
    generalize other t = q at together
    cases together with
    | ok le' related attends alike =>
      cases related
      exact ((h _).together (le.trans le') alike attends).mono le'
    | fault le' fault alike =>
      dsimp only
      rw [isolates, isolates']
      have given : harmony.Follows Equal R (giveUp offset (.fault fault.detail) >>= fun _ => rest)
          (giveUp offset (.fault fault.detail) >>= fun _ => rest') :=
        .after (blind_giveUp _ _) fun _ => h'
      exact (given.together (le.trans le') alike.restart rfl).mono le'
    | forgiven forgives fails =>
      refine .forgiven forgives ?_
      cases p with
      | ok value u => exact (h value).retains u fails
      | error fault u =>
        dsimp only
        rw [isolates]
        exact (fails_isolate offset fault u).bind fun _ => h'.retains

/-- One statement of a source. -/
lemma follows_sourceRound {next next' : List Node → Parser (List Node)}
    (h : ∀ values, harmony.Follows Equal R (next values) (next' values)) (values : List Node) :
    harmony.Follows Equal R (sourceRound options first next values)
      (sourceRound options second next' values) := by
  refine .after (blind_peek _ _) fun token => .ite ?_ (.ite ?_ (.ite ?_ (.ite ?_ ?_)))
  · exact .of_blind (blind_noteLexical.bind fun _ => .pure _)
  · exact .after (blind_skipToken _ _) fun _ => .after (blind_complain _ _) fun _ => h _
  · exact .after (blind_skipToken _ _) fun _ => h _
  · exact .after (blind_skipToken _ _) fun _ => .after (blind_complain _ _) fun _ => h _
  · exact follows_attempt token.start (follows_parseStatement options token)
      (fun value => .after blind_endStatement fun _ => h (value.toList ++ values)) (h values)
      (fun _ => rfl) fun _ => rfl

/-- **The statements of a source** go side by side. -/
theorem follows_parseAll (fuel : Nat) (values : List Node) :
    harmony.Follows Equal R (parseAll options first fuel values)
      (parseAll options second fuel values) := by
  induction fuel generalizing values with
  | zero => exact .of_blind (.throw _)
  | succ fuel ih =>
    rw [parseAll_succ, parseAll_succ]
    exact follows_sourceRound options ih values

/-! ## Compilations -/

/-- **Two compilations of a source that are alike**, with the states of imports behind them. -/
structure Agrees (harmony : Harmony first second) (R : Pairing)
    (p q : Compilation × ImportState) : Prop where
  root : p.1.root = q.1.root
  reports : List.Forall₂ harmony.told p.1.reports q.1.reports
  definitions : p.1.definitions.value.Matched R q.1.definitions.value
  paired : R p.1.definitions.identity q.1.definitions.identity
  imports : harmony.joint R p.2 q.2

lemma alike_initial (source : Source) {i j : ImportState} (joined : harmony.joint R i j) :
    harmony.Alike R (initial options source i) (initial options source j) where
  rest := by simp [initial, ParserState.surroundings, Surroundings.place, ParserState.bare]
  visible := .of_operators _
  exported := .of_operators _
  imports := joined
  reports := .nil

/-- What a compilation makes of the outcome of its parse. -/
def finish (source : Source) :
    EStateM.Result Fault ParserState (List Node) → Compilation × ImportState
  | .ok values s =>
    (⟨source, .listOf "" values false, ⟨s.imports.supply.fresh, s.exported⟩, s.reports.toList⟩,
      s.imports.shared)
  | .error fault s =>
    (⟨source, .listOf "" [] false, ⟨s.imports.supply.fresh, .empty⟩,
      [Report.of (.fault fault.detail)]⟩, s.imports.shared)

lemma compile_eq (resolver : Resolver) (source : Source) (imports : ImportState) :
    compile options resolver source imports
      = finish source (parseAll options resolver (source.length + 1) []
          (initial options source imports)) := by
  rw [compile]
  cases parseAll options resolver (source.length + 1) [] (initial options source imports) <;> rfl

/-- A parse that fails is a compilation with an error. -/
lemma errorCount_finish (source : Source)
    {outcome : EStateM.Result Fault ParserState (List Node)} (fails : Fails outcome) :
    (finish source outcome).1.errorCount ≠ 0 := by
  have witness {reports : List Report} {report : Report} (mem : report ∈ reports)
      (error : report.isError = true) : (reports.filter Report.isError).length ≠ 0 :=
    List.length_pos_iff_exists_mem.mpr ⟨report, List.mem_filter.mpr ⟨mem, error⟩⟩ |>.ne'
  cases outcome with
  | ok values s =>
    obtain ⟨report, mem, error⟩ := fails
    exact witness mem error
  | error fault s => exact witness (List.mem_singleton.mpr rfl) rfl

/-- **The compilations of a source with two resolvers in harmony are alike**, unless the first one
has an error and that is forgiven. -/
theorem compile (harmony : Harmony first second) (options : CompileOptions) (source : Source)
    {i j : ImportState} (joined : harmony.joint R i j) :
    (harmony.forgiving ∧ (compile options first source i).1.errorCount ≠ 0) ∨
      ∃ R', R ≤ R' ∧
        harmony.Agrees R' (compile options first source i) (compile options second source j) := by
  have together := (follows_parseAll options (source.length + 1) []).together (le_refl R)
    (alike_initial options source joined) rfl
  rw [compile_eq, compile_eq]
  generalize parseAll options first _ _ _ = p at together
  generalize parseAll options second _ _ _ = q at together
  cases together with
  | forgiven forgives fails => exact .inl ⟨forgives, errorCount_finish source fails⟩
  | ok le related attends alike =>
    cases related
    exact .inr ⟨_, le.trans (Pairing.le_insert _ _ _), rfl, alike.reports,
      alike.exported.mono (Pairing.le_insert _ _ _), .inr ⟨rfl, rfl⟩, harmony.share alike.imports⟩
  | fault le fault alike =>
    exact .inr ⟨_, le.trans (Pairing.le_insert _ _ _), rfl, .cons (harmony.told_refl _) .nil,
      .of_operators _, .inr ⟨rfl, rfl⟩, harmony.share alike.imports⟩

end Harmony

end TreeLang
