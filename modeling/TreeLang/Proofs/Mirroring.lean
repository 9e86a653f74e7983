import TreeLang.Proofs.Compiling
import TreeLang.Proofs.Echoing

/-!
# Statements read abreast

Two parsers abreast register the same macros and the same operators, import and take back the same
definitions, and report the same about it.  So they read the same statements, up to the end of the text
that both stand in front of.

* `Anchored` — two parsers whose definitions have changed, before what was read ahead is forgotten.
* `Opens` — where a statement begins alike.
* `follows_registerMacro`, `leads_useStatement`, … — statements.
* **`follows_parseAll`** — sources.
-/

namespace TreeLang

/-! ## Reports without a place -/

section Unplaced

variable {report : Report}

lemma Report.Unplaced.asWarning (unplaced : report.Unplaced) : report.asWarning.Unplaced :=
  unplaced

lemma MacroRegistry.unplaced_add {registry : MacroRegistry} {new : Shared MacroDefinition}
    (h : registry.add new = .error report) : report.Unplaced := by
  rw [MacroRegistry.add] at h
  split at h
  · cases h
    rfl
  · cases h

lemma MacroRegistry.unplaced_enlist {registry : MacroRegistry} {new : Shared MacroDefinition}
    (h : (registry.enlist new).1 = some report) : report.Unplaced := by
  rw [MacroRegistry.enlist] at h
  split at h
  · rename_i added
    cases h
    exact unplaced_add added
  · cases h

lemma MacroRegistry.unplaced_copyFrom (registry other : MacroRegistry) :
    ∀ report ∈ (registry.copyFrom other).1, report.Unplaced := by
  have copied (new : List (Shared MacroDefinition)) : ∀ state : List Report × MacroRegistry,
      (∀ report ∈ state.1, report.Unplaced) →
        ∀ report ∈ (new.foldl MacroRegistry.copyOne state).1, report.Unplaced := by
    induction new with
    | nil => exact fun _ h => h
    | cons first rest ih =>
      refine fun state h => ih _ fun report mem => ?_
      obtain ⟨conflicts, registry⟩ := state
      rw [MacroRegistry.copyOne] at mem
      split at mem
      · exact h report mem
      · split at mem
        · exact h report mem
        · rename_i added
          rcases List.mem_append.mp mem with mem | mem
          · exact h report mem
          · rw [List.mem_singleton.mp mem]
            exact unplaced_add added
  exact copied other.definitions ([], registry) (List.forall_mem_nil _)

lemma Definitions.unplaced_copyFrom (definitions other : Definitions) :
    ∀ report ∈ (definitions.copyFrom other).1, report.Unplaced := by
  intro report mem
  rcases List.mem_append.mp mem with mem | mem
  · exact MacroRegistry.unplaced_copyFrom _ _ report mem
  · obtain ⟨_, -, rfl⟩ := List.mem_map.mp mem
    rfl

end Unplaced

namespace Parallel

open TreeLang.Parser
open TreeLang.Harmony (claim enlistVisible enlistExported registerMacro_eq enlistVisibleOperator
  enlistExportedOperator registerOperator_eq answered resolveImport_eq takeImport dropImport)

variable {α β : Type} {P : Parallel} {s t : ParserState} {options : CompileOptions}
  {resolver : Resolver}

/-! ## Steps on the way -/

lemma follows_attachedOpener? (name : Token) :
    P.Follows (fun x y => y = x.map (·.shift P.ahead)) (attachedOpener? name)
      (attachedOpener? (name.shift P.ahead)) := by
  refine (follows_peek _ _).bind fun opener _ further => .pure ?_
  subst further
  simp only [behind_shift]
  show (if opener.kind.isOpener && decide (opener.start = name.stop) then
    some (opener.shift P.ahead) else none) = _
  split <;> rfl

/-- Errors are counted behind those of the second parser alone. -/
lemma follows_counted {V : α → β → Prop} {step : Parser α} {other : Parser β}
    (h : P.Follows V step other) :
    P.Follows (fun x y => V x.1 y.1 ∧ y.2 = x.2) (counted step) (counted other) := by
  have count {s t : ParserState} (abreast : P.Abreast s t) : t.reports.countP Report.isError
      = P.front.countP Report.isError + s.reports.countP Report.isError := by
    obtain ⟨later, same, related⟩ := abreast.reports
    rw [← Array.countP_toList, same, List.countP_append, ← Array.countP_toList]
    congr 1
    clear same
    generalize s.reports.toList = xs at related
    induction related with
    | nil => rfl
    | cons first _ ih => rw [List.countP_cons, List.countP_cons, ih, first.isError_eq]
  refine ⟨fun {s t} abreast => ?_⟩
  have both := h.both abreast
  rw [counted_eq, counted_eq]
  simp only [Bind.bind, EStateM.bind]
  generalize step s = p, other t = q at both
  cases both with
  | fault fault abreast => exact .fault fault abreast
  | ok related after =>
    refine .ok ⟨related, ?_⟩ after
    simp only [count abreast, count after, Nat.add_lt_add_iff_left]

/-- **Two parsers whose definitions have changed**: what was read ahead has yet to be forgotten. -/
structure Anchored (P : Parallel) (s t : ParserState) : Prop extends Lasting P s t where
  anchor : s.here.Carried P.ahead [] t.here

lemma Abreast.anchored (abreast : P.Abreast s t) : P.Anchored s t :=
  ⟨abreast.toLasting, abreast.anchor⟩

lemma anchored_forget : P.Leads P.Anchored P.Abreast Eq forget forget :=
  .change fun anchored => .of_settled { anchored with } ⟨rfl, trivial⟩ ⟨rfl, trivial⟩ anchored.anchor

lemma anchored_note {report other : Report} (told : report.Told P.likeness other) :
    P.Leads P.Anchored P.Anchored Eq (note report) (note other) := by
  refine ⟨fun {s t} anchored => ?_⟩
  rw [note_eq, note_eq]
  refine .ok rfl ?_
  by_cases recovering : s.recovering = true
  · rw [if_pos recovering, if_pos (anchored.recovering.trans recovering)]
    exact anchored
  · rw [if_neg recovering, if_neg (anchored.recovering ▸ recovering)]
    exact ⟨anchored.push told, anchored.anchor⟩

/-! ### Clauses -/

/-- **The same verdict on both sides**: one result, or mistakes that are reported alike. -/
inductive Verdicts (P : Parallel) : Except Report α → Except Report α → Prop where
  | ok (a : α) : Verdicts P (.ok a) (.ok a)
  | error {report other : Report} (told : report.Told P.likeness other) :
    Verdicts P (.error report) (.error other)

lemma Verdicts.bind {x y : Except Report α} {f g : α → Except Report β} (first : P.Verdicts x y)
    (second : ∀ a, P.Verdicts (f a) (g a)) : P.Verdicts (x >>= f) (y >>= g) := by
  cases first with
  | ok a => exact second a
  | error told => exact .error told

section Clauses

variable {c d : Clause} {cs ds : List Clause}

lemma LikeClause.verdict (like : P.LikeClause c d) (cause : Cause) :
    P.Verdicts (α := α) (.error (.errorAt c.offset cause)) (.error (.errorAt d.offset cause)) :=
  .error (told_errorAt like.offset (.refl _))

lemma LikeClause.addName (like : P.LikeClause c d) (summary : ClauseSummary) :
    P.Verdicts (summary.addName c) (summary.addName d) := by
  have fixity : d.fixity? = c.fixity? := by rw [Clause.fixity?, Clause.fixity?, like.name]
  have right : d.rightAssociative? = c.rightAssociative? := by
    rw [Clause.rightAssociative?, Clause.rightAssociative?, like.name]
  rw [ClauseSummary.addName, ClauseSummary.addName, fixity, right, like.name]
  match c.fixity?, c.rightAssociative? with
  | some fixity, _ =>
    dsimp only
    split
    · split
      · exact .ok _
      · exact like.verdict _
    · exact .ok _
  | none, some right =>
    dsimp only
    split
    · exact like.verdict _
    · exact .ok _
  | none, none =>
    dsimp only
    split
    · exact .ok _
    · exact like.verdict _

lemma LikeClause.add (like : P.LikeClause c d) (name : String) (summary : ClauseSummary) :
    P.Verdicts (summary.add name c) (summary.add name d) := by
  refine (like.addName summary).bind fun summary => ?_
  rw [ClauseSummary.addPriority.eq_def, ClauseSummary.addPriority.eq_def, like.priority]
  split
  · exact .ok _
  · exact .ok _
  · split
    · exact .ok _
    · exact like.verdict _

lemma verdicts_foldlM (name : String) (related : List.Forall₂ P.LikeClause cs ds)
    (summary : ClauseSummary) :
    P.Verdicts (cs.foldlM (ClauseSummary.add name) summary)
      (ds.foldlM (ClauseSummary.add name) summary) := by
  induction related generalizing summary with
  | nil => exact .ok summary
  | cons first _ ih => exact (first.add name summary).bind ih

/-- Clauses that are alike describe the same operator, or are mistaken alike. -/
lemma like_buildOperator (name : String) (keyword : Bool)
    (related : List.Forall₂ P.LikeClause cs ds) (aliasName : Option String) :
    P.Verdicts (buildOperator name keyword cs aliasName)
      (buildOperator name keyword ds aliasName) := by
  rw [buildOperator, buildOperator]
  cases related with
  | nil => exact .ok _
  | @cons c d _ _ first rest =>
    refine (verdicts_foldlM name (.cons first rest) {}).bind fun summary => ?_
    cases summary.mistake? with
    | none => exact .ok _
    | some cause => exact first.verdict cause

end Clauses

/-! ## Definitions -/

/-- **Where two parsers begin a statement alike**: its first token is the same for both, and behind it
they are abreast. -/
structure Opens (P : Parallel) (R : ParserState → ParserState → Prop) : Prop where
  first : P.Leads R P.Abreast P.Further (advance true .word) (advance true .word)

lemma Opens.skip {R : ParserState → ParserState → Prop} (opens : P.Opens R) :
    P.Leads R P.Abreast Eq (skipToken true .word) (skipToken true .word) :=
  opens.first.bind fun _ _ _ => .pure rfl

lemma opens_abreast : P.Opens P.Abreast := ⟨follows_advance _ _⟩

section Exact

variable {R : ParserState → ParserState → Prop} (exact : P.likeness.exact)

include exact

lemma follows_claim {d e : MacroDefinition} (like : d.Like P.likeness e) :
    P.Follows (Shared.Like P.likeness) (claim d) (claim e) :=
  ⟨fun abreast => .ok ⟨fun _ => by rw [P.supplies (abreast.imports exact)], like⟩
    { abreast with imports := fun exact => P.shares (abreast.imports exact) }⟩

omit exact in
lemma follows_enlistVisible {m n : Shared MacroDefinition} (like : m.Like P.likeness n) :
    P.Follows (fun x y => y = x ∧ ∀ report ∈ x, report.Unplaced) (enlistVisible m)
      (enlistVisible n) :=
  ⟨fun {s t} abreast => by
    obtain ⟨same, macros⟩ := abreast.macros.enlist like
    exact .ok ⟨same, fun _ found => MacroRegistry.unplaced_enlist found⟩
      { abreast with macros := macros }⟩

lemma follows_enlistExported {m n : Shared MacroDefinition} (like : m.Like P.likeness n) :
    P.Follows (fun x y => y = x ∧ ∀ report ∈ x, report.Unplaced) (enlistExported m)
      (enlistExported n) :=
  ⟨fun {s t} abreast => by
    have exported := abreast.exported exact
    obtain ⟨same, macros⟩ := exported.macros.enlist like
    exact .ok ⟨same, fun _ found => MacroRegistry.unplaced_enlist found⟩
      { abreast with exported := fun _ => ⟨macros, exported.operators⟩ }⟩

/-- **Macros that are alike are registered**, or refused, on both sides. -/
theorem follows_registerMacro {d e : MacroDefinition} (like : d.Like P.likeness e) {o o' : Nat}
    (offset : P.likeness.offset o o') :
    P.Follows Eq (registerMacro d o) (registerMacro e o') := by
  rw [registerMacro_eq, registerMacro_eq]
  refine (follows_claim exact like).bind fun m n shared => ?_
  refine (follows_enlistVisible shared).bind fun _ conflict same => ?_
  obtain ⟨rfl, unplaced⟩ := same
  cases conflict with
  | some report => exact follows_note ((unplaced report rfl).told offset)
  | none =>
    refine (follows_enlistExported exact shared).bind fun _ conflict same => ?_
    obtain ⟨rfl, unplaced⟩ := same
    cases conflict with
    | some report => exact follows_note ((unplaced report rfl).told offset)
    | none => exact .pure rfl

omit exact in
lemma leads_enlistVisibleOperator (op : OperatorDefinition) :
    P.Leads P.Anchored P.Anchored Eq (enlistVisibleOperator op) (enlistVisibleOperator op) :=
  ⟨fun {s t} anchored => .ok (by rw [anchored.operators])
    { anchored with operators := by simp only [anchored.operators] }⟩

lemma leads_enlistExportedOperator (op : OperatorDefinition) :
    P.Leads P.Anchored P.Anchored Eq (enlistExportedOperator op) (enlistExportedOperator op) :=
  ⟨fun {s t} anchored => .ok (by rw [(anchored.exported exact).operators])
    { anchored with
      exported := fun _ => ⟨(anchored.exported exact).macros,
        by simp only [(anchored.exported exact).operators]⟩ }⟩

/-- **Registering an operator** does the same on both sides. -/
theorem follows_registerOperator (op : OperatorDefinition) {o o' : Nat}
    (offset : P.likeness.offset o o') :
    P.Follows Eq (registerOperator options op o) (registerOperator options op o') := by
  have reject (conflict : OperatorConflict) : P.Leads P.Anchored P.Abreast Eq
      (do
        note ((Report.errorAt o (.rejectedOperator op.name conflict)).withSeverity
          options.invalidOperatorSeverity)
        forget)
      (do
        note ((Report.errorAt o' (.rejectedOperator op.name conflict)).withSeverity
          options.invalidOperatorSeverity)
        forget) :=
    (anchored_note ((told_errorAt offset (.refl _)).withSeverity _)).after fun _ => anchored_forget
  rw [registerOperator_eq, registerOperator_eq]
  refine ⟨fun abreast => Leads.both ?_ abreast.anchored⟩
  refine (leads_enlistVisibleOperator op).after fun conflict => ?_
  cases conflict with
  | some conflict => exact reject conflict
  | none =>
    refine (leads_enlistExportedOperator exact op).after fun conflict => ?_
    cases conflict with
    | some conflict => exact reject conflict
    | none => exact anchored_forget

/-! ### Macro statements -/

lemma follows_template (fuel : Nat) {ps qs : List Parameter} (related : P.LikeParameters ps qs) :
    P.Follows (fun x y => Node.Like P.likeness x.1 y.1 ∧ y.2 = x.2) (template options fuel ps)
      (template options fuel qs) := by
  have names : qs.map (·.name) = ps.map (·.name) := map_eq_of_forall₂ related Parameter.Like.name
  have rescope (scope : Option TemplateScope) : P.Follows Eq
      (modify fun s : ParserState => { s with scope := scope })
      (modify fun s : ParserState => { s with scope := scope }) :=
    follows_rescope (f := fun _ => scope) (g := fun _ => scope) (fun _ => rfl) fun _ _ => exact
  rw [template, template, names]
  refine .get fun {s t} abreast => Leads.both ?_ abreast
  rw [abreast.scope]
  refine (rescope _).after fun _ => (follows_within options fuel .value).bind fun _ _ node => ?_
  refine .get fun {u v} abreast => Leads.both ?_ abreast
  rw [abreast.scope]
  exact (rescope _).after fun _ => .pure ⟨node, rfl⟩

/-- What is wrong with the parameters of a macro, or that nothing is. -/
abbrev LikeChecked (P : Parallel) :
    Except Report (List Parameter) → Except Report (List Parameter) → Prop :=
  ExceptRel Report.Unplaced P.LikeParameters

lemma follows_macroTemplate (fuel : Nat) (name : Token) (signature : Signature)
    {ps qs : List Parameter} (related : P.LikeParameters ps qs)
    {checked checked' : Except Report (List Parameter)} (like : P.LikeChecked checked checked') :
    P.Follows Eq (macroTemplate options fuel name signature ps checked)
      (macroTemplate options fuel (name.shift P.ahead) signature qs checked') := by
  have start : P.likeness.offset name.start (name.shift P.ahead).start := P.shifts _
  rw [macroTemplate_eq, macroTemplate_eq]
  refine (follows_counted (follows_template exact fuel related)).bind fun x y read => ?_
  obtain ⟨⟨node, scope⟩, mistaken⟩ := x
  obtain ⟨⟨node', scope'⟩, mistaken'⟩ := y
  obtain ⟨⟨tree, same⟩, same'⟩ := read
  obtain rfl : scope' = scope := same
  obtain rfl : mistaken' = mistaken := same'
  cases like with
  | error report unplaced => exact .pure rfl
  | ok parameters =>
    cases scope' with
    | none => exact .pure rfl
    | some scope =>
      refine .ite (.pure rfl) ?_
      have built := MacroDefinition.like_build signature parameters tree exact scope.references
        scope.deferred
      generalize MacroDefinition.build signature _ node _ _ = x,
        MacroDefinition.build signature _ node' _ _ = y at built
      cases built with
      | @ok x y made =>
        obtain ⟨definition, warnings⟩ := x
        obtain ⟨definition', warnings'⟩ := y
        obtain ⟨definitionLike, same, unplaced⟩ := made
        obtain rfl : warnings' = warnings := same
        exact (follows_notes start unplaced).after fun _ =>
          follows_registerMacro exact definitionLike start
      | error failure unplaced =>
        cases failure with
        | mistake report => exact follows_note (unplaced.told start)
        | fault fault => exact .throw fault

omit exact in
lemma follows_macroHead (fuel : Nat) (function : Bool) (name : Token) :
    P.Follows (Option.Rel fun x y => y.1 = x.1 ∧ P.LikeParameters x.2 y.2)
      (macroHead options fuel function name)
      (macroHead options fuel function (name.shift P.ahead)) := by
  refine (follows_attachedOpener? name).bind fun opener _ same => ?_
  subst same
  cases opener with
  | none => exact .pure (.some ⟨rfl, .nil⟩)
  | some opener =>
    have parameters : P.Follows (Option.Rel P.LikeParameters)
        (parameterList options (opener.kind.closer?.getD .rParen) fuel [] true)
        (parameterList options ((opener.shift P.ahead).kind.closer?.getD .rParen) fuel [] true) :=
      follows_within options fuel (.parameters (opener.kind.closer?.getD .rParen) true .nil)
    refine (follows_skipToken _ _).after fun _ => (follows_await _).after fun _ => ?_
    refine parameters.bind fun x y read => ?_
    refine follows_settle.after fun _ => .pure ?_
    cases read with
    | none => exact .none
    | some related => exact .some ⟨rfl, related⟩

theorem leads_macroStatement (opens : P.Opens R) (fuel : Nat) (function : Bool) :
    P.Leads R P.Abreast Eq (macroStatement options fuel function)
      (macroStatement options fuel function) := by
  refine opens.first.bind fun word _ further => ?_
  subst further
  refine (follows_advance _ _).bind fun name _ further => ?_
  subst further
  refine .ite (follows_giveUp_token (m := .expectedMacroNameAfter word.content)
    (fun _ _ => ⟨rfl, rfl, rfl⟩) name) ?_
  refine (follows_macroHead fuel function name).bind fun x y head => ?_
  cases head with
  | none => exact follows_recover none
  | @some x y head =>
    obtain ⟨kind, ps⟩ := x
    obtain ⟨kind', qs⟩ := y
    obtain ⟨same, related⟩ := head
    obtain rfl : kind' = kind := same
    refine (follows_peek _ _).bind fun colon _ further => ?_
    subst further
    refine .ite (follows_giveUp_token (m := .expectedTemplateColon ⟨name.content, kind'⟩)
      (fun _ _ => ⟨rfl, rfl, rfl⟩) colon) ((follows_skipToken _ _).after fun _ => ?_)
    have parameters : P.LikeParameters (if function then .plain "self" :: ps else ps)
        (if function then .plain "self" :: qs else qs) := by
      split
      · exact .cons (Parameter.like_plain _) related
      · exact related
    generalize (if function then .plain "self" :: ps else ps) = ps,
      (if function then .plain "self" :: qs else qs) = qs at parameters
    have checked := Parameter.like_checkParameters kind' parameters
    rw [macroBody_eq, macroBody_eq]
    dsimp only
    generalize checkParameters kind' ps = x, checkParameters kind' qs = y at checked
    cases checked with
    | ok admitted => exact follows_macroTemplate exact fuel name _ parameters (.ok admitted)
    | error report unplaced =>
      exact (follows_note (unplaced.told (P.shifts _))).after fun _ =>
        follows_macroTemplate exact fuel name _ parameters (.error report unplaced)

/-! ### Operator statements -/

omit exact in
lemma follows_operatorAlias : P.Follows Eq operatorAlias operatorAlias := by
  refine (follows_peek _ _).bind fun colon _ further => ?_
  subst further
  refine .ite (.pure rfl) ((follows_skipToken _ _).after fun _ =>
    (follows_advance _ _).bind fun token _ further => ?_)
  subst further
  refine .ite (.pure rfl) ?_
  exact (follows_giveUp_token (fun _ _ => ⟨rfl, rfl, rfl⟩) token).after fun _ => .pure rfl

theorem leads_operatorStatement (opens : P.Opens R) (fuel : Nat) (keyword : Bool) :
    P.Leads R P.Abreast Eq (operatorStatement options fuel keyword)
      (operatorStatement options fuel keyword) := by
  refine opens.first.bind fun word _ further => ?_
  subst further
  refine (follows_advance _ _).bind fun symbol _ further => ?_
  subst further
  refine .ite (follows_giveUp_token (m := .expectedSymbol word.content)
    (fun _ _ => ⟨rfl, rfl, rfl⟩) symbol) ((follows_advance _ _).bind fun asWord _ further => ?_)
  subst further
  refine .ite (follows_giveUp_token (m := .expectedAs symbol.content)
    (fun _ _ => ⟨rfl, rfl, rfl⟩) asWord) ?_
  have clauses : P.Follows (Option.Rel (List.Forall₂ P.LikeClause)) (clauseList fuel [])
      (clauseList fuel []) := follows_within {} fuel (.clauses .nil)
  refine clauses.bind fun _ _ read => ?_
  cases read with
  | none => exact .pure rfl
  | @some clauses clauses' related =>
    refine follows_operatorAlias.after fun found => ?_
    cases found with
    | none => exact .pure rfl
    | some aliasName =>
      have built := like_buildOperator symbol.content keyword related aliasName
      dsimp only [Token.shift]
      generalize buildOperator symbol.content keyword clauses aliasName = x,
        buildOperator symbol.content keyword clauses' aliasName = y at built
      cases built with
      | ok op => exact follows_registerOperator exact op (P.shifts _)
      | error told => exact follows_note told

/-! ### Imports -/

omit exact in
lemma follows_importPath? :
    P.Follows (Option.Rel fun x y => y.1 = x.1 ∧ P.likeness.offset x.2 y.2) importPath?
      importPath? := by
  refine (follows_advance _ _).bind fun token _ further => ?_
  subst further
  refine .ite (.pure (.some ⟨rfl, P.shifts _⟩)) ?_
  exact (follows_giveUp_token (fun _ _ => ⟨rfl, rfl, rfl⟩) token).after fun _ => .pure .none

omit exact in
lemma follows_publicMark : P.Follows Eq publicMark publicMark := by
  refine (follows_peek _ _).bind fun word _ further => ?_
  subst further
  refine .ite (.looking ?_) (.pure rfl)
  refine (leads_lookAhead _ _).bind fun _ _ _ => (leads_lookAhead _ _).bind fun after _ further => ?_
  subst further
  refine leads_rewind.after fun _ => .ite ?_ (.pure rfl)
  exact (follows_skipToken _ _).after fun _ => .pure rfl

/-- One answer for two parsers. -/
def SameAnswer (P : Parallel) (first second : Except ImportFailure (Shared Definitions)) : Prop :=
  second = first ∧ ∀ definitions, first = .ok definitions →
    definitions.value.Like P.likeness definitions.value

/-- **Answers of a resolver that are the same**, or the same fault. -/
inductive Delivered (P : Parallel) :
    EStateM.Result Fault ImportState (Except ImportFailure (Shared Definitions)) →
    EStateM.Result Fault ImportState (Except ImportFailure (Shared Definitions)) → Prop where
  | ok {answer : Except ImportFailure (Shared Definitions)} {i j : ImportState}
    (like : ∀ definitions, answer = .ok definitions →
      definitions.value.Like P.likeness definitions.value)
    (joint : P.joint i j) : Delivered P (.ok answer i) (.ok answer j)
  | fault {i j : ImportState} (fault : Fault) (joint : P.joint i j) :
    Delivered P (.error fault i) (.error fault j)

/-- **A resolver delivers the same to both parsers**, and what it delivers is alike to itself. -/
structure Delivers (P : Parallel) (resolver : Resolver) : Prop where
  answers : ∀ {i j}, P.joint i j → ∀ path, P.Delivered (resolver path i) (resolver path j)

lemma follows_resolveImport (delivers : P.Delivers resolver) (path : String) :
    P.Follows P.SameAnswer (resolveImport resolver path) (resolveImport resolver path) := by
  refine ⟨fun {s t} abreast => ?_⟩
  have answers := delivers.answers (abreast.imports exact) path
  rw [resolveImport_eq, resolveImport_eq]
  generalize resolver path s.imports = p, resolver path t.imports = q at answers
  cases answers with
  | ok like joint => exact .ok ⟨rfl, like⟩ { abreast with imports := fun _ => joint }
  | fault fault joint => exact .fault fault { abreast with imports := fun _ => joint }

lemma leads_importVisible {d e : Definitions} (like : d.Like P.likeness e) :
    P.Leads P.Anchored P.Anchored (fun x y => y = x ∧ ∀ report ∈ x, report.Unplaced)
      (importVisible d) (importVisible e) :=
  ⟨fun {s t} anchored => by
    have visible : s.visible.Like P.likeness t.visible := ⟨anchored.macros, anchored.operators⟩
    obtain ⟨same, copied⟩ := visible.copyFrom exact like
    exact .ok ⟨same, Definitions.unplaced_copyFrom _ _⟩
      { anchored with macros := copied.macros, operators := copied.operators }⟩

lemma leads_importExported {d e : Definitions} (like : d.Like P.likeness e) :
    P.Leads P.Anchored P.Anchored (fun x y => y = x ∧ ∀ report ∈ x, report.Unplaced)
      (importExported d) (importExported e) :=
  ⟨fun {s t} anchored => by
    obtain ⟨same, copied⟩ := (anchored.exported exact).copyFrom exact like
    exact .ok ⟨same, Definitions.unplaced_copyFrom _ _⟩
      { anchored with exported := fun _ => copied }⟩

omit exact in
lemma anchored_conflicts {conflicts : List Report}
    (unplaced : ∀ report ∈ conflicts, report.Unplaced) {o o' : Nat}
    (offset : P.likeness.offset o o') :
    P.Leads P.Anchored P.Anchored Eq
      (conflicts.forM fun conflict => note (conflict.asWarning.atOffset o))
      (conflicts.forM fun conflict => note (conflict.asWarning.atOffset o')) := by
  induction conflicts with
  | nil => exact .pure rfl
  | cons conflict rest ih =>
    have first : conflict.asWarning.Unplaced := (unplaced conflict List.mem_cons_self).asWarning
    exact (anchored_note (first.told offset)).after fun _ =>
      ih fun report mem => unplaced report (List.mem_cons_of_mem _ mem)

/-- **Imports** bring the same on both sides. -/
theorem leads_useStatement (opens : P.Opens R) (delivers : P.Delivers resolver) :
    P.Leads R P.Abreast Eq (useStatement resolver) (useStatement resolver) := by
  refine opens.skip.after fun _ => follows_publicMark.after fun isPublic => ?_
  refine follows_importPath?.bind fun _ _ read => ?_
  cases read with
  | none => exact .pure rfl
  | @some x y read =>
    obtain ⟨other, o⟩ := x
    obtain ⟨path, o'⟩ := y
    obtain ⟨same, offset⟩ := read
    obtain rfl : path = other := same
    refine (follows_resolveImport exact delivers path).bind fun _ answer same => ?_
    obtain ⟨rfl, like⟩ := same
    cases answer with
    | error failure =>
      exact (follows_complain offset (.refl _)).after fun _ => follows_forget
    | ok definitions =>
      have like := like definitions rfl
      have noted {conflicts : List Report} (unplaced : ∀ report ∈ conflicts, report.Unplaced) :
          P.Leads P.Anchored P.Abreast Eq
            (do
              conflicts.forM fun conflict => note (conflict.asWarning.atOffset o)
              forget)
            (do
              conflicts.forM fun conflict => note (conflict.asWarning.atOffset o')
              forget) :=
        (anchored_conflicts unplaced offset).after fun _ => anchored_forget
      refine ⟨fun abreast => Leads.both ?_ abreast.anchored⟩
      refine (leads_importVisible exact like).bind fun _ visible same => ?_
      obtain ⟨rfl, unplaced⟩ := same
      cases isPublic with
      | false =>
        exact noted fun report mem => unplaced report (by simpa using mem)
      | true =>
        refine (leads_importExported exact like).bind fun _ exported same => ?_
        obtain ⟨rfl, unplaced'⟩ := same
        exact noted fun report mem => (List.mem_append.mp mem).elim (unplaced report) (unplaced' report)

/-! ### Taking definitions back -/

omit exact in
lemma follows_warnIfNone (removed : Nat) {o o' : Nat} (offset : P.likeness.offset o o')
    (cause : Cause) : P.Follows Eq (warnIfNone removed o cause) (warnIfNone removed o' cause) :=
  .ite (follows_note ((told_errorAt offset (.refl _)).withSeverity _)) (.pure rfl)

omit exact in
lemma anchored_warnIfNone (removed : Nat) {o o' : Nat} (offset : P.likeness.offset o o')
    (cause : Cause) : P.Leads P.Anchored P.Abreast Eq
      (do warnIfNone removed o cause; forget) (do warnIfNone removed o' cause; forget) := by
  have warned : P.Leads P.Anchored P.Anchored Eq (warnIfNone removed o cause)
      (warnIfNone removed o' cause) :=
    .ite (anchored_note ((told_errorAt offset (.refl _)).withSeverity _)) (.pure rfl)
  exact warned.after fun _ => anchored_forget

lemma follows_removeMacros (name : String) (kinds : List MacroKind) :
    P.Follows Eq (removeMacros name kinds) (removeMacros name kinds) :=
  ⟨fun {s t} abreast => by
    obtain ⟨visible, macros⟩ := abreast.macros.remove name kinds
    obtain ⟨exported, macros'⟩ := (abreast.exported exact).macros.remove name kinds
    exact .ok (congrArg₂ (· + ·) visible.symm exported.symm) { abreast with
      macros := macros
      exported := fun _ => ⟨macros', (abreast.exported exact).operators⟩ }⟩

lemma leads_removeOperators (name : String) (keyword : Bool) :
    P.Leads P.Anchored P.Anchored Eq (removeOperators name keyword)
      (removeOperators name keyword) :=
  ⟨fun {s t} anchored => by
    have operators := (anchored.exported exact).operators
    refine .ok (by rw [anchored.operators, operators]) { anchored with
      operators := by simp only [anchored.operators]
      exported := fun _ => ⟨(anchored.exported exact).macros, by simp only [operators]⟩ }⟩

lemma leads_removeImported {d e : Definitions} (like : d.Like P.likeness e) :
    P.Leads P.Anchored P.Anchored Eq (removeImported d) (removeImported e) :=
  ⟨fun {s t} anchored => by
    have visible : s.visible.Like P.likeness t.visible := ⟨anchored.macros, anchored.operators⟩
    obtain ⟨first, visible⟩ := visible.removeAll exact like
    obtain ⟨second, exported⟩ := (anchored.exported exact).removeAll exact like
    exact .ok (congrArg₂ (· + ·) first.symm second.symm) { anchored with
      macros := visible.macros
      operators := visible.operators
      exported := fun _ => exported }⟩

omit exact in
lemma follows_emptyShape (name : Token) :
    P.Follows Eq (emptyShape name) (emptyShape (name.shift P.ahead)) := by
  refine (follows_attachedOpener? name).bind fun opener _ same => ?_
  subst same
  cases opener with
  | none => exact .pure rfl
  | some opener =>
    refine (follows_skipToken _ _).after fun _ => (follows_advance _ _).bind fun close _ further => ?_
    subst further
    refine .ite (.pure rfl) ?_
    exact (follows_giveUp_token (fun _ _ => ⟨rfl, rfl, rfl⟩) close).after fun _ => .pure rfl

lemma follows_undefineMacro (function : Bool) :
    P.Follows Eq (undefineMacro function) (undefineMacro function) := by
  refine (follows_advance _ _).bind fun name _ further => ?_
  subst further
  refine .ite (follows_giveUp_token (fun _ _ => ⟨rfl, rfl, rfl⟩) name) ?_
  refine (follows_emptyShape name).after fun shape => ?_
  cases shape with
  | none => exact .pure rfl
  | some shape =>
    exact (follows_removeMacros exact _ _).after fun removed =>
      follows_warnIfNone removed (P.shifts _) _

lemma follows_undefineOperator (word : String) (keyword : Bool) :
    P.Follows Eq (undefineOperator word keyword) (undefineOperator word keyword) := by
  refine (follows_advance _ _).bind fun symbol _ further => ?_
  subst further
  refine .ite (follows_giveUp_token (m := .expectedSymbol word)
    (fun _ _ => ⟨rfl, rfl, rfl⟩) symbol) ?_
  refine ⟨fun abreast => Leads.both ?_ abreast.anchored⟩
  exact (leads_removeOperators exact _ _).after fun removed =>
    anchored_warnIfNone removed (P.shifts _) _

lemma follows_undefineImport (delivers : P.Delivers resolver) :
    P.Follows Eq (undefineImport resolver) (undefineImport resolver) := by
  refine follows_importPath?.bind fun _ _ read => ?_
  cases read with
  | none => exact .pure rfl
  | @some x y read =>
    obtain ⟨other, o⟩ := x
    obtain ⟨path, o'⟩ := y
    obtain ⟨same, offset⟩ := read
    obtain rfl : path = other := same
    refine (follows_resolveImport exact delivers path).bind fun _ answer same => ?_
    obtain ⟨rfl, like⟩ := same
    cases answer with
    | error failure => exact follows_complain offset (.refl _)
    | ok definitions =>
      refine ⟨fun abreast => Leads.both ?_ abreast.anchored⟩
      exact (leads_removeImported exact (like definitions rfl)).after fun removed =>
        anchored_warnIfNone removed offset _

lemma leads_undefineStatement (opens : P.Opens R) (delivers : P.Delivers resolver) :
    P.Leads R P.Abreast Eq (undefineStatement resolver) (undefineStatement resolver) := by
  refine opens.skip.after fun _ => (follows_advance _ _).bind fun what _ further => ?_
  subst further
  have mistaken : P.Follows Eq (giveUp what.start (.expectedUndefineTarget what))
      (giveUp (what.shift P.ahead).start (.expectedUndefineTarget (what.shift P.ahead))) :=
    follows_giveUp_token (fun _ _ => ⟨rfl, rfl, rfl⟩) what
  have same : (if (what.shift P.ahead).kind = .literal
      then StatementKeyword.ofText? (what.shift P.ahead).content else none)
    = if what.kind = .literal then StatementKeyword.ofText? what.content else none := rfl
  rw [same]
  match if what.kind = .literal then StatementKeyword.ofText? what.content else none with
  | some .template => exact follows_undefineMacro exact false
  | some .function => exact follows_undefineMacro exact true
  | some .operator => exact follows_undefineOperator exact what.content false
  | some .keyword => exact follows_undefineOperator exact what.content true
  | some .use => exact follows_undefineImport exact delivers
  | some .undefine | none => exact mistaken

/-! ## Sources -/

/-- **Definition statements** do the same on both sides. -/
theorem leads_definitionStatement (opens : P.Opens R) (delivers : P.Delivers resolver) (fuel : Nat)
    (opening : StatementKeyword) :
    P.Leads R P.Abreast Eq (definitionStatement options resolver fuel opening)
      (definitionStatement options resolver fuel opening) := by
  cases opening with
  | template => exact leads_macroStatement exact opens fuel false
  | function => exact leads_macroStatement exact opens fuel true
  | operator => exact leads_operatorStatement exact opens fuel false
  | keyword => exact leads_operatorStatement exact opens fuel true
  | undefine => exact leads_undefineStatement exact opens delivers
  | use => exact leads_useStatement exact opens delivers

omit exact in
lemma follows_statementKeyword? (token : Token) :
    P.Follows Eq (statementKeyword? token) (statementKeyword? (token.shift P.ahead)) := by
  have same : (if (token.shift P.ahead).kind = .literal
      then StatementKeyword.ofText? (token.shift P.ahead).content else none)
    = if token.kind = .literal then StatementKeyword.ofText? token.content else none := rfl
  rw [statementKeyword?, statementKeyword?, same]
  cases if token.kind = .literal then StatementKeyword.ofText? token.content else none with
  | none => exact .pure rfl
  | some opening =>
    refine .looking <| (leads_lookAhead _ _).bind fun _ _ _ =>
      (leads_lookAhead _ _).bind fun after _ further => leads_rewind.after fun _ => .pure ?_
    subst further
    simp only [behind_shift]
    rfl

omit exact in
lemma follows_valueFuel : P.Follows Eq valueFuel valueFuel := by
  refine follows_remaining.after fun ahead => .get fun {s t} abreast => ?_
  rw [abreast.operators]
  exact .ok rfl abreast

/-- **One statement, or one value**, is read alike. -/
theorem follows_parseStatement (delivers : P.Delivers resolver) (token : Token) :
    P.Follows (Node.LikeOption P.likeness) (parseStatement options resolver token)
      (parseStatement options resolver (token.shift P.ahead)) := by
  refine follows_valueFuel.after fun fuel => (follows_statementKeyword? token).after fun opening => ?_
  cases opening with
  | some opening =>
    exact (leads_definitionStatement exact opens_abreast delivers fuel opening).after fun _ => .pure .none
  | none =>
    exact (follows_within options fuel .value).bind fun _ _ node => .pure (.some node)

omit exact in
lemma follows_endStatement : P.Follows Eq endStatement endStatement := by
  refine (follows_peek _ _).bind fun token _ further => ?_
  subst further
  exact .ite (follows_skipToken _ _)
    (.ite (.pure rfl) (follows_giveUp_token (fun _ _ => ⟨rfl, rfl, rfl⟩) token))

omit exact in
lemma Abreast.restart (abreast : P.Abreast s t) : P.Abreast (restart s) (restart t) :=
  .of_settled { abreast with
    scope := rfl
    inside := fun h => absurd h (by simp [Parser.restart])
    recovering := rfl
    depth := rfl
    suppressed := rfl
    awaited := rfl } ⟨rfl, trivial⟩ ⟨rfl, trivial⟩ abreast.anchor

omit exact in
/-- Behind a statement, or behind a fault in one. -/
lemma both_attempted {step other : Parser (Option Node)}
    (both : P.Both P.Abreast (Node.LikeOption P.likeness) (step s) (other t)) (token : Token)
    {next next' : List Node → Parser (List Node)}
    (h : ∀ {vs ws}, Node.LikeValues P.likeness vs ws →
      P.Leads P.Abreast R (Node.LikeValues P.likeness) (next vs) (next' ws))
    {vs ws : List Node} (values : Node.LikeValues P.likeness vs ws) :
    P.Both R (Node.LikeValues P.likeness)
      ((do
        match ← attempt step with
        | .ok value =>
          endStatement
          next (value.toList ++ vs)
        | .error fault =>
          isolate token.start fault
          next vs) s)
      ((do
        match ← attempt other with
        | .ok value =>
          endStatement
          next' (value.toList ++ ws)
        | .error fault =>
          isolate (token.start + P.ahead) fault
          next' ws) t) := by
  rw [Harmony.attempt_bind, Harmony.attempt_bind]
  generalize step s = p, other t = q at both
  cases both with
  | ok related abreast =>
    refine Leads.both (follows_endStatement.after fun _ => h ?_) abreast
    cases related with
    | none => exact values
    | some node => exact .cons node values
  | fault fault abreast =>
    have isolated : P.Leads P.Abreast R (Node.LikeValues P.likeness)
        (giveUp token.start (.fault fault.detail) >>= fun _ => next vs)
        (giveUp (token.start + P.ahead) (.fault fault.detail) >>= fun _ => next' ws) :=
      (follows_giveUp (P.shifts _) (.refl _)).after fun _ => h values
    exact isolated.both abreast.restart

/-- A statement of a source, and what is read behind it. -/
lemma follows_sourceRound (delivers : P.Delivers resolver)
    {next next' : List Node → Parser (List Node)}
    (h : ∀ {vs ws}, Node.LikeValues P.likeness vs ws →
      P.Follows (Node.LikeValues P.likeness) (next vs) (next' ws))
    {vs ws : List Node} (values : Node.LikeValues P.likeness vs ws) :
    P.Follows (Node.LikeValues P.likeness) (sourceRound options resolver next vs)
      (sourceRound options resolver next' ws) := by
  refine (follows_peek _ _).bind fun token _ further => ?_
  subst further
  refine .ite ?_ (.ite ?_ (.ite ?_ (.ite ?_ ?_)))
  · exact follows_noteLexical.after fun _ => .pure (List.rel_reverse values)
  · exact (follows_skipToken _ _).after fun _ =>
      (follows_complain_at token.start _).after fun _ => h values
  · exact (follows_skipToken _ _).after fun _ => h values
  · exact (follows_skipToken _ _).after fun _ =>
      (follows_complain_token (fun _ _ => ⟨rfl, rfl, rfl⟩) token).after fun _ => h values
  · exact ⟨fun abreast =>
      both_attempted ((follows_parseStatement exact delivers token).both abreast) token h values⟩

/-- **Two parsers in front of the same text read it alike**, up to its end. -/
theorem follows_parseAll (delivers : P.Delivers resolver) (fuel : Nat) {vs ws : List Node}
    (values : Node.LikeValues P.likeness vs ws) :
    P.Follows (Node.LikeValues P.likeness) (parseAll options resolver fuel vs)
      (parseAll options resolver fuel ws) := by
  induction fuel generalizing vs ws with
  | zero => exact .throw _
  | succ fuel ih =>
    rw [parseAll_succ, parseAll_succ]
    exact follows_sourceRound exact delivers ih values

end Exact

end Parallel

end TreeLang
