import TreeLang.Proofs.Advancing
import TreeLang.Proofs.Pairing

/-!
# What reading does not look at

Reading a value looks at the text, at the operators in force and at what the macros in force do.  It
does not look at which identities the macros have, at what is handed to importers, at what is known
of imports, or at what was reported before.  So it does the same in all surroundings of these, and
changes none of them, except that it adds to the reports.

* `MacroRegistry.resolveValues` — the choice of an overload, without identities.
* `Surroundings`, `Surroundings.place` — what is not looked at, and a state in other surroundings.
* **`Blind`** — a step does the same in all surroundings.
* `blind_invoke`, `blind_recover`, … — the steps between the tokens are of this sort.
* **`blind_within`** — the functions that read inside a statement are of this sort.
* `counted` — whether a step reports an error; the number of errors before it is not looked at.
-/

namespace TreeLang

/-! ## The choice of an overload -/

namespace MacroRegistry

/-- The choice of an overload among macros without identities. -/
def resolveValues (values : List MacroDefinition) (name : String) (kind : MacroKind)
    (argument : Node) : Except Report (Option MacroDefinition) :=
  let overloads := values.filter fun value => value.signature = ⟨name, kind⟩
  if overloads.isEmpty then .ok none
  else
    let scored := overloads.filterMap fun value =>
      (value.score argument).map fun score => (score, value)
    match (scored.map Prod.fst).min? with
    | none =>
      .error (Report.of (.wrongUsage name ((values.filter (·.signature.name = name)).map (·.header))))
    | some best =>
      match (scored.filter fun entry => entry.1 = best).map Prod.snd with
      | [winner] => .ok (some winner)
      | winners => .error (Report.of (.ambiguousInvocation name (winners.map (·.header))))

/-- **The macro that an invocation means does not depend on identities.** -/
theorem map_value_resolve (registry : MacroRegistry) (name : String) (kind : MacroKind)
    (argument : Node) :
    (registry.resolve name kind argument).map (Option.map (·.value))
      = resolveValues registry.values name kind argument := by
  have overloads : registry.values.filter (fun value => value.signature = ⟨name, kind⟩)
      = (registry.group ⟨name, kind⟩).map (·.value) := by
    rw [values, List.filter_map]
    rfl
  have named : registry.values.filter (fun value => value.signature.name = name)
      = (registry.named name).map (·.value) := by
    rw [values, List.filter_map]
    rfl
  have scored : ((registry.group ⟨name, kind⟩).map (·.value)).filterMap (fun value =>
        (value.score argument).map fun score => (score, value))
      = (admitting (registry.group ⟨name, kind⟩) argument).map fun entry =>
          (entry.1, entry.2.value) := by
    rw [admitting, List.filterMap_map, List.map_filterMap]
    congr 1
    funext entry
    simp only [Function.comp_apply, Option.map_map]
    rfl
  simp only [resolve, resolveValues, overloads, named, scored, List.isEmpty_map, List.map_map]
  split
  · rfl
  have scores : (Prod.fst ∘ fun entry : Nat × Shared MacroDefinition => (entry.1, entry.2.value))
      = Prod.fst := rfl
  rw [scores]
  cases ((admitting (registry.group ⟨name, kind⟩) argument).map Prod.fst).min? with
  | none => rfl
  | some best =>
    have winners : ((admitting (registry.group ⟨name, kind⟩) argument).map fun entry =>
          (entry.1, entry.2.value)).filter (fun entry => entry.1 = best)
        = ((admitting (registry.group ⟨name, kind⟩) argument).filter fun entry =>
            entry.1 = best).map fun entry => (entry.1, entry.2.value) := by
      rw [List.filter_map]
      rfl
    simp only [winners, List.map_map]
    generalize (admitting (registry.group ⟨name, kind⟩) argument).filter _ = best
    rcases best with _ | ⟨first, _ | ⟨second, rest⟩⟩
    · rfl
    · rfl
    · simp [Except.map, Function.comp_def]

end MacroRegistry

/-! ## Surroundings -/

/-- **What reading a value does not look at.** -/
structure Surroundings where
  visible : Definitions
  exported : Definitions
  imports : ImportState
  /-- What was reported before. -/
  reports : Array Report

namespace Surroundings

/-- A state in other surroundings. -/
def place (around : Surroundings) (s : ParserState) : ParserState :=
  { s with
    visible := around.visible
    exported := around.exported
    imports := around.imports
    reports := around.reports ++ s.reports }

/-- What a step came to, in other surroundings. -/
def outcome {α : Type} (around : Surroundings) :
    EStateM.Result Fault ParserState α → EStateM.Result Fault ParserState α
  | .ok value s => .ok value (around.place s)
  | .error fault s => .error fault (around.place s)

/-- The surroundings of a state, as if nothing was reported. -/
def of (s : ParserState) : Surroundings := ⟨s.visible, s.exported, s.imports, #[]⟩

lemma place_of (s : ParserState) : (of s).place s = s := by
  simp [of, place]

end Surroundings

namespace Parser

variable {α β : Type} {around : Surroundings} {s t : ParserState}

lemma bind_error {step : Parser α} {next : α → Parser β} {fault : Fault}
    (h : step s = .error fault t) : (step >>= next) s = .error fault t := by
  show EStateM.bind step next s = _
  rw [EStateM.bind, h]

/-! ## Steps that do not look -/

/-- **A step does the same in all surroundings** that has the same operators, and macros that do the
same; and reports are not withheld any longer than the step takes. -/
structure Blind (step : Parser α) : Prop where
  same : ∀ s (around : Surroundings), s.visible.Same around.visible →
    step (around.place s) = around.outcome (step s)
  attends : ∀ {s t value}, step s = .ok value t → s.recovering = false → t.recovering = false

namespace Blind

/-- Nothing that a blind step does not look at is changed by it. -/
lemma of_ok {step : Parser α} (blind : Blind step) {value : α} (h : step s = .ok value t) :
    t.visible = s.visible ∧ t.exported = s.exported ∧ t.imports = s.imports := by
  have same := blind.same s (.of s) (.refl _)
  rw [Surroundings.place_of, h] at same
  injection same with _ same
  rw [same]
  exact ⟨rfl, rfl, rfl⟩

lemma of_error {step : Parser α} (blind : Blind step) {fault : Fault}
    (h : step s = .error fault t) :
    t.visible = s.visible ∧ t.exported = s.exported ∧ t.imports = s.imports := by
  have same := blind.same s (.of s) (.refl _)
  rw [Surroundings.place_of, h] at same
  injection same with _ same
  rw [same]
  exact ⟨rfl, rfl, rfl⟩

lemma pure (value : α) : Blind (Pure.pure value : Parser α) where
  same _ _ _ := rfl
  attends h attends := by
    cases h
    exact attends

lemma throw (fault : Fault) : Blind (MonadExcept.throw fault : Parser α) where
  same _ _ _ := rfl
  attends h := by cases h

lemma bind {step : Parser α} {next : α → Parser β} (first : Blind step)
    (second : ∀ value, Blind (next value)) : Blind (step >>= next) where
  same s around same := by
    have h := first.same s around same
    match hstep : step s with
    | .ok value t =>
      rw [hstep] at h
      have : t.visible = s.visible := (first.of_ok hstep).1
      rw [bind_ok h, bind_ok hstep]
      exact (second value).same t around (this ▸ same)
    | .error fault t =>
      rw [hstep] at h
      rw [bind_error h, bind_error hstep]
      rfl
  attends h attends := by
    obtain ⟨value, t, hstep, hnext⟩ := bind_eq_ok.mp h
    exact (second value).attends hnext (first.attends hstep attends)

lemma ite {condition : Prop} [Decidable condition] {first second : Parser α} (h : Blind first)
    (h' : Blind second) : Blind (if condition then first else second) := by
  split <;> assumption

/-- A step that changes the rest of a state. -/
lemma modifyGet {change : ParserState → α × ParserState}
    (h : ∀ s (around : Surroundings), s.visible.Same around.visible →
      change (around.place s) = ((change s).1, around.place (change s).2))
    (attends : ∀ s, s.recovering = false → (change s).2.recovering = false) :
    Blind (MonadStateOf.modifyGet change) where
  same s around same := by
    rw [modifyGet_eq, h s around same]
    rfl
  attends {s _ _} h begun := by
    cases h
    exact attends s begun

lemma modify {change : ParserState → ParserState}
    (h : ∀ s (around : Surroundings), change (around.place s) = around.place (change s))
    (attends : ∀ s, s.recovering = false → (change s).recovering = false) :
    Blind (modify change) :=
  modifyGet (fun s around _ => congrArg (Prod.mk ()) (h s around)) attends

/-- A step that looks only at what all surroundings leaves alone. -/
lemma look {next : ParserState → Parser β}
    (h : ∀ s (around : Surroundings), s.visible.Same around.visible → next (around.place s) = next s)
    (blind : ∀ s, Blind (next s)) : Blind (get >>= next) where
  same s around same := by
    have seen : (MonadState.get >>= next : Parser β) (around.place s)
        = next (around.place s) (around.place s) := rfl
    rw [seen, h s around same]
    exact (blind s).same s around same
  attends {s _ _} h := (blind s).attends h

lemma forM {γ : Type} {items : List γ} {step : γ → Parser PUnit} (h : ∀ item, Blind (step item)) :
    Blind (items.forM step) := by
  induction items with
  | nil => exact .pure _
  | cons item rest ih => exact (h item).bind fun _ => ih

lemma foldlM {γ : Type} {step : α → γ → Parser α} (h : ∀ value item, Blind (step value item))
    (items : List γ) (value : α) : Blind (items.foldlM step value) := by
  induction items generalizing value with
  | nil => exact .pure _
  | cons item rest ih => exact (h value item).bind ih

end Blind

/-! ## Tokens and reports -/

lemma blind_note (report : Report) : Blind (note report) := by
  refine .modify (fun s around => ?_) fun s h => ?_
  · by_cases h : s.recovering <;> simp [Surroundings.place, h]
  · simp [h]

lemma blind_complain (offset : Nat) (cause : Cause) : Blind (complain offset cause) :=
  blind_note _

lemma blind_noteLexical : Blind noteLexical where
  same s around _ := by
    rw [noteLexical_eq, noteLexical_eq]
    refine congrArg (EStateM.Result.ok ()) ?_
    by_cases h : s.recovering
    · simp [ParserState.flush, Surroundings.place, h]
    · simp only [ParserState.flush, Surroundings.place, h, Bool.false_eq_true, if_false]
      congr 1
      exact Array.toList_inj.mp (by simp)
  attends {s _ _} h attends := by
    rw [noteLexical_eq] at h
    cases h
    exact attends

lemma blind_lookAhead (skipBreaks : Bool) (mode : Mode) : Blind (lookAhead skipBreaks mode) := by
  refine .modifyGet (fun s around same => ?_) fun _ h => h
  simp only [Surroundings.place, same.operators]

lemma blind_rewind : Blind rewind := .modify (fun _ _ => rfl) fun _ h => h

lemma blind_forget : Blind forget := .modify (fun _ _ => rfl) fun _ h => h

lemma blind_commit : Blind commit :=
  .bind (.modify (fun _ _ => rfl) fun _ h => h) fun _ => blind_noteLexical

lemma blind_peek (skipBreaks : Bool) (mode : Mode) : Blind (peek skipBreaks mode) :=
  (blind_lookAhead skipBreaks mode).bind fun _ => blind_rewind.bind fun _ => .pure _

lemma blind_advance (skipBreaks : Bool) (mode : Mode) : Blind (advance skipBreaks mode) :=
  (blind_lookAhead skipBreaks mode).bind fun _ => blind_commit.bind fun _ => .pure _

lemma blind_skipToken (skipBreaks : Bool) (mode : Mode) : Blind (skipToken skipBreaks mode) :=
  (blind_advance skipBreaks mode).bind fun _ => .pure _

lemma blind_position : Blind position :=
  .look (fun _ _ _ => rfl) fun _ => .pure _

lemma blind_remaining : Blind remaining :=
  .look (fun _ _ _ => rfl) fun _ => .pure _

/-! ## Nodes -/

lemma blind_freshId : Blind freshId := .modifyGet (fun _ _ _ => rfl) fun _ h => h

lemma blind_placeholderAt (offset : Nat) : Blind (placeholderAt offset) :=
  blind_freshId.bind fun _ => .pure _

lemma blind_parameterIndex? (word : String) : Blind (parameterIndex? word) :=
  .look (fun _ _ _ => rfl) fun _ => .pure _

lemma blind_markReference (id : Nat) (reference : Reference) : Blind (markReference id reference) :=
  .modify (fun _ _ => rfl) fun _ h => h

lemma blind_takeSuppressed : Blind takeSuppressed := .modifyGet (fun _ _ _ => rfl) fun _ h => h

lemma blind_setSuppressed (suppressed : Bool) : Blind (setSuppressed suppressed) :=
  .modify (fun _ _ => rfl) fun _ h => h

/-! ## Groups and recovery -/

lemma blind_await (closer : TokenKind) : Blind (await closer) := .modify (fun _ _ => rfl) fun _ h => h

lemma blind_settle : Blind settle := .modify (fun _ _ => rfl) fun _ h => h

lemma blind_closesAwaited (kind : TokenKind) : Blind (closesAwaited kind) :=
  .look (fun _ _ _ => rfl) fun _ => .pure _

lemma blind_skipGroup (fuel : Nat) (closer : Option TokenKind) : Blind (skipGroup fuel closer) := by
  induction fuel generalizing closer with
  | zero => exact .throw _
  | succ fuel ih =>
    rw [skipGroup]
    refine (blind_peek _ _).bind fun token => .ite (.pure _) ?_
    refine (blind_closesAwaited _).bind fun closes => .ite (.pure _) ?_
    refine (blind_skipToken _ _).bind fun _ => .ite (.pure _) (.ite ?_ (ih _))
    exact (ih _).bind fun _ => ih _

lemma blind_skipToSeparator (fuel : Nat) (closer : Option TokenKind) :
    Blind (skipToSeparator fuel closer) := by
  induction fuel with
  | zero => exact .throw _
  | succ fuel ih =>
    rw [skipToSeparator]
    refine (blind_peek _ _).bind fun token => .ite (.pure _) ?_
    refine (blind_closesAwaited _).bind fun closes => .ite (.pure _) ?_
    refine (blind_skipToken _ _).bind fun _ => .ite (.pure _) (.ite ?_ ih)
    exact (blind_skipGroup _ _).bind fun _ => ih

/-- Reports are withheld while tokens are skipped, and no longer. -/
lemma recover_eq (closer : Option TokenKind) (s : ParserState) :
    recover closer s =
      match skipToSeparator (s.tokens.place.rest.length + 1) closer { s with recovering := true } with
      | .ok _ t => .ok () { t with recovering := false }
      | .error fault t => .error fault t := by
  have step : recover closer s
      = (skipToSeparator (s.tokens.place.rest.length + 1) closer >>= fun _ =>
          modify fun s => { s with recovering := false }) { s with recovering := true } := rfl
  rw [step]
  match h : skipToSeparator (s.tokens.place.rest.length + 1) closer
      { s with recovering := true } with
  | .ok _ t => exact bind_ok h
  | .error fault t => exact bind_error h

lemma blind_recover (closer : Option TokenKind) : Blind (recover closer) where
  same s around same := by
    have skip := (blind_skipToSeparator (s.tokens.place.rest.length + 1) closer).same
      { s with recovering := true } around same
    have placed : { around.place s with recovering := true }
        = around.place { s with recovering := true } := rfl
    rw [recover_eq, recover_eq, placed]
    show (match skipToSeparator (s.tokens.place.rest.length + 1) closer _ with
      | .ok _ t => EStateM.Result.ok () { t with recovering := false }
      | .error fault t => .error fault t) = _
    rw [skip]
    cases skipToSeparator (s.tokens.place.rest.length + 1) closer { s with recovering := true } <;>
      rfl
  attends {s _ _} h _ := by
    rw [recover_eq] at h
    split at h
    · cases h
      rfl
    · cases h

/-! ## Invocations -/

lemma blind_refuse (offset : Nat) (report : Report) : Blind (refuse offset report) :=
  (blind_note _).bind fun _ => blind_placeholderAt _

lemma blind_expandDeferred {expandOne : Node → MacroKind → Parser Node}
    (h : ∀ node kind, Blind (expandOne node kind)) (span : Span) (tree : Node)
    (waiting : List DeferredInvocation) : Blind (expandDeferred expandOne span tree waiting) := by
  refine .foldlM (fun tree invocation => ?_) waiting tree
  split
  · exact .pure _
  · exact (h _ _).bind fun _ => .pure _

lemma blind_nested {step : Parser α} (h : Blind step) : Blind (nested step) :=
  .bind (.modify (fun _ _ => rfl) fun _ h => h) fun _ => h.bind fun _ =>
    .bind (.modify (fun _ _ => rfl) fun _ h => h) fun _ => .pure _

lemma blind_useMacro {expandOne : Node → MacroKind → Parser Node}
    (h : ∀ node kind, Blind (expandOne node kind)) (definition : MacroDefinition) (node : Node) :
    Blind (useMacro expandOne definition node) := by
  refine .look (fun _ _ _ => rfl) fun s => .ite (blind_refuse _ _) ?_
  dsimp only
  split
  · exact .throw _
  · exact (Blind.forM fun _ => blind_note _).bind fun _ => blind_refuse _ _
  · refine (Blind.forM fun _ => blind_note _).bind fun _ => .ite (.pure _) ?_
    exact blind_nested (blind_expandDeferred h _ _ _)

/-- What is done about the macro that an invocation means. -/
def answerWithin (levels : Nat) (node : Node) : Except Report (Option MacroDefinition) → Parser Node
  | .ok none => return node
  | .ok (some definition) => useMacro (invokeWithin levels) definition node
  | .error report => refuse node.span.start report

lemma invokeWithin_succ (levels : Nat) (node : Node) (kind : MacroKind) :
    invokeWithin (levels + 1) node kind = (get >>= fun s => answerWithin levels node
      (MacroRegistry.resolveValues s.visible.macros.values (invokedName node) kind node)) := by
  rw [invokeWithin]
  congr 1
  funext s
  rw [← MacroRegistry.map_value_resolve]
  cases s.visible.macros.resolve (invokedName node) kind node with
  | error report => rfl
  | ok found => cases found <;> rfl

lemma blind_invokeWithin (levels : Nat) (node : Node) (kind : MacroKind) :
    Blind (invokeWithin levels node kind) := by
  induction levels generalizing node kind with
  | zero => exact .throw _
  | succ levels ih =>
    rw [invokeWithin_succ]
    refine .look (fun s around same => ?_) fun s => ?_
    · show answerWithin levels node
          (MacroRegistry.resolveValues around.visible.macros.values _ _ _) = _
      rw [same.macros]
    match MacroRegistry.resolveValues s.visible.macros.values (invokedName node) kind node with
    | .ok none => exact .pure _
    | .ok (some definition) => exact blind_useMacro ih definition node
    | .error report => exact blind_refuse _ _

lemma blind_invoke (node : Node) (kind : MacroKind) : Blind (invoke node kind) :=
  .look (fun _ _ _ => rfl) fun _ => blind_invokeWithin _ _ _

lemma blind_expand (node : Node) (kind : MacroKind) : Blind (expand node kind) := by
  refine .look (fun _ _ _ => rfl) fun scope => ?_
  split
  · refine .ite ?_ (blind_invoke _ _)
    exact .bind (.modify (fun _ _ => rfl) fun _ h => h) fun _ => .pure _
  · exact blind_invoke _ _

/-! ## Parts of values -/

lemma blind_primitive (token : Token) (expands : Bool) : Blind (primitive token expands) := by
  refine blind_freshId.bind fun id => .ite (.pure _) ?_
  refine (blind_parameterIndex? _).bind fun parameter => ?_
  cases parameter with
  | some parameter => exact (blind_markReference _ _).bind fun _ => .pure _
  | none => exact .ite (blind_invoke _ _) (.pure _)

lemma blind_operatorNode (op : OperatorDefinition) (operands : List Node) (span : Span) :
    Blind (operatorNode op operands span) :=
  blind_freshId.bind fun _ => blind_expand _ _

lemma blind_accessorCall (op : OperatorDefinition) (receiver member : Node) (span : Span) :
    Blind (accessorCall op receiver member span) := by
  refine .look (fun _ _ _ => rfl) fun s => .bind (.modify (fun _ _ => rfl) fun _ h => h) fun _ => ?_
  refine blind_freshId.bind fun id => ?_
  dsimp only
  split
  · exact (blind_markReference _ _).bind fun _ => blind_expand _ _
  · exact blind_expand _ _

lemma blind_binaryNode (op : OperatorDefinition) (left right : Node) :
    Blind (binaryNode op left right) :=
  .ite (blind_accessorCall _ _ _ _) (blind_operatorNode _ _ _)

lemma blind_groupHead? (nameMode : Mode) : Blind (groupHead? nameMode) := by
  refine (blind_lookAhead _ _).bind fun first => .ite (blind_commit.bind fun _ => .pure _) ?_
  refine .ite ?_ (blind_rewind.bind fun _ => .pure _)
  refine (blind_lookAhead _ _).bind fun second => .ite (blind_commit.bind fun _ => .pure _) ?_
  exact blind_rewind.bind fun _ => .pure _

lemma blind_operatorOf? (group : PriorityGroup) (skipBreaks : Bool) :
    Blind (operatorOf? group skipBreaks) := by
  refine (blind_peek _ _).bind fun token => .ite ?_ (.pure _)
  split
  · exact (blind_skipToken _ _).bind fun _ => .pure _
  · exact .pure _

lemma blind_separator (mode : Mode) (closer : TokenKind) : Blind (separator mode closer) := by
  refine (blind_peek _ _).bind fun token => .ite (blind_skipToken _ _) ?_
  refine (blind_closesAwaited _).bind fun closes => .ite (.pure _) ?_
  exact (blind_complain _ _).bind fun _ => blind_recover _

lemma blind_addProperty (options : CompileOptions) (key : Token) (value : Node)
    (properties : List (String × Node)) : Blind (addProperty options key value properties) :=
  .ite ((blind_note _).bind fun _ => .bind (.modify (fun _ _ => rfl) fun _ h => h) fun _ => .pure _) (.pure _)

lemma blind_completeGroup (options : CompileOptions) (name : Option Token) (start : Nat)
    (expands : Bool) (reference : Option Nat) (content : GroupContent) :
    Blind (completeGroup options name start expands reference content) := by
  rw [completeGroup.eq_def]
  dsimp only
  split
  · exact .pure _
  · refine blind_freshId.bind fun id => ?_
    split
    · exact (blind_markReference _ _).bind fun _ => .ite (blind_expand _ _) (.pure _)
    · exact .ite (blind_expand _ _) (.pure _)

/-! ## Parts of statements -/

lemma blind_giveUp (offset : Nat) (cause : Cause) : Blind (giveUp offset cause) :=
  (blind_complain _ _).bind fun _ => blind_recover _

lemma blind_attachedOpener? (name : Token) : Blind (attachedOpener? name) :=
  (blind_peek _ _).bind fun _ => .pure _

lemma blind_parameterType (parameter : Parameter) : Blind (parameterType parameter) := by
  refine (blind_peek _ _).bind fun colon => .ite ?_ (.pure _)
  refine (blind_skipToken _ _).bind fun _ => (blind_advance _ _).bind fun type => ?_
  split
  · exact .pure _
  · exact (blind_complain _ _).bind fun _ => .pure _

lemma blind_parameterSeparator (closer : TokenKind) (parameter : Parameter) :
    Blind (parameterSeparator closer parameter) := by
  refine (blind_peek _ _).bind fun token => .ite ((blind_skipToken _ _).bind fun _ => .pure _) ?_
  refine (blind_closesAwaited _).bind fun closes => .ite (.pure _) ?_
  exact (blind_complain _ _).bind fun _ => (blind_recover _).bind fun _ => .pure _

lemma blind_clausePriority : Blind clausePriority := by
  refine (blind_peek _ _).bind fun opener => .ite (.pure _) ?_
  refine (blind_skipToken _ _).bind fun _ => (blind_advance _ _).bind fun number => ?_
  split
  · refine (blind_advance _ _).bind fun close => .ite (.pure _) ?_
    exact (blind_giveUp _ _).bind fun _ => .pure _
  · exact (blind_giveUp _ _).bind fun _ => .pure _

/-! ## Rounds of reading -/

section Rounds

variable {options : CompileOptions} {calls : ∀ {γ : Type}, Reading γ → Parser γ}
  (h : ∀ {γ : Type} (next : Reading γ), Blind (calls next))

include h

lemma blind_atomRound (nameMode mode : Mode) (missing : Token → Cause) :
    Blind (Reading.atomRound calls nameMode mode missing) := by
  refine blind_takeSuppressed.bind fun suppressed => (h _).bind fun group => ?_
  cases group with
  | some node => exact .pure _
  | none =>
    refine (blind_peek _ _).bind fun token => .ite ?_ ?_
    · exact (blind_skipToken _ _).bind fun _ => blind_primitive _ _
    · exact (blind_complain _ _).bind fun _ => blind_placeholderAt _

lemma blind_groupRound (nameMode : Mode) (expands : Bool) :
    Blind (Reading.groupRound options calls nameMode expands) := by
  refine (blind_groupHead? _).bind fun head => ?_
  cases head with
  | none => exact .pure _
  | some head =>
    obtain ⟨name, opener⟩ := head
    have reference : Blind (Head.reference ⟨name, opener, expands⟩) := by
      rw [Head.reference]
      split
      · exact .ite (blind_parameterIndex? _) (.pure _)
      · exact .pure _
    refine reference.bind fun reference => (blind_await _).bind fun _ => ?_
    refine .bind ?_ fun content => blind_settle.bind fun _ =>
      (blind_completeGroup _ _ _ _ _ _).bind fun _ => .pure _
    refine .ite ((h _).bind fun _ => .pure _) (.ite ?_ ?_) <;>
      exact (h _).bind fun _ => .pure _

lemma blind_propertiesRound (start : Nat) (known : List (String × Node)) :
    Blind (Reading.propertiesRound options calls start known) := by
  refine (blind_peek _ _).bind fun token => .ite ((blind_skipToken _ _).bind fun _ => .pure _) ?_
  refine (blind_closesAwaited _).bind fun closes => .ite ?_ (.ite ?_ (.ite ?_ ?_))
  · exact (blind_complain _ _).bind fun _ => .pure _
  · exact (blind_skipToken _ _).bind fun _ => (blind_complain _ _).bind fun _ => h _
  · refine (blind_skipToken _ _).bind fun _ => (blind_peek _ _).bind fun colon => .ite ?_ ?_
    · exact (blind_complain _ _).bind fun _ => (blind_recover _).bind fun _ => h _
    · exact (blind_skipToken _ _).bind fun _ => (h _).bind fun _ =>
        (blind_addProperty _ _ _ _).bind fun _ => (blind_separator _ _).bind fun _ => h _
  · exact (blind_complain _ _).bind fun _ => (blind_recover _).bind fun _ => h _

lemma blind_elementsRound (start : Nat) (mode : Mode) (closer : TokenKind) (known : List Node) :
    Blind (Reading.elementsRound calls start mode closer known) := by
  refine (blind_peek _ _).bind fun token => .ite ((blind_skipToken _ _).bind fun _ => .pure _) ?_
  refine (blind_closesAwaited _).bind fun closes => .ite ?_ (.ite ?_ ?_)
  · exact (blind_complain _ _).bind fun _ => .pure _
  · exact (blind_skipToken _ _).bind fun _ => (blind_complain _ _).bind fun _ => h _
  · exact (Blind.ite (h _) (h _)).bind fun _ => (blind_separator _ _).bind fun _ => h _

lemma blind_levelRound (groups : List PriorityGroup) : Blind (Reading.levelRound calls groups) := by
  cases groups with
  | nil => exact h _
  | cons ops tighter =>
    rw [Reading.levelRound]
    split
    · exact (h _).bind fun _ => h _
    · exact (h _).bind fun _ => h _
    · refine blind_position.bind fun start => (blind_operatorOf? _ _).bind fun op => ?_
      cases op with
      | some op => exact (h _).bind fun _ => blind_operatorNode _ _ _
      | none => exact h _

lemma blind_binaryRound (ops : PriorityGroup) (tighter : List PriorityGroup) (left : Node) :
    Blind (Reading.binaryRound calls ops tighter left) := by
  refine (blind_operatorOf? _ _).bind fun op => ?_
  cases op with
  | none => exact .pure _
  | some op =>
    refine .ite ((h _).bind fun _ => blind_binaryNode _ _ _) ?_
    exact (blind_setSuppressed _).bind fun _ => (h _).bind fun _ =>
      (blind_setSuppressed _).bind fun _ => (blind_binaryNode _ _ _).bind fun _ => h _

lemma blind_postfixesRound (ops : PriorityGroup) (inner : Node) :
    Blind (Reading.postfixesRound calls ops inner) := by
  refine (blind_operatorOf? _ _).bind fun op => ?_
  cases op with
  | none => exact .pure _
  | some op =>
    exact blind_position.bind fun _ => (blind_operatorNode _ _ _).bind fun _ => h _

lemma blind_parametersRound (closer : TokenKind) (known : List Parameter) (complete : Bool) :
    Blind (Reading.parametersRound calls closer known complete) := by
  refine (blind_peek _ _).bind fun token => .ite ((blind_skipToken _ _).bind fun _ => .pure _) ?_
  refine (blind_closesAwaited _).bind fun closes => .ite ?_ (.ite ?_ (.ite ?_ ?_))
  · exact (blind_complain _ _).bind fun _ => .pure _
  · exact (blind_skipToken _ _).bind fun _ => (blind_complain _ _).bind fun _ => h _
  · refine (blind_skipToken _ _).bind fun _ => (blind_parameterType _).bind fun typed => ?_
    refine .bind ?_ fun parameter => (blind_parameterSeparator _ _).bind fun _ => h _
    refine (blind_peek _ _).bind fun equals => .ite ?_ (.pure _)
    exact (blind_skipToken _ _).bind fun _ => (h _).bind fun _ => .pure _
  · exact (blind_complain _ _).bind fun _ => (blind_recover _).bind fun _ => h _

lemma blind_clausesRound (known : List Clause) : Blind (Reading.clausesRound calls known) := by
  refine (blind_advance _ _).bind fun word => .ite ((blind_giveUp _ _).bind fun _ => .pure _) ?_
  refine blind_clausePriority.bind fun priority => ?_
  cases priority with
  | none => exact .pure _
  | some priority =>
    exact (blind_peek _ _).bind fun next =>
      .ite ((blind_skipToken _ _).bind fun _ => h _) (.pure _)

lemma blind_round (call : Reading α) : Blind (call.round options calls) := by
  cases call with
  | value => exact blind_atomRound h _ _ _
  | operand => exact blind_atomRound h _ _ _
  | group => exact blind_groupRound h _ _
  | properties => exact blind_propertiesRound h _ _
  | elements => exact blind_elementsRound h _ _ _ _
  | expression =>
    refine .look (fun s around same => ?_) fun _ => h _
    rw [show (around.place s).visible.operators = s.visible.operators from same.operators]
  | level => exact blind_levelRound h _
  | binary => exact blind_binaryRound h _ _ _
  | postfixes => exact blind_postfixesRound h _ _
  | parameters => exact blind_parametersRound h _ _ _
  | clauses => exact blind_clausesRound h _
  | skipGroup closer =>
    refine (blind_peek _ _).bind fun token => .ite (.pure _) ?_
    refine (blind_closesAwaited _).bind fun closes => .ite (.pure _) ?_
    refine (blind_skipToken _ _).bind fun _ => .ite (.pure _) (.ite ?_ (h _))
    exact (h _).bind fun _ => h _
  | skipToSeparator closer =>
    refine (blind_peek _ _).bind fun token => .ite (.pure _) ?_
    refine (blind_closesAwaited _).bind fun closes => .ite (.pure _) ?_
    refine (blind_skipToken _ _).bind fun _ => .ite (.pure _) (.ite ?_ (h _))
    exact (h _).bind fun _ => h _

end Rounds

/-- **What reads inside a statement is blind.** -/
theorem blind_within (options : CompileOptions) (fuel : Nat) (call : Reading α) :
    Blind (call.within options fuel) := by
  induction fuel generalizing α call with
  | zero => exact call.within_zero options ▸ .throw _
  | succ fuel ih => exact call.within_succ options fuel ▸ blind_round ih call

/-! ## Statements, up to what they define -/

lemma blind_parseValue (options : CompileOptions) (fuel : Nat) : Blind (parseValue options fuel) :=
  blind_within options fuel .value

lemma blind_valueFuel : Blind valueFuel := by
  refine blind_remaining.bind fun ahead => .look (fun s around same => ?_) fun _ => .pure _
  rw [show (around.place s).visible.operators = s.visible.operators from same.operators]

lemma blind_statementKeyword? (token : Token) : Blind (statementKeyword? token) := by
  rw [statementKeyword?]
  split
  · exact .pure _
  · exact (blind_lookAhead _ _).bind fun _ => (blind_lookAhead _ _).bind fun _ =>
      blind_rewind.bind fun _ => .pure _

lemma blind_endStatement : Blind endStatement :=
  (blind_peek _ _).bind fun _ => .ite (blind_skipToken _ _) (.ite (.pure _) (blind_giveUp _ _))

/-- What a statement leaves behind is forgotten, before its fault is reported. -/
def restart (s : ParserState) : ParserState :=
  { s with
    scope := none
    depth := 0
    recovering := false
    suppressed := false
    awaited := []
    tokens := s.tokens.forget }

lemma isolate_eq (offset : Nat) (fault : Fault) (s : ParserState) :
    isolate offset fault s = giveUp offset (.fault fault.detail) (restart s) := rfl

lemma blind_parameterList (options : CompileOptions) (closer : TokenKind) (fuel : Nat)
    (parameters : List Parameter) (complete : Bool) :
    Blind (parameterList options closer fuel parameters complete) :=
  blind_within options fuel (.parameters closer parameters complete)

lemma blind_macroHead (options : CompileOptions) (fuel : Nat) (function : Bool) (name : Token) :
    Blind (macroHead options fuel function name) := by
  refine (blind_attachedOpener? _).bind fun opener => ?_
  cases opener with
  | none => exact .pure _
  | some opener =>
    exact (blind_skipToken _ _).bind fun _ => (blind_await _).bind fun _ =>
      (blind_parameterList _ _ _ _ _).bind fun _ => blind_settle.bind fun _ => .pure _

lemma blind_template (options : CompileOptions) (fuel : Nat) (parameters : List Parameter) :
    Blind (template options fuel parameters) :=
  .look (fun _ _ _ => rfl) fun _ => .bind (.modify (fun _ _ => rfl) fun _ h => h) fun _ =>
    (blind_parseValue _ _).bind fun _ => .look (fun _ _ _ => rfl) fun _ =>
      .bind (.modify (fun _ _ => rfl) fun _ h => h) fun _ => .pure _

/-- A step, with the answer whether it reported an error. -/
def counted (step : Parser α) : Parser (α × Bool) := do
  let before ← errorCount
  let value ← step
  return (value, decide (before < (← errorCount)))

lemma counted_eq (step : Parser α) (s : ParserState) :
    counted step s = (step >>= fun value => do
      return (value, decide (s.reports.countP Report.isError < (← errorCount)))) s := rfl

lemma blind_counted {step : Parser α} (blind : Blind step) : Blind (counted step) where
  same s around same := by
    have h := blind.same s around same
    rw [counted_eq, counted_eq]
    match hstep : step s with
    | .ok value t =>
      rw [hstep] at h
      rw [bind_ok h, bind_ok hstep]
      refine congrArg₂ EStateM.Result.ok (congrArg (Prod.mk value) ?_) rfl
      simp only [Surroundings.place, Array.countP_append, Nat.add_lt_add_iff_left]
    | .error fault t =>
      rw [hstep] at h
      rw [bind_error h, bind_error hstep]
      rfl
  attends h attends := by
    rw [counted_eq] at h
    obtain ⟨value, t, hstep, hcount⟩ := bind_eq_ok.mp h
    cases hcount
    exact blind.attends hstep attends

/-- A template is read as any value is; whether it was mistaken is all that is asked afterwards. -/
lemma macroTemplate_eq (options : CompileOptions) (fuel : Nat) (name : Token)
    (signature : Signature) (parameters : List Parameter)
    (checked : Except Report (List Parameter)) :
    macroTemplate options fuel name signature parameters checked = (do
      let ((node, scope), mistaken) ← counted (template options fuel parameters)
      match checked, scope with
      | .ok parameters, some scope =>
        if mistaken then return
        match MacroDefinition.build signature parameters node scope.references scope.deferred with
        | .ok (definition, warnings) =>
          warnings.forM fun warning => note (warning.atOffset name.start)
          registerMacro definition name.start
        | .error (.mistake report) => note (report.atOffset name.start)
        | .error (.fault fault) => throw fault
      | _, _ => return) := by
  rw [macroTemplate, counted]
  simp only [bind_assoc, pure_bind]
  congr 1
  funext before
  congr 1
  funext made
  obtain ⟨node, scope⟩ := made
  cases checked with
  | error report => rfl
  | ok parameters =>
    cases scope with
    | none => rfl
    | some scope => simp only [decide_eq_true_eq] <;> rfl

/-! ## Statements that look further -/

lemma blind_operatorAlias : Blind operatorAlias := by
  refine (blind_peek _ _).bind fun colon => .ite (.pure _) ?_
  refine (blind_skipToken _ _).bind fun _ => (blind_advance _ _).bind fun token => ?_
  exact .ite (.pure _) ((blind_giveUp _ _).bind fun _ => .pure _)

lemma blind_clauseList (fuel : Nat) (clauses : List Clause) : Blind (clauseList fuel clauses) :=
  blind_within {} fuel (.clauses clauses)

lemma blind_importPath? : Blind importPath? :=
  (blind_advance _ _).bind fun _ => .ite (.pure _) ((blind_giveUp _ _).bind fun _ => .pure _)

lemma blind_publicMark : Blind publicMark := by
  refine (blind_peek _ _).bind fun word => .ite ?_ (.pure _)
  refine (blind_lookAhead _ _).bind fun _ => (blind_lookAhead _ _).bind fun after => ?_
  exact blind_rewind.bind fun _ => .ite ((blind_skipToken _ _).bind fun _ => .pure _) (.pure _)

lemma blind_warnIfNone (removed offset : Nat) (cause : Cause) :
    Blind (warnIfNone removed offset cause) :=
  .ite (blind_note _) (.pure _)

lemma blind_emptyShape (name : Token) : Blind (emptyShape name) := by
  refine (blind_attachedOpener? _).bind fun opener => ?_
  cases opener with
  | none => exact .pure _
  | some opener =>
    refine (blind_skipToken _ _).bind fun _ => (blind_advance _ _).bind fun close => ?_
    exact .ite (.pure _) ((blind_giveUp _ _).bind fun _ => .pure _)

end Parser

end TreeLang
