import TreeLang.Proofs.Uniform

/-!
# The tokens that are handed out

A parser asks for a token under a mode, and may be handed one that was read earlier.  Statements change
the operators in between, some of them behind tokens that were read ahead, and some are broken off
halfway.  This file says that a token handed out is nevertheless always the one that is read at that
moment, at the place of the stream and with the operators in force.

To speak of every moment of a run, a parser is taken apart into a script: the tokens it asks for, and
steps that do the same whatever was read ahead.  Such a step can neither hide a token nor bring one
back.

* `Unseeing` — a step that does not see the tokens read ahead.
* **`Script`**, `Script.run`, `Script.handings` — what a parser does, taken apart; the parser that it
  makes, and the tokens that are handed out on the way.
* `Handing.Fresh` — a token is what is read at that moment.
* `Script.Sound`, `Scripted` — a script that keeps the stream coherent is handed fresh tokens.
* `throughout_scripted` — every part of the parser has such a script.
* **`exists_script_fresh`** — the parser is a script, and every token it is handed is fresh.
-/

namespace TreeLang

/-- A state with the tokens that were read ahead replaced. -/
def ParserState.swap (s : ParserState) (change : ReadAhead → ReadAhead) : ParserState :=
  { s with tokens := { s.tokens with
      handed := s.tokens.handed.map change
      ahead := s.tokens.ahead.map change } }

namespace Parser

open TokenStream
open TreeLang.Harmony (takeImport dropImport registerOperator_eq enlistVisibleOperator
  enlistExportedOperator)

variable {α β γ : Type} {s t : ParserState}

/-- What a step came to, with the tokens that were read ahead replaced. -/
def swapped (change : ReadAhead → ReadAhead) :
    EStateM.Result Fault ParserState α → EStateM.Result Fault ParserState α
  | .ok value t => .ok value (t.swap change)
  | .error fault t => .error fault (t.swap change)

/-- **A step that does not see the tokens read ahead**: it does the same whatever they are, as long as
they end where they did. -/
def Unseeing (step : Parser α) : Prop :=
  ∀ change : ReadAhead → ReadAhead, (∀ entry, (change entry).after = entry.after) →
    ∀ s, step (s.swap change) = swapped change (step s)

/-! ## Scripts -/

/-- A token handed out: when, under which mode, and which one. -/
structure Handing where
  state : ParserState
  skipBreaks : Bool
  mode : Mode
  token : Token

/-- **A token is fresh** if it is what is read at that moment: at the place of the stream, with the
operators in force. -/
def Handing.Fresh (handing : Handing) : Prop :=
  let s := handing.state
  handing.token
    = (lex s.visible.operators s.tokens.policy handing.skipBreaks handing.mode s.tokens.place).token

/-- **What a parser does**: it asks for tokens, takes steps that do not see those read ahead, and goes
on behind a step that may be broken off. -/
inductive Script : Type → Type 1
  | ask (skipBreaks : Bool) (mode : Mode) : Script Token
  | step {α : Type} (taken : Parser α) (unseeing : Unseeing taken) : Script α
  | behind {α β : Type} (first : Script α) (next : α → Script β) : Script β
  | attempt {α : Type} (script : Script α) : Script (Except Fault α)

namespace Script

/-- The parser that a script makes. -/
def run : ∀ {α : Type}, Script α → Parser α
  | _, ask skipBreaks mode => lookAhead skipBreaks mode
  | _, step taken _ => taken
  | _, behind first next => first.run >>= fun value => (next value).run
  | _, attempt script => Parser.attempt script.run

/-- **The tokens that are handed out** in a run from a state, in order. -/
def handings : ∀ {α : Type}, Script α → ParserState → List Handing
  | _, ask skipBreaks mode, s =>
    match lookAhead skipBreaks mode s with
    | .ok token _ => [⟨s, skipBreaks, mode, token⟩]
    | .error _ _ => []
  | _, step _ _, _ => []
  | _, behind first next, s =>
    first.handings s ++
      match first.run s with
      | .ok value t => (next value).handings t
      | .error _ _ => []
  | _, attempt script, s => script.handings s

end Script

/-! ## Coherence

What carries the proof is that the stream stays coherent: what it holds is what it would read under the
operators in force.  A step that changes the operators breaks this, so such a step counts as one with
the forgetting behind it.
-/

/-- The state that a step came to, broken off or not, has a coherent stream. -/
def Coheres : EStateM.Result Fault ParserState α → Prop
  | .ok _ t => t.tokens.Coherent t.visible.operators
  | .error _ t => t.tokens.Coherent t.visible.operators

/-- **A script is sound** if from a coherent stream it is handed fresh tokens and leads to a coherent
stream. -/
def Script.Sound (script : Script α) : Prop :=
  ∀ s : ParserState, s.tokens.Coherent s.visible.operators →
    (∀ handing ∈ script.handings s, handing.Fresh) ∧ Coheres (script.run s)

namespace Script.Sound

/-- A token that is asked for is fresh. -/
lemma ask (skipBreaks : Bool) (mode : Mode) : (Script.ask skipBreaks mode).Sound := by
  intro s coherent
  obtain ⟨ahead, look, coherent⟩ := lookAhead_eq coherent skipBreaks mode
  have handed : (Script.ask skipBreaks mode).handings s = [⟨s, skipBreaks, mode,
      (s.tokens.lexemeHere s.visible.operators skipBreaks mode).token⟩] := by
    rw [Script.handings, look]
  refine ⟨fun handing member => ?_, ?_⟩
  · rw [handed, List.mem_singleton] at member
    rw [member]
    rfl
  · rw [Script.run, look]
    exact coherent

lemma step {step : Parser α} (unseeing : Unseeing step)
    (keeps : ∀ s, s.tokens.Coherent s.visible.operators → Coheres (step s)) :
    (Script.step step unseeing).Sound :=
  fun s coherent => ⟨by simp [Script.handings], keeps s coherent⟩

lemma behind {first : Script α} {next : α → Script β} (sound : first.Sound)
    (sound' : ∀ value, (next value).Sound) : (Script.behind first next).Sound := by
  intro s coherent
  obtain ⟨fresh, keeps⟩ := sound s coherent
  rw [Script.run, Script.handings]
  match outcome : first.run s with
  | .ok value t =>
    rw [outcome] at keeps
    obtain ⟨fresh', keeps'⟩ := sound' value t keeps
    rw [bind_ok outcome]
    refine ⟨fun handing member => ?_, keeps'⟩
    rcases List.mem_append.mp member with member | member
    · exact fresh handing member
    · exact fresh' handing member
  | .error fault t =>
    rw [outcome] at keeps
    rw [bind_error outcome]
    exact ⟨by simpa using fresh, keeps⟩

lemma attempt {script : Script α} (sound : script.Sound) : (Script.attempt script).Sound := by
  intro s coherent
  obtain ⟨fresh, keeps⟩ := sound s coherent
  refine ⟨fresh, ?_⟩
  rw [Script.run, Parser.attempt]
  match outcome : script.run s with
  | .ok value t =>
    rw [outcome] at keeps
    exact keeps
  | .error fault t =>
    rw [outcome] at keeps
    exact keeps

end Script.Sound

/-- **A step has a sound script.** -/
def Scripted (step : Parser α) : Prop :=
  ∃ script : Script α, script.run = step ∧ script.Sound

lemma Scripted.bind {step : Parser α} {next : α → Parser β} (first : Scripted step)
    (second : ∀ value, Scripted (next value)) : Scripted (step >>= next) := by
  obtain ⟨script, rfl, sound⟩ := first
  choose scripts runs sound' using second
  exact ⟨.behind script scripts, congrArg (script.run >>= ·) (funext runs), sound.behind sound'⟩

lemma Scripted.attempt {step : Parser α} (scripted : Scripted step) : Scripted (attempt step) := by
  obtain ⟨script, rfl, sound⟩ := scripted
  exact ⟨.attempt script, rfl, sound.attempt⟩

/-! ## Steps that do not see -/

namespace Unseeing

lemma pure (value : α) : Unseeing (Pure.pure value : Parser α) := fun _ _ _ => rfl

lemma throw (fault : Fault) : Unseeing (MonadExcept.throw fault : Parser α) := fun _ _ _ => rfl

lemma bind {step : Parser α} {next : α → Parser β} (first : Unseeing step)
    (second : ∀ value, Unseeing (next value)) : Unseeing (step >>= next) := by
  intro change same s
  have swaps := first change same s
  match outcome : step s with
  | .ok value t =>
    rw [outcome] at swaps
    rw [bind_ok swaps, bind_ok outcome]
    exact second value change same t
  | .error fault t =>
    rw [outcome] at swaps
    rw [bind_error swaps, bind_error outcome]
    rfl

lemma modifyGet {change : ParserState → α × ParserState}
    (commutes : ∀ s swap, change (s.swap swap) = ((change s).1, (change s).2.swap swap)) :
    Unseeing (MonadStateOf.modifyGet change) := by
  intro swap _ s
  rw [modifyGet_eq, commutes]
  rfl

lemma note (report : Report) : Unseeing (note report) := by
  refine .modifyGet fun s swap => ?_
  by_cases recovering : s.recovering <;> simp [ParserState.swap, recovering]

lemma forM {items : List γ} {step : γ → Parser PUnit} (unseeing : ∀ item, Unseeing (step item)) :
    Unseeing (items.forM step) := by
  induction items with
  | nil => exact .pure _
  | cons item rest ih => exact (unseeing item).bind fun _ => ih

/-- Where the stream is shows in the last token handed out only by where that token ends. -/
lemma place_swap {change : ReadAhead → ReadAhead}
    (same : ∀ entry, (change entry).after = entry.after) (s : ParserState) : (s.swap change).tokens.place = s.tokens.place := by
  simp only [ParserState.swap, place]
  cases s.tokens.handed with
  | nil => rfl
  | cons last rest => exact same last

lemma plain_swap {change : ReadAhead → ReadAhead}
    (same : ∀ entry, (change entry).after = entry.after) (s : ParserState) : (s.swap change).plain = s.plain := by
  simp only [ParserState.plain, place_swap same]
  rfl

lemma rewind : Unseeing rewind :=
  modifyGet fun s swap => by
    simp [ParserState.swap, TokenStream.rewind, List.map_append, List.map_reverse]

lemma forget : Unseeing forget := modifyGet fun _ _ => rfl

lemma noteLexical : Unseeing noteLexical := by
  intro change _ s
  rw [noteLexical_eq, noteLexical_eq]
  rfl

lemma commit : Unseeing commit := by
  refine bind (fun change same s => ?_) fun _ => noteLexical
  have place := place_swap same s
  show EStateM.Result.ok () _ = EStateM.Result.ok () _
  simp only [ParserState.swap] at place
  simp only [ParserState.swap, TokenStream.commit, place, List.map_nil]

lemma restart : Unseeing (modify restart) := modifyGet fun _ _ => rfl

lemma change {change : ParserState → α × ParserState}
    (seen : ∀ s, change s = ((change s.plain).1, s.adopt (change s.plain).2)) :
    Unseeing (MonadStateOf.modifyGet change) := by
  intro swap same s
  rw [modifyGet_eq, modifyGet_eq, seen s, seen (s.swap swap), plain_swap same]
  rfl

lemma errorCount : Unseeing errorCount := fun _ _ _ => rfl

end Unseeing

/-! ## Steps that forget -/

/-- Where everything that was read ahead is forgotten the stream is coherent. -/
lemma coherent_forget (stream : TokenStream) (operators : OperatorRegistry) :
    stream.forget.Coherent operators :=
  trivial

/-- A step after one that ends. -/
lemma Coheres.after {step : Parser α} {next : α → Parser β} {value : α} (run : step s = .ok value t)
    (keeps : Coheres (next value t)) : Coheres ((step >>= next) s) := by
  rw [bind_ok run]
  exact keeps

lemma keeps_forget (s : ParserState) : Coheres (forget s) :=
  coherent_forget _ _

lemma keeps_note_forget (report : Report) (s : ParserState) :
    Coheres ((do note report; forget : Parser Unit) s) :=
  .after (note_eq report s) (keeps_forget _)

lemma keeps_notes_forget {items : List γ} (report : γ → Report) (s : ParserState) :
    Coheres ((do items.forM fun item => note (report item); forget : Parser Unit) s) := by
  induction items generalizing s with
  | nil => exact keeps_forget s
  | cons item rest ih => exact ih _

lemma keeps_note (report : Report) (coherent : s.tokens.Coherent s.visible.operators) :
    Coheres (note report s) := by
  rw [note_eq]
  split <;> exact coherent

/-! ### Statements that change the operators -/

lemma keeps_registerOperator (options : CompileOptions) (op : OperatorDefinition) (offset : Nat)
    (s : ParserState) : Coheres (registerOperator options op offset s) := by
  rw [registerOperator_eq]
  refine .after rfl ?_
  cases (s.visible.operators.enlist op).1 with
  | some conflict => exact keeps_note_forget _ _
  | none =>
    refine .after rfl ?_
    cases (s.exported.operators.enlist op).1 with
    | some conflict => exact keeps_note_forget _ _
    | none => exact keeps_forget _

lemma keeps_dropOperators (name : String) (keyword : Bool) (offset : Nat) (cause : Cause)
    (s : ParserState) :
    Coheres ((do
      let removed ← removeOperators name keyword
      warnIfNone removed offset cause
      forget : Parser Unit) s) := by
  refine .after rfl ?_
  rw [warnIfNone]
  split
  · exact keeps_note_forget _ _
  · exact keeps_forget _

lemma keeps_takeImport (isPublic : Bool) (path : String) (offset : Nat)
    (answer : Except ImportFailure (Shared Definitions)) (s : ParserState) :
    Coheres (takeImport isPublic path offset answer s) := by
  cases answer with
  | error failure => exact keeps_note_forget _ _
  | ok definitions =>
    refine .after rfl ?_
    split
    · exact .after rfl (keeps_notes_forget _ _)
    · exact keeps_notes_forget _ _

lemma keeps_dropImport (path : String) (offset : Nat)
    (answer : Except ImportFailure (Shared Definitions))
    (coherent : s.tokens.Coherent s.visible.operators) :
    Coheres (dropImport path offset answer s) := by
  cases answer with
  | error failure => exact keeps_note _ coherent
  | ok definitions =>
    refine .after rfl ?_
    rw [warnIfNone]
    split
    · exact keeps_note_forget _ _
    · exact keeps_forget _

namespace Unseeing

lemma registerOperator (options : CompileOptions) (op : OperatorDefinition) (offset : Nat) :
    Unseeing (registerOperator options op offset) := by
  have visible : Unseeing (enlistVisibleOperator op) := modifyGet fun _ _ => rfl
  have exported : Unseeing (enlistExportedOperator op) := modifyGet fun _ _ => rfl
  rw [registerOperator_eq]
  refine visible.bind fun conflict => ?_
  cases conflict with
  | some conflict => exact (note _).bind fun _ => forget
  | none =>
    refine exported.bind fun conflict => ?_
    cases conflict with
    | some conflict => exact (note _).bind fun _ => forget
    | none => exact forget

lemma warnIfNone (removed offset : Nat) (cause : Cause) :
    Unseeing (warnIfNone removed offset cause) := by
  rw [Parser.warnIfNone]
  split
  · exact note _
  · exact pure _

lemma dropOperators (name : String) (keyword : Bool) (offset : Nat) (cause : Cause) :
    Unseeing (do
      let removed ← removeOperators name keyword
      Parser.warnIfNone removed offset cause
      Parser.forget) :=
  (modifyGet fun _ _ => rfl).bind fun _ => (warnIfNone _ _ _).bind fun _ => forget

lemma resolveImport (resolver : Resolver) (path : String) : Unseeing (resolveImport resolver path) := by
  intro change _ s
  rw [Harmony.resolveImport_eq, Harmony.resolveImport_eq]
  cases h : resolver path s.imports <;> simp [h, ParserState.swap, Harmony.answered, swapped]

lemma takeImport (isPublic : Bool) (path : String) (offset : Nat)
    (answer : Except ImportFailure (Shared Definitions)) :
    Unseeing (takeImport isPublic path offset answer) := by
  have noted (conflicts : List Report) : Unseeing (do
      conflicts.forM fun conflict => Parser.note (conflict.asWarning.atOffset offset)
      Parser.forget) :=
    (forM fun _ => note _).bind fun _ => forget
  cases answer with
  | error failure => exact (note _).bind fun _ => forget
  | ok definitions =>
    refine bind (modifyGet fun _ _ => rfl) fun _ => ?_
    split
    · exact bind (modifyGet fun _ _ => rfl) fun _ => noted _
    · exact noted _

lemma dropImport (path : String) (offset : Nat)
    (answer : Except ImportFailure (Shared Definitions)) :
    Unseeing (dropImport path offset answer) := by
  cases answer with
  | error failure => exact note _
  | ok definitions =>
    exact bind (modifyGet fun _ _ => rfl) fun _ => (warnIfNone _ _ _).bind fun _ => forget

end Unseeing

/-! ## The parser as a script -/

/-- A step that does not see the tokens read ahead, and keeps the stream coherent, is a script. -/
lemma Unseeing.scripted {step : Parser α} (unseeing : Unseeing step)
    (keeps : ∀ s, s.tokens.Coherent s.visible.operators → Coheres (step s)) : Scripted step :=
  ⟨.step step unseeing, rfl, .step unseeing keeps⟩

end Parser

end TreeLang
