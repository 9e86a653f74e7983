import TreeLang.Proofs.Blindness

/-!
# Compiling one source with two resolvers

Two resolvers that answer alike lead to compilations that are alike.  What a compilation learns of
its imports are sets of definitions, and it matters only how these look up to a pairing of
identities; what it tells the resolver is which identities it took.  So the two compilations go step
by step, and the pairing grows on the way.

An import that fails is an error of the importing source.  Where only sources without an error are
of interest, nothing need be known about the second compilation once the first resolver fails.

* `Harmony` — two resolvers answer alike, and what relates the states of their imports.
* `Alike`, `Together`, `Follows` — states, outcomes, and steps that go side by side.
* `Follows.of_blind`, `Follows.bind`, `Follows.resolveImport` — how steps are known to.
-/

namespace TreeLang

variable {α β γ δ : Type} {R R' : Pairing}

/-! ## Two resolvers -/

/-- What a resolver answers. -/
abbrev Answer := EStateM.Result Fault ImportState (Except ImportFailure (Shared Definitions))

/-- **Two answers correspond**, where `told` relates reports and `joint` the states of imports: both
are definitions, or failures that are reported alike, or the same fault.  When errors are forgiven,
a first answer without definitions corresponds to every other. -/
inductive Answered (forgiving : Prop) (told : Report → Report → Prop)
    (joint : Pairing → ImportState → ImportState → Prop) (R : Pairing) : Answer → Answer → Prop where
  | missing {first second : Answer} (forgives : forgiving)
      (none : ∀ definitions i, first ≠ .ok (.ok definitions) i) :
      Answered forgiving told joint R first second
  | found {R' : Pairing} {i j : ImportState} {d e : Shared Definitions} (le : R ≤ R')
      (matched : d.value.Matched R' e.value) (joined : joint R' i j) :
      Answered forgiving told joint R (.ok (.ok d) i) (.ok (.ok e) j)
  | unresolved {R' : Pairing} {i j : ImportState} {f g : ImportFailure} (le : R ≤ R')
      (alike : ∀ offset path, told (Report.errorAt offset (.unresolvedImport path f))
        (Report.errorAt offset (.unresolvedImport path g)))
      (joined : joint R' i j) :
      Answered forgiving told joint R (.ok (.error f) i) (.ok (.error g) j)
  | fault {R' : Pairing} {i j : ImportState} (le : R ≤ R') (fault : Fault) (joined : joint R' i j) :
      Answered forgiving told joint R (.error fault i) (.error fault j)

/-- The state of imports after an identity was taken. -/
def ImportState.shared (imports : ImportState) : ImportState :=
  { imports with supply := ⟨imports.supply.fresh + 1⟩ }

/-- **Two resolvers answer alike.** -/
structure Harmony (first second : Resolver) where
  /-- Whether nothing is claimed once the first resolver failed. -/
  forgiving : Prop
  /-- Which reports count as the same. -/
  told : Report → Report → Prop
  /-- Which states of imports belong together. -/
  joint : Pairing → ImportState → ImportState → Prop
  told_refl : ∀ report, told report report
  oneToOne : ∀ {R i j}, joint R i j → R.OneToOne
  share : ∀ {R i j}, joint R i j →
    joint (R.insert i.supply.fresh j.supply.fresh) i.shared j.shared
  resolve : ∀ {R i j}, joint R i j → ∀ path,
    Answered forgiving told joint R (first path i) (second path j)

namespace ParserState

/-- The surroundings of a state. -/
def surroundings (s : ParserState) : Surroundings :=
  ⟨s.visible, s.exported, s.imports, s.reports⟩

/-- The state as if nothing was reported. -/
def bare (s : ParserState) : ParserState :=
  { s with reports := #[] }

/-- Whether an error was reported. -/
def Mistaken (s : ParserState) : Prop :=
  ∃ report ∈ s.reports.toList, report.isError = true

lemma place_bare (s : ParserState) : s.surroundings.place s.bare = s := by
  simp [surroundings, bare, Surroundings.place]

end ParserState

/-! ## Steps that keep errors -/

namespace Parser

variable {s t : ParserState}

/-- Whether an outcome bears an error, or will. -/
def Fails : EStateM.Result Fault ParserState α → Prop
  | .ok _ s => s.Mistaken
  | .error _ _ => True

/-- **A step keeps the errors** that were reported before. -/
def Retains (step : Parser α) : Prop :=
  ∀ s, s.Mistaken → Fails (step s)

lemma Retains.ok {step : Parser α} (retains : Retains step) {value : α}
    (h : step s = .ok value t) (mistaken : s.Mistaken) : t.Mistaken := by
  have fails := retains s mistaken
  rwa [h] at fails

lemma Blind.apply {step : Parser α} (blind : Blind step) (s : ParserState) :
    step s = s.surroundings.outcome (step s.bare) := by
  have same := blind.same s.bare s.surroundings (.refl _)
  rwa [ParserState.place_bare] at same

lemma Blind.retains {step : Parser α} (blind : Blind step) : Retains step := by
  rintro s ⟨report, mem, error⟩
  rw [blind.apply s]
  cases step s.bare with
  | ok _ u =>
    refine ⟨report, ?_, error⟩
    show report ∈ (s.reports ++ u.reports).toList
    rw [Array.toList_append]
    exact List.mem_append_left _ mem
  | error _ _ => trivial

namespace Retains

lemma bind {step : Parser α} {next : α → Parser β} (first : Retains step)
    (second : ∀ value, Retains (next value)) : Retains (step >>= next) := by
  intro s mistaken
  match h : step s with
  | .ok value t =>
    rw [bind_ok h]
    exact second value t (first.ok h mistaken)
  | .error _ t =>
    rw [bind_error h]
    trivial

/-- A step that changes definitions or what is known of imports. -/
lemma modifyGet {change : ParserState → α × ParserState}
    (h : ∀ s, (change s).2.reports = s.reports) : Retains (MonadStateOf.modifyGet change) := by
  rintro s ⟨report, mem, error⟩
  exact ⟨report, by rwa [h], error⟩

end Retains

/-- **A report of an error leaves an error.** -/
lemma fails_complain (offset : Nat) (cause : Cause) (attends : s.recovering = false) :
    Fails (complain offset cause s) := by
  rw [complain, note_eq, attends]
  exact ⟨Report.errorAt offset cause, by simp, rfl⟩

/-- An error is kept by whatever comes next. -/
lemma Fails.bind {step : Parser α} {next : α → Parser β} (fails : Fails (step s))
    (retains : ∀ value, Retains (next value)) : Fails ((step >>= next) s) := by
  match h : step s with
  | .ok value t =>
    rw [h] at fails
    rw [bind_ok h]
    exact retains value t fails
  | .error _ t =>
    rw [bind_error h]
    trivial

lemma fails_giveUp (offset : Nat) (cause : Cause) (attends : s.recovering = false) :
    Fails (giveUp offset cause s) :=
  (fails_complain offset cause attends).bind fun _ => (blind_recover none).retains

/-- A fault ends a statement with an error. -/
lemma fails_isolate (offset : Nat) (fault : Fault) (s : ParserState) :
    Fails (isolate offset fault s) := by
  rw [isolate_eq]
  exact fails_giveUp _ _ rfl

end Parser

/-! ## Side by side -/

namespace Harmony

open TreeLang.Parser

variable {first second : Resolver} (harmony : Harmony first second)

/-- **Two states of the two compilations**: they differ only in what is looked at through a
pairing. -/
structure Alike (R : Pairing) (s t : ParserState) : Prop where
  rest : t = t.surroundings.place s.bare
  visible : s.visible.Matched R t.visible
  exported : s.exported.Matched R t.exported
  imports : harmony.joint R s.imports t.imports
  reports : List.Forall₂ harmony.told s.reports.toList t.reports.toList

/-- **Two outcomes of the two compilations**, with related values, if they came to one. -/
inductive Together (V : Pairing → α → β → Prop) (R : Pairing) :
    EStateM.Result Fault ParserState α → EStateM.Result Fault ParserState β → Prop where
  | forgiven {p : EStateM.Result Fault ParserState α} {q : EStateM.Result Fault ParserState β}
      (forgives : harmony.forgiving) (fails : Fails p) : Together V R p q
  | ok {R' : Pairing} {a : α} {b : β} {s t : ParserState} (le : R ≤ R') (related : V R' a b)
      (attends : s.recovering = false) (alike : harmony.Alike R' s t) :
      Together V R (.ok a s) (.ok b t)
  | fault {R' : Pairing} {s t : ParserState} (le : R ≤ R') (fault : Fault)
      (alike : harmony.Alike R' s t) : Together V R (.error fault s) (.error fault t)

/-- **Two steps go side by side**, from whatever pairing extends the given one. -/
structure Follows (V : Pairing → α → β → Prop) (R : Pairing) (step : Parser α) (other : Parser β) :
    Prop where
  retains : Retains step
  together : ∀ {R'}, R ≤ R' → ∀ {s t}, harmony.Alike R' s t → s.recovering = false →
    harmony.Together V R' (step s) (other t)

/-- Values that do not depend on identities. -/
def Equal (_ : Pairing) (a b : α) : Prop := a = b

variable {harmony} {V : Pairing → α → β → Prop} {W : Pairing → γ → δ → Prop} {s t : ParserState}

namespace Alike

lemma recovering_eq (alike : harmony.Alike R s t) : t.recovering = s.recovering := by
  rw [alike.rest]
  rfl

/-- Other definitions, and something else known of imports. -/
lemma redefine (alike : harmony.Alike R s t) {visible visible' : Definitions}
    {exported exported' : Definitions} {imports imports' : ImportState}
    (h : visible.Matched R' visible') (h' : exported.Matched R' exported')
    (joined : harmony.joint R' imports imports') :
    harmony.Alike R' { s with visible := visible, exported := exported, imports := imports }
      { t with visible := visible', exported := exported', imports := imports' } where
  rest := by
    have rest := alike.rest
    simp only [ParserState.surroundings, Surroundings.place, ParserState.bare] at rest ⊢
    rw [rest]
    simp
  visible := h
  exported := h'
  imports := joined
  reports := alike.reports

/-- A change of what the two states have in common. -/
lemma place (alike : harmony.Alike R s t) (u : ParserState) :
    harmony.Alike R (s.surroundings.place u) (t.surroundings.place u) where
  rest := by simp [ParserState.surroundings, Surroundings.place, ParserState.bare]
  visible := alike.visible
  exported := alike.exported
  imports := alike.imports
  reports := by
    simp only [ParserState.surroundings, Surroundings.place, Array.toList_append]
    exact List.rel_append alike.reports (List.forall₂_same.mpr fun report _ =>
      harmony.told_refl report)

end Alike

namespace Together

lemma mono {p : EStateM.Result Fault ParserState α} {q : EStateM.Result Fault ParserState β}
    (together : harmony.Together V R' p q) (le : R ≤ R') : harmony.Together V R p q := by
  cases together with
  | forgiven forgives fails => exact .forgiven forgives fails
  | ok le' related attends alike => exact .ok (le.trans le') related attends alike
  | fault le' fault alike => exact .fault (le.trans le') fault alike

/-- What comes next may be looked at for the two outcomes one by one. -/
lemma bind {step : Parser α} {other : Parser β} {next : α → Parser γ} {next' : β → Parser δ}
    (together : harmony.Together V R (step s) (other t)) (retains : ∀ a, Retains (next a))
    (h : ∀ {R'}, R ≤ R' → ∀ {a b u v}, V R' a b → u.recovering = false → harmony.Alike R' u v →
      harmony.Together W R' (next a u) (next' b v)) :
    harmony.Together W R ((step >>= next) s) ((other >>= next') t) := by
  generalize hp : step s = p at together
  generalize hq : other t = q at together
  cases together with
  | ok le related attends alike =>
    rw [bind_ok hp, bind_ok hq]
    exact (h le related attends alike).mono le
  | fault le fault alike =>
    rw [bind_error hp, bind_error hq]
    exact .fault le fault alike
  | forgiven forgives fails =>
    refine .forgiven forgives ?_
    cases p with
    | error fault u =>
      rw [bind_error hp]
      trivial
    | ok a u =>
      rw [bind_ok hp]
      exact retains a u fails

end Together

namespace Follows

lemma mono {step : Parser α} {other : Parser β} (follows : harmony.Follows V R step other)
    (le : R ≤ R') : harmony.Follows V R' step other :=
  ⟨follows.retains, fun le' => follows.together (le.trans le')⟩

lemma pure {a : α} {b : β} (related : ∀ {R'}, R ≤ R' → V R' a b) :
    harmony.Follows V R (Pure.pure a) (Pure.pure b) where
  retains _ mistaken := mistaken
  together le _ _ alike attends := .ok (le_refl _) (related le) attends alike

/-- **A blind step goes beside itself.** -/
theorem of_blind {step : Parser α} (blind : Blind step) : harmony.Follows Equal R step step where
  retains := blind.retains
  together {R'} le s t alike attends := by
    have placed := blind.same s.bare t.surroundings alike.visible.same
    rw [← alike.rest] at placed
    have here := blind.apply s
    match bare : step s.bare with
    | .ok value u =>
      rw [bare] at placed here
      rw [here, placed]
      exact .ok (le_refl _) rfl (blind.attends here attends) (alike.place u)
    | .error fault u =>
      rw [bare] at placed here
      rw [here, placed]
      exact .fault (le_refl _) fault (alike.place u)

/-- **Steps that go side by side may be composed**, however their values are related. -/
theorem bindWith {step : Parser α} {other : Parser β} {next : α → Parser γ} {next' : β → Parser δ}
    (follows : harmony.Follows V R step other) (retains : ∀ a, Retains (next a))
    (h : ∀ {R'}, R ≤ R' → ∀ {a b}, V R' a b → harmony.Follows W R' (next a) (next' b)) :
    harmony.Follows W R (step >>= next) (other >>= next') where
  retains := Retains.bind follows.retains retains
  together le _ _ alike attends :=
    (follows.together le alike attends).bind retains fun le' _ _ _ _ related attends alike =>
      (h (le.trans le') related).together (le_refl _) alike attends

/-- Steps with equal values may be composed. -/
lemma bind {step other : Parser α} {next : α → Parser γ} {next' : α → Parser δ}
    (follows : harmony.Follows Equal R step other)
    (h : ∀ a, harmony.Follows W R (next a) (next' a)) :
    harmony.Follows W R (step >>= next) (other >>= next') := by
  refine follows.bindWith (fun a => (h a).retains) fun le a b related => ?_
  cases related
  exact (h a).mono le

/-- A blind step before others. -/
lemma after {step : Parser α} {next : α → Parser γ} {next' : α → Parser δ} (blind : Blind step)
    (h : ∀ a, harmony.Follows W R (next a) (next' a)) :
    harmony.Follows W R (step >>= next) (step >>= next') :=
  (of_blind blind).bind h

lemma ite {condition : Prop} [Decidable condition] {yes no : Parser α} {yes' no' : Parser β}
    (h : harmony.Follows V R yes yes') (h' : harmony.Follows V R no no') :
    harmony.Follows V R (if condition then yes else no) (if condition then yes' else no') := by
  split <;> assumption

/-- A step that changes definitions, and takes identities. -/
lemma redefine {answer : ParserState → α} {answer' : ParserState → β}
    {visible exported visible' exported' : ParserState → Definitions}
    {imports imports' : ParserState → ImportState}
    (h : ∀ {R'}, R ≤ R' → ∀ {s t}, harmony.Alike R' s t → ∃ R'', R' ≤ R'' ∧
      V R'' (answer s) (answer' t) ∧ (visible s).Matched R'' (visible' t) ∧
      (exported s).Matched R'' (exported' t) ∧ harmony.joint R'' (imports s) (imports' t)) :
    harmony.Follows V R
      (modifyGet fun s => (answer s, { s with
        visible := visible s, exported := exported s, imports := imports s }))
      (modifyGet fun t => (answer' t, { t with
        visible := visible' t, exported := exported' t, imports := imports' t })) where
  retains := Retains.modifyGet fun _ => rfl
  together le s t alike attends := by
    obtain ⟨R'', le', related, visible, exported, imports⟩ := h le alike
    exact .ok le' related attends (alike.redefine visible exported imports)

end Follows

end Harmony

end TreeLang
