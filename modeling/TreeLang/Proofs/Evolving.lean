import TreeLang.Import.Loading
import TreeLang.Proofs.Compiling

/-!
# What compilations do to the state of imports

A compilation touches the state of imports in two ways only: it takes identities, and it asks its
resolver.  So what both of these keep is kept by the whole compilation, and by induction on the depth
of imports what holds of one nested import holds of all.

* `compile_evolves` — a relation that taking identities and asking keep is kept by compilations.
* `ImportState.definitionsOf` — what is remembered of a path.
* `loadingResolver_succ`, `loadingResolver_of_source`, … — one call of the resolver.
* **`ImportState.Evolved`** — what is being compiled stays the same, what is remembered stays
  remembered.
* **`evolved_loadingResolver`** — every call of the resolver is of this sort.
* `Definitions.Below`, `below_compile` — definitions have identities that were given out before.
-/

namespace TreeLang

variable {options : CompileOptions} {loader : Loader} {i j k : ImportState} {R : Pairing}

/-! ## Lookup -/

/-- The definitions behind a path in a table; of several entries the first counts. -/
def definitionsIn (table : List (String × Shared Definitions)) (path : String) :
    Option (Shared Definitions) :=
  (table.find? fun entry => entry.1 = path).map Prod.snd

lemma definitionsIn_cons_self (path : String) (definitions : Shared Definitions)
    (table : List (String × Shared Definitions)) :
    definitionsIn ((path, definitions) :: table) path = some definitions := by
  simp [definitionsIn]

lemma definitionsIn_cons_ne {path other : String} (ne : other ≠ path)
    (definitions : Shared Definitions) (table : List (String × Shared Definitions)) :
    definitionsIn ((path, definitions) :: table) other = definitionsIn table other := by
  simp [definitionsIn, Ne.symm ne]

lemma tableResolver_eq (table : List (String × Shared Definitions)) (path : String)
    (imports : ImportState) :
    tableResolver table path imports =
      match definitionsIn table path with
      | some definitions => .ok (.ok definitions) imports
      | none => .ok (.error (.notFound path)) imports := by
  rw [tableResolver, definitionsIn]
  cases table.find? fun entry => entry.1 = path <;> rfl

namespace ImportState

/-- What is remembered of a path. -/
def definitionsOf (imports : ImportState) (path : String) : Option (Shared Definitions) :=
  definitionsIn imports.cache path

/-- The state after the loader was asked for a path. -/
def asked (imports : ImportState) (path : String) : ImportState :=
  { imports with loaded := imports.loaded ++ [path] }

/-- The state in which a path is compiled, too. -/
def enter (imports : ImportState) (path : String) : ImportState :=
  { imports with active := path :: imports.active }

/-- The state in which a path is not compiled any more. -/
def leave (imports : ImportState) (path : String) : ImportState :=
  { imports with active := imports.active.filter (· ≠ path) }

/-- The state in which the definitions behind a path are remembered. -/
def remember (imports : ImportState) (path : String) (definitions : Shared Definitions) :
    ImportState :=
  { imports with cache := (path, definitions) :: imports.cache }

end ImportState

/-! ## One call of the resolver -/

/-- What a compilation of an import comes to. -/
def concludeImport (path : String) (result : Compilation × ImportState) : Answer :=
  if result.1.errorCount = 0 then
    .ok (.ok result.1.definitions) ((result.2.leave path).remember path result.1.definitions)
  else .ok (.error (.failed path result.1.errorCount)) (result.2.leave path)

lemma compileImport_eq (resolver : Resolver) (path : String) (source : Source)
    (imports : ImportState) :
    compileImport options resolver path source imports
      = concludeImport path (compile options resolver source (imports.enter path)) := by
  have step : compileImport options resolver path source imports =
      (if (compile options resolver source (imports.enter path)).1.errorCount = 0 then do
          modify fun s => s.remember path
            (compile options resolver source (imports.enter path)).1.definitions
          return .ok (compile options resolver source (imports.enter path)).1.definitions
        else return .error (.failed path
          (compile options resolver source (imports.enter path)).1.errorCount) :
        EStateM Fault ImportState _)
      ((compile options resolver source (imports.enter path)).2.leave path) := rfl
  rw [step, concludeImport]
  split <;> rfl

lemma loadingResolver_succ (depth : Nat) (path : String) (imports : ImportState) :
    loadingResolver options loader (depth + 1) path imports =
      match imports.definitionsOf path with
      | some definitions => .ok (.ok definitions) imports
      | none =>
        if path ∈ imports.active then .ok (.error (.cycle path)) imports
        else
          match loader path with
          | .failure failure => .ok (.error failure) (imports.asked path)
          | .fault message => .error (.loader message) (imports.asked path)
          | .source source =>
            concludeImport path (compile options (loadingResolver options loader depth) source
              ((imports.asked path).enter path)) := by
  rw [loadingResolver, Parser.bind_get, ImportState.definitionsOf, definitionsIn]
  cases imports.cache.find? fun entry => entry.1 = path with
  | some entry => rfl
  | none =>
    simp only [List.contains_iff_mem, Option.map_none]
    split
    · rfl
    cases loader path with
    | failure failure => rfl
    | fault message => rfl
    | source source => exact compileImport_eq _ path source (imports.asked path)

/-! ### Paths that are not known yet -/

section Unknown

variable {path : String} {imports : ImportState} (unknown : imports.definitionsOf path = none)

include unknown

/-- What is being compiled is imported in a circle. -/
lemma loadingResolver_of_active (depth : Nat) (active : path ∈ imports.active) :
    loadingResolver options loader (depth + 1) path imports = .ok (.error (.cycle path)) imports := by
  rw [loadingResolver_succ, unknown]
  exact if_pos active

variable (inactive : path ∉ imports.active)

include inactive

lemma loadingResolver_of_failure (depth : Nat) {failure : ImportFailure}
    (found : loader path = .failure failure) :
    loadingResolver options loader (depth + 1) path imports
      = .ok (.error failure) (imports.asked path) := by
  rw [loadingResolver_succ, unknown]
  dsimp only
  rw [if_neg inactive, found]

lemma loadingResolver_of_fault (depth : Nat) {message : Option String}
    (found : loader path = .fault message) :
    loadingResolver options loader (depth + 1) path imports
      = .error (.loader message) (imports.asked path) := by
  rw [loadingResolver_succ, unknown]
  dsimp only
  rw [if_neg inactive, found]

/-- What a loader finds is compiled. -/
lemma loadingResolver_of_source (depth : Nat) {source : Source}
    (found : loader path = .source source) :
    loadingResolver options loader (depth + 1) path imports
      = concludeImport path (compile options (loadingResolver options loader depth) source
          ((imports.asked path).enter path)) := by
  rw [loadingResolver_succ, unknown]
  dsimp only
  rw [if_neg inactive, found]

end Unknown

/-! ## What compilations keep -/

/-- The state of imports behind an answer. -/
def importsOf : Answer → ImportState
  | .ok _ imports => imports
  | .error _ imports => imports

/-- A relation that a resolver keeps, and that taking identities keeps. -/
structure Kept (G : ImportState → ImportState → Prop) (resolver : Resolver) : Prop where
  refl : ∀ i, G i i
  trans : ∀ {i j k}, G i j → G j k → G i k
  shared : ∀ i, G i i.shared
  resolve : ∀ path i, G i (importsOf (resolver path i))

lemma Definitions.Matched.refl (definitions : Definitions) : definitions.Matched Eq definitions :=
  ⟨List.forall₂_same.mpr fun _ _ => ⟨rfl, rfl⟩, rfl⟩

lemma Pairing.oneToOne_of_le_eq (le : R ≤ Eq) : R.OneToOne where
  rightUnique _ _ _ h h' := (le _ _ h).symm.trans (le _ _ h')
  leftUnique _ _ _ h h' := (le _ _ h).trans (le _ _ h').symm

/-- A resolver is in harmony with itself, and more is known of the states of imports on the way. -/
def Harmony.self {G : ImportState → ImportState → Prop} {resolver : Resolver}
    (kept : Kept G resolver) (start : ImportState) : Harmony resolver resolver where
  forgiving := False
  told := Eq
  joint R i j := i = j ∧ G start i ∧ R ≤ Eq
  told_refl _ := rfl
  oneToOne := fun ⟨_, _, le⟩ => Pairing.oneToOne_of_le_eq le
  share := by
    rintro R i _ ⟨rfl, known, le⟩
    refine ⟨rfl, kept.trans known (kept.shared i), ?_⟩
    rintro a b (h | ⟨rfl, rfl⟩)
    · exact le _ _ h
    · rfl
  resolve := by
    rintro R i _ ⟨rfl, known, le⟩ path
    have further := kept.trans known (kept.resolve path i)
    generalize resolver path i = answer at further ⊢
    match answer with
    | .ok (.ok d) _ => exact .found le (.refl d.value) ⟨rfl, further, le_refl _⟩
    | .ok (.error failure) _ => exact .unresolved (le_refl _) (fun _ _ => rfl) ⟨rfl, further, le⟩
    | .error fault _ => exact .fault (le_refl _) fault ⟨rfl, further, le⟩

/-- **What a resolver keeps is kept by compilations.** -/
theorem compile_evolves {G : ImportState → ImportState → Prop} {resolver : Resolver}
    (kept : Kept G resolver) (options : CompileOptions) (source : Source) (imports : ImportState) :
    G imports (compile options resolver source imports).2 := by
  have joined : (Harmony.self kept imports).joint (fun _ _ => False) imports imports :=
    ⟨rfl, kept.refl imports, fun _ _ => False.elim⟩
  obtain ⟨forgives, -⟩ | ⟨R', -, agrees⟩ := (Harmony.self kept imports).compile options source joined
  · exact forgives.elim
  · exact agrees.imports.2.1

/-- **How imports evolve**: what is being compiled stays the same, what is remembered stays
remembered, and identities are given out once. -/
structure ImportState.Evolved (i j : ImportState) : Prop where
  active : j.active = i.active
  remembered : ∀ path definitions, i.definitionsOf path = some definitions →
    j.definitionsOf path = some definitions
  fresh : i.supply.fresh ≤ j.supply.fresh

namespace ImportState.Evolved

lemma refl (i : ImportState) : i.Evolved i := ⟨rfl, fun _ _ h => h, le_refl _⟩

lemma trans (first : i.Evolved j) (second : j.Evolved k) : i.Evolved k :=
  ⟨second.active.trans first.active,
    fun _ _ h => second.remembered _ _ (first.remembered _ _ h), first.fresh.trans second.fresh⟩

lemma shared (i : ImportState) : i.Evolved i.shared := ⟨rfl, fun _ _ h => h, Nat.le_succ _⟩

lemma asked (i : ImportState) (path : String) : i.Evolved (i.asked path) :=
  ⟨rfl, fun _ _ h => h, le_refl _⟩

/-- Between entering and leaving a path that was not being compiled, imports may evolve. -/
lemma leave {path : String} (inactive : path ∉ i.active) (h : (i.enter path).Evolved j) :
    i.Evolved (j.leave path) where
  active := by
    show j.active.filter _ = i.active
    rw [h.active]
    show (path :: i.active).filter _ = i.active
    rw [List.filter_cons_of_neg (by simp), List.filter_eq_self]
    intro other mem
    simpa using fun same : other = path => inactive (same ▸ mem)
  remembered := h.remembered
  fresh := h.fresh

lemma remember {path : String} (unknown : i.definitionsOf path = none) (h : i.Evolved j)
    (definitions : Shared Definitions) : i.Evolved (j.remember path definitions) where
  active := h.active
  remembered other found known := by
    have ne : other ≠ path := by
      rintro rfl
      rw [unknown] at known
      cases known
    exact (definitionsIn_cons_ne ne _ _).trans (h.remembered _ _ known)
  fresh := h.fresh

end ImportState.Evolved

/-- **Every call of the resolver lets imports evolve.** -/
theorem evolved_loadingResolver (options : CompileOptions) (loader : Loader) (depth : Nat)
    (path : String) (i : ImportState) :
    i.Evolved (importsOf (loadingResolver options loader depth path i)) := by
  induction depth generalizing path i with
  | zero => exact .refl i
  | succ depth ih =>
    rw [loadingResolver_succ]
    cases known : i.definitionsOf path with
    | some definitions => exact .refl i
    | none =>
      dsimp only
      split
      · exact .refl i
      rename_i inactive
      cases loader path with
      | failure failure => exact .asked i path
      | fault message => exact .asked i path
      | source source =>
        have kept : Kept ImportState.Evolved (loadingResolver options loader depth) :=
          ⟨.refl, .trans, .shared, fun path i => ih path i⟩
        have evolved := ImportState.Evolved.leave (i := i.asked path) inactive
          (compile_evolves kept options source ((i.asked path).enter path))
        have evolved := (ImportState.Evolved.asked i path).trans evolved
        dsimp only
        rw [concludeImport]
        split
        · exact evolved.remember known _
        · exact evolved

/-- A compilation with a table takes identities, and nothing else. -/
theorem compile_table (options : CompileOptions) (table : List (String × Shared Definitions))
    (source : Source) (i : ImportState) :
    ∃ n, i.supply.fresh ≤ n ∧
      (compile options (tableResolver table) source i).2 = { i with supply := ⟨n⟩ } := by
  refine compile_evolves (G := fun i j => ∃ n, i.supply.fresh ≤ n ∧ j = { i with supply := ⟨n⟩ })
    ⟨fun i => ⟨_, le_refl _, rfl⟩, ?_, fun i => ⟨_, Nat.le_succ _, rfl⟩, ?_⟩ options source i
  · rintro i _ _ ⟨n, first, rfl⟩ ⟨m, second, rfl⟩
    exact ⟨m, first.trans second, rfl⟩
  · intro path i
    rw [tableResolver_eq]
    cases definitionsIn table path <;> exact ⟨_, le_refl _, rfl⟩

/-- Definitions all of whose identities were given out before. -/
def Definitions.Below (limit : Nat) (definitions : Definitions) : Prop :=
  ∀ entry ∈ definitions.macros.definitions, entry.identity < limit

lemma Definitions.Below.matched {definitions : Definitions} {limit : Nat}
    (below : definitions.Below limit) :
    definitions.Matched (fun a b => a = b ∧ a < limit) definitions :=
  ⟨List.forall₂_same.mpr fun entry mem => ⟨⟨rfl, below entry mem⟩, rfl⟩, rfl⟩

/-- A table is in harmony with itself, and its definitions are old. -/
def Harmony.ofTable {table : List (String × Shared Definitions)} {limit : Nat}
    (below : ∀ path definitions, definitionsIn table path = some definitions →
      definitions.value.Below limit) : Harmony (tableResolver table) (tableResolver table) where
  forgiving := False
  told := Eq
  joint R i j := i = j ∧ limit ≤ i.supply.fresh ∧ (∀ a < limit, R a a) ∧
    ∀ a b, R a b → a = b ∧ a < i.supply.fresh
  told_refl _ := rfl
  oneToOne := fun ⟨_, _, _, le⟩ => Pairing.oneToOne_of_le_eq fun a b h => (le a b h).1
  share := by
    rintro R i _ ⟨rfl, old, reflects, le⟩
    refine ⟨rfl, Nat.le_succ_of_le old, fun a h => .inl (reflects a h), ?_⟩
    rintro a b (h | ⟨rfl, rfl⟩)
    · exact ⟨(le a b h).1, Nat.lt_succ_of_lt (le a b h).2⟩
    · exact ⟨rfl, Nat.lt_succ_self _⟩
  resolve := by
    rintro R i _ ⟨rfl, old, reflects, le⟩ path
    rw [tableResolver_eq]
    cases found : definitionsIn table path with
    | none => exact .unresolved (le_refl _) (fun _ _ => rfl) ⟨rfl, old, reflects, le⟩
    | some d =>
      refine .found (le_refl _) ((below path d found).matched.mono ?_) ⟨rfl, old, reflects, le⟩
      rintro a _ ⟨rfl, h⟩
      exact reflects a h

/-- **The definitions of a source have identities that were given out before.** -/
theorem below_compile (options : CompileOptions) {table : List (String × Shared Definitions)}
    (source : Source) {i : ImportState} (below : ∀ path definitions,
      definitionsIn table path = some definitions → definitions.value.Below i.supply.fresh) :
    (compile options (tableResolver table) source i).1.definitions.value.Below
      (compile options (tableResolver table) source i).2.supply.fresh := by
  have joined : (Harmony.ofTable below).joint (fun a b => a = b ∧ a < i.supply.fresh) i i :=
    ⟨rfl, le_refl _, fun a h => ⟨rfl, h⟩, fun a b h => h⟩
  obtain ⟨forgives, -⟩ | ⟨R', -, agrees⟩ := (Harmony.ofTable below).compile options source joined
  · exact forgives.elim
  intro entry mem
  obtain ⟨other, paired⟩ := agrees.definitions.macros.exists_paired mem
  exact (agrees.imports.2.2.2 _ _ paired.1).2

end TreeLang
