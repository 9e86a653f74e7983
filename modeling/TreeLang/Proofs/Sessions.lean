import Mathlib.Data.Finset.Card
import Mathlib.Data.List.Perm.Subperm
import Mathlib.Logic.Relation
import TreeLang.Proofs.Shelving

/-!
# Calls of one resolver, one after the other

A resolver that loads on demand remembers what it compiled, and refuses what is being compiled.  So
the answer to a call might depend on the calls before it, on how deep it is nested, and on where a
circle of imports was entered.  It does not.  The sources that a loader finds fall in two: those of
a largest clean library, which are delivered in every order, and the others, which fail in every
order and with the same number of errors.

* `Full` — a clean library to which no source can be added.
* `referee` — a resolver that answers as on-demand imports do, without compiling.
* `verdict` — what comes of a path.
* **`refused`** — on demand, a source outside the library fails.
* `Orderly` — the states of imports between outermost calls.
* `Uses` — a source asks for a path.
* **`resolve_independent_of_history`** — the answers of a resolver, whatever it was asked before.
-/

namespace TreeLang

variable {options : CompileOptions} {loader : Loader} {library earlier : Library} {path : String}
  {source : Source} {known : List String} {T R : Pairing} {i j : ImportState}

/-! ## Full libraries -/

/-- **No source can be added to a library**: those outside do not compile with it. -/
def Full (options : CompileOptions) (loader : Loader) (library : Library) : Prop :=
  ∀ path source, loader path = .source source → path ∉ library.map Prod.fst →
    (compile options (tableResolver (shelf options library).1) source
      (shelf options library).2).1.errorCount ≠ 0

/-- Finitely many paths have a source. -/
def Covers (known : List String) (loader : Loader) : Prop :=
  ∀ path source, loader path = .source source → path ∈ known

namespace Clean

lemma nodup (clean : Clean options loader library) : (library.map Prod.fst).Nodup := by
  induction clean with
  | nil => exact .nil
  | cons _ new _ _ ih => exact List.nodup_cons.mpr ⟨new, ih⟩

lemma found_of_mem (clean : Clean options loader library) (mem : path ∈ library.map Prod.fst) :
    ∃ source, loader path = .source source := by
  induction clean with
  | nil => cases mem
  | cons _ _ found _ ih =>
    obtain rfl | mem := List.mem_cons.mp mem
    · exact ⟨_, found⟩
    · exact ih mem

lemma length_le (clean : Clean options loader library) (covers : Covers known loader) :
    library.length ≤ known.length := by
  have subset : library.map Prod.fst ⊆ known := fun path mem => by
    obtain ⟨source, found⟩ := clean.found_of_mem mem
    exact covers path source found
  simpa using (clean.nodup.subperm subset).length_le

/-- Every clean library can be filled. -/
theorem exists_full (clean : Clean options loader library) (covers : Covers known loader) :
    ∃ larger, Clean options loader larger ∧ Full options loader larger := by
  induction left : known.length - library.length using Nat.strongRecOn generalizing library with
  | ind left ih =>
    by_cases full : Full options loader library
    · exact ⟨library, clean, full⟩
    · simp only [Full, not_forall, not_not] at full
      obtain ⟨path, source, found, new, success⟩ := full
      have larger : Clean options loader ((path, source) :: library) :=
        .cons clean new found success
      have bounded := larger.length_le covers
      rw [List.length_cons] at bounded
      exact ih _ (by rw [List.length_cons]; omega) larger rfl

end Clean

/-! ## What comes of a path -/

/-- A resolver that answers from a library, and as the loader does where it finds no source. -/
def referee (options : CompileOptions) (loader : Loader) (library : Library) : Resolver := fun path =>
  match shelved options library path with
  | some definitions => return .ok definitions
  | none =>
    match loader path with
    | .failure failure => return .error failure
    | .fault message => throw (.loader message)
    | .source _ => return .error (.cycle path)

lemma answers_referee (library : Library) :
    Answers options library (referee options loader library) where
  found path c i known := by
    rw [referee, known]
    rfl
  missing path i unknown d j := by
    rw [referee, unknown]
    cases loader path <;> exact fun same => by cases same

/-- How many errors a source has that is not in the library. -/
def errorsOutside (options : CompileOptions) (loader : Loader) (library : Library)
    (source : Source) : Nat :=
  (compile options (referee options loader library) source (shelf options library).2).1.errorCount

/-- Two resolvers that answer from one library are in harmony where there are no errors. -/
def Harmony.ofAnswers {first second : Resolver} (answers : Answers options library first)
    (answers' : Answers options library second) : Harmony first second where
  forgiving := True
  told := Eq
  joint R i j := i = j ∧ R ≤ Eq
  told_refl _ := rfl
  oneToOne := fun ⟨_, le⟩ => Pairing.oneToOne_of_le_eq le
  share := by
    rintro R i _ ⟨rfl, le⟩
    refine ⟨rfl, ?_⟩
    rintro a b (h | ⟨rfl, rfl⟩)
    · exact le _ _ h
    · rfl
  resolve := by
    rintro R i _ ⟨rfl, le⟩ path
    cases known : shelved options library path with
    | none => exact .missing trivial (answers.missing path i known)
    | some c =>
      rw [answers.found path c i known, answers'.found path c i known]
      exact .found le (.refl c.value) ⟨rfl, le_refl _⟩

/-- A source outside a full library has errors. -/
lemma errorsOutside_ne_zero (full : Full options loader library) (found : loader path = .source source)
    (outside : path ∉ library.map Prod.fst) : errorsOutside options loader library source ≠ 0 := by
  have answers : Answers options library (referee options loader library) := answers_referee library
  let harmony := Harmony.ofAnswers answers (answers_table library)
  have joined : harmony.joint .empty (shelf options library).2 (shelf options library).2 :=
    ⟨rfl, fun _ _ => False.elim⟩
  obtain ⟨-, fails⟩ | ⟨R, -, agrees⟩ := harmony.compile options source joined
  · exact fails
  · rw [errorsOutside, errorCount_eq (fun _ _ same => congrArg _ same) agrees.reports]
    exact full path source found outside

/-- What can be seen of an answer: everything but identities. -/
def shown : Answer → Except Fault (Except ImportFailure (List MacroDefinition × OperatorRegistry))
  | .ok (.ok definitions) _ =>
    .ok (.ok (definitions.value.macros.values, definitions.value.operators))
  | .ok (.error failure) _ => .ok (.error failure)
  | .error fault _ => .error fault

/-- **What comes of a path**, in any order of calls. -/
def verdict (options : CompileOptions) (loader : Loader) (library : Library) (path : String) :
    Except Fault (Except ImportFailure (List MacroDefinition × OperatorRegistry)) :=
  match shelved options library path with
  | some definitions => .ok (.ok (definitions.value.macros.values, definitions.value.operators))
  | none =>
    match loader path with
    | .failure failure => .ok (.error failure)
    | .fault message => .error (.loader message)
    | .source source => .ok (.error (.failed path (errorsOutside options loader library source)))

/-! ## Sources outside the library -/

/-- A state of imports that a library and a loader explain: only sources of the library are
remembered, and only sources outside it are being compiled. -/
structure Explained (options : CompileOptions) (loader : Loader) (library : Library) (T : Pairing)
    (j : ImportState) : Prop where
  sound : Sound options library T j
  remembered : ∀ path d, j.definitionsOf path = some d → path ∈ library.map Prod.fst
  outside : ∀ path ∈ j.active, path ∉ library.map Prod.fst
  sources : ∀ path ∈ j.active, ∃ source, loader path = .source source

/-- How many of the known paths are not being compiled. -/
def room (known : List String) (j : ImportState) : Nat :=
  (known.toFinset \ j.active.toFinset).card

namespace Explained

lemma grow {T' : Pairing} {j' : ImportState} (explained : Explained options loader library T j)
    (grown : Grown options library T j T' j') (evolved : j.Evolved j') :
    Explained options loader library T' j' where
  sound := grown.sound
  remembered path d h := by
    cases before : j.definitionsOf path with
    | some d => exact explained.remembered path d before
    | none => exact grown.compiled path before ⟨d, h⟩
  outside path going := explained.outside path (evolved.active ▸ going)
  sources path going := explained.sources path (evolved.active ▸ going)

lemma unknown (explained : Explained options loader library T j)
    (outside : path ∉ library.map Prod.fst) : j.definitionsOf path = none := by
  cases h : j.definitionsOf path with
  | none => rfl
  | some d => exact absurd (explained.remembered path d h) outside

/-- The library fits into the room that is left. -/
lemma length_le_room (clean : Clean options loader library) (covers : Covers known loader)
    (explained : Explained options loader library T j) : library.length ≤ room known j := by
  have subset : (library.map Prod.fst).toFinset ⊆ known.toFinset \ j.active.toFinset := by
    intro path mem
    rw [List.mem_toFinset] at mem
    obtain ⟨source, found⟩ := clean.found_of_mem mem
    rw [Finset.mem_sdiff, List.mem_toFinset, List.mem_toFinset]
    exact ⟨covers path source found, fun going => explained.outside path going mem⟩
  have card := Finset.card_le_card subset
  rwa [List.toFinset_card_of_nodup clean.nodup, List.length_map] at card

end Explained

namespace Explained

lemma asked (explained : Explained options loader library T j) (path : String) :
    Explained options loader library T (j.asked path) where
  sound := explained.sound.change (le_refl _) rfl fun _ going => .inr going
  remembered := explained.remembered
  outside := explained.outside
  sources := explained.sources

lemma enter (explained : Explained options loader library T j) (found : loader path = .source source)
    (outside : path ∉ library.map Prod.fst) : Explained options loader library T (j.enter path) where
  sound := explained.sound.change (le_refl _) rfl fun _ going => .inr (List.mem_cons_of_mem _ going)
  remembered := explained.remembered
  outside other going := by
    obtain rfl | going := List.mem_cons.mp going
    · exact outside
    · exact explained.outside other going
  sources other going := by
    obtain rfl | going := List.mem_cons.mp going
    · exact ⟨source, found⟩
    · exact explained.sources other going

lemma below (explained : Explained options loader library T j) (limit : Nat)
    (large : shelfEnd options library ≤ limit) :
    Explained options loader library (T.below limit) j where
  sound :=
    { oneToOne := ⟨fun _ _ _ h h' => explained.sound.oneToOne.rightUnique h.1 h'.1,
        fun _ _ _ h h' => explained.sound.oneToOne.leftUnique h.1 h'.1⟩
      given := fun a b h => explained.sound.given a b h.1
      free := fun path a b owned h => explained.sound.free path a b owned h.1
      matched := fun path c d shelved known =>
        (explained.sound.matched path c d shelved known).below fun entry mem =>
          (below_shelved shelved entry mem).trans_le large }
  remembered := explained.remembered
  outside := explained.outside
  sources := explained.sources

end Explained

/-- A path that is compiled takes room. -/
lemma room_enter (covers : Covers known loader) (found : loader path = .source source)
    (inactive : path ∉ j.active) : room known ((j.asked path).enter path) < room known j := by
  refine Finset.card_lt_card (Finset.ssubset_iff_subset_ne.mpr ⟨?_, fun same => ?_⟩)
  · refine Finset.sdiff_subset_sdiff (Finset.Subset.refl _) fun other mem => ?_
    rw [List.mem_toFinset] at mem ⊢
    exact List.mem_cons_of_mem _ mem
  · have mem : path ∈ known.toFinset \ j.active.toFinset := by
      rw [Finset.mem_sdiff, List.mem_toFinset, List.mem_toFinset]
      exact ⟨covers path source found, inactive⟩
    rw [← same, Finset.mem_sdiff, List.mem_toFinset, List.mem_toFinset] at mem
    exact mem.2 List.mem_cons_self

/-- Two reports as serious as each other. -/
def AsSerious (first second : Report) : Prop := first.severity = second.severity

lemma Against.explained {start : ImportState} (against : Against options library T start R i j)
    (entered : Explained options loader library T start) :
    Explained options loader library R j where
  sound := against.sound
  remembered path d h := by
    cases before : start.definitionsOf path with
    | some d => exact entered.remembered path d before
    | none => exact against.compiled path before ⟨d, h⟩
  outside path going := entered.outside path (against.evolved.active ▸ going)
  sources path going := entered.sources path (against.evolved.active ▸ going)

/-- What a failing compilation on demand leaves behind. -/
lemma Against.grown {start : ImportState}
    (against : Against options library (T.below (shelfEnd options library)) start R i j)
    (sound : Sound options library T start) :
    Grown options library T start (T.join (R.below (shelfEnd options library))) j where
  le := fun _ _ => .inl
  sound :=
    { oneToOne := by
        have one : (R.below (shelfEnd options library)).OneToOne :=
          ⟨fun _ _ _ h h' => against.sound.oneToOne.rightUnique h.1 h'.1,
            fun _ _ _ h h' => against.sound.oneToOne.leftUnique h.1 h'.1⟩
        refine sound.oneToOne.join one (fun a b c known h => ?_) fun a b c known h => ?_
        · exact ⟨against.le _ _ ⟨known, h.2⟩, h.2⟩
        · exact (against.new b c h.1 (sound.given a c known)).1
      given := by
        rintro a b (h | h)
        · exact (sound.given a b h).trans_le against.evolved.fresh
        · exact against.sound.given a b h.1
      free := by
        rintro path a b owned (h | h)
        · obtain ⟨found, known⟩ | going := sound.free path a b owned h
          · exact .inl ⟨found, against.evolved.remembered _ _ known⟩
          · exact .inr (against.evolved.active ▸ going)
        · exact against.sound.free path a b owned h.1
      matched := fun path c d shelved known =>
        ((against.sound.matched path c d shelved known).below (below_shelved shelved)).mono
          fun _ _ => .inr }
  new := by
    rintro a b (h | h)
    · exact .inl h
    · obtain lt | ge := Nat.lt_or_ge b start.supply.fresh
      · exact .inl (against.new a b h.1 lt).1
      · exact .inr ⟨h.2, ge⟩
  compiled := against.compiled

/-- **On demand, a source outside a full library fails**, with the same number of errors whatever
was imported before and whatever is being compiled. -/
theorem refused (clean : Clean options loader library) (full : Full options loader library)
    (covers : Covers known loader) {depth : Nat} (explained : Explained options loader library T j)
    (roomy : room known j < depth) (found : loader path = .source source)
    (outside : path ∉ library.map Prod.fst) (inactive : path ∉ j.active) :
    ∃ j' T', loadingResolver options loader depth path j
        = .ok (.error (.failed path (errorsOutside options loader library source))) j' ∧
      Grown options library T j T' j' := by
  induction depth generalizing T j path source with
  | zero => exact absurd roomy (Nat.not_lt_zero _)
  | succ depth ih =>
    let start := (j.asked path).enter path
    have less : room known start < room known j := room_enter covers found inactive
    have within : room known start < depth := by omega
    have entered : Explained options loader library T start :=
      (explained.asked path).enter found outside
    have begun := entered.below _ (le_refl (shelfEnd options library))
    have fits := entered.length_le_room clean covers
    have others {R : Pairing} {i k : ImportState}
        (against : Against options library (T.below (shelfEnd options library)) start R i k)
        (other : String) (unlisted : shelved options library other = none) :
        Answered False AsSerious
          (Against options library (T.below (shelfEnd options library)) start) R
          (referee options loader library other i) (loadingResolver options loader depth other k) := by
      have absent := not_mem_of_shelved unlisted
      have explained := against.explained begun
      have unknown := explained.unknown absent
      have same : room known k = room known start := by rw [room, room, against.evolved.active]
      rw [referee, unlisted]
      by_cases going : other ∈ k.active
      · obtain ⟨source, found⟩ := explained.sources other going
        obtain ⟨depth, rfl⟩ : ∃ n, depth = n + 1 := ⟨depth - 1, by omega⟩
        rw [found, loadingResolver_of_active unknown depth going]
        exact .unresolved (le_refl _) (fun _ _ => rfl) against
      cases found' : loader other with
      | failure failure =>
        obtain ⟨depth, rfl⟩ : ∃ n, depth = n + 1 := ⟨depth - 1, by omega⟩
        rw [loadingResolver_of_failure unknown going depth found']
        exact .unresolved (le_refl _) (fun _ _ => rfl) (against.asked other)
      | fault message =>
        obtain ⟨depth, rfl⟩ : ∃ n, depth = n + 1 := ⟨depth - 1, by omega⟩
        rw [loadingResolver_of_fault unknown going depth found']
        exact .fault (le_refl _) _ (against.asked other)
      | source source =>
        obtain ⟨k', R', answer, grown⟩ := ih explained (by omega) found' absent going
        have evolved := evolved_loadingResolver options loader depth other k
        rw [answer] at evolved ⊢
        exact .unresolved grown.le (fun _ _ => rfl) (against.grow grown evolved)
    let harmony := againstShelf (T.below (shelfEnd options library)) start False AsSerious
      (fun _ => rfl) (answers_referee library)
      (fun sound evolved other c shelved => delivers clean (by omega) sound
        (fun other mem going => entered.outside other (evolved.active ▸ going) mem) shelved) others
    have joined : harmony.joint (T.below (shelfEnd options library)) (shelf options library).2 start :=
      .begin_ begun.sound (le_refl _) fun _ _ h => h.2
    obtain ⟨impossible, -⟩ | ⟨R, -, agrees⟩ := harmony.compile options source joined
    · exact impossible.elim
    set result := compile options (loadingResolver options loader depth) source start with hresult
    have against : Against options library (T.below (shelfEnd options library)) start R _ result.2 :=
      agrees.imports
    have errors : result.1.errorCount = errorsOutside options loader library source :=
      (errorCount_eq (fun _ _ same => by rw [Report.isError, Report.isError, same])
        agrees.reports).symm
    have fails := errorsOutside_ne_zero full found outside
    have answer : loadingResolver options loader (depth + 1) path j
        = .ok (.error (.failed path (errorsOutside options loader library source)))
          (result.2.leave path) := by
      rw [loadingResolver_of_source (explained.unknown outside) inactive depth found, concludeImport,
        ← hresult, errors, if_neg fails]
    have grown := against.grown entered.sound
    exact ⟨_, _, answer, grown.le, grown.sound.leave outside, grown.new, grown.compiled⟩

/-! ## Outermost calls -/

/-- **The states of imports between outermost calls.** -/
def Orderly (options : CompileOptions) (loader : Loader) (library : Library) (j : ImportState) :
    Prop :=
  ∃ T, Explained options loader library T j ∧ j.active = []

lemma orderly_initial (library : Library) : Orderly options loader library {} :=
  ⟨.empty, ⟨.empty library rfl, fun _ _ known => (Option.some_ne_none _ known.symm).elim,
    fun _ going => (List.not_mem_nil going).elim, fun _ going => (List.not_mem_nil going).elim⟩, rfl⟩

lemma room_le (j : ImportState) : room known j ≤ known.length :=
  (Finset.card_le_card Finset.sdiff_subset).trans known.toFinset_card_le

/-- **An outermost call comes to the verdict on its path**, and leaves an orderly state. -/
theorem call_orderly (clean : Clean options loader library) (full : Full options loader library)
    (covers : Covers known loader) {depth : Nat} (deep : known.length < depth)
    (orderly : Orderly options loader library j) (path : String) :
    shown (loadingResolver options loader depth path j) = verdict options loader library path ∧
      Orderly options loader library (importsOf (loadingResolver options loader depth path j)) := by
  obtain ⟨T, explained, idle⟩ := orderly
  have inactive : path ∉ j.active := idle ▸ List.not_mem_nil
  have evolved := evolved_loadingResolver options loader depth path j
  have onward {T' : Pairing} {j' : ImportState} (grown : Grown options library T j T' j')
      (evolved : j.Evolved j') : Orderly options loader library j' :=
    ⟨T', explained.grow grown evolved, evolved.active.trans idle⟩
  have asked : Grown options library T j T (j.asked path) :=
    ⟨le_refl _, (explained.asked path).sound, fun _ _ h => .inl h,
      fun _ unknown ⟨_, known⟩ => by cases unknown.symm.trans known⟩
  rw [verdict]
  cases shelved : shelved options library path with
  | some c =>
    have fits := clean.length_le covers
    obtain ⟨d, j', T', answer, matched, grown⟩ := delivers clean (fits.trans deep.le) explained.sound
      (fun _ _ => idle ▸ List.not_mem_nil) shelved
    rw [answer] at evolved ⊢
    refine ⟨?_, onward grown evolved⟩
    rw [shown, ← matched.macros.values_eq, ← matched.operators]
  | none =>
    have outside := not_mem_of_shelved shelved
    cases found : loader path with
    | source source =>
      obtain ⟨j', T', answer, grown⟩ := refused clean full covers explained
        ((room_le j).trans_lt deep) found outside inactive
      rw [answer] at evolved ⊢
      exact ⟨rfl, onward grown evolved⟩
    | failure failure =>
      obtain ⟨depth, rfl⟩ : ∃ n, depth = n + 1 := ⟨depth - 1, by omega⟩
      rw [loadingResolver_of_failure (explained.unknown outside) inactive depth found]
      exact ⟨rfl, onward asked (.asked j path)⟩
    | fault message =>
      obtain ⟨depth, rfl⟩ : ∃ n, depth = n + 1 := ⟨depth - 1, by omega⟩
      rw [loadingResolver_of_fault (explained.unknown outside) inactive depth found]
      exact ⟨rfl, onward asked (.asked j path)⟩

/-- The state of imports after some calls of one resolver. -/
def session (resolver : Resolver) (history : List String) (imports : ImportState) : ImportState :=
  history.foldl (fun imports path => importsOf (resolver path imports)) imports

/-- Any number of outermost calls leave an orderly state. -/
theorem orderly_session (clean : Clean options loader library) (full : Full options loader library)
    (covers : Covers known loader) {depth : Nat} (deep : known.length < depth) (history : List String)
    (orderly : Orderly options loader library j) :
    Orderly options loader library (session (loadingResolver options loader depth) history j) := by
  induction history generalizing j with
  | nil => exact orderly
  | cons path history ih => exact ih (call_orderly clean full covers deep orderly path).2

/-! ## Circles -/

/-- A resolver, with a record of the paths it is asked for, but not of those that it asks for while
it answers. -/
def watching (resolver : Resolver) : Resolver := fun path imports =>
  match resolver path imports with
  | .ok answer j => .ok answer { j with loaded := imports.loaded ++ [path] }
  | .error fault j => .error fault { j with loaded := imports.loaded ++ [path] }

/-- **A source asks for a path** while it is the only one that is being compiled. -/
def Uses (options : CompileOptions) (loader : Loader) (depth : Nat) (importer imported : String) :
    Prop :=
  ∃ source, loader importer = .source source ∧
    imported ∈ (compile options (watching (loadingResolver options loader depth)) source
      { active := [importer] }).2.loaded

/-- While the first resolver answers, the second one is asked for nothing else. -/
def Harmony.watched {first second : Resolver} (harmony : Harmony first second)
    (good : String → Prop)
    (answered : ∀ path i d i', first path i = .ok (.ok d) i' → good path)
    (loose : ∀ {R i j} loaded, harmony.joint R i j → harmony.joint R i { j with loaded := loaded }) :
    Harmony first (watching second) where
  forgiving := True
  told := harmony.told
  joint R i j := harmony.joint R i j ∧ ∀ path ∈ j.loaded, good path
  told_refl := harmony.told_refl
  oneToOne h := harmony.oneToOne h.1
  share h := ⟨harmony.share h.1, h.2⟩
  resolve := by
    rintro R i j ⟨joined, only⟩ path
    have answers := harmony.resolve joined path
    have asked := answered path i
    rw [watching]
    generalize first path i = p at answers asked
    generalize second path j = q at answers
    cases answers with
    | found le matched joined =>
      refine .found le matched ⟨loose _ joined, fun other mem => ?_⟩
      obtain mem | mem := List.mem_append.mp mem
      · exact only other mem
      · exact List.mem_singleton.mp mem ▸ asked _ _ rfl
    | missing _ none => exact .missing trivial none
    | unresolved => exact .missing trivial fun _ _ same => by cases same
    | fault => exact .missing trivial fun _ _ same => by cases same

/-- A source of a clean library asks for earlier ones only. -/
lemma uses_earlier (clean : Clean options loader ((path, source) :: earlier)) {depth : Nat}
    (deep : earlier.length ≤ depth) {other : String} (uses : Uses options loader depth path other) :
    other ∈ earlier.map Prod.fst := by
  cases clean with
  | cons clean new found success =>
    obtain ⟨own, found', asked⟩ := uses
    cases found.symm.trans found'
    let start : ImportState := { active := [path] }
    have answers : Answers options earlier (tableResolver (shelf options earlier).1) :=
      answers_table earlier
    let harmony := againstShelf .empty start True Eq (fun _ => rfl) answers
      (fun sound evolved _ _ known => delivers clean deep sound (fun other mem going => by
        rw [evolved.active] at going
        exact new (List.mem_singleton.mp going ▸ mem)) known)
      fun _ other unknown => .missing trivial fun d i => answers.missing other _ unknown d i
    let watched := harmony.watched (· ∈ earlier.map Prod.fst)
      (fun other i d i' answer => by
        cases known : shelved options earlier other with
        | some c => exact mem_of_shelved known
        | none => exact absurd answer (answers.missing other i known d i'))
      fun loaded against => ⟨against.sound.change (le_refl _) rfl fun _ going => .inr going,
        against.old, against.taken, against.le, against.new, against.compiled,
        ⟨against.evolved.active, against.evolved.remembered, against.evolved.fresh⟩⟩
    have joined : watched.joint .empty (shelf options earlier).2 start :=
      ⟨.begin_ (.empty earlier rfl) (le_refl _) fun _ _ h => h.elim, fun _ mem => by cases mem⟩
    obtain ⟨-, fails⟩ | ⟨R, -, agrees⟩ := watched.compile options source joined
    · exact absurd success fails
    · exact agrees.imports.2 other asked

/-- A source of a clean library asks for others of it only. -/
lemma uses_closed (clean : Clean options loader library) {depth : Nat}
    (deep : library.length ≤ depth) {other : String} (mem : path ∈ library.map Prod.fst)
    (uses : Uses options loader depth path other) : other ∈ library.map Prod.fst := by
  induction clean with
  | nil => cases mem
  | @cons own source earlier clean new found success ih =>
    have deep' : earlier.length ≤ depth := Nat.le_of_succ_le deep
    obtain rfl | mem := List.mem_cons.mp mem
    · exact List.mem_cons_of_mem _ (uses_earlier (.cons clean new found success) deep' uses)
    · exact List.mem_cons_of_mem _ (ih deep' mem)

lemma uses_closed_chain (clean : Clean options loader library) {depth : Nat}
    (deep : library.length ≤ depth) {other : String} (mem : path ∈ library.map Prod.fst)
    (chain : Relation.ReflTransGen (Uses options loader depth) path other) :
    other ∈ library.map Prod.fst := by
  induction chain with
  | refl => exact mem
  | tail _ uses within => exact uses_closed clean deep within uses

/-- **In a clean library there is no circle.** -/
theorem not_circle (clean : Clean options loader library) {depth : Nat}
    (deep : library.length ≤ depth) (mem : path ∈ library.map Prod.fst) :
    ¬ Relation.TransGen (Uses options loader depth) path path := by
  induction clean with
  | nil => cases mem
  | @cons own source earlier clean new found success ih =>
    have deep' : earlier.length ≤ depth := Nat.le_of_succ_le deep
    obtain rfl | mem := List.mem_cons.mp mem
    · intro circle
      obtain ⟨next, uses, back⟩ := Relation.TransGen.head'_iff.mp circle
      have within := uses_earlier (.cons clean new found success) deep' uses
      exact new (uses_closed_chain clean deep' within back)
    · exact ih deep' mem

/-! ## Whatever was asked before -/

/-- Paths with what the loader finds there: a source, or its own breakdown with a message unless it
has none to give. -/
abbrev ImportTable := List (String × Except (Option String) Source)

/-- The loader of a table; of several entries of one path the first counts. -/
def tableLoader (table : ImportTable) : Loader := fun path =>
  match table.find? fun entry => entry.1 = path with
  | some (_, .ok source) => .source source
  | some (_, .error message) => .fault message
  | none => .failure (.notFound path)

lemma covers_table (table : ImportTable) : Covers (table.map Prod.fst) (tableLoader table) := by
  intro path source found
  rw [tableLoader] at found
  cases entry : table.find? fun entry => entry.1 = path with
  | none =>
    rw [entry] at found
    cases found
  | some known =>
    have same := List.find?_some entry
    exact List.mem_map.mpr ⟨known, List.mem_of_find?_eq_some entry, by simpa using same⟩

/-- **What can happen to the state of imports**: an identity is taken, the loader is asked for a path,
a path is compiled or is not any more, the definitions behind a path are remembered that was not
known, or the resolver is called, at any depth. -/
inductive ImportState.Event (options : CompileOptions) (loader : Loader) :
    ImportState → ImportState → Prop where
  | share (i : ImportState) : Event options loader i i.shared
  | ask (i : ImportState) (path : String) : Event options loader i (i.asked path)
  | enter (i : ImportState) (path : String) : Event options loader i (i.enter path)
  | leave (i : ImportState) (path : String) : Event options loader i (i.leave path)
  | remember (i : ImportState) (path : String) (definitions : Shared Definitions)
      (unknown : i.definitionsOf path = none) :
    Event options loader i (i.remember path definitions)
  | call (i : ImportState) (depth : Nat) (path : String) :
    Event options loader i (importsOf (loadingResolver options loader depth path i))

/-- What happened later. -/
abbrev ImportState.Later (options : CompileOptions) (loader : Loader) :=
  Relation.ReflTransGen (ImportState.Event options loader)

/-- A compilation is made of events. -/
lemma later_compile (depth : Nat) (source : Source) (i : ImportState) :
    i.Later options loader (compile options (loadingResolver options loader depth) source i).2 :=
  compile_evolves ⟨fun _ => .refl, .trans, fun i => .single (.share i),
    fun path i => .single (.call i depth path)⟩ options source i

/-- What is remembered stays so. -/
lemma remembered_later {d : Shared Definitions} (later : i.Later options loader j)
    (known : i.definitionsOf path = some d) : j.definitionsOf path = some d := by
  induction later with
  | refl => exact known
  | tail _ event before =>
    cases event with
    | share => exact before
    | ask => exact before
    | enter => exact before
    | leave => exact before
    | remember other found unknown =>
      exact (ImportState.Evolved.remember unknown (.refl _) found).remembered path d before
    | call depth other =>
      exact (evolved_loadingResolver options loader depth other _).remembered path d before

/-- A call that succeeds is remembered. -/
lemma remembered_of_found {depth : Nat} {d : Shared Definitions}
    (answer : loadingResolver options loader depth path i = .ok (.ok d) j) :
    j.definitionsOf path = some d := by
  cases depth with
  | zero => cases answer
  | succ depth =>
    rw [loadingResolver_succ] at answer
    cases known : i.definitionsOf path with
    | some found =>
      rw [known] at answer
      cases answer
      exact known
    | none =>
      rw [known] at answer
      dsimp only at answer
      split at answer
      · cases answer
      cases found : loader path with
      | failure failure =>
        rw [found] at answer
        cases answer
      | fault message =>
        rw [found] at answer
        cases answer
      | source source =>
        rw [found] at answer
        dsimp only at answer
        rw [concludeImport] at answer
        split at answer
        · cases answer
          exact definitionsIn_cons_self path _ _
        · cases answer

/-- The resolver of a table, in which imports may nest as deep as the table has paths and `more`. -/
def tableResolverOnDemand (options : CompileOptions) (table : ImportTable) (more : Nat) : Resolver :=
  loadingResolver options (tableLoader table) (table.length + more + 1)

/-- **The calls of one resolver, whatever they were before.** -/
structure HistoryFree (options : CompileOptions) (table : ImportTable) : Prop where
  /-- A call comes to what it comes to on a fresh resolver. -/
  answer : ∀ (more more' : Nat) (history : List String) (path : String),
    let resolver := tableResolverOnDemand options table more
    shown (resolver path (session resolver history {}))
      = shown (tableResolverOnDemand options table more' path {})
  /-- An outermost call ends with definitions, because there is nothing behind the path, because
  the source has errors, or with a fault of the loader; never because of a circle. -/
  ends : ∀ (more : Nat) (history : List String) (path : String),
    let resolver := tableResolverOnDemand options table more
    let answer := shown (resolver path (session resolver history {}))
    (∃ definitions, answer = .ok (.ok definitions)) ∨ answer = .ok (.error (.notFound path)) ∨
      (∃ errors, errors ≠ 0 ∧ answer = .ok (.error (.failed path errors))) ∨
      ∃ message, answer = .error (.loader message)
  /-- A path that reaches itself through imports has errors. -/
  circle : ∀ (more : Nat) (history : List String) (path : String),
    Relation.TransGen (Uses options (tableLoader table) (table.length + more)) path path →
    let resolver := tableResolverOnDemand options table more
    ∃ errors, errors ≠ 0 ∧
      shown (resolver path (session resolver history {})) = .ok (.error (.failed path errors))
  /-- What happens during a compilation is of the sort that is meant by events. -/
  made : ∀ (depth : Nat) (source : Source) (i : ImportState), i.Later options (tableLoader table)
    (compile options (loadingResolver options (tableLoader table) depth) source i).2
  /-- Once a call succeeded, at any depth and whatever was being compiled, every later call for the
  path has the same definitions and does not ask the loader. -/
  remembered : ∀ (depth : Nat) (path : String) (i j : ImportState) (definitions : Shared Definitions),
    loadingResolver options (tableLoader table) depth path i = .ok (.ok definitions) j →
    ∀ k, j.Later options (tableLoader table) k → ∀ depth',
      loadingResolver options (tableLoader table) (depth' + 1) path k = .ok (.ok definitions) k
  /-- After every outermost call nothing is being compiled. -/
  idle : ∀ (more : Nat) (history : List String),
    (session (tableResolverOnDemand options table more) history {}).active = []

/-- **Calls of one resolver do not depend on the calls before**, for every table and all options. -/
theorem resolve_historyFree (options : CompileOptions) (table : ImportTable) :
    HistoryFree options table := by
  have covers := covers_table table
  have start : Clean options (tableLoader table) [] := .nil
  obtain ⟨library, clean, full⟩ := start.exists_full covers
  have deep (more : Nat) : (table.map Prod.fst).length < table.length + more + 1 := by
    rw [List.length_map]
    omega
  have orderly (more : Nat) (history : List String) :
      Orderly options (tableLoader table) library
        (session (tableResolverOnDemand options table more) history {}) :=
    orderly_session clean full covers (deep more) history (orderly_initial library)
  have verdict (more : Nat) (history : List String) (path : String) :
      shown (tableResolverOnDemand options table more path
          (session (tableResolverOnDemand options table more) history {}))
        = verdict options (tableLoader table) library path :=
    (call_orderly clean full covers (deep more) (orderly more history) path).1
  refine ⟨fun more more' history path => ?_, fun more history path => ?_,
    fun more history path circle => ?_, later_compile,
    fun depth path i j d answer k later depth' => ?_, fun more history => ?_⟩
  · exact (verdict more history path).trans (verdict more' [] path).symm
  · dsimp only
    rw [verdict, TreeLang.verdict]
    cases shelved : shelved options library path with
    | some c => exact .inl ⟨_, rfl⟩
    | none =>
      have outside := not_mem_of_shelved shelved
      rw [tableLoader]
      cases entry : table.find? fun entry => entry.1 = path with
      | none => exact .inr (.inl rfl)
      | some known =>
        obtain ⟨_, message | source⟩ := known
        · exact .inr (.inr (.inr ⟨message, rfl⟩))
        · refine .inr (.inr (.inl ⟨_, errorsOutside_ne_zero full ?_ outside, rfl⟩))
          rw [tableLoader, entry]
  · have outside : path ∉ library.map Prod.fst := fun mem =>
      not_circle clean ((clean.length_le covers).trans (by simp)) mem circle
    obtain ⟨_, ⟨source, found, -⟩, -⟩ := Relation.TransGen.head'_iff.mp circle
    refine ⟨_, errorsOutside_ne_zero full found outside, ?_⟩
    rw [verdict, TreeLang.verdict, shelved_eq_none outside, found]
  · rw [loadingResolver_succ, remembered_later later (remembered_of_found answer)]
  · obtain ⟨_, -, idle⟩ := orderly more history
    exact idle

/-- Two sources that import each other, one that imports nothing, and a loader that gives way. -/
theorem resolve_historyFree_of_circle :
    let table : ImportTable := [("a", .ok ⟨"a", "use b"⟩), ("b", .ok ⟨"b", "use public a"⟩),
      ("c", .ok ⟨"c", "macro m: x"⟩), ("d", .error none)]
    let resolver := tableResolverOnDemand {} table 0
    Relation.TransGen (Uses {} (tableLoader table) (table.length + 0)) "a" "a" ∧
      (∃ errors, errors ≠ 0 ∧
        shown (resolver "a" (session resolver ["b", "d", "c"] {}))
          = .ok (.error (.failed "a" errors))) ∧
      ∃ definitions j, resolver "c" {} = .ok (.ok definitions) j ∧
        ∀ k, j.Later {} (tableLoader table) k → resolver "c" k = .ok (.ok definitions) k := by
  intro table resolver
  have free : HistoryFree {} table := resolve_historyFree {} table
  have uses : Uses {} (tableLoader table) (table.length + 0) "a" "b" :=
    ⟨⟨"a", "use b"⟩, rfl, by decide +kernel⟩
  have back : Uses {} (tableLoader table) (table.length + 0) "b" "a" :=
    ⟨⟨"b", "use public a"⟩, rfl, by decide +kernel⟩
  have circle := (Relation.TransGen.single uses).tail back
  have succeeds : ((shown (resolver "c" {})).toOption.bind Except.toOption).isSome = true := by
    decide +kernel
  refine ⟨circle, free.circle 0 _ _ circle, ?_⟩
  cases answer : resolver "c" {} with
  | ok outcome j =>
    cases outcome with
    | ok definitions =>
      exact ⟨definitions, j, rfl, fun k later => free.remembered _ _ _ _ _ answer k later _⟩
    | error failure =>
      rw [answer] at succeeds
      cases succeeds
  | error fault j =>
    rw [answer] at succeeds
    cases succeeds

end TreeLang
