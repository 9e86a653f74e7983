import TreeLang.Proofs.Evolving

/-!
# Imports on demand against a library

Sources that compile one after the other, each with the definitions of those before it, make a
library.  An import of one of them on demand comes to the same definitions, up to the identities,
whatever was imported before and in which order.  The library fixes which identities mean the same:
every source of it has a range of its own, and a pairing relates those of the sources that were
compiled on demand already.

* `shelf` — the definitions of a library, and the state of imports behind it.
* `Clean` — every source of a library compiles without an error.
* `Owned` — the identities that a source of the library took.
* **`Sound`** — a pairing says of the remembered definitions what the library says of them.
* `Grown` — how a pairing grows with the state of imports.
* `Reading against a shelf`: `againstShelf` — the harmony of a resolver that answers from the library
  and the one that loads on demand.
* **`delivers`** — on demand, a source of the library is delivered.
-/

namespace TreeLang

variable (options : CompileOptions) (loader : Loader)

/-! ## Libraries -/

/-- Sources in the order they are compiled in, the latest first. -/
abbrev Library := List (String × Source)

/-- **The definitions of a library**: each source is compiled with those of the earlier ones at
hand. -/
def shelf : Library → List (String × Shared Definitions) × ImportState
  | [] => ([], {})
  | (path, source) :: earlier =>
    let result := compile options (tableResolver (shelf earlier).1) source (shelf earlier).2
    ((path, result.1.definitions) :: (shelf earlier).1, result.2)

/-- What the library says of a path. -/
def shelved (library : Library) (path : String) : Option (Shared Definitions) :=
  definitionsIn (shelf options library).1 path

/-- The first identity that no source of the library took. -/
def shelfEnd (library : Library) : Nat :=
  (shelf options library).2.supply.fresh

/-- **Every source of the library is what the loader finds, and compiles without an error.** -/
inductive Clean : Library → Prop where
  | nil : Clean []
  | cons {path : String} {source : Source} {earlier : Library} (clean : Clean earlier)
      (new : path ∉ earlier.map Prod.fst) (found : loader path = .source source)
      (success : (compile options (tableResolver (shelf options earlier).1) source
        (shelf options earlier).2).1.errorCount = 0) : Clean ((path, source) :: earlier)

/-- The identities that a source of the library took. -/
def Owned : Library → String → Nat → Prop
  | [], _, _ => False
  | (path, source) :: earlier, other, a =>
    (other = path ∧ shelfEnd options earlier ≤ a ∧ a < shelfEnd options ((path, source) :: earlier))
      ∨ Owned earlier other a

variable {options loader} {library earlier : Library} {path other : String} {source : Source}
  {a b : Nat}

lemma shelfEnd_le_cons (entry : String × Source) (earlier : Library) :
    shelfEnd options earlier ≤ shelfEnd options (entry :: earlier) := by
  obtain ⟨n, le, taken⟩ := compile_table options (shelf options earlier).1 entry.2
    (shelf options earlier).2
  have state : (shelf options (entry :: earlier)).2
      = { (shelf options earlier).2 with supply := ⟨n⟩ } := taken
  rw [shelfEnd, shelfEnd, state]
  exact le

lemma shelved_cons_self : shelved options ((path, source) :: earlier) path
    = some (compile options (tableResolver (shelf options earlier).1) source
        (shelf options earlier).2).1.definitions :=
  definitionsIn_cons_self path _ _

lemma shelved_cons_ne (ne : other ≠ path) :
    shelved options ((path, source) :: earlier) other = shelved options earlier other :=
  definitionsIn_cons_ne ne _ _

lemma mem_of_shelved {found : Shared Definitions} (h : shelved options library path = some found) :
    path ∈ library.map Prod.fst := by
  induction library with
  | nil => cases h
  | cons entry earlier ih =>
    obtain ⟨first, source⟩ := entry
    by_cases same : path = first
    · exact same ▸ List.mem_cons_self
    · rw [shelved_cons_ne same] at h
      exact List.mem_cons_of_mem _ (ih h)

lemma shelved_of_mem (mem : path ∈ library.map Prod.fst) :
    ∃ found, shelved options library path = some found := by
  induction library with
  | nil => cases mem
  | cons entry earlier ih =>
    obtain ⟨first, source⟩ := entry
    by_cases same : path = first
    · subst same
      exact ⟨_, shelved_cons_self⟩
    · rw [shelved_cons_ne same]
      exact ih ((List.mem_cons.mp mem).resolve_left same)

lemma shelved_eq_none (outside : path ∉ library.map Prod.fst) :
    shelved options library path = none := by
  cases known : shelved options library path with
  | none => rfl
  | some c => exact absurd (mem_of_shelved known) outside

/-- Only what is outside has no definitions in the library. -/
lemma not_mem_of_shelved (unknown : shelved options library path = none) :
    path ∉ library.map Prod.fst := by
  intro mem
  obtain ⟨c, known⟩ : ∃ c, shelved options library path = some c := shelved_of_mem mem
  cases unknown.symm.trans known

/-- The definitions of a library have identities that its sources took. -/
lemma below_shelved {found : Shared Definitions} (h : shelved options library path = some found) :
    found.value.Below (shelfEnd options library) := by
  induction library generalizing path found with
  | nil => cases h
  | cons entry earlier ih =>
    obtain ⟨first, source⟩ := entry
    by_cases same : path = first
    · subst same
      rw [shelved_cons_self] at h
      cases h
      exact below_compile options source fun _ _ known => ih known
    · rw [shelved_cons_ne same] at h
      exact fun macro_ mem => (ih h macro_ mem).trans_le (shelfEnd_le_cons _ _)

lemma Owned.lt (owned : Owned options library path a) : a < shelfEnd options library := by
  induction library with
  | nil => exact owned.elim
  | cons entry earlier ih =>
    obtain ⟨-, -, lt⟩ | owned := owned
    · exact lt
    · exact (ih owned).trans_le (shelfEnd_le_cons _ _)

lemma Owned.mem (owned : Owned options library path a) : path ∈ library.map Prod.fst := by
  induction library with
  | nil => exact owned.elim
  | cons entry earlier ih =>
    obtain ⟨rfl, -⟩ | owned := owned
    · exact List.mem_cons_self
    · exact List.mem_cons_of_mem _ (ih owned)

/-! ## Sound pairings -/

/-- **A pairing relates the identities of the library to those of the definitions remembered.**  The
range of a source is not touched before it is compiled. -/
structure Sound (options : CompileOptions) (library : Library) (T : Pairing) (j : ImportState) :
    Prop where
  oneToOne : T.OneToOne
  given : ∀ a b, T a b → b < j.supply.fresh
  free : ∀ path a b, Owned options library path a → T a b →
    (∃ found, j.definitionsOf path = some found) ∨ path ∈ j.active
  matched : ∀ path c d, shelved options library path = some c → j.definitionsOf path = some d →
    c.value.Matched T d.value

/-- **How a pairing grows**: by identities that were given out since, and as sources of the library
are compiled. -/
structure Grown (options : CompileOptions) (library : Library) (T : Pairing) (j : ImportState)
    (T' : Pairing) (j' : ImportState) : Prop where
  le : T ≤ T'
  sound : Sound options library T' j'
  new : ∀ a b, T' a b → T a b ∨ (a < shelfEnd options library ∧ j.supply.fresh ≤ b)
  compiled : ∀ path, j.definitionsOf path = none → (∃ d, j'.definitionsOf path = some d) →
    path ∈ library.map Prod.fst

/-- The pairs of a pairing whose first identity is below a limit. -/
def Pairing.below (T : Pairing) (limit : Nat) : Pairing := fun a b => T a b ∧ a < limit

/-- The pairs of either of two pairings. -/
def Pairing.join (T R : Pairing) : Pairing := fun a b => T a b ∨ R a b

lemma Pairing.OneToOne.join {T R : Pairing} (one : T.OneToOne) (one' : R.OneToOne)
    (left : ∀ a b c, T a b → R a c → R a b) (right : ∀ a b c, T a c → R b c → T b c) :
    (T.join R).OneToOne where
  rightUnique := by
    rintro a b c (h | h) (h' | h')
    · exact one.rightUnique h h'
    · exact one'.rightUnique (left _ _ _ h h') h'
    · exact one'.rightUnique h (left _ _ _ h' h)
    · exact one'.rightUnique h h'
  leftUnique := by
    rintro a b c (h | h) (h' | h')
    · exact one.leftUnique h h'
    · exact one.leftUnique h (right _ _ _ h h')
    · exact one.leftUnique (right _ _ _ h' h) h'
    · exact one'.leftUnique h h'

lemma Definitions.Matched.below {R : Pairing} {c d : Definitions} {limit : Nat}
    (matched : c.Matched R d) (old : c.Below limit) : c.Matched (R.below limit) d where
  macros := matched.macros.change fun entry mem _ h => ⟨h, old entry mem⟩
  operators := matched.operators

namespace Sound

variable {T R : Pairing} {i j : ImportState}

/-- Before anything is remembered, nothing corresponds to anything. -/
lemma empty (library : Library) (forgotten : j.cache = []) : Sound options library .empty j where
  oneToOne := ⟨fun _ _ _ h => h.elim, fun _ _ _ h => h.elim⟩
  given _ _ h := h.elim
  free _ _ _ _ h := h.elim
  matched _ _ _ _ known := by
    rw [ImportState.definitionsOf, forgotten] at known
    cases known

/-- What holds of a library holds of its earlier part, where nothing later counts. -/
lemma restrict (sound : Sound options ((path, source) :: earlier) T j)
    (new : path ∉ earlier.map Prod.fst) :
    Sound options earlier (T.below (shelfEnd options earlier)) j where
  oneToOne :=
    ⟨fun _ _ _ h h' => sound.oneToOne.rightUnique h.1 h'.1,
      fun _ _ _ h h' => sound.oneToOne.leftUnique h.1 h'.1⟩
  given a b h := sound.given a b h.1
  free other a b owned h := sound.free other a b (.inr owned) h.1
  matched other c d shelved remembered := by
    have ne : other ≠ path := fun same => new (same ▸ mem_of_shelved shelved)
    exact (sound.matched other c d (by rwa [shelved_cons_ne ne]) remembered).below
      (below_shelved shelved)

/-- Other states with the same memory. -/
lemma change (sound : Sound options library T i) (given : i.supply.fresh ≤ j.supply.fresh)
    (memory : j.definitionsOf = i.definitionsOf)
    (active : ∀ path ∈ i.active, (∃ found, j.definitionsOf path = some found) ∨ path ∈ j.active) :
    Sound options library T j where
  oneToOne := sound.oneToOne
  given a b h := (sound.given a b h).trans_le given
  free path a b owned h := by
    obtain known | going := sound.free path a b owned h
    · exact .inl (memory ▸ known)
    · exact active path going
  matched path c d shelved remembered := by
    rw [memory] at remembered
    exact sound.matched path c d shelved remembered

end Sound

namespace Grown

variable {T T' : Pairing} {j j' : ImportState}

lemma refl (sound : Sound options library T j) : Grown options library T j T j where
  le := le_refl _
  sound := sound
  new _ _ h := .inl h
  compiled _ unknown := fun ⟨_, known⟩ => by rw [unknown] at known; cases known

end Grown

/-! ## A library beside a loader -/

/-- **A resolver answers from a library**, and for no other path. -/
structure Answers (options : CompileOptions) (library : Library) (resolver : Resolver) : Prop where
  found : ∀ path c i, shelved options library path = some c → resolver path i = .ok (.ok c) i
  missing : ∀ path i, shelved options library path = none →
    ∀ d j, resolver path i ≠ .ok (.ok d) j

/-- The table of a library answers from it. -/
lemma answers_table (library : Library) :
    Answers options library (tableResolver (shelf options library).1) where
  found path c i h := by
    have known : definitionsIn (shelf options library).1 path = some c := h
    rw [tableResolver_eq, known]
  missing path i h d j := by
    have unknown : definitionsIn (shelf options library).1 path = none := h
    rw [tableResolver_eq, unknown]
    intro same
    cases same

/-- What relates the states of imports while a source is compiled with a library on one side and on
demand on the other, since a pairing and a state at the beginning. -/
structure Against (options : CompileOptions) (library : Library) (T : Pairing) (start : ImportState)
    (R : Pairing) (i j : ImportState) : Prop where
  sound : Sound options library R j
  old : shelfEnd options library ≤ i.supply.fresh
  taken : ∀ a b, R a b → a < i.supply.fresh
  le : T ≤ R
  new : ∀ a b, R a b → b < start.supply.fresh → T a b
  compiled : ∀ path, start.definitionsOf path = none → (∃ d, j.definitionsOf path = some d) →
    path ∈ library.map Prod.fst
  evolved : start.Evolved j

namespace Against

variable {T R R' : Pairing} {start i j j' : ImportState}

/-- At the beginning. -/
lemma begin_ (sound : Sound options library T start)
    (old : shelfEnd options library ≤ i.supply.fresh) (taken : ∀ a b, T a b → a < i.supply.fresh) :
    Against options library T start T i start where
  sound := sound
  old := old
  taken := taken
  le := le_refl _
  new _ _ h _ := h
  compiled _ unknown := fun ⟨_, known⟩ => by rw [unknown] at known; cases known
  evolved := .refl _

/-- After an import on demand. -/
lemma grow (against : Against options library T start R i j)
    (grown : Grown options library R j R' j') (evolved : j.Evolved j') :
    Against options library T start R' i j' where
  sound := grown.sound
  old := against.old
  taken a b h := by
    obtain h | ⟨lt, -⟩ := grown.new a b h
    · exact against.taken a b h
    · exact lt.trans_le against.old
  le := against.le.trans grown.le
  new a b h lt := by
    obtain h | ⟨-, ge⟩ := grown.new a b h
    · exact against.new a b h lt
    · exact absurd (lt.trans_le (against.evolved.fresh.trans ge)) (lt_irrefl _)
  compiled path unknown known := by
    cases before : j.definitionsOf path with
    | some d => exact against.compiled path unknown ⟨d, before⟩
    | none => exact grown.compiled path before known
  evolved := against.evolved.trans evolved

lemma asked (against : Against options library T start R i j) (path : String) :
    Against options library T start R i (j.asked path) :=
  against.grow ⟨le_refl _, against.sound.change (le_refl _) rfl fun _ going => .inr going,
    fun _ _ h => .inl h, fun _ unknown ⟨_, known⟩ => by cases unknown.symm.trans known⟩ (.asked j path)

/-- After an identity was taken on both sides. -/
lemma share (against : Against options library T start R i j) :
    Against options library T start (R.insert i.supply.fresh j.supply.fresh) i.shared j.shared where
  sound :=
    { oneToOne := against.sound.oneToOne.insert
        (fun c h => lt_irrefl _ (against.taken _ c h))
        fun c h => lt_irrefl _ (against.sound.given c _ h)
      given := by
        rintro a b (h | ⟨rfl, rfl⟩)
        · exact Nat.lt_succ_of_lt (against.sound.given a b h)
        · exact Nat.lt_succ_self _
      free := by
        rintro path a b owned (h | ⟨rfl, rfl⟩)
        · exact against.sound.free path a b owned h
        · exact absurd (owned.lt.trans_le against.old) (lt_irrefl _)
      matched := fun path c d shelved remembered =>
        (against.sound.matched path c d shelved remembered).mono (Pairing.le_insert _ _ _) }
  old := Nat.le_succ_of_le against.old
  taken := by
    rintro a b (h | ⟨rfl, rfl⟩)
    · exact Nat.lt_succ_of_lt (against.taken a b h)
    · exact Nat.lt_succ_self _
  le := against.le.trans (Pairing.le_insert _ _ _)
  new := by
    rintro a b (h | ⟨rfl, rfl⟩) lt
    · exact against.new a b h lt
    · exact absurd (lt.trans_le against.evolved.fresh) (lt_irrefl _)
  compiled := against.compiled
  evolved := against.evolved.trans (.shared j)

end Against

/-- **On demand, a path comes to what the library says of it.** -/
def Delivered (options : CompileOptions) (library : Library) (T : Pairing) (j : ImportState)
    (c : Shared Definitions) (answer : Answer) : Prop :=
  ∃ d j' T', answer = .ok (.ok d) j' ∧ c.value.Matched T' d.value ∧
    Grown options library T j T' j'

/-- **A library and a loader in harmony**: whatever the library has is delivered on demand, and the
other paths come to the same on both sides. -/
def againstShelf {first : Resolver} {depth : Nat} (T : Pairing) (start : ImportState)
    (forgiving : Prop) (told : Report → Report → Prop) (told_refl : ∀ report, told report report)
    (answers : Answers options library first)
    (delivers : ∀ {R j}, Sound options library R j → start.Evolved j → ∀ path c,
      shelved options library path = some c →
      Delivered options library R j c (loadingResolver options loader depth path j))
    (others : ∀ {R i j}, Against options library T start R i j → ∀ path,
      shelved options library path = none → Answered forgiving told
        (Against options library T start) R (first path i)
        (loadingResolver options loader depth path j)) :
    Harmony first (loadingResolver options loader depth) where
  forgiving := forgiving
  told := told
  joint := Against options library T start
  told_refl := told_refl
  oneToOne against := against.sound.oneToOne
  share := Against.share
  resolve {R i j} against path := by
    cases known : shelved options library path with
    | none => exact others against path known
    | some c =>
      obtain ⟨d, j', R', answer, matched, grown⟩ := delivers against.sound against.evolved path c known
      have evolved := evolved_loadingResolver options loader depth path j
      rw [answer] at evolved ⊢
      rw [answers.found path c i known]
      exact .found grown.le matched (against.grow grown evolved)

/-- Compilations whose reports are of the same severities have as many errors. -/
lemma errorCount_eq {first second : Compilation} {told : Report → Report → Prop}
    (h : ∀ r r', told r r' → r.isError = r'.isError)
    (reports : List.Forall₂ told first.reports second.reports) :
    first.errorCount = second.errorCount :=
  (List.rel_filter (fun r r' same => iff_of_eq (congrArg (· = true) (h r r' same))) reports).length_eq

/-! ## Delivery -/

section Delivery

variable {T R : Pairing} {j j' : ImportState}

/-- A source outside the library is not compiled any more. -/
lemma Sound.leave (sound : Sound options library R j) (outside : path ∉ library.map Prod.fst) :
    Sound options library R (j.leave path) where
  oneToOne := sound.oneToOne
  given := sound.given
  free other a b owned h := by
    have ne : other ≠ path := fun same => outside (same ▸ owned.mem)
    obtain known | going := sound.free other a b owned h
    · exact .inl known
    · exact .inr (List.mem_filter.mpr ⟨going, by simpa using ne⟩)
  matched := sound.matched

/-- The definitions of a source outside the library are remembered. -/
lemma Sound.remember (sound : Sound options library R j) (outside : path ∉ library.map Prod.fst)
    (d : Shared Definitions) : Sound options library R (j.remember path d) where
  oneToOne := sound.oneToOne
  given := sound.given
  free other a b owned h := by
    have ne : other ≠ path := fun same => outside (same ▸ owned.mem)
    obtain ⟨found, known⟩ | going := sound.free other a b owned h
    · exact .inl ⟨found, (definitionsIn_cons_ne ne _ _).trans known⟩
    · exact .inr going
  matched other c found shelved known := by
    have ne : other ≠ path := fun same => outside (same ▸ mem_of_shelved shelved)
    exact sound.matched other c found shelved ((definitionsIn_cons_ne ne _ _).symm.trans known)

/-- **What was learnt with the earlier part of a library, beside what was known before.**  Either
nothing was learnt about the latest source, or that source was compiled just now. -/
lemma Sound.join (sound : Sound options ((path, source) :: earlier) T j)
    (idle : path ∉ j.active) (learnt : Sound options earlier R j') (evolved : j.Evolved j')
    (le : T.below (shelfEnd options earlier) ≤ R)
    (given : ∀ a b, R a b → b < j.supply.fresh → T.below (shelfEnd options earlier) a b)
    (old : ∀ a b, R a b → a < shelfEnd options ((path, source) :: earlier))
    (own : ∀ a b, R a b → a < shelfEnd options earlier ∨
      (j.definitionsOf path = none ∧ ∃ d, j'.definitionsOf path = some d))
    (matched : ∀ c d, shelved options ((path, source) :: earlier) path = some c →
      j.definitionsOf path = none → j'.definitionsOf path = some d → c.value.Matched R d.value) :
    Sound options ((path, source) :: earlier) (T.join R) j' where
  oneToOne := by
    refine sound.oneToOne.join learnt.oneToOne (fun a b c known h => ?_) fun a b c known h => ?_
    · by_cases lt : a < shelfEnd options earlier
      · exact le _ _ ⟨known, lt⟩
      · obtain lt' | ⟨unknown, -⟩ := own a c h
        · exact absurd lt' lt
        -- The source was not compiled before, so nothing corresponded to its identities.
        obtain ⟨found, remembered⟩ | going :=
          sound.free path a b (.inl ⟨rfl, Nat.le_of_not_lt lt, old a c h⟩) known
        · rw [unknown] at remembered
          cases remembered
        · exact absurd going idle
    · exact (given b c h (sound.given a c known)).1
  given := by
    rintro a b (h | h)
    · exact (sound.given a b h).trans_le evolved.fresh
    · exact learnt.given a b h
  free := by
    rintro other a b owned (h | h)
    · obtain ⟨found, known⟩ | going := sound.free other a b owned h
      · exact .inl ⟨found, evolved.remembered _ _ known⟩
      · exact .inr (evolved.active ▸ going)
    · obtain ⟨rfl, ge, -⟩ | owned := owned
      · obtain lt | ⟨-, known⟩ := own a b h
        · exact absurd (lt.trans_le ge) (lt_irrefl _)
        · exact .inl known
      · exact learnt.free other a b owned h
  matched other c d shelved known := by
    by_cases same : other = path
    · subst same
      cases before : j.definitionsOf other with
      | none => exact (matched c d shelved before known).mono fun _ _ => .inr
      | some found =>
        rw [evolved.remembered _ _ before] at known
        cases known
        exact (sound.matched other c _ shelved before).mono fun _ _ => .inl
    · rw [shelved_cons_ne same] at shelved
      exact (learnt.matched other c d shelved known).mono fun _ _ => .inr

/-- A source of the earlier part is delivered. -/
lemma Delivered.of_earlier (sound : Sound options ((path, source) :: earlier) T j)
    (new : path ∉ earlier.map Prod.fst) (idle : path ∉ j.active) {c : Shared Definitions}
    {answer : Answer} (evolved : j.Evolved (importsOf answer))
    (h : Delivered options earlier (T.below (shelfEnd options earlier)) j c answer) :
    Delivered options ((path, source) :: earlier) T j c answer := by
  obtain ⟨d, j', R, rfl, matched, grown⟩ := h
  have lt (a b : Nat) (h : R a b) : a < shelfEnd options earlier := by
    obtain h | ⟨lt, -⟩ := grown.new a b h
    · exact h.2
    · exact lt
  have unlearnt (d : Shared Definitions) (unknown : j.definitionsOf path = none)
      (known : j'.definitionsOf path = some d) : False :=
    new (grown.compiled path unknown ⟨d, known⟩)
  refine ⟨d, j', T.join R, rfl, matched.mono fun _ _ => .inr, fun _ _ => .inl, ?_, ?_, ?_⟩
  · refine sound.join idle grown.sound evolved grown.le (fun a b h before => ?_)
      (fun a b h => (lt a b h).trans_le (shelfEnd_le_cons _ _)) (fun a b h => .inl (lt a b h))
      fun _ d _ unknown known => (unlearnt d unknown known).elim
    obtain h | ⟨-, ge⟩ := grown.new a b h
    · exact h
    · exact absurd (before.trans_le ge) (lt_irrefl _)
  · rintro a b (h | h)
    · exact .inl h
    · obtain h | ⟨lt, ge⟩ := grown.new a b h
      · exact .inl h.1
      · exact .inr ⟨lt.trans_le (shelfEnd_le_cons _ _), ge⟩
  · exact fun other unknown known => List.mem_cons_of_mem _ (grown.compiled other unknown known)

/-- The latest source of a library is delivered, if the earlier ones are. -/
lemma delivered_latest {depth : Nat} (found : loader path = .source source)
    (new : path ∉ earlier.map Prod.fst)
    (success : (compile options (tableResolver (shelf options earlier).1) source
      (shelf options earlier).2).1.errorCount = 0)
    (sound : Sound options ((path, source) :: earlier) T j)
    (idle : ∀ other ∈ ((path, source) :: earlier).map Prod.fst, other ∉ j.active)
    (delivers : ∀ {R j}, Sound options earlier R j →
      (∀ other ∈ earlier.map Prod.fst, other ∉ j.active) → ∀ other c,
      shelved options earlier other = some c →
      Delivered options earlier R j c (loadingResolver options loader depth other j))
    {c : Shared Definitions} (known : shelved options ((path, source) :: earlier) path = some c) :
    Delivered options ((path, source) :: earlier) T j c
      (loadingResolver options loader (depth + 1) path j) := by
  have idle' : path ∉ j.active := idle path List.mem_cons_self
  cases before : j.definitionsOf path with
  | some d =>
    refine ⟨d, j, T, ?_, sound.matched path c d known before, .refl sound⟩
    rw [loadingResolver_succ, before]
  | none =>
    let start := (j.asked path).enter path
    have begun : Sound options earlier (T.below (shelfEnd options earlier)) start :=
      (sound.restrict new).change (le_refl _) rfl fun _ going => .inr (List.mem_cons_of_mem _ going)
    have apart {k : ImportState} (evolved : start.Evolved k) :
        ∀ other ∈ earlier.map Prod.fst, other ∉ k.active := by
      intro other mem going
      rw [evolved.active] at going
      obtain rfl | going := List.mem_cons.mp going
      · exact new mem
      · exact idle other (List.mem_cons_of_mem _ mem) going
    have delivers' {R : Pairing} {k : ImportState} (sound : Sound options earlier R k)
        (evolved : start.Evolved k) (other : String) (c : Shared Definitions)
        (known : shelved options earlier other = some c) :
        Delivered options earlier R k c (loadingResolver options loader depth other k) :=
      delivers sound (apart evolved) other c known
    let harmony := againstShelf (T.below (shelfEnd options earlier)) start True Eq (fun _ => rfl)
      (answers_table earlier) delivers' fun _ other unknown =>
        .missing trivial fun d i => (answers_table earlier).missing other _ unknown d i
    have joined : harmony.joint (T.below (shelfEnd options earlier)) (shelf options earlier).2 start :=
      .begin_ begun (le_refl _) fun _ _ h => h.2
    obtain ⟨-, fails⟩ | ⟨R, -, agrees⟩ := harmony.compile options source joined
    · exact absurd success fails
    set result := compile options (loadingResolver options loader depth) source start with hresult
    have against : Against options earlier (T.below (shelfEnd options earlier)) start R
      (shelf options ((path, source) :: earlier)).2 result.2 := agrees.imports
    have succeeds : result.1.errorCount = 0 :=
      (errorCount_eq (fun _ _ same => congrArg _ same) agrees.reports).symm.trans success
    have answer : loadingResolver options loader (depth + 1) path j
        = .ok (.ok result.1.definitions)
          ((result.2.leave path).remember path result.1.definitions) := by
      rw [loadingResolver_of_source before idle' depth found, concludeImport, if_pos succeeds]
    have evolved := evolved_loadingResolver options loader (depth + 1) path j
    rw [answer] at evolved ⊢
    rw [shelved_cons_self] at known
    cases known
    have old (a b : Nat) (h : R a b) : a < shelfEnd options ((path, source) :: earlier) :=
      against.taken a b h
    refine ⟨_, _, T.join R, rfl, agrees.definitions.mono fun _ _ => .inr, fun _ _ => .inl, ?_, ?_, ?_⟩
    · refine sound.join idle' ((against.sound.leave new).remember new _) evolved against.le against.new old
        (fun _ _ _ => .inr ⟨before, _, definitionsIn_cons_self _ _ _⟩) fun c d shelved _ known => ?_
      rw [shelved_cons_self] at shelved
      cases shelved
      cases (definitionsIn_cons_self path _ _).symm.trans known
      exact agrees.definitions
    · rintro a b (h | h)
      · exact .inl h
      · obtain lt | ge := Nat.lt_or_ge b j.supply.fresh
        · exact .inl (against.new a b h lt).1
        · exact .inr ⟨old a b h, ge⟩
    · intro other unknown known
      by_cases same : other = path
      · exact same ▸ List.mem_cons_self
      · obtain ⟨d, known⟩ := known
        refine List.mem_cons_of_mem _ (against.compiled other unknown ⟨d, ?_⟩)
        exact (definitionsIn_cons_ne same _ _).symm.trans known

/-- **On demand, a source of a clean library is delivered**, whatever was imported before. -/
theorem delivers (clean : Clean options loader library) {depth : Nat}
    (deep : library.length ≤ depth) {T : Pairing} {j : ImportState}
    (sound : Sound options library T j) (idle : ∀ path ∈ library.map Prod.fst, path ∉ j.active)
    {c : Shared Definitions} (shelved : shelved options library path = some c) :
    Delivered options library T j c (loadingResolver options loader depth path j) := by
  induction clean generalizing depth T j path c with
  | nil => cases shelved
  | @cons own source earlier clean new found success ih =>
    by_cases same : path = own
    · subst same
      obtain ⟨depth, rfl⟩ : ∃ n, depth = n + 1 := ⟨depth - 1, by simp at deep; omega⟩
      exact delivered_latest found new success sound idle
        (fun sound idle _ _ known => ih (Nat.le_of_succ_le_succ deep) sound idle known) shelved
    · rw [shelved_cons_ne same] at shelved
      refine .of_earlier sound new (idle own List.mem_cons_self)
        (evolved_loadingResolver options loader depth path j) ?_
      exact ih (Nat.le_of_succ_le deep) (sound.restrict new)
        (fun path mem => idle path (List.mem_cons_of_mem _ mem)) shelved

end Delivery

end TreeLang
