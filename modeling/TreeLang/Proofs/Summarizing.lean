import Mathlib.Data.List.Induction
import TreeLang.Operator.Clause

/-!
# What clauses say together

The clauses of an operator statement are gone through one by one, and the first that does not fit ends it.
Yet their order does not matter.  On each matter a clause is silent or says one thing; clauses agree on the
matter if those that speak of it say the same, and that is what they say together, however often it is said
and in whatever order.

* `Clause.Agree`, **`Clause.Agreed`** — clauses that agree on a matter, and what they say of it together.
* `Clause.Agreed.concat` — one more clause.
* `ClauseSummary.add_eq_ok_iff` — when a clause fits those before it, and what it adds.
* **`ClauseSummary.foldlM_add_eq_ok_iff`** — going through clauses finds what they say together.
* `Clause.Consistent` — clauses that describe an operator.
* **`buildOperator_unordered`** — which clauses do, and that order and repetition do not matter.
-/

namespace TreeLang

namespace Clause

variable {α : Type} {clauses others : List Clause} {clause : Clause} {tells : Clause → Option α}
  {known said answer other : Option α}

/-! ## One matter -/

/-- **Clauses that agree on a matter**: no two of them tell different things. -/
def Agree (tells : Clause → Option α) (clauses : List Clause) : Prop :=
  ∀ first ∈ clauses, ∀ second ∈ clauses, ∀ a b, tells first = some a → tells second = some b → a = b

/-- **What clauses tell together of a matter**: what any of them tells, nothing if none speaks of it. -/
def Agreed (tells : Clause → Option α) (clauses : List Clause) (answer : Option α) : Prop :=
  ∀ value, answer = some value ↔ ∃ clause ∈ clauses, tells clause = some value

/-- What is said fits what is known, if anything is. -/
def Fits (known said : Option α) : Prop :=
  ∀ a b, known = some a → said = some b → a = b

lemma agreed_nil : Agreed tells [] answer ↔ answer = none := by
  simp [Agreed, Option.eq_none_iff_forall_ne_some]

/-- What fits is told beside what is known. -/
lemma Fits.or_eq_some_iff (fits : Fits known said) {value : α} :
    known.or said = some value ↔ known = some value ∨ said = some value := by
  cases known with
  | none => simp
  | some a => simpa using fun saidB => fits a value rfl saidB

/-- Clauses tell at most one thing together. -/
lemma Agreed.unique (first : Agreed tells clauses answer) (second : Agreed tells clauses other) :
    answer = other :=
  Option.ext fun value => (first value).trans (second value).symm

/-- What clauses tell does not depend on how often they tell it, and in which order. -/
lemma Agreed.congr (same : ∀ value, (∃ clause ∈ clauses, tells clause = some value) ↔
      ∃ clause ∈ others, tells clause = some value) :
    Agreed tells clauses answer ↔ Agreed tells others answer :=
  forall_congr' fun value => by rw [same]

/-- Clauses that agree tell something together, and only they do. -/
lemma exists_agreed_iff : (∃ answer, Agreed tells clauses answer) ↔ Agree tells clauses := by
  constructor
  · rintro ⟨answer, agreed⟩ first firstMem second secondMem a b tellsA tellsB
    have answerA := (agreed a).mpr ⟨first, firstMem, tellsA⟩
    have answerB := (agreed b).mpr ⟨second, secondMem, tellsB⟩
    exact Option.some.inj (answerA.symm.trans answerB)
  · intro agree
    by_cases spoken : ∃ clause ∈ clauses, ∃ value, tells clause = some value
    · obtain ⟨first, firstMem, a, tellsA⟩ := spoken
      refine ⟨some a, fun b => ⟨?_, ?_⟩⟩
      · rintro ⟨⟩
        exact ⟨first, firstMem, tellsA⟩
      · rintro ⟨second, secondMem, tellsB⟩
        rw [agree first firstMem second secondMem a b tellsA tellsB]
    · refine ⟨none, fun b => ⟨by rintro ⟨⟩, ?_⟩⟩
      rintro ⟨second, secondMem, tellsB⟩
      exact absurd ⟨second, secondMem, b, tellsB⟩ spoken

/-- Clauses that agree do so without the last of them. -/
lemma Agree.init (agree : Agree tells (clauses ++ [clause])) : Agree tells clauses :=
  fun first firstMem second secondMem =>
    agree first (List.mem_append_left _ firstMem) second (List.mem_append_left _ secondMem)

/-- **One more clause** tells together with the others what they tell, if it fits that, or else what it
tells itself. -/
lemma Agreed.concat (agreed : Agreed tells clauses known) :
    Agreed tells (clauses ++ [clause]) answer ↔
      Fits known (tells clause) ∧ answer = known.or (tells clause) := by
  have spoken (value : α) : (∃ c ∈ clauses ++ [clause], tells c = some value) ↔
      known = some value ∨ tells clause = some value := by
    simp only [List.mem_append, List.mem_singleton, or_and_right, exists_or, exists_eq_left,
      agreed value]
  constructor
  · intro together
    have told (value : α) : answer = some value ↔ known = some value ∨ tells clause = some value :=
      (together value).trans (spoken value)
    have fits : Fits known (tells clause) := fun a b knownA tellsB =>
      Option.some.inj (((told a).mpr (.inl knownA)).symm.trans ((told b).mpr (.inr tellsB)))
    exact ⟨fits, Option.ext fun value => (told value).trans fits.or_eq_some_iff.symm⟩
  · rintro ⟨fits, rfl⟩ value
    rw [spoken, fits.or_eq_some_iff]

/-! ## Words -/

/-- The words for the fixity. -/
def fixityWords : List String := ["binary", "prefix", "postfix"]

/-- The words for the associativity. -/
def associativityWords : List String := ["left-associative", "right-associative"]

/-- **The words that a clause may be.** -/
def words : List String := fixityWords ++ associativityWords ++ ["accessor"]

/-- The fixity of a clause is the one that it is the word for. -/
lemma fixity?_eq_some_iff {fixity : Fixity} : clause.fixity? = some fixity ↔ clause.name = fixity.text := by
  constructor
  · intro found
    simpa [eq_comm] using List.find?_some found
  · intro named
    rw [fixity?, named]
    cases fixity <;> decide

lemma rightAssociative?_eq_some_iff {right : Bool} : clause.rightAssociative? = some right ↔
    clause.name = if right then "right-associative" else "left-associative" := by
  rw [rightAssociative?]
  split_ifs <;> cases right <;> simp_all

/-- Where a matter has a word for each thing to be told, clauses agree on it if no two of them are different
words for it. -/
lemma agree_iff_of_word {word : α → String} {matter : List String}
    (tells_iff : ∀ clause a, tells clause = some a ↔ clause.name = word a)
    (mem_iff : ∀ text, text ∈ matter ↔ ∃ a, text = word a) :
    Agree tells clauses ↔ ∀ first ∈ clauses, ∀ second ∈ clauses,
      first.name ∈ matter → second.name ∈ matter → first.name = second.name := by
  constructor
  · intro agree first firstMem second secondMem firstWord secondWord
    obtain ⟨a, nameA⟩ := (mem_iff _).mp firstWord
    obtain ⟨b, nameB⟩ := (mem_iff _).mp secondWord
    rw [nameA, nameB, agree first firstMem second secondMem a b ((tells_iff _ _).mpr nameA)
      ((tells_iff _ _).mpr nameB)]
  · intro agree first firstMem second secondMem a b tellsA tellsB
    have nameA := (tells_iff _ _).mp tellsA
    have nameB := (tells_iff _ _).mp tellsB
    have equal := agree first firstMem second secondMem ((mem_iff _).mpr ⟨a, nameA⟩)
      ((mem_iff _).mpr ⟨b, nameB⟩)
    have tellsBoth : tells first = some b := (tells_iff _ _).mpr (equal.trans nameB)
    exact Option.some.inj (tellsA.symm.trans tellsBoth)

lemma mem_fixityWords_iff {text : String} : text ∈ fixityWords ↔ ∃ fixity : Fixity, text = fixity.text := by
  constructor
  · intro word
    simp only [fixityWords, List.mem_cons, List.not_mem_nil, or_false] at word
    rcases word with word | word | word
    · exact ⟨.binary, word⟩
    · exact ⟨.prefixed, word⟩
    · exact ⟨.postfixed, word⟩
  · rintro ⟨fixity, rfl⟩
    cases fixity <;> decide

lemma mem_associativityWords_iff {text : String} : text ∈ associativityWords ↔
    ∃ right : Bool, text = if right then "right-associative" else "left-associative" := by
  simp [associativityWords]

/-- A word stands for a fixity, for an associativity, or for an accessor. -/
lemma mem_words_iff : clause.name ∈ words ↔ clause.fixity?.isSome ∨ clause.rightAssociative?.isSome ∨
    clause.name = "accessor" := by
  simp only [Option.isSome_iff_exists, fixity?_eq_some_iff, rightAssociative?_eq_some_iff, words,
    List.mem_append, List.mem_singleton, mem_fixityWords_iff, mem_associativityWords_iff, or_assoc]

/-- A word for a fixity is none for anything else. -/
lemma other_of_fixity? {fixity : Fixity} (named : clause.fixity? = some fixity) :
    clause.rightAssociative? = none ∧ clause.name ≠ "accessor" := by
  rw [rightAssociative?, fixity?_eq_some_iff.mp named]
  cases fixity <;> decide

lemma ne_accessor_of_rightAssociative? {right : Bool} (named : clause.rightAssociative? = some right) :
    clause.name ≠ "accessor" := by
  rw [rightAssociative?_eq_some_iff.mp named]
  cases right <;> decide

end Clause

/-! ## One clause after the other -/

namespace ClauseSummary

open Clause

variable {clauses others : List Clause} {clause : Clause} {summary extended : ClauseSummary}
  {operator : String}

/-- The summary with what a clause tells by its name. -/
def withName (summary : ClauseSummary) (clause : Clause) : ClauseSummary :=
  { summary with
    fixity := summary.fixity.or clause.fixity?
    rightAssociative := summary.rightAssociative.or clause.rightAssociative?
    accessor := summary.accessor || clause.name = "accessor" }

/-- A clause fits by its name if it is a known word and the fixity and the associativity fit. -/
lemma addName_eq_ok_iff : summary.addName clause = .ok extended ↔
    clause.name ∈ words ∧ Fits summary.fixity clause.fixity? ∧
      Fits summary.rightAssociative clause.rightAssociative? ∧ extended = summary.withName clause := by
  obtain ⟨knownFixity, knownRight, knownAccessor, priority⟩ := summary
  rw [addName, withName, mem_words_iff]
  cases named : clause.fixity? with
  | some fixity =>
    obtain ⟨right, accessor⟩ := other_of_fixity? named
    cases knownFixity with
    | none => simp [Fits, right, accessor, eq_comm]
    | some other =>
      by_cases same : other = fixity
      · simp [Fits, right, accessor, same, eq_comm]
      · simp [Fits, same]
  | none =>
    cases told : clause.rightAssociative? with
    | some right =>
      have accessor := ne_accessor_of_rightAssociative? told
      cases knownRight with
      | none => simp [Fits, accessor, eq_comm]
      | some other => cases other <;> cases right <;> simp [Fits, accessor, eq_comm]
    | none => by_cases accessor : clause.name = "accessor" <;> simp [Fits, accessor, eq_comm]

/-- A clause fits by its priority if it is that of the clauses before it.  What is not a number is no
priority to be repeated. -/
lemma addPriority_eq_ok_iff (number : clause.priority ≠ some .notANumber) :
    summary.addPriority operator clause = .ok extended ↔
      Fits summary.priority clause.priority ∧
        extended = { summary with priority := summary.priority.or clause.priority } := by
  obtain ⟨fixity, right, accessor, known⟩ := summary
  rw [addPriority.eq_def]
  cases told : clause.priority with
  | none => simp [Fits, eq_comm]
  | some priority =>
    have proper : priority ≠ .notANumber := fun none => number (told.trans (congrArg some none))
    cases known with
    | none => simp [Fits, eq_comm]
    | some other =>
      by_cases same : priority = other
      · simp [Fits, same, eq_comm, Priority.agrees, same ▸ proper]
      · simp [Fits, same, Priority.agrees, eq_comm]

/-- **When a clause fits those before it, and what it adds.** -/
lemma add_eq_ok_iff (number : clause.priority ≠ some .notANumber) :
    summary.add operator clause = .ok extended ↔
      clause.name ∈ words ∧ Fits summary.fixity clause.fixity? ∧
        Fits summary.rightAssociative clause.rightAssociative? ∧ Fits summary.priority clause.priority ∧
          extended = { summary.withName clause with priority := summary.priority.or clause.priority } := by
  rw [add]
  cases named : summary.addName clause with
  | error report =>
    simp only [bind, Except.bind, reduceCtorEq, false_iff]
    rintro ⟨word, fixity, right, -⟩
    rw [addName_eq_ok_iff.mpr ⟨word, fixity, right, rfl⟩] at named
    cases named
  | ok between =>
    obtain ⟨word, fixity, right, rfl⟩ := addName_eq_ok_iff.mp named
    refine (addPriority_eq_ok_iff number).trans ?_
    simp only [word, fixity, right, true_and]
    exact Iff.rfl

/-! ## All clauses -/

/-- **What clauses say together**, on every matter. -/
structure Sums (clauses : List Clause) (summary : ClauseSummary) : Prop where
  words : ∀ clause ∈ clauses, clause.name ∈ words
  fixity : Agreed Clause.fixity? clauses summary.fixity
  rightAssociative : Agreed Clause.rightAssociative? clauses summary.rightAssociative
  accessor : summary.accessor = true ↔ ∃ clause ∈ clauses, clause.name = "accessor"
  priority : Agreed Clause.priority clauses summary.priority

lemma sums_nil : Sums [] {} :=
  ⟨by simp, agreed_nil.mpr rfl, agreed_nil.mpr rfl, by simp, agreed_nil.mpr rfl⟩

/-- Clauses have at most one summary. -/
lemma Sums.unique (first : Sums clauses summary) (second : Sums clauses extended) : summary = extended := by
  have accessor : summary.accessor = extended.accessor :=
    Bool.eq_iff_iff.mpr (first.accessor.trans second.accessor.symm)
  obtain ⟨_, _, _, _⟩ := summary
  obtain ⟨_, _, _, _⟩ := extended
  cases first.fixity.unique second.fixity
  cases first.rightAssociative.unique second.rightAssociative
  cases first.priority.unique second.priority
  cases accessor
  rfl

/-- **Clauses have a summary if they are known words and agree on each matter.** -/
lemma exists_sums_iff : (∃ summary, Sums clauses summary) ↔
    (∀ clause ∈ clauses, clause.name ∈ Clause.words) ∧ Agree Clause.fixity? clauses ∧
      Agree Clause.rightAssociative? clauses ∧ Agree Clause.priority clauses := by
  constructor
  · rintro ⟨summary, sums⟩
    exact ⟨sums.words, exists_agreed_iff.mp ⟨_, sums.fixity⟩,
      exists_agreed_iff.mp ⟨_, sums.rightAssociative⟩, exists_agreed_iff.mp ⟨_, sums.priority⟩⟩
  · rintro ⟨words, fixities, associativities, priorities⟩
    obtain ⟨fixity, fixities⟩ := exists_agreed_iff.mpr fixities
    obtain ⟨right, associativities⟩ := exists_agreed_iff.mpr associativities
    obtain ⟨priority, priorities⟩ := exists_agreed_iff.mpr priorities
    exact ⟨⟨fixity, right, clauses.any (·.name = "accessor"), priority⟩, words, fixities, associativities,
      by simp, priorities⟩

/-- **One more clause is added to a summary if they have one together.** -/
lemma Sums.concat (sums : Sums clauses summary) (number : clause.priority ≠ some .notANumber) :
    summary.add operator clause = .ok extended ↔ Sums (clauses ++ [clause]) extended := by
  have longer (word : clause.name ∈ Clause.words) (fixity : Fits summary.fixity clause.fixity?)
      (right : Fits summary.rightAssociative clause.rightAssociative?)
      (priority : Fits summary.priority clause.priority) : Sums (clauses ++ [clause])
        { summary.withName clause with priority := summary.priority.or clause.priority } :=
    { words := List.forall_mem_append.mpr ⟨sums.words, by simpa using word⟩
      fixity := sums.fixity.concat.mpr ⟨fixity, rfl⟩
      rightAssociative := sums.rightAssociative.concat.mpr ⟨right, rfl⟩
      accessor := by simp [withName, sums.accessor, or_and_right, exists_or]
      priority := sums.priority.concat.mpr ⟨priority, rfl⟩ }
  rw [add_eq_ok_iff number]
  constructor
  · rintro ⟨word, fixity, right, priority, rfl⟩
    exact longer word fixity right priority
  · intro together
    have word := together.words clause (by simp)
    have fixity := (sums.fixity.concat.mp together.fixity).1
    have right := (sums.rightAssociative.concat.mp together.rightAssociative).1
    have priority := (sums.priority.concat.mp together.priority).1
    exact ⟨word, fixity, right, priority, together.unique (longer word fixity right priority)⟩

/-- Without the last of them clauses still have a summary. -/
lemma Sums.init (sums : Sums (clauses ++ [clause]) summary) : ∃ summary, Sums clauses summary := by
  obtain ⟨words, fixities, associativities, priorities⟩ := exists_sums_iff.mp ⟨summary, sums⟩
  exact exists_sums_iff.mpr ⟨fun clause mem => words clause (List.mem_append_left _ mem), fixities.init,
    associativities.init, priorities.init⟩

/-- **Going through clauses finds what they say together**: it comes to an end exactly if they have a
summary, and then with it. -/
theorem foldlM_add_eq_ok_iff (numbers : ∀ clause ∈ clauses, clause.priority ≠ some .notANumber) :
    clauses.foldlM (add operator) {} = .ok summary ↔ Sums clauses summary := by
  induction clauses using List.reverseRecOn generalizing summary with
  | nil =>
    constructor
    · rintro ⟨⟩
      exact sums_nil
    · intro sums
      rw [sums.unique sums_nil]
      rfl
  | append_singleton clauses clause ih =>
    obtain ⟨before, number⟩ := List.forall_mem_append.mp numbers
    replace number := number clause List.mem_cons_self
    rw [List.foldlM_append]
    cases gone : clauses.foldlM (add operator) {} with
    | error report =>
      refine ⟨by rintro ⟨⟩, fun sums => ?_⟩
      obtain ⟨known, sums⟩ := sums.init
      rw [(ih before).mpr sums] at gone
      cases gone
    | ok known =>
      have step : known.add operator clause = .ok summary ↔ _ := ((ih before).mp gone).concat number
      have last : [clause].foldlM (add operator) known = known.add operator clause := by
        rw [List.foldlM_cons]
        simp only [List.foldlM_nil, bind_pure]
      rw [← step, ← last]
      exact Iff.rfl

/-! ## The operator -/

/-- The operator that a summary without a mistake describes. -/
def describe (summary : ClauseSummary) (name : String) (keyword : Bool) (aliasName : Option String) :
    OperatorDefinition where
  name := name
  keyword := keyword
  fixity := summary.fixity.getD .binary
  aliasName := aliasName
  rightAssociative := summary.rightAssociative.getD false
  accessor := summary.accessor
  priority := summary.priority.getD summary.defaultPriority

end ClauseSummary

open Clause

variable {name : String} {keyword : Bool} {aliasName : Option String} {clauses others : List Clause}
  {op : OperatorDefinition}

/-- **An operator is built** from what its clauses say together, if there is no mistake in it. -/
lemma buildOperator_eq_ok_iff (numbers : ∀ clause ∈ clauses, clause.priority ≠ some .notANumber) :
    buildOperator name keyword clauses aliasName = .ok op ↔
      ∃ summary, ClauseSummary.Sums clauses summary ∧ summary.mistake? = none ∧
        op = summary.describe name keyword aliasName := by
  have summed (summary : ClauseSummary) : clauses.foldlM (ClauseSummary.add name) {} = .ok summary ↔
      ClauseSummary.Sums clauses summary := ClauseSummary.foldlM_add_eq_ok_iff numbers
  simp only [← summed]
  rw [buildOperator]
  cases gone : clauses.foldlM (ClauseSummary.add name) {} with
  | error report => simp [bind, Except.bind]
  | ok summary =>
    cases mistaken : summary.mistake? with
    | some cause => simp [bind, Except.bind, mistaken, throw, throwThe, MonadExceptOf.throw]
    | none =>
      simp [bind, Except.bind, mistaken, pure, Except.pure, ClauseSummary.describe, eq_comm]

/-! ## Clauses that describe an operator -/

/-- **Clauses that describe an operator.** -/
structure Clause.Consistent (clauses : List Clause) : Prop where
  known : ∀ clause ∈ clauses, clause.name ∈ words
  fixity : ∀ first ∈ clauses, ∀ second ∈ clauses,
    first.name ∈ fixityWords → second.name ∈ fixityWords → first.name = second.name
  associativity : ∀ first ∈ clauses, ∀ second ∈ clauses,
    first.name ∈ associativityWords → second.name ∈ associativityWords → first.name = second.name
  priority : ∀ first ∈ clauses, ∀ second ∈ clauses, ∀ a b,
    first.priority = some a → second.priority = some b → a = b
  /-- Only a binary operator has an associativity. -/
  associative : (∃ clause ∈ clauses, clause.name ∈ associativityWords) →
    ∀ clause ∈ clauses, clause.name ≠ "prefix" ∧ clause.name ≠ "postfix"
  /-- An accessor is binary and not right-associative. -/
  accessor : (∃ clause ∈ clauses, clause.name = "accessor") →
    ∀ clause ∈ clauses, clause.name ≠ "prefix" ∧ clause.name ≠ "postfix" ∧
      clause.name ≠ "right-associative"

namespace ClauseSummary

variable {summary : ClauseSummary}

/-- There is no mistake in a summary if an associativity goes with a binary operator only, and an accessor
too, which is not right-associative. -/
lemma mistake?_eq_none_iff : summary.mistake? = none ↔
    (summary.rightAssociative.isSome → summary.fixity.getD .binary = .binary) ∧
      (summary.accessor → summary.fixity.getD .binary = .binary ∧
        summary.rightAssociative ≠ some true) := by
  rw [mistake?]
  by_cases binary : summary.fixity.getD .binary = .binary <;> cases summary.accessor <;>
    cases summary.rightAssociative <;> simp [binary]

/-- The operator is binary unless a clause says otherwise. -/
lemma Sums.binary_iff (sums : Sums clauses summary) : summary.fixity.getD .binary = .binary ↔
    ∀ clause ∈ clauses, clause.name ≠ "prefix" ∧ clause.name ≠ "postfix" := by
  have prefixed := (sums.fixity .prefixed).not
  have postfixed := (sums.fixity .postfixed).not
  simp only [fixity?_eq_some_iff, Fixity.text, not_exists, not_and] at prefixed postfixed
  simp only [forall_and, ← prefixed, ← postfixed]
  rcases summary.fixity with _ | fixity
  · simp
  · cases fixity <;> simp

/-- An associativity is given if a clause gives one. -/
lemma Sums.associative_iff (sums : Sums clauses summary) :
    summary.rightAssociative.isSome ↔ ∃ clause ∈ clauses, clause.name ∈ associativityWords := by
  simp only [Option.isSome_iff_exists, sums.rightAssociative _, rightAssociative?_eq_some_iff,
    mem_associativityWords_iff]
  constructor
  · rintro ⟨right, clause, mem, word⟩
    exact ⟨clause, mem, right, word⟩
  · rintro ⟨clause, mem, right, word⟩
    exact ⟨right, clause, mem, word⟩

lemma Sums.not_right_iff (sums : Sums clauses summary) :
    summary.rightAssociative ≠ some true ↔ ∀ clause ∈ clauses, clause.name ≠ "right-associative" := by
  have right := (sums.rightAssociative true).not
  simpa only [rightAssociative?_eq_some_iff, if_true, not_exists, not_and] using right

/-- **Clauses describe an operator if they have a summary and there is no mistake in it.** -/
lemma exists_sums_mistake?_iff :
    (∃ summary, Sums clauses summary ∧ summary.mistake? = none) ↔ Consistent clauses := by
  have fixities : Agree Clause.fixity? clauses ↔ _ :=
    agree_iff_of_word (fun _ _ => fixity?_eq_some_iff) fun _ => mem_fixityWords_iff
  have associativities : Agree Clause.rightAssociative? clauses ↔ _ :=
    agree_iff_of_word (fun _ _ => rightAssociative?_eq_some_iff) fun _ => mem_associativityWords_iff
  have sound {summary : ClauseSummary} (sums : Sums clauses summary) : summary.mistake? = none ↔
      ((∃ clause ∈ clauses, clause.name ∈ associativityWords) →
        ∀ clause ∈ clauses, clause.name ≠ "prefix" ∧ clause.name ≠ "postfix") ∧
      ((∃ clause ∈ clauses, clause.name = "accessor") →
        ∀ clause ∈ clauses, clause.name ≠ "prefix" ∧ clause.name ≠ "postfix" ∧
          clause.name ≠ "right-associative") := by
    rw [mistake?_eq_none_iff, sums.binary_iff, sums.associative_iff, sums.accessor, sums.not_right_iff]
    simp only [forall_and, and_assoc]
  constructor
  · rintro ⟨summary, sums, calm⟩
    obtain ⟨known, fixity, associativity, priority⟩ := exists_sums_iff.mp ⟨summary, sums⟩
    obtain ⟨associative, accessor⟩ := (sound sums).mp calm
    exact ⟨known, fixities.mp fixity, associativities.mp associativity, priority, associative, accessor⟩
  · intro consistent
    obtain ⟨summary, sums⟩ := exists_sums_iff.mpr ⟨consistent.known, fixities.mpr consistent.fixity,
      associativities.mpr consistent.associativity, consistent.priority⟩
    exact ⟨summary, sums, (sound sums).mpr ⟨consistent.associative, consistent.accessor⟩⟩

/-- **Clauses that say the same**, in whatever order and however often, have the same summary. -/
lemma sums_congr (same : ∀ word priority,
      (∃ clause ∈ clauses, clause.name = word ∧ clause.priority = priority) ↔
        ∃ clause ∈ others, clause.name = word ∧ clause.priority = priority) :
    Sums clauses summary ↔ Sums others summary := by
  have spoken (property : String → Option Priority → Prop) :
      (∃ clause ∈ clauses, property clause.name clause.priority) ↔
        ∃ clause ∈ others, property clause.name clause.priority := by
    constructor <;> rintro ⟨clause, mem, holds⟩
    · obtain ⟨twin, twinMem, word, priority⟩ := (same _ _).mp ⟨clause, mem, rfl, rfl⟩
      exact ⟨twin, twinMem, by rwa [word, priority]⟩
    · obtain ⟨twin, twinMem, word, priority⟩ := (same _ _).mpr ⟨clause, mem, rfl, rfl⟩
      exact ⟨twin, twinMem, by rwa [word, priority]⟩
  have known : (∀ clause ∈ clauses, clause.name ∈ Clause.words) ↔
      ∀ clause ∈ others, clause.name ∈ Clause.words := by
    simpa using (spoken fun word _ => word ∉ Clause.words).not
  have fixity : Agreed Clause.fixity? clauses summary.fixity ↔
      Agreed Clause.fixity? others summary.fixity := Agreed.congr fun value => by
    simpa only [fixity?_eq_some_iff] using spoken fun word _ => word = value.text
  have right : Agreed Clause.rightAssociative? clauses summary.rightAssociative ↔
      Agreed Clause.rightAssociative? others summary.rightAssociative := Agreed.congr fun value => by
    simpa only [rightAssociative?_eq_some_iff] using spoken fun word _ => word = _
  have accessor := spoken fun word _ => word = "accessor"
  have priority : Agreed Clause.priority clauses summary.priority ↔
      Agreed Clause.priority others summary.priority :=
    Agreed.congr fun value => spoken fun _ priority => priority = some value
  constructor <;> intro sums
  · exact ⟨known.mp sums.words, fixity.mp sums.fixity, right.mp sums.rightAssociative,
      sums.accessor.trans accessor, priority.mp sums.priority⟩
  · exact ⟨known.mpr sums.words, fixity.mpr sums.fixity, right.mpr sums.rightAssociative,
      sums.accessor.trans accessor.symm, priority.mpr sums.priority⟩

end ClauseSummary

/-- **The order of clauses does not matter**, nor how often each is written.  An operator is built exactly if
every clause is known, the clauses agree on its fixity, its associativity and its priority, only a binary
operator has an associativity, and an accessor is binary and not right-associative; and clauses that say the
same build the same operator. -/
theorem buildOperator_unordered (name : String) (keyword : Bool) (aliasName : Option String)
    (finite : ∀ clause ∈ clauses, ∀ priority, clause.priority = some priority → priority.isFinite = true)
    (same : ∀ word priority, (∃ clause ∈ clauses, clause.name = word ∧ clause.priority = priority) ↔
      ∃ clause ∈ others, clause.name = word ∧ clause.priority = priority) :
    ((∃ op, buildOperator name keyword clauses aliasName = .ok op) ↔ Consistent clauses) ∧
      ∀ op, buildOperator name keyword clauses aliasName = .ok op ↔
        buildOperator name keyword others aliasName = .ok op := by
  have numbers : ∀ clause ∈ clauses, clause.priority ≠ some .notANumber := fun clause mem told =>
    absurd (finite clause mem _ told) (by decide)
  have otherNumbers : ∀ clause ∈ others, clause.priority ≠ some .notANumber := fun clause mem told => by
    obtain ⟨twin, twinMem, -, twinTold⟩ := (same clause.name clause.priority).mpr ⟨clause, mem, rfl, rfl⟩
    exact numbers twin twinMem (twinTold.trans told)
  refine ⟨?_, fun op => ?_⟩
  · rw [← ClauseSummary.exists_sums_mistake?_iff]
    simp only [buildOperator_eq_ok_iff numbers]
    constructor
    · rintro ⟨_, summary, sums, calm, -⟩
      exact ⟨summary, sums, calm⟩
    · rintro ⟨summary, sums, calm⟩
      exact ⟨_, summary, sums, calm, rfl⟩
  · rw [buildOperator_eq_ok_iff numbers, buildOperator_eq_ok_iff otherNumbers]
    simp only [ClauseSummary.sums_congr same]

/-- The same two clauses in the other order, and one of them twice. -/
theorem buildOperator_unordered_of_repeated :
    let binary : Clause := ⟨"binary", some (.finite 7), 4⟩
    let right : Clause := ⟨"right-associative", none, 9⟩
    let op : OperatorDefinition := ⟨"<-", false, .binary, some "assign", true, false, .finite 7⟩
    (∃ op, buildOperator "<-" false [binary, right] (some "assign") = .ok op) ∧
      Consistent [binary, right] ∧
      buildOperator "<-" false [right, binary, right] (some "assign") = .ok op := by
  intro binary right op
  have built : buildOperator "<-" false [binary, right] (some "assign") = .ok op := by rfl
  obtain ⟨consistent, unordered⟩ := @buildOperator_unordered [binary, right] [right, binary, right] "<-" false
    (some "assign") (by simp [binary, right, Priority.isFinite]) (by simp [or_comm])
  exact ⟨⟨op, built⟩, consistent.mp ⟨op, built⟩, (unordered op).mp built⟩

end TreeLang
