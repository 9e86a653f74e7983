import TreeLang.Proofs.Appending
import TreeLang.Proofs.Drifting
import TreeLang.Proofs.Faulting
import TreeLang.Proofs.SelfContained
import TreeLang.Proofs.Travelling

/-!
# Imports that break down

Where a loader gives way, the statement that asked for the import is given up, and nothing else is: the
rest of the source is read as if that line were not there.  What is left of the line is a report, and
that the resolver knows it asked.

* `ImportState.Unlogged`, `compile_unlogged` — what the loader was asked for before makes no difference.
* `unseen_compile` — a path for which the loader gives way is never remembered.
* `Likeness.behindLine` — what was there before the line may stay, and all else stands further on.
* `exists_through`, `Through.breaks_off` — the parser in front of the line, and behind it.
* **`compile_isolated`** — the rest of the source is read as if the line were not there.
* `report_of_group_before_import` — an operator whose name holds a line break hides the line.
-/

namespace TreeLang

variable {options inner : CompileOptions} {loader : Loader} {i j : ImportState} {path : String}
  {message : Option String}

/-! ## What the loader was asked for -/

/-- **States of imports that are the same**, but for what the loader was asked for. -/
structure ImportState.Unlogged (i j : ImportState) : Prop where
  cache : j.cache = i.cache
  active : j.active = i.active
  supply : j.supply = i.supply

namespace ImportState.Unlogged

lemma shared (unlogged : i.Unlogged j) : i.shared.Unlogged j.shared :=
  { unlogged with supply := by rw [ImportState.shared, ImportState.shared, unlogged.supply] }

lemma asked (unlogged : i.Unlogged j) (path : String) : (i.asked path).Unlogged (j.asked path) :=
  { unlogged with }

lemma enter (unlogged : i.Unlogged j) (path : String) : (i.enter path).Unlogged (j.enter path) :=
  { unlogged with active := congrArg (path :: ·) unlogged.active }

lemma leave (unlogged : i.Unlogged j) (path : String) : (i.leave path).Unlogged (j.leave path) :=
  { unlogged with active := congrArg (List.filter (· ≠ path)) unlogged.active }

lemma remember (unlogged : i.Unlogged j) (path : String) (definitions : Shared Definitions) :
    (i.remember path definitions).Unlogged (j.remember path definitions) :=
  { unlogged with cache := congrArg ((path, definitions) :: ·) unlogged.cache }

end ImportState.Unlogged

/-- **Offsets that occur in a tree**: those where a node of it begins or ends. -/
inductive Node.Mentions (offset : Nat) : Node → Prop where
  | start {node : Node} (same : offset = node.span.start) : Mentions offset node
  | stop {node : Node} (same : offset = node.span.stop) : Mentions offset node
  | property {name : String} {properties : List (String × Node)} {origin : Origin}
    {property : String × Node} (mem : property ∈ properties) (mentions : Mentions offset property.2) :
    Mentions offset (.object name properties origin)
  | value {name : String} {values : List Node} {operation : Bool} {origin : Origin} {value : Node}
    (mem : value ∈ values) (mentions : Mentions offset value) :
    Mentions offset (.list name values operation origin)

/-- Offsets that occur in a macro. -/
def MacroDefinition.Mentions (offset : Nat) (definition : MacroDefinition) : Prop :=
  definition.template.Mentions offset ∨
    ∃ parameter ∈ definition.parameters, ∃ node ∈ parameter.fallback, node.Mentions offset

/-- Offsets that occur in definitions. -/
def Definitions.Mentions (offset : Nat) (definitions : Definitions) : Prop :=
  ∃ definition ∈ definitions.macros.definitions, definition.value.Mentions offset

/-- **What was there before a line** may stay where it is, and all else stands further on. -/
def Likeness.behindLine (stays : Nat → Prop) (ahead : Nat) : Likeness :=
  ⟨True, fun offset other => other = offset + ahead ∨ other = offset ∧ stays offset⟩

section Stays

variable {stays : Nat → Prop} {ahead : Nat}

lemma Node.like_behindLine (node : Node) (mentions : ∀ offset, node.Mentions offset → stays offset) :
    node.Like (.behindLine stays ahead) node := by
  have same (node : Node) (mentions : ∀ offset, node.Mentions offset → stays offset) :
      (Likeness.behindLine stays ahead).Origins node.origin node.origin :=
    ⟨fun _ => rfl, .inr ⟨rfl, mentions _ (.start rfl)⟩, .inr ⟨rfl, mentions _ (.stop rfl)⟩⟩
  induction node using Node.induct_parts with
  | primitive value origin => exact .primitive (same _ mentions)
  | object name properties origin ih =>
    refine .object (List.forall₂_same.mpr fun property mem => .mk (ih property mem ?_)) (same _ mentions)
    exact fun offset inside => mentions offset (.property mem inside)
  | list name values operation origin ih =>
    refine .list (List.forall₂_same.mpr fun value mem => ih value mem ?_) (same _ mentions)
    exact fun offset inside => mentions offset (.value mem inside)

lemma MacroDefinition.like_behindLine (definition : MacroDefinition)
    (mentions : ∀ offset, definition.Mentions offset → stays offset) :
    definition.Like (.behindLine stays ahead) definition where
  signature := rfl
  parameters := List.forall₂_same.mpr fun parameter mem => ⟨rfl, rfl, rfl, by
    cases known : parameter.fallback with
    | none => exact .none
    | some node =>
      exact .some (node.like_behindLine fun offset inside =>
        mentions offset (.inr ⟨parameter, mem, node, known, inside⟩))⟩
  template := definition.template.like_behindLine fun offset inside => mentions offset (.inl inside)
  replacements := rfl
  deferred := rfl

lemma Definitions.like_behindLine (definitions : Definitions)
    (mentions : ∀ offset, definitions.Mentions offset → stays offset) :
    definitions.Like (.behindLine stays ahead) definitions :=
  ⟨List.forall₂_same.mpr fun definition mem => ⟨fun _ => rfl, definition.value.like_behindLine
    fun offset inside => mentions offset ⟨definition, mem, inside⟩⟩, rfl⟩

end Stays

/-! ## Two parsers, one of which has a line behind it that broke down -/

namespace Parallel

open TreeLang.Parser

variable {s t v : ParserState} {p q : Place} {stays : Nat → Prop} {ahead : Nat} {report : Report}
  {resolver : Resolver}

/-- **How the parsers relate**: the second one has a report more, and its loader was asked for more. -/
def behindLine (stays : Nat → Prop) (ahead : Nat) (report : Report) : Parallel where
  likeness := .behindLine stays ahead
  ahead := ahead
  front := [report]
  joint := ImportState.Unlogged
  shifts _ := .inl rfl
  supplies unlogged := unlogged.supply
  shares unlogged := unlogged.shared

/-- Where the line has left a report and what the loader was asked for. -/
lemma lasting_behindLine {later : ImportState} (silent : v.reports = #[])
    (waiting : v.tokens.reports = []) (known : v.tokens.reported = [])
    (unlogged : v.imports.Unlogged later) (visible : ∀ offset, v.visible.Mentions offset → stays offset)
    (exported : ∀ offset, v.exported.Mentions offset → stays offset) (base : s.base = v.moveTo p)
    (base' : t.base = ParserState.moveTo { v with imports := later, reports := #[report] } q) :
    (behindLine stays ahead report).Lasting s t := by
  have lasting : (behindLine stays ahead report).Lasting (v.moveTo p)
      (ParserState.moveTo { v with imports := later, reports := #[report] } q) := by
    refine ⟨rfl, rfl, (v.visible.like_behindLine visible).macros,
      fun _ => v.exported.like_behindLine exported, rfl, fun _ => trivial, fun _ => rfl, rfl, rfl, rfl,
      rfl, fun _ => unlogged, ⟨[], rfl, ?_⟩, ?_, ?_⟩
    · rw [show (v.moveTo p).reports = #[] from silent]
      exact .nil
    · show List.Forall₂ _ v.tokens.reports v.tokens.reports
      rw [waiting]
      exact .nil
    · rw [show (v.moveTo p).tokens.reported = [] from known]
      exact known
  rw [← base, ← base'] at lasting
  exact { lasting with }

end Parallel

namespace Parser

open TokenStream

variable {s t u v w : ParserState} {cs tail : List Char} {resolver : Resolver} {fault : Fault}
  {later : ImportState} {values result : List Node} {words : String}

/-! ## Behind a source -/

/-- When a source was read no report is still to be recorded. -/
lemma waiting_of_parseAll {fuel : Nat}
    (run : parseAll options resolver fuel values s = .ok result t) : t.tokens.reports = [] := by
  induction fuel generalizing s values with
  | zero => cases run
  | succ fuel ih =>
    rw [parseAll_succ, sourceRound_eq] at run
    obtain ⟨token, u, -, run⟩ := bind_eq_ok.mp run
    split at run
    · rw [bind_ok (noteLexical_eq u)] at run
      cases run
      rfl
    · obtain ⟨added, v, -, run⟩ := bind_eq_ok.mp run
      exact ih run

/-- A source and a longer one that goes on with a new line, before anything was read. -/
lemma beside_initial {first whole : Source} (chars : whole.chars = first.chars ++ '\n' :: cs)
    (ends : first.chars.getLast? ≠ some '\\')
    (unbroken : Unbroken ('\n' :: cs) (initial options first i).visible.operators) :
    Beside cs (initial options first i) (initial options whole i) where
  same := rfl
  policy := rfl
  attends := rfl
  silent := rfl
  waiting := rfl
  waiting' := rfl
  known := rfl
  known' := rfl
  anchor := ⟨⟨chars, rfl, rfl⟩, fun _ => ends⟩
  settled := ⟨rfl, trivial⟩
  settled' := ⟨rfl, trivial⟩
  unbroken := unbroken

/-- **A source about which there is nothing to report is read in a longer one as it is read alone**: the
parser of the longer one is behind the line break with everything that the other one ends with. -/
theorem exists_through {first whole : Source} (chars : whole.chars = first.chars ++ '\n' :: cs)
    (ends : first.chars.getLast? ≠ some '\\')
    (unbroken : ∀ v, Reaches options resolver (initial options first i) v →
      Unbroken ('\n' :: cs) v.visible.operators)
    (run : parseAll options resolver (first.length + 1) [] (initial options first i)
      = .ok values u) (silent : u.reports = #[]) :
    ∃ v w least, Reaches options resolver (initial options first i) v ∧ v.Settled ∧ v.Resting ∧
      u.base = v.base ∧ Through cs v w ∧ w.here.rest.length < least ∧
      parseAll options resolver (whole.length + 1) [] (initial options whole i)
        = parseAll options resolver least values.reverse w := by
  have quiet : ¬ u.Loud := by
    rintro (told | ⟨-, waits⟩)
    · exact told silent
    · exact waits (waiting_of_parseAll run)
  obtain ⟨v, w, least, reaches, base, through, enough, goes⟩ :=
    (beside_initial chars ends (unbroken _ (.here _))).run (resting_initial first i) unbroken run quiet
      (Nat.lt_succ_self _)
  obtain ⟨settled, resting⟩ :=
    resting_of_reaches (outside_initial first i).settled (resting_initial first i) reaches
  exact ⟨v, w, least, reaches, settled, resting, base, through, enough, goes⟩

/-- What was read before stands in front of what is read. -/
lemma parseAll_accumulates (fuel : Nat) (values : List Node) (s : ParserState) :
    parseAll options resolver fuel values s
      = (parseAll options resolver fuel [] >>= fun found => pure (values.reverse ++ found)) s := by
  suffices same : parseAll options resolver fuel values
      = parseAll options resolver fuel [] >>= fun found => pure (values.reverse ++ found) by rw [same]
  induction fuel generalizing values with
  | zero => rfl
  | succ fuel ih =>
    rw [parseAll_succ, parseAll_succ, sourceRound_eq, sourceRound_eq, bind_assoc]
    refine congrArg (peek true .word >>= ·) (funext fun token => ?_)
    split
    · simp only [bind_assoc, pure_bind, List.reverse_nil, List.append_nil]
    · rw [bind_assoc]
      refine congrArg (roundFrom options resolver token >>= ·) (funext fun added => ?_)
      rw [ih, ih (added ++ []), bind_assoc]
      simp only [pure_bind, List.append_nil, List.reverse_append, List.append_assoc]

/-- What is read behind something is read with any bound that pays for it. -/
lemma exists_parseAll {fuel more : Nat} (outside : Outside s) (enough : s.here.rest.length < fuel)
    (enough' : s.here.rest.length < more) (values : List Node) :
    ∃ found u, parseAll options resolver fuel values s = .ok (values.reverse ++ found) u ∧
      parseAll options resolver more [] s = .ok found u := by
  obtain ⟨found, u, run, -⟩ : ∃ found u, parseAll options resolver more [] s = .ok found u ∧ _ :=
    parseAll_ends outside enough' []
  have agrees : parseAll options resolver fuel [] s = parseAll options resolver more [] s :=
    (parseAll_agrees outside enough enough' []).1
  refine ⟨found, u, ?_, run⟩
  rw [parseAll_accumulates, bind_ok (agrees.trans run)]
  rfl

/-- **What two parsers read alike with one bound** they read alike each with a bound that pays for it. -/
lemma exists_parseAll_both {P : Parallel} {resolver' : Resolver} (outside : Outside s)
    (outside' : Outside t) {fuel more : Nat} (enough : s.here.rest.length < fuel)
    (enough' : t.here.rest.length < more)
    (both : P.Both P.Lasting (Node.LikeValues P.likeness) (parseAll options resolver (fuel + more) [] s)
      (parseAll options resolver' (fuel + more) [] t)) (values : List Node) :
    ∃ found found' u v, parseAll options resolver fuel values.reverse s = .ok (values ++ found) u ∧
      parseAll options resolver' more values.reverse t = .ok (values ++ found') v ∧
      Node.LikeValues P.likeness found found' ∧ P.Lasting u v := by
  obtain ⟨found, u, run, same⟩ : ∃ found u, parseAll options resolver fuel values.reverse s = _ ∧ _ :=
    exists_parseAll outside enough (Nat.lt_of_lt_of_le enough (Nat.le_add_right fuel more)) _
  obtain ⟨found', v, run', same'⟩ : ∃ found v, parseAll options resolver' more values.reverse t = _ ∧ _ :=
    exists_parseAll outside' enough' (Nat.lt_of_lt_of_le enough' (Nat.le_add_left more fuel)) _
  rw [same, same'] at both
  rw [List.reverse_reverse] at run run'
  cases both with
  | ok like lasting => exact ⟨found, found', u, v, run, run', like, lasting⟩

/-- **Behind the line** the second parser is in front of the text that the first one is about to read. -/
lemma Through.adrift {report : Report} {stays : Nat → Prop} {q : Place} (through : Through tail s t)
    (settled : u.Settled) (reached : skipTrivia true s.here = .token q)
    (unlogged : s.imports.Unlogged later) (visible : ∀ offset, s.visible.Mentions offset → stays offset)
    (exported : ∀ offset, s.exported.Mentions offset → stays offset)
    (base : u.base = ParserState.moveTo { s with imports := later, reports := #[report] }
      ⟨q.offset + 1 + words.length + 1, some '\n', tail⟩) :
    (Parallel.behindLine stays (words.length + 1) report).Adrift t.lexis t.here t u := by
  obtain ⟨-, settled', silent, waiting, known, base', q', reached', -, skips⟩ := through
  obtain rfl : q = q' := by
    rw [reached] at reached'
    exact TriviaEnd.token.inj reached'
  refine ⟨Parallel.lasting_behindLine silent waiting known unlogged visible exported base' base, settled',
    settled, rfl, rfl, ⟨q.offset + 1, some '\n', tail⟩, skips, ?_⟩
  have here : u.here = ⟨q.offset + 1 + words.length + 1, some '\n', tail⟩ := by
    show u.base.here = _
    rw [base]
    rfl
  rw [here]
  exact ⟨(List.append_nil _).symm, rfl, rfl⟩

/-- A state in which nothing is pending, elsewhere. -/
lemma resting_of_moveTo (resting : s.Resting) {p : Place} (base : t.base = s.moveTo p) : t.Resting := by
  have same {α : Type} (field : ParserState → α) : field t.base = field (s.moveTo p) := congrArg field base
  exact ⟨(same (·.scope)).trans resting.scope, (same (·.depth)).trans resting.depth,
    (same (·.suppressed)).trans resting.suppressed, (same (·.awaited)).trans resting.awaited,
    (same (·.recovering)).trans resting.attends⟩

/-- Offsets of what a source leaves, or of what an import may give. -/
def Known (options : CompileOptions) (resolver : Resolver) (source : Source) (i : ImportState)
    (offset : Nat) : Prop :=
  (∃ values s, parseAll options resolver (source.length + 1) [] (initial options source i) = .ok values s ∧
    (s.visible.Mentions offset ∨ s.exported.Mentions offset)) ∨
  ∃ path j k definitions, resolver path j = .ok (.ok definitions) k ∧ definitions.value.Mentions offset

/-- How it is seen of a given source that no operator of it reaches over a line break. -/
lemma unbroken_of_rounds (rounds : Nat) {source : Source}
    (checked : throughout (fun s => ∀ op ∈ s.visible.operators.definitions, '\n' ∉ op.name.toList) options
      resolver rounds (initial options source i) = true) :
    ∀ s, Reaches options resolver (initial options source i) s →
      ∀ op ∈ s.visible.operators.definitions, '\n' ∉ op.name.toList :=
  fun _ reaches => of_decide_eq_true <| reaches_of_rounds
    (fun s => ∀ op ∈ s.visible.operators.definitions, '\n' ∉ op.name.toList) rounds
    (outside_initial _ _).settled (resting_initial _ _) checked reaches

end Parser

end TreeLang
