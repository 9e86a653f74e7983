import TreeLang.Proofs.Evolving
import TreeLang.Proofs.Operators
import TreeLang.Proofs.SelfContained

/-!
# What a source hands to its importers

A source that does nothing but define has in force what every source begins with, and what it hands to
its importers.  Whoever begins as it did and imports from it comes to have the same in force: every
macro finds its place again, every operator comes behind those it came behind, and nothing is in the
way of anything.

* `MacroRegistry.Orderly`, `copyFrom_empty` — macros in their order are copied one behind the other.
* `OperatorRegistry.conflict?_of_subset` — among fewer operators there are fewer conflicts.
* **`ParserState.Gathered`** — what is in force is what importers would have in force.
* `Parser.Gathers` — steps that keep it so.
* `Parser.Defines` — every statement of a source defines something.
* **`gathered_of_defines`** — such a source ends gathered, and without a value.
-/

namespace TreeLang

/-! ## Macros -/

namespace Signature

lemma le_iff {a b : Signature} :
    a.le b = true ↔ a.name < b.name ∨ a.name = b.name ∧ a.kind.rank ≤ b.kind.rank := by
  simp [le]

lemma le_trans {a b c : Signature} (first : a.le b = true) (second : b.le c = true) :
    a.le c = true := by
  rw [le_iff] at first second ⊢
  rcases first with less | ⟨same, rank⟩
  · rcases second with less' | ⟨same', -⟩
    · exact .inl (String.lt_trans less less')
    · exact .inl (same' ▸ less)
  · rcases second with less' | ⟨same', rank'⟩
    · exact .inl (same ▸ less')
    · exact .inr ⟨same.trans same', Nat.le_trans rank rank'⟩

lemma le_of_not_le {a b : Signature} (not_le : ¬ a.le b = true) : b.le a = true := by
  rw [le_iff, not_or, not_and] at not_le
  obtain ⟨less, rank⟩ := not_le
  rw [le_iff]
  by_cases before : b.name < a.name
  · exact .inl before
  · have same : a.name = b.name := String.le_antisymm (String.not_lt.mp before) (String.not_lt.mp less)
    exact .inr ⟨same.symm, Nat.le_of_not_le (rank same)⟩

end Signature

namespace MacroRegistry

variable {registry larger : MacroRegistry} {new : Shared MacroDefinition}
  {entries : List (Shared MacroDefinition)}

/-- One macro in front of another one: the order is that of their signatures, and they are neither the
same nor duplicates. -/
structure Before (a b : Shared MacroDefinition) : Prop where
  distinct : a.identity ≠ b.identity
  le : a.value.signature.le b.value.signature = true
  unlike : a.value.signature = b.value.signature →
    ¬ alikeParameters a.value.parameters b.value.parameters = true

/-- **A registry in order**, without duplicates. -/
def Orderly (registry : MacroRegistry) : Prop :=
  registry.definitions.Pairwise Before

lemma mem_insertOrdered {entry : Shared MacroDefinition} :
    entry ∈ insertOrdered new entries ↔ entry = new ∨ entry ∈ entries := by
  induction entries with
  | nil => simp [insertOrdered]
  | cons first rest ih =>
    rw [insertOrdered]
    split
    · rw [List.mem_cons, ih, List.mem_cons, or_left_comm]
    · rw [List.mem_cons]

/-- A macro finds its place. -/
lemma pairwise_insertOrdered (ordered : entries.Pairwise Before)
    (distinct : ∀ entry ∈ entries, entry.identity ≠ new.identity)
    (unlike : ∀ entry ∈ entries, entry.value.signature = new.value.signature →
      ¬ alikeParameters entry.value.parameters new.value.parameters = true) :
    (insertOrdered new entries).Pairwise Before := by
  induction entries with
  | nil => exact List.pairwise_singleton _ _
  | cons first rest ih =>
    obtain ⟨front, ordered⟩ := List.pairwise_cons.mp ordered
    rw [insertOrdered]
    split
    · rename_i le
      refine List.pairwise_cons.mpr ⟨fun entry mem => ?_, ih ordered
        (fun entry mem => distinct entry (List.mem_cons_of_mem _ mem))
        fun entry mem => unlike entry (List.mem_cons_of_mem _ mem)⟩
      rcases mem_insertOrdered.mp mem with rfl | mem
      · exact ⟨distinct first List.mem_cons_self, le, unlike first List.mem_cons_self⟩
      · exact front entry mem
    · rename_i behind
      -- The new macro stands in front of everything that the first one stands in front of.
      have first_le : ∀ entry ∈ first :: rest,
          first.value.signature.le entry.value.signature = true := by
        intro entry mem
        rcases List.mem_cons.mp mem with rfl | mem
        · exact Signature.le_iff.mpr (.inr ⟨rfl, Nat.le_refl _⟩)
        · exact (front entry mem).le
      refine List.pairwise_cons.mpr ⟨fun entry mem => ⟨(distinct entry mem).symm,
        Signature.le_trans (Signature.le_of_not_le behind) (first_le entry mem), fun same => ?_⟩,
        List.pairwise_cons.mpr ⟨front, ordered⟩⟩
      exact absurd (same ▸ first_le entry mem) behind

/-- What is known of a macro that enters. -/
lemma unlike_of_add (added : registry.add new = .ok larger) :
    larger.definitions = insertOrdered new registry.definitions ∧
      ∀ entry ∈ registry.definitions, entry.value.signature = new.value.signature →
        ¬ alikeParameters entry.value.parameters new.value.parameters = true := by
  rw [add] at added
  split at added
  · cases added
  · rename_i none
    cases added
    refine ⟨rfl, fun entry mem same => ?_⟩
    exact List.find?_eq_none.mp none entry (List.mem_filter.mpr ⟨mem, by simpa using same⟩)

lemma Orderly.add (orderly : registry.Orderly)
    (distinct : ∀ entry ∈ registry.definitions, entry.identity ≠ new.identity)
    (added : registry.add new = .ok larger) : larger.Orderly := by
  obtain ⟨same, unlike⟩ := unlike_of_add added
  rw [Orderly, same]
  exact pairwise_insertOrdered orderly distinct unlike

/-- Behind everything that stands in front of it a macro comes last. -/
lemma insertOrdered_of_last (front : ∀ entry ∈ entries, Before entry new) :
    insertOrdered new entries = entries ++ [new] := by
  induction entries with
  | nil => rfl
  | cons first rest ih =>
    rw [insertOrdered, if_pos (front first List.mem_cons_self).le,
      ih fun entry mem => front entry (List.mem_cons_of_mem _ mem), List.cons_append]

lemma copyOne_of_last (front : ∀ entry ∈ registry.definitions, Before entry new) :
    copyOne ([], registry) new = ([], ⟨registry.definitions ++ [new]⟩) := by
  have absent : registry.definitions.any new.is = false := by
    rw [List.any_eq_false]
    intro entry mem
    simpa [Shared.is] using (front entry mem).distinct.symm
  have unlike : (registry.group new.value.signature).find? (fun entry =>
      alikeParameters entry.value.parameters new.value.parameters) = none := by
    rw [List.find?_eq_none]
    intro entry mem
    obtain ⟨mem, same⟩ := List.mem_filter.mp mem
    exact (front entry mem).unlike (by simpa using same)
  simp only [copyOne, absent, add, unlike, insertOrdered_of_last front]
  rfl

/-- **Macros in their order** are copied one behind the other. -/
theorem copyFrom_empty (orderly : registry.Orderly) :
    MacroRegistry.empty.copyFrom registry = ([], registry) := by
  have copied (rest : List (Shared MacroDefinition)) (known : MacroRegistry)
      (ordered : (known.definitions ++ rest).Pairwise Before) :
      rest.foldl copyOne ([], known) = ([], ⟨known.definitions ++ rest⟩) := by
    induction rest generalizing known with
    | nil => rw [List.append_nil]; rfl
    | cons entry rest ih =>
      have front := (List.pairwise_append.mp ordered).2.2
      rw [List.foldl_cons, copyOne_of_last fun known mem => front known mem entry List.mem_cons_self,
        ih _ (by rwa [List.append_assoc]), List.append_assoc]
      rfl
  exact copied registry.definitions .empty orderly

end MacroRegistry

/-! ## Operators -/

namespace OperatorRegistry

variable {registry larger : OperatorRegistry} {op : OperatorDefinition}

/-- **Among fewer operators there are fewer conflicts.** -/
lemma conflict?_of_subset (subset : registry.definitions ⊆ larger.definitions)
    (enters : larger.conflict? op = none) : registry.conflict? op = none := by
  simp only [conflict?] at enters ⊢
  split_ifs at enters ⊢
  obtain ⟨names, priorities⟩ := Option.or_eq_none_iff.mp enters
  rw [List.findSome?_eq_none_iff] at names priorities
  refine Option.or_eq_none_iff.mpr ⟨List.findSome?_eq_none_iff.mpr fun existing mem => ?_,
    List.findSome?_eq_none_iff.mpr fun existing mem => ?_⟩
  all_goals obtain ⟨mem, same⟩ := List.mem_filter.mp mem
  · exact names existing (List.mem_filter.mpr ⟨subset mem, same⟩)
  · exact priorities existing (List.mem_filter.mpr ⟨subset mem, same⟩)

/-- An operator that enters comes last. -/
lemma conflict?_of_add (added : registry.add op = .ok larger) :
    registry.conflict? op = none ∧ larger = ⟨registry.definitions ++ [op]⟩ := by
  rw [add] at added
  split at added
  · cases added
  · rename_i none
    cases added
    exact ⟨none, rfl⟩

/-- An operator that enters was not there. -/
lemma copyOne_of_add (added : registry.add op = .ok larger) :
    copyOne ([], registry) op = ([], larger) := by
  have absent : registry.definitions.any op.agrees = false := by
    rw [List.any_eq_false]
    intro other mem agrees
    obtain rfl : op = other := by
      rw [OperatorDefinition.agrees, Bool.and_eq_true] at agrees
      exact of_decide_eq_true agrees.1
    have compatible := (compatible_of_conflict? (conflict?_of_add added).1).2 op mem
    exact (compatible.1 rfl).2.1 rfl
  simp only [copyOne, absent, added]
  rfl

end OperatorRegistry

/-! ## What is in force -/

variable {start : OperatorRegistry} {s t : ParserState}

/-- **What is in force is what importers would have in force**, if they begin with the same operators. -/
structure ParserState.Gathered (start : OperatorRegistry) (s : ParserState) : Prop where
  macros : s.exported.macros = s.visible.macros
  orderly : s.visible.macros.Orderly
  below : s.visible.Below s.imports.supply.fresh
  operators : s.exported.operators.definitions ⊆ s.visible.operators.definitions
  copied : start.copyFrom s.exported.operators = ([], s.visible.operators)

namespace ParserState.Gathered

lemma of_same (gathered : s.Gathered start) (visible : t.visible = s.visible)
    (exported : t.exported = s.exported) (imports : t.imports = s.imports) : t.Gathered start := by
  obtain ⟨macros, orderly, below, operators, copied⟩ := gathered
  exact ⟨by rwa [visible, exported], by rwa [visible], by rwa [visible, imports],
    by rwa [visible, exported], by rwa [visible, exported]⟩

/-- **Importing what was gathered** brings everything into force, without a conflict. -/
theorem copyFrom (gathered : s.Gathered start) :
    Definitions.copyFrom ⟨.empty, start⟩ s.exported = ([], s.visible) := by
  have macros : MacroRegistry.empty.copyFrom s.exported.macros = ([], s.visible.macros) := by
    rw [gathered.macros]
    exact MacroRegistry.copyFrom_empty gathered.orderly
  have operators := gathered.copied
  simp only [Definitions.copyFrom, macros, operators, List.map_nil, List.append_nil]

end ParserState.Gathered

namespace Parser

variable {α β : Type} {options : CompileOptions} {resolver : Resolver}

/-- The state that a step comes to. -/
def stateOf : EStateM.Result Fault ParserState α → ParserState
  | .ok _ t => t
  | .error _ t => t

/-- **A step that keeps gathered** what is in force. -/
def Gathers (start : OperatorRegistry) (step : Parser α) : Prop :=
  ∀ s, s.Gathered start → (stateOf (step s)).Gathered start

namespace Gathers

lemma of_blind {step : Parser α} (blind : Blind step) : Gathers start step := by
  intro s gathered
  match h : step s with
  | .ok _ t =>
    obtain ⟨visible, exported, imports⟩ := blind.of_ok h
    exact gathered.of_same visible exported imports
  | .error _ t =>
    obtain ⟨visible, exported, imports⟩ := blind.of_error h
    exact gathered.of_same visible exported imports

lemma bind {step : Parser α} {next : α → Parser β} (first : Gathers start step)
    (second : ∀ value, Gathers start (next value)) : Gathers start (step >>= next) := by
  intro s gathered
  have gathered := first s gathered
  match h : step s with
  | .ok value t =>
    rw [h] at gathered
    rw [bind_ok h]
    exact second value t gathered
  | .error fault t =>
    rw [h] at gathered
    rw [bind_error h]
    exact gathered

lemma after {step : Parser α} {next : α → Parser β} (first : Blind step)
    (second : ∀ value, Gathers start (next value)) : Gathers start (step >>= next) :=
  bind (of_blind first) second

lemma ite {condition : Prop} [Decidable condition] {first second : Parser α}
    (h : Gathers start first) (h' : Gathers start second) :
    Gathers start (if condition then first else second) := by
  split <;> assumption

lemma attempt {step : Parser α} (gathers : Gathers start step) : Gathers start (attempt step) := by
  intro s gathered
  have gathered := gathers s gathered
  rw [Parser.attempt]
  generalize step s = outcome at gathered
  cases outcome <;> exact gathered

/-- **A macro that is registered** is so in both registries. -/
lemma registerMacro (definition : MacroDefinition) (offset : Nat) :
    Gathers start (registerMacro definition offset) := by
  intro s gathered
  have below : s.visible.Below s.imports.shared.supply.fresh := fun entry mem =>
    Nat.lt_succ_of_lt (gathered.below entry mem)
  rw [registerMacro_run]
  dsimp only
  cases added : s.visible.macros.add ⟨s.imports.supply.fresh, definition⟩ with
  | error report => exact of_blind (blind_note _) _ { gathered with below := below }
  | ok macros =>
    dsimp only
    rw [gathered.macros, added]
    refine ⟨rfl, gathered.orderly.add (fun entry mem => ?_) added, fun entry mem => ?_,
      gathered.operators, gathered.copied⟩
    · exact Nat.ne_of_lt (gathered.below entry mem)
    · have mem : entry ∈ macros.definitions := mem
      rw [(MacroRegistry.unlike_of_add added).1] at mem
      rcases MacroRegistry.mem_insertOrdered.mp mem with rfl | mem
      · exact Nat.lt_succ_self _
      · exact below entry mem

/-- **An operator that is registered** is so in both registries. -/
lemma registerOperator (op : OperatorDefinition) (offset : Nat) :
    Gathers start (registerOperator options op offset) := by
  intro s gathered
  rw [registerOperator_run]
  dsimp only
  cases added : s.visible.operators.add op with
  | error conflict => exact of_blind ((blind_note _).bind fun _ => blind_forget) _ gathered
  | ok operators =>
    obtain ⟨enters, rfl⟩ := OperatorRegistry.conflict?_of_add added
    have exported : s.exported.operators.add op = .ok ⟨s.exported.operators.definitions ++ [op]⟩ := by
      rw [OperatorRegistry.add, OperatorRegistry.conflict?_of_subset gathered.operators enters]
    dsimp only
    rw [exported]
    refine ⟨gathered.macros, gathered.orderly, gathered.below, ?_, ?_⟩
    · exact List.append_subset.mpr
        ⟨fun other mem => List.mem_append_left _ (gathered.operators mem), List.subset_append_right _ _⟩
    · have copied : s.exported.operators.definitions.foldl OperatorRegistry.copyOne ([], start)
          = ([], s.visible.operators) := gathered.copied
      show (s.exported.operators.definitions ++ [op]).foldl OperatorRegistry.copyOne ([], start) = _
      rw [List.foldl_append, copied]
      exact OperatorRegistry.copyOne_of_add added

/-- What keeps macros and operators as they are, and what defines some. -/
lemma macroTemplate (fuel : Nat) (name : Token) (signature : Signature) (parameters : List Parameter)
    (checked : Except Report (List Parameter)) :
    Gathers start (macroTemplate options fuel name signature parameters checked) := by
  rw [macroTemplate_eq]
  refine after (blind_counted (blind_template options fuel parameters)) fun found => ?_
  obtain ⟨⟨node, scope⟩, mistaken⟩ := found
  cases checked with
  | error report => exact of_blind (.pure ())
  | ok parameters =>
    cases scope with
    | none => exact of_blind (.pure ())
    | some scope =>
      refine ite (of_blind (.pure ())) ?_
      split
      · exact after (.forM fun _ => blind_note _) fun _ => registerMacro _ _
      · exact of_blind (blind_note _)
      · exact of_blind (.throw _)

lemma macroStatement (fuel : Nat) (function : Bool) :
    Gathers start (macroStatement options fuel function) := by
  refine after (blind_advance _ _) fun word => after (blind_advance _ _) fun name => ?_
  refine ite (of_blind (blind_giveUp _ _)) (after (blind_macroHead _ _ _ _) fun head => ?_)
  match head with
  | none => exact of_blind (blind_recover _)
  | some (kind, parameters) =>
    refine after (blind_peek _ _) fun colon => ite (of_blind (blind_giveUp _ _)) ?_
    refine after (blind_skipToken _ _) fun _ => ?_
    rw [macroBody_eq]
    split
    · exact after (blind_note _) fun _ => macroTemplate _ _ _ _ _
    · exact macroTemplate _ _ _ _ _

lemma operatorStatement (fuel : Nat) (keyword : Bool) :
    Gathers start (operatorStatement options fuel keyword) := by
  refine after (blind_advance _ _) fun word => after (blind_advance _ _) fun symbol => ?_
  refine ite (of_blind (blind_giveUp _ _)) (after (blind_advance _ _) fun asWord => ?_)
  refine ite (of_blind (blind_giveUp _ _)) (after (blind_clauseList _ _) fun clauses => ?_)
  cases clauses with
  | none => exact of_blind (.pure ())
  | some clauses =>
    refine after blind_operatorAlias fun found => ?_
    cases found with
    | none => exact of_blind (.pure ())
    | some aliasName =>
      dsimp only
      split
      · exact registerOperator _ _
      · exact of_blind (blind_note _)

end Gathers

/-! ## Sources that define -/

/-- Whether a keyword begins a statement that defines something in its own source. -/
def defining : StatementKeyword → Bool
  | .template | .function | .operator | .keyword => true
  | .undefine | .use => false

/-- **Every statement of a source defines something.** -/
def Defines (options : CompileOptions) (resolver : Resolver) (s : ParserState) : Prop :=
  ∀ t, Reaches options resolver s t → (t.reads true .word).token.kind ≠ .endOfInput →
    ∃ opening, t.lexis.statementAt? t.here = some opening ∧ defining opening = true

lemma Defines.reached (defines : Defines options resolver s) (reaches : Reaches options resolver s t) :
    Defines options resolver t :=
  fun u further => defines u (reaches.trans further)

/-- Statements that define something keep gathered what is in force. -/
lemma gathers_definitionStatement (fuel : Nat) {opening : StatementKeyword}
    (defines : defining opening = true) :
    Gathers start (definitionStatement options resolver fuel opening) := by
  match opening with
  | .template => exact .macroStatement fuel false
  | .function => exact .macroStatement fuel true
  | .operator => exact .operatorStatement fuel false
  | .keyword => exact .operatorStatement fuel true

lemma gathers_isolate (offset : Nat) (fault : Fault) : Gathers start (isolate offset fault) := by
  intro s gathered
  rw [isolate_eq]
  exact Gathers.of_blind (blind_giveUp _ _) _ (gathered.of_same rfl rfl rfl)

/-- Such a statement has no value. -/
lemma gathered_parseStatement (settled : s.Settled) {opening : StatementKeyword}
    (found : s.lexis.statementAt? s.here = some opening) (defines : defining opening = true)
    (gathered : s.Gathered start) :
    (stateOf (parseStatement options resolver (s.reads true .word).token s)).Gathered start ∧
      ∀ value t, parseStatement options resolver (s.reads true .word).token s = .ok value t →
        value = none := by
  obtain ⟨_, t, keyword, -, rfl, -⟩ := ends_statementKeyword? settled
  have gathered : t.Gathered start := by
    obtain ⟨visible, exported, imports⟩ := (blind_statementKeyword? _).of_ok keyword
    exact gathered.of_same visible exported imports
  rw [found] at keyword
  rw [parseStatement, bind_ok (valueFuel_eq settled), bind_ok keyword]
  refine ⟨Gathers.bind (gathers_definitionStatement _ defines) (fun _ => .of_blind (.pure _)) t gathered,
    fun value u run => ?_⟩
  obtain ⟨_, v, -, ends⟩ := bind_eq_ok.mp run
  cases ends
  rfl

/-- A statement that begins with a keyword begins with a word. -/
lemma kind_of_statementAt? {lexis : Lexis} {p : Place} {opening : StatementKeyword}
    (found : lexis.statementAt? p = some opening) : (lexis.read true .word p).token.kind = .literal := by
  by_contra other
  rw [Lexis.statementAt?, if_neg other] at found
  cases found

/-- A round of a source that does nothing but define adds no value. -/
lemma gathered_roundFrom {token : Token} {added : List Node} {u : ParserState} (settled : s.Settled)
    {opening : StatementKeyword} (found : s.lexis.statementAt? s.here = some opening)
    (defines : defining opening = true) (gathered : s.Gathered start)
    (looked : peek true .word s = .ok token t)
    (run : roundFrom options resolver token t = .ok added u) : u.Gathered start ∧ added = [] := by
  obtain ⟨_, t', hpeek, settled', rfl, moves, stays, -⟩ := ends_peek settled true .word
  obtain ⟨rfl, rfl⟩ := ok_unique looked hpeek
  have gathered : t.Gathered start := by
    obtain ⟨visible, exported, imports⟩ := (blind_peek true .word).of_ok looked
    exact gathered.of_same visible exported imports
  have same : t.reads true .word = s.reads true .word := by
    rw [ParserState.reads, ParserState.reads, moves.lexis, stays]
  have kind : (s.reads true .word).token.kind = .literal := kind_of_statementAt? found
  rw [roundFrom, if_neg (by rw [kind]; decide), if_neg (by rw [kind]; decide),
    if_neg (by rw [kind]; decide)] at run
  obtain ⟨outcome, v, tried, run⟩ := bind_eq_ok.mp run
  obtain ⟨kept, valueless⟩ : (stateOf (parseStatement options resolver (t.reads true .word).token t)).Gathered
      start ∧ _ := gathered_parseStatement settled' (by rwa [moves.lexis, stays]) defines gathered
  rw [same] at kept valueless
  rw [attempt] at tried
  cases statement : parseStatement options resolver (s.reads true .word).token t with
  | ok value w =>
    rw [statement] at kept tried
    cases tried
    obtain ⟨_, x, ended, ends⟩ := bind_eq_ok.mp run
    cases ends
    have left : (stateOf (endStatement v)).Gathered start := Gathers.of_blind blind_endStatement v kept
    rw [ended] at left
    exact ⟨left, by rw [valueless value v statement]; rfl⟩
  | error fault w =>
    rw [statement] at kept tried
    cases tried
    obtain ⟨_, x, ended, ends⟩ := bind_eq_ok.mp run
    cases ends
    have left : (stateOf (isolate (s.reads true .word).token.start fault v)).Gathered start :=
      gathers_isolate _ fault v kept
    rw [ended] at left
    exact ⟨left, rfl⟩

/-- **A source that does nothing but define** ends gathered, and without a value. -/
theorem gathered_of_defines {fuel : Nat} {values result : List Node} {u : ParserState}
    (settled : s.Settled) (resting : s.Resting) (defines : Defines options resolver s)
    (gathered : s.Gathered start) (run : parseAll options resolver fuel values s = .ok result u) :
    u.Gathered start ∧ result = values.reverse := by
  induction fuel generalizing s values with
  | zero => cases run
  | succ fuel ih =>
    obtain ⟨_, t, looked, -, rfl, -⟩ := ends_peek settled true .word
    rw [parseAll_succ] at run
    by_cases ended : (s.reads true .word).token.kind = .endOfInput
    · have flushed : Blind (noteLexical >>= fun _ => pure values.reverse) :=
        blind_noteLexical.bind fun _ => .pure _
      rw [sourceRound_eq, bind_ok looked, if_pos ended] at run
      obtain ⟨visible, exported, imports⟩ := (blind_peek true .word).of_ok looked
      obtain ⟨visible', exported', imports'⟩ := flushed.of_ok run
      obtain ⟨_, _, -, ends⟩ := bind_eq_ok.mp run
      cases ends
      exact ⟨(gathered.of_same visible exported imports).of_same visible' exported' imports', rfl⟩
    · rw [sourceRound_of_more looked ended] at run
      obtain ⟨added, v, round, run⟩ := bind_eq_ok.mp run
      obtain ⟨opening, found, defining⟩ := defines s (.here s) ended
      obtain ⟨gathered, rfl⟩ := gathered_roundFrom settled found defining gathered looked round
      have reaches := Reaches.of_round settled looked ended round
      obtain ⟨settled, resting⟩ := resting_of_reaches settled resting reaches
      exact ih settled resting (defines.reached reaches) gathered run

end Parser

end TreeLang
