import TreeLang.Proofs.Applying
import TreeLang.Proofs.Hearing

/-!
# Expanding a call

A call of a macro gives way to the template of the macro, and the invocations that were waiting in
it for arguments are offered to the macros again.  Where a macro is the only one, and its name is
said nowhere in its template or in the arguments, nothing answers to them.

* `Node.strip_set?` — putting a node in the place of one that says the same.
* `expandDeferred_of_still` — invocations that nothing answers to stay.
* **`invoke_ofList`** — what a call of the only macro gives way to.
-/

namespace TreeLang

variable {names : List String} {arguments : List Node}

/-! ## Putting the same in place -/

namespace Node

/-- Changing what a key finds, to something that says the same. -/
lemma strip_modifyKey? {change : Node → Option Node} {key : String} :
    {properties changed : List (String × Node)} →
      (∀ old new, lookup properties key = some old → change old = some new → new.strip = old.strip) →
      modifyKey? change key properties = some changed →
        stripProperties changed = stripProperties properties
  | [], _, _, modified => by cases modified
  | (other, value) :: rest, changed, same, modified => by
    rw [modifyKey?] at modified
    split at modified
    · rename_i found
      obtain ⟨new, hnew, rfl⟩ := Option.map_eq_some_iff.mp modified
      rw [stripProperties, stripProperties, same value new (by simp [lookup, found]) hnew]
    · rename_i passed
      obtain ⟨others, hothers, rfl⟩ := Option.map_eq_some_iff.mp modified
      rw [stripProperties, stripProperties, strip_modifyKey? (fun old new found => same old new (by
        rw [← found]
        simp [lookup, passed])) hothers]

/-- Changing what an index finds, to something that says the same. -/
lemma strip_modifyIndex? {change : Node → Option Node} :
    {index : Nat} → {values changed : List Node} →
      (∀ old new, values[index]? = some old → change old = some new → new.strip = old.strip) →
      modifyIndex? change index values = some changed → stripValues changed = stripValues values
  | _, [], _, _, modified => by simp [modifyIndex?] at modified
  | 0, value :: rest, _, same, modified => by
    obtain ⟨new, hnew, rfl⟩ := Option.map_eq_some_iff.mp modified
    rw [stripValues, stripValues, same value new rfl hnew]
  | index + 1, value :: rest, _, same, modified => by
    obtain ⟨others, hothers, rfl⟩ := Option.map_eq_some_iff.mp modified
    have behind : ∀ old new, rest[index]? = some old → change old = some new →
        new.strip = old.strip := same
    rw [stripValues, stripValues, strip_modifyIndex? behind hothers]

/-- Changing a child to something that says the same. -/
lemma strip_modifyChild? {change : Node → Option Node} {node changed : Node} {step : PathStep}
    (same : ∀ old new, node.child? step = some old → change old = some new → new.strip = old.strip)
    (modified : node.modifyChild? change step = some changed) : changed.strip = node.strip := by
  cases node with
  | primitive => cases modified
  | object name properties origin =>
    cases step with
    | index => cases modified
    | key key =>
      obtain ⟨others, hothers, rfl⟩ := Option.map_eq_some_iff.mp modified
      rw [strip, strip, strip_modifyKey? same hothers]
  | list name values operation origin =>
    cases step with
    | key => cases modified
    | index index =>
      obtain ⟨others, hothers, rfl⟩ := Option.map_eq_some_iff.mp modified
      rw [strip, strip, strip_modifyIndex? same hothers]

/-- **Putting a node in the place of one that says the same** says the same. -/
lemma strip_set? {node value target : Node} {path : Path} (found : node.get? path = some target)
    (same : value.strip = target.strip) : ((node.set? path value).getD node).strip = node.strip := by
  cases put : node.set? path value with
  | none => rfl
  | some changed =>
    rw [Option.getD_some]
    induction path generalizing node changed with
    | nil =>
      cases found
      cases put
      exact same
    | cons step rest ih =>
      refine strip_modifyChild? (fun old new child changed => ?_) put
      rw [Node.get?, child] at found
      exact ih found new changed

/-- What all nodes of a tree have, a path finds. -/
lemma All.get? {good : Node → Prop} {node target : Node} {path : Path} (all : node.All good)
    (found : node.get? path = some target) : target.All good := by
  induction path generalizing node with
  | nil =>
    cases found
    exact all
  | cons step rest ih =>
    obtain ⟨child, hchild, found⟩ := Option.bind_eq_some_iff.mp found
    refine ih ?_ found
    cases node <;> cases step <;> try cases hchild
    · obtain ⟨entry, inside, rfl⟩ := Option.map_eq_some_iff.mp hchild
      exact allProperties_iff.mp all.2 entry (List.mem_of_find?_eq_some inside)
    · exact allValues_iff.mp all.2 _ (List.mem_of_getElem? hchild)

end Node

namespace Parser

variable {s t : ParserState} {heard : String → Prop} {drafting : Bool} {levels : Nat}

/-! ## Invocations that nothing answers to -/

variable (levels) in
/-- **Invocations that nothing answers to stay** what they are. -/
lemma expandDeferred_of_still (still : Still heard drafting s) (span : Span) {tree : Node}
    (told : tree.All (Node.Tells heard)) (waiting : List DeferredInvocation) :
    ∃ expanded, expandDeferred (invokeWithin (levels + 1)) span tree waiting s = .ok expanded s ∧
      expanded.strip = tree.strip := by
  induction waiting generalizing tree with
  | nil => exact ⟨tree, rfl, rfl⟩
  | cons invocation rest ih =>
    rw [expandDeferred, List.foldlM_cons]
    cases found : tree.get? invocation.path with
    | none => exact ih told
    | some target =>
      have said : heard (invokedName (target.withSpan span)) := by
        rw [← Node.invokedName_strip, Node.withSpan, Node.strip_withOrigin, Node.invokedName_strip]
        exact (told.get? found).root.2
      have same : ((tree.set? invocation.path (target.withSpan span)).getD tree).strip
          = tree.strip := Node.strip_set? found (Node.strip_withOrigin _ _)
      obtain ⟨expanded, run, stripped⟩ :=
        ih ((Node.all_congr Node.tells_strip same).mpr told)
      refine ⟨expanded, ?_, stripped.trans same⟩
      dsimp only
      rw [bind_assoc, bind_ok (still.invokeWithin_eq said levels invocation.kind)]
      exact run

/-! ## The only macro -/

variable {m : String} {template : Node} {deferred : List DeferredInvocation} {origin : Origin}

/-- **One macro is in force**, of lists with plain parameters, and nothing is marked. -/
structure Sole (m : String) (names : List String) (template : Node)
    (deferred : List DeferredInvocation) (s : ParserState) : Prop where
  macros : ∃ entry, s.visible.macros.definitions = [entry] ∧
    entry.value = .ofList m names template deferred
  depth : s.depth = 0
  recovering : s.recovering = false
  scope : s.scope = none

lemma Sole.still (sole : Sole m names template deferred s) : Still (· ≠ m) false s := by
  obtain ⟨⟨entry, macros, value⟩, depth, recovering, scope⟩ := sole
  refine ⟨?_, by omega, recovering, fun _ => ⟨scope, depth⟩⟩
  rw [macros, List.forall_mem_singleton, value]
  exact fun other => other rfl

/-- A list of as many values as there are parameters means the only macro. -/
lemma Sole.resolve (sole : Sole m names template deferred s)
    (bound : arguments.length = names.length) : ∃ entry : Shared MacroDefinition,
      entry.value = .ofList m names template deferred ∧
        s.visible.macros.resolve m .list (.list m arguments false origin) = .ok (some entry) := by
  obtain ⟨⟨entry, macros, value⟩, -, -, -⟩ := sole
  refine ⟨entry, value, ?_⟩
  have group : s.visible.macros.group ⟨m, .list⟩ = [entry] := by
    rw [MacroRegistry.group, macros, List.filter_cons_of_pos (by simp [value, MacroDefinition.ofList])]
    rfl
  have score : entry.value.score (.list m arguments false origin) = some 0 := by
    rw [value]
    exact MacroDefinition.score_ofList template bound
  rw [MacroRegistry.resolve, group]
  simp [MacroRegistry.admitting, score]

/-- What substituting texts for names tells, where the names are all of a sort. -/
lemma tells_substitute (told : template.All (Node.Tells heard))
    (arguing : ∀ value ∈ arguments, value.All (Node.Tells heard)) :
    (template.substitute (MacroDefinition.given names arguments)).All (Node.Tells heard) := by
  have argument : ∀ word value, MacroDefinition.given names arguments word = some value →
      value.All (Node.Tells heard) := by
    intro word value given
    obtain ⟨index, -, known⟩ := Option.bind_eq_some_iff.mp given
    exact arguing value (List.mem_of_getElem? known)
  have named : ∀ name, heard name →
      heard (Node.substituteName (MacroDefinition.given names arguments) name) := by
    intro name said
    rw [Node.substituteName]
    cases given : MacroDefinition.given names arguments name with
    | none => exact said
    | some value =>
      cases value with
      | primitive text origin => exact (argument name _ given).2
      | object | list => exact said
  refine told.substitute argument (fun name properties origin here => ?_)
    fun name values operation origin here => ⟨by rintro _ ⟨⟩, named name here.2⟩
  refine ⟨fun entries same => ?_, named name here.2⟩
  cases same
  rw [Node.substituteProperties_eq_map, List.map_map]
  exact here.1 properties rfl

/-- A mistake is reported, and something stands in its place. -/
lemma refuse_eq (recovering : s.recovering = false) (offset : Nat) (report : Report) :
    refuse offset report s = .ok (.primitive placeholder ⟨s.lastId + 1, ⟨offset, offset⟩⟩)
      { s with reports := s.reports.push (report.atOffset offset), lastId := s.lastId + 1 } := by
  rw [refuse, bind_ok (note_eq _ _), recovering]
  rfl

section Using

variable {definition : MacroDefinition} {node : Node} {expandOne : Node → MacroKind → Parser Node}

/-- A mistaken use of a macro that is not nested too deeply. -/
lemma useMacro_mistake {report : Report} (shallow : s.depth < maxNesting)
    (applied : definition.apply node = ⟨[], .error (.mistake report)⟩) :
    useMacro expandOne definition node s = refuse node.span.start report s := by
  have deep : ¬ maxNesting ≤ s.depth := Nat.not_le.mpr shallow
  rw [useMacro, bind_get, if_neg deep, applied]
  rfl

/-- A use of a macro that is not nested too deeply. -/
lemma useMacro_result {result : Node} (shallow : s.depth < maxNesting)
    (applied : definition.apply node = ⟨[], .ok result⟩) :
    useMacro expandOne definition node s
      = (if definition.deferred.isEmpty then Pure.pure result
        else nested (expandDeferred expandOne node.span result definition.deferred)) s := by
  have deep : ¬ maxNesting ≤ s.depth := Nat.not_le.mpr shallow
  rw [useMacro, bind_get, if_neg deep, applied]
  rfl

end Using

/-- **A call of the only macro** gives way to its template, with the values substituted for the
parameters, unless a parameter offends. -/
theorem invoke_ofList (sole : Sole m names template deferred s) (distinct : names.Nodup)
    (bound : arguments.length = names.length) (told : template.All (Node.Tells (· ≠ m)))
    (arguing : ∀ value ∈ arguments, value.All (Node.Tells (· ≠ m))) :
    ((∀ word, ¬ template.Offends names arguments word) ∧
        ∃ node t, invoke (.list m arguments false origin) .list s = .ok node t ∧
          node.strip = (template.substitute (MacroDefinition.given names arguments)).strip ∧
          t.reports = s.reports) ∨
      ∃ word value, template.Offends names arguments word ∧
        ∃ node t, invoke (.list m arguments false origin) .list s = .ok node t ∧
          node.strip = .plain placeholder ∧
          t.reports = s.reports.push (Report.errorAt origin.span.start (.mismatchedArgument word
            ⟨m, .list⟩ (ShapeSet.any.inter (.only .primitive)) (Shape.of value))) := by
  obtain ⟨entry, value, resolved⟩ := sole.resolve bound
  obtain ⟨levels, hlevels⟩ : ∃ levels, maxNesting = levels + 1 := ⟨maxNesting - 1, by decide⟩
  have step : invoke (.list m arguments false origin) .list s
      = useMacro (invokeWithin (levels + 1)) (.ofList m names template deferred)
        (.list m arguments false origin) s := by
    have within : invoke (.list m arguments false origin) .list s
        = invokeWithin (maxNesting - s.depth + 1) (.list m arguments false origin) .list s := rfl
    rw [within, sole.depth, Nat.sub_zero, hlevels, ← value]
    exact invokeWithin_answered resolved
  have shallow : s.depth < maxNesting := by
    rw [sole.depth, hlevels]
    omega
  have keys : template.All Node.DistinctKeys :=
    Node.all_of_mem_nodes fun entry member => (told.of_mem_nodes entry member).1
  rw [step]
  rcases MacroDefinition.apply_ofList deferred m origin distinct keys bound with
    ⟨fine, applied⟩ | ⟨word, value, offends, applied⟩
  · refine .inl ⟨fine, ?_⟩
    rw [useMacro_result shallow applied]
    have same : (template.clearIds.substitute (MacroDefinition.given names arguments)).strip
        = (template.substitute (MacroDefinition.given names arguments)).strip := by
      rw [Node.strip_substitute, Node.strip_clearIds, ← Node.strip_substitute]
    split
    · exact ⟨_, s, rfl, same, rfl⟩
    · have deeper : Still (· ≠ m) true { s with depth := s.depth + 1 } :=
        ⟨sole.still.macros, Nat.succ_le_of_lt shallow, sole.recovering, by rintro ⟨⟩⟩
      have told : (template.clearIds.substitute (MacroDefinition.given names arguments)).All
          (Node.Tells (· ≠ m)) :=
        tells_substitute ((Node.all_clearIds Node.tells_strip).mpr told) arguing
      obtain ⟨expanded, run, stripped⟩ := expandDeferred_of_still levels deeper origin.span told
        (MacroDefinition.ofList m names template deferred).deferred
      refine ⟨expanded, _, ?_, stripped.trans same, rfl⟩
      have begun : (modify fun s => { s with depth := s.depth + 1 } : Parser Unit) s
          = .ok () { s with depth := s.depth + 1 } := rfl
      rw [nested, bind_ok begun]
      exact (bind_ok run).trans rfl
  · exact .inr ⟨word, value, offends, _, _,
      (useMacro_mistake shallow applied).trans (refuse_eq sole.recovering _ _), rfl, rfl⟩

end Parser

end TreeLang
