import TreeLang.Proofs.Addressing
import TreeLang.Proofs.Covering
import TreeLang.Proofs.Upholding

/-!
# Invocations that wait

An invocation inside a template may wait for the arguments of the macro.  Its path was found in the
template, and is followed in a tree that the arguments were put into and that earlier invocations were
expanded in, to trees of any shape.  Still it leads somewhere when its turn comes.  An argument takes the
place of a text, below which nothing waits; names change nothing below them; and what was expanded before
lies elsewhere or further inside, for the longest paths come first.

* `DeferredInvocation.TakesTurn` — an invocation is found, expanded, and replaced by what comes of it.
* **`MacroDefinition.ExpandsInTurn`** — in every use of a macro all that waits takes its turn, and the
  innermost first.
* `MacroDefinition.Awaiting` — what is seen of a macro, and why it expands in turn.
* `isSome_of_apply`, `isSome_of_expandDeferred` — a path is still there behind a use, and behind turns.
* **`expands_in_turn`** — so do all macros that a source has in force or hands on.
-/

namespace TreeLang

open TreeLang.Parser

/-! ## Turns -/

/-- **An invocation that waits takes its turn** in a tree: it is found there, and is expanded; whatever
comes of it takes its place, and nothing changes elsewhere. -/
structure DeferredInvocation.TakesTurn (invocation : DeferredInvocation) (tree target : Node)
    (put : Node → Node) : Prop where
  found : tree.get? invocation.path = some target
  expands : ∀ expandOne span rest,
    expandDeferred expandOne span tree (invocation :: rest) = (do
      let expanded ← expandOne (target.withSpan span) invocation.kind
      expandDeferred expandOne span (put expanded) rest)
  placed : ∀ expanded, (put expanded).get? invocation.path = some expanded
  elsewhere : ∀ expanded other, ¬ other <+: invocation.path → ¬ invocation.path <+: other →
    (put expanded).get? other = tree.get? other

/-- **In every use of a macro all that waits takes its turn**, one invocation after the other, wherever
the arguments come from and whatever comes of the invocations before: none of them is as far outside as a
later one, or further, so that each is met once, and behind those that it contains. -/
structure MacroDefinition.ExpandsInTurn (definition : MacroDefinition) : Prop where
  keyed : definition.Carries Node.Keyed
  innermost : definition.deferred.Pairwise fun earlier later => ¬ earlier.path <+: later.path
  turns : ∀ argument result, (definition.apply argument).result = .ok result →
    ∀ before invocation after, definition.deferred = before ++ invocation :: after →
      ∀ expandOne span s tree t, expandDeferred expandOne span result before s = .ok tree t →
        ∃ target put, invocation.TakesTurn tree target put

/-- What is found takes its turn. -/
lemma DeferredInvocation.takesTurn {invocation : DeferredInvocation} {tree target : Node}
    (found : tree.get? invocation.path = some target) :
    invocation.TakesTurn tree target fun expanded => (tree.set? invocation.path expanded).getD tree := by
  have placed (expanded : Node) : ∃ changed, tree.set? invocation.path expanded = some changed := by
    refine Option.isSome_iff_exists.mp ?_
    rw [Node.set?, Node.modify?_isSome, found]
    rfl
  refine ⟨found, fun expandOne span rest => ?_, fun expanded => ?_, fun expanded other above below => ?_⟩
  · rw [expandDeferred, List.foldlM_cons, found]
    simp only [bind_assoc, pure_bind]
    rfl
  · obtain ⟨changed, put⟩ := placed expanded
    have behind := Node.get?_modify?_append put []
    rw [List.append_nil, found] at behind
    rw [put]
    exact behind
  · obtain ⟨changed, put⟩ := placed expanded
    rw [put]
    exact Node.get?_modify?_of_apart put above below

namespace MacroDefinition

variable {definition : MacroDefinition} {arguments : List Node} {tree : Node} {path : Path}

/-! ## What is seen of a macro -/

/-- **What is seen of a macro**: arguments are put in the place of texts, what waits is in the template,
and no invocation lies as far outside as a later one, or further. -/
structure Awaiting (definition : MacroDefinition) : Prop where
  texts : ∀ replacement ∈ definition.replacements, replacement.target = .value →
    ∃ value origin, definition.template.get? replacement.path = some (.primitive value origin)
  present : ∀ invocation ∈ definition.deferred, (definition.template.get? invocation.path).isSome
  innermost : definition.deferred.Pairwise fun earlier later => ¬ earlier.path <+: later.path

/-- A path that leads somewhere still does behind a replacement, unless it went on below. -/
lemma brings_isSome_replace (present : (tree.get? path).isSome) {replacement : Replacement}
    (above : replacement.target = .value → ∀ rest, path = replacement.path ++ rest → rest = []) :
    Brings (fun changed => (changed.get? path).isSome)
      (definition.replace arguments tree replacement) := by
  intro changed replaced
  rw [replace] at replaced
  cases found : tree.get? replacement.path with
  | none =>
    rw [found] at replaced
    cases replaced
  | some old =>
    cases given : arguments[replacement.parameter]? with
    | none =>
      rw [found, given] at replaced
      cases replaced
    | some value =>
      rw [found, given] at replaced
      dsimp only at replaced
      have kept {change : Node → Option Node} (below : ∀ rest old new, path = replacement.path ++ rest →
          tree.get? replacement.path = some old → change old = some new → (new.get? rest).isSome) :
          (((tree.modify? change replacement.path).getD tree).get? path).isSome := by
        cases put : tree.modify? change replacement.path with
        | none => exact present
        | some changed => exact Node.isSome_get?_modify? put present below
      cases target : replacement.target with
      | value =>
        rw [target] at replaced
        cases replaced
        refine kept fun rest old new on _ made => ?_
        rw [above target rest on]
        rfl
      | name lead =>
        rw [target] at replaced
        dsimp only at replaced
        split at replaced
        · cases replaced
          refine kept fun rest old new on there made => ?_
          cases made
          by_cases below : rest = []
          · rw [below]
            rfl
          rw [Node.get?_rename _ _ below]
          rwa [on, Node.get?_append, there] at present
        · cases replaced

/-- **What waits is still there when the arguments are put in.** -/
theorem Awaiting.isSome_of_apply (awaiting : definition.Awaiting) {argument result : Node}
    (applied : (definition.apply argument).result = .ok result) :
    ∀ invocation ∈ definition.deferred, (result.get? invocation.path).isSome := by
  intro invocation member
  rw [apply] at applied
  split at applied
  · cases applied
  dsimp only at applied
  split at applied
  · cases applied
  suffices Brings (fun tree => (tree.get? invocation.path).isSome)
      (definition.replacements.foldlM (definition.replace _) definition.template) from
    this result applied
  refine .foldlM (awaiting.present invocation member) fun tree present replacement among => ?_
  refine brings_isSome_replace present fun target rest on => ?_
  -- In the template there is a text, below which nothing waits.
  obtain ⟨value, origin, text⟩ := awaiting.texts replacement among target
  have there := awaiting.present invocation member
  rw [on, Node.get?_append, text] at there
  exact Node.eq_nil_of_isSome_get? there

/-- **What waits is still there behind the turns of others**, unless one of those lay around it. -/
theorem isSome_of_expandDeferred (expandOne : Node → MacroKind → Parser Node) (span : Span)
    {before : List DeferredInvocation} (apart : ∀ earlier ∈ before, ¬ earlier.path <+: path)
    (present : (tree.get? path).isSome) (s : ParserState) :
    Leaves (expandDeferred expandOne span tree before) s fun made _ => (made.get? path).isSome := by
  induction before generalizing tree s with
  | nil => exact .pure present
  | cons invocation rest ih =>
    obtain ⟨here, others⟩ := List.forall_mem_cons.mp apart
    rw [expandDeferred, List.foldlM_cons]
    cases found : tree.get? invocation.path with
    | none => exact ih others present s
    | some target =>
      simp only [bind_assoc, pure_bind]
      have any : Leaves (expandOne (target.withSpan span) invocation.kind) s fun _ _ => True :=
        fun _ _ _ => trivial
      refine any.bind fun expanded t _ => ih others ?_ t
      cases put : tree.set? invocation.path expanded with
      | none => exact present
      | some changed =>
        exact Node.isSome_get?_modify? put present fun rest _ _ on _ _ =>
          absurd ⟨rest, on.symm⟩ here

/-- **Such a macro expands in turn.** -/
theorem Awaiting.expandsInTurn (awaiting : definition.Awaiting) (keyed : definition.Carries Node.Keyed) :
    definition.ExpandsInTurn := by
  refine ⟨keyed, awaiting.innermost, fun argument result applied before invocation after parts
    expandOne span s tree t run => ?_⟩
  have ordered := awaiting.innermost
  rw [parts, List.pairwise_append] at ordered
  have present := awaiting.isSome_of_apply applied invocation (by simp [parts])
  have there := isSome_of_expandDeferred expandOne span
    (fun earlier member => ordered.2.2 earlier member invocation List.mem_cons_self) present s tree t run
  obtain ⟨target, found⟩ := Option.isSome_iff_exists.mp there
  exact ⟨target, _, DeferredInvocation.takesTurn found⟩

/-! ## Macros that are built -/

variable {template : Node} {references : Marks Reference} {deferred : Marks MacroKind}

lemma exists_of_mem_findReplacements {replacement : Replacement}
    (member : replacement ∈ findReplacements template references) :
    ∃ entry ∈ template.nodes, ∃ reference, references.find? entry.2.id = some reference ∧
      replacement = ⟨entry.1, reference.parameter, reference.target⟩ := by
  obtain ⟨entry, inside, made⟩ := List.mem_filterMap.mp member
  obtain ⟨reference, known, rfl⟩ := Option.map_eq_some_iff.mp made
  exact ⟨entry, inside, reference, known, rfl⟩

lemma exists_of_mem_findDeferred {invocation : DeferredInvocation}
    (member : invocation ∈ findDeferred template deferred) :
    ∃ entry ∈ template.nodes, invocation.path = entry.1 := by
  obtain ⟨entry, inside, made⟩ := List.mem_filterMap.mp (List.mem_mergeSort.mp member)
  obtain ⟨kind, -, rfl⟩ := Option.map_eq_some_iff.mp made
  exact ⟨entry, inside, rfl⟩

lemma findDeferred_eq : findDeferred template deferred
    = (template.nodes.filterMap fun entry =>
        (deferred.find? entry.2.id).map (DeferredInvocation.mk entry.1)).mergeSort
      fun a b => b.path.length ≤ a.path.length := rfl

/-- With the longest of distinct paths first, none leads to a later one, or on to it. -/
lemma pairwise_mergeSort_of_distinct {found : List DeferredInvocation}
    (distinct : found.Pairwise fun first second => first.path ≠ second.path) :
    (found.mergeSort fun a b => b.path.length ≤ a.path.length).Pairwise
      fun earlier later => ¬ earlier.path <+: later.path := by
  have shorter : (found.mergeSort fun a b => b.path.length ≤ a.path.length).Pairwise
      fun a b => (b.path.length ≤ a.path.length : Bool) :=
    List.pairwise_mergeSort (by simp only [decide_eq_true_eq]; intro a b c; omega)
      (by simp only [Bool.or_eq_true, decide_eq_true_eq]; intro a b; omega) found
  have apart := ((List.mergeSort_perm found fun a b => b.path.length ≤ a.path.length).pairwise_iff
    fun apart same => apart same.symm).mpr distinct
  refine (shorter.and apart).imp fun both leads => both.2 ?_
  exact leads.eq_of_length_le (of_decide_eq_true both.1)

/-- **The longest paths come first, and each is there once**; so none leads to a later one, or on to
it. -/
theorem pairwise_findDeferred (keyed : template.Keyed) :
    (findDeferred template deferred).Pairwise fun earlier later => ¬ earlier.path <+: later.path := by
  refine pairwise_mergeSort_of_distinct (List.pairwise_filterMap.mpr
    ((List.pairwise_map.mp (Node.nodup_paths keyed)).imp ?_))
  intro first second apart one made other made'
  obtain ⟨_, -, rfl⟩ := Option.map_eq_some_iff.mp made
  obtain ⟨_, -, rfl⟩ := Option.map_eq_some_iff.mp made'
  exact apart

/-- **What is seen of a macro that was built.** -/
theorem awaiting_of_build {signature : Signature} {parameters : List Parameter} {warnings : List Report}
    (refer : references.Refer template) (keyed : template.Keyed)
    (built : build signature parameters template references deferred = .ok (definition, warnings)) :
    definition.Awaiting := by
  obtain ⟨rfl, -⟩ := eq_of_build built
  have leads {entry : Path × Node} (inside : entry ∈ template.nodes) :
      template.clearIds.get? entry.1 = some entry.2.clearIds := by
    rw [Node.get?_clearIds, Node.get?_of_mem_nodes keyed entry inside]
    rfl
  refine ⟨fun replacement member target => ?_, fun invocation member => ?_, pairwise_findDeferred keyed⟩
  · obtain ⟨⟨path, node⟩, inside, reference, known, rfl⟩ := exists_of_mem_findReplacements member
    have suits := refer.suits _ inside reference known
    rw [show reference.target = .value from target] at suits
    cases node with
    | object | list => cases suits
    | primitive value origin => exact ⟨value, _, leads inside⟩
  · obtain ⟨entry, inside, same⟩ := exists_of_mem_findDeferred member
    rw [same, leads inside]
    rfl

/-- **Every macro that is built expands in turn**, where those in force have templates with distinct
keys. -/
theorem sustains_expandsInTurn : Sustains (fun _ => True) Node.Keyed ExpandsInTurn where
  grown := Node.grown_keyed.grownFrom
  carries inTurn := inTurn.keyed
  builds run built carries := by
    have cleared := carries.template
    rw [(eq_of_build built).1] at cleared
    have keyed := (Node.all_clearIds Node.distinctKeys_strip).mp cleared
    have refer := (covered_template run).refer_of_build built
    exact (awaiting_of_build refer keyed built).expandsInTurn carries

end MacroDefinition

open MacroDefinition (ExpandsInTurn sustains_expandsInTurn build findDeferred)

/-- **Invocations that wait expand in turn**, in every use of every macro.  A macro does so that is built
of a template that was read, if its keys are distinct.  So do all those that a source has in force between
two statements, or hands on by then, and those that are remembered behind it.  That holds with any table
of definitions of which it holds, as it does of those that were compiled beforehand, and with imports
compiled on demand, from any state in which it holds of what is remembered. -/
theorem expands_in_turn (options : CompileOptions) :
    (∀ fuel parameters s tree scope t, template options fuel parameters s = .ok (tree, some scope) t →
      ∀ signature checked definition warnings,
        build signature checked tree scope.references scope.deferred = .ok (definition, warnings) →
          definition.Carries Node.Keyed → definition.ExpandsInTurn) ∧
    (∀ table, (∀ entry ∈ table, entry.2.value.Every ExpandsInTurn) → ∀ source imports s,
      Reaches options (tableResolver table) (initial options source imports) s →
        s.visible.Every ExpandsInTurn ∧ s.exported.Every ExpandsInTurn) ∧
    (∀ sources given, ∀ entry ∈ (precompile options sources given).1,
      entry.2.value.Every ExpandsInTurn) ∧
    ∀ inner loader depth source imports, ImportState.Every ExpandsInTurn imports →
      (∀ s, Reaches options (loadingResolver inner loader depth) (initial options source imports) s →
        s.visible.Every ExpandsInTurn ∧ s.exported.Every ExpandsInTurn) ∧
      (compile options (loadingResolver inner loader depth) source imports).2.Every ExpandsInTurn := by
  have sustains := sustains_expandsInTurn
  refine ⟨fun fuel parameters s tree scope t read signature checked definition warnings => ?_,
    fun table every source imports s reaches => ?_, every_precompile sustains options,
    fun inner loader depth source imports known => ?_⟩
  · exact sustains.builds read
  · exact every_of_reaches sustains (supplies_table every) trivial reaches
  · have supplies := supplies_loading sustains inner loader depth
    exact ⟨fun s reaches => every_of_reaches sustains supplies known reaches,
      compile_keeps supplies options source known⟩

/-- What a step leads to shows in the value alone. -/
lemma exists_of_run'_eq_some {α : Type} {step : Parser α} {s : ParserState} {value : α}
    (h : step.run' s = some value) : ∃ t, step s = .ok value t := by
  delta EStateM.run' EStateM.run at h
  cases run : step s with
  | error fault t =>
    rw [run] at h
    cases h
  | ok _ t =>
    rw [run] at h
    cases h
    exact ⟨t, rfl⟩

lemma eq_ok_of_toOption {ε α : Type} {outcome : Except ε α} {value : α}
    (h : outcome.toOption = some value) : outcome = .ok value := by
  cases outcome with
  | error => cases h
  | ok => cases h; rfl

/-- A macro in which three invocations wait, each inside the next, when the first has had its turn and a
placeholder came of it.  Besides, a source that takes such a macro from a table, or from a loader. -/
theorem expands_in_turn_of_nested :
    let s := initial {} ⟨"", "[tag[pair[y]], y]"⟩ {}
    let parameters := ["tag", "y"].map Parameter.plain
    let argument : Node := .list "deep" [.primitive "f" ⟨1, ⟨5, 6⟩⟩, .primitive "1" ⟨2, ⟨7, 8⟩⟩] false
      ⟨3, ⟨0, 9⟩⟩
    let expandOne : Node → MacroKind → Parser Node := fun node _ => placeholderAt node.span.start
    let innermost : DeferredInvocation := ⟨[.index 0, .index 0], .list⟩
    let around : DeferredInvocation := ⟨[.index 0], .list⟩
    let deep : Source := ⟨"deep", "macro deep[tag, y]: [tag[pair[y]], y]"⟩
    let main : Source := ⟨"main", "use deep"⟩
    let loader : Loader := fun path =>
      if path = "deep" then .source deep else .failure (.notFound path)
    let table := (precompile {} [("deep", deep)] {}).1
    (∃ tree scope t definition warnings result changed u target put,
      template {} 30 parameters s = .ok (tree, some scope) t ∧
      build ⟨"deep", .list⟩ parameters tree scope.references scope.deferred
        = .ok (definition, warnings) ∧
      definition.Carries Node.Keyed ∧ definition.deferred = [innermost, around, ⟨[], .list⟩] ∧
      (definition.apply argument).result = .ok result ∧ result.text = "[f[pair[1]], 1]" ∧
      expandDeferred expandOne argument.span result [innermost] s = .ok changed u ∧
      changed.text = "[f[ERROR], 1]" ∧ around.TakesTurn changed target put) ∧
    (∀ entry ∈ table, entry.2.value.Every ExpandsInTurn) ∧
    (∃ t, Reaches {} (tableResolver table) (initial {} main {}) t ∧
      t.visible.macros.definitions.length = 1 ∧ t.visible.Every ExpandsInTurn) ∧
    ImportState.Every ExpandsInTurn {} ∧
    (∃ t, Reaches {} (loadingResolver {} loader 1) (initial {} main {}) t ∧
      t.visible.macros.definitions.length = 1 ∧ t.visible.Every ExpandsInTurn) ∧
    (compile {} (loadingResolver {} loader 1) main {}).2.Every ExpandsInTurn := by
  intro s parameters argument expandOne innermost around deep main loader table
  obtain ⟨builds, tables, beforehand, onDemand⟩ := expands_in_turn {}
  have every := beforehand [("deep", deep)] {}
  have nothing : ImportState.Every ExpandsInTurn {} := by rintro _ ⟨⟩
  have loaded := onDemand {} loader 1 main {} nothing
  have reached (resolver : Resolver)
      (brings : (stateOf (sourceRound {} resolver pure [] (initial {} main {}))).visible.macros.definitions.length
        = 1) :
      ∃ t, Reaches {} resolver (initial {} main {}) t ∧ t.visible.macros.definitions.length = 1 := by
    obtain ⟨_, t, round, -, -⟩ : Ends (sourceRound {} resolver pure []) (initial {} main {}) _ :=
      ends_sourceRound_resting (outside_initial main {}).settled (resting_initial main {}) []
    rw [round] at brings
    exact ⟨t, .round (by decide +kernel) round (.here t), brings⟩
  obtain ⟨t, looked, one⟩ := reached (tableResolver table) (by decide +kernel)
  obtain ⟨u, asked, also⟩ := reached (loadingResolver {} loader 1) (by decide +kernel)
  refine ⟨?_, every, ⟨t, looked, one, (tables table every main {} t looked).1⟩, nothing,
    ⟨u, asked, also, (loaded.1 u asked).1⟩, loaded.2⟩
  have seen : ((template {} 30 parameters).run' s).bind (fun read => read.2.bind fun scope =>
      (build ⟨"deep", .list⟩ parameters read.1 scope.references scope.deferred).toOption.bind fun built =>
        (built.1.apply argument).result.toOption.bind fun result =>
          ((expandDeferred expandOne argument.span result [innermost]).run' s).map fun changed =>
            (read.1.nodes.all fun entry => entry.2.properties?.isNone,
              read.1.nodes.filterMap fun entry =>
                (scope.deferred.find? entry.2.id).map (DeferredInvocation.mk entry.1),
              result.text, changed.text))
      = some (true, [⟨[], .list⟩, around, innermost], "[f[pair[1]], 1]", "[f[ERROR], 1]") := by
    decide +kernel
  simp only [Option.bind_eq_some_iff, Option.map_eq_some_iff, Prod.mk.injEq] at seen
  obtain ⟨⟨tree, _⟩, read, scope, rfl, ⟨definition, warnings⟩, built, result, applied, changed, run,
    flat, found, given, shown⟩ := seen
  obtain ⟨t, read⟩ := exists_of_run'_eq_some read
  obtain ⟨u, run⟩ := exists_of_run'_eq_some run
  have built := eq_ok_of_toOption built
  have applied := eq_ok_of_toOption applied
  have keyed : tree.Keyed := Node.all_of_mem_nodes fun entry member properties has => by
    have none := List.all_eq_true.mp flat entry member
    rw [has] at none
    cases none
  have carries : definition.Carries Node.Keyed :=
    .of_build Node.grown_keyed.grownFrom keyed (by simp [parameters, Parameter.plain]) built
  have waiting : definition.deferred = [innermost, around, ⟨[], .list⟩] := by
    rw [(MacroDefinition.eq_of_build built).1]
    dsimp only
    rw [MacroDefinition.findDeferred_eq, found]
    simp [List.mergeSort, innermost, around]
  obtain ⟨target, put, turn⟩ := (builds 30 parameters s tree scope t read _ _ definition warnings
    built carries).turns argument result applied [innermost] around [⟨[], .list⟩] waiting
    expandOne argument.span s changed u run
  exact ⟨tree, scope, t, definition, warnings, result, changed, u, target, put, read, built, carries,
    waiting, applied, given, run, shown, turn⟩

end TreeLang
