import Mathlib.Data.List.Induction
import TreeLang.Proofs.Shelving

/-!
# Imports on demand and imports compiled beforehand

There are two ways to give a source its imports: to compile them one after the other beforehand and
hand over a table, or to compile each when it is asked for.  The second compiles in another order,
in the middle of other sources, and gives out other identities.  The source that imports cannot
tell.

* `sourceLoader` — the loader of a list of sources.
* `CleanInOrder` — every source of a list compiles without an error, with those before it at hand.
* **`compile_onDemand`** — on demand or beforehand, a source compiles to the same.
-/

namespace TreeLang

/-- The loader of a list of sources; of several for one path the first counts. -/
def sourceLoader (sources : List (String × Source)) : Loader := fun path =>
  match sources.find? fun entry => entry.1 = path with
  | some (_, source) => .source source
  | none => .failure (.notFound path)

/-- **Every source compiles without an error**, with the definitions of those before it at hand. -/
def CleanInOrder (options : CompileOptions) (sources : List (String × Source)) : Prop :=
  ∀ before path source after, sources = before ++ (path, source) :: after →
    (compile options (tableResolver (precompile options before {}).1) source
      (precompile options before {}).2).1.errorCount = 0

lemma CleanInOrder.nil (options : CompileOptions) : CleanInOrder options [] := by
  intro before path source after split
  cases before <;> cases split

/-- One more source that compiles with those before it at hand. -/
lemma CleanInOrder.concat {options : CompileOptions} {sources : List (String × Source)}
    (clean : CleanInOrder options sources) {path : String} {source : Source}
    (success : (compile options (tableResolver (precompile options sources {}).1) source
      (precompile options sources {}).2).1.errorCount = 0) :
    CleanInOrder options (sources ++ [(path, source)]) := by
  intro before path' source' after split
  obtain rfl | ⟨rest, last, rfl⟩ := List.eq_nil_or_concat after
  · obtain ⟨rfl, same⟩ := List.append_inj' split rfl
    cases same
    exact success
  · rw [List.concat_eq_append, ← List.cons_append, ← List.append_assoc] at split
    exact clean before path' source' rest (List.append_inj' split rfl).1

variable {options : CompileOptions} {loader : Loader} {sources : List (String × Source)}

lemma precompile_concat (sources : List (String × Source)) (entry : String × Source) :
    precompile options (sources ++ [entry]) {} =
      ((entry.1, (compile options (tableResolver (precompile options sources {}).1) entry.2
          (precompile options sources {}).2).1.definitions) :: (precompile options sources {}).1,
        (compile options (tableResolver (precompile options sources {}).1) entry.2
          (precompile options sources {}).2).2) := by
  rw [precompile, List.foldl_append]
  rfl

/-- Compiling beforehand fills the shelf. -/
lemma precompile_eq_shelf (sources : List (String × Source)) :
    precompile options sources {} = shelf options sources.reverse := by
  induction sources using List.reverseRecOn with
  | nil => rfl
  | append_singleton sources entry ih =>
    rw [precompile_concat, List.reverse_append, ih]
    rfl

lemma clean_reverse (distinct : (sources.map Prod.fst).Nodup) (clean : CleanInOrder options sources)
    (found : ∀ path source, (path, source) ∈ sources → loader path = .source source) :
    Clean options loader sources.reverse := by
  induction sources using List.reverseRecOn with
  | nil => exact .nil
  | append_singleton sources entry ih =>
    obtain ⟨path, source⟩ := entry
    rw [List.map_append, List.nodup_append] at distinct
    obtain ⟨distinct, -, apart⟩ := distinct
    rw [List.reverse_append]
    refine .cons (ih distinct ?_ fun path source mem => ?_) ?_ ?_ ?_
    · intro before path' source' after split
      exact clean before path' source' (after ++ [(path, source)]) (by simp [split])
    · exact found path source (List.mem_append_left _ mem)
    · intro mem
      have mem : path ∈ sources.reverse.map Prod.fst := mem
      rw [List.map_reverse, List.mem_reverse] at mem
      exact apart path mem path List.mem_cons_self rfl
    · exact found path source (List.mem_append_right _ List.mem_cons_self)
    · have success := clean sources path source [] rfl
      rwa [precompile_eq_shelf] at success

lemma sourceLoader_of_mem (distinct : (sources.map Prod.fst).Nodup) {path : String}
    {source : Source} (mem : (path, source) ∈ sources) :
    sourceLoader sources path = .source source := by
  have found : sources.find? (fun entry => entry.1 = path) = some (path, source) := by
    induction sources with
    | nil => cases mem
    | cons entry rest ih =>
      rw [List.map_cons, List.nodup_cons] at distinct
      obtain rfl | mem := List.mem_cons.mp mem
      · simp
      · have other : entry.1 ≠ path :=
          fun same => distinct.1 (same ▸ List.mem_map.mpr ⟨_, mem, rfl⟩)
        rw [List.find?_cons_of_neg (by simpa using other)]
        exact ih distinct.2 mem
  rw [sourceLoader, found]

lemma sourceLoader_of_not_mem {path : String} (h : path ∉ sources.map Prod.fst) :
    sourceLoader sources path = .failure (.notFound path) := by
  have none : (sources.find? fun entry => entry.1 = path) = none := by
    rw [List.find?_eq_none]
    intro entry mem same
    exact h (List.mem_map.mpr ⟨entry, mem, by simpa using same⟩)
  rw [sourceLoader, none]

lemma Definitions.Matched.names_eq {R : Pairing} {c d : Definitions} (matched : c.Matched R d) :
    c.names = d.names := by
  have macros : c.macros.definitions.map (·.value.header) = d.macros.definitions.map (·.value.header) := by
    have values := congrArg (List.map (·.header)) matched.macros.values_eq
    rwa [MacroRegistry.values, MacroRegistry.values, List.map_map, List.map_map] at values
  rw [Definitions.names, Definitions.names, macros, matched.operators]

/-- **Imports on demand and imports compiled beforehand agree.**  The trees and the reports are
equal.  The exported definitions are equal but for the identities of macros, and so are those of
every source that was imported; and macros that are the same, or only alike, on one side are so on
the other. -/
theorem compile_onDemand (options : CompileOptions) (sources : List (String × Source))
    (distinct : (sources.map Prod.fst).Nodup) (clean : CleanInOrder options sources)
    (main : Source) (depth : Nat) (deep : sources.length < depth) :
    let table := precompile options sources {}
    let beforehand := compile options (tableResolver table.1) main table.2
    let onDemand := compile options (loadingResolver options (sourceLoader sources) depth) main {}
    onDemand.1.root = beforehand.1.root ∧ onDemand.1.reports = beforehand.1.reports ∧
      onDemand.1.definitions.value.names = beforehand.1.definitions.value.names ∧
      ∃ R : Pairing, R.OneToOne ∧
        beforehand.1.definitions.value.Matched R onDemand.1.definitions.value ∧
        ∀ path c d, definitionsIn table.1 path = some c → onDemand.2.definitionsOf path = some d →
          c.value.Matched R d.value := by
  intro table beforehand onDemand
  let library := sources.reverse
  have filled : table = shelf options library := precompile_eq_shelf sources
  have cleanly : Clean options (sourceLoader sources) library :=
    clean_reverse distinct clean fun _ _ mem => sourceLoader_of_mem distinct mem
  have others {R : Pairing} {i j : ImportState} (against : Against options library .empty {} R i j)
      (path : String) (unknown : shelved options library path = none) :
      Answered False Eq (Against options library .empty {}) R (tableResolver table.1 path i)
        (loadingResolver options (sourceLoader sources) depth path j) := by
    have missing := not_mem_of_shelved unknown
    have forgotten : j.definitionsOf path = none := by
      cases known : j.definitionsOf path with
      | none => rfl
      | some d => exact absurd (against.compiled path rfl ⟨d, known⟩) missing
    have absent : path ∉ sources.map Prod.fst := by
      rwa [List.map_reverse, List.mem_reverse] at missing
    obtain ⟨depth, rfl⟩ : ∃ n, depth = n + 1 := ⟨depth - 1, by omega⟩
    have idle : path ∉ j.active := by
      rw [against.evolved.active]
      exact List.not_mem_nil
    rw [filled, tableResolver_eq, show definitionsIn (shelf options library).1 path = none from unknown,
      loadingResolver_of_failure forgotten idle depth (sourceLoader_of_not_mem absent)]
    exact .unresolved (le_refl _) (fun _ _ => rfl) (against.asked path)
  let harmony := againstShelf .empty {} False Eq (fun _ => rfl) (filled ▸ answers_table library)
    (fun sound evolved path c known => delivers cleanly (by simpa [library] using deep.le) sound
      (fun path _ => by rw [evolved.active]; exact List.not_mem_nil) known) others
  have joined : harmony.joint .empty table.2 {} :=
    .begin_ (.empty library rfl) (filled ▸ le_refl _) fun _ _ h => h.elim
  obtain ⟨impossible, -⟩ | ⟨R, -, agrees⟩ := harmony.compile options main joined
  · exact impossible.elim
  have against : Against options library .empty {} R beforehand.2 onDemand.2 := agrees.imports
  refine ⟨agrees.root.symm, (List.forall₂_eq_eq_eq ▸ agrees.reports).symm,
    agrees.definitions.names_eq.symm, R, against.sound.oneToOne, agrees.definitions,
    fun path c d known remembered => against.sound.matched path c d ?_ remembered⟩
  rw [shelved, ← filled]
  exact known

/-- A macro that reaches a source on two ways is the same macro. -/
theorem compile_onDemand_of_two_ways :
    let sources := [("shapes", ⟨"shapes", "macro dot: point"⟩), ("all", ⟨"all", "use public shapes"⟩)]
    let main : Source := ⟨"main", "use public all\nuse public shapes\ndot"⟩
    let table := precompile {} sources {}
    let beforehand := compile {} (tableResolver table.1) main table.2
    let onDemand := compile {} (loadingResolver {} (sourceLoader sources) 3) main {}
    (sources.map Prod.fst).Nodup ∧ CleanInOrder {} sources ∧ beforehand.1.reports = [] ∧
      beforehand.1.values.map Node.text = ["point"] ∧ onDemand.1.root = beforehand.1.root ∧
      onDemand.1.reports = beforehand.1.reports ∧
      onDemand.1.definitions.value.names = beforehand.1.definitions.value.names ∧
      ∃ R : Pairing, R.OneToOne ∧
        beforehand.1.definitions.value.Matched R onDemand.1.definitions.value ∧
        ∀ path c d, definitionsIn table.1 path = some c → onDemand.2.definitionsOf path = some d →
          c.value.Matched R d.value := by
  intro sources main table beforehand onDemand
  have distinct : (sources.map Prod.fst).Nodup := by decide
  have first : CleanInOrder {} [("shapes", ⟨"shapes", "macro dot: point"⟩)] :=
    (CleanInOrder.nil {}).concat (by decide +kernel)
  have clean : CleanInOrder {} sources := first.concat (by decide +kernel)
  refine ⟨distinct, clean, by decide +kernel, by decide +kernel, ?_⟩
  exact compile_onDemand {} sources distinct clean main 3 (by decide)

end TreeLang
