import TreeLang.Proofs.Upholding

/-!
# Keys that are repeated

The keys of an object are distinct, wherever it comes from: a group keeps the first value of a key, and
trees with distinct keys are put together to such trees, by macros and through imports.  Which value a
key has, and what is said of the others, shows when every occurrence of a key is kept in mind while the
properties of an object are read.

* `Compilation.Keyed` — the keys are distinct in whatever comes of a source.
* `Occurrence`, `Occurrence.kept` — a property as it was read, and the properties that an object has.
* `everyProperty` — reading the properties of an object, with every occurrence of a key.
* `parseProperties_eq` — reading them otherwise is the same, but for the later occurrences.
* **`compile_keyed`** — distinct keys, first values, and one report for each later occurrence.
-/

namespace TreeLang

variable {α : Type} {options : CompileOptions}

/-- **The keys are distinct** in every object of the root, and of the templates and fallbacks of all
macros that a source hands to importers. -/
structure Compilation.Keyed (compilation : Compilation) : Prop where
  root : compilation.root.Keyed
  definitions : compilation.definitions.value.Carries Node.Keyed

/-! ## Occurrences of keys -/

/-- **A property as it was read**, with the reports that adding it to the others gave rise to. -/
structure Occurrence where
  key : Token
  value : Node
  told : List Report

namespace Occurrence

/-- **The properties that an object has**: for every key the value of its first occurrence. -/
def kept (occurrences : List Occurrence) : List (String × Node) :=
  occurrences.foldl (fun properties occurrence =>
    Node.insertNew properties occurrence.key.content occurrence.value) []

lemma kept_concat (occurrences : List Occurrence) (last : Occurrence) :
    kept (occurrences ++ [last]) = Node.insertNew (kept occurrences) last.key.content last.value :=
  List.foldl_append

/-- What is said of a key that is taken. -/
def duplicate (options : CompileOptions) (key : Token) : Report :=
  (Report.errorAt key.start (.duplicateKey key.content)).withSeverity
    options.duplicatePropertySeverity

/-- **One report for each later occurrence** of a key, and none for the first one. -/
def Accounted (options : CompileOptions) (occurrences : List Occurrence) : Prop :=
  ∀ before occurrence after, occurrences = before ++ occurrence :: after →
    occurrence.told =
      if occurrence.key.content ∈ before.map (·.key.content) then [duplicate options occurrence.key]
      else []

/-- A new property shows only where its key was not taken. -/
lemma lookup_insertNew (properties : List (String × Node)) (key : String) (value : Node)
    (other : String) :
    Node.lookup (Node.insertNew properties key value) other =
      (Node.lookup properties other).or (if key = other then some value else none) := by
  rw [Node.insertNew, Node.hasKey]
  split
  · rename_i taken
    split
    · rename_i same
      rw [← same, Option.or_of_isSome taken]
    · rw [Option.or_none]
  · simp only [Node.lookup, List.find?_append, Option.map_or, List.find?_singleton, decide_eq_true_eq]
    split <;> rfl

/-- **The value of a key is that of its first occurrence.** -/
theorem lookup_kept (occurrences : List Occurrence) (key : String) :
    Node.lookup (kept occurrences) key =
      (occurrences.find? fun occurrence => occurrence.key.content = key).map (·.value) := by
  induction occurrences using List.reverseRecOn with
  | nil => rfl
  | append_singleton occurrences last ih =>
    rw [kept_concat, lookup_insertNew, ih, List.find?_append, Option.map_or, List.find?_singleton]
    simp only [decide_eq_true_eq]
    split <;> rfl

lemma hasKey_kept (occurrences : List Occurrence) (key : String) :
    Node.hasKey (kept occurrences) key = true ↔ key ∈ occurrences.map (·.key.content) := by
  rw [Node.hasKey, lookup_kept, Option.isSome_map, List.find?_isSome, List.mem_map]
  simp

lemma Accounted.nil (options : CompileOptions) : Accounted options [] := by
  intro before occurrence after split
  simp at split

/-- One more occurrence. -/
lemma Accounted.concat {occurrences : List Occurrence} {last : Occurrence}
    (accounted : Accounted options occurrences)
    (told : last.told = if last.key.content ∈ occurrences.map (·.key.content) then
      [duplicate options last.key] else []) : Accounted options (occurrences ++ [last]) := by
  intro before occurrence after split
  rcases List.eq_nil_or_concat after with rfl | ⟨others, final, rfl⟩
  · obtain ⟨rfl, same⟩ := List.append_inj' split rfl
    cases same
    exact told
  · rw [List.concat_eq_append, ← List.cons_append, ← List.append_assoc] at split
    exact accounted before occurrence others (List.append_inj' split rfl).1

end Occurrence

namespace Parser

open Occurrence (kept kept_concat)

variable {s t : ParserState}

/-! ## Reading with every occurrence -/

/-- A step, with the reports that it adds. -/
def overheard (step : Parser α) : Parser (α × List Report) := do
  let before := (← get).reports.size
  let value ← step
  return (value, (← get).reports.toList.drop before)

/-- **The properties of an object with every occurrence of a key**, up to the closer, behind those read
already; with the offset after the closer. -/
def everyProperty (options : CompileOptions) : Nat → Nat → List Occurrence →
    Parser (List Occurrence × Nat)
  | 0, _, _ => throw .exhausted
  | fuel + 1, start, occurrences => do
    let token ← peek true .key
    if token.kind = .rBrace then
      skipToken true .key
      return (occurrences, token.stop)
    else if token.kind = .endOfInput || (← closesAwaited token.kind) then
      complain start .openObject
      return (occurrences, token.start)
    else if token.kind = .comma then
      skipToken true .key
      complain token.start .redundantComma
      everyProperty options fuel start occurrences
    else if token.kind.isText then
      skipToken true .key
      let colon ← peek false .key
      if colon.kind ≠ .colon then
        complain colon.start (.expectedKeyColon token.content colon)
        recover (some .rBrace)
        everyProperty options fuel start occurrences
      else
        skipToken false .key
        let value ← parseValue options fuel
        let (_, told) ← overheard (addProperty options token value (kept occurrences))
        separator .key .rBrace
        everyProperty options fuel start (occurrences ++ [⟨token, value, told⟩])
    else
      complain token.start (.expectedKey token)
      recover (some .rBrace)
      everyProperty options fuel start occurrences

/-- Of all occurrences those that are kept. -/
def keepFirst (found : List Occurrence × Nat) : List (String × Node) × Nat :=
  (kept found.1, found.2)

/-- Listening changes nothing. -/
lemma overheard_eq {step : Parser α} {value : α} (run : step s = .ok value t) :
    overheard step s = .ok (value, t.reports.toList.drop s.reports.size) t := by
  show (step >>= fun value => do
    return (value, (← get).reports.toList.drop s.reports.size)) s = _
  rw [bind_ok run]
  rfl

/-- Adding a property: a key that is taken is reported. -/
lemma addProperty_eq (options : CompileOptions) (s : ParserState) (key : Token) (value : Node)
    (properties : List (String × Node)) :
    ∃ t, addProperty options key value properties s
        = .ok (Node.insertNew properties key.content value) t ∧
      t.reports = if Node.hasKey properties key.content ∧ s.recovering = false then
        s.reports.push (Occurrence.duplicate options key) else s.reports := by
  rw [addProperty]
  split
  · rename_i taken
    refine ⟨_, rfl, ?_⟩
    cases attends : s.recovering <;> simp [attends, taken, Occurrence.duplicate]
  · rename_i fresh
    exact ⟨s, rfl, by simp [fresh]⟩

/-- **The properties of an object are the first occurrences** of their keys. -/
theorem parseProperties_eq (options : CompileOptions) (fuel start : Nat)
    (occurrences : List Occurrence) :
    parseProperties options fuel start (kept occurrences) =
      keepFirst <$> everyProperty options fuel start occurrences := by
  induction fuel generalizing occurrences with
  | zero => rfl
  | succ fuel ih =>
    rw [parseProperties, everyProperty, map_bind]
    refine bind_congr fun token => ?_
    split
    · simp only [map_bind, map_pure, keepFirst]
    rw [map_bind]
    refine bind_congr fun awaited => ?_
    split
    · simp only [map_bind, map_pure, keepFirst]
    split
    · simp only [map_bind, ih]
    split
    · rw [map_bind]
      refine bind_congr fun _ => ?_
      rw [map_bind]
      refine bind_congr fun colon => ?_
      split
      · simp only [map_bind, ih]
      simp only [map_bind]
      refine bind_congr fun _ => bind_congr fun value => funext fun s => ?_
      obtain ⟨t, added, -⟩ := addProperty_eq options s token value (kept occurrences)
      rw [bind_ok added, bind_ok (overheard_eq added)]
      have behind := kept_concat occurrences
        ⟨token, value, t.reports.toList.drop s.reports.size⟩
      simp only [← behind, ih]
    · simp only [map_bind, ih]

/-! ## What is said of later occurrences -/

/-- What reading the parts of an object does to the reports. -/
lemma leaves_heard {step : Parser α} (blind : Blind step) (attends : s.recovering = false) :
    Leaves step s fun _ t => t.recovering = false ∧ s.reports.toList <+: t.reports.toList :=
  fun _ _ run => ⟨blind.attends run attends, (Accumulates.of_blind blind).ok run⟩

/-- The state of affairs between two properties: what was said of those read so far is among the
reports. -/
structure Heeded (options : CompileOptions) (occurrences : List Occurrence) (s : ParserState) :
    Prop where
  attends : s.recovering = false
  accounted : Occurrence.Accounted options occurrences
  recorded : (occurrences.flatMap (·.told)).Sublist s.reports.toList

namespace Heeded

variable {occurrences : List Occurrence} {β : Type} {next : α → Parser β}
  {result : β → ParserState → Prop}

/-- Behind a step that reads something else. -/
lemma after {step : Parser α} (heeded : Heeded options occurrences s) (blind : Blind step)
    (second : ∀ value t, Heeded options occurrences t → Leaves (next value) t result) :
    Leaves (step >>= next) s result :=
  (leaves_heard blind heeded.attends).bind fun value t heard =>
    second value t ⟨heard.1, heeded.accounted, heeded.recorded.trans heard.2.sublist⟩

end Heeded

/-- **Adding a property** says one thing of a key that is taken, and nothing of another one. -/
lemma heeded_addProperty {occurrences : List Occurrence} (heeded : Heeded options occurrences s)
    (key : Token) (value : Node) :
    Leaves (overheard (addProperty options key value (kept occurrences))) s fun found t =>
      Heeded options (occurrences ++ [⟨key, value, found.2⟩]) t := by
  obtain ⟨t, added, reports⟩ := addProperty_eq options s key value (kept occurrences)
  intro found u run
  rw [overheard_eq added] at run
  cases run
  simp only [heeded.attends, Occurrence.hasKey_kept, and_true] at reports
  have told : t.reports.toList.drop s.reports.size =
      if key.content ∈ occurrences.map (·.key.content) then [Occurrence.duplicate options key]
      else [] := by
    rw [reports]
    split <;> simp
  have recorded : t.reports.toList = s.reports.toList ++ t.reports.toList.drop s.reports.size := by
    rw [told, reports]
    split <;> simp
  refine ⟨(blind_addProperty _ _ _ _).attends added heeded.attends,
    heeded.accounted.concat told, ?_⟩
  rw [List.flatMap_append, List.flatMap_singleton, recorded]
  exact heeded.recorded.append (by simp)

/-- **Every later occurrence of a key is reported once**, and what is reported stays so. -/
theorem heeded_everyProperty (fuel start : Nat) {occurrences : List Occurrence}
    (heeded : Heeded options occurrences s) :
    Leaves (everyProperty options fuel start occurrences) s fun found t =>
      Heeded options found.1 t := by
  induction fuel generalizing s occurrences with
  | zero => exact fun _ _ run => nomatch run
  | succ fuel ih =>
    -- A mistake adds no property, and what is said of it comes behind what was said of the others.
    have recovered {u : ParserState} (heeded : Heeded options occurrences u) (offset : Nat)
        (cause : Cause) :
        Leaves (do
            complain offset cause
            recover (some .rBrace)
            everyProperty options fuel start occurrences) u fun found t =>
          Heeded options found.1 t :=
      heeded.after (blind_complain _ _) fun _ _ heeded => heeded.after (blind_recover _)
        fun _ _ heeded => ih heeded
    rw [everyProperty]
    refine heeded.after (blind_peek _ _) fun token t heeded => ?_
    split
    · exact heeded.after (blind_skipToken _ _) fun _ _ heeded => .pure heeded
    refine .closesAwaited ?_
    split
    · exact heeded.after (blind_complain _ _) fun _ _ heeded => .pure heeded
    split
    · exact heeded.after (blind_skipToken _ _) fun _ _ heeded =>
        heeded.after (blind_complain _ _) fun _ _ heeded => ih heeded
    split
    · refine heeded.after (blind_skipToken _ _) fun _ _ heeded => ?_
      refine heeded.after (blind_peek _ _) fun colon _ heeded => ?_
      split
      · exact recovered heeded _ _
      refine heeded.after (blind_skipToken _ _) fun _ _ heeded => ?_
      refine heeded.after (blind_parseValue _ _) fun value _ heeded => ?_
      refine (heeded_addProperty heeded token value).bind fun found _ heeded => ?_
      exact heeded.after (blind_separator _ _) fun _ _ heeded => ih heeded
    · exact recovered heeded _ _

end Parser

open TreeLang.Parser (initial parseProperties everyProperty keepFirst parseProperties_eq heeded_everyProperty)

/-- **Keys stay distinct.**  In whatever comes of a source the keys of every object are distinct: in its
root, and in the templates and fallbacks that it hands on.  That holds with any table of definitions of
which it holds, as it does of those that were compiled beforehand, and with imports compiled on demand,
from any state in which it holds of what is remembered.  The properties of an object are the first
occurrences of their keys, and each later occurrence is reported once where no tokens are being
skipped. -/
theorem compile_keyed (options : CompileOptions) :
    (∀ table, (∀ entry ∈ table, entry.2.value.Carries Node.Keyed) → ∀ source imports,
      (compile options (tableResolver table) source imports).1.Keyed) ∧
    (∀ sources given, ∀ entry ∈ (precompile options sources given).1,
      entry.2.value.Carries Node.Keyed) ∧
    (∀ inner loader depth source imports, ImportState.Carries Node.Keyed imports →
      let compiled := compile options (loadingResolver inner loader depth) source imports
      compiled.1.Keyed ∧ compiled.2.Carries Node.Keyed) ∧
    ∀ fuel start,
      parseProperties options fuel start [] = keepFirst <$> everyProperty options fuel start [] ∧
      ∀ s occurrences stop t, s.recovering = false →
        everyProperty options fuel start [] s = .ok (occurrences, stop) t →
          (∀ key, Node.lookup (Occurrence.kept occurrences) key =
            (occurrences.find? fun occurrence => occurrence.key.content = key).map (·.value)) ∧
          Occurrence.Accounted options occurrences ∧
          (occurrences.flatMap (·.told)).Sublist t.reports.toList := by
  have grown := Node.grown_keyed.grownFrom
  have keyed {J : ImportState → Prop} {resolver : Resolver} (honest : Honest Node.Keyed J resolver)
      (source : Source) {imports : ImportState} (known : J imports) :
      (compile options resolver source imports).1.Keyed := by
    obtain ⟨root, definitions⟩ := carries_compile grown honest source known
    exact ⟨root, definitions⟩
  refine ⟨fun table carries source imports => keyed (honest_table carries) source trivial,
    carries_precompile grown options, fun inner loader depth source imports known => ?_,
    fun fuel start => ⟨parseProperties_eq options fuel start [], ?_⟩⟩
  · have honest := honest_loading grown inner loader depth
    exact ⟨keyed honest source known, compile_keeps honest options source known⟩
  · intro s occurrences stop t attends run
    have heeded := heeded_everyProperty fuel start ⟨attends, .nil options, List.nil_sublist _⟩ _ t run
    exact ⟨Occurrence.lookup_kept occurrences, heeded.accounted, heeded.recorded⟩

/-- A source that invokes a macro of another one: the template of the macro, the fallback of a parameter
and the object that is given to it all repeat a key.  Besides, the properties of that object. -/
theorem compile_keyed_of_import :
    let options : CompileOptions := { allowDuplicateProperties := true }
    let pairs : Source :=
      ⟨"pairs", "macro pair[x, y = \x7bk: 0, k: 1\x7d]: \x7ba: x, b: y, a: y\x7d"⟩
    let main : Source := ⟨"main", "use public pairs\npair[\x7ba: 1, a: 3\x7d]"⟩
    let loader : Loader := fun path =>
      if path = "pairs" then .source pairs else .failure (.notFound path)
    let table := (precompile options [("pairs", pairs)] {}).1
    let compiled := compile options (loadingResolver options loader 1) main {}
    let s := initial options ⟨"main", "a: 1, b: 2, a: 3\x7d"⟩ {}
    compiled.1.values.map (·.text) = ["\x7ba: \x7ba: 1\x7d, b: \x7bk: 0\x7d\x7d"] ∧
      ImportState.Carries Node.Keyed {} ∧ compiled.1.Keyed ∧ compiled.2.Carries Node.Keyed ∧
      (∀ entry ∈ table, entry.2.value.Carries Node.Keyed) ∧
      (compile options (tableResolver table) main {}).1.Keyed ∧
      s.recovering = false ∧
      ∃ occurrences stop t, everyProperty options 30 0 [] s = .ok (occurrences, stop) t ∧
        occurrences.map (·.key.content) = ["a", "b", "a"] ∧
        Node.lookup (Occurrence.kept occurrences) "a" =
          (occurrences.find? fun occurrence => occurrence.key.content = "a").map (·.value) ∧
        Occurrence.Accounted options occurrences ∧
        (occurrences.flatMap (·.told)).Sublist t.reports.toList := by
  intro options pairs main loader table compiled s
  obtain ⟨tables, beforehand, onDemand, literal⟩ := compile_keyed options
  have nothing : ImportState.Carries Node.Keyed {} := nofun
  have carries := beforehand [("pairs", pairs)] {}
  have loaded := onDemand options loader 1 main {} nothing
  have written : compiled.1.values.map (·.text) =
      ["\x7ba: \x7ba: 1\x7d, b: \x7bk: 0\x7d\x7d"] := by decide +kernel
  have keys : (match everyProperty options 30 0 [] s with
      | .ok (occurrences, _) _ => occurrences.map (·.key.content)
      | .error _ _ => []) = ["a", "b", "a"] := by decide +kernel
  match run : everyProperty options 30 0 [] s with
  | .error fault t =>
    rw [run] at keys
    cases keys
  | .ok (occurrences, stop) t =>
    rw [run] at keys
    obtain ⟨first, accounted, recorded⟩ := (literal 30 0).2 s occurrences stop t rfl run
    exact ⟨written, nothing, loaded.1, loaded.2, carries, tables table carries main {}, rfl,
      occurrences, stop, t, rfl, keys, first "a", accounted, recorded⟩

end TreeLang
