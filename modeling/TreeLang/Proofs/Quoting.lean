import TreeLang.Proofs.Resting

/-!
# What quotes protect

A word in quotes is a text and nothing else.  It refers to no parameter, and no macro is asked about it,
whatever macros are in force.  Quotes around the name of a group protect it from parameters alone: the
group is offered to the macros under that name, as it is without quotes.

* `primitive_quoted`, `runs_quoted` — a word in quotes.
* **`make_requoted`** — a group whose name is put in quotes.
* **`protects_of_reaches`** — a value, where no macro answers to a name that is not that of a word in
  quotes.
-/

namespace TreeLang

namespace Head

/-- The head of a group, with its name put in quotes. -/
def requoted (head : Head) : Head :=
  { head with name := head.name.map fun name => { name with kind := .quoted } }

lemma start_requoted (head : Head) : head.requoted.start = head.start := by
  rw [start, start, requoted, Option.map_map]
  rfl

/-- **A name in quotes refers to no parameter.** -/
lemma reference_requoted (head : Head) (s : ParserState) :
    head.requoted.reference s = .ok none s := by
  rw [reference, requoted]
  cases head.name <;> rfl

end Head

namespace Parser

open TreeLang.Lexis

variable {options : CompileOptions} {lexis : Lexis} {s : ParserState} {p q : Place}

/-! ## Words and names -/

/-- **A word in quotes is a primitive**, of which neither the template being read nor any macro knows. -/
lemma primitive_quoted {token : Token} (quoted : token.kind = .quoted) (expands : Bool)
    (s : ParserState) :
    primitive token expands s
      = .ok (.primitive token.content ⟨s.lastId + 1, ⟨token.start, token.stop⟩⟩) s.numbered := by
  have numbered : freshId s = .ok (s.lastId + 1) s.numbered := rfl
  rw [primitive, bind_ok numbered, if_pos quoted]
  rfl

/-- So it is where it is read, as a value or as an operand. -/
theorem runs_quoted (governs : lexis.Governs s) (rests : s.suppressed = false) {mode : Mode}
    (reads : ReadsAtoms mode) {expands : Bool} {fuel : Nat}
    (silentHead : lexis.SilentHead mode.ofNames p) (head : lexis.headAt? mode.ofNames p = none)
    (silent : (lexis.read true mode p).reports = [])
    (quoted : (lexis.read true mode p).token.kind = .quoted) :
    Runs (parseAtom options (fuel + 2) mode) ((s.suppress !expands).moveTo p)
      (.primitive (lexis.read true mode p).token.content
        ⟨s.lastId + 1, ⟨(lexis.read true mode p).token.start, (lexis.read true mode p).token.stop⟩⟩)
      (s.numbered.moveTo (lexis.read true mode p).after) :=
  runs_atom_word governs rests reads silentHead head silent (by rw [quoted]; rfl)
    (primitive_quoted quoted expands s)

/-- **Quotes around the name of a group** keep it from referring to a parameter.  Where it refers to none
they make no difference: the macros are asked about the group as they are without them. -/
theorem make_requoted (options : CompileOptions) {head : Head} (refers : head.reference s = .ok none s) :
    (∀ operation elements stop, (Phrase.list head.requoted operation elements stop).make options s
      = (Phrase.list head operation elements stop).make options s) ∧
    ∀ entries stop, (Phrase.object head.requoted entries stop).make options s
      = (Phrase.object head entries stop).make options s := by
  have complete (content : GroupContent) :
      completeGroup options head.requoted.name head.requoted.start head.requoted.expands none content
        = completeGroup options head.name head.start head.expands none content := by
    rw [Head.start_requoted, completeGroup.eq_def, completeGroup.eq_def, Head.requoted, Option.map_map]
    rfl
  refine ⟨fun operation elements stop => ?_, fun entries stop => ?_⟩
  · rw [Phrase.make, Phrase.make, bind_ok (head.reference_requoted s), bind_ok refers]
    simp only [complete]
  · rw [Phrase.make, Phrase.make, bind_ok (head.reference_requoted s), bind_ok refers]
    simp only [complete]

/-! ## Values -/

/-- **A value that no macro answers to** is read as its tokens say.  The macros may well have the names of
words in quotes. -/
theorem runs_parseStatement_of_still (resolver : Resolver) (silent : lexis.Silent)
    (governs : lexis.Governs s) (rests : s.suppressed = false)
    (ordinary : lexis.statementAt? p = none) {phrase : Phrase}
    (atom : lexis.Atom .value true p phrase q) {drafting : Bool}
    (still : Still (· ∈ phrase.offered options) drafting s) :
    ∃ (node : Node) (t : ParserState),
      Runs (parseStatement options resolver (lexis.read true .word p).token) (s.moveTo p) (some node)
        (t.moveTo q) ∧
      node.strip = phrase.tree options ∧ t.reports = s.reports ++ phrase.complaints options := by
  obtain ⟨node, t, made, tree, -, reports⟩ := gives_make_of_still options phrase (fun _ h => h) still
  exact ⟨node, t, runs_parseStatement_atom silent governs rests ordinary atom made, tree, reports⟩

/-- **A value of a source** in which macros may be in force, defined or imported.  If none of them has the
name of a bare word, of a group or of an operator of the value, the value is read as its tokens say, and
each word in quotes is a primitive with its text. -/
theorem protects_of_reaches (options : CompileOptions) (resolver : Resolver) (source : Source)
    (imports : ImportState) (reaches : Reaches options resolver (initial options source imports) s)
    (waiting : s.tokens.reports = []) (ordinary : s.lexis.statementAt? s.here = none) {phrase : Phrase}
    (atom : s.lexis.Atom .value true s.here phrase q)
    (unlike : ∀ entry ∈ s.visible.macros.definitions,
      entry.value.signature.name ∉ phrase.offered options) :
    ∃ node t, parseStatement options resolver (s.reads true .word).token s = .ok (some node) t ∧
      node.strip = phrase.tree options ∧ t.reports = s.reports ++ phrase.complaints options ∧
      t.here = q := by
  obtain ⟨settled, resting⟩ := resting_of_reaches (outside_initial source imports).settled
    (resting_initial source imports) reaches
  have still : Still (· ∈ phrase.offered options) false s :=
    ⟨unlike, by rw [resting.depth]; exact Nat.zero_le _, resting.attends,
      fun _ => ⟨resting.scope, resting.depth⟩⟩
  obtain ⟨node, t, runs, tree, reports⟩ := runs_parseStatement_of_still resolver
    (fun _ silent => silent) (governs_lexis waiting) resting.suppressed ordinary atom still
  obtain ⟨u, run, -, base⟩ := runs s settled rfl
  have same : u.base.reports = (t.moveTo q).reports := congrArg _ base
  have place : u.base.here = (t.moveTo q).here := congrArg _ base
  exact ⟨node, u, run, tree, same.trans reports, place⟩

/-- For instance, the macro `m` is not asked about a word in quotes. -/
example : (compile {} (tableResolver []) ⟨"", "macro m: x\nmacro m[x]: x\n[m, \"m\"]"⟩ {}).1.root.text
    = "[[x, m]]" := by
  decide +kernel

/-- But it is asked about a group with such a name. -/
example : (compile {} (tableResolver []) ⟨"", "macro m[x]: x\n\"m\"[1]"⟩ {}).1.root.text = "[1]" := by
  decide +kernel

end Parser

end TreeLang
