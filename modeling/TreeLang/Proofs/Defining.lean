import TreeLang.Proofs.Alone
import TreeLang.Proofs.Expanding

/-!
# Defining a macro

A macro statement is a word, a name, parameters in brackets, a colon and a template.  Where all of
it is written plainly, reading it registers the macro: its parameters are the words in the brackets,
and the nodes of its template are marked by them.

* `IsWord` — letters, digits and underscores.
* `runs_parameterList` — the parameters of a macro.
* `runs_registerMacro` — the first macro that is registered.
* **`runs_macroStatement`** — the statement as a whole.
-/

namespace TreeLang

/-! ## Words -/

/-- The blanks, by their code points. -/
def Text.blanks : List Nat :=
  [9, 10, 11, 12, 13, 0x20, 0x85, 0xA0, 0x1680, 0x2000, 0x2001, 0x2002, 0x2003, 0x2004, 0x2005,
    0x2006, 0x2007, 0x2008, 0x2009, 0x200A, 0x2028, 0x2029, 0x202F, 0x205F, 0x3000]

lemma Text.mem_blanks {c : Char} (blank : Text.isBlank c = true) : c.toNat ∈ Text.blanks := by
  simp only [Text.isBlank, Bool.or_eq_true, Bool.and_eq_true, decide_eq_true_eq, beq_iff_eq] at blank
  simp only [Text.blanks, List.mem_cons, List.not_mem_nil]
  omega

/-- No blank is part of a word. -/
lemma Text.not_isBlank_of_continuesWord {c : Char} (word : Text.continuesWord c = true) :
    Text.isBlank c = false := by
  have none : ∀ n ∈ Text.blanks, Text.continuesWord (Char.ofNat n) = false := by decide +kernel
  by_contra blank
  have absent := none c.toNat (Text.mem_blanks (by simpa using blank))
  rw [Char.ofNat_toNat, word] at absent
  cases absent

/-- The characters of words mean nothing else. -/
lemma Text.of_continuesWord {c : Char} (word : Text.continuesWord c = true) :
    c ∉ ['\\', '"', '\'', '/', '\n', '{', '}', ',', '[', ']', '(', ')', ':', '='] := by
  have none : ['\\', '"', '\'', '/', '\n', '{', '}', ',', '[', ']', '(', ')', ':', '='].all
      (fun d => !Text.continuesWord d) = true := by decide +kernel
  intro member
  have absent := List.all_eq_true.mp none c member
  rw [word] at absent
  cases absent

/-- **A word**: letters, digits and underscores, at least one. -/
structure IsWord (cs : List Char) : Prop where
  nonempty : cs ≠ []
  chars : ∀ c ∈ cs, Text.continuesWord c = true

instance (cs : List Char) : Decidable (IsWord cs) :=
  decidable_of_iff (cs ≠ [] ∧ cs.all Text.continuesWord = true)
    ⟨fun h => ⟨h.1, List.all_eq_true.mp h.2⟩, fun h => ⟨h.1, List.all_eq_true.mpr h.2⟩⟩

namespace IsWord

variable {cs tail : List Char} {mode : Mode} {operators : OperatorRegistry} {lexis : Lexis}
  {p : Place}

lemma bare (word : IsWord cs) (operand : mode ≠ .operation) : Bare operators mode cs := by
  refine ⟨fun c member => ?_, ?_, fun c member => ?_⟩
  · have plain := Text.of_continuesWord (word.chars c member)
    simp only [List.mem_cons, List.not_mem_nil, not_or] at plain
    refine ⟨plain.1, by simp [delimiter?, plain], fun blank => ?_, fun same => absurd same operand⟩
    rw [Text.not_isBlank_of_continuesWord (word.chars c member)] at blank
    cases blank
  · have slashless : '/' ∉ cs := fun member => by
      have plain := Text.of_continuesWord (word.chars _ member)
      simp at plain
    clear word
    induction cs with
    | nil => rfl
    | cons c cs ih =>
      rw [opensComment, ih fun member => slashless (List.mem_cons_of_mem _ member), Bool.or_false]
      have other : c ≠ '/' := fun same => slashless (same ▸ List.mem_cons_self)
      simp [other]
  · exact Text.not_isBlank_of_continuesWord (word.chars c (List.mem_of_getLast? member))

lemma begins (word : IsWord cs) : BeginsBare cs := by
  obtain ⟨c, rest, rfl⟩ := List.exists_cons_of_ne_nil word.nonempty
  have letter := word.chars c List.mem_cons_self
  have plain := Text.of_continuesWord letter
  simp only [List.mem_cons, List.not_mem_nil, not_or] at plain
  exact ⟨c, rest, rfl, Text.not_isBlank_of_continuesWord letter, plain.2.1, plain.2.2.1⟩

/-- **A word is one token**, up to where words end. -/
lemma read (word : IsWord cs) (skipBreaks : Bool) (operand : mode ≠ .operation)
    (stops : Stops mode tail) (hp : p.rest = cs ++ tail) :
    lexis.read skipBreaks mode p = ⟨⟨.literal, String.ofList cs, p.offset, p.offset + cs.length⟩,
      p.skip cs.length, []⟩ :=
  lex_bare (word.bare operand) word.begins stops hp

end IsWord

/-- The state in which a macro is the only one, for the source and for its importers. -/
def ParserState.registered (s : ParserState) (definition : MacroDefinition) : ParserState :=
  let (entry, supply) := s.imports.supply.share definition
  { s with
    imports := { s.imports with supply := supply }
    visible := { s.visible with macros := ⟨[entry]⟩ }
    exported := { s.exported with macros := ⟨[entry]⟩ } }

namespace Parser

variable {s t u : ParserState} {p q r : Place} {lexis : Lexis} {options : CompileOptions}
  {names : List String} {tail : List Char} {tree : Node}

/-! ## Parameters -/

section Separated

variable {after : Place} (governs : lexis.Governs s)
  (met : (lexis.read false .parameter p).reports = [])
  (kind : ((lexis.read false .parameter p).token.kind = .comma ∨
      (lexis.read false .parameter p).token.kind = .lineBreak) ∧
        after = (lexis.read false .parameter p).after ∨
    (lexis.read false .parameter p).token.kind = .rBracket ∧ after = p)

include kind

lemma unannotated : (lexis.read false .parameter p).token.kind ≠ .colon ∧
    (lexis.read false .parameter p).token.kind ≠ .equals := by
  rcases kind with ⟨kind | kind, -⟩ | ⟨kind, -⟩ <;> rw [kind] <;> decide

include governs met

/-- A parameter without annotation. -/
lemma runs_parameterType (parameter : Parameter) :
    Runs (parameterType parameter) (s.moveTo p) (parameter, true) (s.moveTo p) := by
  refine (governs.runs_peek met).bind ?_
  rw [if_neg (unannotated kind).1]
  exact Runs.pure _ _

/-- A parameter without fallback. -/
lemma runs_parameterFallback (fuel : Nat) (parameter : Parameter) :
    Runs (parameterFallback options fuel parameter) (s.moveTo p) parameter (s.moveTo p) := by
  refine (governs.runs_peek met).bind ?_
  rw [if_neg (unannotated kind).2]
  exact Runs.pure _ _

/-- The separator behind a parameter, which is passed, or the closer, which is not. -/
lemma runs_parameterSeparator (parameter : Parameter) :
    Runs (parameterSeparator .rBracket parameter) (s.moveTo p) true (s.moveTo after) := by
  refine (governs.runs_peek met).bind ?_
  rcases kind with ⟨kind, rfl⟩ | ⟨kind, rfl⟩
  · rw [if_pos (by simpa using kind)]
    exact (governs.runs_skipToken met).bind (Runs.pure _ _)
  · rw [if_neg (by rw [kind]; decide)]
    refine (runs_closesAwaited _ _).bind ?_
    rw [if_pos (by simp [kind])]
    exact Runs.pure _ _

end Separated

variable (options) in
/-- **The parameters of a macro**, up to the end of their list. -/
theorem runs_parameterList (silent : lexis.Silent)
    (admits : ∀ lexeme : Lexeme, lexeme.reports = [] → lexis.admits lexeme)
    (governs : lexis.Governs s) (words : ∀ name ∈ names, IsWord name.toList)
    (known : List Parameter) {fuel : Nat} (leads : lexis.Leads p q)
    (hq : q.rest = (String.intercalate ", " names).toList ++ ']' :: tail)
    (enough : names.length < fuel) :
    ∃ r, r.rest = tail ∧ Runs (parameterList options .rBracket fuel known true) (s.moveTo p)
      (some (known ++ names.map .plain)) (s.moveTo r) := by
  have closes : delimiter? .parameter ']' = some .rBracket := by decide
  obtain ⟨fuel, rfl⟩ : ∃ f, fuel = f + 1 := ⟨fuel - 1, by omega⟩
  induction names generalizing p q known fuel with
  | nil =>
    have lexed : lexis.read true .parameter p = _ :=
      (leads .parameter).trans (lex_delimiter hq closes fun same => absurd same (by decide))
    refine ⟨q.next, Place.rest_next_of_cons hq, ?_⟩
    rw [parameterList]
    refine (governs.runs_peek (by rw [lexed])).bind ?_
    rw [if_pos (by rw [lexed])]
    have skip : Runs (skipToken true .parameter) (s.moveTo p) () (s.moveTo _) :=
      governs.runs_skipToken (by rw [lexed])
    rw [lexed] at skip
    refine skip.bind ?_
    rw [List.map_nil, List.append_nil]
    exact Runs.pure _ _
  | cons name others ih =>
    obtain ⟨word, words⟩ := List.forall_mem_cons.mp words
    obtain ⟨behind, split, ends, -, separated⟩ := Lexis.separated_of_intercalate admits closes (.inl rfl)
      name others tail
    rw [split] at hq
    have lexed : lexis.read true .parameter p = _ := (leads .parameter).trans
      (word.read true (by decide) (stops_of_endsElement ends (by decide)) hq)
    obtain ⟨after, next, ⟨met, kind⟩, onward, hnext, -⟩ :=
      separated (q.skip name.toList.length) (Place.rest_skip_of_append hq)
    have met := silent _ met
    simp only [List.length_cons] at enough
    obtain ⟨fuel, rfl⟩ : ∃ f, fuel = f + 1 := ⟨fuel - 1, by omega⟩
    obtain ⟨r, hr, others⟩ := ih words (known ++ [.plain name]) onward hnext fuel (by omega)
    refine ⟨r, hr, ?_⟩
    rw [parameterList]
    refine (governs.runs_peek (by rw [lexed])).bind ?_
    simp only [lexed, TokenKind.isText, reduceCtorEq, if_false, if_true, String.ofList_toList]
    refine (runs_closesAwaited _ _).bind ?_
    simp only [TokenKind.isCloser, Bool.false_and, Bool.or_false, decide_false, Bool.false_eq_true,
      if_false]
    have skip : Runs (skipToken true .parameter) (s.moveTo p) () (s.moveTo _) :=
      governs.runs_skipToken (by rw [lexed])
    rw [lexed] at skip
    refine skip.bind ((runs_parameterType governs met kind _).bind ?_)
    refine (runs_parameterFallback governs met kind _ _).bind ?_
    refine (runs_parameterSeparator governs met kind _).bind ?_
    simpa using others

/-- Plain parameters of different names are admissible. -/
lemma checkParameters_plain (kind : MacroKind) (distinct : names.Nodup) :
    checkParameters kind (names.map .plain) = .ok (names.map .plain) := by
  have unrepeated : ∀ seen : List String, (∀ name ∈ names, name ∉ seen) →
      repeatedName? seen (names.map .plain) = none := by
    induction names with
    | nil => exact fun _ _ => rfl
    | cons name others ih =>
      intro seen new
      obtain ⟨absent, distinct⟩ := List.nodup_cons.mp distinct
      have first : ¬ seen.contains name = true := by simpa using new name List.mem_cons_self
      rw [List.map_cons, repeatedName?, show (Parameter.plain name).name = name from rfl, if_neg first]
      refine ih distinct _ fun other member => ?_
      rw [List.mem_cons, not_or]
      exact ⟨ne_of_mem_of_not_mem member absent, new other (List.mem_cons_of_mem _ member)⟩
  have placed : misplacedRequired? (names.map .plain) = none := by
    clear unrepeated distinct
    induction names with
    | nil => rfl
    | cons name others ih =>
      cases others with
      | nil => rfl
      | cons => exact ih
  rw [checkParameters, unrepeated [] fun _ _ => by simp, placed]
  simp

/-! ## Registering -/

/-- **The first macro of a source** is registered. -/
lemma runs_registerMacro (visible : s.visible.macros = .empty)
    (exported : s.exported.macros = .empty) (definition : MacroDefinition) (offset : Nat) :
    Runs (registerMacro definition offset) s () (s.registered definition) := by
  intro s₁ settled hbase
  have visible : s₁.visible.macros = .empty :=
    (congrArg (·.visible.macros) hbase).trans visible
  have exported : s₁.exported.macros = .empty :=
    (congrArg (·.exported.macros) hbase).trans exported
  have first (entry : Shared MacroDefinition) :
      MacroRegistry.empty.add entry = .ok ⟨[entry]⟩ := rfl
  refine ⟨s₁.registered definition, ?_, ⟨settled.handed, settled.coherent⟩, ?_⟩
  · rw [registerMacro, bind_get]
    dsimp only
    rw [bind_set, visible, first]
    dsimp only
    rw [bind_modify, exported, first]
    rfl
  · rw [← hbase]
    rfl

/-! ## Templates -/

variable (names) in
/-- A template is begun without a node. -/
lemma drafts_start (quiet : Quiet s) (shallow : s.depth = 0) :
    Drafts names { s with scope := some (.start names) } [] := by
  refine ⟨⟨quiet.macros, quiet.depth, quiet.recovering⟩,
    ⟨?_, shallow, Nat.zero_le _, nofun, ?_, ?_, ?_⟩, .empty, rfl, nofun⟩
  · simp [quiet.macros, MacroRegistry.empty]
  · rintro _ ⟨⟩
    rfl
  · rintro _ ⟨⟩
    simp [TemplateScope.start, Marks.empty]
  · rintro _ ⟨⟩
    exact .inr (Exact.start 0 s.lastId)

variable {word : String → Prop} {phrase : Phrase}

/-- **A template and the marks on it**: its nodes are marked by the parameters. -/
theorem runs_template (silent : lexis.Silent) (governs : lexis.Governs s) (quiet : Quiet s)
    (shallow : s.depth = 0) (outside : s.scope = none) (rests : s.suppressed = false)
    (unnamed : "" ∉ names) (plain : phrase.Plain word (Foreign names))
    (uncomplaining : phrase.complaints options = []) (atom : lexis.Atom .value true p phrase q)
    {fuel : Nat} (enough : lexis.cost p + 2 ≤ fuel) :
    ∃ node scope id, Runs (template options fuel (names.map .plain)) (s.moveTo p) (node, some scope)
        (ParserState.moveTo { s with lastId := id } q) ∧
      node.strip = phrase.tree options ∧ node.Marked names scope.references ∧
      Exact 0 id scope.references.keys scope.deferred.keys [node] := by
  obtain ⟨node, t, made, drafts⟩ := drafts_make unnamed phrase plain uncomplaining
    (drafts_start names quiet shallow)
  obtain ⟨node', t', made', tree, -, reports⟩ := gives_make options phrase
    (drafts_start names quiet shallow).quiet
  obtain ⟨rfl, rfl⟩ := ok_unique made made'
  obtain ⟨references, h, marked⟩ := drafts.marked
  obtain ⟨scope, inside, rfl⟩ := Option.map_eq_some_iff.mp h
  refine ⟨node, scope, t.lastId, ?_, tree, marked node List.mem_cons_self, drafts.exact inside⟩
  have final : { t with scope := none } = { s with lastId := t.lastId } := by
    have same : t.reports = s.reports := by rw [reports, uncomplaining]; rfl
    have depth : t.depth = s.depth := drafts.tracks.shallow.trans shallow.symm
    obtain ⟨change, rfl, -⟩ := (nodewise_make options phrase).exists_change made
    cases s
    simp_all [Change.apply]
  have start : TemplateScope.start ((names.map Parameter.plain).map (·.name)) = .start names := by
    rw [List.map_map]
    exact congrArg _ (List.map_id names)
  refine .get fun s₁ hbase => ?_
  have outer : s₁.scope = none := (congrArg (·.scope) hbase).trans outside
  rw [outer, start]
  have begun : Runs (modify fun s => { s with scope := some (.start names) }) (s.moveTo p) ()
      (ParserState.moveTo { s with scope := some (.start names) } p) :=
    runs_modify (fun _ => rfl) (fun _ => rfl) fun _ => rfl
  have drafting : lexis.Governs { s with scope := some (.start names) } :=
    ⟨governs.operators, governs.policy, governs.reports⟩
  have value : Runs (parseValue options fuel) _ node (t.moveTo q) :=
    atom.runs silent lexis.affords_priorityGroups (.inl rfl) drafting rests made (by omega)
  have unsuppressed : ParserState.suppress { s with scope := some (.start names) } (!true)
      = { s with scope := some (.start names) } := Lexis.suppress_of_rests rests
  rw [unsuppressed] at value
  refine begun.bind (value.bind (.get fun s₂ hbase => ?_))
  have found : s₂.scope = some scope := (congrArg (·.scope) hbase).trans inside
  rw [found]
  have ended : Runs (modify fun s => { s with scope := none }) (t.moveTo q) ()
      (ParserState.moveTo { t with scope := none } q) :=
    runs_modify (fun _ => rfl) (fun _ => rfl) fun _ => rfl
  rw [final] at ended
  exact ended.bind (Runs.pure _ _)

/-- Counting the mistakes so far. -/
lemma runs_errorCount (s : ParserState) :
    Runs errorCount s (s.reports.countP Report.isError) s :=
  .get fun s₁ hbase => by
    have same : s₁.reports = s.reports := congrArg (·.reports) hbase
    rw [same]
    exact Runs.pure _ _

/-- **The template of a macro** is read, and the macro is registered. -/
theorem runs_macroBody (silent : lexis.Silent) (governs : lexis.Governs s) (quiet : Quiet s)
    (exported : s.exported.macros = .empty) (shallow : s.depth = 0) (outside : s.scope = none)
    (rests : s.suppressed = false) (distinct : names.Nodup) (unnamed : "" ∉ names)
    (plain : phrase.Plain word (Foreign names)) (uncomplaining : phrase.complaints options = [])
    (atom : lexis.Atom .value true p phrase q) {fuel : Nat} (enough : lexis.cost p + 2 ≤ fuel)
    (name : Token) (m : String) :
    ∃ node id deferred, node.strip = phrase.tree options ∧
      Runs (macroBody options fuel name ⟨m, .list⟩ (names.map .plain)) (s.moveTo p) ()
        ((ParserState.registered { s with lastId := id } (.ofList m names node deferred)).moveTo q)
      := by
  obtain ⟨node, scope, id, read, tree, marked, exact⟩ := runs_template silent governs quiet shallow
    outside rests unnamed plain uncomplaining atom enough
  have built := MacroDefinition.build_plain scope.deferred m marked
    (MacroDefinition.length_findReplacements_of_exact exact)
  refine ⟨node, id, MacroDefinition.findDeferred node scope.deferred, tree, ?_⟩
  rw [macroBody]
  simp only [checkParameters_plain _ distinct]
  refine (runs_errorCount _).bind (read.bind ((runs_errorCount _).bind ?_))
  have registers := runs_registerMacro (s := ParserState.moveTo { s with lastId := id } q)
    quiet.macros exported
    (.ofList m names node (MacroDefinition.findDeferred node scope.deferred)) name.start
  split
  · rename_i more
    exact absurd more (lt_irrefl _)
  · simp only [built]
    exact (Runs.pure _ _).bind registers

/-! ## Statements -/

/-- **What a place offers for a template or an argument**: a value, from there to another place,
with words and operators of some sort. -/
structure Offers (lexis : Lexis) (options : CompileOptions) (word : String → Prop)
    (operator : OperatorDefinition → Prop) (p : Place) (phrase : Phrase) (q : Place) : Prop where
  atom : lexis.Atom .value true p phrase q
  plain : phrase.Plain word operator
  complaints : phrase.complaints options = []

lemma Offers.mono {words word : String → Prop} {operators operator : OperatorDefinition → Prop}
    {phrase : Phrase} (offers : Offers lexis options words operators p phrase q)
    (weaker : ∀ text, words text → word text) (others : ∀ op, operators op → operator op) :
    Offers lexis options word operator p phrase q :=
  ⟨offers.atom, .mono weaker others phrase offers.plain, offers.complaints⟩

/-- The characters of a macro statement in front of its template. -/
def statementHead (m : String) (names : List String) : List Char :=
  "macro".toList ++ ' ' :: (m.toList ++ '[' :: ((String.intercalate ", " names).toList ++ [']', ':', ' ']))

section Statement

variable (lexis) {m : String} {body : List Char} (named : IsWord m.toList)
  (hp : p.rest = statementHead m names ++ body)

include hp

/-- The word that a macro statement begins with. -/
lemma read_macroWord (skipBreaks : Bool) :
    lexis.read skipBreaks .word p = ⟨⟨.literal, "macro", p.offset, p.offset + 5⟩, p.skip 5, []⟩ ∧
      (p.skip 5).rest = ' ' :: (m.toList ++
        '[' :: ((String.intercalate ", " names).toList ++ ']' :: ':' :: ' ' :: body)) := by
  have split : p.rest = "macro".toList ++ ' ' :: (m.toList ++
      '[' :: ((String.intercalate ", " names).toList ++ ']' :: ':' :: ' ' :: body)) := by
    rw [hp, statementHead]
    simp
  have word : IsWord "macro".toList := by decide +kernel
  have stops : Stops .word (' ' :: (m.toList ++
      '[' :: ((String.intercalate ", " names).toList ++ ']' :: ':' :: ' ' :: body))) :=
    Or.inr ⟨by decide, rfl⟩
  exact ⟨word.read skipBreaks (by decide) stops split, Place.rest_skip_of_append split⟩

include named

/-- The name of the macro. -/
lemma read_macroName : ∃ q start, lexis.read false .word (p.skip 5)
      = ⟨⟨.literal, m, start, q.offset⟩, q, []⟩ ∧
    q.rest = '[' :: ((String.intercalate ", " names).toList ++ ']' :: ':' :: ' ' :: body) := by
  obtain ⟨-, blank⟩ := read_macroWord lexis hp true
  have front : lexis.read false .word (p.skip 5) = lexis.read false .word (p.skip 5).next :=
    lex_blanks (show (p.skip 5).rest = [' '] ++ _ from blank)
      (List.forall_mem_singleton.mpr (by decide))
  have name := Place.rest_next_of_cons blank
  have stops : Stops .word ('[' :: ((String.intercalate ", " names).toList ++
      ']' :: ':' :: ' ' :: body)) := Or.inl (by decide)
  refine ⟨(p.skip 5).next.skip m.toList.length, (p.skip 5).next.offset, ?_,
    Place.rest_skip_of_append name⟩
  rw [front, named.read false (by decide) stops name, Place.offset_skip_of_append name,
    String.ofList_toList]

end Statement

variable (options) in
/-- **The parameters in their brackets**, behind the name of a macro. -/
lemma runs_macroHead {body : List Char} (m : String) (start : Nat) (silent : lexis.Silent)
    (admits : ∀ lexeme : Lexeme, lexeme.reports = [] → lexis.admits lexeme)
    (governs : lexis.Governs s) (words : ∀ name ∈ names, IsWord name.toList) {fuel : Nat}
    (hp : p.rest = '[' :: ((String.intercalate ", " names).toList ++ ']' :: body))
    (enough : names.length < fuel) :
    ∃ r, r.rest = body ∧
      Runs (macroHead options fuel false ⟨.literal, m, start, p.offset⟩) (s.moveTo p)
        (some (.list, names.map .plain)) (s.moveTo r) := by
  have opens : delimiter? .word '[' = some .lBracket := by decide
  have lexed : lexis.read false .word p = _ := lex_delimiter hp opens fun same => by cases same
  obtain ⟨r, hr, list⟩ := runs_parameterList options silent admits
    (governs.awaiting .rBracket) words [] (fun _ => rfl) (Place.rest_next_of_cons hp) enough
  refine ⟨r, hr, ?_⟩
  have attached : Runs (attachedOpener? ⟨.literal, m, start, p.offset⟩) (s.moveTo p)
      (some ⟨.lBracket, "", p.offset, p.offset + 1⟩) (s.moveTo p) := by
    refine (governs.runs_peek (by rw [lexed])).bind ?_
    rw [lexed]
    simp only [TokenKind.isOpener, decide_true, Bool.and_self, if_true]
    exact Runs.pure _ _
  have skip : Runs (skipToken false .word) (s.moveTo p) () (s.moveTo _) :=
    governs.runs_skipToken (by rw [lexed])
  rw [lexed] at skip
  refine attached.bind (skip.bind ((runs_await .rBracket _).bind (list.bind ?_)))
  exact (runs_settle .rBracket (s.moveTo r)).bind (Runs.pure _ _)

/-- There are no more words than characters. -/
lemma length_le_intercalate (words : ∀ name ∈ names, IsWord name.toList) :
    names.length ≤ (String.intercalate ", " names).toList.length := by
  induction names with
  | nil => exact Nat.zero_le _
  | cons name others ih =>
    obtain ⟨word, words⟩ := List.forall_mem_cons.mp words
    have letter := List.length_pos_iff.mpr word.nonempty
    have behind := ih words
    cases others with
    | nil =>
      rw [String.intercalate_singleton]
      exact letter
    | cons other others =>
      rw [String.intercalate_cons_cons]
      simp only [List.length_cons, String.toList_append, List.length_append] at behind letter ⊢
      omega

/-- **A macro statement** registers its macro. -/
theorem runs_macroStatement {m : String} {body : List Char} (silent : lexis.Silent)
    (admits : ∀ lexeme : Lexeme, lexeme.reports = [] → lexis.admits lexeme)
    (governs : lexis.Governs s) (quiet : Quiet s) (exported : s.exported.macros = .empty)
    (shallow : s.depth = 0) (outside : s.scope = none) (rests : s.suppressed = false)
    (named : IsWord m.toList) (words : ∀ name ∈ names, IsWord name.toList) (distinct : names.Nodup)
    (hp : p.rest = statementHead m names ++ body)
    (offered : ∀ start : Place, start.rest = body → start.previous = some ' ' → ∃ phrase q,
      Offers lexis options word (Foreign names) start phrase q ∧ phrase.tree options = tree ∧
        q.rest = tail) :
    ∃ node id deferred q, node.strip = tree ∧ q.rest = tail ∧
      Runs (macroStatement options (lexis.cost p + lexis.pace) false) (s.moveTo p) ()
        ((ParserState.registered { s with lastId := id } (.ofList m names node deferred)).moveTo q)
      := by
  obtain ⟨keyword, -⟩ := read_macroWord lexis hp true
  obtain ⟨p₁, start, name, bracket⟩ := read_macroName lexis named hp
  have unnamed : "" ∉ names := fun member => (words _ member).nonempty rfl
  have pace := lexis.ten_le_pace
  -- The text ahead pays for the parameters and for the template.
  have total : p.rest.length = m.toList.length + (String.intercalate ", " names).toList.length
      + body.length + 10 := by
    rw [hp, statementHead]
    simp
    omega
  have paid : p.rest.length ≤ lexis.cost p := Nat.le_mul_of_pos_right _ (by omega)
  have enough : names.length < lexis.cost p + lexis.pace := by
    have words := length_le_intercalate words
    omega
  obtain ⟨p₂, colon, head⟩ := runs_macroHead options m start silent admits governs words bracket
    enough
  have blank := Place.rest_next_of_cons colon
  have spent : lexis.cost p₂.next + 2 ≤ lexis.cost p + lexis.pace := by
    have less : lexis.cost p₂.next ≤ lexis.cost p := lexis.cost_le (by
      rw [blank, total, List.length_cons]
      omega)
    omega
  obtain ⟨phrase, q, offers, said, behind⟩ := offered p₂.next.next (Place.rest_next_of_cons blank)
    (Place.previous_next_of_cons blank)
  obtain ⟨node, id, deferred, stripped, registers⟩ := runs_macroBody silent governs quiet exported
    shallow outside rests distinct unnamed offers.plain offers.complaints
    (offers.atom.of_leads (Lexis.leads_blank blank)) spent
    ⟨.literal, m, start, p₁.offset⟩ m
  refine ⟨node, id, deferred, q, stripped.trans said, behind, ?_⟩
  have lexed : lexis.read false .word p₂ = _ :=
    lex_delimiter colon (show delimiter? .word ':' = some .colon by decide) fun same => by cases same
  have first : Runs (advance true .word) (s.moveTo p) _ (s.moveTo _) :=
    governs.runs_advance (by rw [keyword])
  have second : Runs (advance false .word) (s.moveTo (p.skip 5)) _ (s.moveTo _) :=
    governs.runs_advance (by rw [name])
  have skip : Runs (skipToken false .word) (s.moveTo p₂) () (s.moveTo _) :=
    governs.runs_skipToken (by rw [lexed])
  rw [keyword] at first
  rw [name] at second
  rw [lexed] at skip
  refine first.bind (second.bind ?_)
  rw [if_neg (by simp [TokenKind.isText])]
  refine head.bind ((governs.runs_peek (by rw [lexed])).bind ?_)
  rw [if_neg (by simp [lexed])]
  exact skip.bind registers

/-- **A definition statement at the top of a source.** -/
lemma runs_parseStatement_definition (resolver : Resolver) {opening : StatementKeyword}
    (governs : lexis.Governs s) (silent : lexis.SilentHead .word p)
    (found : lexis.statementAt? p = some opening)
    (defines : Runs (definitionStatement options resolver (lexis.cost p + lexis.pace) opening)
      (s.moveTo p) () t) :
    Runs (parseStatement options resolver (lexis.read true .word p).token) (s.moveTo p) none t := by
  have keyword := runs_statementKeyword? governs silent
  rw [found] at keyword
  exact (runs_valueFuel governs p).bind (keyword.bind (defines.bind (Runs.pure _ _)))

variable (lexis) in
/-- A macro statement is known by its first word and the name behind it. -/
lemma statementAt?_macro {m : String} {body : List Char} (named : IsWord m.toList)
    (hp : p.rest = statementHead m names ++ body) :
    lexis.statementAt? p = some .template ∧ lexis.SilentHead .word p ∧
      opensStatement (lexis.read true .word p).token.kind = true := by
  obtain ⟨keyword, -⟩ := read_macroWord lexis hp true
  obtain ⟨q, start, name, -⟩ := read_macroName lexis named hp
  have behind : lexis.behindName .word p = lexis.read false .word (p.skip 5) := by
    rw [Lexis.behindName, keyword]
  have word : StatementKeyword.ofText? "macro" = some .template := by decide
  refine ⟨?_, ⟨by rw [keyword], fun _ => by rw [behind, name]⟩, by rw [keyword]; rfl⟩
  simp [Lexis.statementAt?, keyword, behind, name, word, TokenKind.isOpener]

end Parser

end TreeLang
