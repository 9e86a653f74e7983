import TreeLang.Proofs.Defining

/-!
# Calling a macro

A source may define a macro and call it on its next line.  Where the template and the arguments are
values that are read alike by themselves, the call means what substitution says: the parameters give
way to the arguments, all at once, and where a parameter stands for a name the argument has to be a
text.

* `treeOf` — the tree of a text that is one value.
* `Fits` — a text that may be a template or an argument.
* `exists_offers`, `exists_elements` — such texts inside a source.
* `runs_call` — the call, where the macro is the only one.
* **`compile_callSource`** — what a compiler makes of the definition and the call.
-/

namespace TreeLang

open TreeLang.Parser

variable {options : CompileOptions} {resolver : Resolver} {m : String} {names : List String}

/-! ## The operators of a source that defines none -/

/-- Whether a sort of names and what goes on behind a value are clear of an operator. -/
def OperatorDefinition.isApart (op : OperatorDefinition) : Bool :=
  (if op.accessor then op.nodeName = "" else op.nodeName.toList.any fun c => !Text.continuesWord c) &&
    ['\n', ',', ']'].all fun c => !op.name.toList.contains c

/-- **No operator that sources start with is a word**, and none contains a separator. -/
lemma isApart_of_starting {op : OperatorDefinition}
    (inForce : op ∈ (startingLexis options).operators.definitions) : op.isApart = true := by
  have starting : (if options.defaultOperators then OperatorRegistry.defaults
      else OperatorRegistry.empty).definitions.all OperatorDefinition.isApart = true := by
    cases options.defaultOperators <;> decide +kernel
  exact List.all_eq_true.mp starting op inForce

namespace OperatorDefinition

variable {op : OperatorDefinition} (apart : op.isApart = true)

include apart

/-- The name of its nodes is no word. -/
lemma nodeName_of_isApart (other : op.accessor = false) {cs : List Char} (word : IsWord cs) :
    op.nodeName.toList ≠ cs := by
  rintro rfl
  rw [isApart, Bool.and_eq_true, other, if_neg Bool.false_ne_true, List.any_eq_true] at apart
  obtain ⟨c, member, strange⟩ := apart.1
  rw [word.chars c member] at strange
  cases strange

lemma accessor_of_isApart (accessor : op.accessor = true) : op.nodeName = "" := by
  rw [isApart, Bool.and_eq_true, accessor, if_pos rfl, decide_eq_true_eq] at apart
  exact apart.1

lemma not_mem_of_isApart {c : Char} (separator : c = '\n' ∨ c = ',' ∨ c = ']') :
    c ∉ op.name.toList := by
  rw [isApart, Bool.and_eq_true, List.all_eq_true] at apart
  have absent := apart.2 c (by simpa using separator)
  simpa using absent

end OperatorDefinition

lemma foreign_of_starting (words : ∀ name ∈ names, IsWord name.toList) {op : OperatorDefinition}
    (inForce : op ∈ (startingLexis options).operators.definitions) : Foreign names op := by
  have apart := isApart_of_starting inForce
  rw [Foreign]
  split
  · rename_i accessor
    exact OperatorDefinition.accessor_of_isApart apart accessor
  · rename_i other
    exact fun member => OperatorDefinition.nodeName_of_isApart apart (by simpa using other)
      (words _ member) rfl

lemma heeds_of_starting (named : IsWord m.toList) {op : OperatorDefinition}
    (inForce : op ∈ (startingLexis options).operators.definitions) : Phrase.Heeds (· ≠ m) op := by
  have apart := isApart_of_starting inForce
  rw [Phrase.Heeds]
  split
  · rename_i accessor
    exact OperatorDefinition.accessor_of_isApart apart accessor
  · rename_i other
    rintro rfl
    exact OperatorDefinition.nodeName_of_isApart apart (by simpa using other) named rfl

/-- A separator ends a value of a source that defines no operators. -/
lemma behind_cons {c : Char} (separator : c = '\n' ∨ c = ',' ∨ c = ']') (tail : List Char) :
    Behind (startingLexis options).operators (c :: tail) :=
  ⟨separator, fun _ inForce =>
    OperatorDefinition.not_mem_of_isApart (isApart_of_starting inForce) separator⟩

/-! ## Texts that are one value, inside a source -/

/-- **The tree of a text that is one value**: what compiling it by itself gives. -/
def treeOf (options : CompileOptions) (text : String) : Node :=
  ((compileAlone options ⟨"", text⟩ {}).1.values.headD (.plain "")).strip

lemma treeOf_of_phrase {text : String} {phrase : Phrase} (whole : PhraseOf options text phrase) :
    treeOf options text = phrase.tree options := by
  obtain ⟨-, node, values, tree⟩ := @compileAlone_of_phrase options {} "" text phrase whole
  rw [treeOf, values]
  exact tree

/-- **A text that may be the template or an argument of a macro**: by itself it is one value, without
quotes, backslashes and comments, and the name of the macro occurs nowhere in it. -/
structure Fits (options : CompileOptions) (m text : String) : Prop where
  one : isOneValue options text = true
  calm : Calm text.toList
  unsaid : ¬ m.toList <:+: text.toList

namespace Fits

variable {text : String} {tail : List Char} {start : Place}

/-- **Inside a source such a text is read like it is by itself.** -/
theorem exists_offers (fits : Fits options m text)
    (behind : Behind (startingLexis options).operators tail)
    (ahead : start.rest = text.toList ++ tail) (digit : start.previous.any Char.isDigit = false) :
    ∃ phrase q, Offers (startingLexis options) options (· ≠ m)
        (· ∈ (startingLexis options).operators.definitions) start phrase q ∧
      phrase.tree options = treeOf options text ∧ q.rest = tail ∧
      ((startingLexis options).read true .value start).reports = [] := by
  obtain ⟨phrase, whole⟩ := exists_phrase_of_isOneValue fits.one
  obtain ⟨q, atom, left⟩ := whole.atom
  have enclosed : (startingLexis options).Enclosed text.toList tail :=
    ⟨fun _ silent => silent, behind, fits.calm⟩
  have inside : (Place.start text.toList).rest <:+ text.toList := List.suffix_refl _
  have carried : (Place.start text.toList).Carried start.offset tail start :=
    ⟨ahead, (Nat.zero_add _).symm, digit⟩
  have more := (Lexis.ends_of_beginsElement (Lexis.Element.value atom).begins
    (show TokenKind.rBracket.isCloser from rfl)).2.1
  obtain ⟨plain, -, follows⟩ := atom.carried enclosed (.inl rfl) inside
  obtain ⟨q', moved, atom'⟩ := follows start carried
  refine ⟨phrase.shift start.offset, q', ⟨atom', ?_, ?_⟩, ?_, ?_, ?_⟩
  · refine .mono (fun word said => ?_) (fun _ inForce => inForce) _ (plain.shift start.offset phrase)
    rintro rfl
    exact fits.unsaid said
  · rw [Phrase.complaints_shift, whole.complaints]
    rfl
  · rw [Phrase.tree_shift, treeOf_of_phrase whole]
  · rw [moved.rest, left]
    rfl
  · exact ((enclosed.read_value inside (by decide) more).2 carried).silent

/-- The tree of such a text says neither a name twice nor that of the macro. -/
theorem tells (fits : Fits options m text) (named : IsWord m.toList) :
    (treeOf options text).All (Node.Tells (· ≠ m)) := by
  have unnamed : "" ≠ m := fun same => named.nonempty (by rw [← same]; rfl)
  have ahead : (Place.mk 0 none (text.toList ++ ['\n'])).rest = text.toList ++ ['\n'] := rfl
  obtain ⟨phrase, _, offers, tree, -⟩ := fits.exists_offers (behind_cons (.inl rfl) []) ahead rfl
  rw [← tree]
  exact phrase.tree_tells unnamed (Phrase.names_of_plain unnamed (fun _ other => other)
    (fun _ inForce => heeds_of_starting named inForce) phrase offers.plain)

end Fits

/-- **Inside a source a list of such texts is read as a list of their trees.** -/
theorem exists_elements {texts : List String} {tail : List Char} {p q : Place}
    (fits : ∀ text ∈ texts, Fits options m text) (leads : (startingLexis options).Leads p q)
    (ahead : q.rest = (String.intercalate ", " texts).toList ++ ']' :: tail)
    (digit : texts ≠ [] → q.previous.any Char.isDigit = false) :
    ∃ elements stop last,
      (startingLexis options).Elements .value .rBracket p elements stop last ∧ last.rest = tail ∧
      Phrase.PlainElements (· ≠ m) (· ∈ (startingLexis options).operators.definitions) elements ∧
      Phrase.treeElements options elements = texts.map (treeOf options) ∧
      Phrase.complaintsElements options elements = [] := by
  have closes : delimiter? .value ']' = some .rBracket := by decide
  induction texts generalizing p q with
  | nil =>
    have lexed : (startingLexis options).read true .value p = _ :=
      (leads .value).trans (lex_delimiter ahead closes fun same => absurd same (by decide))
    have done : (startingLexis options).Elements .value .rBracket p [] _ _ :=
      .done (by rw [lexed]) (by rw [lexed]; rfl)
    rw [lexed] at done
    exact ⟨[], _, _, done, Place.rest_next_of_cons ahead, trivial, rfl, rfl⟩
  | cons text others ih =>
    obtain ⟨fit, fits⟩ := List.forall_mem_cons.mp fits
    obtain ⟨behind, split, -, ⟨d, rest, rfl, separator⟩, separated⟩ :=
      Lexis.separated_of_intercalate
        (fun (lexeme : Lexeme) silent => show (startingLexis options).admits lexeme from silent) closes
        (.inl rfl) text others tail
    rw [split] at ahead
    obtain ⟨phrase, last, offers, tree, left, met⟩ :=
      fit.exists_offers (behind_cons (.inr separator) rest) ahead
        (digit (List.cons_ne_nil _ _))
    obtain ⟨after, next, passed, onward, hnext, blank⟩ := separated last left
    obtain ⟨elements, stop, final, read, hfinal, plain, trees, silent⟩ := ih fits onward hnext
      fun more => by rw [blank more]; rfl
    refine ⟨phrase :: elements, stop, final,
      .more ?_ (.value (offers.atom.of_leads leads)) passed read, hfinal, ⟨offers.plain, plain⟩, ?_, ?_⟩
    · rw [leads .value]
      exact met
    · rw [Phrase.treeElements, tree, trees, List.map_cons]
    · rw [Phrase.complaintsElements, offers.complaints, silent]
      rfl

/-! ## Substituting trees -/

lemma MacroDefinition.given_map (f : Node → Node) (arguments : List Node) (word : String) :
    given names (arguments.map f) word = (given names arguments word).map f := by
  rw [given, given]
  cases names.findIdx? (· = word) with
  | none => rfl
  | some index => exact List.getElem?_map

lemma Node.names_strip (word : String) (node : Node) : node.strip.Names word ↔ node.Names word := by
  rw [names_iff, names_iff, all_strip fun inner => by rw [name?_strip]]

/-- Whether a parameter offends does not depend on origins. -/
lemma Node.offends_strip (arguments : List Node) (template : Node) (word : String) :
    template.strip.Offends names (arguments.map strip) word ↔
      template.Offends names arguments word := by
  simp only [Offends, names_strip, MacroDefinition.given_map, Option.map_eq_some_iff]
  refine and_congr_right fun _ => ⟨?_, ?_⟩
  · rintro ⟨_, ⟨value, given, rfl⟩, nameable⟩
    exact ⟨value, given, (isNameable_strip value).symm.trans nameable⟩
  · rintro ⟨value, given, nameable⟩
    exact ⟨_, ⟨value, given, rfl⟩, (isNameable_strip value).trans nameable⟩

/-! ## The call -/

namespace Parser

variable {s : ParserState} {template : Node} {deferred : List DeferredInvocation}

/-- Making nodes changes neither the macros in force nor, outside of templates, where one is. -/
lemma Sole.made {α : Type} {step : Parser α} {value : α} {t : ParserState}
    (sole : Sole m names template deferred s) (nodewise : Nodewise step)
    (made : step s = .ok value t) (still : Still (· ≠ m) false t) :
    Sole m names template deferred t := by
  obtain ⟨scope, depth⟩ := still.outside rfl
  obtain ⟨change, rfl, -⟩ := nodewise.exists_change made
  exact ⟨sole.macros, depth, still.recovering, scope⟩

/-- **What a call of the only macro comes to**: the node that is made of it, and the reports. -/
def CallResult (m : String) (names : List String) (tree : Node) (trees : List Node) (offset : Nat)
    (node : Node) (reports : List Report) : Prop :=
  ((∀ word, ¬ tree.Offends names trees word) ∧ reports = [] ∧
      node.strip = tree.substitute (MacroDefinition.given names trees)) ∨
    ∃ word shape, tree.Offends names trees word ∧ node.strip = .plain placeholder ∧
      reports = [Report.errorAt offset (.mismatchedArgument word ⟨m, .list⟩
        (ShapeSet.any.inter (.only .primitive)) shape)]

/-- Outside of templates nothing is a reference. -/
lemma reference_outside (outside : s.scope = none) (head : Head) :
    head.reference s = .ok none s := by
  have index (word : String) : parameterIndex? word s = .ok none s := by
    rw [parameterIndex?, bind_get, outside]
    rfl
  rw [Head.reference]
  cases head.name with
  | none => rfl
  | some name =>
    dsimp only
    split
    · exact index _
    · rfl

/-- Outside of templates no invocation waits. -/
lemma expand_outside (outside : s.scope = none) (node : Node) (kind : MacroKind) :
    expand node kind s = invoke node kind s := by
  rw [expand, bind_get, outside]

/-- The nodes of a call are made, and then the macro is used. -/
theorem make_call {elements : List Phrase} (name opener : Token) (stop : Nat)
    (sole : Sole m names template deferred s) (named : IsWord m.toList) (distinct : names.Nodup)
    (content : name.content = m)
    (plain : Phrase.PlainElements (· ≠ m) (· ∈ (startingLexis options).operators.definitions) elements)
    (silent : Phrase.complaintsElements options elements = [])
    (bound : (Phrase.treeElements options elements).length = names.length)
    (told : template.All (Node.Tells (· ≠ m)))
    (arguing : ∀ tree ∈ Phrase.treeElements options elements, tree.All (Node.Tells (· ≠ m))) :
    ∃ (node : Node) (t : ParserState) (reports : List Report),
      (Phrase.list ⟨some name, opener, true⟩ false elements stop).make options s = .ok node t ∧
      t.reports = s.reports ++ reports ∧
      CallResult m names template.strip (Phrase.treeElements options elements) name.start node
        reports := by
  have unnamed : "" ≠ m := fun same => named.nonempty (by rw [← same]; rfl)
  have unlike : ∀ name ∈ Phrase.namesElements options elements, name ≠ m :=
    Phrase.namesElements_of_plain unnamed (fun _ other => other)
      (fun _ inForce => heeds_of_starting named inForce) elements plain
  obtain ⟨values, t, made, trees, still, same⟩ := gives_makeElements_of_still options elements
    (fun name offered => unlike name (Phrase.offeredElements_subset_names options elements offered))
    sole.still
  have sole' : Sole m names template deferred { t with lastId := t.lastId + 1 } := by
    obtain ⟨macros, depth, recovering, scope⟩ := sole.made (nodewise_makeElements options elements)
      made still
    exact ⟨macros, depth, recovering, scope⟩
  rw [silent] at same
  rw [← trees] at bound arguing ⊢
  have nonempty : m.isEmpty = false := by
    simpa [String.isEmpty_iff] using unnamed.symm
  have complete : completeGroup options (some name) name.start true none (.values values false stop) t
      = invoke (.list m values false ⟨t.lastId + 1, ⟨name.start, stop⟩⟩) .list
        { t with lastId := t.lastId + 1 } := by
    simp only [completeGroup, Option.map_some, Option.getD_some, content, nonempty, Bool.false_and]
    rw [bind_ok (show freshId t = .ok (t.lastId + 1) { t with lastId := t.lastId + 1 } from rfl)]
    exact expand_outside sole'.scope _ _
  have step : (Phrase.list ⟨some name, opener, true⟩ false elements stop).make options s
      = invoke (.list m values false ⟨t.lastId + 1, ⟨name.start, stop⟩⟩) .list
        { t with lastId := t.lastId + 1 } := by
    rw [Phrase.make, bind_ok (reference_outside sole.scope _), bind_ok made]
    exact complete
  rw [step]
  rcases invoke_ofList sole' distinct (by simpa using bound) told
    (fun value member => (Node.all_strip Node.tells_strip).mp (arguing _ (List.mem_map_of_mem member)))
    with ⟨fine, node, u, used, stripped, reports⟩ | ⟨word, value, offends, node, u, used, stripped, reports⟩
  · refine ⟨node, u, [], used, reports.trans same, .inl ⟨fun word offends => fine word ?_, rfl, ?_⟩⟩
    · exact (Node.offends_strip values template word).mp offends
    · rw [stripped, Node.strip_substitute]
      exact congrArg (Node.substitute · _)
        (funext fun word => (MacroDefinition.given_map Node.strip values word).symm)
  · refine ⟨node, u, _, used, ?_, .inr ⟨word, Shape.of value,
      (Node.offends_strip values template word).mpr offends, stripped, rfl⟩⟩
    have before : t.reports = s.reports := same.trans Array.appendList_nil
    rw [reports, before]
    exact Array.ext' (by simp)

/-! ## The source -/

/-- The characters of a call. -/
def callChars (m : String) (arguments : List String) : List Char :=
  m.toList ++ '[' :: ((String.intercalate ", " arguments).toList ++ [']'])

/-- A name with a group behind it begins no definition statement. -/
lemma statementAt?_of_headAt? {lexis : Lexis} {p after : Place} {name opener : Token}
    (head : lexis.headAt? .word p = some (some name, opener, after)) :
    lexis.statementAt? p = none := by
  simp only [Lexis.headAt?] at head
  split_ifs at head with opens text attached
  · cases head
  simp only [Lexis.statementAt?]
  split
  · rfl
  · rw [if_pos]
    simp only [Bool.and_eq_true, decide_eq_true_eq] at attached
    simp [attached]

/-- A word with a bracket behind it is the head of a list. -/
lemma headAt?_call (lexis : Lexis) {p : Place} {behind : List Char} (named : IsWord m.toList)
    (hp : p.rest = m.toList ++ '[' :: behind) :
    ∃ opener after, lexis.headAt? .word p = some (some
          ⟨.literal, m, p.offset, p.offset + m.toList.length⟩, opener, after) ∧
      opener.kind = .lBracket ∧ after.rest = behind ∧ after.previous = some '[' ∧
      (lexis.read true .word p).reports = [] ∧ (lexis.behindName .word p).reports = [] := by
  have stops : Stops .word ('[' :: behind) := .inl (by decide)
  have first : lexis.read true .word p = _ := named.read true (by decide) stops hp
  have bracket : (p.skip m.toList.length).rest = '[' :: behind := Place.rest_skip_of_append hp
  have opens : lexis.read false .word (p.skip m.toList.length) = _ :=
    lex_delimiter bracket (show delimiter? .word '[' = some .lBracket by decide)
      fun same => by cases same
  have second : lexis.behindName .word p = lexis.read false .word (p.skip m.toList.length) := by
    rw [Lexis.behindName, first]
  refine ⟨⟨.lBracket, "", p.offset + m.toList.length, p.offset + m.toList.length + 1⟩,
    (p.skip m.toList.length).next, ?_, rfl, Place.rest_next_of_cons bracket, Place.previous_next_of_cons bracket, ?_⟩
  · simp only [Lexis.headAt?, first, second, opens, TokenKind.isOpener, TokenKind.isText,
      Place.offset_skip_of_append hp]
    simp
  · rw [first, second, opens]
    exact ⟨rfl, rfl⟩

variable (resolver) in
/-- **The call**, where the macro is the only one. -/
theorem runs_call {p : Place} {tree : Node} {arguments : List String}
    (sole : Sole m names template deferred s) (governs : (startingLexis options).Governs s)
    (rests : s.suppressed = false) (named : IsWord m.toList) (distinct : names.Nodup)
    (bound : arguments.length = names.length) (said : template.strip = tree)
    (told : tree.All (Node.Tells (· ≠ m))) (fits : ∀ text ∈ arguments, Fits options m text)
    (hp : p.rest = callChars m arguments) :
    ((startingLexis options).read true .word p).reports = [] ∧
      opensStatement ((startingLexis options).read true .word p).token.kind = true ∧
      ∃ node t q, ∃ reports : List Report, q.rest = [] ∧ (startingLexis options).Governs t ∧
        t.reports = s.reports ++ reports ∧
        CallResult m names tree (arguments.map (treeOf options)) p.offset node reports ∧
        Runs (parseStatement options resolver ((startingLexis options).read true .word p).token)
          (s.moveTo p) (some node) (t.moveTo q) := by
  obtain ⟨opener, after, head, kind, ahead, bracket, first, second⟩ :=
    headAt?_call (startingLexis options) named hp
  obtain ⟨elements, stop, q, content, left, plain, trees, silent⟩ :=
    exists_elements fits (fun _ => rfl) ahead fun _ => by rw [bracket]; rfl
  have atom : (startingLexis options).Atom .value true p _ q :=
    .list head ⟨first, fun _ => second⟩ kind content
  obtain ⟨node, t, reports, made, same, result⟩ := make_call
    ⟨.literal, m, p.offset, p.offset + m.toList.length⟩ opener stop sole named distinct rfl plain
    silent (by rw [trees, List.length_map, bound])
    ((Node.all_strip Node.tells_strip).mp (said ▸ told)) (by
      rw [trees]
      exact List.forall_mem_map.mpr fun text member => (fits text member).tells named)
  rw [said, trees] at result
  exact ⟨first, atom.opensStatement, node, t, q, reports, left,
    governs.made (nodewise_make options _) made, same, result,
    runs_parseStatement_atom (fun _ silent => silent) governs rests (statementAt?_of_headAt? head) atom
      made⟩

end Parser

/-- **A source that defines a macro and calls it on the next line.** -/
def callSource (m : String) (names : List String) (template : String) (arguments : List String) :
    String :=
  "macro " ++ m ++ "[" ++ String.intercalate ", " names ++ "]: " ++ template ++ "\n" ++
    m ++ "[" ++ String.intercalate ", " arguments ++ "]"

lemma toList_callSource (m : String) (names : List String) (template : String)
    (arguments : List String) : (callSource m names template arguments).toList
      = statementHead m names ++ (template.toList ++ '\n' :: callChars m arguments) := by
  have word : "macro ".toList = "macro".toList ++ [' '] := by decide +kernel
  delta callSource
  simp [statementHead, callChars, word]

variable (resolver) in
/-- The definition and the call, one after the other. -/
theorem runs_callSource {template : String} {arguments : List String} {source : Source}
    (imports : ImportState) (named : IsWord m.toList) (words : ∀ name ∈ names, IsWord name.toList)
    (distinct : names.Nodup) (bound : arguments.length = names.length)
    (body : Fits options m template) (fits : ∀ text ∈ arguments, Fits options m text)
    (text : source.text = callSource m names template arguments) :
    ∃ node t offset, ∃ reports : List Report, t.reports.toList = reports ∧
      CallResult m names (treeOf options template) (arguments.map (treeOf options)) offset node
        reports ∧
      Runs (parseAll options resolver (source.length + 1) []) (initial options source imports) [node]
        t := by
  set s := initial options source imports with hs
  have governs : (startingLexis options).Governs s := governs_initial
  have silent : (startingLexis options).Silent := fun _ h => h
  have hp : (Place.start source.chars).rest = _ := (congrArg String.toList text).trans
    (toList_callSource m names template arguments)
  -- The definition, up to the line break behind the template.
  have line : Behind (startingLexis options).operators ('\n' :: callChars m arguments) :=
    behind_cons (.inl rfl) _
  have offered : ∀ start : Place, start.rest = template.toList ++ '\n' :: callChars m arguments →
      start.previous = some ' ' → ∃ phrase q,
        Offers (startingLexis options) options (· ≠ m) (Foreign names) start phrase q ∧
          phrase.tree options = treeOf options template ∧ q.rest = '\n' :: callChars m arguments := by
    intro start ahead blank
    obtain ⟨phrase, q, offers, tree, behind, -⟩ :=
      body.exists_offers line ahead (by rw [blank]; rfl)
    exact ⟨phrase, q, offers.mono (fun _ other => other) fun _ => foreign_of_starting words, tree,
      behind⟩
  obtain ⟨definition, id, deferred, q, said, behind, defines⟩ := runs_macroStatement silent
    (fun _ h => h) governs quiet_initial rfl rfl rfl rfl named words distinct hp offered
  obtain ⟨found, head, opens⟩ := statementAt?_macro (startingLexis options) named hp
  have first := runs_parseStatement_definition resolver governs head found defines
  set s₁ := ParserState.registered { s with lastId := id } (.ofList m names definition deferred)
  have governs₁ : (startingLexis options).Governs s₁ :=
    ⟨governs.operators, governs.policy, governs.reports⟩
  -- The line break, and behind it the call.
  have newline : (startingLexis options).read false .word q = _ :=
    lex_delimiter behind (show delimiter? .word '\n' = some .lineBreak by decide) fun _ => rfl
  have ended : Runs endStatement (s₁.moveTo q) () (s₁.moveTo _) :=
    runs_endStatement_separator governs₁ (by rw [newline]; exact .inl rfl) (by rw [newline])
  rw [newline] at ended
  have sole : Sole m names definition deferred s₁ := ⟨⟨_, rfl, rfl⟩, rfl, rfl, rfl⟩
  obtain ⟨met, opens', node, t, last, reports, left, governs', same, result, second⟩ :=
    runs_call resolver sole governs₁ rfl named distinct bound said (body.tells named)
      fits (Place.rest_next_of_cons behind)
  -- The end of the source.
  have ends : (startingLexis options).read false .word last = _ := lex_end left
  have final : (startingLexis options).read true .word last = _ := lex_end left
  obtain ⟨fuel, hfuel⟩ : ∃ fuel, source.length = fuel + 2 := by
    have length : source.length = (callSource m names template arguments).toList.length :=
      congrArg (·.toList.length) text
    rw [toList_callSource, statementHead] at length
    exact ⟨source.length - 2, by simp at length; omega⟩
  refine ⟨node, t.moveTo last, q.next.offset, reports, ?_, result, ?_⟩
  · rw [show (t.moveTo last).reports = t.reports from rfl, same]
    simp [s₁, ParserState.registered, hs, initial]
  · rw [hfuel]
    refine runs_parseAll_round governs head.1 opens first ended
      (runs_parseAll_round governs₁ met opens' second ?_
        (runs_parseAll_end governs' (by rw [final]) (by rw [final])))
    exact runs_endStatement_end governs' (by rw [ends]) (by rw [ends])

variable {source : String} {imports : ImportState} {template : String} {arguments : List String}

/-- **A call means substitution.**  A source defines a macro with plain parameters and calls it on
the next line; the template and the arguments are values that can be read by themselves.  If no
parameter that is the name of a node in the template is given anything but a text, the source
compiles without a report to one value: the tree of the template, in which the trees of the
arguments are substituted for the parameters, all at once.  Otherwise a placeholder is left, and one
error, which names such a parameter. -/
theorem compile_callSource (options : CompileOptions) (resolver : Resolver) (source : String)
    (imports : ImportState) (named : IsWord m.toList) (words : ∀ name ∈ names, IsWord name.toList)
    (distinct : names.Nodup) (bound : arguments.length = names.length)
    (body : Fits options m template) (fits : ∀ text ∈ arguments, Fits options m text) :
    let compilation :=
      (compile options resolver ⟨source, callSource m names template arguments⟩ imports).1
    let tree := treeOf options template
    let trees := arguments.map (treeOf options)
    ((∀ word, ¬ tree.Offends names trees word) →
      compilation.reports = [] ∧ ∃ node, compilation.values = [node] ∧
        node.strip = tree.substitute (MacroDefinition.given names trees)) ∧
    ((∃ word, tree.Offends names trees word) →
      ∃ node word shape offset, compilation.values = [node] ∧ node.strip = .plain placeholder ∧
        tree.Offends names trees word ∧
        compilation.reports = [Report.errorAt offset (.mismatchedArgument word ⟨m, .list⟩
          (ShapeSet.any.inter (.only .primitive)) shape)]) := by
  intro compilation tree trees
  obtain ⟨node, t, offset, reports, reported, result, runs⟩ := runs_callSource resolver imports
    named words distinct bound body fits
    (rfl : (Source.mk source (callSource m names template arguments)).text = _)
  obtain ⟨values, final⟩ := compile_of_runs runs
  rw [reported] at final
  rcases result with ⟨fine, rfl, substituted⟩ | ⟨word, shape, offends, stands, rfl⟩
  · exact ⟨fun _ => ⟨final, node, values, substituted⟩, fun ⟨word, offends⟩ => absurd offends (fine word)⟩
  · exact ⟨fun fine => absurd offends (fine word),
      fun _ => ⟨node, word, shape, offset, values, stands, offends, final⟩⟩

/-- For instance, one parameter is a text and the name of a group, and another one is given a list. -/
theorem compile_callSource_of_list :
    let compilation := (compile {} (tableResolver []) ⟨"main",
      callSource "f" ["x", "y"] "[x, x\x7bk: y\x7d]" ["a", "[b, c]"]⟩ {}).1
    compilation.reports = [] ∧ ∃ node, compilation.values = [node] ∧
      node.strip.text = "[a, a\x7bk: [b, c]\x7d]" := by
  have fits : ∀ text ∈ ["[x, x\x7bk: y\x7d]", "a", "[b, c]"], Fits {} "f" text := by
    simp only [List.forall_mem_cons]
    exact ⟨⟨by decide +kernel, by decide +kernel, by decide +kernel⟩,
      ⟨by decide +kernel, by decide +kernel, by decide +kernel⟩,
      ⟨by decide +kernel, by decide +kernel, by decide +kernel⟩, nofun⟩
  obtain ⟨body, fits⟩ := List.forall_mem_cons.mp fits
  have words : ∀ name ∈ ["x", "y"], IsWord name.toList := by
    simp only [List.forall_mem_cons]
    exact ⟨by decide +kernel, by decide +kernel, nofun⟩
  have named : IsWord "f".toList := by decide +kernel
  have bound : ["a", "[b, c]"].length = ["x", "y"].length := rfl
  have fine : ∀ word, ¬ (treeOf {} "[x, x\x7bk: y\x7d]").Offends ["x", "y"]
      (["a", "[b, c]"].map (treeOf {})) word := by
    have none : ∀ word ∈ ["x", "y"], ¬ (treeOf {} "[x, x\x7bk: y\x7d]").Offends ["x", "y"]
        (["a", "[b, c]"].map (treeOf {})) word := by decide +kernel
    exact fun word offends => none word offends.mem offends
  obtain ⟨reports, node, values, tree⟩ := (compile_callSource {} (tableResolver []) "main" {}
    named words (by decide +kernel) bound body fits).1 fine
  have text : ((treeOf {} "[x, x\x7bk: y\x7d]").substitute (MacroDefinition.given ["x", "y"]
      (["a", "[b, c]"].map (treeOf {})))).text = "[a, a\x7bk: [b, c]\x7d]" := by decide +kernel
  exact ⟨reports, node, values, tree ▸ text⟩

/-- A definition that stands beside a value in the text of an argument is no part of a list, though
the text alone is a source of one value. -/
theorem report_of_argument_with_definition :
    let argument := "v, macro a: b"
    let alone := (compileAlone {} ⟨"", argument⟩ {}).1
    let body := (compileAlone {} ⟨"", "p"⟩ {}).1
    Calm argument.toList ∧ ¬ "k".toList <:+: argument.toList ∧
      alone.reports = [] ∧ alone.values.length = 1 ∧ body.reports = [] ∧ body.values.length = 1 ∧
      ¬ (treeOf {} "p").Names "p" ∧
      (compileAlone {} ⟨"", callSource "k" ["p"] "p" [argument]⟩ {}).1.reports ≠ [] := by
  refine ⟨?_, ?_, ?_, ?_, ?_, ?_, ?_, ?_⟩ <;> decide +kernel

end TreeLang
