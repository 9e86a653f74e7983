import TreeLang.Node.Equality
import TreeLang.Node.Path
import TreeLang.Proofs.Denotation
import TreeLang.Proofs.Numbers
import TreeLang.Proofs.Operators
import TreeLang.Proofs.Sources
import TreeLang.Proofs.Spelling

/-!
# Printed trees are read back

The text of a tree is well formed, whatever the strings in it are, and the tree of its phrase is the
tree that was printed.  There are two things that a text cannot say: an object that repeats a key,
and, where single elements are taken out of their parentheses, an unnamed operation of one element.

* `Node.All`, `Node.DistinctKeys`, `Node.Uncollapsed` — trees without these two things.
* `Node.collapsed` — what is left of a tree where elements are taken out of their parentheses.
* `Lexis.Leads` — what stands behind a separator is the next element.
* **`Lexis.reads_printAt`** — a printed tree is read as a phrase of what is left of it.
* `Node.same_of_strip_eq` — trees with the same texts are equal.
-/

namespace TreeLang

/-! ## Trees that a text can say -/

namespace Node

mutual

/-- **A property of all nodes of a tree.** -/
def All (property : Node → Prop) : Node → Prop
  | .primitive value origin => property (.primitive value origin)
  | .object name properties origin =>
    property (.object name properties origin) ∧ AllProperties property properties
  | .list name values operation origin =>
    property (.list name values operation origin) ∧ AllValues property values

/-- `All` at every property. -/
def AllProperties (property : Node → Prop) : List (String × Node) → Prop
  | [] => True
  | (_, value) :: rest => value.All property ∧ AllProperties property rest

/-- `All` at every value. -/
def AllValues (property : Node → Prop) : List Node → Prop
  | [] => True
  | value :: rest => value.All property ∧ AllValues property rest

end

/-- The keys of an object are pairwise distinct. -/
def DistinctKeys (node : Node) : Prop :=
  ∀ properties, node.properties? = some properties → (properties.map Prod.fst).Nodup

/-- The node is no unnamed operation of one element. -/
def Uncollapsed (node : Node) : Prop :=
  ¬ (node.isOperation = true ∧ node.name? = some "" ∧ ∃ only, node.values? = some [only])

variable (options : CompileOptions)

mutual

/-- **What a text can say of a tree**: where single elements are taken out of their parentheses, an
unnamed operation of one element gives way to that element. -/
def collapsed : Node → Node
  | .primitive value _ => .plain value
  | .object name properties _ => .objectOf name (collapsedProperties properties)
  | .list name values operation _ => groupTree options name operation (collapsedValues values)

/-- `collapsed` at every property. -/
def collapsedProperties : List (String × Node) → List (String × Node)
  | [] => []
  | (key, value) :: rest => (key, value.collapsed) :: collapsedProperties rest

/-- `collapsed` at every value. -/
def collapsedValues : List Node → List Node
  | [] => []
  | value :: rest => value.collapsed :: collapsedValues rest

end

end Node

/-- Only operations are taken out of their parentheses. -/
lemma groupTree_list {options : CompileOptions} {name : String} {values : List Node} :
    groupTree options name false values = .listOf name values false := by
  cases collapses : name.isEmpty && options.collapseUnaryOperation <;> simp [groupTree, collapses]

/-- An operation that is not taken out of its parentheses is a node of its own. -/
lemma groupTree_of_uncollapsed {options : CompileOptions} {name : String} {values : List Node}
    {origin : Origin} (uncollapsed : options.collapseUnaryOperation = true →
      (Node.list name values true origin).Uncollapsed) :
    groupTree options name true (Node.stripValues values)
      = (Node.list name values true origin).strip := by
  unfold groupTree
  split
  · rename_i only collapses _ single
    rw [Bool.and_eq_true, String.isEmpty_iff] at collapses
    obtain ⟨rfl, collapses⟩ := collapses
    cases values with
    | nil => cases single
    | cons value rest =>
      cases rest with
      | nil => exact absurd ⟨rfl, rfl, value, rfl⟩ (uncollapsed collapses)
      | cons => cases single
  · rfl

namespace Node

variable {options : CompileOptions}

mutual

/-- **Of a tree with nothing to take out of its parentheses everything is left.** -/
theorem collapsed_eq_strip :
    (node : Node) → (options.collapseUnaryOperation = true → node.All Uncollapsed) →
      node.collapsed options = node.strip
  | .primitive _ _, _ => rfl
  | .object name properties origin, uncollapsed => by
    rw [collapsed, collapsedProperties_eq_strip properties fun collapses => (uncollapsed collapses).2]
    rfl
  | .list name values false origin, uncollapsed => by
    rw [collapsed, groupTree_list,
      collapsedValues_eq_strip values fun collapses => (uncollapsed collapses).2]
    rfl
  | .list name values true origin, uncollapsed => by
    rw [collapsed, collapsedValues_eq_strip values fun collapses => (uncollapsed collapses).2]
    exact groupTree_of_uncollapsed fun collapses => (uncollapsed collapses).1

theorem collapsedProperties_eq_strip :
    (properties : List (String × Node)) →
      (options.collapseUnaryOperation = true → AllProperties Uncollapsed properties) →
        collapsedProperties options properties = stripProperties properties
  | [], _ => rfl
  | (key, value) :: rest, uncollapsed => by
    rw [collapsedProperties, collapsed_eq_strip value fun collapses => (uncollapsed collapses).1,
      collapsedProperties_eq_strip rest fun collapses => (uncollapsed collapses).2]
    rfl

theorem collapsedValues_eq_strip :
    (values : List Node) →
      (options.collapseUnaryOperation = true → AllValues Uncollapsed values) →
        collapsedValues options values = stripValues values
  | [], _ => rfl
  | value :: rest, uncollapsed => by
    rw [collapsedValues, collapsed_eq_strip value fun collapses => (uncollapsed collapses).1,
      collapsedValues_eq_strip rest fun collapses => (uncollapsed collapses).2]
    rfl

end

end Node

/-! ## From one element to the next -/

namespace Lexis

variable {lexis : Lexis} {p q : Place} {tail : List Char}

/-- **Between two places there is nothing to read.** -/
def Leads (lexis : Lexis) (p q : Place) : Prop :=
  ∀ mode, lexis.read true mode p = lexis.read true mode q

lemma leads_blank (hp : p.rest = ' ' :: tail) : lexis.Leads p p.next := by
  have blank : ∀ c ∈ [' '], Text.isBlank c = true ∧ c ≠ '\n' :=
    List.forall_mem_singleton.mpr (by decide)
  intro mode
  exact lex_blanks (show p.rest = [' '] ++ tail from hp) blank

lemma headAt?_of_leads (leads : lexis.Leads p q) (mode : Mode) :
    lexis.headAt? mode p = lexis.headAt? mode q := by
  unfold headAt? behindName
  rw [leads mode]

lemma meetsHead_of_leads (leads : lexis.Leads p q) {mode : Mode} (meets : lexis.MeetsHead mode q) :
    lexis.MeetsHead mode p := by
  simp only [MeetsHead, behindName, leads mode]
  exact meets

/-- Behind the first of some printed elements there is a separator and the others, or the closer. -/
lemma separated_of_intercalate (admits : ∀ lexeme : Lexeme, lexeme.reports = [] → lexis.admits lexeme)
    {mode : Mode} {closer : TokenKind} {c : Char} (closes : delimiter? mode c = some closer)
    (bracket : c = ']' ∨ c = '}' ∨ c = ')') (text : String) (others : List String)
    (tail : List Char) :
    ∃ behind : List Char,
      (String.intercalate ", " (text :: others)).toList ++ c :: tail = text.toList ++ behind ∧
        EndsElement behind ∧ (∃ d rest, behind = d :: rest ∧ (d = ',' ∨ d = c)) ∧
        ∀ q : Place, q.rest = behind → ∃ after next, lexis.Separated mode closer q after ∧
          lexis.Leads after next ∧
          next.rest = (String.intercalate ", " others).toList ++ c :: tail ∧
          (others ≠ [] → next.previous = some ' ') := by
  have newline : c ≠ '\n' := by
    rcases bracket with rfl | rfl | rfl <;> decide
  cases others with
  | nil =>
    refine ⟨c :: tail, by rw [String.intercalate_singleton], .inr bracket, ⟨c, tail, rfl, .inr rfl⟩,
      fun q hq => ?_⟩
    have lexed : lexis.read false mode q = _ := lex_delimiter hq closes fun h => absurd h newline
    refine ⟨q, q, ⟨by rw [lexed]; exact admits _ rfl, .inr ⟨by rw [lexed], rfl⟩⟩, fun _ => rfl, ?_,
      fun more => absurd rfl more⟩
    rw [hq, String.intercalate_nil]
    rfl
  | cons other others =>
    refine ⟨',' :: ' ' :: ((String.intercalate ", " (other :: others)).toList ++ c :: tail), ?_,
      .inl rfl, ⟨',', _, rfl, .inl rfl⟩, fun q hq => ?_⟩
    · rw [String.intercalate_cons_cons]
      simp
    · have comma : delimiter? mode ',' = some .comma := by simp [delimiter?]
      have lexed : lexis.read false mode q = _ := lex_delimiter hq comma fun h => absurd h (by decide)
      have hnext := Place.rest_next_of_cons hq
      refine ⟨q.next, q.next.next, ⟨by rw [lexed]; exact admits _ rfl, .inl ⟨.inl ?_, ?_⟩⟩,
        leads_blank hnext, Place.rest_next_of_cons hnext,
        fun _ => Place.previous_next_of_cons hnext⟩
      · rw [lexed]
      · rw [lexed]

/-! ## Expressions of a single operand -/

/-- An operand is an expression of any groups, where no operator stands in front of it or behind. -/
lemma Atom.level {phrase : Phrase}
    (atom : Atom lexis .operation true p phrase q)
    (met : lexis.admits (lexis.read true .operation p))
    (begins : (lexis.read true .operation p).token.kind.isOpener = true ∨
      (lexis.read true .operation p).token.kind.isText = true)
    (admits : ∀ lexeme : Lexeme, lexeme.reports = [] → lexis.admits lexeme)
    (ends : EndsElement q.rest) (groups : List PriorityGroup) :
    Level lexis groups true p phrase q := by
  obtain ⟨reports, -, -, symbol, word⟩ := lexis.read_ends false .operation (by decide) ends
  have front : ∀ group, lexis.operatorAt? group true p = none := by
    intro group
    rw [operatorAt?, if_neg]
    rcases begins with begins | begins <;>
      cases hkind : (lexis.read true .operation p).token.kind <;>
      simp_all [TokenKind.isOpener, TokenKind.isText]
  have behind : ∀ group, lexis.operatorAt? group false q = none := by
    intro group
    rw [operatorAt?, if_neg (by simp [symbol, word])]
  induction groups with
  | nil => exact .operand atom
  | cons group groups ih =>
    cases fixity : group.fixity with
    | binary => exact .binary fixity ih (.done (behind group) (admits _ reports))
    | postfixed => exact .postfixed fixity ih (.done (behind group) (admits _ reports))
    | prefixed => exact .unprefixed fixity (front group) met ih

/-! ## Trees -/

/-- **A printed tree is read**: what stands at a place is a phrase of what a text can say of the tree,
up to `tail`. -/
structure Reads (lexis : Lexis) (options : CompileOptions) (position : Position) (p : Place)
    (tail : List Char) (node : Node) (phrase : Phrase) (q : Place) : Prop where
  atom : Atom lexis position.readMode true p phrase q
  rest : q.rest = tail
  tree : phrase.tree options = node.collapsed options
  complaints : phrase.complaints options = []
  met : lexis.admits (lexis.read true position.readMode p)
  begins : (lexis.read true position.readMode p).token.kind.isOpener = true ∨
    (lexis.read true position.readMode p).token.kind.isText = true

/-- A property whose key is new is added at the end, without a complaint. -/
lemma insertNew_of_new (options : CompileOptions) {known : List (String × Node)} {key : Token}
    (new : key.content ∉ known.map Prod.fst) (value : Node) :
    Node.insertNew known key.content value = known ++ [(key.content, value)] ∧
      repeatedKey options key known = [] := by
  have absent : Node.hasKey known key.content = false := by
    rw [Node.hasKey, Node.lookup, Option.isSome_map, Option.isSome_eq_false_iff,
      Option.isNone_iff_eq_none, List.find?_eq_none]
    intro property member same
    exact new (List.mem_map.mpr ⟨property, member, by simpa using same⟩)
  exact ⟨by rw [Node.insertNew, if_neg (by simp [absent])],
    by rw [repeatedKey, if_neg (by simp [absent])]⟩

/-- **Nothing is demanded of tokens but that they give no cause for a report**, and no operator looks
like a bare operand. -/
structure Plain (lexis : Lexis) : Prop where
  admits : ∀ lexeme : Lexeme, lexeme.reports = [] → lexis.admits lexeme
  symbolic : lexis.operators.Symbolic

variable (plain : lexis.Plain) (options : CompileOptions)

include plain

/-- A printed primitive is read. -/
lemma reads_primitive {position : Position} (inside : position = .value ∨ position = .operand)
    {value : String} {origin : Origin} (leads : lexis.Leads p q)
    (hq : q.rest = (printText position value).toList ++ tail) (ends : EndsElement tail) :
    ∃ phrase after,
      lexis.Reads options position p tail (.primitive value origin) phrase after := by
  have bracket : position.readMode ≠ .key := by
    rcases inside with rfl | rfl <;> decide
  obtain ⟨kind, isText, lexed⟩ :=
    lexis.read_printText plain.symbolic true hq (stops_of_endsElement ends bracket)
  have after := Place.rest_skip_of_append hq
  rw [String.length_toList] at after
  obtain ⟨head, meets⟩ : lexis.headAt? position.readMode.ofNames q = none ∧
      lexis.MeetsHead position.readMode.ofNames q := by
    rcases inside with rfl | rfl
    · exact headAt?_value plain.admits hq ends
    · exact headAt?_operand plain.admits plain.symbolic hq ends
  have text : (lexis.read true position.readMode p).token.kind.isText = true := by
    rw [leads, lexed]
    exact isText
  have met : lexis.admits (lexis.read true position.readMode p) := by
    rw [leads, lexed]
    exact plain.admits _ rfl
  refine ⟨_, _, .word (by rw [headAt?_of_leads leads, head]) (meetsHead_of_leads leads meets) text
    met, ?_, ?_, rfl, met, .inr text⟩
  · rw [leads, lexed]
    exact after
  · rw [Phrase.tree, leads, lexed]
    rfl

/-- The head of a printed group is read. -/
lemma reads_head {position : Position} (inside : position = .value ∨ position = .operand)
    {name : String} {c : Char} (kind : TokenKind) (opens : kind.isOpener = true)
    (bracket : ∀ mode ≠ Mode.key, delimiter? mode c = some kind) (leads : lexis.Leads p q)
    (hq : q.rest = (printName position name).toList ++ c :: tail) :
    ∃ token opener after,
      lexis.headAt? position.readMode.ofNames p = some (token, opener, after) ∧
      lexis.MeetsHead position.readMode.ofNames p ∧ opener.kind = kind ∧ after.rest = tail ∧
      (Head.mk token opener true).text = name ∧
      lexis.admits (lexis.read true position.readMode p) := by
  obtain ⟨token, opener, after, head, meets, hkind, rest, text, met⟩ :=
    headAt?_name plain.admits plain.symbolic inside opens bracket hq
  exact ⟨token, opener, after, by rw [headAt?_of_leads leads, head],
    meetsHead_of_leads leads meets, hkind, rest, text, by rw [leads]; exact met⟩

/-- A printed key is read with the colon behind it. -/
lemma reads_key {key : String} (leads : lexis.Leads p q)
    (hq : q.rest = (printText .key key).toList ++ ':' :: tail) :
    (lexis.read true .key p).token.kind.isText = true ∧
      (lexis.read true .key p).token.content = key ∧ lexis.admits (lexis.read true .key p) ∧
      (lexis.behindKey p).token.kind = .colon ∧ lexis.admits (lexis.behindKey p) ∧
      (lexis.behindKey p).after.rest = tail := by
  have delimits : delimiter? .key ':' = some .colon := by decide
  obtain ⟨kind, isText, lexed⟩ := lexis.read_printText plain.symbolic true hq
    (show Stops Position.key.readMode _ from .inl (by decide))
  rw [show Position.key.readMode = Mode.key from rfl, ← leads .key] at lexed
  have behind := Place.rest_skip_of_append hq
  rw [String.length_toList] at behind
  have colon : lexis.read false .key (q.skip (printText .key key).length) = _ :=
    lex_delimiter behind delimits fun h => absurd h (by decide)
  rw [behindKey, lexed]
  refine ⟨isText, rfl, plain.admits _ rfl, ?_⟩
  rw [colon]
  exact ⟨rfl, plain.admits _ rfl, Place.rest_next_of_cons behind⟩

omit plain in
lemma readsAtoms {position : Position} (inside : position = .value ∨ position = .operand) :
    ReadsAtoms position.readMode := by
  rcases inside with rfl | rfl
  · exact .inl rfl
  · exact .inr rfl

mutual

/-- **A printed tree is read as a phrase of what a text can say of it.** -/
theorem reads_printAt {position : Position} (inside : position = .value ∨ position = .operand)
    {p q : Place} {tail : List Char} (leads : lexis.Leads p q) (ends : EndsElement tail) :
    (node : Node) → node.All Node.DistinctKeys → q.rest = (node.printAt position).toList ++ tail →
      ∃ phrase after, lexis.Reads options position p tail node phrase after
  | .primitive value origin, _, hq =>
    reads_primitive plain options inside leads (by rw [hq, Node.printAt]) ends
  | .object name properties origin, distinct, hq => by
    have hq : q.rest = (printName position name).toList ++ '\x7b' ::
        ((String.intercalate ", " (Node.printProperties properties)).toList ++ '\x7d' :: tail) := by
      rw [hq, Node.printAt]
      simp
    obtain ⟨token, opener, inner, head, meets, kind, rest, text, met⟩ :=
      reads_head plain inside .lBrace rfl (fun _ _ => by simp [delimiter?])
        leads hq
    obtain ⟨entries, stop, after, contents, rest, said⟩ :=
      reads_printProperties (fun _ => rfl) properties distinct.2 rest
    obtain ⟨tree, complaints⟩ := said [] (distinct.1 properties rfl)
    refine ⟨_, after, .object head meets kind contents, rest, ?_, complaints, met,
      begins_of_headAt? (readsAtoms inside) head⟩
    rw [Phrase.tree, text, tree]
    rfl
  | .list name values true origin, distinct, hq => by
    have hq : q.rest = (printName position name).toList ++ '(' ::
        ((String.intercalate ", " (Node.printValues .operand values)).toList ++ ')' :: tail) := by
      rw [hq, Node.printAt]
      simp
    obtain ⟨token, opener, inner, head, meets, kind, rest, text, met⟩ :=
      reads_head plain inside .lParen rfl
        (fun _ bracket => by simp [delimiter?, bracket]) leads hq
    obtain ⟨phrases, stop, after, contents, rest, tree, complaints⟩ :=
      reads_printValues (.inr rfl) (show delimiter? .operation ')' = some .rParen by decide)
        (.inr rfl) (fun _ => rfl) values distinct.2 rest
    refine ⟨_, after, .operation head meets kind contents, rest, ?_, complaints, met,
      begins_of_headAt? (readsAtoms inside) head⟩
    rw [Phrase.tree, text, tree]
    rfl
  | .list name values false origin, distinct, hq => by
    have hq : q.rest = (printName position name).toList ++ '[' ::
        ((String.intercalate ", " (Node.printValues .value values)).toList ++ ']' :: tail) := by
      rw [hq, Node.printAt]
      simp
    obtain ⟨token, opener, inner, head, meets, kind, rest, text, met⟩ :=
      reads_head plain inside .lBracket rfl
        (fun _ bracket => by simp [delimiter?, bracket]) leads hq
    obtain ⟨phrases, stop, after, contents, rest, tree, complaints⟩ :=
      reads_printValues (.inl rfl) (show delimiter? .value ']' = some .rBracket by decide)
        (.inl rfl) (fun _ => rfl) values distinct.2 rest
    refine ⟨_, after, .list head meets kind contents, rest, ?_, complaints, met,
      begins_of_headAt? (readsAtoms inside) head⟩
    rw [Phrase.tree, text, tree]
    rfl

/-- Printed properties are read as entries of those properties. -/
theorem reads_printProperties {p q : Place} {tail : List Char} (leads : lexis.Leads p q) :
    (properties : List (String × Node)) → Node.AllProperties Node.DistinctKeys properties →
      q.rest = (String.intercalate ", " (Node.printProperties properties)).toList ++ '}' :: tail →
      ∃ entries stop after, Entries lexis p entries stop after ∧ after.rest = tail ∧
        ∀ known : List (String × Node), (known.map Prod.fst ++ properties.map Prod.fst).Nodup →
          Phrase.treeEntries options entries known = known ++ Node.collapsedProperties options properties ∧
            Phrase.complaintsEntries options entries known = []
  | [], _, hq => by
    have hq : q.rest = '\x7d' :: tail := hq
    have lexed : lexis.read true .key q = _ := lex_delimiter hq (by simp [delimiter?]; rfl)
      fun h => absurd h (by decide)
    refine ⟨[], _, _, .done (by rw [leads, lexed]) (by rw [leads, lexed]; exact plain.admits _ rfl), ?_,
      fun known _ => ⟨by simp [Phrase.treeEntries, Node.collapsedProperties], rfl⟩⟩
    rw [leads, lexed]
    exact Place.rest_next_of_cons hq
  | (key, value) :: rest, distinct, hq => by
    obtain ⟨behind, split, ends, -, separated⟩ := separated_of_intercalate plain.admits
      (show delimiter? .key '\x7d' = some .rBrace by simp [delimiter?]) (.inr (.inl rfl))
      (printText .key key ++ ": " ++ Node.printAt .value value) (Node.printProperties rest) tail
    have hq : q.rest = (printText .key key).toList ++
        ':' :: ' ' :: ((Node.printAt .value value).toList ++ behind) := by
      rw [hq, Node.printProperties, split]
      simp
    obtain ⟨isText, content, met, colon, metColon, hblank⟩ := reads_key plain leads hq
    -- The value behind the blank, and the other properties.
    obtain ⟨phrase, after, reads⟩ := reads_printAt (.inl rfl) (leads_blank hblank) ends value
      distinct.1 (Place.rest_next_of_cons hblank)
    obtain ⟨next, begin, passed, onward, hbegin, -⟩ := separated after reads.rest
    obtain ⟨entries, stop, last, contents, hlast, said⟩ := reads_printProperties onward rest
      distinct.2 hbegin
    refine ⟨_, stop, last, .more isText met colon metColon reads.atom passed contents, hlast,
      fun known nodup => ?_⟩
    have new : (lexis.read true .key p).token.content ∉ known.map Prod.fst := by
      rw [content]
      intro member
      exact (List.nodup_append.mp nodup).2.2 _ member _ List.mem_cons_self rfl
    obtain ⟨inserted, silent⟩ := insertNew_of_new options new (value.collapsed options)
    rw [content] at inserted
    have nodup : ((known ++ [(key, value.collapsed options)]).map Prod.fst ++ rest.map Prod.fst).Nodup := by
      rw [List.map_append, List.append_assoc]
      exact nodup
    obtain ⟨tree, complaints⟩ := said _ nodup
    refine ⟨?_, ?_⟩
    · rw [Phrase.treeEntries, reads.tree, content, inserted, tree, List.append_assoc]
      rfl
    · rw [Phrase.complaintsEntries, reads.complaints, reads.tree, content, inserted, complaints,
        silent]
      rfl

/-- Printed values are read as elements of those values. -/
theorem reads_printValues {position : Position} {closer : TokenKind} {c : Char}
    (inside : position = .value ∨ position = .operand)
    (closes : delimiter? position.readMode c = some closer) (bracket : c = ']' ∨ c = ')')
    {p q : Place} {tail : List Char} (leads : lexis.Leads p q) :
    (values : List Node) → Node.AllValues Node.DistinctKeys values →
      q.rest = (String.intercalate ", " (Node.printValues position values)).toList ++ c :: tail →
      ∃ phrases stop after, Elements lexis position.readMode closer p phrases stop after ∧
        after.rest = tail ∧
        Phrase.treeElements options phrases = Node.collapsedValues options values ∧
        Phrase.complaintsElements options phrases = []
  | [], _, hq => by
    have hq : q.rest = c :: tail := hq
    have newline : c ≠ '\n' := by
      rcases bracket with rfl | rfl <;> decide
    have lexed : lexis.read true position.readMode q = _ := lex_delimiter hq closes
      fun h => absurd h newline
    refine ⟨[], _, _, .done (by rw [leads, lexed]) (by rw [leads, lexed]; exact plain.admits _ rfl), ?_,
      rfl, rfl⟩
    rw [leads, lexed]
    exact Place.rest_next_of_cons hq
  | value :: rest, distinct, hq => by
    obtain ⟨behind, split, ends, -, separated⟩ := separated_of_intercalate plain.admits closes
      (bracket.imp id .inr) (Node.printAt position value) (Node.printValues position rest) tail
    have hq : q.rest = (Node.printAt position value).toList ++ behind := by
      rw [hq, Node.printValues, split]
    obtain ⟨phrase, after, reads⟩ := reads_printAt inside leads ends value distinct.1 hq
    obtain ⟨next, begin, passed, onward, hbegin, -⟩ := separated after reads.rest
    obtain ⟨phrases, stop, last, contents, hlast, tree, complaints⟩ := reads_printValues inside
      closes bracket onward rest distinct.2 hbegin
    have element : Element lexis position.readMode p phrase after := by
      rcases inside with rfl | rfl
      · exact .value reads.atom
      · exact .expression (reads.atom.level reads.met reads.begins plain.admits
          (by rw [reads.rest]; exact ends) _)
    refine ⟨phrase :: phrases, stop, last, .more reads.met element passed contents, hlast, ?_, ?_⟩
    · rw [Phrase.treeElements, reads.tree, tree]
      rfl
    · rw [Phrase.complaintsElements, reads.complaints, complaints]
      rfl

end

end Lexis

/-! ## Equal trees

Equality does not look at origins, but it looks keys up, and so it sees only the first property of a
key.
-/

namespace Node

lemma allProperties_iff {property : Node → Prop} {properties : List (String × Node)} :
    AllProperties property properties ↔ ∀ entry ∈ properties, entry.2.All property := by
  induction properties with
  | nil => simp [AllProperties]
  | cons entry rest ih => simp [AllProperties, ih]

lemma allValues_iff {property : Node → Prop} {values : List Node} :
    AllValues property values ↔ ∀ value ∈ values, value.All property := by
  induction values with
  | nil => simp [AllValues]
  | cons value rest ih => simp [AllValues, ih]

/-- Among distinct keys every property is found. -/
lemma lookup_of_mem {properties : List (String × Node)} {key : String} {value : Node}
    (nodup : (properties.map Prod.fst).Nodup) (member : (key, value) ∈ properties) :
    lookup properties key = some value := by
  induction properties with
  | nil => cases member
  | cons property rest ih =>
    rw [List.map_cons, List.nodup_cons] at nodup
    rcases List.mem_cons.mp member with rfl | member
    · simp [lookup]
    · have other : property.1 ≠ key := fun same =>
        nodup.1 (List.mem_map.mpr ⟨(key, value), member, same.symm⟩)
      have found := ih nodup.2 member
      simpa [lookup, other] using found

/-- Objects are equal when each value of the one is what the other one holds under its key. -/
lemma same_object {name : String} {properties others : List (String × Node)}
    {origin otherOrigin : Origin} (length : properties.length = others.length)
    (found : ∀ key value, (key, value) ∈ properties →
      ∃ other, lookup others key = some other ∧ other.same value = true) :
    (object name properties origin).same (object name others otherOrigin) = true := by
  rw [same]
  simp only [decide_true, length, Bool.true_and, List.all_eq_true, List.mem_attach, forall_const,
    Subtype.forall]
  rintro ⟨key, value⟩ member
  obtain ⟨other, hlookup, equal⟩ := found key value member
  split
  · rename_i hfound
    rw [hlookup] at hfound
    obtain rfl := Option.some.inj hfound
    exact equal
  · rename_i hfound
    rw [hlookup] at hfound
    cases hfound

/-- Lists are equal when their values are. -/
lemma same_list {name : String} {values others : List Node} {operation otherOperation : Bool}
    {origin otherOrigin : Origin} (length : values.length = others.length)
    (pairs : ∀ value other, (value, other) ∈ values.zip others → value.same other = true) :
    (list name values operation origin).same (list name others otherOperation otherOrigin)
      = true := by
  rw [same]
  simp only [decide_true, length, Bool.true_and, List.all_eq_true, List.mem_attach, forall_const,
    Subtype.forall]
  rintro ⟨value, other⟩ member
  exact pairs value other member

lemma strip_eq_of_mem_zip {values others : List Node} {value other : Node}
    (stripped : values.map strip = others.map strip) (member : (value, other) ∈ values.zip others) :
    value.strip = other.strip := by
  induction values generalizing others with
  | nil => cases member
  | cons first values ih =>
    cases others with
    | nil => cases member
    | cons second others =>
      obtain ⟨same, rest⟩ := List.cons.inj stripped
      rcases List.mem_cons.mp member with here | member
      · obtain ⟨rfl, rfl⟩ := Prod.mk.inj here
        exact same
      · exact ih rest member

/-- Where two objects agree without their origins, each has a version of the other one's values. -/
lemma exists_version {properties others : List (String × Node)} {key : String} {value : Node}
    (stripped : stripProperties properties = stripProperties others)
    (member : (key, value) ∈ properties) :
    ∃ other, (key, other) ∈ others ∧ value.strip = other.strip := by
  have version : (key, value.strip) ∈ stripProperties others := by
    rw [← stripped, stripProperties_eq_map]
    exact List.mem_map.mpr ⟨_, member, rfl⟩
  rw [stripProperties_eq_map] at version
  obtain ⟨⟨_, other⟩, hother, pair⟩ := List.mem_map.mp version
  obtain ⟨rfl, inner⟩ := Prod.mk.inj pair
  exact ⟨other, hother, inner.symm⟩

lemma keys_stripProperties (properties : List (String × Node)) :
    (stripProperties properties).map Prod.fst = properties.map Prod.fst := by
  rw [stripProperties_eq_map, List.map_map]
  rfl

/-- **Trees with distinct keys that agree without their origins are equal**, whichever is asked. -/
theorem same_of_strip_eq : (a b : Node) → a.strip = b.strip → a.All DistinctKeys →
    a.same b = true ∧ b.same a = true
  | .primitive value _, .primitive other _, stripped, _ => by
    obtain rfl : value = other := by simpa [strip, plain] using stripped
    simp [same]
  | .object name properties _, .object otherName others _, stripped, distinct => by
    simp only [strip, objectOf, Node.object.injEq, and_true] at stripped
    obtain ⟨rfl, stripped⟩ := stripped
    have keys : others.map Prod.fst = properties.map Prod.fst := by
      rw [← keys_stripProperties, ← stripped, keys_stripProperties]
    have length : properties.length = others.length := by
      simpa using (congrArg List.length keys).symm
    have nodup := distinct.1 properties rfl
    have inner : ∀ key value other, (key, value) ∈ properties → value.strip = other.strip →
        value.same other = true ∧ other.same value = true := by
      intro key value other member version
      have smaller := List.sizeOf_lt_of_mem member
      exact same_of_strip_eq value other version (allProperties_iff.mp distinct.2 _ member)
    refine ⟨same_object length fun key value member => ?_,
      same_object length.symm fun key other member => ?_⟩
    · obtain ⟨other, hother, version⟩ := exists_version stripped member
      exact ⟨other, lookup_of_mem (by rw [keys]; exact nodup) hother,
        (inner key value other member version).2⟩
    · obtain ⟨value, hvalue, version⟩ := exists_version stripped.symm member
      exact ⟨value, lookup_of_mem nodup hvalue, (inner key value other hvalue version.symm).1⟩
  | .list name values _ _, .list otherName others _ _, stripped, distinct => by
    simp only [strip, listOf, Node.list.injEq, stripValues_eq_map, and_true] at stripped
    obtain ⟨rfl, stripped, -⟩ := stripped
    have length : values.length = others.length := by
      simpa using congrArg List.length stripped
    have inner : ∀ value other, value ∈ values → value.strip = other.strip →
        value.same other = true ∧ other.same value = true := by
      intro value other member version
      have smaller := List.sizeOf_lt_of_mem member
      exact same_of_strip_eq value other version (allValues_iff.mp distinct.2 _ member)
    refine ⟨same_list length fun value other member => ?_,
      same_list length.symm fun other value member => ?_⟩
    · exact (inner value other (List.of_mem_zip member).1 (strip_eq_of_mem_zip stripped member)).1
    · exact (inner value other (List.of_mem_zip member).2
        (strip_eq_of_mem_zip stripped.symm member).symm).2
  | .primitive _ _, .object _ _ _, stripped, _ => by cases stripped
  | .primitive _ _, .list _ _ _ _, stripped, _ => by cases stripped
  | .object _ _ _, .primitive _ _, stripped, _ => by cases stripped
  | .object _ _ _, .list _ _ _ _, stripped, _ => by cases stripped
  | .list _ _ _ _, .primitive _ _, stripped, _ => by cases stripped
  | .list _ _ _ _, .object _ _ _, stripped, _ => by cases stripped
termination_by a => sizeOf a
decreasing_by
  · simp only [Prod.mk.sizeOf_spec] at smaller
    simp only [Node.object.sizeOf_spec]
    omega
  · simp only [Node.list.sizeOf_spec]
    omega

/-- A path leads to the same place in a tree without its origins. -/
lemma get?_strip (node : Node) (path : Path) : node.strip.get? path = (node.get? path).map strip := by
  have child : ∀ (node : Node) step, node.strip.child? step = (node.child? step).map strip := by
    intro node step
    cases node <;> cases step <;>
      simp [strip, child?, plain, objectOf, listOf, lookup_stripProperties, stripValues_eq_map]
  induction path generalizing node with
  | nil => rfl
  | cons step rest ih =>
    rw [get?, get?, child]
    cases node.child? step with
    | none => rfl
    | some inner => exact ih inner

/-- Trees that agree without their origins have the same operations. -/
lemma isOperation_get?_of_strip_eq {a b : Node} (stripped : a.strip = b.strip) (path : Path) :
    (a.get? path).map isOperation = (b.get? path).map isOperation := by
  have flag : ∀ node : Node, node.strip.isOperation = node.isOperation := by
    intro node
    cases node <;> rfl
  have flags : ∀ node : Node, (node.get? path).map isOperation
      = (node.strip.get? path).map isOperation := by
    intro node
    rw [get?_strip, Option.map_map]
    exact congrArg (Option.map · (node.get? path)) (funext fun inner => (flag inner).symm)
  rw [flags a, flags b, stripped]

/-! ## Trees that differ by their origins -/

section

variable {good : Node → Prop}

/-- What does not depend on origins, a tree has with them or without. -/
theorem all_strip (blind : ∀ node, good (strip node) ↔ good node) {node : Node} :
    node.strip.All good ↔ node.All good := by
  induction node using induct_parts with
  | primitive value origin => exact blind (.primitive value origin)
  | object name properties origin ih =>
    refine and_congr (blind (.object name properties origin)) ?_
    rw [allProperties_iff, allProperties_iff, stripProperties_eq_map, List.forall_mem_map]
    exact forall₂_congr ih
  | list name values operation origin ih =>
    refine and_congr (blind (.list name values operation origin)) ?_
    rw [allValues_iff, allValues_iff, stripValues_eq_map, List.forall_mem_map]
    exact forall₂_congr ih

/-- Numbers are a part of origins. -/
lemma strip_clearIds (node : Node) : node.clearIds.strip = node.strip := by
  induction node using induct_parts with
  | primitive value origin => rfl
  | object name properties origin ih =>
    rw [clearIds, strip, strip, clearPropertyIds_eq_map, stripProperties_eq_map,
      stripProperties_eq_map, List.map_map]
    refine congrArg (objectOf _) (List.map_congr_left fun entry member => ?_)
    exact congrArg (Prod.mk _) (ih entry member)
  | list name values operation origin ih =>
    rw [clearIds, strip, strip, clearValueIds_eq_map, stripValues_eq_map, stripValues_eq_map,
      List.map_map]
    exact congrArg (listOf _ · _) (List.map_congr_left ih)

lemma all_congr (blind : ∀ node, good (strip node) ↔ good node) {node other : Node}
    (same : node.strip = other.strip) : node.All good ↔ other.All good := by
  rw [← all_strip blind, same, all_strip blind]

lemma all_clearIds (blind : ∀ node, good (strip node) ↔ good node) {node : Node} :
    node.clearIds.All good ↔ node.All good :=
  all_congr blind node.strip_clearIds

lemma name?_strip (node : Node) : node.strip.name? = node.name? := by
  cases node <;> rfl

lemma isNameable_strip (node : Node) : node.strip.isNameable = node.isNameable := by
  cases node <;> rfl

lemma distinctKeys_strip (node : Node) : node.strip.DistinctKeys ↔ node.DistinctKeys := by
  cases node with
  | object name properties origin =>
    simp only [strip, objectOf, DistinctKeys, properties?, Option.some.injEq, forall_eq',
      keys_stripProperties]
  | primitive | list => exact Iff.rfl

end

end Node

/-! ## Compilations -/

open TreeLang.Parser

/-- **What of a printed tree is read back.**  The text of a tree whose objects have distinct keys compiles
without a report, alone and with any options, to a single value: what a text can say of the tree. -/
theorem compileAlone_printed (options : CompileOptions) (name : String) (imports : ImportState)
    {tree : Node} (root : ∃ values origin, tree = .list "" values false origin)
    (distinct : tree.All Node.DistinctKeys) :
    let compilation := (compileAlone options ⟨name, tree.text⟩ imports).1
    compilation.reports = [] ∧
      ∃ value, compilation.values = [value] ∧ value.strip = tree.collapsed options := by
  set source : Source := ⟨name, tree.text⟩ with hsource
  set s := initial options source imports with hs
  have governs : s.lexis.Governs s := Lexis.governs_lexis rfl
  have plain : s.lexis.Plain := by
    refine ⟨fun _ h => h, ?_⟩
    have operators : s.lexis.operators =
        if options.defaultOperators then .defaults else .empty := rfl
    rw [operators]
    split
    · exact OperatorRegistry.symbolic_defaults
    · exact OperatorRegistry.symbolic_empty
  -- The text is that of one value, which begins with a bracket.
  have start : s.tokens.anchor.rest = (tree.printAt .value).toList ++ [] := (List.append_nil _).symm
  obtain ⟨phrase, after, reads⟩ := Lexis.reads_printAt plain options (.inl rfl) (fun _ => rfl)
    (show EndsElement [] from trivial) tree distinct start
  obtain ⟨inner, bracket⟩ : ∃ inner, s.tokens.anchor.rest = '[' :: inner := by
    obtain ⟨values, origin, rfl⟩ := root
    refine ⟨(String.intercalate ", " (Node.printValues .value values)).toList ++ [']'], ?_⟩
    rw [start, Node.printAt]
    simp [printName]
  have newline : '[' = '\n' → true = false := fun h => absurd h (by decide)
  have first : s.lexis.read true .word s.tokens.anchor = _ :=
    lex_delimiter bracket (by decide : delimiter? .word '[' = some .lBracket) newline
  have last : s.lexis.read false .word after = _ := lex_end reads.rest
  have final : s.lexis.read true .word after = _ := lex_end reads.rest
  have quiet : Quiet s := ⟨rfl, Nat.zero_le _, rfl⟩
  obtain ⟨node, t, made, stripped, -, reports⟩ := gives_make options phrase quiet
  have governs' : s.lexis.Governs t := governs.made (nodewise_make options phrase) made
  have affords := s.lexis.affords_priorityGroups
  have runs : Runs (parseAll options (tableResolver []) (source.length + 1) []) s [node]
      (t.moveTo after) := by
    obtain ⟨fuel, hfuel⟩ : ∃ fuel, source.length = fuel + 1 := by
      refine ⟨inner.length, ?_⟩
      have length := congrArg List.length bracket
      exact length
    rw [hfuel]
    refine runs_parseAll_more governs (p := s.tokens.anchor) (by rw [first]) (by rw [first]; exact .inl rfl)
      (runs_parseStatement_value (fun _ h => h) affords governs rfl (by rw [first]; rfl) reads.atom
        made) ?_ (runs_parseAll_end governs' (by rw [final]) (by rw [final]))
    exact runs_endStatement_end governs' (by rw [last]) (by rw [last])
  obtain ⟨values, reported⟩ := compile_of_runs runs
  have none : (t.moveTo after).reports.toList = [] := by
    rw [show (t.moveTo after).reports = t.reports from rfl, reports, reads.complaints]
    rfl
  exact ⟨reported.trans none, node, values, stripped.trans reads.tree⟩

/-- **What is printed is read back.**  The text of a tree whose objects have distinct keys compiles
without a report, alone and with any options, to a single value: the tree.  Only where single
elements are taken out of their parentheses may there be no unnamed operation of one element. -/
theorem compileAlone_text (options : CompileOptions) (name : String) (imports : ImportState)
    {tree : Node} (root : ∃ values origin, tree = .list "" values false origin)
    (distinct : tree.All Node.DistinctKeys)
    (uncollapsed : options.collapseUnaryOperation = true → tree.All Node.Uncollapsed) :
    let compilation := (compileAlone options ⟨name, tree.text⟩ imports).1
    compilation.reports = [] ∧ ∃ value, compilation.values = [value] ∧
      value.same tree = true ∧ tree.same value = true ∧
      ∀ path, (value.get? path).map Node.isOperation = (tree.get? path).map Node.isOperation := by
  obtain ⟨reports, value, values, stripped⟩ := compileAlone_printed options name imports root distinct
  rw [Node.collapsed_eq_strip tree uncollapsed] at stripped
  obtain ⟨same, same'⟩ := Node.same_of_strip_eq tree value stripped.symm distinct
  exact ⟨reports, value, values, same', same, Node.isOperation_get?_of_strip_eq stripped⟩

/-- For instance, a list of texts that would be read otherwise without their quotes. -/
theorem compileAlone_text_of_awkward_texts :
    let tree := Node.listOf "" [.plain "use it", .objectOf "f" [("a:b", .plain ""), ("a", .plain "//")],
      .listOf "" [.plain "x", .plain "-1"] true] false
    let compilation := (compileAlone {} ⟨"main",
      "[\"use it\", f\x7b\"a:b\": \"\", a: \"//\"\x7d, (x, \"-1\")]"⟩ {}).1
    compilation.reports = [] ∧ ∃ value, compilation.values = [value] ∧ value.same tree = true := by
  intro tree
  have text : tree.text = "[\"use it\", f\x7b\"a:b\": \"\", a: \"//\"\x7d, (x, \"-1\")]" := by
    decide +kernel
  have distinct : tree.All Node.DistinctKeys := by
    simp [tree, Node.All, Node.AllProperties, Node.AllValues, Node.DistinctKeys, Node.listOf,
      Node.objectOf, Node.plain, Node.properties?]
  have uncollapsed : tree.All Node.Uncollapsed := by
    simp [tree, Node.All, Node.AllProperties, Node.AllValues, Node.Uncollapsed, Node.listOf,
      Node.objectOf, Node.plain, Node.isOperation, Node.values?]
  rw [← text]
  obtain ⟨reports, value, values, same, -⟩ :=
    compileAlone_text {} "main" {} ⟨_, _, rfl⟩ distinct fun _ => uncollapsed
  exact ⟨reports, value, values, same⟩

end TreeLang
