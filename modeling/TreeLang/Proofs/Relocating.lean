import TreeLang.Proofs.Carrying
import TreeLang.Proofs.Denotation

/-!
# A value in another place

A value that is read from a calm text is read from any longer text around it.  Its phrase is the
same one some characters further on, so the tree of it is the same, and so are the reports about it
apart from their places.

* `Phrase.shift` — a phrase some characters further on.
* `Phrase.tree_shift`, `Phrase.complaints_shift` — its tree and its reports.
* `Phrase.Plain` — what the tokens of a phrase have in common.
* **`Lexis.Atom.carried`**, `Level.carried`, … — the rules hold in the longer text as well.
-/

namespace TreeLang

/-! ## Phrases some characters further on -/

/-- The report some characters further on. -/
def Report.shift (report : Report) (ahead : Nat) : Report :=
  { report with offset := report.offset.map (· + ahead) }

/-- The head some characters further on. -/
def Head.shift (head : Head) (ahead : Nat) : Head :=
  ⟨head.name.map (·.shift ahead), head.opener.shift ahead, head.expands⟩

@[simp] lemma Head.text_shift (head : Head) (ahead : Nat) : (head.shift ahead).text = head.text := by
  rw [Head.text, Head.text, Head.shift, Option.map_map]
  rfl

namespace Phrase

mutual

/-- **The phrase some characters further on.** -/
def shift (ahead : Nat) : Phrase → Phrase
  | .word token expands => .word (token.shift ahead) expands
  | .object head entries stop => .object (head.shift ahead) (shiftEntries ahead entries) (stop + ahead)
  | .list head operation elements stop =>
    .list (head.shift ahead) operation (shiftElements ahead elements) (stop + ahead)
  | .prefixed op start operand => .prefixed op (start + ahead) (shift ahead operand)
  | .postfixed op operand stop => .postfixed op (shift ahead operand) (stop + ahead)
  | .binary op left right => .binary op (shift ahead left) (shift ahead right)

/-- `shift` at every entry. -/
def shiftEntries (ahead : Nat) : List (Token × Phrase) → List (Token × Phrase)
  | [] => []
  | (key, phrase) :: rest => (key.shift ahead, shift ahead phrase) :: shiftEntries ahead rest

/-- `shift` at every element. -/
def shiftElements (ahead : Nat) : List Phrase → List Phrase
  | [] => []
  | phrase :: rest => shift ahead phrase :: shiftElements ahead rest

end

variable (options : CompileOptions) (ahead : Nat)

mutual

/-- The tree of a phrase does not depend on where it stands. -/
theorem tree_shift : (phrase : Phrase) → (phrase.shift ahead).tree options = phrase.tree options
  | .word token expands => rfl
  | .object head entries stop => by
    rw [shift, tree, tree, treeEntries_shift, Head.text_shift]
  | .list head operation elements stop => by
    rw [shift, tree, tree, treeElements_shift, Head.text_shift]
  | .prefixed op start operand => by rw [shift, tree, tree, tree_shift operand]
  | .postfixed op operand stop => by rw [shift, tree, tree, tree_shift operand]
  | .binary op left right => by rw [shift, tree, tree, tree_shift left, tree_shift right]

theorem treeEntries_shift : (entries : List (Token × Phrase)) → (known : List (String × Node)) →
    treeEntries options (shiftEntries ahead entries) known = treeEntries options entries known
  | [], known => rfl
  | (key, phrase) :: rest, known => by
    rw [shiftEntries, treeEntries, treeEntries, tree_shift phrase, treeEntries_shift rest]
    rfl

theorem treeElements_shift : (elements : List Phrase) →
    treeElements options (shiftElements ahead elements) = treeElements options elements
  | [] => rfl
  | phrase :: rest => by
    rw [shiftElements, treeElements, treeElements, tree_shift phrase, treeElements_shift rest]

end

lemma repeatedKey_shift (key : Token) (known : List (String × Node)) :
    repeatedKey options (key.shift ahead) known
      = (repeatedKey options key known).map (·.shift ahead) := by
  rw [repeatedKey, repeatedKey]
  split <;> simp_all [Token.shift, Report.shift, Report.errorAt, Report.atOffset, Report.of,
    Report.withSeverity]

mutual

/-- The reports about a phrase go along with it. -/
theorem complaints_shift : (phrase : Phrase) →
    (phrase.shift ahead).complaints options = (phrase.complaints options).map (·.shift ahead)
  | .word token expands => rfl
  | .object head entries stop => by
    rw [shift, complaints, complaints, complaintsEntries_shift]
  | .list head operation elements stop => by
    rw [shift, complaints, complaints, complaintsElements_shift]
  | .prefixed op start operand => by rw [shift, complaints, complaints, complaints_shift operand]
  | .postfixed op operand stop => by rw [shift, complaints, complaints, complaints_shift operand]
  | .binary op left right => by
    rw [shift, complaints, complaints, complaints_shift left, complaints_shift right,
      List.map_append]

theorem complaintsEntries_shift : (entries : List (Token × Phrase)) →
    (known : List (String × Node)) →
    complaintsEntries options (shiftEntries ahead entries) known
      = (complaintsEntries options entries known).map (·.shift ahead)
  | [], known => rfl
  | (key, phrase) :: rest, known => by
    rw [shiftEntries, complaintsEntries, complaintsEntries, complaints_shift phrase,
      repeatedKey_shift, tree_shift, List.map_append, List.map_append]
    exact congrArg _ (complaintsEntries_shift rest _)

theorem complaintsElements_shift : (elements : List Phrase) →
    complaintsElements options (shiftElements ahead elements)
      = (complaintsElements options elements).map (·.shift ahead)
  | [] => rfl
  | phrase :: rest => by
    rw [shiftElements, complaintsElements, complaintsElements, complaints_shift phrase,
      complaintsElements_shift rest, List.map_append]

end

/-! ## Phrases of calm texts -/

variable (word : String → Prop) (operator : OperatorDefinition → Prop)

mutual

/-- **Nothing is quoted**, and the words and the operators have a property each. -/
def Plain : Phrase → Prop
  | .word token _ => token.kind = .literal ∧ word token.content
  | .object head entries _ =>
    (∀ name ∈ head.name, name.kind = .literal ∧ word name.content) ∧ PlainEntries entries
  | .list head _ elements _ =>
    (∀ name ∈ head.name, name.kind = .literal ∧ word name.content) ∧ PlainElements elements
  | .prefixed op _ operand => operator op ∧ Plain operand
  | .postfixed op operand _ => operator op ∧ Plain operand
  | .binary op left right => operator op ∧ Plain left ∧ Plain right

/-- `Plain` for every value of some entries. -/
def PlainEntries : List (Token × Phrase) → Prop
  | [] => True
  | (_, phrase) :: rest => Plain phrase ∧ PlainEntries rest

/-- `Plain` for every element. -/
def PlainElements : List Phrase → Prop
  | [] => True
  | phrase :: rest => Plain phrase ∧ PlainElements rest

end

variable {word operator} {other : String → Prop} {another : OperatorDefinition → Prop}

mutual

/-- What the words and the operators of a phrase have may be weakened. -/
theorem Plain.mono (words : ∀ text, word text → other text)
    (operators : ∀ op, operator op → another op) :
    (phrase : Phrase) → phrase.Plain word operator → phrase.Plain other another
  | .word _ _, plain => ⟨plain.1, words _ plain.2⟩
  | .object _ entries _, plain =>
    ⟨fun name inside => ⟨(plain.1 name inside).1, words _ (plain.1 name inside).2⟩,
      PlainEntries.mono words operators entries plain.2⟩
  | .list _ _ elements _, plain =>
    ⟨fun name inside => ⟨(plain.1 name inside).1, words _ (plain.1 name inside).2⟩,
      PlainElements.mono words operators elements plain.2⟩
  | .prefixed _ _ operand, plain =>
    ⟨operators _ plain.1, Plain.mono words operators operand plain.2⟩
  | .postfixed _ operand _, plain =>
    ⟨operators _ plain.1, Plain.mono words operators operand plain.2⟩
  | .binary _ left right, plain =>
    ⟨operators _ plain.1, Plain.mono words operators left plain.2.1,
      Plain.mono words operators right plain.2.2⟩

theorem PlainEntries.mono (words : ∀ text, word text → other text)
    (operators : ∀ op, operator op → another op) : (entries : List (Token × Phrase)) →
      PlainEntries word operator entries → PlainEntries other another entries
  | [], _ => trivial
  | (_, phrase) :: rest, plain =>
    ⟨Plain.mono words operators phrase plain.1, PlainEntries.mono words operators rest plain.2⟩

theorem PlainElements.mono (words : ∀ text, word text → other text)
    (operators : ∀ op, operator op → another op) : (elements : List Phrase) →
      PlainElements word operator elements → PlainElements other another elements
  | [], _ => trivial
  | phrase :: rest, plain =>
    ⟨Plain.mono words operators phrase plain.1, PlainElements.mono words operators rest plain.2⟩

end

/-- A name stays what it is some characters further on. -/
lemma plain_head_shift {head : Head} {ahead : Nat}
    (plain : ∀ name ∈ head.name, name.kind = .literal ∧ word name.content) :
    ∀ name ∈ (head.shift ahead).name, name.kind = .literal ∧ word name.content := by
  intro name inside
  obtain ⟨known, here, rfl⟩ := Option.map_eq_some_iff.mp inside
  exact plain known here

mutual

/-- **Some characters further on the words and the operators are the same.** -/
theorem Plain.shift (ahead : Nat) : (phrase : Phrase) → phrase.Plain word operator →
    (phrase.shift ahead).Plain word operator
  | .word _ _, plain => plain
  | .object _ entries _, plain => ⟨plain_head_shift plain.1, PlainEntries.shift ahead entries plain.2⟩
  | .list _ _ elements _, plain =>
    ⟨plain_head_shift plain.1, PlainElements.shift ahead elements plain.2⟩
  | .prefixed _ _ operand, plain => ⟨plain.1, Plain.shift ahead operand plain.2⟩
  | .postfixed _ operand _, plain => ⟨plain.1, Plain.shift ahead operand plain.2⟩
  | .binary _ left right, plain =>
    ⟨plain.1, Plain.shift ahead left plain.2.1, Plain.shift ahead right plain.2.2⟩

theorem PlainEntries.shift (ahead : Nat) : (entries : List (Token × Phrase)) →
    PlainEntries word operator entries → PlainEntries word operator (shiftEntries ahead entries)
  | [], _ => trivial
  | (_, phrase) :: rest, plain =>
    ⟨Plain.shift ahead phrase plain.1, PlainEntries.shift ahead rest plain.2⟩

theorem PlainElements.shift (ahead : Nat) : (elements : List Phrase) →
    PlainElements word operator elements → PlainElements word operator (shiftElements ahead elements)
  | [], _ => trivial
  | phrase :: rest, plain =>
    ⟨Plain.shift ahead phrase plain.1, PlainElements.shift ahead rest plain.2⟩

end

end Phrase

/-! ## The rules in a longer text -/

namespace Lexis

open TreeLang.Parser

variable {lexis : Lexis} {cs tail : List Char} {ahead : Nat}

/-- **A calm text, and a longer one that goes on behind it**: whatever gives no cause for a report may
be met. -/
structure Enclosed (lexis : Lexis) (cs tail : List Char) : Prop where
  admits : ∀ lexeme : Lexeme, lexeme.reports = [] → lexis.admits lexeme
  behind : Behind lexis.operators tail
  calm : Calm cs

variable {skipBreaks : Bool} {mode : Mode} {p p' : Place}

/-- A token of the text is the same in the longer one. -/
lemma Enclosed.read (enclosed : lexis.Enclosed cs tail) (inside : p.rest <:+ cs)
    (more : (lexis.read skipBreaks mode p).token.kind ≠ .endOfInput)
    (ends : (lexis.read skipBreaks mode p).token.kind.isWorded → EndsLiteral mode p.rest tail) :
    (lexis.read skipBreaks mode p).Plain cs ∧ ∀ {ahead p'}, p.Carried ahead tail p' →
      (lexis.read skipBreaks mode p).Carried ahead tail (lexis.read skipBreaks mode p') := by
  have both : ∀ {ahead p'}, p.Carried ahead tail p' →
      (lexis.read skipBreaks mode p).Plain p.rest ∧
        (lexis.read skipBreaks mode p).Carried ahead tail (lexis.read skipBreaks mode p') :=
    fun carried => lex_carried enclosed.behind (enclosed.calm.of_suffix inside) carried more ends
  have itself : p.Carried 0 tail ⟨p.offset, p.previous, p.rest ++ tail⟩ := ⟨rfl, rfl, rfl⟩
  obtain ⟨silent, unquoted, closed, content⟩ := (both itself).1
  exact ⟨⟨silent, unquoted, closed, content.trans inside.isInfix⟩, fun carried => (both carried).2⟩

/-- Behind a token of the text the text goes on. -/
lemma read_inside (inside : p.rest <:+ cs) (skipBreaks : Bool) (mode : Mode) :
    (lexis.read skipBreaks mode p).after.rest <:+ cs :=
  (lex_suffix _ _ _ _ _).trans inside

/-- A token that is not a key ends where the longer text goes on. -/
lemma Enclosed.read_value (enclosed : lexis.Enclosed cs tail) (inside : p.rest <:+ cs)
    (bracket : mode ≠ .key) (more : (lexis.read skipBreaks mode p).token.kind ≠ .endOfInput) :
    (lexis.read skipBreaks mode p).Plain cs ∧ ∀ {ahead p'}, p.Carried ahead tail p' →
      (lexis.read skipBreaks mode p).Carried ahead tail (lexis.read skipBreaks mode p') :=
  enclosed.read inside more fun _ => .inl (enclosed.behind.stops bracket)

/-- So does what is looked at on the same line. -/
lemma Enclosed.look (enclosed : lexis.Enclosed cs tail) (inside : p.rest <:+ cs) (bracket : mode ≠ .key)
    (carried : p.Carried ahead tail p') :
    (lexis.read false mode p).Carried ahead tail (lexis.read false mode p') ∨
      (lexis.read false mode p).token.kind = .endOfInput ∧
        (lexis.read false mode p').reports = [] ∧
        ((lexis.read false mode p').token.kind = .lineBreak ∨
          (lexis.read false mode p').token.kind = .comma ∨
          (lexis.read false mode p').token.kind = .rBracket) := by
  by_cases more : (lexis.read false mode p).token.kind = .endOfInput
  · exact .inr ⟨more,
      lex_carried_end enclosed.behind (enclosed.calm.of_suffix inside) carried bracket more⟩
  · exact .inl ((enclosed.read_value inside bracket more).2 carried)

/-! ### Heads and operators -/

lemma ofNames_ne_key (mode : Mode) : mode.ofNames ≠ .key := by
  cases mode <;> decide

/-- The token behind a name, or the end of the text. -/
lemma Enclosed.lookBehind (enclosed : lexis.Enclosed cs tail) (inside : p.rest <:+ cs)
    (bracket : mode ≠ .key)
    (first : (lexis.read true mode p).Carried ahead tail (lexis.read true mode p')) :
    (lexis.behindName mode p).Carried ahead tail (lexis.behindName mode p') ∨
      (lexis.behindName mode p).token.kind = .endOfInput ∧
        (lexis.behindName mode p').reports = [] ∧
        (lexis.behindName mode p').token.kind.isOpener = false := by
  refine (enclosed.look (read_inside inside true mode) bracket first.after).imp_right ?_
  rintro ⟨ended, silent, kind⟩
  refine ⟨ended, silent, ?_⟩
  rw [behindName]
  rcases kind with kind | kind | kind <;> rw [kind] <;> rfl

/-- The tokens looked at to find the head of a group may be met in the longer text. -/
lemma Enclosed.meetsHead (enclosed : lexis.Enclosed cs tail) (inside : p.rest <:+ cs)
    (bracket : mode ≠ .key) (more : (lexis.read true mode p).token.kind ≠ .endOfInput)
    (carried : p.Carried ahead tail p') : lexis.MeetsHead mode p' := by
  have first := (enclosed.read_value inside bracket more).2 carried
  refine ⟨enclosed.admits _ first.silent, fun _ => enclosed.admits _ ?_⟩
  rcases enclosed.lookBehind inside bracket first with second | ⟨-, silent, -⟩
  · exact second.silent
  · exact silent

/-- Where no group begins, none does in the longer text. -/
lemma Enclosed.headAt?_none (enclosed : lexis.Enclosed cs tail) (inside : p.rest <:+ cs)
    (bracket : mode ≠ .key) (more : (lexis.read true mode p).token.kind ≠ .endOfInput)
    (nothing : lexis.headAt? mode p = none) (carried : p.Carried ahead tail p') :
    lexis.headAt? mode p' = none := by
  have first := (enclosed.read_value inside bracket more).2 carried
  simp only [headAt?, first.token, Token.shift] at nothing ⊢
  split_ifs at nothing with opens text attached
  · rw [if_neg opens, if_pos text, if_neg]
    rcases enclosed.lookBehind inside bracket first with second | ⟨-, -, closed⟩
    · simpa [second.token, Token.shift] using attached
    · simp [closed]
  · rw [if_neg opens, if_neg text]

/-- Where a group begins the text does not end. -/
lemma more_of_headAt? {head : Option Token × Token × Place} (found : lexis.headAt? mode p = some head) :
    (lexis.read true mode p).token.kind ≠ .endOfInput := by
  intro ended
  simp [headAt?, ended, TokenKind.isOpener, TokenKind.isText] at found

/-- A group begins in the longer text where it begins in the text. -/
lemma Enclosed.headAt?_some (enclosed : lexis.Enclosed cs tail) (inside : p.rest <:+ cs)
    (bracket : mode ≠ .key) {name : Option Token} {opener : Token} {after : Place}
    (head : lexis.headAt? mode p = some (name, opener, after)) :
    after.rest <:+ cs ∧
      (∀ word ∈ name, word.kind = .literal ∧ word.content.toList <:+: cs) ∧
      ∀ {ahead p'}, p.Carried ahead tail p' → ∃ after', after.Carried ahead tail after' ∧
        lexis.headAt? mode p' = some (name.map (·.shift ahead), opener.shift ahead, after') := by
  have more := more_of_headAt? head
  obtain ⟨plain, first⟩ := enclosed.read_value inside bracket more
  simp only [headAt?] at head
  split_ifs at head with opens text attached
  · obtain ⟨rfl, rfl, rfl⟩ : none = name ∧ _ = opener ∧ _ = after := by simpa using head
    refine ⟨read_inside inside _ _, by simp, fun carried => ?_⟩
    have first := first carried
    refine ⟨_, first.after, ?_⟩
    rw [headAt?, if_pos (by rw [first.token]; exact opens), first.token]
    rfl
  · obtain ⟨rfl, rfl, rfl⟩ : some _ = name ∧ _ = opener ∧ _ = after := by simpa using head
    refine ⟨read_inside (read_inside inside _ _) _ _, ?_, fun carried => ?_⟩
    · rintro word ⟨⟩
      refine ⟨?_, plain.content⟩
      have unquoted := plain.unquoted
      cases kind : (lexis.read true mode p).token.kind <;> simp_all [TokenKind.isText]
    · have first := first carried
      rcases enclosed.lookBehind inside bracket first with second | ⟨ended, -, -⟩
      · refine ⟨_, second.after, ?_⟩
        rw [headAt?, if_neg (by rw [first.token]; exact opens),
          if_pos (by rw [first.token]; exact text), if_pos, first.token, second.token]
        · rfl
        · simpa [first.token, second.token, Token.shift] using attached
      · simp [ended, TokenKind.isOpener] at attached

/-- Where no operator of a group is, none is in the longer text. -/
lemma Enclosed.operatorAt?_none (enclosed : lexis.Enclosed cs tail) (inside : p.rest <:+ cs)
    {group : PriorityGroup}
    (more : skipBreaks = false ∨ (lexis.read skipBreaks .operation p).token.kind ≠ .endOfInput)
    (nothing : lexis.operatorAt? group skipBreaks p = none) (carried : p.Carried ahead tail p') :
    lexis.operatorAt? group skipBreaks p' = none ∧
      lexis.admits (lexis.read skipBreaks .operation p') := by
  have bracket : Mode.operation ≠ .key := by decide
  have either : (lexis.read skipBreaks .operation p).Carried ahead tail
        (lexis.read skipBreaks .operation p') ∨
      (lexis.read skipBreaks .operation p').reports = [] ∧
        ((lexis.read skipBreaks .operation p').token.kind = .lineBreak ∨
          (lexis.read skipBreaks .operation p').token.kind = .comma ∨
          (lexis.read skipBreaks .operation p').token.kind = .rBracket) := by
    rcases more with rfl | more
    · exact (enclosed.look inside bracket carried).imp_right And.right
    · exact .inl ((enclosed.read_value inside bracket more).2 carried)
  rcases either with same | ⟨silent, kind⟩
  · refine ⟨?_, enclosed.admits _ same.silent⟩
    simp only [operatorAt?, same.token, Token.shift] at nothing ⊢
    split_ifs at nothing ⊢ with kind
    · rw [Option.map_eq_none_iff] at nothing ⊢
      exact nothing
    · rfl
  · refine ⟨?_, enclosed.admits _ silent⟩
    rw [operatorAt?]
    rcases kind with kind | kind | kind <;> simp [kind]

/-- An operator of a group is one in the longer text. -/
lemma Enclosed.operatorAt?_some (enclosed : lexis.Enclosed cs tail) (inside : p.rest <:+ cs)
    {group : PriorityGroup} {op : OperatorDefinition} {after : Place}
    (found : lexis.operatorAt? group skipBreaks p = some (op, after)) :
    after.rest <:+ cs ∧ op ∈ group.operators ∧ ∀ {ahead p'}, p.Carried ahead tail p' →
      ∃ after', after.Carried ahead tail after' ∧
        lexis.operatorAt? group skipBreaks p' = some (op, after') ∧
        lexis.admits (lexis.read skipBreaks .operation p') := by
  simp only [operatorAt?] at found
  split_ifs at found with kind
  have more : (lexis.read skipBreaks .operation p).token.kind ≠ .endOfInput := by
    intro ended
    simp [ended] at kind
  obtain ⟨op', hfind, same⟩ := Option.map_eq_some_iff.mp found
  obtain ⟨rfl, rfl⟩ := Prod.mk.inj same
  refine ⟨read_inside inside _ _, List.mem_of_find?_eq_some hfind, fun carried => ?_⟩
  have first := (enclosed.read_value inside (by decide) more).2 carried
  refine ⟨_, first.after, ?_, enclosed.admits _ first.silent⟩
  simp only [operatorAt?, first.token, Token.shift]
  rw [if_pos kind, hfind]
  rfl

/-- What stands behind an element stands behind it in the longer text. -/
lemma Enclosed.separated (enclosed : lexis.Enclosed cs tail) (inside : p.rest <:+ cs) {closer : TokenKind}
    (closes : closer.isCloser) {after : Place} (separated : lexis.Separated mode closer p after) :
    after.rest <:+ cs ∧ ∀ {ahead p'}, p.Carried ahead tail p' →
      ∃ after', after.Carried ahead tail after' ∧ lexis.Separated mode closer p' after' := by
  have kinds : (lexis.read false mode p).token.kind ≠ .endOfInput ∧
      (lexis.read false mode p).token.kind.isWorded = false := by
    obtain ⟨-, ⟨kind | kind, -⟩ | ⟨kind, -⟩⟩ := separated
    · rw [kind]; decide
    · rw [kind]; decide
    · rw [kind]
      cases closer <;> simp_all [TokenKind.isCloser, TokenKind.isWorded, TokenKind.isText]
  obtain ⟨-, same⟩ := enclosed.read inside kinds.1 fun worded => by
    rw [kinds.2] at worded
    cases worded
  obtain ⟨-, ⟨kind, rfl⟩ | ⟨kind, rfl⟩⟩ := separated
  · refine ⟨read_inside inside _ _, fun carried => ?_⟩
    have same := same carried
    exact ⟨_, same.after, enclosed.admits _ same.silent, .inl ⟨by rw [same.token]; exact kind, rfl⟩⟩
  · refine ⟨inside, fun carried => ⟨_, carried, ?_⟩⟩
    have same := same carried
    exact ⟨enclosed.admits _ same.silent, .inr ⟨by rw [same.token]; exact kind, rfl⟩⟩

/-! ### Values, groups and expressions -/

/-- A phrase of a text: nothing is quoted, the words stand in the text, and the operators are in
force. -/
abbrev Holds (lexis : Lexis) (cs : List Char) (phrase : Phrase) : Prop :=
  phrase.Plain (fun word => word.toList <:+: cs) (· ∈ lexis.operators.definitions)

/-- **From a place in the text to another one** the longer text is read alike. -/
def Follows (cs tail : List Char) (ahead : Nat) (p q : Place) (reads : Place → Place → Prop) :
    Prop :=
  q.rest <:+ cs ∧ ∀ p', p.Carried ahead tail p' → ∃ q', q.Carried ahead tail q' ∧ reads p' q'

/-- Only operators in force are looked for. -/
def Known (lexis : Lexis) (groups : List PriorityGroup) : Prop :=
  ∀ group ∈ groups, ∀ op ∈ group.operators, op ∈ lexis.operators.definitions

lemma known_priorityGroups (lexis : Lexis) : lexis.Known lexis.operators.priorityGroups :=
  fun _ member _ inside => ((OperatorRegistry.mem_operators_iff member).mp inside).1

/-- The end of a group stands in the longer text as well. -/
lemma Enclosed.closer (enclosed : lexis.Enclosed cs tail) (inside : p.rest <:+ cs)
    {closer : TokenKind} (closes : closer.isCloser)
    (closed : (lexis.read true mode p).token.kind = closer) :
    Follows cs tail ahead p (lexis.read true mode p).after fun p' q' =>
      (lexis.read true mode p').token.kind = closer ∧ lexis.admits (lexis.read true mode p') ∧
        (lexis.read true mode p').token.stop = (lexis.read true mode p).token.stop + ahead ∧
        q' = (lexis.read true mode p').after := by
  obtain ⟨more, worded⟩ : closer ≠ .endOfInput ∧ closer.isWorded = false := by
    cases closer <;> simp_all [TokenKind.isCloser, TokenKind.isWorded, TokenKind.isText]
  obtain ⟨-, same⟩ := enclosed.read inside (by rwa [closed]) fun word => by
    rw [closed, worded] at word
    cases word
  refine ⟨read_inside inside _ _, fun _ carried => ⟨_, (same carried).after, ?_⟩⟩
  have same := same carried
  exact ⟨by rw [same.token]; exact closed, enclosed.admits _ same.silent, by rw [same.token]; rfl, rfl⟩

/-- Where a key is read a colon follows, so the key ends in the text. -/
lemma endsLiteral_key (colon : (lexis.behindKey p).token.kind = .colon) :
    EndsLiteral .key p.rest tail := by
  have worded : (lexis.behindKey p).token.kind.isWorded = false := by rw [colon]; rfl
  have more : (lexis.behindKey p).token.kind ≠ .endOfInput := by rw [colon]; decide
  have closed : (lexis.behindKey p).token.kind ≠ .openComment := by rw [colon]; decide
  obtain ⟨d, member, delimits⟩ := exists_delimiter worded more closed
  rw [← read, ← behindKey, colon] at delimits
  obtain rfl : ':' = d := Option.some.inj (delimiter?_sign delimits)
  exact .inr ⟨_, (lex_suffix _ _ _ _ _).subset member, by rw [delimits]; rfl, by decide⟩

mutual

/-- **A value of the text is one of the longer text.** -/
theorem Atom.carried (enclosed : lexis.Enclosed cs tail) {expands : Bool} {phrase : Phrase}
    {p q : Place} : {mode : Mode} → Atom lexis mode expands p phrase q → ReadsAtoms mode →
      p.rest <:+ cs → lexis.Holds cs phrase ∧ Follows cs tail ahead p q fun p' q' =>
        Atom lexis mode expands p' (phrase.shift ahead) q'
  | mode, .word head _ text _, reads, inside => by
    have bracket : mode ≠ .key := by rcases reads with rfl | rfl <;> decide
    have more : (lexis.read true mode p).token.kind ≠ .endOfInput := by
      intro ended
      rw [ended] at text
      cases text
    have moreNames : (lexis.read true mode.ofNames p).token.kind ≠ .endOfInput := by
      rcases reads with rfl | rfl
      · exact fun ended => more ((lex_of_word _ _ _ _ _).1 ended)
      · exact more
    obtain ⟨plain, same⟩ := enclosed.read_value inside bracket more
    refine ⟨⟨?_, plain.content⟩, read_inside inside _ _, fun p' carried => ?_⟩
    · have unquoted := plain.unquoted
      cases kind : (lexis.read true mode p).token.kind <;> simp_all [TokenKind.isText]
    have same := same carried
    have atom : Atom lexis mode expands p' _ _ := .word
      (enclosed.headAt?_none inside (ofNames_ne_key mode) moreNames head carried)
      (enclosed.meetsHead inside (ofNames_ne_key mode) moreNames carried)
      (by rw [same.token]; exact text) (enclosed.admits _ same.silent)
    rw [same.token] at atom
    exact ⟨_, same.after, atom⟩
  | mode, .object head _ kind content, reads, inside => by
    obtain ⟨after, name, same⟩ := enclosed.headAt?_some inside (ofNames_ne_key mode)
      head
    obtain ⟨plain, follows⟩ := Entries.carried enclosed content after
    refine ⟨⟨name, plain⟩, follows.1, fun p' carried => ?_⟩
    obtain ⟨after', moved, head'⟩ := same carried
    obtain ⟨q', moved, content'⟩ := follows.2 after' moved
    exact ⟨q', moved, .object head' (enclosed.meetsHead inside (ofNames_ne_key mode)
      (more_of_headAt? head) carried) kind content'⟩
  | mode, .list head _ kind content, reads, inside => by
    obtain ⟨after, name, same⟩ := enclosed.headAt?_some inside (ofNames_ne_key mode)
      head
    obtain ⟨plain, follows⟩ := Elements.carried enclosed content (.inl rfl) rfl after
    refine ⟨⟨name, plain⟩, follows.1, fun p' carried => ?_⟩
    obtain ⟨after', moved, head'⟩ := same carried
    obtain ⟨q', moved, content'⟩ := follows.2 after' moved
    exact ⟨q', moved, .list head' (enclosed.meetsHead inside (ofNames_ne_key mode)
      (more_of_headAt? head) carried) kind content'⟩
  | mode, .operation head _ kind content, reads, inside => by
    obtain ⟨after, name, same⟩ := enclosed.headAt?_some inside (ofNames_ne_key mode)
      head
    obtain ⟨plain, follows⟩ := Elements.carried enclosed content (.inr rfl) rfl after
    refine ⟨⟨name, plain⟩, follows.1, fun p' carried => ?_⟩
    obtain ⟨after', moved, head'⟩ := same carried
    obtain ⟨q', moved, content'⟩ := follows.2 after' moved
    exact ⟨q', moved, .operation head' (enclosed.meetsHead inside (ofNames_ne_key mode)
      (more_of_headAt? head) carried) kind content'⟩

theorem Entries.carried (enclosed : lexis.Enclosed cs tail) {entries : List (Token × Phrase)}
    {stop : Nat} {p q : Place} : Entries lexis p entries stop q → p.rest <:+ cs →
      Phrase.PlainEntries (fun word => word.toList <:+: cs) (· ∈ lexis.operators.definitions)
          entries ∧
        Follows cs tail ahead p q fun p' q' =>
          Entries lexis p' (Phrase.shiftEntries ahead entries) (stop + ahead) q'
  | .done closer _, inside => by
    have follows : Follows cs tail ahead p _ _ := enclosed.closer inside rfl closer
    refine ⟨trivial, follows.1, fun p' carried => ?_⟩
    obtain ⟨_, moved, closer', met, stop, rfl⟩ := follows.2 p' carried
    have entries := Entries.done closer' met
    rw [stop] at entries
    exact ⟨_, moved, entries⟩
  | .more text _ colon _ value separated others, inside => by
    have more : (lexis.read true .key p).token.kind ≠ .endOfInput := by
      intro ended
      rw [ended] at text
      cases text
    obtain ⟨-, same⟩ := enclosed.read inside more fun _ => endsLiteral_key colon
    have insideKey : (lexis.read true .key p).after.rest <:+ cs := read_inside inside true .key
    have metColon : (lexis.behindKey p).Plain cs ∧ _ :=
      enclosed.read insideKey (by rw [← behindKey, colon]; decide) fun worded => by
        rw [← behindKey, colon] at worded
        cases worded
    obtain ⟨plain, follows⟩ := Atom.carried enclosed value (.inl rfl) (read_inside insideKey _ _)
    obtain ⟨insideNext, passes⟩ := enclosed.separated follows.1 rfl separated
    obtain ⟨plainOthers, followsOthers⟩ := Entries.carried enclosed others insideNext
    refine ⟨⟨plain, plainOthers⟩, followsOthers.1, fun p' carried => ?_⟩
    have same := same carried
    have sameColon : (lexis.behindKey p).Carried ahead tail (lexis.behindKey p') :=
      metColon.2 same.after
    obtain ⟨p₁', moved, value'⟩ := follows.2 _ sameColon.after
    obtain ⟨p₂', moved, separated'⟩ := passes moved
    obtain ⟨q', moved, others'⟩ := followsOthers.2 p₂' moved
    have entries := Entries.more (by rw [same.token]; exact text) (enclosed.admits _ same.silent)
      (by rw [sameColon.token]; exact colon) (enclosed.admits _ sameColon.silent) value' separated'
      others'
    rw [same.token] at entries
    exact ⟨q', moved, entries⟩

theorem Elements.carried (enclosed : lexis.Enclosed cs tail) {closer : TokenKind}
    {elements : List Phrase} {stop : Nat} {p q : Place} :
    {mode : Mode} → Elements lexis mode closer p elements stop q → ReadsAtoms mode →
      closer.isCloser → p.rest <:+ cs →
        Phrase.PlainElements (fun word => word.toList <:+: cs) (· ∈ lexis.operators.definitions)
            elements ∧
          Follows cs tail ahead p q fun p' q' =>
            Elements lexis mode closer p' (Phrase.shiftElements ahead elements) (stop + ahead) q'
  | mode, .done closed _, reads, closes, inside => by
    have follows : Follows cs tail ahead p _ _ := enclosed.closer inside closes closed
    refine ⟨trivial, follows.1, fun p' carried => ?_⟩
    obtain ⟨_, moved, closed', met, stop, rfl⟩ := follows.2 p' carried
    have elements := Elements.done closed' met
    rw [stop] at elements
    exact ⟨_, moved, elements⟩
  | mode, .more _ element separated others, reads, closes, inside => by
    have bracket : mode ≠ .key := by rcases reads with rfl | rfl <;> decide
    have more : (lexis.read true mode p).token.kind ≠ .endOfInput :=
      (ends_of_beginsElement element.begins closes).2.1
    obtain ⟨plain, follows⟩ := Element.carried enclosed element inside
    obtain ⟨insideNext, passes⟩ := enclosed.separated follows.1 closes separated
    obtain ⟨plainOthers, followsOthers⟩ := Elements.carried enclosed others reads closes insideNext
    refine ⟨⟨plain, plainOthers⟩, followsOthers.1, fun p' carried => ?_⟩
    have same := (enclosed.read_value inside bracket more).2 carried
    obtain ⟨p₁', moved, element'⟩ := follows.2 p' carried
    obtain ⟨p₂', moved, separated'⟩ := passes moved
    obtain ⟨q', moved, others'⟩ := followsOthers.2 p₂' moved
    exact ⟨q', moved, .more (enclosed.admits _ same.silent) element' separated' others'⟩

theorem Element.carried (enclosed : lexis.Enclosed cs tail) {phrase : Phrase} {p q : Place} :
    {mode : Mode} → Element lexis mode p phrase q → p.rest <:+ cs →
      lexis.Holds cs phrase ∧ Follows cs tail ahead p q fun p' q' =>
        Element lexis mode p' (phrase.shift ahead) q'
  | _, .value atom, inside => by
    obtain ⟨plain, follows⟩ := Atom.carried enclosed atom (.inl rfl) inside
    refine ⟨plain, follows.1, fun p' carried => ?_⟩
    obtain ⟨q', moved, atom'⟩ := follows.2 p' carried
    exact ⟨q', moved, .value atom'⟩
  | _, .expression level, inside => by
    obtain ⟨plain, follows⟩ := Level.carried enclosed level (known_priorityGroups lexis) inside
    refine ⟨plain, follows.1, fun p' carried => ?_⟩
    obtain ⟨q', moved, level'⟩ := follows.2 p' carried
    exact ⟨q', moved, .expression level'⟩

theorem Level.carried (enclosed : lexis.Enclosed cs tail) {expands : Bool} {phrase : Phrase}
    {p q : Place} : {groups : List PriorityGroup} → Level lexis groups expands p phrase q →
      lexis.Known groups → p.rest <:+ cs →
        lexis.Holds cs phrase ∧ Follows cs tail ahead p q fun p' q' =>
          Level lexis groups expands p' (phrase.shift ahead) q'
  | _, .operand atom, known, inside => by
    obtain ⟨plain, follows⟩ := Atom.carried enclosed atom (.inr rfl) inside
    refine ⟨plain, follows.1, fun p' carried => ?_⟩
    obtain ⟨q', moved, atom'⟩ := follows.2 p' carried
    exact ⟨q', moved, .operand atom'⟩
  | _, .binary fixity first others, known, inside => by
    obtain ⟨plain, follows⟩ := Level.carried enclosed first
      (fun group member => known group (List.mem_cons_of_mem _ member)) inside
    obtain ⟨plain, followsOthers⟩ := Tail.carried enclosed others known plain follows.1
    refine ⟨plain, followsOthers.1, fun p' carried => ?_⟩
    obtain ⟨p₁', moved, first'⟩ := follows.2 p' carried
    obtain ⟨q', moved, others'⟩ := followsOthers.2 p₁' moved
    exact ⟨q', moved, .binary fixity first' others'⟩
  | _, .postfixed fixity first others, known, inside => by
    obtain ⟨plain, follows⟩ := Level.carried enclosed first
      (fun group member => known group (List.mem_cons_of_mem _ member)) inside
    obtain ⟨plain, followsOthers⟩ := Postfixes.carried enclosed others
      (known _ List.mem_cons_self) plain follows.1
    refine ⟨plain, followsOthers.1, fun p' carried => ?_⟩
    obtain ⟨p₁', moved, first'⟩ := follows.2 p' carried
    obtain ⟨q', moved, others'⟩ := followsOthers.2 p₁' moved
    exact ⟨q', moved, .postfixed fixity first' others'⟩
  | _, .prefixed fixity found _ operand, known, inside => by
    obtain ⟨after, registered, same⟩ := enclosed.operatorAt?_some inside found
    obtain ⟨plain, follows⟩ := Level.carried enclosed operand known after
    refine ⟨⟨known _ List.mem_cons_self _ registered, plain⟩, follows.1, fun p' carried => ?_⟩
    obtain ⟨p₁', moved, found', met⟩ := same carried
    obtain ⟨q', moved, operand'⟩ := follows.2 p₁' moved
    have level := Level.prefixed fixity found' met operand'
    rw [carried.offset] at level
    exact ⟨q', moved, level⟩
  | _, .unprefixed fixity absent _ operand, known, inside => by
    have more := (ends_of_beginsElement operand.begins (show TokenKind.rParen.isCloser from rfl)).2.1
    obtain ⟨plain, follows⟩ := Level.carried enclosed operand
      (fun group member => known group (List.mem_cons_of_mem _ member)) inside
    refine ⟨plain, follows.1, fun p' carried => ?_⟩
    obtain ⟨absent', met⟩ := enclosed.operatorAt?_none inside (.inr more) absent
      carried
    obtain ⟨q', moved, operand'⟩ := follows.2 p' carried
    exact ⟨q', moved, .unprefixed fixity absent' met operand'⟩

theorem Tail.carried (enclosed : lexis.Enclosed cs tail) {group : PriorityGroup}
    {tighter : List PriorityGroup} {left phrase : Phrase} {p q : Place} :
    Tail lexis group tighter left p phrase q → lexis.Known (group :: tighter) →
      lexis.Holds cs left → p.rest <:+ cs →
        lexis.Holds cs phrase ∧ Follows cs tail ahead p q fun p' q' =>
          Tail lexis group tighter (left.shift ahead) p' (phrase.shift ahead) q'
  | .done absent _, known, plain, inside => by
    refine ⟨plain, inside, fun p' carried => ⟨p', carried, ?_⟩⟩
    obtain ⟨absent', met⟩ := enclosed.operatorAt?_none inside (.inl rfl) absent
      carried
    exact .done absent' met
  | .right found _ associativity operand, known, plain, inside => by
    obtain ⟨after, registered, same⟩ := enclosed.operatorAt?_some inside found
    obtain ⟨plainOperand, follows⟩ := Level.carried enclosed operand known after
    refine ⟨⟨known _ List.mem_cons_self _ registered, plain, plainOperand⟩, follows.1,
      fun p' carried => ?_⟩
    obtain ⟨p₁', moved, found', met⟩ := same carried
    obtain ⟨q', moved, operand'⟩ := follows.2 p₁' moved
    exact ⟨q', moved, .right found' met associativity operand'⟩
  | .left found _ associativity operand others, known, plain, inside => by
    obtain ⟨after, registered, same⟩ := enclosed.operatorAt?_some inside found
    obtain ⟨plainOperand, follows⟩ := Level.carried enclosed operand
      (fun group member => known group (List.mem_cons_of_mem _ member)) after
    obtain ⟨plain, followsOthers⟩ := Tail.carried enclosed others known
      ⟨known _ List.mem_cons_self _ registered, plain, plainOperand⟩ follows.1
    refine ⟨plain, followsOthers.1, fun p' carried => ?_⟩
    obtain ⟨p₁', moved, found', met⟩ := same carried
    obtain ⟨p₂', moved, operand'⟩ := follows.2 p₁' moved
    obtain ⟨q', moved, others'⟩ := followsOthers.2 p₂' moved
    exact ⟨q', moved, .left found' met associativity operand' others'⟩

theorem Postfixes.carried (enclosed : lexis.Enclosed cs tail) {group : PriorityGroup}
    {operand phrase : Phrase} {p q : Place} :
    Postfixes lexis group operand p phrase q →
      (∀ op ∈ group.operators, op ∈ lexis.operators.definitions) → lexis.Holds cs operand →
        p.rest <:+ cs → lexis.Holds cs phrase ∧ Follows cs tail ahead p q fun p' q' =>
          Postfixes lexis group (operand.shift ahead) p' (phrase.shift ahead) q'
  | .done absent _, known, plain, inside => by
    refine ⟨plain, inside, fun p' carried => ⟨p', carried, ?_⟩⟩
    obtain ⟨absent', met⟩ := enclosed.operatorAt?_none inside (.inl rfl) absent
      carried
    exact .done absent' met
  | .more found _ rest, known, plain, inside => by
    obtain ⟨after, registered, same⟩ := enclosed.operatorAt?_some inside found
    obtain ⟨plain, follows⟩ := Postfixes.carried enclosed rest known
      ⟨known _ registered, plain⟩ after
    refine ⟨plain, follows.1, fun p' carried => ?_⟩
    obtain ⟨p₁', moved, found', met⟩ := same carried
    obtain ⟨q', moved', rest'⟩ := follows.2 p₁' moved
    refine ⟨q', moved', .more found' met ?_⟩
    rw [moved.offset]
    exact rest'

end

end Lexis

end TreeLang
