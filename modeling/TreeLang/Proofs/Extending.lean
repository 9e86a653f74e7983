import TreeLang.Proofs.Alone
import TreeLang.Proofs.Continuing

/-!
# Values in a text that goes on

A value that is read from a text without a report is read from every longer text that goes on with a
new line, wherever that text begins: its phrase is the same one some characters further on.  The
tokens decide everything, so this follows rule by rule from what is known of tokens.

* `Lexis.Extends`, `Place.Onto` — a text, a longer one, and the places that correspond.
* `Extends.read`, `Extends.look` — tokens, and tokens where the text may end.
* **`Atom.onto`**, `Level.onto`, … — the rules hold in the longer text as well.
* `statementAt?_onto` — so does what begins a statement.
-/

namespace TreeLang

/-- **Places that correspond**: the rest of the one is that of the other with more behind it. -/
structure Place.Onto (ahead : Nat) (tail : List Char) (p p' : Place) : Prop where
  carried : p.Carried ahead tail p'
  unescaped : Unescaped tail p.rest

namespace Lexis

open TreeLang.Parser

variable {lexis : Lexis} {tail : List Char} {ahead : Nat} {skipBreaks : Bool} {mode : Mode}
  {p p' q : Place}

/-- **A text can be extended**: with a new line, over which no operator reaches; what gives no cause
for a report may be met, and nothing else. -/
structure Extends (lexis : Lexis) (tail : List Char) : Prop where
  on : GoesOn tail
  unbroken : Unbroken tail lexis.operators
  admits : ∀ lexeme : Lexeme, lexis.admits lexeme ↔ lexeme.reports = []

/-! ## Tokens -/

/-- What the two texts have at places that correspond. -/
structure Same (lexis : Lexis) (ahead : Nat) (tail : List Char) (lexeme lexeme' : Lexeme) : Prop where
  token : lexeme'.token = lexeme.token.shift ahead
  after : lexeme.after.Onto ahead tail lexeme'.after
  met : lexis.admits lexeme'

lemma Same.kind {lexeme lexeme' : Lexeme} (same : lexis.Same ahead tail lexeme lexeme') :
    lexeme'.token.kind = lexeme.token.kind := by
  rw [same.token, Token.shift]

/-- **A token is the same in the longer text**, and where the text ends a line break may be. -/
lemma Extends.look (extend : lexis.Extends tail) (onto : p.Onto ahead tail p')
    (met : lexis.admits (lexis.read skipBreaks mode p)) :
    lexis.Same ahead tail (lexis.read skipBreaks mode p) (lexis.read skipBreaks mode p') ∨
      (lexis.read skipBreaks mode p).token.kind = .endOfInput ∧
        (skipBreaks = false → (lexis.read skipBreaks mode p').token.kind = .lineBreak ∧
          lexis.admits (lexis.read skipBreaks mode p')) := by
  have silent := (extend.admits _).mp met
  have lexes : (lexis.read skipBreaks mode p).Onto ahead tail skipBreaks _ :=
    lex_onto extend.on skipBreaks onto.unescaped (fun _ => extend.unbroken) onto.carried
  cases lexes with
  | same token after reports =>
    refine .inl ⟨token, ⟨after, onto.unescaped.of_suffix (lex_suffix _ _ _ _ _)⟩, ?_⟩
    exact (extend.admits _).mpr (by rw [← read] at reports; rw [reports, silent, List.map_nil])
  | faulty _ faulty => exact absurd silent faulty
  | ended _ ends breaks =>
    exact .inr ⟨ends, fun same => ⟨(breaks same).1, (extend.admits _).mpr (breaks same).2⟩⟩

/-- With nothing behind the text every token is the same. -/
lemma Extends.same (extend : lexis.Extends []) (onto : p.Onto ahead [] p')
    (met : lexis.admits (lexis.read skipBreaks mode p)) :
    lexis.Same ahead [] (lexis.read skipBreaks mode p) (lexis.read skipBreaks mode p') := by
  have silent := (extend.admits _).mp met
  have lexes : (lexis.read skipBreaks mode p).Onto ahead [] skipBreaks _ :=
    lex_onto extend.on skipBreaks onto.unescaped (fun _ => extend.unbroken) onto.carried
  cases lexes with
  | same token after reports =>
    refine ⟨token, ⟨after, fun more => absurd rfl more⟩, (extend.admits _).mpr ?_⟩
    rw [← read] at reports
    rw [reports, silent, List.map_nil]
  | faulty more => exact absurd rfl more
  | ended more => exact absurd rfl more

/-- Where the text does not end the token is the same. -/
lemma Extends.read (extend : lexis.Extends tail) (onto : p.Onto ahead tail p')
    (met : lexis.admits (lexis.read skipBreaks mode p))
    (more : (lexis.read skipBreaks mode p).token.kind ≠ .endOfInput) :
    lexis.Same ahead tail (lexis.read skipBreaks mode p) (lexis.read skipBreaks mode p') :=
  (extend.look onto met).resolve_right fun ended => more ended.1

/-- A token of some kind that does not end the text. -/
lemma Extends.read_of_kind (extend : lexis.Extends tail) (onto : p.Onto ahead tail p')
    (met : lexis.admits (lexis.read skipBreaks mode p)) {test : TokenKind → Bool}
    (is : test (lexis.read skipBreaks mode p).token.kind) (ends : test .endOfInput = false) :
    lexis.Same ahead tail (lexis.read skipBreaks mode p) (lexis.read skipBreaks mode p') :=
  extend.read onto met fun ended => by
    rw [ended, ends] at is
    cases is

/-! ## Heads, operators and separators -/

/-- Behind a name the texts have the same token, or the text ends there. -/
lemma Extends.lookBehind (extend : lexis.Extends tail) (meets : lexis.MeetsHead mode p)
    (text : (lexis.read true mode p).token.kind.isText)
    (first : lexis.Same ahead tail (lexis.read true mode p) (lexis.read true mode p')) :
    lexis.Same ahead tail (lexis.behindName mode p) (lexis.behindName mode p') ∨
      (lexis.behindName mode p).token.kind = .endOfInput ∧
        (lexis.behindName mode p').token.kind = .lineBreak ∧
        lexis.admits (lexis.behindName mode p') :=
  (extend.look first.after (meets.2 text)).imp_right fun ended => ⟨ended.1, ended.2 rfl⟩

/-- The tokens looked at to find the head of a group may be met in the longer text. -/
lemma Extends.meetsHead (extend : lexis.Extends tail) (onto : p.Onto ahead tail p')
    (meets : lexis.MeetsHead mode p) (more : (lexis.read true mode p).token.kind ≠ .endOfInput) :
    lexis.MeetsHead mode p' := by
  have first := extend.read onto meets.1 more
  refine ⟨first.met, fun text => ?_⟩
  rw [first.kind] at text
  rcases extend.lookBehind meets text first with same | ⟨-, -, met⟩
  · exact same.met
  · exact met

/-- Whether an opener stands behind a name without a gap. -/
lemma attached_shift (name opener : Token) :
    ((opener.shift ahead).kind.isOpener && (opener.shift ahead).start = (name.shift ahead).stop)
      = (opener.kind.isOpener && opener.start = name.stop) := by
  simp [Token.shift]

/-- Where no group begins, none does in the longer text. -/
lemma Extends.headAt?_none (extend : lexis.Extends tail) (onto : p.Onto ahead tail p')
    (meets : lexis.MeetsHead mode p) (more : (lexis.read true mode p).token.kind ≠ .endOfInput)
    (nothing : lexis.headAt? mode p = none) : lexis.headAt? mode p' = none := by
  have first := extend.read onto meets.1 more
  simp only [headAt?, first.kind] at nothing ⊢
  split_ifs at nothing with opens text attached
  · rw [if_neg opens, if_pos text, if_neg]
    rcases extend.lookBehind meets text first with second | ⟨-, breaks, -⟩
    · rwa [second.token, first.token, attached_shift]
    · simp [breaks, TokenKind.isOpener]
  · rw [if_neg opens, if_neg text]

/-- Where a group begins, it begins in the longer text. -/
lemma Extends.headAt?_some (extend : lexis.Extends tail) (onto : p.Onto ahead tail p')
    (meets : lexis.MeetsHead mode p) {name : Option Token} {opener : Token} {after : Place}
    (head : lexis.headAt? mode p = some (name, opener, after)) :
    ∃ after', after.Onto ahead tail after' ∧
      lexis.headAt? mode p' = some (name.map (·.shift ahead), opener.shift ahead, after') := by
  simp only [headAt?] at head
  split_ifs at head with opens text attached
  · obtain ⟨rfl, rfl, rfl⟩ : none = name ∧ _ = opener ∧ _ = after := by simpa using head
    have first := extend.read_of_kind onto meets.1 opens rfl
    refine ⟨_, first.after, ?_⟩
    rw [← first.kind] at opens
    simp only [headAt?, if_pos opens]
    rw [first.token]
    rfl
  · obtain ⟨rfl, rfl, rfl⟩ : some _ = name ∧ _ = opener ∧ _ = after := by simpa using head
    have first := extend.read_of_kind onto meets.1 text rfl
    have second := (extend.lookBehind meets text first).resolve_right fun ended => by
      rw [ended.1] at attached
      cases attached
    refine ⟨_, second.after, ?_⟩
    simp only [headAt?, first.kind, if_neg opens, if_pos text]
    rw [second.token, first.token, attached_shift, if_pos attached]
    rfl

/-- Where no operator of a group is, none is in the longer text. -/
lemma Extends.operatorAt?_none (extend : lexis.Extends tail) (onto : p.Onto ahead tail p')
    {group : PriorityGroup} (met : lexis.admits (lexis.read skipBreaks .operation p))
    (more : skipBreaks = false ∨ (lexis.read skipBreaks .operation p).token.kind ≠ .endOfInput)
    (absent : lexis.operatorAt? group skipBreaks p = none) :
    lexis.operatorAt? group skipBreaks p' = none ∧
      lexis.admits (lexis.read skipBreaks .operation p') := by
  rcases extend.look onto met with same | ⟨ended, breaks⟩
  · refine ⟨?_, same.met⟩
    simp only [operatorAt?, same.token, Token.shift] at absent ⊢
    split_ifs at absent ⊢
    · exact Option.map_eq_none_iff.mpr (Option.map_eq_none_iff.mp absent)
    · rfl
  · obtain ⟨kind, met⟩ := breaks (more.resolve_right fun more => more ended)
    exact ⟨by simp [operatorAt?, kind], met⟩

/-- Where an operator of a group is, it is in the longer text. -/
lemma Extends.operatorAt?_some (extend : lexis.Extends tail) (onto : p.Onto ahead tail p')
    {group : PriorityGroup} {op : OperatorDefinition} {after : Place}
    (met : lexis.admits (lexis.read skipBreaks .operation p))
    (found : lexis.operatorAt? group skipBreaks p = some (op, after)) :
    ∃ after', after.Onto ahead tail after' ∧
      lexis.operatorAt? group skipBreaks p' = some (op, after') ∧
      lexis.admits (lexis.read skipBreaks .operation p') := by
  simp only [operatorAt?] at found
  split_ifs at found with kind
  obtain ⟨registered, hfind, same⟩ := Option.map_eq_some_iff.mp found
  obtain ⟨rfl, rfl⟩ := Prod.mk.inj same
  have same := extend.read onto met fun ended => by simp [ended] at kind
  refine ⟨_, same.after, ?_, same.met⟩
  simp only [operatorAt?, same.token, Token.shift]
  rw [if_pos kind, hfind]
  rfl

/-- What is behind an element is the same in the longer text. -/
lemma Extends.separated (extend : lexis.Extends tail) (onto : p.Onto ahead tail p')
    {closer : TokenKind} {after : Place} (closes : closer ≠ .endOfInput)
    (separated : lexis.Separated mode closer p after) :
    ∃ after', after.Onto ahead tail after' ∧ lexis.Separated mode closer p' after' := by
  obtain ⟨met, ⟨kind, rfl⟩ | ⟨kind, rfl⟩⟩ := separated
  · have same := extend.read onto met fun ended => by simp [ended] at kind
    exact ⟨_, same.after, same.met, .inl ⟨by rwa [same.kind], rfl⟩⟩
  · have same := extend.read onto met fun ended => closes (kind.symm.trans ended)
    exact ⟨p', onto, same.met, .inr ⟨same.kind.trans kind, rfl⟩⟩

/-! ## Values -/

lemma moreNames {mode : Mode} (reads : ReadsAtoms mode)
    (more : (lexis.read true mode p).token.kind ≠ .endOfInput) :
    (lexis.read true mode.ofNames p).token.kind ≠ .endOfInput := by
  rcases reads with rfl | rfl
  · exact fun ended => more ((lex_of_word _ _ _ _ _).1 ended)
  · exact more

mutual

/-- **A value of the text is one of the longer text.** -/
theorem Atom.onto (extend : lexis.Extends tail) {expands : Bool} {phrase : Phrase}
    {p p' q : Place} : {mode : Mode} → Atom lexis mode expands p phrase q → ReadsAtoms mode →
      p.Onto ahead tail p' →
        ∃ q', q.Onto ahead tail q' ∧ Atom lexis mode expands p' (phrase.shift ahead) q'
  | mode, .word head meets text met, reads, onto => by
    have same := extend.read_of_kind onto met text rfl
    have more := moreNames reads fun ended => by
      rw [ended] at text
      cases text
    have atom : Atom lexis mode expands p' _ _ := .word
      (extend.headAt?_none onto meets more head) (extend.meetsHead onto meets more)
      (by rwa [same.kind]) same.met
    rw [same.token] at atom
    exact ⟨_, same.after, atom⟩
  | mode, .object head meets kind content, reads, onto => by
    obtain ⟨after', moved, head'⟩ := extend.headAt?_some onto meets head
    obtain ⟨q', moved, content'⟩ := Entries.onto extend content moved
    exact ⟨q', moved, .object head' (extend.meetsHead onto meets (more_of_headAt? head)) kind content'⟩
  | mode, .list head meets kind content, reads, onto => by
    obtain ⟨after', moved, head'⟩ := extend.headAt?_some onto meets head
    obtain ⟨q', moved, content'⟩ := Elements.onto extend content rfl moved
    exact ⟨q', moved, .list head' (extend.meetsHead onto meets (more_of_headAt? head)) kind content'⟩
  | mode, .operation head meets kind content, reads, onto => by
    obtain ⟨after', moved, head'⟩ := extend.headAt?_some onto meets head
    obtain ⟨q', moved, content'⟩ := Elements.onto extend content rfl moved
    exact ⟨q', moved,
      .operation head' (extend.meetsHead onto meets (more_of_headAt? head)) kind content'⟩

theorem Entries.onto (extend : lexis.Extends tail) {entries : List (Token × Phrase)} {stop : Nat}
    {p p' q : Place} : Entries lexis p entries stop q → p.Onto ahead tail p' →
      ∃ q', q.Onto ahead tail q' ∧
        Entries lexis p' (Phrase.shiftEntries ahead entries) (stop + ahead) q'
  | .done closer met, onto => by
    have same := extend.read onto met (by rw [closer]; decide)
    have entries := Entries.done (same.kind.trans closer) same.met
    rw [same.token] at entries
    exact ⟨_, same.after, entries⟩
  | .more text met colon metColon value separated others, onto => by
    have key := extend.read_of_kind onto met text rfl
    have behind : lexis.Same ahead tail (lexis.behindKey p) (lexis.behindKey p') :=
      extend.read key.after metColon (by rw [← behindKey, colon]; decide)
    obtain ⟨p₁', moved, value'⟩ := Atom.onto extend value (.inl rfl) behind.after
    obtain ⟨p₂', moved, separated'⟩ := extend.separated moved (by decide) separated
    obtain ⟨q', moved, others'⟩ := Entries.onto extend others moved
    have entries := Entries.more (by rwa [key.kind]) key.met (behind.kind.trans colon) behind.met
      value' separated' others'
    rw [key.token] at entries
    exact ⟨q', moved, entries⟩

theorem Elements.onto (extend : lexis.Extends tail) {closer : TokenKind} {elements : List Phrase}
    {stop : Nat} {p p' q : Place} : {mode : Mode} → Elements lexis mode closer p elements stop q →
      closer.isCloser → p.Onto ahead tail p' →
        ∃ q', q.Onto ahead tail q' ∧
          Elements lexis mode closer p' (Phrase.shiftElements ahead elements) (stop + ahead) q'
  | mode, .done closed met, closes, onto => by
    have same := extend.read_of_kind onto met (by rwa [closed]) (show TokenKind.isCloser _ = _ from rfl)
    have elements := Elements.done (same.kind.trans closed) same.met
    rw [same.token] at elements
    exact ⟨_, same.after, elements⟩
  | mode, .more met element separated others, closes, onto => by
    have more := (ends_of_beginsElement element.begins closes).2.1
    have ends : closer ≠ .endOfInput := by
      rintro rfl
      cases closes
    obtain ⟨p₁', moved, element'⟩ := Element.onto extend element onto
    obtain ⟨p₂', moved, separated'⟩ := extend.separated moved ends separated
    obtain ⟨q', moved, others'⟩ := Elements.onto extend others closes moved
    exact ⟨q', moved, .more (extend.read onto met more).met element' separated' others'⟩

theorem Element.onto (extend : lexis.Extends tail) {phrase : Phrase} {p p' q : Place} :
    {mode : Mode} → Element lexis mode p phrase q → p.Onto ahead tail p' →
      ∃ q', q.Onto ahead tail q' ∧ Element lexis mode p' (phrase.shift ahead) q'
  | _, .value atom, onto => by
    obtain ⟨q', moved, atom'⟩ := Atom.onto extend atom (.inl rfl) onto
    exact ⟨q', moved, .value atom'⟩
  | _, .expression level, onto => by
    obtain ⟨q', moved, level'⟩ := Level.onto extend level onto
    exact ⟨q', moved, .expression level'⟩

theorem Level.onto (extend : lexis.Extends tail) {expands : Bool} {phrase : Phrase}
    {p p' q : Place} : {groups : List PriorityGroup} → Level lexis groups expands p phrase q →
      p.Onto ahead tail p' →
        ∃ q', q.Onto ahead tail q' ∧ Level lexis groups expands p' (phrase.shift ahead) q'
  | _, .operand atom, onto => by
    obtain ⟨q', moved, atom'⟩ := Atom.onto extend atom (.inr rfl) onto
    exact ⟨q', moved, .operand atom'⟩
  | _, .binary fixity first others, onto => by
    obtain ⟨p₁', moved, first'⟩ := Level.onto extend first onto
    obtain ⟨q', moved, others'⟩ := Tail.onto extend others moved
    exact ⟨q', moved, .binary fixity first' others'⟩
  | _, .postfixed fixity first others, onto => by
    obtain ⟨p₁', moved, first'⟩ := Level.onto extend first onto
    obtain ⟨q', moved, others'⟩ := Postfixes.onto extend others moved
    exact ⟨q', moved, .postfixed fixity first' others'⟩
  | _, .prefixed fixity found met operand, onto => by
    obtain ⟨p₁', moved, found', met'⟩ := extend.operatorAt?_some onto met found
    obtain ⟨q', moved, operand'⟩ := Level.onto extend operand moved
    have level := Level.prefixed fixity found' met' operand'
    rw [onto.carried.offset] at level
    exact ⟨q', moved, level⟩
  | _, .unprefixed fixity absent met operand, onto => by
    have more := (ends_of_beginsElement operand.begins (show TokenKind.rParen.isCloser from rfl)).2.1
    obtain ⟨absent', met'⟩ := extend.operatorAt?_none onto met (.inr more) absent
    obtain ⟨q', moved, operand'⟩ := Level.onto extend operand onto
    exact ⟨q', moved, .unprefixed fixity absent' met' operand'⟩

theorem Tail.onto (extend : lexis.Extends tail) {group : PriorityGroup}
    {tighter : List PriorityGroup} {left phrase : Phrase} {p p' q : Place} :
    Tail lexis group tighter left p phrase q → p.Onto ahead tail p' →
      ∃ q', q.Onto ahead tail q' ∧
        Tail lexis group tighter (left.shift ahead) p' (phrase.shift ahead) q'
  | .done absent met, onto => by
    obtain ⟨absent', met'⟩ := extend.operatorAt?_none onto met (.inl rfl) absent
    exact ⟨p', onto, .done absent' met'⟩
  | .right found met associativity operand, onto => by
    obtain ⟨p₁', moved, found', met'⟩ := extend.operatorAt?_some onto met found
    obtain ⟨q', moved, operand'⟩ := Level.onto extend operand moved
    exact ⟨q', moved, .right found' met' associativity operand'⟩
  | .left found met associativity operand others, onto => by
    obtain ⟨p₁', moved, found', met'⟩ := extend.operatorAt?_some onto met found
    obtain ⟨p₂', moved, operand'⟩ := Level.onto extend operand moved
    obtain ⟨q', moved, others'⟩ := Tail.onto extend others moved
    exact ⟨q', moved, .left found' met' associativity operand' others'⟩

theorem Postfixes.onto (extend : lexis.Extends tail) {group : PriorityGroup}
    {operand phrase : Phrase} {p p' q : Place} :
    Postfixes lexis group operand p phrase q → p.Onto ahead tail p' →
      ∃ q', q.Onto ahead tail q' ∧
        Postfixes lexis group (operand.shift ahead) p' (phrase.shift ahead) q'
  | .done absent met, onto => by
    obtain ⟨absent', met'⟩ := extend.operatorAt?_none onto met (.inl rfl) absent
    exact ⟨p', onto, .done absent' met'⟩
  | .more found met rest, onto => by
    obtain ⟨p₁', moved, found', met'⟩ := extend.operatorAt?_some onto met found
    obtain ⟨q', after, rest'⟩ := Postfixes.onto extend rest moved
    refine ⟨q', after, .more found' met' ?_⟩
    rw [moved.carried.offset]
    exact rest'

end

end Lexis

end TreeLang
