import TreeLang.Proofs.Following
import TreeLang.Proofs.Operators

/-!
# Well-formed texts are read

Where the rules say that a phrase is read from one place to another, the parser moves from the one
place to the other and makes the nodes of that phrase.  In particular it never runs into its bound:
every token it takes pays for the calls up to the next one.

* `groupContent`, `parseElement`, `parseGroup?_succ` — the parser cut into its steps.
* `Lexis.cost` — what the text in front of a place may cost.
* `Level.shortens`, `Level.begins`, … — where a phrase ends, and what it begins with.
* **`Atom.runs`**, `Level.runs`, `Elements.runs`, `Entries.runs` — the parser follows the rules.
-/

namespace TreeLang

/-! ## The parser in steps -/

namespace Parser

variable (options : CompileOptions)

/-- The contents of a group behind its opener, up to its closer. -/
def groupContent (fuel : Nat) (opener : TokenKind) (start : Nat) : Parser GroupContent :=
  let closer := opener.closer?.getD .rParen
  if opener = .lBrace then do
    let (properties, stop) ← parseProperties options fuel start []
    return .properties properties stop
  else if opener = .lBracket then do
    let (values, stop) ← parseElements options fuel start .value closer []
    return .values values false stop
  else do
    let (values, stop) ← parseElements options fuel start .operation closer []
    return .values values true stop

/-- An element of a list or an operation. -/
def parseElement (fuel : Nat) (mode : Mode) : Parser Node :=
  if mode = .operation then parseExpression options fuel else parseValue options fuel

/-- A group whose head was read. -/
def groupBehind (fuel : Nat) (head : Head) : Parser Node := do
  let reference ← head.reference
  await (head.opener.kind.closer?.getD .rParen)
  let content ← groupContent options fuel head.opener.kind head.start
  settle
  completeGroup options head.name head.start head.expands reference content

lemma parseGroup?_succ (fuel : Nat) (mode : Mode) (expands : Bool) :
    parseGroup? options (fuel + 1) mode expands = (do
      match ← groupHead? mode with
      | none => return none
      | some (name, opener) =>
        return some (← groupBehind options fuel ⟨name, opener, expands⟩)) := by
  rw [parseGroup?]
  congr 1
  funext head
  match head with
  | none => rfl
  | some (none, opener) =>
    simp only [groupBehind, Head.reference, groupContent, pure_bind, bind_assoc]
    congr 1
    funext _
    split_ifs <;> simp only [bind_assoc, pure_bind] <;> rfl
  | some (some name, opener) =>
    by_cases kind : name.kind = .literal
    all_goals
      simp only [groupBehind, Head.reference, groupContent, kind, if_true, if_false, pure_bind,
        bind_assoc]
    · congr 1
      funext reference
      congr 1
      funext _
      split_ifs <;> simp only [bind_assoc, pure_bind] <;> rfl
    · congr 1
      funext _
      split_ifs <;> simp only [bind_assoc, pure_bind] <;> rfl

lemma parseElements_succ (fuel start : Nat) (mode : Mode) (closer : TokenKind)
    (elements : List Node) :
    parseElements options (fuel + 1) start mode closer elements = (do
      let token ← peek true mode
      if token.kind = closer then do
        skipToken true mode
        return (elements.reverse, token.stop)
      else if token.kind = .endOfInput || (← closesAwaited token.kind) then do
        complain start (.openGroup closer)
        return (elements.reverse, token.start)
      else if token.kind = .comma then do
        skipToken true mode
        complain token.start .redundantComma
        parseElements options fuel start mode closer elements
      else do
        let element ← parseElement options fuel mode
        separator mode closer
        parseElements options fuel start mode closer (element :: elements)) := by
  rw [parseElements]
  by_cases operation : mode = .operation
  · simp only [parseElement, operation, if_true]
  · simp only [parseElement, operation, if_false]

/-- A value or an operand, by the mode it is read in. -/
def parseAtom (fuel : Nat) (mode : Mode) : Parser Node :=
  if mode = .operation then parseOperand options fuel else parseValue options fuel

end Parser

namespace Lexis

open TreeLang.Parser

variable {lexis : Lexis}

/-! ## Places and costs -/

/-- What a token pays for. -/
def pace (lexis : Lexis) : Nat :=
  lexis.operators.definitions.length + 10

lemma ten_le_pace (lexis : Lexis) : 10 ≤ lexis.pace :=
  Nat.le_add_left _ _

/-- What the text in front of a place pays for. -/
def cost (lexis : Lexis) (place : Place) : Nat :=
  place.rest.length * lexis.pace

lemma cost_le (lexis : Lexis) {p q : Place} (h : q.rest.length ≤ p.rest.length) : lexis.cost q ≤ lexis.cost p :=
  Nat.mul_le_mul_right _ h

lemma cost_lt (lexis : Lexis) {p q : Place} (h : q.rest.length < p.rest.length) :
    lexis.cost q + lexis.pace ≤ lexis.cost p := by
  have step := Nat.mul_le_mul_right lexis.pace (Nat.succ_le_of_lt h)
  rwa [Nat.succ_mul] at step

lemma read_le (skipBreaks : Bool) (mode : Mode) (p : Place) :
    (lexis.read skipBreaks mode p).after.rest.length ≤ p.rest.length :=
  lex_le _ _ _ _ _

lemma read_shortens {skipBreaks : Bool} {mode : Mode} {p : Place}
    (more : (lexis.read skipBreaks mode p).token.kind ≠ .endOfInput) :
    (lexis.read skipBreaks mode p).after.rest.length < p.rest.length :=
  lex_shortens more

lemma behindKey_shortens {p : Place} (colon : (lexis.behindKey p).token.kind = .colon) :
    (lexis.behindKey p).after.rest.length < p.rest.length :=
  Nat.lt_of_lt_of_le (read_shortens (by rw [← behindKey, colon]; decide)) (read_le _ _ _)

lemma headAt?_shortens {mode : Mode} {name : Option Token} {opener : Token} {p after : Place}
    (head : lexis.headAt? mode p = some (name, opener, after)) :
    after.rest.length < p.rest.length := by
  have first : ∀ kind : TokenKind → Bool, kind .endOfInput = false →
      kind (lexis.read true mode p).token.kind →
      (lexis.read true mode p).after.rest.length < p.rest.length := by
    intro kind ends is
    refine read_shortens fun h => ?_
    rw [h, ends] at is
    cases is
  simp only [headAt?] at head
  split_ifs at head with opens text attached
  · obtain ⟨-, -, rfl⟩ : none = name ∧ _ = opener ∧ _ = after := by simpa using head
    exact first _ rfl opens
  · obtain ⟨-, -, rfl⟩ : some _ = name ∧ _ = opener ∧ _ = after := by simpa using head
    exact Nat.lt_of_le_of_lt (read_le _ _ _) (first _ rfl text)

lemma operatorAt?_shortens {group : PriorityGroup} {skipBreaks : Bool} {op : OperatorDefinition}
    {p after : Place} (found : lexis.operatorAt? group skipBreaks p = some (op, after)) :
    after.rest.length < p.rest.length := by
  simp only [operatorAt?] at found
  split_ifs at found with kind
  obtain ⟨_, -, same⟩ := Option.map_eq_some_iff.mp found
  obtain ⟨-, rfl⟩ := Prod.mk.inj same
  refine read_shortens fun h => ?_
  simp [h] at kind

lemma Separated.le {mode : Mode} {closer : TokenKind} {p after : Place}
    (separated : lexis.Separated mode closer p after) : after.rest.length ≤ p.rest.length := by
  obtain ⟨-, ⟨-, rfl⟩ | ⟨-, rfl⟩⟩ := separated
  · exact read_le _ _ _
  · exact Nat.le_refl _

lemma Postfixes.le {group : PriorityGroup} {operand phrase : Phrase} {p q : Place} :
    Postfixes lexis group operand p phrase q → q.rest.length ≤ p.rest.length
  | .done _ _ => Nat.le_refl _
  | .more found _ rest => Nat.le_trans rest.le (Nat.le_of_lt (operatorAt?_shortens found))

mutual

lemma Atom.shortens {mode : Mode} {expands : Bool} {phrase : Phrase} {p q : Place} :
    Atom lexis mode expands p phrase q → q.rest.length < p.rest.length
  | .word _ _ text _ => read_shortens fun h => by simp [h, TokenKind.isText] at text
  | .object head _ _ content => Nat.lt_trans content.shortens (headAt?_shortens head)
  | .list head _ _ content => Nat.lt_trans (content.shortens rfl) (headAt?_shortens head)
  | .operation head _ _ content => Nat.lt_trans (content.shortens rfl) (headAt?_shortens head)

lemma Entries.shortens {entries : List (Token × Phrase)} {stop : Nat} {p q : Place} :
    Entries lexis p entries stop q → q.rest.length < p.rest.length
  | .done closer _ => read_shortens fun h => by simp [h] at closer
  | .more _ _ colon _ value separated others =>
    Nat.lt_trans others.shortens <| Nat.lt_of_le_of_lt separated.le <|
      Nat.lt_trans value.shortens (behindKey_shortens colon)

lemma Elements.shortens {mode : Mode} {closer : TokenKind} {elements : List Phrase} {stop : Nat}
    {p q : Place} : Elements lexis mode closer p elements stop q → closer.isCloser →
      q.rest.length < p.rest.length
  | .done closed _, closes => read_shortens fun h => by
    rw [← closed, h] at closes
    cases closes
  | .more _ element separated others, closes =>
    Nat.lt_trans (others.shortens closes) (Nat.lt_of_le_of_lt separated.le element.shortens)

lemma Element.shortens {mode : Mode} {phrase : Phrase} {p q : Place} :
    Element lexis mode p phrase q → q.rest.length < p.rest.length
  | .value atom => atom.shortens
  | .expression level => level.shortens

lemma Level.shortens {groups : List PriorityGroup} {expands : Bool} {phrase : Phrase}
    {p q : Place} : Level lexis groups expands p phrase q → q.rest.length < p.rest.length
  | .operand atom => atom.shortens
  | .binary _ first others => Nat.lt_of_le_of_lt others.le first.shortens
  | .postfixed _ first others => Nat.lt_of_le_of_lt others.le first.shortens
  | .prefixed _ found _ operand => Nat.lt_trans operand.shortens (operatorAt?_shortens found)
  | .unprefixed _ _ _ operand => operand.shortens

lemma Tail.le {group : PriorityGroup} {tighter : List PriorityGroup} {left phrase : Phrase}
    {p q : Place} : Tail lexis group tighter left p phrase q → q.rest.length ≤ p.rest.length
  | .done _ _ => Nat.le_refl _
  | .right found _ _ operand =>
    Nat.le_of_lt (Nat.lt_trans operand.shortens (operatorAt?_shortens found))
  | .left found _ _ operand others =>
    Nat.le_trans others.le <|
      Nat.le_of_lt (Nat.lt_trans operand.shortens (operatorAt?_shortens found))

end

/-! ## What a phrase begins with

A group ends where its closer stands, so what begins an element must not look like the end of the
group or like a separator.
-/

/-- What may begin an element. -/
def beginsElement (kind : TokenKind) : Bool :=
  kind.isOpener || kind.isText || kind = .operator || kind = .keyword

lemma ends_of_beginsElement {kind closer : TokenKind} (begins : beginsElement kind)
    (closes : closer.isCloser) :
    kind ≠ closer ∧ kind ≠ .endOfInput ∧ kind.isCloser = false ∧ kind ≠ .comma := by
  cases kind <;> cases closer <;> simp_all [beginsElement, TokenKind.isOpener, TokenKind.isText,
    TokenKind.isCloser]

/-- The modes of values and of operands. -/
def ReadsAtoms (mode : Mode) : Prop :=
  mode = .value ∨ mode = .operation

/-- Where a group begins, its name or its opener does. -/
lemma begins_of_headAt? {mode : Mode} {p : Place} {head : Option Token × Token × Place}
    (reads : ReadsAtoms mode) (found : lexis.headAt? mode.ofNames p = some head) :
    (lexis.read true mode p).token.kind.isOpener ∨ (lexis.read true mode p).token.kind.isText := by
  have first : (lexis.read true mode.ofNames p).token.kind.isOpener ∨
      (lexis.read true mode.ofNames p).token.kind.isText := by
    simp only [headAt?] at found
    split_ifs at found with opens text
    · exact .inl opens
    · exact .inr text
  rcases reads with rfl | rfl
  · have values := begins_value lexis.operators lexis.policy true p
    exact first.imp values.1 values.2
  · exact first

lemma Atom.begins {mode : Mode} {expands : Bool} {phrase : Phrase} {p q : Place}
    (atom : Atom lexis mode expands p phrase q) (reads : ReadsAtoms mode) :
    beginsElement (lexis.read true mode p).token.kind := by
  have named : ∀ head, lexis.headAt? mode.ofNames p = some head →
      beginsElement (lexis.read true mode p).token.kind := by
    intro head found
    simp only [beginsElement, Bool.or_eq_true]
    exact .inl (.inl (begins_of_headAt? reads found))
  cases atom with
  | word _ _ text _ => simp [beginsElement, text]
  | object head => exact named _ head
  | list head => exact named _ head
  | operation head => exact named _ head

lemma begins_of_operatorAt? {group : PriorityGroup} {skipBreaks : Bool} {p q : Place}
    {op : OperatorDefinition} (found : lexis.operatorAt? group skipBreaks p = some (op, q)) :
    beginsElement (lexis.read skipBreaks .operation p).token.kind := by
  simp only [operatorAt?] at found
  split_ifs at found with kind
  simp only [beginsElement, Bool.or_eq_true] at kind ⊢
  tauto

lemma Level.begins {groups : List PriorityGroup} {expands : Bool} {phrase : Phrase}
    {p q : Place} :
    Level lexis groups expands p phrase q →
      beginsElement (lexis.read true .operation p).token.kind
  | .operand atom => atom.begins (.inr rfl)
  | .binary _ first _ => first.begins
  | .postfixed _ first _ => first.begins
  | .unprefixed _ _ _ inner => inner.begins
  | .prefixed _ found _ _ => begins_of_operatorAt? found

lemma Element.begins {mode : Mode} {phrase : Phrase} {p q : Place} :
    Element lexis mode p phrase q → beginsElement (lexis.read true mode p).token.kind
  | .value atom => atom.begins (.inl rfl)
  | .expression level => level.begins

/-! ## Operands that are made already -/

variable {options : CompileOptions} {s t : ParserState} {node : Node}

/-- When the nodes of a phrase were made, so were those of the operand it begins with. -/
lemma Postfixes.operand_made {group : PriorityGroup} {operand phrase : Phrase} {p q : Place} :
    Postfixes lexis group operand p phrase q → phrase.make options s = .ok node t →
      ∃ first u, operand.make options s = .ok first u
  | .done _ _, made => ⟨node, t, made⟩
  | .more _ _ rest, made => by
    obtain ⟨_, _, made⟩ := rest.operand_made made
    rw [Phrase.make] at made
    obtain ⟨first, u, made, -⟩ := bind_eq_ok.mp made
    exact ⟨first, u, made⟩

lemma Tail.left_made {group : PriorityGroup} {tighter : List PriorityGroup} {left phrase : Phrase}
    {p q : Place} :
    Tail lexis group tighter left p phrase q → phrase.make options s = .ok node t →
      ∃ first u, left.make options s = .ok first u
  | .done _ _, made => ⟨node, t, made⟩
  | .right _ _ _ _, made => by
    rw [Phrase.make] at made
    obtain ⟨first, u, made, -⟩ := bind_eq_ok.mp made
    exact ⟨first, u, made⟩
  | .left _ _ _ _ others, made => by
    obtain ⟨_, _, made⟩ := others.left_made made
    rw [Phrase.make] at made
    obtain ⟨first, u, made, -⟩ := bind_eq_ok.mp made
    exact ⟨first, u, made⟩

/-! ## The parser follows the rules -/

lemma MeetsHead.silent (silent : lexis.Silent) {mode : Mode} {p : Place}
    (meets : lexis.MeetsHead mode p) : lexis.SilentHead mode p :=
  ⟨silent _ meets.1, fun text => silent _ (meets.2 text)⟩

/-- Behind its head a group is followed to its end, if its content is. -/
lemma runs_groupBehind {head : Head} {content : GroupContent} {reference : Option Nat}
    {s₁ s₂ : ParserState} {closer : TokenKind} {p q : Place} {fuel : Nat}
    (closing : head.opener.kind.closer? = some closer)
    (named : head.reference s = .ok reference s₁)
    (inside : Runs (groupContent options fuel head.opener.kind head.start)
      ((s₁.awaiting closer).moveTo p) content ((s₂.awaiting closer).moveTo q))
    (completed : completeGroup options head.name head.start head.expands reference content s₂
      = .ok node t) :
    Runs (groupBehind options fuel head) (s.moveTo p) node (t.moveTo q) := by
  refine ((nodewise_reference head).runs_moveTo named p).bind ?_
  rw [closing, Option.getD_some]
  refine (runs_await _ _).bind (inside.bind ((runs_settle _ (s₂.moveTo q)).bind ?_))
  exact (nodewise_completeGroup _ _ _ _ _ _).runs_moveTo completed q

/-- A group is followed from its name to its closer, if its content is followed. -/
lemma runs_atom_group (governs : lexis.Governs s) (rests : s.suppressed = false) {mode : Mode}
    (reads : ReadsAtoms mode) {name : Option Token} {opener : Token} {expands : Bool}
    {content : GroupContent} {reference : Option Nat} {s₁ s₂ : ParserState} {closer : TokenKind}
    {p p₁ q : Place} {fuel : Nat} (silent : lexis.SilentHead mode.ofNames p)
    (head : lexis.headAt? mode.ofNames p = some (name, opener, p₁))
    (closing : opener.kind.closer? = some closer)
    (named : (Head.mk name opener expands).reference s = .ok reference s₁)
    (inside : lexis.Governs (s₁.awaiting closer) → (s₁.awaiting closer).suppressed = false →
      Runs (groupContent options fuel opener.kind (Head.mk name opener expands).start)
        ((s₁.awaiting closer).moveTo p₁) content ((s₂.awaiting closer).moveTo q))
    (completed : completeGroup options name (Head.mk name opener expands).start expands reference
      content s₂ = .ok node t) :
    Runs (parseAtom options (fuel + 2) mode) ((s.suppress !expands).moveTo p) node
      (t.moveTo q) := by
  have nodewise := nodewise_reference ⟨name, opener, expands⟩
  have group := runs_groupBehind closing named
    (inside ((governs.made nodewise named).awaiting closer)
      ((nodewise.suppressed_eq named).trans rests)) completed
  have found : Runs (parseGroup? options (fuel + 1) mode.ofNames expands) (s.moveTo p) (some node)
      (t.moveTo q) := by
    rw [parseGroup?_succ]
    refine (governs.runs_groupHead?_some silent head).bind ?_
    exact group.bind (Runs.pure _ _)
  have taken : Runs takeSuppressed ((s.suppress !expands).moveTo p) (!expands) (s.moveTo p) :=
    runs_takeSuppressed (s := s.moveTo p) (!expands) rests
  rcases reads with rfl | rfl
  · rw [parseAtom, if_neg (by decide), parseValue]
    refine taken.bind ?_
    simp only [Bool.not_not]
    exact found.bind (Runs.pure _ _)
  · rw [parseAtom, if_pos rfl, parseOperand]
    refine taken.bind ?_
    simp only [Bool.not_not]
    exact found.bind (Runs.pure _ _)

/-- A word or a quoted text is followed to its end. -/
lemma runs_atom_word (governs : lexis.Governs s) (rests : s.suppressed = false) {mode : Mode}
    (reads : ReadsAtoms mode) {expands : Bool} {p : Place} {fuel : Nat}
    (silentHead : lexis.SilentHead mode.ofNames p) (head : lexis.headAt? mode.ofNames p = none)
    (silent : (lexis.read true mode p).reports = [])
    (text : (lexis.read true mode p).token.kind.isText)
    (made : primitive (lexis.read true mode p).token expands s = .ok node t) :
    Runs (parseAtom options (fuel + 2) mode) ((s.suppress !expands).moveTo p) node
      (t.moveTo (lexis.read true mode p).after) := by
  have absent : Runs (parseGroup? options (fuel + 1) mode.ofNames expands) (s.moveTo p) none
      (s.moveTo p) := by
    rw [parseGroup?_succ]
    exact (governs.runs_groupHead?_none silentHead head).bind (Runs.pure _ _)
  have taken : Runs takeSuppressed ((s.suppress !expands).moveTo p) (!expands) (s.moveTo p) :=
    runs_takeSuppressed (s := s.moveTo p) (!expands) rests
  have word : Runs (do skipToken true mode; primitive (lexis.read true mode p).token expands)
      (s.moveTo p) node (t.moveTo (lexis.read true mode p).after) :=
    (governs.runs_skipToken silent).bind ((nodewise_primitive _ _).runs_moveTo made _)
  rcases reads with rfl | rfl
  · rw [parseAtom, if_neg (by decide), parseValue]
    refine taken.bind ?_
    simp only [Bool.not_not]
    refine absent.bind ((governs.runs_peek silent).bind ?_)
    rw [if_pos text]
    exact word
  · rw [parseAtom, if_pos rfl, parseOperand]
    refine taken.bind ?_
    simp only [Bool.not_not]
    refine absent.bind ((governs.runs_peek silent).bind ?_)
    rw [if_pos text]
    exact word

/-- The groups of operators that are met while the parser goes through some of them are no more
than a token pays for. -/
def Affords (lexis : Lexis) (groups : List PriorityGroup) : Prop :=
  groups.length + 10 ≤ lexis.pace

lemma Affords.tail {group : PriorityGroup} {tighter : List PriorityGroup}
    (affords : lexis.Affords (group :: tighter)) : lexis.Affords tighter := by
  rw [Affords, List.length_cons] at affords
  rw [Affords]
  omega

lemma affords_priorityGroups (lexis : Lexis) : lexis.Affords lexis.operators.priorityGroups :=
  Nat.add_le_add_right (OperatorRegistry.length_priorityGroups_le _) 10

lemma suppress_of_rests (rests : s.suppressed = false) : s.suppress false = s := by
  cases s
  simp_all [ParserState.suppress]

/-- Postfix operators behind an operand are read as the rules say. -/
theorem Postfixes.runs (silent : lexis.Silent) {group : PriorityGroup} {operand phrase : Phrase}
    {p q : Place} {s u t : ParserState} {first node : Node} {fuel : Nat} :
    Postfixes lexis group operand p phrase q → lexis.Governs s → s.suppressed = false →
      operand.make options s = .ok first u → phrase.make options s = .ok node t →
      lexis.cost p + 1 ≤ fuel + lexis.cost q →
      Runs (postfixes fuel group first) (u.moveTo p) node (t.moveTo q)
  | .done absent met, governs, rests, begun, made, enough => by
    obtain ⟨rfl, rfl⟩ : first = node ∧ u = t := by simpa [begun] using made
    obtain ⟨fuel, rfl⟩ : ∃ f, fuel = f + 1 := ⟨fuel - 1, by omega⟩
    have governs := governs.made (nodewise_make options _) begun
    rw [postfixes]
    exact (governs.runs_operatorOf?_none (silent _ met) absent).bind (Runs.pure _ _)
  | .more found met rest, governs, rests, begun, made, enough => by
    have taken := lexis.cost_lt (operatorAt?_shortens found)
    have ended := lexis.cost_le rest.le
    have pace := lexis.ten_le_pace
    obtain ⟨fuel, rfl⟩ : ∃ f, fuel = f + 1 := ⟨fuel - 1, by omega⟩
    obtain ⟨whole, w, joined⟩ := rest.operand_made made
    have parts := joined
    rw [Phrase.make, bind_ok begun] at parts
    have governs₁ := governs.made (nodewise_make options _) begun
    rw [postfixes]
    refine (governs₁.runs_operatorOf?_some (silent _ met) found).bind ?_
    refine (runs_position _ _).bind ?_
    refine ((nodewise_operatorNode _ _ _).runs_moveTo parts _).bind ?_
    exact rest.runs silent governs rests joined made (by omega)

mutual

/-- **A value or an operand is read as the rules say.** -/
theorem Atom.runs (silent : lexis.Silent) (affords : lexis.Affords lexis.operators.priorityGroups)
    {mode : Mode} {expands : Bool} {phrase : Phrase} {p q : Place} {s t : ParserState}
    {node : Node} {fuel : Nat} :
    Atom lexis mode expands p phrase q → ReadsAtoms mode → lexis.Governs s →
      s.suppressed = false → phrase.make options s = .ok node t →
      lexis.cost p + 2 ≤ fuel + lexis.cost q →
      Runs (parseAtom options fuel mode) ((s.suppress !expands).moveTo p) node (t.moveTo q)
  | .word head meets text met, reads, governs, rests, made, enough => by
    obtain ⟨fuel, rfl⟩ : ∃ f, fuel = f + 2 := by
      have atom : Atom lexis mode expands p _ _ := .word head meets text met
      have paid := lexis.cost_lt atom.shortens
      have pace := lexis.ten_le_pace
      exact ⟨fuel - 2, by omega⟩
    rw [Phrase.make] at made
    exact runs_atom_word governs rests reads (meets.silent silent) head (silent _ met) text made
  | .object head meets kind content, reads, governs, rests, made, enough => by
    have begun := lexis.cost_lt (headAt?_shortens head)
    have ended := lexis.cost_lt content.shortens
    have pace := lexis.ten_le_pace
    obtain ⟨fuel, rfl⟩ : ∃ f, fuel = f + 2 := ⟨fuel - 2, by omega⟩
    rw [Phrase.make] at made
    obtain ⟨reference, s₁, named, made⟩ := bind_eq_ok.mp made
    obtain ⟨properties, s₂, inside, completed⟩ := bind_eq_ok.mp made
    refine runs_atom_group governs rests reads (meets.silent silent) head
      (by rw [kind]; rfl) named (fun governs rests => ?_) completed
    have framed := (nodewise_makeEntries options _ _).framed (framing_awaiting .rBrace) inside
    rw [kind, groupContent, if_pos rfl]
    exact (content.runs silent affords governs rests framed (by omega)).bind (Runs.pure _ _)
  | .list head meets kind content, reads, governs, rests, made, enough => by
    have begun := lexis.cost_lt (headAt?_shortens head)
    have ended := lexis.cost_lt (content.shortens rfl)
    have pace := lexis.ten_le_pace
    obtain ⟨fuel, rfl⟩ : ∃ f, fuel = f + 2 := ⟨fuel - 2, by omega⟩
    rw [Phrase.make] at made
    obtain ⟨reference, s₁, named, made⟩ := bind_eq_ok.mp made
    obtain ⟨nodes, s₂, inside, completed⟩ := bind_eq_ok.mp made
    refine runs_atom_group governs rests reads (meets.silent silent) head
      (by rw [kind]; rfl) named (fun governs rests => ?_) completed
    have framed := (nodewise_makeElements options _).framed (framing_awaiting .rBracket) inside
    rw [kind, groupContent, if_neg (by decide), if_pos rfl]
    exact (content.runs silent affords rfl governs rests framed (by omega)).bind (Runs.pure _ _)
  | .operation head meets kind content, reads, governs, rests, made, enough => by
    have begun := lexis.cost_lt (headAt?_shortens head)
    have ended := lexis.cost_lt (content.shortens rfl)
    have pace := lexis.ten_le_pace
    obtain ⟨fuel, rfl⟩ : ∃ f, fuel = f + 2 := ⟨fuel - 2, by omega⟩
    rw [Phrase.make] at made
    obtain ⟨reference, s₁, named, made⟩ := bind_eq_ok.mp made
    obtain ⟨nodes, s₂, inside, completed⟩ := bind_eq_ok.mp made
    refine runs_atom_group governs rests reads (meets.silent silent) head
      (by rw [kind]; rfl) named (fun governs rests => ?_) completed
    have framed := (nodewise_makeElements options _).framed (framing_awaiting .rParen) inside
    rw [kind, groupContent, if_neg (by decide), if_neg (by decide)]
    exact (content.runs silent affords rfl governs rests framed (by omega)).bind (Runs.pure _ _)

/-- The properties of an object are read as the rules say. -/
theorem Entries.runs (silent : lexis.Silent)
    (affords : lexis.Affords lexis.operators.priorityGroups) {entries : List (Token × Phrase)}
    {stop start : Nat} {p q : Place} {s t : ParserState} {known properties : List (String × Node)}
    {fuel : Nat} :
    Entries lexis p entries stop q → lexis.Governs s → s.suppressed = false →
      Phrase.makeEntries options entries known s = .ok properties t →
      lexis.cost p + 1 ≤ fuel + lexis.cost q →
      Runs (parseProperties options fuel start known) (s.moveTo p) (properties, stop) (t.moveTo q)
  | .done closer met, governs, rests, made, enough => by
    have ended := lexis.cost_lt (Entries.done closer met).shortens
    have pace := lexis.ten_le_pace
    obtain ⟨fuel, rfl⟩ : ∃ f, fuel = f + 1 := ⟨fuel - 1, by omega⟩
    rw [Phrase.makeEntries] at made
    obtain ⟨rfl, rfl⟩ : known = properties ∧ s = t := by simpa [pure, EStateM.pure] using made
    rw [parseProperties]
    refine (governs.runs_peek (silent _ met)).bind ?_
    rw [if_pos closer]
    exact (governs.runs_skipToken (silent _ met)).bind (Runs.pure _ _)
  | .more text met colon metColon value separated others, governs, rests, made, enough => by
    have passed := lexis.cost_le separated.le
    have begun := lexis.cost_lt value.shortens
    have ended := lexis.cost_lt others.shortens
    have taken := lexis.cost_lt (behindKey_shortens colon)
    have pace := lexis.ten_le_pace
    obtain ⟨fuel, rfl⟩ : ∃ f, fuel = f + 1 := ⟨fuel - 1, by omega⟩
    rw [Phrase.makeEntries] at made
    obtain ⟨first, s₁, madeValue, made⟩ := bind_eq_ok.mp made
    obtain ⟨extended, s₂, added, madeRest⟩ := bind_eq_ok.mp made
    have governs₁ := governs.made (nodewise_make options _) madeValue
    have governs₂ := governs₁.made (nodewise_addProperty _ _ _ _) added
    have rests₁ := ((nodewise_make options _).suppressed_eq madeValue).trans rests
    have rests₂ := ((nodewise_addProperty _ _ _ _).suppressed_eq added).trans rests₁
    have value : Runs (parseAtom options fuel .value) _ first _ :=
      value.runs silent affords (.inl rfl) governs rests madeValue (by omega)
    rw [Bool.not_true, suppress_of_rests rests] at value
    have kind : (lexis.read true .key p).token.kind ≠ .rBrace ∧
        (lexis.read true .key p).token.kind ≠ .endOfInput ∧
        (lexis.read true .key p).token.kind.isCloser = false ∧
        (lexis.read true .key p).token.kind ≠ .comma :=
      ends_of_beginsElement (by simp [beginsElement, text]) rfl
    obtain ⟨inside, more, closing, comma⟩ := kind
    rw [parseProperties]
    refine (governs.runs_peek (silent _ met)).bind ?_
    rw [if_neg inside]
    refine (runs_closesAwaited _ _).bind ?_
    rw [if_neg (by simp [more, closing]), if_neg comma, if_pos text]
    refine (governs.runs_skipToken (silent _ met)).bind ?_
    refine (governs.runs_peek (silent (lexis.behindKey p) metColon)).bind ?_
    rw [behindKey] at colon
    rw [if_neg (not_not_intro colon)]
    refine (governs.runs_skipToken (silent (lexis.behindKey p) metColon)).bind (value.bind ?_)
    refine ((nodewise_addProperty _ _ _ _).runs_moveTo added _).bind ?_
    refine (governs₂.runs_separator rfl (silent _ separated.1) separated).bind ?_
    exact others.runs silent affords governs₂ rests₂ madeRest (by omega)

/-- The elements of a group are read as the rules say. -/
theorem Elements.runs (silent : lexis.Silent)
    (affords : lexis.Affords lexis.operators.priorityGroups) {mode : Mode} {closer : TokenKind}
    {elements : List Phrase} {stop start : Nat} {p q : Place} {s t : ParserState}
    {known nodes : List Node} {fuel : Nat} :
    Elements lexis mode closer p elements stop q → closer.isCloser → lexis.Governs s →
      s.suppressed = false → Phrase.makeElements options elements s = .ok nodes t →
      lexis.cost p + 1 ≤ fuel + lexis.cost q →
      Runs (parseElements options fuel start mode closer known) (s.moveTo p)
        (known.reverse ++ nodes, stop) (t.moveTo q)
  | .done closed met, closes, governs, rests, made, enough => by
    have ended := lexis.cost_lt ((Elements.done closed met).shortens closes)
    have pace := lexis.ten_le_pace
    obtain ⟨fuel, rfl⟩ : ∃ f, fuel = f + 1 := ⟨fuel - 1, by omega⟩
    rw [Phrase.makeElements] at made
    obtain ⟨rfl, rfl⟩ : [] = nodes ∧ s = t := by simpa [pure, EStateM.pure] using made
    rw [parseElements_succ]
    refine (governs.runs_peek (silent _ met)).bind ?_
    rw [if_pos closed, List.append_nil]
    exact (governs.runs_skipToken (silent _ met)).bind (Runs.pure _ _)
  | .more met element separated others, closes, governs, rests, made, enough => by
    have begun := lexis.cost_lt element.shortens
    have passed := lexis.cost_le separated.le
    have ended := lexis.cost_lt (others.shortens closes)
    have pace := lexis.ten_le_pace
    obtain ⟨fuel, rfl⟩ : ∃ f, fuel = f + 1 := ⟨fuel - 1, by omega⟩
    rw [Phrase.makeElements] at made
    obtain ⟨first, s₁, begun, made⟩ := bind_eq_ok.mp made
    obtain ⟨further, s₂, madeRest, same⟩ := bind_eq_ok.mp made
    obtain ⟨rfl, rfl⟩ : first :: further = nodes ∧ s₂ = t := by
      simpa [pure, EStateM.pure] using same
    have governs₁ := governs.made (nodewise_make options _) begun
    have rests₁ := ((nodewise_make options _).suppressed_eq begun).trans rests
    obtain ⟨inside, more, closing, comma⟩ := ends_of_beginsElement element.begins closes
    rw [parseElements_succ]
    refine (governs.runs_peek (silent _ met)).bind ?_
    rw [if_neg inside]
    refine (runs_closesAwaited _ _).bind ?_
    rw [if_neg (by simp [more, closing]), if_neg comma]
    refine (element.runs silent affords governs rests begun (by omega)).bind ?_
    refine (governs₁.runs_separator closes (silent _ separated.1) separated).bind ?_
    have others : Runs (parseElements options fuel start mode _ (first :: known)) _ _ _ :=
      others.runs silent affords closes governs₁ rests₁ madeRest (by omega)
    rwa [List.reverse_cons, List.append_assoc] at others

/-- An element is read as the rules say. -/
theorem Element.runs (silent : lexis.Silent)
    (affords : lexis.Affords lexis.operators.priorityGroups) {mode : Mode} {phrase : Phrase}
    {p q : Place} {s t : ParserState} {node : Node} {fuel : Nat} :
    Element lexis mode p phrase q → lexis.Governs s → s.suppressed = false →
      phrase.make options s = .ok node t →
      lexis.cost p + lexis.pace ≤ fuel + 6 + lexis.cost q →
      Runs (parseElement options fuel mode) (s.moveTo p) node (t.moveTo q)
  | .value atom, governs, rests, made, enough => by
    have pace := lexis.ten_le_pace
    have atom : Runs (parseAtom options fuel .value) _ node _ :=
      atom.runs silent affords (.inl rfl) governs rests made (by omega)
    rwa [Bool.not_true, suppress_of_rests rests] at atom
  | .expression level, governs, rests, made, enough => by
    have few := affords
    rw [Affords] at few
    have ended := lexis.cost_lt level.shortens
    obtain ⟨fuel, rfl⟩ : ∃ f, fuel = f + 1 := ⟨fuel - 1, by omega⟩
    have level : Runs (parseLevel options fuel lexis.operators.priorityGroups) _ node _ :=
      level.runs silent affords affords governs rests made (by omega)
    rw [Bool.not_true, suppress_of_rests rests] at level
    rw [parseElement, if_pos rfl, parseExpression]
    refine Runs.get fun s₁ hbase => ?_
    have operators : s₁.visible.operators = lexis.operators :=
      (congrArg (·.visible.operators) hbase).trans governs.operators
    rwa [operators]

/-- **An expression is read as the rules say.** -/
theorem Level.runs (silent : lexis.Silent) (affords : lexis.Affords lexis.operators.priorityGroups)
    {groups : List PriorityGroup} {expands : Bool} {phrase : Phrase} {p q : Place}
    {s t : ParserState} {node : Node} {fuel : Nat} :
    Level lexis groups expands p phrase q → lexis.Affords groups → lexis.Governs s →
      s.suppressed = false → phrase.make options s = .ok node t →
      lexis.cost p + (groups.length + 3) ≤ fuel + lexis.cost q →
      Runs (parseLevel options fuel groups) ((s.suppress !expands).moveTo p) node (t.moveTo q)
  | .operand atom, affordsGroups, governs, rests, made, enough => by
    have ended := lexis.cost_lt atom.shortens
    obtain ⟨fuel, rfl⟩ : ∃ f, fuel = f + 1 := ⟨fuel - 1, by
      simp only [List.length_nil] at enough
      have pace := lexis.ten_le_pace
      omega⟩
    rw [parseLevel]
    exact atom.runs silent affords (.inr rfl) governs rests made
      (by simp only [List.length_nil] at enough; omega)
  | .binary fixity first others, affordsGroups, governs, rests, made, enough => by
    have begun := lexis.cost_lt first.shortens
    have ended := lexis.cost_le others.le
    obtain ⟨left, u, begunLeft⟩ := others.left_made made
    rw [List.length_cons] at enough
    have pace := lexis.ten_le_pace
    obtain ⟨fuel, rfl⟩ : ∃ f, fuel = f + 1 := ⟨fuel - 1, by omega⟩
    simp only [parseLevel, fixity]
    refine (first.runs silent affords affordsGroups.tail governs rests begunLeft (by omega)).bind ?_
    exact others.runs silent affords affordsGroups governs rests begunLeft made (by omega)
  | .postfixed fixity first others, affordsGroups, governs, rests, made, enough => by
    have begun := lexis.cost_lt first.shortens
    have ended := lexis.cost_le others.le
    obtain ⟨left, u, begunLeft⟩ := others.operand_made made
    rw [List.length_cons] at enough
    have pace := lexis.ten_le_pace
    obtain ⟨fuel, rfl⟩ : ∃ f, fuel = f + 1 := ⟨fuel - 1, by omega⟩
    simp only [parseLevel, fixity]
    refine (first.runs silent affords affordsGroups.tail governs rests begunLeft (by omega)).bind ?_
    exact others.runs silent governs rests begunLeft made (by omega)
  | .prefixed fixity found met inner, affordsGroups, governs, rests, made, enough => by
    have begun := lexis.cost_lt (operatorAt?_shortens found)
    have ended := lexis.cost_lt inner.shortens
    rw [List.length_cons] at enough
    have pace := lexis.ten_le_pace
    obtain ⟨fuel, rfl⟩ : ∃ f, fuel = f + 1 := ⟨fuel - 1, by omega⟩
    rw [Phrase.make] at made
    obtain ⟨operand, u, begunInner, made⟩ := bind_eq_ok.mp made
    simp only [parseLevel, fixity]
    refine (runs_position _ _).bind ?_
    refine ((governs.suppress _).runs_operatorOf?_some (silent _ met) found).bind ?_
    refine (inner.runs silent affords affordsGroups governs rests begunInner ?_).bind ?_
    · rw [List.length_cons]
      omega
    · exact (nodewise_operatorNode _ _ _).runs_moveTo made _
  | .unprefixed fixity absent met inner, affordsGroups, governs, rests, made, enough => by
    rw [List.length_cons] at enough
    obtain ⟨fuel, rfl⟩ : ∃ f, fuel = f + 1 := ⟨fuel - 1, by
      have ended := lexis.cost_lt inner.shortens
      have pace := lexis.ten_le_pace
      omega⟩
    simp only [parseLevel, fixity]
    refine (runs_position _ _).bind ?_
    refine ((governs.suppress _).runs_operatorOf?_none (silent _ met) absent).bind ?_
    exact inner.runs silent affords affordsGroups.tail governs rests made (by omega)

/-- The binary operators behind an operand are read as the rules say. -/
theorem Tail.runs (silent : lexis.Silent) (affords : lexis.Affords lexis.operators.priorityGroups)
    {group : PriorityGroup} {tighter : List PriorityGroup} {left phrase : Phrase} {p q : Place}
    {s u t : ParserState} {first node : Node} {fuel : Nat} :
    Tail lexis group tighter left p phrase q → lexis.Affords (group :: tighter) →
      lexis.Governs s → s.suppressed = false → left.make options s = .ok first u →
      phrase.make options s = .ok node t → lexis.cost p + 1 ≤ fuel + lexis.cost q →
      Runs (parseBinary options fuel group tighter first) (u.moveTo p) node (t.moveTo q)
  | .done absent met, affordsGroups, governs, rests, begun, made, enough => by
    obtain ⟨rfl, rfl⟩ : first = node ∧ u = t := by simpa [begun] using made
    obtain ⟨fuel, rfl⟩ : ∃ f, fuel = f + 1 := ⟨fuel - 1, by omega⟩
    have governs := governs.made (nodewise_make options _) begun
    rw [parseBinary]
    exact (governs.runs_operatorOf?_none (silent _ met) absent).bind (Runs.pure _ _)
  | .right found met associativity inner, affordsGroups, governs, rests, begun, made, enough => by
    have taken := lexis.cost_lt (operatorAt?_shortens found)
    have ended := lexis.cost_lt inner.shortens
    have few := affordsGroups
    rw [Affords] at few
    obtain ⟨fuel, rfl⟩ : ∃ f, fuel = f + 1 := ⟨fuel - 1, by omega⟩
    rw [Phrase.make, bind_ok begun] at made
    obtain ⟨right, v, begunInner, made⟩ := bind_eq_ok.mp made
    have governs := governs.made (nodewise_make options _) begun
    have rests := ((nodewise_make options _).suppressed_eq begun).trans rests
    have inner : Runs (parseLevel options fuel (group :: tighter)) _ right _ :=
      inner.runs silent affords affordsGroups governs rests begunInner
        (by rw [List.length_cons] at few ⊢; omega)
    rw [Bool.not_true, suppress_of_rests rests] at inner
    rw [parseBinary]
    refine (governs.runs_operatorOf?_some (silent _ met) found).bind ?_
    simp only [associativity, if_true]
    exact inner.bind ((nodewise_binaryNode _ _ _).runs_moveTo made _)
  | .left found met associativity inner others, affordsGroups, governs, rests, begun, made,
      enough => by
    have taken := lexis.cost_lt (operatorAt?_shortens found)
    have begunCost := lexis.cost_lt inner.shortens
    have ended := lexis.cost_le others.le
    have few := affordsGroups
    rw [Affords, List.length_cons] at few
    obtain ⟨fuel, rfl⟩ : ∃ f, fuel = f + 1 := ⟨fuel - 1, by omega⟩
    obtain ⟨whole, w, joined⟩ := others.left_made made
    have parts := joined
    rw [Phrase.make, bind_ok begun] at parts
    obtain ⟨right, v, begunInner, completed⟩ := bind_eq_ok.mp parts
    have governs₁ := governs.made (nodewise_make options _) begun
    have rests₁ := ((nodewise_make options _).suppressed_eq begun).trans rests
    have rests₂ := ((nodewise_make options _).suppressed_eq begunInner).trans rests₁
    have inner : Runs (parseLevel options fuel tighter) _ right _ :=
      inner.runs silent affords affordsGroups.tail governs₁ rests₁ begunInner (by omega)
    rw [Bool.not_not] at inner
    rw [parseBinary]
    refine (governs₁.runs_operatorOf?_some (silent _ met) found).bind ?_
    simp only [associativity, Bool.false_eq_true, if_false]
    refine (runs_setSuppressed _ _).bind (inner.bind ?_)
    refine (runs_setSuppressed false _).bind ?_
    rw [suppress_of_rests (show (v.moveTo _).suppressed = false from rests₂)]
    refine ((nodewise_binaryNode _ _ _).runs_moveTo completed _).bind ?_
    exact others.runs silent affords affordsGroups governs rests joined made (by omega)

end

end Lexis

end TreeLang
