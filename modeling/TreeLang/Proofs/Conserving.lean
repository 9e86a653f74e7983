import TreeLang.Proofs.Enclosing
import TreeLang.Proofs.Tracing

/-!
# What is taken is what is made

A node remembers the texts it was made of: its name, its keys, its value.  Where nothing is wrong with a
source and nothing in it is joined by operators, none of the texts that the parser takes is dropped on
the way, merged with another one or moved elsewhere: read off the tree from the root on, they are the
texts of the tokens in the order in which those were taken.

Operations are left out, since an accessor turns the text of its member around; their contents are not
looked into, once it is known that a parenthesis was taken.

* `Node.texts`, `Token.texts`, `textsOf` — the texts of a node, of a token and of some tokens.
* **`Conserves`** — what a step tells of the texts it takes, where nothing was reported.
* `leaves_completeGroup_texts`, … — nodes have the texts that they are made of.
* **`Reading.conserves_within`** — values, groups and their contents.
* `texts_parseAll`, **`compile_conserves`** — sources.
-/

namespace TreeLang

/-! ## Texts -/

/-- A text, unless it is empty. -/
def mention (text : String) : List String :=
  if text.isEmpty then [] else [text]

namespace Node

mutual

/-- **The texts of a node that are not empty**, from the root on: its name, then each key with what
belongs to it, or each value. -/
def texts : Node → List String
  | .primitive value _ => mention value
  | .object name properties _ => mention name ++ propertyTexts properties
  | .list name values _ _ => mention name ++ valueTexts values

/-- The texts of properties. -/
def propertyTexts : List (String × Node) → List String
  | [] => []
  | (key, value) :: rest => mention key ++ value.texts ++ propertyTexts rest

/-- The texts of values. -/
def valueTexts : List Node → List String
  | [] => []
  | value :: rest => value.texts ++ valueTexts rest

end

lemma propertyTexts_append (first second : List (String × Node)) :
    propertyTexts (first ++ second) = propertyTexts first ++ propertyTexts second := by
  induction first with
  | nil => rfl
  | cons property rest ih => simp [propertyTexts, ih]

lemma valueTexts_append (first second : List Node) :
    valueTexts (first ++ second) = valueTexts first ++ valueTexts second := by
  induction first with
  | nil => rfl
  | cons value rest ih => simp [valueTexts, ih]

@[simp] lemma propertyTexts_nil : propertyTexts [] = [] := by rw [propertyTexts]

@[simp] lemma valueTexts_nil : valueTexts [] = [] := by rw [valueTexts]

@[simp] lemma valueTexts_singleton (node : Node) : valueTexts [node] = node.texts := by
  simp [valueTexts]

@[simp] lemma propertyTexts_singleton (key : String) (node : Node) :
    propertyTexts [(key, node)] = mention key ++ node.texts := by
  simp [propertyTexts]

end Node

/-- The text of a token, if it is a literal or quoted, and not empty. -/
def Token.texts (token : Token) : List String :=
  if token.kind.isText then mention token.content else []

/-- **The texts of some tokens**, in order. -/
def textsOf (tokens : List Token) : List String :=
  tokens.flatMap Token.texts

@[simp] lemma textsOf_nil : textsOf [] = [] := rfl

@[simp] lemma textsOf_append (first second : List Token) :
    textsOf (first ++ second) = textsOf first ++ textsOf second :=
  List.flatMap_append

@[simp] lemma textsOf_cons (token : Token) (rest : List Token) :
    textsOf (token :: rest) = token.texts ++ textsOf rest :=
  List.flatMap_cons

lemma Token.texts_of_isText {token : Token} (text : token.kind.isText) :
    token.texts = mention token.content :=
  if_pos text

/-- A separator is no text. -/
lemma TokenKind.isText_of_separates {kind : TokenKind}
    (separates : kind = .comma ∨ kind = .lineBreak) : kind.isText = false := by
  rcases separates with rfl | rfl <;> rfl

lemma Token.texts_of_other {token : Token} (other : token.kind.isText = false) : token.texts = [] :=
  if_neg (by simp [other])

namespace Parser

open TokenStream

variable {α β : Type} {s t : ParserState} {length : Nat} {options : CompileOptions}
  {resolver : Resolver}

/-! ## Tokens that are taken -/

/-- **What holds of the tokens that a step takes**, if it comes to an end. -/
def Takes {step : Parser α} (tracing : Tracing step) (s : ParserState)
    (property : α → ParserState → List Token → Prop) : Prop :=
  Leaves step s fun value t => property value t (tracing.taken s)

namespace Takes

variable {step : Parser α} {next : α → Parser β} {tracing : Tracing step}
  {tracings : ∀ value, Tracing (next value)} {property : α → ParserState → List Token → Prop}
  {result : β → ParserState → List Token → Prop}

lemma still [Stationary step] (leaves : Leaves step s fun value t => property value t []) :
    Takes (.still : Tracing step) s property :=
  leaves

/-- A step behind one that is known. -/
lemma onto {value : α} (run : step s = .ok value t)
    (rest : Takes (tracings value) t fun final u more => result final u (tracing.taken s ++ more)) :
    Takes (.behind tracing tracings) s result := by
  intro final u both
  rw [bind_ok run] at both
  rw [Tracing.taken, run]
  exact rest final u both

lemma choice {condition : Prop} [Decidable condition] {yes no : Parser α} {first : Tracing yes}
    {second : Tracing no} (holds : condition → Takes first s property)
    (fails : ¬ condition → Takes second s property) :
    Takes (.choice first second : Tracing (if condition then yes else no)) s property := by
  intro value t run
  by_cases h : condition
  · rw [if_pos h] at run
    rw [Tracing.taken, if_pos h]
    exact holds h value t run
  · rw [if_neg h] at run
    rw [Tracing.taken, if_neg h]
    exact fails h value t run

lemma same {other : Parser α} {same : other = step} (takes : Takes tracing s property) :
    Takes (.same same tracing) s property := by
  subst same
  exact takes

lemma advance (settled : s.Settled) (skipBreaks : Bool) (mode : Mode) :
    Takes (Tracing.advance skipBreaks mode) s fun _ _ tokens =>
      tokens = [(s.reads skipBreaks mode).token] := by
  obtain ⟨ahead, look, -⟩ := lookAhead_eq settled.coherent skipBreaks mode
  have here : s.tokens.lexemeHere s.visible.operators skipBreaks mode = s.reads skipBreaks mode := by
    rw [lexemeHere, TokenStream.place, settled.handed]
    rfl
  refine .onto look (.onto (commit_eq _) (.still (.pure ?_)))
  simp [Tracing.taken, handOut, settled.handed, here]

lemma skipToken (settled : s.Settled) (skipBreaks : Bool) (mode : Mode) :
    Takes (Tracing.skipToken skipBreaks mode) s fun _ _ tokens =>
      tokens = [(s.reads skipBreaks mode).token] := by
  obtain ⟨_, _, run, -⟩ := ends_advance settled skipBreaks mode
  refine .onto run (.still (.pure ?_))
  rw [List.append_nil]
  exact advance settled skipBreaks mode _ _ run

/-- Of a group its name and its opener are taken. -/
lemma groupHead? (settled : s.Settled) (mode : Mode) :
    Takes (Tracing.groupHead? mode) s fun found _ tokens => match found with
      | none => tokens = []
      | some (name, opener) => tokens = name.toList ++ [opener] ∧ opener.kind.isOpener ∧
          ∀ token ∈ name, token.kind.isText := by
  obtain ⟨ahead, look, coherent⟩ := lookAhead_eq settled.coherent true mode
  refine .onto look (.choice (fun opens => ?_) fun _ => .choice (fun text => ?_) fun _ => ?_)
  · refine .onto (commit_eq _) (.still (.pure ⟨?_, opens, nofun⟩))
    simp [Tracing.taken, handOut, settled.handed]
  · obtain ⟨further, lookOn, -⟩ := lookAhead_eq
      (s := { s with tokens := s.tokens.handOut _ true mode ahead }) coherent false mode
    refine .onto lookOn (.choice (fun attached => ?_) fun _ => ?_)
    · rw [Bool.and_eq_true] at attached
      refine .onto (commit_eq _) (.still (.pure ⟨?_, attached.1, ?_⟩))
      · simp [Tracing.taken, handOut, settled.handed]
      · rintro _ ⟨⟩
        exact text
    · rintro _ _ ⟨⟩
      rfl
  · rintro _ _ ⟨⟩
    rfl

end Takes

/-! ## Telling -/

/-- **What a step tells of the texts it takes**: as long as nothing is reported and no parenthesis is
taken.  It goes on in the text in any case. -/
def Conserves {step : Parser α} (tracing : Tracing step) (s : ParserState)
    (told : α → List String → Prop) : Prop :=
  Takes tracing s fun value t tokens => Strides s t ∧
    (t.reports = #[] → (∀ token ∈ tokens, token.kind ≠ .lParen) → told value (textsOf tokens))

namespace Conserves

variable {step : Parser α} {next : α → Parser β} {tracing : Tracing step}
  {tracings : ∀ value, Tracing (next value)} {told : α → List String → Prop}
  {result : β → List String → Prop}

lemma strides (conserves : Conserves tracing s told) : Leaves step s fun _ t => Strides s t :=
  Leaves.mono conserves fun _ _ holds => holds.1

lemma mono {weaker : α → List String → Prop} (conserves : Conserves tracing s told)
    (h : ∀ value words, told value words → weaker value words) : Conserves tracing s weaker :=
  Leaves.mono conserves fun _ _ holds =>
    ⟨holds.1, fun silent free => h _ _ (holds.2 silent free)⟩

/-- A step behind one that is known. -/
lemma onto {value : α} (run : step s = .ok value t) (first : Conserves tracing s told)
    (rest : Strides s t → Conserves (tracings value) t fun final words =>
      ∀ front, told value front → result final (front ++ words)) :
    Conserves (.behind tracing tracings) s result := by
  obtain ⟨strides, tells⟩ := first value t run
  refine Takes.onto run (Leaves.mono (rest strides) fun final u holds => ?_)
  obtain ⟨further, tellsRest⟩ := holds
  refine ⟨strides.trans further, fun silent free => ?_⟩
  rw [textsOf_append]
  refine tellsRest silent (fun token mem => free token (List.mem_append_right _ mem)) _ ?_
  exact tells (further.silent silent) fun token mem => free token (List.mem_append_left _ mem)

/-- **One step behind another.** -/
lemma behind (first : Conserves tracing s told)
    (rest : ∀ value t, Strides s t → Conserves (tracings value) t fun final words =>
      ∀ front, told value front → result final (front ++ words)) :
    Conserves (.behind tracing tracings) s result := by
  intro final u both
  obtain ⟨value, t, run, -⟩ := bind_eq_ok.mp both
  exact onto run first (rest value t) final u both

/-- A step that takes no token. -/
lemma still [Stationary step] (leaves : Leaves step s fun value t =>
    Strides s t ∧ (t.reports = #[] → told value [])) : Conserves (.still : Tracing step) s told :=
  leaves.mono fun _ _ holds => ⟨holds.1, fun silent _ => holds.2 silent⟩

lemma pure {value : α} (settled : s.Settled) (holds : told value []) :
    Conserves (.still : Tracing (Pure.pure value : Parser α)) s told :=
  still (.pure ⟨.refl settled, fun _ => holds⟩)

/-- A step behind one that takes no token. -/
lemma quiet [Stationary step] {property : α → ParserState → Prop}
    (leaves : Leaves step s fun value t => Strides s t ∧ property value t)
    (rest : ∀ value t, Strides s t → property value t → Conserves (tracings value) t result) :
    Conserves (.behind (.still : Tracing step) tracings) s result := by
  intro final u both
  obtain ⟨value, t, run, -⟩ := bind_eq_ok.mp both
  obtain ⟨strides, holds⟩ := leaves value t run
  have nothing : Conserves (.still : Tracing step) s fun _ words => words = [] :=
    still (leaves.mono fun _ _ left => ⟨left.1, fun _ => rfl⟩)
  refine onto run nothing (fun _ => ?_) final u both
  refine (rest value t strides holds).mono fun _ _ tells front none => ?_
  rw [none]
  exact tells

/-- A step behind one that takes no token, and is known. -/
lemma known [Stationary step] {value : α} (run : step s = .ok value t) (strides : Strides s t)
    (rest : Conserves (tracings value) t result) :
    Conserves (.behind (.still : Tracing step) tracings) s result := by
  have there : Leaves step s fun found u => Strides s u ∧ (found = value ∧ u = t) := by
    intro found u ran
    obtain ⟨rfl, rfl⟩ := ok_unique ran run
    exact ⟨strides, rfl, rfl⟩
  refine quiet there ?_
  rintro _ _ - ⟨rfl, rfl⟩
  exact rest

lemma choice {condition : Prop} [Decidable condition] {yes no : Parser α} {first : Tracing yes}
    {second : Tracing no} (holds : condition → Conserves first s told)
    (fails : ¬ condition → Conserves second s told) :
    Conserves (.choice first second : Tracing (if condition then yes else no)) s told :=
  Takes.choice holds fails

lemma same {other : Parser α} {same : other = step} (conserves : Conserves tracing s told) :
    Conserves (.same same tracing) s told :=
  Takes.same conserves

lemma attempt {value : α} (run : step s = .ok value t) (conserves : Conserves tracing s told) :
    Conserves (.attempt tracing) s fun outcome words =>
      ∃ value, outcome = .ok value ∧ told value words := by
  have tried : Parser.attempt step s = .ok (.ok value) t := by rw [Parser.attempt, run]
  intro outcome u ran
  obtain ⟨rfl, rfl⟩ := ok_unique ran tried
  obtain ⟨strides, tells⟩ := conserves value u run
  exact ⟨strides, fun silent free => ⟨value, rfl, tells silent free⟩⟩

/-- Behind a report there is nothing to tell. -/
lemma of_told (told_ : s.reports ≠ #[]) (leaves : Leaves step s fun _ t => Strides s t) :
    Conserves tracing s told :=
  leaves.mono fun _ _ strides => ⟨strides, fun silent => absurd (strides.silent silent) told_⟩

/-! ### Small steps -/

lemma peek {skipBreaks : Bool} {mode : Mode} {next : Token → Parser β}
    {tracings : ∀ token, Tracing (next token)} (settled : s.Settled)
    (rest : ∀ t, Strides s t → t.here = s.here →
      Conserves (tracings (s.reads skipBreaks mode).token) t result) :
    Conserves (.behind (.still : Tracing (Parser.peek skipBreaks mode)) tracings) s result := by
  obtain ⟨_, t, run, -, rfl, strides, stays⟩ := strides_peek settled skipBreaks mode
  exact known run strides (rest t strides stays)

lemma skipToken {skipBreaks : Bool} {mode : Mode} (settled : s.Settled) :
    Conserves (Tracing.skipToken skipBreaks mode) s fun _ words =>
      words = (s.reads skipBreaks mode).token.texts := by
  have goes := Leaves.of_ends (strides_skipToken settled skipBreaks mode)
  refine (goes.and (Takes.skipToken settled skipBreaks mode)).mono fun _ t taken => ?_
  obtain ⟨⟨strides, -⟩, same⟩ := taken
  exact ⟨strides, fun _ _ => by rw [same, textsOf_cons, textsOf_nil, List.append_nil]⟩

lemma closesAwaited {kind : TokenKind} {next : Bool → Parser β}
    {tracings : ∀ closes, Tracing (next closes)} (settled : s.Settled)
    (rest : Conserves (tracings (kind.isCloser && s.awaited.contains kind)) s result) :
    Conserves (.behind (.still : Tracing (Parser.closesAwaited kind)) tracings) s result :=
  known rfl (.refl settled) rest

/-- Behind a mistake it is enough to go on. -/
lemma complained {offset : Nat} {cause : Cause} {next : Unit → Parser β}
    {tracing : Tracing (Parser.complain offset cause >>= next)} (lone : Lone length s)
    (rest : ∀ t, Strides s t → t.reports ≠ #[] → Leaves (next ()) t fun _ u => Strides t u) :
    Conserves tracing s result := by
  refine Leaves.after (strides_note lone.settled _) fun _ t _ noted => ?_
  obtain ⟨strides, -, told⟩ := noted
  refine (rest t strides (told lone.attends)).mono fun _ _ further => ?_
  exact ⟨strides.trans further, fun silent => absurd (further.silent silent) (told lone.attends)⟩

/-- A token that is out of place is reported. -/
lemma misplaced {skipBreaks : Bool} {mode : Mode} {offset : Nat} {cause : Cause}
    {next : Unit → Parser β} {tracings : Unit → Tracing (Parser.complain offset cause >>= next)}
    (lone : Lone length s)
    (rest : ∀ t, Strides s t → Leaves (next ()) t fun _ u => Strides t u) :
    Conserves (.behind (Tracing.skipToken skipBreaks mode) tracings) s result :=
  .behind (skipToken lone.settled) fun _ _ taken =>
    .complained (lone.strides taken) fun u noted _ => rest u (taken.trans noted)

/-- A token without a text. -/
lemma skipSign {skipBreaks : Bool} {mode : Mode} (settled : s.Settled)
    (other : (s.reads skipBreaks mode).token.kind.isText = false) :
    Conserves (Tracing.skipToken skipBreaks mode) s fun _ words => words = [] :=
  (skipToken settled).mono fun _ _ same => same.trans (Token.texts_of_other other)

lemma separator {mode : Mode} {closer : TokenKind} (lone : Lone length s) :
    Conserves (Tracing.separator mode closer) s fun _ words => words = [] := by
  refine .peek lone.settled fun t strides stays => .choice (fun separates => ?_) fun _ =>
    .closesAwaited strides.settled (.choice (fun _ => .pure strides.settled rfl) fun _ => ?_)
  · refine .skipSign strides.settled ?_
    rw [strides.reads_eq stays false mode]
    exact TokenKind.isText_of_separates (by simpa using separates)
  · have lone := lone.strides strides
    exact .complained lone fun u noted told =>
      .of_ends (strides_recover noted.settled (lone.strides noted).attends told _)

lemma groupHead? (settled : s.Settled) (mode : Mode) :
    Conserves (Tracing.groupHead? mode) s fun found words => match found with
      | none => words = []
      | some (name, opener) => opener.kind.isOpener ∧ opener.kind ≠ .lParen ∧
          words = mention ((name.map Token.content).getD "") := by
  have goes := Leaves.of_ends (strides_groupHead? settled mode)
  refine (goes.and (Takes.groupHead? settled mode)).mono fun found t taken => ?_
  obtain ⟨⟨strides, -⟩, takes⟩ := taken
  refine ⟨strides, fun _ free => ?_⟩
  match found with
  | none => exact congrArg textsOf takes
  | some (name, opener) =>
    obtain ⟨same, opens, text⟩ := takes
    rw [same] at free ⊢
    refine ⟨opens, free opener (by simp), ?_⟩
    have other : opener.texts = [] :=
      Token.texts_of_other (by cases kind : opener.kind <;> simp_all [TokenKind.isOpener, TokenKind.isText])
    cases name with
    | none => simp [other, mention]
    | some name => simp [other, Token.texts_of_isText (text name rfl)]

end Conserves

/-! ## Nodes -/

/-- A token that becomes a node. -/
lemma leaves_primitive_texts (lone : Lone length s) {token : Token} (text : token.kind.isText)
    (expands : Bool) :
    Leaves (primitive token expands) s fun made t => Strides s t ∧ made.texts = token.texts := by
  have numbered := strides_numbered lone.settled
  have same (origin : Origin) : (Node.primitive token.content origin).texts = token.texts := by
    rw [Node.texts, Token.texts_of_isText text]
  refine .changed ?_
  dsimp only
  split
  · exact .pure ⟨numbered, same _⟩
  refine (leaves_parameterIndex? (lone.strides numbered) token.content).bind ?_
  rintro _ _ ⟨rfl, rfl⟩
  dsimp only
  split
  · refine (leaves_invoke (lone.strides numbered) _ _).mono ?_
    rintro _ _ ⟨rfl, rfl⟩
    exact ⟨numbered, same _⟩
  · exact .pure ⟨numbered, same _⟩

/-- A property is added, unless its key is taken and that is reported. -/
lemma leaves_addProperty_texts (lone : Lone length s) (key : Token) (value : Node)
    (properties : List (String × Node)) :
    Leaves (addProperty options key value properties) s fun found t =>
      Strides s t ∧ (t.reports = #[] → found = properties ++ [(key.content, value)]) := by
  rw [addProperty]
  split
  · refine .after (strides_note lone.settled _) fun _ t settled noted => .modify (.pure ?_)
    obtain ⟨strides, -, told⟩ := noted
    refine ⟨strides.trans (.change settled rfl rfl ?_ rfl rfl), fun silent => ?_⟩
    · simp [(lone.strides strides).scope]
    · exact absurd silent (told lone.attends)
  · rename_i fresh
    exact .pure ⟨.refl lone.settled, fun _ => by rw [Node.insertNew, if_neg fresh]⟩

/-- The texts in a group. -/
def GroupContent.texts : GroupContent → List String
  | .properties entries _ => Node.propertyTexts entries
  | .values elements _ _ => Node.valueTexts elements

/-- The node of a group that is no operation. -/
lemma leaves_completeGroup_texts (lone : Lone length s) (name : Option Token) (start : Nat)
    (expands : Bool) (reference : Option Nat) (content : GroupContent) :
    Leaves (completeGroup options name start expands reference content) s fun made t =>
      Strides s t ∧ (content.kind ≠ .operation →
        made.texts = mention ((name.map Token.content).getD "") ++ content.texts) := by
  have node (text : String) (id : Nat) :
      (content.node text id start).texts = mention text ++ content.texts := by
    cases content <;> simp [GroupContent.node, GroupContent.texts, Node.texts]
  have marked (change : TemplateScope → TemplateScope) :
      Strides s { s with lastId := s.lastId + 1, scope := s.scope.map change } :=
    .change lone.settled rfl rfl (by simp [lone.scope]) rfl rfl
  -- The node as it was built, whether the macros were asked or not.
  have offered {t : ParserState} (strides : Strides s t) (text : String) (id : Nat) :
      Leaves (if expands then expand (content.node text id start) content.kind
        else Pure.pure (content.node text id start)) t fun made u =>
          Strides s u ∧ (content.kind ≠ .operation → made.texts = mention text ++ content.texts) := by
    split
    · refine (leaves_expand (lone.strides strides) _ _).mono ?_
      rintro _ _ ⟨rfl, rfl⟩
      exact ⟨strides, fun _ => node text id⟩
    · exact .pure ⟨strides, fun _ => node text id⟩
  rw [completeGroup.eq_def]
  dsimp only
  split
  · exact .pure ⟨.refl lone.settled, fun other => absurd rfl other⟩
  · refine .changed ?_
    split
    · exact .modify (offered (marked _) _ _)
    · exact offered (strides_numbered lone.settled) _ _

/-! ## Calls -/

namespace Reading

/-- What a call tells of the texts that are taken. -/
def Tells : Reading α → α → List String → Prop
  | value, node, words => words = node.texts
  | group .., found, words => words = found.elim [] Node.texts
  | properties _ known, (entries, _), words =>
    Node.propertyTexts entries = Node.propertyTexts known ++ words
  | elements _ _ _ known, (nodes, _), words =>
    Node.valueTexts nodes = Node.valueTexts known.reverse ++ words
  | operand, _, _ | expression, _, _ | level _, _, _ | binary .., _, _ | postfixes .., _, _
  | parameters .., _, _ | clauses _, _, _ | skipGroup _, _, _ | skipToSeparator _, _, _ => True

/-- A call outside of operations. -/
def Outside : Reading α → Prop
  | value | group .. | properties .. => True
  | elements _ mode closer _ => mode = .value ∧ closer.isCloser
  | operand | expression | level _ | binary .. | postfixes .. | parameters .. | clauses _
  | skipGroup _ | skipToSeparator _ => False

variable {calls : ∀ {β : Type}, Reading β → Parser β}
  {traced : ∀ {β : Type} (call : Reading β), Tracing (calls call)}
  (placed : ∀ {β : Type} (call : Reading β), call.Encloses length (calls call))
  (conserved : ∀ {β : Type} (call : Reading β), call.Outside → ∀ s, Lone length s →
    Conserves (traced call) s call.Tells)

include conserved

/-- A value. -/
lemma conserves_atom (missing : Token → Cause) (lone : Lone length s) :
    Conserves (Tracing.atomRound traced .word .value missing) s fun node words =>
      words = node.texts := by
  have first : Strides s { s with suppressed := false } :=
    .change lone.settled rfl rfl rfl rfl rfl
  refine .known rfl first (.behind (conserved (group .word !s.suppressed) trivial _
    (lone.strides first)) fun found t strides => ?_)
  cases found with
  | some node => exact .pure strides.settled fun front same => (List.append_nil front).trans same
  | none =>
    have lone := (lone.strides first).strides strides
    refine .peek lone.settled fun u further stays => .choice (fun text => ?_) fun _ => ?_
    · have same := further.reads_eq stays true .value
      refine .behind (.skipToken further.settled) fun _ v taken => .still ?_
      refine (leaves_primitive_texts ((lone.strides further).strides taken) text _).mono
        fun node w made => ⟨made.1, fun _ front taken' front' none => ?_⟩
      obtain rfl : front' = [] := none
      rw [taken', same, made.2]
      simp
    · exact .complained (lone.strides further) fun v noted _ =>
        .changed (.pure (strides_numbered noted.settled))

/-- The properties of an object. -/
lemma conserves_properties {start : Nat} {known : List (String × Node)} (lone : Lone length s) :
    Conserves (Tracing.propertiesRound options traced start known) s
      (properties start known).Tells := by
  have again {u : ParserState} (strides : Strides s u) (known : List (String × Node)) :
      Conserves (traced (properties start known)) u (properties start known).Tells :=
    conserved (properties start known) trivial u (lone.strides strides)
  have recovered {u : ParserState} (strides : Strides s u) (told : u.reports ≠ #[]) :
      Leaves (recover (some .rBrace) >>= fun _ => calls (properties start known)) u
        fun _ v => Strides u v :=
    .after (strides_recover strides.settled (lone.strides strides).attends told _)
      fun _ _ _ further => (again (strides.trans further) known).strides.mono
        fun _ _ rest => further.trans rest
  refine .peek lone.settled fun t strides stays => .choice (fun closes => ?_) fun _ => ?_
  · have same := strides.reads_eq stays true .key
    refine .behind (.skipSign strides.settled (by rw [same, closes]; rfl)) fun _ u taken =>
      .pure taken.settled ?_
    rintro _ rfl
    exact (List.append_nil _).symm
  refine .closesAwaited strides.settled (.choice (fun _ => ?_) fun _ => .choice (fun _ => ?_)
    fun _ => .choice (fun text => ?_) fun _ => ?_)
  · exact .complained (lone.strides strides) fun _ noted _ => .pure (.refl noted.settled)
  · exact .misplaced (lone.strides strides) fun u further =>
      (again (strides.trans further) known).strides
  · refine .behind (.skipToken strides.settled) fun _ u taken => ?_
    have key : (t.reads true .key).token.texts = mention (s.reads true .key).token.content := by
      rw [strides.reads_eq stays true .key, Token.texts_of_isText text]
    have strides := strides.trans taken
    refine .peek strides.settled fun v looked stays => .choice (fun _ => ?_) fun colon => ?_
    · have strides := strides.trans looked
      exact .complained (lone.strides strides) fun w noted told =>
        recovered (strides.trans noted) told
    have same := looked.reads_eq stays false .key
    have strides := strides.trans looked
    refine .behind (.skipSign strides.settled (by rw [same, not_not.mp colon]; rfl))
      fun _ w passed => ?_
    have strides := strides.trans passed
    refine .behind (conserved value trivial w (lone.strides strides)) fun node x read => ?_
    have strides := strides.trans read
    refine .quiet (leaves_addProperty_texts (lone.strides strides) _ node known)
      fun extended y noted added => ?_
    have strides := strides.trans noted
    have rest : Conserves (.behind (Tracing.separator .key .rBrace)
        fun _ => traced (properties start extended)) y (properties start extended).Tells :=
      .behind (.separator (lone.strides strides)) fun _ z separated =>
        (again (strides.trans separated) extended).mono fun _ _ tells front none => none ▸ tells
    by_cases silent : y.reports = #[]
    · refine rest.mono fun found words tells front read' colon' none key' taken' => ?_
      obtain rfl := added silent
      rw [none, taken', key, (show front = node.texts from read')]
      refine Eq.trans tells ?_
      simp [Node.propertyTexts_append]
    · exact .of_told silent rest.strides
  · exact .complained (lone.strides strides) fun w noted told =>
      recovered (strides.trans noted) told

/-- The elements of a list. -/
lemma conserves_elements {start : Nat} {closer : TokenKind} {known : List Node}
    (closes : closer.isCloser) (lone : Lone length s) :
    Conserves (Tracing.elementsRound traced start .value closer known) s
      (elements start .value closer known).Tells := by
  have again {u : ParserState} (strides : Strides s u) (known : List Node) :
      Conserves (traced (elements start .value closer known)) u
        (elements start .value closer known).Tells :=
    conserved (elements start .value closer known) ⟨rfl, closes⟩ u (lone.strides strides)
  refine .peek lone.settled fun t strides stays => .choice (fun closed => ?_) fun _ => ?_
  · have other : closer.isText = false := by cases closer <;> first | rfl | cases closes
    refine .behind (.skipSign strides.settled ?_) fun _ u taken => .pure taken.settled ?_
    · rw [strides.reads_eq stays true .value, closed, other]
    · rintro _ rfl
      exact (List.append_nil _).symm
  refine .closesAwaited strides.settled (.choice (fun _ => ?_) fun _ => .choice (fun _ => ?_)
    fun _ => ?_)
  · exact .complained (lone.strides strides) fun _ noted _ => .pure (.refl noted.settled)
  · exact .misplaced (lone.strides strides) fun u further =>
      (again (strides.trans further) known).strides
  · have element : Conserves (Tracing.elementRound traced .value) t fun node words =>
        words = node.texts :=
      .choice nofun fun _ => conserved value trivial t (lone.strides strides)
    refine .behind element fun node u read => ?_
    have strides := strides.trans read
    refine .behind (.separator (lone.strides strides)) fun _ v separated => ?_
    refine (again (strides.trans separated) (node :: known)).mono
      fun found words tells front none front' read' => ?_
    rw [none, read']
    refine Eq.trans tells ?_
    simp [Node.valueTexts_append]

include placed

/-- The contents of a group; those of an operation are left open. -/
lemma conserves_content {opener : TokenKind} {start : Nat} (lone : Lone length s)
    (le : start ≤ s.here.offset) :
    Conserves (Tracing.contentRound traced opener start) s fun content words =>
      opener.isOpener → opener ≠ .lParen → content.kind ≠ .operation ∧ content.texts = words := by
  have closes := isCloser_closer? opener
  set closer := opener.closer?.getD .rParen
  refine .choice (fun _ => ?_) fun brace => .choice (fun _ => ?_) fun bracket => ?_
  · refine .behind (conserved (properties start []) trivial s lone) fun found t strides => ?_
    refine .pure strides.settled fun front tells _ _ => ⟨nofun, ?_⟩
    exact Eq.trans tells (by simp)
  · refine .behind (conserved (elements start .value closer []) ⟨rfl, closes⟩ s lone)
      fun found t strides => ?_
    refine .pure strides.settled fun front tells _ _ => ⟨nofun, ?_⟩
    exact Eq.trans tells (by simp)
  · have operation : Conserves (traced (elements start .operation closer [])) s fun _ _ => True :=
      (placed (elements start .operation closer []) s lone ⟨closes, le, .nil ..⟩).mono
        fun _ _ inside => ⟨inside.1, fun _ _ => trivial⟩
    refine .behind operation fun found t strides => .pure strides.settled fun _ _ opens other => ?_
    -- What opens a group, and is neither a brace nor a bracket, is a parenthesis.
    cases opener <;> simp_all [TokenKind.isOpener]

/-- A group, if one is next. -/
lemma conserves_group {nameMode : Mode} {expands : Bool} (lone : Lone length s) :
    Conserves (Tracing.groupRound options traced nameMode expands) s
      (group nameMode expands).Tells := by
  obtain ⟨found, t, run, settled, strides, between⟩ := strides_groupHead? lone.settled nameMode
  refine .onto run (.groupHead? lone.settled nameMode) fun _ => ?_
  match found with
  | none => exact .pure settled fun front none => by simpa [Tells] using none
  | some (name, opener) =>
    obtain ⟨-, behind⟩ := between name opener rfl
    have lone := lone.strides strides
    have awaits : Strides t (t.awaiting (opener.kind.closer?.getD .rParen)) :=
      .change settled rfl rfl rfl rfl rfl
    have named : Leaves (Head.reference ⟨name, opener, expands⟩) t
        fun _ u => Strides t u ∧ u = t :=
      (leaves_reference lone _).mono (by rintro _ _ rfl; exact ⟨.refl settled, rfl⟩)
    refine .quiet named ?_
    rintro reference _ - rfl
    refine .known rfl awaits (.behind (conserves_content placed conserved (lone.strides awaits) behind)
      fun content u inside => ?_)
    have settles : Strides u { u with awaited := u.awaited.tail } :=
      .change inside.settled rfl rfl rfl rfl rfl
    have lone := ((lone.strides awaits).strides inside).strides settles
    refine .known rfl settles (.still ((leaves_completeGroup_texts lone name _ expands reference
      content).bind fun made v built => .pure ⟨built.1, fun _ => ?_⟩))
    intro words tells head opens
    obtain ⟨isOpener, other, rfl⟩ := opens
    obtain ⟨plain, rfl⟩ := tells isOpener other
    simpa [Tells] using (built.2 plain).symm

omit placed conserved

/-- **Every call outside of operations conserves what it takes**, by induction on its bound. -/
theorem conserves_within (fuel : Nat) (call : Reading α) (outside : call.Outside) (s : ParserState)
    (lone : Lone length s) : Conserves (Tracing.within options fuel call) s call.Tells := by
  induction fuel generalizing α s with
  | zero =>
    cases call <;> first | exact outside.elim | exact fun _ _ run => nomatch run
  | succ fuel ih =>
    have placed {β : Type} (call : Reading β) : call.Encloses length (call.within options fuel) :=
      encloses_within fuel call
    cases call with
    | value => exact .same (conserves_atom ih _ lone)
    | group nameMode expands => exact .same (conserves_group placed ih lone)
    | properties start known => exact .same (conserves_properties ih lone)
    | elements start mode closer known =>
      obtain ⟨rfl, closes⟩ := outside
      exact .same (conserves_elements ih closes lone)
    | _ => exact outside.elim

end Reading

/-! ## Sources -/

/-- A value at the top of a source. -/
lemma conserves_parseStatement (lone : Lone length s) (ordinary : s.lexis.statementAt? s.here = none) :
    Conserves (Tracing.parseStatement options resolver (s.reads true .word).token) s
      fun found words => words = found.elim [] Node.texts := by
  obtain ⟨opening, t, keyword, settled, same, moves, stays⟩ := ends_statementKeyword? lone.settled
  have strides : Strides s t := .of_moves settled moves (.of_eq stays.symm)
  rw [ordinary] at same
  subst same
  refine .known (valueFuel_eq lone.settled) (.refl lone.settled) (.known keyword strides ?_)
  refine .behind (Reading.conserves_within _ .value trivial t (lone.strides strides))
    fun node u read => .pure read.settled fun front told => ?_
  exact (List.append_nil front).trans told

/-- Behind a value no text is taken. -/
lemma conserves_endStatement (lone : Lone length s) :
    Conserves Tracing.endStatement s fun _ words => words = [] := by
  refine .peek lone.settled fun t strides stays => .choice (fun separates => ?_) fun _ =>
    .choice (fun _ => .pure strides.settled rfl) fun _ => ?_
  · refine .skipSign strides.settled ?_
    rw [strides.reads_eq stays false .word]
    exact TokenKind.isText_of_separates (Or.symm (by simpa using separates))
  · have lone := lone.strides strides
    exact .complained lone fun u noted told =>
      .of_ends (strides_recover noted.settled (lone.strides noted).attends told _)

/-- **A round of a source that defines nothing**: the texts that are taken are those of the value that
is added. -/
lemma conserves_roundFrom (lone : Lone length s) (undefined : Undefined s)
    (ordinary : s.lexis.statementAt? s.here = none) :
    Conserves (Tracing.roundFrom options resolver (s.reads true .word).token) s
      fun added words => words = Node.valueTexts added.reverse := by
  refine .choice (fun _ => ?_) fun _ => .choice (fun comment => ?_) fun _ =>
    .choice (fun _ => ?_) fun _ => ?_
  · exact .misplaced lone fun _ further => .pure (.refl further.settled)
  · refine .behind (.skipSign lone.settled (by rw [comment]; rfl)) fun _ t taken =>
      .pure taken.settled ?_
    rintro _ rfl
    rfl
  · exact .misplaced lone fun _ further => .pure (.refl further.settled)
  · obtain ⟨_, t, run, -, node, rfl, -⟩ : Ends (parseStatement options resolver
        (s.reads true .word).token) s _ :=
      ends_parseStatement_value (upkeep_any options) undefined.ready undefined.rests ordinary
    have tried : attempt (parseStatement options resolver (s.reads true .word).token) s
        = .ok (.ok (some node)) t := by rw [attempt, run]
    refine .onto tried (.attempt run (conserves_parseStatement lone ordinary)) fun strides => ?_
    refine .behind (conserves_endStatement (lone.strides strides)) fun _ u behind =>
      .pure behind.settled ?_
    rintro _ rfl front ⟨value, same, told⟩
    cases same
    simpa using told

/-- **The values of a source that defines nothing** have the texts that are taken. -/
theorem texts_parseAll (lone : Lone length s) (undefined : Undefined s)
    (ordinary : ∀ t, Reaches options resolver s t → t.lexis.statementAt? t.here = none) (fuel : Nat)
    (values : List Node) :
    Takes (Tracing.parseAll options resolver fuel values) s fun result t tokens =>
      t.reports = #[] → (∀ token ∈ tokens, token.kind ≠ .lParen) →
        Node.valueTexts result = Node.valueTexts values.reverse ++ textsOf tokens := by
  induction fuel generalizing s values with
  | zero => exact fun _ _ run => nomatch run
  | succ fuel ih =>
    obtain ⟨_, t, looked, settled, rfl, moves, stays, -⟩ := ends_peek undefined.settled true .word
    have strides : Strides s t := .of_moves settled moves (.of_eq stays.symm)
    refine .same (.onto looked (.choice (fun _ => ?_) fun more => ?_))
    · intro result u run
      rw [bind_ok (noteLexical_eq t)] at run
      cases run
      exact fun _ _ => (List.append_nil _).symm
    obtain ⟨added, u, round, undefined'⟩ : ∃ added u,
        roundFrom options resolver (s.reads true .word).token t = .ok added u ∧ Undefined u := by
      rcases round_of_undefined options resolver undefined (ordinary s (.here s)) with
        ⟨ended, -⟩ | ⟨-, added, u, round, undefined', -⟩
      · exact absurd ended more
      · have whole : sourceRound options resolver pure [] s = .ok (added ++ []) u := round pure []
        obtain ⟨_, added, again, taken⟩ := exists_taken_of_round undefined.settled more whole
        obtain ⟨-, rfl⟩ := ok_unique looked again
        exact ⟨added, u, taken, undefined'⟩
    have onward : ∀ v, Reaches options resolver u v → v.lexis.statementAt? v.here = none :=
      fun v reaches => ordinary v ((Reaches.of_round undefined.settled looked more round).trans reaches)
    have here : t.lexis.statementAt? t.here = none := by
      rw [moves.lexis, stays]
      exact ordinary s (.here s)
    have read : Conserves (Tracing.roundFrom options resolver (t.reads true .word).token) t
        fun added words => words = Node.valueTexts added.reverse :=
      conserves_roundFrom (lone.strides strides) (undefined.moved settled moves) here
    rw [strides.reads_eq stays] at read
    obtain ⟨further, tells⟩ := read added u round
    have lone := (lone.strides strides).strides further
    refine .onto round fun result v run silent free => ?_
    -- Where nothing is reported in the end nothing was reported before.
    obtain ⟨clean, -⟩ := exists_lines undefined' onward run silent
    have rest := ih lone undefined' onward (added ++ values) result v run silent
      fun token mem => free token (by simp [mem])
    have texts := tells clean.1 fun token mem => free token (by simp [mem])
    rw [rest, textsOf_append, textsOf_append, texts]
    simp [Node.valueTexts_append, Tracing.taken]

end Parser

open TreeLang.Parser

variable {options : CompileOptions} {resolver : Resolver} {source : Source} {imports : ImportState}

/-- **No parentheses outside of quotes**: of the tokens of a text, those that hold one are quoted.  A
parenthesis in a comment belongs to no token. -/
def ParenthesesQuoted (text : List Char) (tokens : List Token) : Prop :=
  ∀ token ∈ tokens, '(' ∈ text.extract token.start token.stop ∨
    ')' ∈ text.extract token.start token.stop → token.kind = .quoted

instance (text : List Char) (tokens : List Token) : Decidable (ParenthesesQuoted text tokens) :=
  inferInstanceAs (Decidable (∀ token ∈ tokens, _ → _))

/-- **A clean parse loses and invents nothing.**  Where a source has no parentheses outside of quotes,
defines nothing and compiles without a report, its tokens are taken in order, and the texts of the
literals and quoted texts among them are those of the root. -/
theorem compile_conserves
    (definitionless : Definitionless options resolver source imports)
    (quoted : ParenthesesQuoted source.chars (takenTokens options resolver source imports))
    (clean : (compile options resolver source imports).1.reports = []) :
    let tokens := takenTokens options resolver source imports
    (tokens.Pairwise fun token later => token.stop ≤ later.start) ∧
      textsOf tokens = (compile options resolver source imports).1.root.texts := by
  refine ⟨pairwise_takenTokens options resolver source imports, ?_⟩
  have undefined : Undefined (initial options source imports) := undefined_initial source
  have lone : Lone source.length (initial options source imports) :=
    ⟨undefined.settled, rfl, rfl, rfl, Nat.zero_add _⟩
  obtain ⟨values, t, run, -⟩ := (parse_descends_to_end options resolver).1 source imports
  have free : ∀ token ∈ takenTokens options resolver source imports, token.kind ≠ .lParen := by
    intro token mem opens
    have held : '(' ∈ source.chars.extract token.start token.stop :=
      mem_extract_of_mem_takenTokens mem (by rw [opens]; rfl)
    rw [quoted token mem (.inl held)] at opens
    cases opens
  have silent : t.reports = #[] := by
    simp only [compile, run] at clean
    exact Array.toList_eq_nil_iff.mp clean
  have texts := texts_parseAll lone undefined definitionless _ [] values t run silent free
  rw [List.reverse_nil, Node.valueTexts_nil, List.nil_append] at texts
  simp only [compile, run]
  rw [Node.listOf, Node.texts, texts]
  rfl

/-- For instance, a name, an empty key, a text that is repeated, and parentheses in quotes and in a
comment. -/
theorem compile_conserves_of_parenthesis_in_quotes :
    let source : Source := ⟨"", "f[a, \x7bk: 'b (c', '': a\x7d] // (\n'', \x22f\x22"⟩
    let tokens := takenTokens {} (tableResolver []) source {}
    let compiled := (compile {} (tableResolver []) source {}).1
    Definitionless {} (tableResolver []) source {} ∧ ParenthesesQuoted source.chars tokens ∧
      compiled.reports = [] ∧ compiled.root.texts = ["f", "a", "k", "b (c", "a", "f"] ∧
      (tokens.Pairwise fun token later => token.stop ≤ later.start) ∧
      textsOf tokens = compiled.root.texts := by
  intro source tokens compiled
  have definitionless : Definitionless {} (tableResolver []) source {} :=
    definitionless_of_rounds 5 (by decide +kernel)
  have quoted : ParenthesesQuoted source.chars tokens := by decide +kernel
  have clean : compiled.reports = [] := by decide +kernel
  exact ⟨definitionless, quoted, clean, by decide +kernel,
    compile_conserves definitionless quoted clean⟩

end TreeLang
