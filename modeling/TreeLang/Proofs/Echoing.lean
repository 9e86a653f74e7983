import TreeLang.Proofs.Abreast

/-!
# Values read abreast

Two parsers abreast make nodes that are alike: they give them the same numbers where numbers count,
offer them to macros that are alike, and join them under the operators that both have in force.  So
whatever is read inside a statement is read alike, however far it goes.

* `follows_invoke`, `follows_expand` — nodes offered to macros.
* `follows_primitive`, `follows_binaryNode`, `follows_completeGroup`, … — single nodes.
* `Reading.Twin`, `Reading.Answers` — calls that correspond, and what they answer.
* **`follows_within`** — whatever is read inside a statement is read alike.
-/

namespace TreeLang.Parser.Reading

variable {options : CompileOptions} {calls : ∀ {β : Type}, Reading β → Parser β}

/-- What is read of a group behind its head. -/
def foundRound (options : CompileOptions) (calls : ∀ {β : Type}, Reading β → Parser β) (head : Head) :
    Parser Node := do
  let reference ← head.reference
  await (head.opener.kind.closer?.getD .rParen)
  let content ← contentRound calls head.opener.kind head.start
  settle
  completeGroup options head.name head.start head.expands reference content

lemma groupRound_eq (nameMode : Mode) (expands : Bool) :
    groupRound options calls nameMode expands = do
      match ← groupHead? nameMode with
      | none => return none
      | some (name, opener) => return some (← foundRound options calls ⟨name, opener, expands⟩) := by
  rw [groupRound]
  refine congrArg (groupHead? nameMode >>= ·) (funext fun found => ?_)
  cases found with
  | none => rfl
  | some found => simp only [foundRound, bind_assoc]

end TreeLang.Parser.Reading

namespace TreeLang.Parallel

open TreeLang.Parser

variable {α β : Type} {P : Parallel} {s t : ParserState} {a b c d : Node} {o o' : Nat}

/-! ## Nodes -/

/-- Numbers that are the same where they count. -/
def Numbered (P : Parallel) (id id' : Nat) : Prop :=
  P.likeness.exact → id' = id

lemma numbered_id (like : Node.Like P.likeness a b) : P.Numbered a.id b.id :=
  like.origin.id

/-- Inside a template numbers count. -/
lemma Abreast.id_eq (abreast : P.Abreast s t) {scope : TemplateScope} (inside : s.scope = some scope)
    (like : Node.Like P.likeness a b) : b.id = a.id :=
  numbered_id like (abreast.inside (by rw [inside]; rfl))

lemma follows_freshId : P.Follows P.Numbered freshId freshId :=
  ⟨fun abreast => .ok (fun exact => by rw [abreast.lastId exact])
    { abreast with lastId := fun exact => by simp only [abreast.lastId exact] }⟩

lemma follows_placeholderAt (offset : P.likeness.offset o o') :
    P.Follows (Node.Like P.likeness) (placeholderAt o) (placeholderAt o') :=
  follows_freshId.bind fun _ _ same => .pure (.primitive ⟨same, offset, offset⟩)

/-- A change of the marks on a template. -/
lemma follows_rescope {f g : Option TemplateScope → Option TemplateScope}
    (same : ∀ {s t}, P.Abreast s t → g s.scope = f s.scope)
    (inside : ∀ {s t}, P.Abreast s t → (f s.scope).isSome → P.likeness.exact) :
    P.Follows Eq (modify fun s : ParserState => { s with scope := f s.scope })
      (modify fun s : ParserState => { s with scope := g s.scope }) :=
  .change fun abreast => { abreast with
    scope := by simp only [abreast.scope, same abreast]
    inside := inside abreast }

/-- Marks are made inside templates only, where numbers count. -/
lemma follows_remark {f g : TemplateScope → TemplateScope}
    (same : ∀ scope, P.likeness.exact → g scope = f scope) :
    P.Follows Eq (modify fun s : ParserState => { s with scope := s.scope.map f })
      (modify fun s : ParserState => { s with scope := s.scope.map g }) := by
  refine follows_rescope (fun {s t} abreast => ?_) fun abreast h => abreast.inside (by simpa using h)
  cases inside : s.scope with
  | none => rfl
  | some scope => exact congrArg some (same scope (abreast.inside (by rw [inside]; rfl)))

lemma follows_markReference {id id' : Nat} (same : P.Numbered id id') (reference : Reference) :
    P.Follows Eq (markReference id reference) (markReference id' reference) :=
  follows_remark fun _ exact => by rw [same exact]

/-- A report that is placed where the invocation stands. -/
lemma follows_refuse (offset : P.likeness.offset o o') {report : Report}
    (unplaced : report.Unplaced) :
    P.Follows (Node.Like P.likeness) (refuse o report) (refuse o' report) :=
  (follows_note (unplaced.told offset)).after fun _ => follows_placeholderAt offset

lemma follows_notes (offset : P.likeness.offset o o') {warnings : List Report}
    (unplaced : ∀ warning ∈ warnings, warning.Unplaced) :
    P.Follows Eq (warnings.forM fun warning => note (warning.atOffset o))
      (warnings.forM fun warning => note (warning.atOffset o')) :=
  .forM (I := fun w w' => w' = w ∧ w.Unplaced) (fun w _ ⟨same, unplaced⟩ => by
    subst same
    exact follows_note (unplaced.told offset))
    (List.forall₂_same.mpr fun warning mem => ⟨rfl, unplaced warning mem⟩)

/-! ### Macros -/

lemma follows_expandDeferred {expandOne expandOne' : Node → MacroKind → Parser Node}
    (h : ∀ {a b}, Node.Like P.likeness a b → ∀ kind,
      P.Follows (Node.Like P.likeness) (expandOne a kind) (expandOne' b kind))
    {span span' : Span} (spans : P.likeness.Spans span span') (waiting : List DeferredInvocation)
    (tree : Node.Like P.likeness a b) :
    P.Follows (Node.Like P.likeness) (expandDeferred expandOne span a waiting)
      (expandDeferred expandOne' span' b waiting) := by
  induction waiting generalizing a b with
  | nil => exact .pure tree
  | cons invocation rest ih =>
    rw [expandDeferred, expandDeferred, List.foldlM_cons, List.foldlM_cons]
    have found := tree.get? invocation.path
    refine Leads.bind ?_ fun _ _ tree => ih tree
    generalize a.get? invocation.path = x, b.get? invocation.path = y at found
    cases found with
    | none => exact .pure tree
    | some target =>
      exact (h (target.withSpan spans) _).bind fun _ _ expanded =>
        .pure (Node.Like.getD (tree.set? _ expanded) tree)

lemma follows_nested {V : α → β → Prop} {step : Parser α} {other : Parser β}
    (h : P.Follows V step other) : P.Follows V (nested step) (nested other) := by
  have deepen : P.Follows Eq (modify fun s : ParserState => { s with depth := s.depth + 1 })
      (modify fun s : ParserState => { s with depth := s.depth + 1 }) :=
    .change fun abreast => { abreast with depth := by simp only [abreast.depth] }
  have emerge : P.Follows Eq (modify fun s : ParserState => { s with depth := s.depth - 1 })
      (modify fun s : ParserState => { s with depth := s.depth - 1 }) :=
    .change fun abreast => { abreast with depth := by simp only [abreast.depth] }
  exact deepen.after fun _ => h.bind fun _ _ related => emerge.after fun _ => .pure related

lemma follows_useMacro {expandOne expandOne' : Node → MacroKind → Parser Node}
    (h : ∀ {a b}, Node.Like P.likeness a b → ∀ kind,
      P.Follows (Node.Like P.likeness) (expandOne a kind) (expandOne' b kind))
    {definition other : MacroDefinition} (like : definition.Like P.likeness other)
    (node : Node.Like P.likeness a b) :
    P.Follows (Node.Like P.likeness) (useMacro expandOne definition a)
      (useMacro expandOne' other b) := by
  obtain ⟨warnings, unplaced, result⟩ := like.apply node
  have start := node.span.start
  refine .get fun {s t} abreast => Leads.both ?_ abreast
  dsimp only
  rw [abreast.depth, like.signature, warnings, like.deferred]
  refine .ite (follows_refuse start rfl) ?_
  generalize (definition.apply a).result = x, (other.apply b).result = y at result
  cases result with
  | ok made =>
    refine (follows_notes start unplaced).after fun _ => .ite (.pure made) ?_
    exact follows_nested (follows_expandDeferred h node.span _ made)
  | error failure unplacedFailure =>
    cases failure with
    | fault fault => exact .throw fault
    | mistake report =>
      exact (follows_notes start unplaced).after fun _ => follows_refuse start unplacedFailure

/-- **Macros that are alike make nodes that are alike**, as deep as they go. -/
theorem follows_invokeWithin (levels : Nat) (node : Node.Like P.likeness a b) (kind : MacroKind) :
    P.Follows (Node.Like P.likeness) (invokeWithin levels a kind) (invokeWithin levels b kind) := by
  induction levels generalizing a b kind with
  | zero => exact .throw _
  | succ levels ih =>
    refine .get fun {s t} abreast => Leads.both ?_ abreast
    have meant := abreast.macros.resolve (invokedName a) kind node
    rw [node.invokedName_eq]
    generalize s.visible.macros.resolve (invokedName a) kind a = x,
      t.visible.macros.resolve (invokedName a) kind b = y at meant
    cases meant with
    | error report unplaced => exact follows_refuse node.span.start unplaced
    | ok found =>
      cases found with
      | none => exact .pure node
      | some found => exact follows_useMacro (fun inner kind => ih inner kind) found.value node

lemma follows_invoke (node : Node.Like P.likeness a b) (kind : MacroKind) :
    P.Follows (Node.Like P.likeness) (invoke a kind) (invoke b kind) :=
  .get fun {s t} abreast => by
    rw [abreast.depth]
    exact (follows_invokeWithin _ node kind).both abreast

/-- Where numbers count, the same nodes are marked. -/
lemma mentionsParameter_eq (scope : TemplateScope) (exact : P.likeness.exact)
    (node : Node.Like P.likeness a b) :
    scope.mentionsParameter b = scope.mentionsParameter a := by
  have nodes := node.numbered_nodes exact
  rw [TemplateScope.mentionsParameter, TemplateScope.mentionsParameter]
  generalize a.nodes = xs, b.nodes = ys at nodes
  induction nodes with
  | nil => rfl
  | cons first _ ih => simp only [List.any_cons, first.2, ih]

lemma drop_eq (scope : TemplateScope) (exact : P.likeness.exact)
    (node : Node.Like P.likeness a b) : scope.drop b = scope.drop a := by
  have nodes := node.numbered_nodes exact
  rw [TemplateScope.drop, TemplateScope.drop]
  generalize a.nodes = xs, b.nodes = ys at nodes
  induction nodes generalizing scope with
  | nil => rfl
  | cons first _ ih =>
    rw [List.foldl_cons, List.foldl_cons]
    dsimp only
    rw [first.2]
    exact ih _

/-- **Two parsers expand nodes that are alike** now, or both later. -/
theorem follows_expand (node : Node.Like P.likeness a b) (kind : MacroKind) :
    P.Follows (Node.Like P.likeness) (expand a kind) (expand b kind) := by
  refine .get fun {s t} abreast => ?_
  rw [abreast.scope]
  cases inside : s.scope with
  | none => exact (follows_invoke node kind).both abreast
  | some scope =>
    have exact := abreast.inside (by rw [inside]; rfl)
    have same := abreast.id_eq inside node
    dsimp only
    rw [mentionsParameter_eq scope exact node, same]
    let marked : TemplateScope := { scope with deferred := scope.deferred.insert a.id kind }
    have marks : P.Follows Eq _ _ :=
      follows_rescope (f := fun _ => some marked) (g := fun _ => some marked) (fun _ => rfl)
        fun _ _ => exact
    exact (Leads.ite (marks.after fun _ => .pure node) (follows_invoke node kind)).both abreast

/-! ### Single nodes -/

lemma follows_primitive (token : Token) (expands : Bool) :
    P.Follows (Node.Like P.likeness) (primitive token expands)
      (primitive (token.shift P.ahead) expands) := by
  refine follows_freshId.bind fun id id' same => ?_
  have node : Node.Like P.likeness (.primitive token.content ⟨id, ⟨token.start, token.stop⟩⟩)
      (.primitive token.content ⟨id', ⟨token.start + P.ahead, token.stop + P.ahead⟩⟩) :=
    .primitive ⟨same, P.shifts _, P.shifts _⟩
  refine .ite (.pure node) ((follows_parameterIndex? _).after fun parameter => ?_)
  cases parameter with
  | some parameter => exact (follows_markReference same _).after fun _ => .pure node
  | none => exact .ite (follows_invoke node _) (.pure node)

lemma follows_operatorNode (op : OperatorDefinition) {operands operands' : List Node}
    (related : Node.LikeValues P.likeness operands operands') {span span' : Span}
    (spans : P.likeness.Spans span span') :
    P.Follows (Node.Like P.likeness) (operatorNode op operands span)
      (operatorNode op operands' span') :=
  follows_freshId.bind fun id id' same => follows_expand (a := .list _ _ _ ⟨id, span⟩)
    (b := .list _ _ _ ⟨id', span'⟩) (.list related ⟨same, spans⟩) _

lemma follows_accessorCall (op : OperatorDefinition) (receiver : Node.Like P.likeness a b)
    (member : Node.Like P.likeness c d) {span span' : Span} (spans : P.likeness.Spans span span') :
    P.Follows (Node.Like P.likeness) (accessorCall op a c span) (accessorCall op b d span') := by
  have values : Node.LikeValues P.likeness (callValues a c) (callValues b d) := by
    cases member with
    | primitive _ => exact .cons receiver .nil
    | object properties origins =>
      exact .cons receiver (.cons (.object properties origins) .nil)
    | list values origins => exact .cons receiver (.cons (.list values origins) .nil)
  rw [accessorCall.eq_def, accessorCall.eq_def]
  refine .get fun {s t} abreast => ?_
  have reference : (t.scope.bind fun scope => scope.references.find? d.id)
      = s.scope.bind fun scope => scope.references.find? c.id := by
    rw [abreast.scope]
    cases inside : s.scope with
    | none => rfl
    | some scope => rw [abreast.id_eq inside member]
  rw [reference, member.invokedName_eq, member.ofMember_eq]
  refine Leads.both ?_ abreast
  have erased : P.Follows Eq (modify fun s : ParserState => { s with scope := s.scope.map fun scope =>
      { scope with references := scope.references.erase c.id } })
      (modify fun s : ParserState => { s with scope := s.scope.map fun scope =>
        { scope with references := scope.references.erase d.id } }) :=
    follows_remark fun _ exact => by rw [numbered_id member exact]
  refine erased.after fun _ => follows_freshId.bind fun id id' same => ?_
  have call : Node.Like P.likeness
      (.list (op.nodeName ++ invokedName c) (callValues a c) false ⟨id, span⟩)
      (.list (op.nodeName ++ invokedName c) (callValues b d) false ⟨id', span'⟩) :=
    .list values ⟨same, spans⟩
  dsimp only
  split
  · exact (follows_markReference same _).after fun _ => follows_expand call _
  · exact follows_expand call _

lemma follows_binaryNode (op : OperatorDefinition) (left : Node.Like P.likeness a b)
    (right : Node.Like P.likeness c d) :
    P.Follows (Node.Like P.likeness) (binaryNode op a c) (binaryNode op b d) := by
  have spans : P.likeness.Spans ⟨a.span.start, c.span.stop⟩ ⟨b.span.start, d.span.stop⟩ :=
    ⟨left.span.start, right.span.stop⟩
  exact .ite (follows_accessorCall op left right spans)
    (follows_operatorNode op (.cons left (.cons right .nil)) spans)

lemma follows_addProperty (options : CompileOptions) (key : Token) (value : Node.Like P.likeness a b)
    {ps qs : List (String × Node)} (related : Node.LikeProperties P.likeness ps qs) :
    P.Follows (Node.LikeProperties P.likeness) (addProperty options key a ps)
      (addProperty options (key.shift P.ahead) b qs) := by
  rw [addProperty, addProperty]
  simp only [Token.shift, related.hasKey_eq]
  have made : P.Follows (Node.LikeProperties P.likeness)
      (pure (Node.insertNew ps key.content a) : Parser (List (String × Node)))
      (pure (Node.insertNew qs key.content b)) := .pure (related.insertNew key.content value)
  refine .ite ?_ made
  refine (follows_note (.withSeverity (told_errorAt (P.shifts _) (.refl _)) _)).after fun _ => ?_
  exact (follows_remark fun scope exact => drop_eq scope exact value).after fun _ => made

/-! ### Groups -/

/-- Contents of groups that are alike. -/
inductive LikeContent (P : Parallel) : GroupContent → GroupContent → Prop where
  | properties {ps qs : List (String × Node)} {o o' : Nat}
    (related : Node.LikeProperties P.likeness ps qs) (offset : P.likeness.offset o o') :
    LikeContent P (.properties ps o) (.properties qs o')
  | values {vs ws : List Node} {operation : Bool} {o o' : Nat}
    (related : Node.LikeValues P.likeness vs ws) (offset : P.likeness.offset o o') :
    LikeContent P (.values vs operation o) (.values ws operation o')

lemma follows_completeGroup (options : CompileOptions) (name : Option Token)
    (start : P.likeness.offset o o') (expands : Bool) (reference : Option Nat)
    {content content' : GroupContent} (like : P.LikeContent content content') :
    P.Follows (Node.Like P.likeness) (completeGroup options name o expands reference content)
      (completeGroup options (name.map (·.shift P.ahead)) o' expands reference content') := by
  have text : ((name.map (·.shift P.ahead)).map Token.content).getD ""
      = (name.map Token.content).getD "" := by cases name <;> rfl
  rw [completeGroup.eq_def, completeGroup.eq_def, text]
  have group : P.Follows (Node.Like P.likeness)
      (groupNode ((name.map Token.content).getD "") o expands reference content)
      (groupNode ((name.map Token.content).getD "") o' expands reference content') := by
    have kind : content'.kind = content.kind := by
      cases like with
      | properties => rfl
      | @values _ _ operation => cases operation <;> rfl
    rw [groupNode, groupNode, kind]
    refine follows_freshId.bind fun id id' same => ?_
    have node (text : String) :
        Node.Like P.likeness (content.node text id o) (content'.node text id' o') := by
      cases like with
      | properties related stop => exact .object related ⟨same, start, stop⟩
      | values related stop => exact .list related ⟨same, start, stop⟩
    have same' : P.Numbered (content.node ((name.map Token.content).getD "") id o).id
        (content'.node ((name.map Token.content).getD "") id' o').id := (node _).origin.id
    have offered : P.Follows (Node.Like P.likeness)
        (if expands then expand (content.node ((name.map Token.content).getD "") id o) content.kind
          else pure (content.node ((name.map Token.content).getD "") id o))
        (if expands then expand (content'.node ((name.map Token.content).getD "") id' o') content.kind
          else pure (content'.node ((name.map Token.content).getD "") id' o')) :=
      .ite (follows_expand (node _) _) (.pure (node _))
    cases reference with
    | none => exact offered
    | some parameter => exact (follows_markReference same' _).after fun _ => offered
  dsimp only
  cases ((name.map Token.content).getD "").isEmpty && options.collapseUnaryOperation with
  | false => exact group
  | true =>
    cases like with
    | properties related offset => exact group
    | @values vs ws operation _ _ related offset =>
      cases related with
      | nil => exact group
      | cons first rest =>
        cases rest with
        | cons _ _ => exact group
        | nil =>
          cases operation with
          | false => exact group
          | true => exact .pure first

/-! ### Tokens with a decision -/

/-- Whether a token stands right behind another one does not depend on where both stand. -/
lemma behind_shift (first second : Token) (ahead : Nat) :
    ((second.shift ahead).start = (first.shift ahead).stop) = (second.start = first.stop) :=
  propext Nat.add_right_cancel_iff

/-- The same head of a group, further on. -/
def FurtherHead (P : Parallel) (head other : Option (Option Token × Token)) : Prop :=
  other = head.map fun found => (found.1.map (·.shift P.ahead), found.2.shift P.ahead)

lemma follows_groupHead? (nameMode : Mode) :
    P.Follows P.FurtherHead (groupHead? nameMode) (groupHead? nameMode) := by
  have nothing : P.Leads (P.Looking P.Along) P.Abreast P.FurtherHead
      (do rewind; return none) (do rewind; return none) :=
    leads_rewind.after fun _ => .pure rfl
  refine .looking <| (leads_lookAhead _ _).bind fun first _ further => ?_
  subst further
  refine .ite (leads_commit.after fun _ => .pure rfl) (.ite ?_ nothing)
  refine (leads_lookAhead _ _).bind fun second _ further => ?_
  subst further
  simp only [behind_shift]
  exact .ite (leads_commit.after fun _ => .pure rfl) nothing

lemma follows_operatorOf? (group : PriorityGroup) (skipBreaks : Bool) :
    P.Follows Eq (operatorOf? group skipBreaks) (operatorOf? group skipBreaks) := by
  refine (follows_peek _ _).bind fun token _ further => ?_
  subst further
  refine .ite ?_ (.pure rfl)
  have kind : (token.shift P.ahead).kind = token.kind := rfl
  have text : (token.shift P.ahead).content = token.content := rfl
  rw [kind, text]
  cases group.find? token.content (token.kind = .keyword) with
  | none => exact .pure rfl
  | some op => exact (follows_skipToken _ _).after fun _ => .pure rfl

/-- What a cause says of a token does not depend on where the token stands. -/
def Portable (missing : Token → Cause) : Prop :=
  ∀ token ahead, (missing token).Same (missing (Token.shift token ahead))

lemma follows_complain_token {m : Token → Cause} (portable : Portable m) (token : Token) :
    P.Follows Eq (complain token.start (m token))
      (complain (token.shift P.ahead).start (m (token.shift P.ahead))) :=
  follows_complain (P.shifts _) (portable token P.ahead)

lemma follows_separator (mode : Mode) (closer : TokenKind) :
    P.Follows Eq (separator mode closer) (separator mode closer) := by
  refine (follows_peek _ _).bind fun token _ further => ?_
  subst further
  refine .ite (follows_skipToken _ _) ((follows_closesAwaited token.kind).after fun closes => ?_)
  refine .ite (.pure rfl) ((follows_complain_token ?_ token).after fun _ => follows_recover _)
  exact fun _ _ => ⟨rfl, rfl, rfl⟩

/-! ## Calls -/

/-- Clauses that say the same, at offsets that correspond. -/
structure LikeClause (P : Parallel) (first second : Clause) : Prop where
  name : second.name = first.name
  priority : second.priority = first.priority
  offset : P.likeness.offset first.offset second.offset

/-- Parameters one by one alike. -/
abbrev LikeParameters (P : Parallel) : List Parameter → List Parameter → Prop :=
  List.Forall₂ (Parameter.Like P.likeness)

/-- **Calls that correspond**: the same, with arguments that are alike. -/
inductive Twin (P : Parallel) : {α : Type} → Reading α → Reading α → Prop where
  | value : Twin P .value .value
  | operand : Twin P .operand .operand
  | group (nameMode : Mode) (expands : Bool) : Twin P (.group nameMode expands) (.group nameMode expands)
  | properties {o o' : Nat} {ps qs : List (String × Node)} (start : P.likeness.offset o o')
    (known : Node.LikeProperties P.likeness ps qs) : Twin P (.properties o ps) (.properties o' qs)
  | elements {o o' : Nat} (mode : Mode) (closer : TokenKind) {vs ws : List Node}
    (start : P.likeness.offset o o') (known : Node.LikeValues P.likeness vs ws) :
    Twin P (.elements o mode closer vs) (.elements o' mode closer ws)
  | expression : Twin P .expression .expression
  | level (groups : List PriorityGroup) : Twin P (.level groups) (.level groups)
  | binary (ops : PriorityGroup) (tighter : List PriorityGroup) {a b : Node}
    (left : Node.Like P.likeness a b) : Twin P (.binary ops tighter a) (.binary ops tighter b)
  | postfixes (ops : PriorityGroup) {a b : Node} (inner : Node.Like P.likeness a b) :
    Twin P (.postfixes ops a) (.postfixes ops b)
  | parameters (closer : TokenKind) {ps qs : List Parameter} (complete : Bool)
    (known : P.LikeParameters ps qs) :
    Twin P (.parameters closer ps complete) (.parameters closer qs complete)
  | clauses {cs ds : List Clause} (known : List.Forall₂ P.LikeClause cs ds) :
    Twin P (.clauses cs) (.clauses ds)
  | skipGroup (closer : Option TokenKind) : Twin P (.skipGroup closer) (.skipGroup closer)
  | skipToSeparator (closer : Option TokenKind) :
    Twin P (.skipToSeparator closer) (.skipToSeparator closer)

/-- **What calls that correspond answer.** -/
def Answers (P : Parallel) : Reading α → α → α → Prop
  | .value | .operand | .expression | .level _ | .binary _ _ _ | .postfixes _ _ =>
    Node.Like P.likeness
  | .group _ _ => Node.LikeOption P.likeness
  | .properties _ _ => fun x y =>
    Node.LikeProperties P.likeness x.1 y.1 ∧ P.likeness.offset x.2 y.2
  | .elements _ _ _ _ => fun x y => Node.LikeValues P.likeness x.1 y.1 ∧ P.likeness.offset x.2 y.2
  | .parameters _ _ _ => Option.Rel P.LikeParameters
  | .clauses _ => Option.Rel (List.Forall₂ P.LikeClause)
  | .skipGroup _ | .skipToSeparator _ => Eq

section Rounds

variable {options : CompileOptions} {calls calls' : ∀ {γ : Type}, Reading γ → Parser γ}
  (h : ∀ {γ : Type} {next next' : Reading γ}, P.Twin next next' →
    P.Follows (P.Answers next) (calls next) (calls' next'))

include h

lemma follows_atomRound (nameMode mode : Mode) {missing : Token → Cause}
    (portable : Portable missing) :
    P.Follows (Node.Like P.likeness) (Reading.atomRound calls nameMode mode missing)
      (Reading.atomRound calls' nameMode mode missing) := by
  refine follows_takeSuppressed.after fun suppressed => (h (.group _ _)).bind fun _ _ group => ?_
  cases group with
  | some node => exact .pure node
  | none =>
    refine (follows_peek _ _).bind fun token _ further => ?_
    subst further
    refine .ite ((follows_skipToken _ _).after fun _ => follows_primitive token _) ?_
    exact (follows_complain_token portable token).after fun _ =>
      follows_placeholderAt (P.shifts _)

lemma follows_contentRound (opener : TokenKind) {o o' : Nat} (start : P.likeness.offset o o') :
    P.Follows P.LikeContent (Reading.contentRound calls opener o)
      (Reading.contentRound calls' opener o') := by
  refine .ite ?_ (.ite ?_ ?_)
  · exact (h (.properties start .nil)).bind fun _ _ read => .pure (.properties read.1 read.2)
  · exact (h (.elements _ _ start .nil)).bind fun _ _ read => .pure (.values read.1 read.2)
  · exact (h (.elements _ _ start .nil)).bind fun _ _ read => .pure (.values read.1 read.2)

/-- Behind the head of a group. -/
lemma follows_foundRound (name : Option Token) (opener : Token) (expands : Bool) :
    P.Follows (Node.Like P.likeness) (Reading.foundRound options calls ⟨name, opener, expands⟩)
      (Reading.foundRound options calls'
        ⟨name.map (·.shift P.ahead), opener.shift P.ahead, expands⟩) := by
  have reference : P.Follows Eq (Head.reference ⟨name, opener, expands⟩)
      (Head.reference ⟨name.map (·.shift P.ahead), opener.shift P.ahead, expands⟩) := by
    cases name with
    | none => exact .pure rfl
    | some name => exact .ite (follows_parameterIndex? _) (.pure rfl)
  have start : P.likeness.offset (Head.start ⟨name, opener, expands⟩)
      (Head.start ⟨name.map (·.shift P.ahead), opener.shift P.ahead, expands⟩) := by
    cases name <;> exact P.shifts _
  refine reference.after fun reference => (follows_await _).after fun _ => ?_
  refine (follows_contentRound h opener.kind start).bind fun _ _ content => ?_
  exact follows_settle.after fun _ =>
    follows_completeGroup options name start expands reference content

lemma follows_groupRound (nameMode : Mode) (expands : Bool) :
    P.Follows (Node.LikeOption P.likeness) (Reading.groupRound options calls nameMode expands)
      (Reading.groupRound options calls' nameMode expands) := by
  rw [Reading.groupRound_eq, Reading.groupRound_eq]
  refine (follows_groupHead? _).bind fun head _ further => ?_
  subst further
  match head with
  | none => exact .pure .none
  | some (name, opener) =>
    exact (follows_foundRound h name opener expands).bind fun _ _ node => .pure (.some node)

lemma follows_propertiesRound {o o' : Nat} (start : P.likeness.offset o o')
    {ps qs : List (String × Node)} (known : Node.LikeProperties P.likeness ps qs) :
    P.Follows (P.Answers (.properties o ps)) (Reading.propertiesRound options calls o ps)
      (Reading.propertiesRound options calls' o' qs) := by
  have again := h (.properties start known)
  refine (follows_peek _ _).bind fun token _ further => ?_
  subst further
  refine .ite ((follows_skipToken _ _).after fun _ => .pure ⟨known, P.shifts _⟩) ?_
  refine (follows_closesAwaited token.kind).after fun closes => .ite ?_ (.ite ?_ (.ite ?_ ?_))
  · exact (follows_complain start (.refl _)).after fun _ => .pure ⟨known, P.shifts _⟩
  · exact (follows_skipToken _ _).after fun _ =>
      (follows_complain_at token.start _).after fun _ => again
  · refine (follows_skipToken _ _).after fun _ => (follows_peek _ _).bind fun colon _ further => ?_
    subst further
    refine .ite ?_ ?_
    · exact (follows_complain_token (m := .expectedKeyColon token.content)
        (fun _ _ => ⟨rfl, rfl, rfl⟩) colon).after fun _ => (follows_recover _).after fun _ => again
    · refine (follows_skipToken _ _).after fun _ => (h .value).bind fun _ _ value => ?_
      refine (follows_addProperty options token value known).bind fun _ _ known => ?_
      exact (follows_separator _ _).after fun _ => h (.properties start known)
  · exact (follows_complain_token (fun _ _ => ⟨rfl, rfl, rfl⟩) token).after fun _ =>
      (follows_recover _).after fun _ => again

lemma follows_elementsRound (mode : Mode) (closer : TokenKind) {o o' : Nat}
    (start : P.likeness.offset o o') {vs ws : List Node}
    (known : Node.LikeValues P.likeness vs ws) :
    P.Follows (P.Answers (.elements o mode closer vs)) (Reading.elementsRound calls o mode closer vs)
      (Reading.elementsRound calls' o' mode closer ws) := by
  have reversed : Node.LikeValues P.likeness vs.reverse ws.reverse := List.rel_reverse known
  refine (follows_peek _ _).bind fun token _ further => ?_
  subst further
  refine .ite ((follows_skipToken _ _).after fun _ => .pure ⟨reversed, P.shifts _⟩) ?_
  refine (follows_closesAwaited token.kind).after fun closes => .ite ?_ (.ite ?_ ?_)
  · exact (follows_complain start (.refl _)).after fun _ => .pure ⟨reversed, P.shifts _⟩
  · exact (follows_skipToken _ _).after fun _ =>
      (follows_complain_at token.start _).after fun _ => h (.elements mode closer start known)
  · have element : P.Follows (Node.Like P.likeness) (Reading.elementRound calls mode)
        (Reading.elementRound calls' mode) := .ite (h .expression) (h .value)
    exact element.bind fun _ _ node => (follows_separator _ _).after fun _ =>
      h (.elements mode closer start (.cons node known))

lemma follows_levelRound (groups : List PriorityGroup) :
    P.Follows (Node.Like P.likeness) (Reading.levelRound calls groups)
      (Reading.levelRound calls' groups) := by
  cases groups with
  | nil => exact h .operand
  | cons ops tighter =>
    rw [Reading.levelRound, Reading.levelRound]
    cases ops.fixity with
    | binary => exact (h (.level tighter)).bind fun _ _ left => h (.binary ops tighter left)
    | postfixed => exact (h (.level tighter)).bind fun _ _ inner => h (.postfixes ops inner)
    | prefixed =>
      refine follows_position.bind fun _ _ start => (follows_operatorOf? _ _).after fun op => ?_
      cases op with
      | none => exact h (.level tighter)
      | some op =>
        exact (h (.level (ops :: tighter))).bind fun _ _ inner =>
          follows_operatorNode op (.cons inner .nil) ⟨start, inner.span.stop⟩

lemma follows_binaryRound (ops : PriorityGroup) (tighter : List PriorityGroup)
    (left : Node.Like P.likeness a b) :
    P.Follows (Node.Like P.likeness) (Reading.binaryRound calls ops tighter a)
      (Reading.binaryRound calls' ops tighter b) := by
  refine (follows_operatorOf? _ _).after fun op => ?_
  cases op with
  | none => exact .pure left
  | some op =>
    refine .ite ((h (.level _)).bind fun _ _ right => follows_binaryNode op left right) ?_
    exact (follows_setSuppressed _).after fun _ => (h (.level _)).bind fun _ _ right =>
      (follows_setSuppressed _).after fun _ => (follows_binaryNode op left right).bind fun _ _ node =>
        h (.binary ops tighter node)

lemma follows_postfixesRound (ops : PriorityGroup) (inner : Node.Like P.likeness a b) :
    P.Follows (Node.Like P.likeness) (Reading.postfixesRound calls ops a)
      (Reading.postfixesRound calls' ops b) := by
  refine (follows_operatorOf? _ _).after fun op => ?_
  cases op with
  | none => exact .pure inner
  | some op =>
    refine follows_position.bind fun o o' stop => ?_
    have spans : P.likeness.Spans ⟨a.span.start, o⟩ ⟨b.span.start, o'⟩ := ⟨inner.span.start, stop⟩
    exact (follows_operatorNode op (.cons inner .nil) spans).bind fun _ _ node =>
      h (.postfixes ops node)

lemma follows_fallbackRound {p q : Parameter} (like : p.Like P.likeness q) :
    P.Follows (Parameter.Like P.likeness) (Reading.fallbackRound calls p)
      (Reading.fallbackRound calls' q) := by
  refine (follows_peek _ _).bind fun token _ further => ?_
  subst further
  refine .ite ?_ (.pure like)
  exact (follows_skipToken _ _).after fun _ => (h .value).bind fun _ _ node =>
    .pure ⟨like.name, like.declared, like.inferred, .some node⟩

omit h in
lemma follows_parameterType {p q : Parameter} (like : p.Like P.likeness q) :
    P.Follows (fun x y => x.1.Like P.likeness y.1 ∧ y.2 = x.2) (parameterType p)
      (parameterType q) := by
  refine (follows_peek _ _).bind fun colon _ further => ?_
  subst further
  refine .ite ((follows_skipToken _ _).after fun _ => (follows_advance _ _).bind fun type _ further =>
    ?_) (.pure ⟨like, rfl⟩)
  subst further
  have kind : (type.shift P.ahead).kind = type.kind := rfl
  have text : (type.shift P.ahead).content = type.content := rfl
  rw [kind, text]
  cases if type.kind = .literal then ShapeSet.ofAnnotation? type.content else none with
  | some shapes => exact .pure ⟨like.withType shapes, rfl⟩
  | none =>
    exact (follows_complain_token (fun _ _ => ⟨rfl, rfl, rfl⟩) type).after fun _ =>
      .pure ⟨like, rfl⟩

omit h in
lemma follows_parameterSeparator (closer : TokenKind) {p q : Parameter}
    (like : p.Like P.likeness q) :
    P.Follows Eq (parameterSeparator closer p) (parameterSeparator closer q) := by
  refine (follows_peek _ _).bind fun token _ further => ?_
  subst further
  refine .ite ((follows_skipToken _ _).after fun _ => .pure rfl) ?_
  refine (follows_closesAwaited token.kind).after fun closes => .ite (.pure rfl) ?_
  rw [like.name]
  exact (follows_complain_token (m := .expectedParameterSeparator closer p.name)
    (fun _ _ => ⟨rfl, rfl, rfl⟩) token).after fun _ => (follows_recover _).after fun _ => .pure rfl

lemma follows_parametersRound (closer : TokenKind) {ps qs : List Parameter} (complete : Bool)
    (known : P.LikeParameters ps qs) :
    P.Follows (Option.Rel P.LikeParameters) (Reading.parametersRound calls closer ps complete)
      (Reading.parametersRound calls' closer qs complete) := by
  refine (follows_peek _ _).bind fun token _ further => ?_
  subst further
  refine .ite ((follows_skipToken _ _).after fun _ => ?_) ?_
  · cases complete with
    | true => exact .pure (.some known)
    | false => exact .pure .none
  refine (follows_closesAwaited token.kind).after fun closes => .ite ?_ (.ite ?_ (.ite ?_ ?_))
  · exact (follows_complain_at token.start _).after fun _ => .pure .none
  · exact (follows_skipToken _ _).after fun _ =>
      (follows_complain_at token.start _).after fun _ => h (.parameters closer complete known)
  · refine (follows_skipToken _ _).after fun _ =>
      (follows_parameterType (Parameter.like_plain token.content)).bind fun x y typed => ?_
    obtain ⟨p, wellTyped⟩ := x
    obtain ⟨q, other⟩ := y
    obtain ⟨like, same⟩ := typed
    obtain rfl : other = wellTyped := same
    refine (follows_fallbackRound h like).bind fun p q like => ?_
    have known : P.LikeParameters (ps ++ [p]) (qs ++ [q]) :=
      List.rel_append known (.cons like .nil)
    exact (follows_parameterSeparator closer like).after fun separated =>
      h (.parameters closer (complete && other && separated) known)
  · exact (follows_complain_token (fun _ _ => ⟨rfl, rfl, rfl⟩) token).after fun _ =>
      (follows_recover _).after fun _ => h (.parameters closer false known)

omit h in
lemma follows_giveUp_token {m : Token → Cause} (portable : Portable m) (token : Token) :
    P.Follows Eq (giveUp token.start (m token))
      (giveUp (token.shift P.ahead).start (m (token.shift P.ahead))) :=
  follows_giveUp (P.shifts _) (portable token P.ahead)

omit h in
lemma follows_clausePriority : P.Follows Eq clausePriority clausePriority := by
  refine (follows_peek _ _).bind fun opener _ further => ?_
  subst further
  refine .ite (.pure rfl) ((follows_skipToken _ _).after fun _ =>
    (follows_advance _ _).bind fun number _ further => ?_)
  subst further
  have mistaken : P.Follows Eq
      (do giveUp number.start (.invalidPriority number); return (none : Option (Option Priority)))
      (do giveUp (number.shift P.ahead).start (.invalidPriority (number.shift P.ahead)); return none) :=
    (follows_giveUp_token (fun _ _ => ⟨rfl, rfl, rfl⟩) number).after fun _ => .pure rfl
  have same : (if (number.shift P.ahead).kind = .literal
      then Priority.ofText? (number.shift P.ahead).content else none)
    = if number.kind = .literal then Priority.ofText? number.content else none := rfl
  rw [same]
  match if number.kind = .literal then Priority.ofText? number.content else none with
  | some (.finite rank) =>
    refine (follows_advance _ _).bind fun close _ further => ?_
    subst further
    refine .ite (.pure rfl) ?_
    exact (follows_giveUp_token (fun _ _ => ⟨rfl, rfl, rfl⟩) close).after fun _ => .pure rfl
  | none | some (.infinite _) | some .notANumber => exact mistaken

lemma follows_clausesRound {cs ds : List Clause} (known : List.Forall₂ P.LikeClause cs ds) :
    P.Follows (Option.Rel (List.Forall₂ P.LikeClause)) (Reading.clausesRound calls cs)
      (Reading.clausesRound calls' ds) := by
  refine (follows_advance _ _).bind fun word _ further => ?_
  subst further
  refine .ite ((follows_giveUp_token (fun _ _ => ⟨rfl, rfl, rfl⟩) word).after fun _ => .pure .none) ?_
  refine follows_clausePriority.after fun priority => ?_
  cases priority with
  | none => exact .pure .none
  | some priority =>
    have known : List.Forall₂ P.LikeClause (cs ++ [⟨word.content, priority, word.start⟩])
        (ds ++ [⟨word.content, priority, word.start + P.ahead⟩]) :=
      List.rel_append known (.cons ⟨rfl, rfl, P.shifts _⟩ .nil)
    refine (follows_peek _ _).bind fun next _ further => ?_
    subst further
    exact .ite ((follows_skipToken _ _).after fun _ => h (.clauses known)) (.pure (.some known))

/-- **Rounds that correspond** are followed by rounds that do. -/
lemma follows_round {call call' : Reading α} (twin : P.Twin call call') :
    P.Follows (P.Answers call) (call.round options calls) (call'.round options calls') := by
  cases twin with
  | value => exact follows_atomRound h _ _ fun _ _ => ⟨rfl, rfl, rfl⟩
  | operand => exact follows_atomRound h _ _ fun _ _ => ⟨rfl, rfl, rfl⟩
  | group => exact follows_groupRound h _ _
  | properties start known => exact follows_propertiesRound h start known
  | elements mode closer start known => exact follows_elementsRound h mode closer start known
  | expression =>
    refine .get fun {s t} abreast => ?_
    rw [abreast.operators]
    exact (h (.level s.visible.operators.priorityGroups)).both abreast
  | level => exact follows_levelRound h _
  | binary _ _ left => exact follows_binaryRound h _ _ left
  | postfixes _ inner => exact follows_postfixesRound h _ inner
  | parameters closer complete known => exact follows_parametersRound h closer complete known
  | clauses known => exact follows_clausesRound h known
  | skipGroup closer =>
    refine (follows_peek _ _).bind fun token _ further => ?_
    subst further
    refine .ite (.pure rfl) ((follows_closesAwaited token.kind).after fun closes => ?_)
    refine .ite (.pure rfl) ((follows_skipToken _ _).after fun _ => .ite (.pure rfl) ?_)
    exact .ite ((h (.skipGroup token.kind.closer?)).after fun _ => h (.skipGroup closer))
      (h (.skipGroup closer))
  | skipToSeparator closer =>
    refine (follows_peek _ _).bind fun token _ further => ?_
    subst further
    refine .ite (.pure rfl) ((follows_closesAwaited token.kind).after fun closes => ?_)
    refine .ite (.pure rfl) ((follows_skipToken _ _).after fun _ => .ite (.pure rfl) ?_)
    exact .ite ((h (.skipGroup token.kind.closer?)).after fun _ => h (.skipToSeparator closer))
      (h (.skipToSeparator closer))

end Rounds

/-- **Whatever is read inside a statement is read alike.** -/
theorem follows_within (options : CompileOptions) (fuel : Nat) {call call' : Reading α}
    (twin : P.Twin call call') :
    P.Follows (P.Answers call) (call.within options fuel) (call'.within options fuel) := by
  induction fuel generalizing α call call' with
  | zero =>
    rw [call.within_zero, call'.within_zero]
    exact .throw _
  | succ fuel ih =>
    rw [call.within_succ, call'.within_succ]
    exact follows_round ih twin

end TreeLang.Parallel
