import TreeLang.Parse.Expansion

/-!
# Reading values

A value is a primitive, or an object, a list or an operation with or without a name.  A name
belongs to the group behind it only when nothing stands between them.  Inside an operation the
elements are expressions: operands joined by the operators in force, the loosest of them outermost.

The functions of this file call each other without a bound that is visible in their arguments; what
bounds them is the text, which every round takes a token from.  They therefore take an explicit
bound, `fuel`, which `valueFuel` computes from the text ahead and the number of operators, and which
is never used up.

* `parseValue`, `parseGroup?` — a value, and a group with the name in front of it.
* `parseProperties`, `parseElements` — the contents of groups.
* `parseLevel`, `parseOperand` — expressions, one level of priority after the other.
-/

namespace TreeLang.Parser

/-! ## Single nodes -/

/-- A primitive from its token.  A bare word that names a parameter is marked as a reference; any
other bare word is offered to the macros. -/
def primitive (token : Token) (expands : Bool) : Parser Node := do
  let node := Node.primitive token.content ⟨← freshId, ⟨token.start, token.stop⟩⟩
  if token.kind = .quoted then return node
  match ← parameterIndex? token.content with
  | some parameter =>
    markReference node.id ⟨parameter, .value⟩
    return node
  | none => if expands then invoke node .constant else return node

/-- The node of an operator and its operands. -/
def operatorNode (op : OperatorDefinition) (operands : List Node) (span : Span) : Parser Node := do
  expand (.list op.nodeName operands true ⟨← freshId, span⟩) .operation

/-- **The call that an accessor builds** from a receiver and a member: `a.b` is the list `b[a]`, and
`a.f(x)` is the list `f[a, (x)]`, whose second value is the member without its name.  The name of
the call begins with the node name of the operator.  If the member was a reference to a parameter,
now the call is. -/
def accessorCall (op : OperatorDefinition) (receiver member : Node) (span : Span) :
    Parser Node := do
  let reference := (← get).scope.bind fun scope => scope.references.find? member.id
  modify fun s => { s with scope := s.scope.map fun scope =>
    { scope with references := scope.references.erase member.id } }
  let lead := op.nodeName
  let values := match member with
    | .primitive _ _ => [receiver]
    | operand => [receiver, operand.rename ""]
  let node := Node.list (lead ++ invokedName member) values false ⟨← freshId, span⟩
  match reference with
  | some reference =>
    let inner := match reference.target with
      | .name lead => lead
      | .value => ""
    markReference node.id ⟨reference.parameter, .name (lead ++ inner)⟩
  | none => pure ()
  expand node (.ofMember member)

/-- The node of a binary operator and its two operands. -/
def binaryNode (op : OperatorDefinition) (left right : Node) : Parser Node :=
  let span : Span := ⟨left.span.start, right.span.stop⟩
  if op.accessor then accessorCall op left right span else operatorNode op [left, right] span

/-! ## Tokens with a decision -/

/-- The name and the opener of a group, if a group is next: an opener, or a text and an opener with
nothing between them.  If there is none, no token is taken. -/
def groupHead? (nameMode : Mode) : Parser (Option (Option Token × Token)) := do
  let first ← lookAhead true nameMode
  if first.kind.isOpener then
    commit
    return some (none, first)
  if first.kind.isText then
    let second ← lookAhead false nameMode
    if second.kind.isOpener && second.start = first.stop then
      commit
      return some (some first, second)
  rewind
  return none

/-- The operator of a group of operators, taken if it is next. -/
def operatorOf? (group : PriorityGroup) (skipBreaks : Bool) :
    Parser (Option OperatorDefinition) := do
  let token ← peek skipBreaks .operation
  if token.kind = .operator || token.kind = .keyword then
    match group.find? token.content (token.kind = .keyword) with
    | some op =>
      skipToken skipBreaks .operation
      return some op
    | none => return none
  else return none

/-- Takes the separator behind an element.  Where there is none and the group does not end either,
tokens are skipped up to one. -/
def separator (mode : Mode) (closer : TokenKind) : Parser Unit := do
  let token ← peek false mode
  if token.kind = .comma || token.kind = .lineBreak then skipToken false mode
  else if token.kind = closer || token.kind = .endOfInput || (← closesAwaited token.kind) then
    return
  else
    complain token.start (.expectedSeparator closer token)
    recover (some closer)

/-- Adds a property to those of an object.  When its key is taken, the first value is kept, and the
marks on the new one are forgotten. -/
def addProperty (options : CompileOptions) (key : Token) (value : Node)
    (properties : List (String × Node)) : Parser (List (String × Node)) := do
  if Node.hasKey properties key.content then
    note ((Report.errorAt key.start (.duplicateKey key.content)).withSeverity
      options.duplicatePropertySeverity)
    modify fun s => { s with scope := s.scope.map (·.drop value) }
  return Node.insertNew properties key.content value

/-- The operand with every postfix operator of a group that follows it. -/
def postfixes : Nat → PriorityGroup → Node → Parser Node
  | 0, _, _ => throw .exhausted
  | fuel + 1, group, operand => do
    match ← operatorOf? group false with
    | none => return operand
    | some op =>
      let node ← operatorNode op [operand] ⟨operand.span.start, ← position⟩
      postfixes fuel group node

/-! ## Values and expressions -/

/-- What a group holds. -/
inductive GroupContent where
  | properties (entries : List (String × Node)) (stop : Nat)
  | values (elements : List Node) (operation : Bool) (stop : Nat)

/-- The kind of macro that a group invokes. -/
def GroupContent.kind : GroupContent → MacroKind
  | .properties _ _ => .object
  | .values _ true _ => .operation
  | .values _ false _ => .list

/-- The node of a group. -/
def GroupContent.node (content : GroupContent) (name : String) (id start : Nat) : Node :=
  match content with
  | .properties entries stop => .object name entries ⟨id, ⟨start, stop⟩⟩
  | .values elements operation stop => .list name elements operation ⟨id, ⟨start, stop⟩⟩

/-- Completes a group.  An unnamed operation of one element may be that element; any other group is
a node, a reference if its bare name is that of a parameter, and is offered to the macros. -/
def completeGroup (options : CompileOptions) (name : Option Token) (start : Nat) (expands : Bool)
    (reference : Option Nat) (content : GroupContent) : Parser Node := do
  let text := (name.map Token.content).getD ""
  match text.isEmpty && options.collapseUnaryOperation, content with
  | true, .values [only] true _ => return only
  | _, _ =>
    let node := content.node text (← freshId) start
    match reference with
    | some parameter => markReference node.id ⟨parameter, .name ""⟩
    | none => pure ()
    if expands then expand node content.kind else return node

variable (options : CompileOptions)

mutual

/-- **A value** inside an object or a list, in a definition, or at the top of a source. -/
def parseValue : Nat → Parser Node
  | 0 => throw .exhausted
  | fuel + 1 => do
    let expands := !(← takeSuppressed)
    match ← parseGroup? fuel .word expands with
    | some node => return node
    | none =>
      let token ← peek true .value
      if token.kind.isText then
        skipToken true .value
        primitive token expands
      else
        complain token.start (.expectedValue token)
        placeholderAt token.start

/-- **An operand** inside an operation. -/
def parseOperand : Nat → Parser Node
  | 0 => throw .exhausted
  | fuel + 1 => do
    let expands := !(← takeSuppressed)
    match ← parseGroup? fuel .operation expands with
    | some node => return node
    | none =>
      let token ← peek true .operation
      if token.kind.isText then
        skipToken true .operation
        primitive token expands
      else
        complain token.start (.expectedOperand token)
        placeholderAt token.start

/-- A group with the name in front of it, if one is next. -/
def parseGroup? : Nat → Mode → Bool → Parser (Option Node)
  | 0, _, _ => throw .exhausted
  | fuel + 1, nameMode, expands => do
    match ← groupHead? nameMode with
    | none => return none
    | some (name, opener) =>
      let start := (name.map Token.start).getD opener.start
      let reference ← match name with
        | some name =>
          if name.kind = .literal then parameterIndex? name.content else pure none
        | none => pure none
      let closer := opener.kind.closer?.getD .rParen
      await closer
      let content ←
        if opener.kind = .lBrace then do
          let (properties, stop) ← parseProperties fuel start []
          pure (GroupContent.properties properties stop)
        else if opener.kind = .lBracket then do
          let (values, stop) ← parseElements fuel start .value closer []
          pure (GroupContent.values values false stop)
        else do
          let (values, stop) ← parseElements fuel start .operation closer []
          pure (GroupContent.values values true stop)
      settle
      return some (← completeGroup options name start expands reference content)

/-- The properties of an object up to its closer, behind those read already; with the offset after
the closer. -/
def parseProperties : Nat → Nat → List (String × Node) →
    Parser (List (String × Node) × Nat)
  | 0, _, _ => throw .exhausted
  | fuel + 1, start, properties => do
    let token ← peek true .key
    if token.kind = .rBrace then
      skipToken true .key
      return (properties, token.stop)
    else if token.kind = .endOfInput || (← closesAwaited token.kind) then
      complain start .openObject
      return (properties, token.start)
    else if token.kind = .comma then
      skipToken true .key
      complain token.start .redundantComma
      parseProperties fuel start properties
    else if token.kind.isText then
      skipToken true .key
      let colon ← peek false .key
      if colon.kind ≠ .colon then
        complain colon.start (.expectedKeyColon token.content colon)
        recover (some .rBrace)
        parseProperties fuel start properties
      else
        skipToken false .key
        let value ← parseValue fuel
        let properties ← addProperty options token value properties
        separator .key .rBrace
        parseProperties fuel start properties
    else
      complain token.start (.expectedKey token)
      recover (some .rBrace)
      parseProperties fuel start properties

/-- The elements of a list or an operation up to its closer, behind those read already, the latest
first; all of them in order, with the offset after the closer. -/
def parseElements : Nat → Nat → Mode → TokenKind → List Node → Parser (List Node × Nat)
  | 0, _, _, _, _ => throw .exhausted
  | fuel + 1, start, mode, closer, elements => do
    let token ← peek true mode
    if token.kind = closer then
      skipToken true mode
      return (elements.reverse, token.stop)
    else if token.kind = .endOfInput || (← closesAwaited token.kind) then
      complain start (.openGroup closer)
      return (elements.reverse, token.start)
    else if token.kind = .comma then
      skipToken true mode
      complain token.start .redundantComma
      parseElements fuel start mode closer elements
    else
      let element ← if mode = .operation then parseExpression fuel else parseValue fuel
      separator mode closer
      parseElements fuel start mode closer (element :: elements)

/-- **An expression**: operands joined by the operators in force. -/
def parseExpression : Nat → Parser Node
  | 0 => throw .exhausted
  | fuel + 1 => do
    parseLevel fuel (← get).visible.operators.priorityGroups

/-- An expression whose operators belong to the given groups, the loosest first. -/
def parseLevel : Nat → List PriorityGroup → Parser Node
  | 0, _ => throw .exhausted
  | fuel + 1, [] => parseOperand fuel
  | fuel + 1, group :: tighter =>
    match group.fixity with
    | .binary => do
      let left ← parseLevel fuel tighter
      parseBinary fuel group tighter left
    | .postfixed => do
      let operand ← parseLevel fuel tighter
      postfixes fuel group operand
    | .prefixed => do
      let start ← position
      match ← operatorOf? group true with
      | some op =>
        let operand ← parseLevel fuel (group :: tighter)
        operatorNode op [operand] ⟨start, operand.span.stop⟩
      | none => parseLevel fuel tighter

/-- The operand `left` with the binary operators of a group that follow it, and their right
operands.  Operators of a right-associative group leave everything that follows to the right
operand; the others take what was read so far as their left one. -/
def parseBinary : Nat → PriorityGroup → List PriorityGroup → Node → Parser Node
  | 0, _, _, _ => throw .exhausted
  | fuel + 1, group, tighter, left => do
    match ← operatorOf? group false with
    | none => return left
    | some op =>
      if group.rightAssociative then
        let right ← parseLevel fuel (group :: tighter)
        binaryNode op left right
      else
        setSuppressed op.accessor
        let right ← parseLevel fuel tighter
        setSuppressed false
        let node ← binaryNode op left right
        parseBinary fuel group tighter node

end

/-- A bound on the calls that reading a value takes: between two tokens at most one call for each
group of operators, and a few more. -/
def valueFuel : Parser Nat := do
  return ((← remaining) + 1) * ((← get).visible.operators.definitions.length + 10)

end TreeLang.Parser
