import TreeLang.Parse.State

/-!
# Expanding invocations

Every completed node is offered to the macros in force, under its name and its shape.  Where a
macro answers, the node is an invocation, and the result of the macro takes its place; the
invocations inside that result which were waiting for arguments are expanded in turn.

While a template is being read, an invocation that depends on a parameter cannot be expanded yet.
It is marked, and waits for every later use of the template.

* `expandDeferred` — the invocations that were waiting, the innermost first.
* `invoke` — the node that takes the place of an invocation.
* **`expand`** — now, or later if the node depends on a parameter.
-/

namespace TreeLang.Parser

/-- What a node is looked up by: its name, and the text of a primitive. -/
def invokedName (node : Node) : String :=
  (node.value?.or node.name?).getD ""

/-- Records the mistake in an invocation and answers what stands in its place. -/
def refuse (offset : Nat) (report : Report) : Parser Node := do
  note (report.atOffset offset)
  placeholderAt offset

/-- **Expands the invocations that were waiting for arguments**, given how to expand one.  They are
said to stand where the invoking node stands, so that reports point there and not into a
template. -/
def expandDeferred (expandOne : Node → MacroKind → Parser Node) (span : Span) (tree : Node)
    (waiting : List DeferredInvocation) : Parser Node :=
  waiting.foldlM (fun tree invocation => do
    match tree.get? invocation.path with
    | none => return tree
    | some target =>
      let expanded ← expandOne (target.withSpan span) invocation.kind
      return (tree.set? invocation.path expanded).getD tree) tree

/-- Runs a step one level deeper. -/
def nested {α : Type} (step : Parser α) : Parser α := do
  modify fun s => { s with depth := s.depth + 1 }
  let result ← step
  modify fun s => { s with depth := s.depth - 1 }
  return result

/-- **Uses a macro for a node**, given how to expand the invocations in its result. -/
def useMacro (expandOne : Node → MacroKind → Parser Node) (definition : MacroDefinition)
    (node : Node) : Parser Node := do
  let span := node.span
  if maxNesting ≤ (← get).depth then
    refuse span.start (Report.of (.nestingLimit definition.signature))
  else
    let application := definition.apply node
    match application.result with
    | .error (.fault fault) => throw fault
    | .error (.mistake report) =>
      application.warnings.forM fun warning => note (warning.atOffset span.start)
      refuse span.start report
    | .ok result =>
      application.warnings.forM fun warning => note (warning.atOffset span.start)
      if definition.deferred.isEmpty then return result
      else nested (expandDeferred expandOne span result definition.deferred)

/-- Offers a node to the macros in force, with as many levels of expansion as `levels` allows. -/
def invokeWithin : Nat → Node → MacroKind → Parser Node
  | 0, _, _ => throw .exhausted
  | levels + 1, node, kind => do
    match (← get).visible.macros.resolve (invokedName node) kind node with
    | .ok none => return node
    | .ok (some found) => useMacro (invokeWithin levels) found.value node
    | .error report => refuse node.span.start report

/-- **Offers a node to the macros in force** and answers what takes its place.  The nesting limit
bounds the levels of expansion below it; past the limit the one level left refuses every use. -/
def invoke (node : Node) (kind : MacroKind) : Parser Node := do
  invokeWithin (maxNesting - (← get).depth + 1) node kind

/-- **Expands a node now**, or marks it to be expanded later if it depends on a parameter of the
template being read. -/
def expand (node : Node) (kind : MacroKind) : Parser Node := do
  match (← get).scope with
  | some scope =>
    if scope.mentionsParameter node then
      let marked := { scope with deferred := scope.deferred.insert node.id kind }
      modify fun s => { s with scope := some marked }
      return node
    else invoke node kind
  | none => invoke node kind

end TreeLang.Parser
