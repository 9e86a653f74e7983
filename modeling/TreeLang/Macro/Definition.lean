import TreeLang.Fault
import TreeLang.Macro.Marks
import TreeLang.Macro.Parameter
import TreeLang.Node.Walk

/-!
# Macro definitions

A definition is a template with parameters.  While the template was read, the nodes that refer to
parameters were marked by their numbers; building the definition finds these nodes once, records
the paths to them, and forgets the numbers.  From then on the template is plain data, and using
the macro means following the paths in a copy.

* `Reference`, `Replacement`, `DeferredInvocation` — what is marked, and what is recorded.
* `MacroDefinition`, `MacroDefinition.header`.
* **`MacroDefinition.build`** — a definition from a template as it was read.
-/

namespace TreeLang

/-- What a replacement does with its node. -/
inductive ReplacementTarget where
  /-- The argument takes the place of the node. -/
  | value
  /-- The node is renamed to `lead` followed by the text of the argument. -/
  | name (lead : String)
deriving Repr, DecidableEq, Inhabited

/-- The mark on a node that refers to a parameter. -/
structure Reference where
  parameter : Nat
  target : ReplacementTarget
deriving Repr, DecidableEq, Inhabited

/-- A reference to a parameter, by its path in the template. -/
structure Replacement where
  path : Path
  parameter : Nat
  target : ReplacementTarget
deriving Repr, DecidableEq, Inhabited

/-- An invocation inside a template that depends on arguments and is expanded after each use of the
macro. -/
structure DeferredInvocation where
  path : Path
  kind : MacroKind
deriving Repr, DecidableEq, Inhabited

/-- A macro. -/
structure MacroDefinition where
  signature : Signature
  parameters : List Parameter
  template : Node
  replacements : List Replacement
  /-- The deepest first, so that expanding one leaves the others where they are. -/
  deferred : List DeferredInvocation
deriving Repr, Inhabited

namespace MacroDefinition

/-- The macro without parameters that stands for a node. -/
def constant (name : String) (template : Node) : MacroDefinition :=
  ⟨⟨name, .constant⟩, [], template, [], []⟩

/-- Whether every use of the macro gives the same node. -/
def isConstant (definition : MacroDefinition) : Bool :=
  definition.replacements.isEmpty && definition.deferred.isEmpty

/-- The parameters that an invocation writes: all but the receiver. -/
def explicitParameters (definition : MacroDefinition) : List Parameter :=
  definition.parameters.drop definition.signature.kind.implicit

/-- **The head of a definition** as it is declared, with its parameters. -/
def header (definition : MacroDefinition) : String :=
  let kind := definition.signature.kind
  kind.definingWord ++ " " ++ definition.signature.name ++
    match kind.brackets? with
    | some (left, right) => left ++ parametersText definition.explicitParameters ++ right
    | none => ""

/-! ## Building a definition -/

/-- The references among the nodes of a template, in pre-order. -/
def findReplacements (template : Node) (references : Marks Reference) : List Replacement :=
  template.nodes.filterMap fun (path, node) =>
    (references.find? node.id).map fun reference => ⟨path, reference.parameter, reference.target⟩

/-- The deferred invocations among the nodes of a template, the deepest first. -/
def findDeferred (template : Node) (deferred : Marks MacroKind) : List DeferredInvocation :=
  let found := template.nodes.filterMap fun (path, node) =>
    (deferred.find? node.id).map fun kind => DeferredInvocation.mk path kind
  found.mergeSort fun a b => b.path.length ≤ a.path.length

/-- Whether a template uses a parameter as a name. -/
def usesAsName (replacements : List Replacement) (parameter : Nat) : Bool :=
  replacements.any fun replacement =>
    replacement.parameter = parameter &&
      match replacement.target with
      | .name _ => true
      | .value => false

/-- Parameters narrowed by their use: a name has to be a primitive. -/
def narrow (replacements : List Replacement) (parameters : List Parameter) : List Parameter :=
  parameters.mapIdx fun index parameter =>
    if usesAsName replacements index then
      { parameter with inferred := parameter.inferred.inter (.only .primitive) }
    else parameter

/-- What is doubtful about a narrowed parameter: that no argument is left for it, or that its own
fallback is none. -/
def narrowWarnings (signature : Signature) (parameter : Parameter) : List Report :=
  let unsatisfiable :=
    if parameter.inferred.isEmpty then
      [Report.of (.unsatisfiableParameter parameter.name signature parameter.declared)]
    else []
  let mismatched :=
    match parameter.fallback with
    | some node =>
      if parameter.inferred.accepts node then []
      else [Report.of (.mismatchedDefault parameter.name signature parameter.inferred)]
    | none => []
  (unsatisfiable ++ mismatched).map Report.asWarning

/-- **A definition from a template as it was read**, with the warnings it gives rise to.  Every
reference that was marked has to be found again, each once. -/
def build (signature : Signature) (parameters : List Parameter) (template : Node)
    (references : Marks Reference) (deferred : Marks MacroKind) :
    Except Failure (MacroDefinition × List Report) :=
  let replacements := findReplacements template references
  let found := replacements.length
  let total := references.size
  if found < total then .error (.of (.lostReferences (total - found) total signature))
  else if total < found then .error (.fault (.inventedReferences found total))
  else
    let narrowed := narrow replacements parameters
    let warnings := (List.range parameters.length).flatMap fun index =>
      if usesAsName replacements index then
        (narrowed[index]?.map (narrowWarnings signature)).getD []
      else []
    .ok (⟨signature, narrowed, template.clearIds, replacements, findDeferred template deferred⟩,
      warnings)

end MacroDefinition

end TreeLang
