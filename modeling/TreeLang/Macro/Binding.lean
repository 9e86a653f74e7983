import TreeLang.Macro.Definition

/-!
# Using a macro

To use a macro its parameters are bound to the parts of the invoking node, by key or by position,
and the arguments are put into a copy of the template.  Before that, `score` tells how well the
invoking node fits, so that the best of several macros can be chosen.

* `MacroDefinition.score` — how many arguments are supplied beyond the required ones, if the shape
  fits at all.
* `MacroDefinition.bind` — the argument of each parameter.
* **`MacroDefinition.apply`** — the node that takes the place of the invocation.
-/

namespace TreeLang.MacroDefinition

/-- How many of the parameters from an index on must have an argument. -/
def requiredAfter (definition : MacroDefinition) (skip : Nat) : Nat :=
  (definition.parameters.drop skip).countP fun parameter => !parameter.isOptional

/-- The operand of a call on a receiver: the call is a list of the receiver and at most one more
node. -/
def callOperand? (argument : Node) : Option (Option Node) :=
  match argument.values? with
  | some [_] => some none
  | some [_, operand] => some (some operand)
  | _ => none

/-! ## How well an invocation fits -/

/-- The fit of properties: every required key is there, and the rest counts. -/
def keyedScore (definition : MacroDefinition) (skip : Nat) (properties : List (String × Node)) :
    Option Nat :=
  if (definition.parameters.drop skip).all fun parameter =>
      parameter.isOptional || Node.hasKey properties parameter.name then
    some (properties.length - definition.requiredAfter skip)
  else none

/-- The fit of a number of values: the required ones are there, and the rest counts. -/
def positionalScore (definition : MacroDefinition) (skip supplied : Nat) : Option Nat :=
  if definition.requiredAfter skip ≤ supplied then
    some (supplied - definition.requiredAfter skip)
  else none

/-- **How well a node fits as an invocation**, the smaller the better; nothing when its shape does
not admit it.  The shapes of the arguments are not considered. -/
def score (definition : MacroDefinition) (argument : Node) : Option Nat :=
  match definition.signature.kind with
  | .constant => some 0
  | .object => argument.properties?.bind (definition.keyedScore 0)
  | .list | .operation => argument.values?.bind fun values =>
    definition.positionalScore 0 values.length
  | .access => argument.values?.bind fun values => if values.length = 1 then some 0 else none
  | .objectFunction => (callOperand? argument).bind fun
    | none => definition.keyedScore 1 []
    | some operand => operand.properties?.bind (definition.keyedScore 1)
  | .listFunction | .operationFunction => (callOperand? argument).bind fun
    | none => definition.positionalScore 1 0
    | some operand => operand.values?.bind fun values => definition.positionalScore 1 values.length

/-! ## Arguments of the parameters -/

/-- The arguments, one for each parameter, and what was passed over. -/
structure Binding where
  arguments : List Node
  warnings : List Report

/-- The complaint about a node of a shape that the macro cannot take. -/
def wrongShape (definition : MacroDefinition) (expected : String) (found : Node) : Failure :=
  .of (.wrongArgumentShape definition.signature expected (Shape.of found))

/-- The argument of one parameter: what was given for it, or else its fallback. -/
def argumentOr (given : Option Node) (parameter : Parameter) (missing : Cause) :
    Except Failure Node :=
  match given, parameter.fallback with
  | some value, _ => .ok value
  | none, some value => .ok value
  | none, none => .error (.of missing)

/-- **Binding by key**, for the parameters from `skip` on.  Keys that are none of them are passed
over with a warning. -/
def bindKeyed (definition : MacroDefinition) (skip : Nat) (bound : List Node)
    (properties : List (String × Node)) : Except Failure Binding := do
  let arguments ← (definition.parameters.drop skip).mapM fun parameter =>
    argumentOr (Node.lookup properties parameter.name) parameter
      (.missingKey parameter.name definition.signature)
  let unused := properties.filter fun (key, _) =>
    !((definition.parameters.findIdx? fun parameter => parameter.name = key).any (skip ≤ ·))
  return ⟨bound ++ arguments,
    unused.map fun (key, _) => (Report.of (.unusedKey key definition.signature)).asWarning⟩

/-- **Binding by position**, for the parameters from `skip` on.  Values beyond them are passed over
with a warning. -/
def bindPositional (definition : MacroDefinition) (skip : Nat) (bound : List Node)
    (values : List Node) : Except Failure Binding := do
  if definition.parameters.length < skip then throw (.fault .missingReceiver)
  let declared := definition.parameters.length - skip
  let required := definition.requiredAfter skip
  if values.length < required then
    throw (.of (.tooFewArguments definition.signature required values.length))
  let arguments ← (definition.parameters.drop skip).zipIdx.mapM fun (parameter, index) =>
    argumentOr values[index]? parameter (.unboundParameter parameter.name)
  let unused := values.length - declared
  return ⟨bound ++ arguments,
    if unused = 0 then []
    else [(Report.of (.unusedArguments definition.signature declared unused)).asWarning]⟩

/-- The properties of a node that has to be an object. -/
def objectProperties (definition : MacroDefinition) (node : Node) :
    Except Failure (List (String × Node)) :=
  match node.properties? with
  | some properties => .ok properties
  | none => .error (definition.wrongShape "an object" node)

/-- The values of a node that has to be a list or an operation. -/
def listValues (definition : MacroDefinition) (node : Node) : Except Failure (List Node) :=
  match node.values? with
  | some values => .ok values
  | none => .error (definition.wrongShape "a list or operation" node)

/-- The receiver and the operand of a node that has to be a call on a receiver. -/
def receiverCall (definition : MacroDefinition) (node : Node) :
    Except Failure (Node × Option Node) :=
  match node.values? with
  | some [receiver] => .ok (receiver, none)
  | some [receiver, operand] => .ok (receiver, some operand)
  | _ => .error (definition.wrongShape "a receiver call" node)

/-- **The argument of each parameter**, from the node that invokes the macro. -/
def bind (definition : MacroDefinition) (argument : Node) : Except Failure Binding :=
  match definition.signature.kind with
  | .constant => return ⟨[], []⟩
  | .object => do definition.bindKeyed 0 [] (← definition.objectProperties argument)
  | .list | .operation => do definition.bindPositional 0 [] (← definition.listValues argument)
  | .access => do
    match ← definition.receiverCall argument with
    | (receiver, none) => return ⟨[receiver], []⟩
    | (_, some _) => throw (.of (.unexpectedArguments definition.signature))
  | .objectFunction => do
    match ← definition.receiverCall argument with
    | (receiver, none) => definition.bindKeyed 1 [receiver] []
    | (receiver, some operand) =>
      definition.bindKeyed 1 [receiver] (← definition.objectProperties operand)
  | .listFunction | .operationFunction => do
    match ← definition.receiverCall argument with
    | (receiver, none) => definition.bindPositional 1 [receiver] []
    | (receiver, some operand) =>
      definition.bindPositional 1 [receiver] (← definition.listValues operand)

/-! ## The node that takes the place of an invocation -/

/-- The complaint about the first argument of a shape that its parameter does not accept. -/
def mismatch? (definition : MacroDefinition) (arguments : List Node) : Option Cause :=
  (definition.parameters.zip arguments).findSome? fun (parameter, value) =>
    if parameter.inferred.accepts value then none
    else some (.mismatchedArgument parameter.name definition.signature parameter.inferred
      (Shape.of value))

/-- Puts an argument where a replacement says. -/
def replace (definition : MacroDefinition) (arguments : List Node) (tree : Node)
    (replacement : Replacement) : Except Failure Node := do
  let some _ := tree.get? replacement.path
    | throw (.of (.missingReplacement replacement.path definition.signature))
  let some value := arguments[replacement.parameter]?
    | throw (.fault (.missingParameter replacement.parameter))
  match replacement.target with
  | .value => return (tree.set? replacement.path value).getD tree
  | .name lead =>
    match value.value? with
    | some text =>
      let rename (node : Node) : Option Node := some (node.rename (lead ++ text))
      return (tree.modify? rename replacement.path).getD tree
    | none => throw (.of (.nameIsNoPrimitive (Shape.of value)))

/-- The outcome of using a macro: what was passed over, and the node if there is one. -/
structure Application where
  warnings : List Report
  result : Except Failure Node

/-- **Uses a macro**: binds its parameters, holds the arguments against the accepted shapes, and
puts them into the template. -/
def apply (definition : MacroDefinition) (argument : Node) : Application :=
  match definition.bind argument with
  | .error failure => ⟨[], .error failure⟩
  | .ok binding =>
    ⟨binding.warnings,
      match definition.mismatch? binding.arguments with
      | some cause => .error (.of cause)
      | none =>
        definition.replacements.foldlM (definition.replace binding.arguments) definition.template⟩

end TreeLang.MacroDefinition
