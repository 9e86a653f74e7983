import TreeLang.Definitions
import TreeLang.Json.Value

/-!
# Nodes and definitions as JSON

What the command line writes for other programs: trees without their origins, and definitions with
everything that importing them would bring along.
-/

namespace TreeLang

/-- The member for a name, left out when the name is empty. -/
private def nameMember (name : String) : List (String × Json) :=
  if name.isEmpty then [] else [("name", .string name)]

namespace Node

mutual

/-- **A tree.** -/
def toJson : Node → Json
  | .primitive value _ => .object [("type", .string "primitive"), ("value", .string value)]
  | .object name properties _ =>
    .object ([("type", .string "object")] ++ nameMember name ++
      [("properties", .array (propertiesToJson properties))])
  | .list name values operation _ =>
    .object ([("type", .string "list")] ++ nameMember name ++
      [("values", .array (valuesToJson values)), ("operation", .bool operation)])

/-- The properties of an object. -/
def propertiesToJson : List (String × Node) → List Json
  | [] => []
  | (key, value) :: rest =>
    .object [("key", .string key), ("value", value.toJson)] :: propertiesToJson rest

/-- The values of a list. -/
def valuesToJson : List Node → List Json
  | [] => []
  | value :: rest => value.toJson :: valuesToJson rest

end

end Node

/-- A path. -/
def Path.toJson (path : Path) : Json :=
  .array (path.map fun
    | .key name => .object [("Key", .string name)]
    | .index position => .object [("Index", .nat position)])

/-- A parameter. -/
def Parameter.toJson (parameter : Parameter) : Json :=
  .object
    [("name", .string parameter.name),
     ("default", .orNull (parameter.fallback.map Node.toJson)),
     ("declared", .string parameter.declared.flags),
     ("inferred", .string parameter.inferred.flags)]

/-- A replacement. -/
def Replacement.toJson (replacement : Replacement) : Json :=
  .object ([("path", replacement.path.toJson), ("parameter", .nat replacement.parameter)] ++
    match replacement.target with
    | .value => [("target", .string "value")]
    | .name lead => [("target", .string "nameable-name"), ("prefix", .string lead)])

/-- A deferred invocation. -/
def DeferredInvocation.toJson (invocation : DeferredInvocation) : Json :=
  .object [("path", invocation.path.toJson), ("kind", .string invocation.kind.text)]

/-- The members of a macro. -/
def MacroDefinition.jsonMembers (definition : MacroDefinition) : List (String × Json) :=
  [("signature", .object
      [("name", .string definition.signature.name),
       ("kind", .string definition.signature.kind.text)]),
   ("parameters", .array (definition.parameters.map Parameter.toJson)),
   ("template", definition.template.toJson),
   ("replacements", .array (definition.replacements.map Replacement.toJson)),
   ("deferred", .array (definition.deferred.map DeferredInvocation.toJson))]

/-- The members of an operator, its priority written as given. -/
def OperatorDefinition.jsonMembers (op : OperatorDefinition) (priority : Json) :
    List (String × Json) :=
  [("name", .string op.name), ("keyword", .bool op.keyword), ("kind", .string op.fixity.text)] ++
    (match op.aliasName with
      | some name => [("alias", .string name)]
      | none => []) ++
    [("flags", .string op.flags), ("priority", priority)]

/-- **A set of definitions.** -/
def Definitions.toJson (definitions : Definitions) : Json :=
  .object
    [("macros", .array (definitions.macros.definitions.map fun entry =>
        .object entry.value.jsonMembers)),
     ("operators", .array (definitions.operators.definitions.map fun op =>
        .object (op.jsonMembers (.number op.priority.numeral))))]

end TreeLang
