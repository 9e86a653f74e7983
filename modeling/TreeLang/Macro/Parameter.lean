import TreeLang.Node.Printer
import TreeLang.Report.Basic

/-!
# Parameters of macros

A parameter has a name, the shapes it accepts, and perhaps a node that stands in when no argument is
given.  The shapes it was declared with are narrowed by how the template uses it: a parameter used
as a name accepts primitives alone.

* `Parameter`, `Parameter.text`.
* `Parameter.alike` — parameters between which an invocation could not choose.
* `checkParameters` — which lists of parameters a definition may have.
-/

namespace TreeLang

/-- A parameter of a macro. -/
structure Parameter where
  name : String
  /-- Stands in for an absent argument. -/
  fallback : Option Node
  /-- The shapes of the annotation, all of them without one. -/
  declared : ShapeSet
  /-- The declared shapes that the template can use. -/
  inferred : ShapeSet
deriving Repr, Inhabited

namespace Parameter

/-- A parameter without annotation and fallback. -/
def plain (name : String) : Parameter :=
  ⟨name, none, .any, .any⟩

/-- The parameter with an annotation. -/
def withType (parameter : Parameter) (declared : ShapeSet) : Parameter :=
  { parameter with declared := declared, inferred := declared }

/-- Whether an argument may be absent. -/
def isOptional (parameter : Parameter) : Bool :=
  parameter.fallback.isSome

/-- Whether two parameters agree in name and declared shapes, and in whether they are optional. -/
def alike (a b : Parameter) : Bool :=
  a.name = b.name && a.declared = b.declared && a.isOptional = b.isOptional

/-- A parameter as it is declared. -/
def text (parameter : Parameter) : String :=
  parameter.name ++
    (if parameter.declared = .any then "" else ": " ++ parameter.declared.text) ++
    (match parameter.fallback with
      | some node => " = " ++ node.text
      | none => "")

end Parameter

/-- Whether two lists of parameters are alike one by one. -/
def alikeParameters : List Parameter → List Parameter → Bool
  | [], [] => true
  | a :: as, b :: bs => a.alike b && alikeParameters as bs
  | _, _ => false

/-- Parameters as they are declared. -/
def parametersText (parameters : List Parameter) : String :=
  String.intercalate ", " (parameters.map Parameter.text)

/-! ## Admissible lists -/

/-- The first name that occurs for a second time. -/
def repeatedName? (seen : List String) : List Parameter → Option String
  | [] => none
  | parameter :: rest =>
    if seen.contains parameter.name then some parameter.name
    else repeatedName? (parameter.name :: seen) rest

/-- The first required parameter right behind an optional one, and that one. -/
def misplacedRequired? : List Parameter → Option (Parameter × Parameter)
  | first :: second :: rest =>
    if first.isOptional && !second.isOptional then some (second, first)
    else misplacedRequired? (second :: rest)
  | _ => none

/-- **Which parameters a macro may have.**  Names are distinct, and where arguments are chosen by
position the optional parameters come last. -/
def checkParameters (kind : MacroKind) (parameters : List Parameter) :
    Except Report (List Parameter) :=
  match repeatedName? [] parameters with
  | some name => .error (Report.of (.duplicateParameter name))
  | none =>
    match if kind.isKeyed then none else misplacedRequired? parameters with
    | some (required, optional) =>
      .error (Report.of (.requiredAfterOptional required.name optional.name))
    | none => .ok parameters

end TreeLang
