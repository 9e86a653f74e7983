import TreeLang.Priority.Printing

/-!
# Operators

An operator is data: a symbol or a word, the side its operands stand on, and a priority.  Inside an
operation it builds a node named after it, or, when it is an *accessor*, the call of a member.

* `Fixity` — where the operands stand.
* `OperatorDefinition` — one operator, and its text as a definition statement.
* `PriorityGroup` — the operators of one priority, the unit of precedence.
* `OperatorConflict` — why an operator cannot be registered beside others.
-/

namespace TreeLang

/-- Where the operands of an operator stand. -/
inductive Fixity where
  | binary
  | prefixed
  | postfixed
deriving Repr, DecidableEq, Inhabited

/-- The word for a fixity in definitions and messages. -/
def Fixity.text : Fixity → String
  | .binary => "binary"
  | .prefixed => "prefix"
  | .postfixed => "postfix"

/-- An operator. -/
structure OperatorDefinition where
  name : String
  /-- Whether it is a word, recognised only where a word ends. -/
  keyword : Bool
  fixity : Fixity
  /-- The name of the nodes it builds, where that is not its own; for an accessor, what the name of
  the call begins with. -/
  aliasName : Option String
  rightAssociative : Bool
  /-- Whether it builds calls of members instead of nodes of its own. -/
  accessor : Bool
  priority : Priority
deriving Repr, DecidableEq, Inhabited

namespace OperatorDefinition

/-- A symbol operator without alias, left-associative and no accessor. -/
def symbol (name : String) (fixity : Fixity) (priority : Priority) : OperatorDefinition where
  name := name
  keyword := false
  fixity := fixity
  aliasName := none
  rightAssociative := false
  accessor := false
  priority := priority

/-- The name given to the nodes an operator builds. -/
def nodeName (op : OperatorDefinition) : String :=
  op.aliasName.getD op.name

/-- Equality as definitions: everything is equal, and the priority as a value. -/
def agrees (a b : OperatorDefinition) : Bool :=
  a = b && a.priority.agrees b.priority

/-- An operator as a definition would state it. -/
def text (op : OperatorDefinition) : String :=
  (if op.keyword then "keyword " else "operator ") ++ op.name ++ " as " ++ op.fixity.text ++
    "(" ++ op.priority.text ++ ")" ++
    (if op.rightAssociative then " and right-associative" else "") ++
    (if op.accessor then " and accessor" else "") ++
    (match op.aliasName with
      | some name => " : \"" ++ name ++ "\""
      | none => "")

/-- The properties of an operator as JSON output writes them. -/
def flags (op : OperatorDefinition) : String :=
  String.intercalate " | "
    ((if op.rightAssociative then ["RIGHT_ASSOCIATIVE"] else []) ++
      if op.accessor then ["ACCESSOR"] else [])

end OperatorDefinition

/-- All operators of one priority. -/
structure PriorityGroup where
  priority : Priority
  fixity : Fixity
  rightAssociative : Bool
  operators : List OperatorDefinition
deriving Repr, DecidableEq

/-- The operator of a group that a symbol or word stands for. -/
def PriorityGroup.find? (group : PriorityGroup) (name : String) (keyword : Bool) :
    Option OperatorDefinition :=
  group.operators.find? fun op => op.name = name && op.keyword = keyword

/-- Why an operator is rejected. -/
inductive OperatorConflict where
  /-- The name is taken by an operator of the other sort, symbol or word. -/
  | wordSymbolClash (name : String) (existingKeyword : Bool)
  | duplicate (name : String) (fixity : Fixity)
  /-- Behind an operand, binary and postfix could not be told apart. -/
  | binaryPostfixAmbiguity (name : String)
  | fixityClash (priority : Priority) (existing : Fixity)
  | mixedAssociativity (priority : Priority) (existingRight : Bool)
  | invalidPriority (priority : Priority)
deriving Repr, DecidableEq

/-- The message for a rejected operator. -/
def OperatorConflict.message : OperatorConflict → String
  | .wordSymbolClash name existingKeyword =>
    "'" ++ name ++ "' is already registered as " ++
      if existingKeyword then "a keyword" else "an operator"
  | .duplicate name fixity => fixity.text ++ " '" ++ name ++ "' is already defined"
  | .binaryPostfixAmbiguity name =>
    "'" ++ name ++ "' cannot be both a binary and a postfix operator"
  | .fixityClash priority existing =>
    "priority " ++ priority.text ++ " is already used by " ++ existing.text ++ " operators"
  | .mixedAssociativity priority existingRight =>
    "priority " ++ priority.text ++ " already holds " ++
      (if existingRight then "right-associative" else "left-associative") ++ " binary operators"
  | .invalidPriority priority => "priority " ++ priority.text ++ " is not a finite number"

end TreeLang
