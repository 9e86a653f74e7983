import TreeLang.Keyword
import TreeLang.Node.Basic
import TreeLang.Text.Blank

/-!
# Printing a node

A node is printed compactly, as a text that reads back as an equal node.  A primitive, a key or a
name stands bare where that is safe and in double quotes where it is not, and what is safe depends
on where it stands: a reader interprets the characters of a value, a key, a name and an operand
differently.

* `Position`, `isBare` — the four places a text can stand in, and when it needs no quotes there.
* `quote` — the quoted form.
* `Node.text` — the printer.
-/

namespace TreeLang

/-! ## Bare and quoted texts -/

/-- Where a printed text stands. -/
inductive Position where
  | value
  /-- An operand, or the name of a node inside an operation. -/
  | operand
  /-- The name of an object or a list outside operations. -/
  | name
  | key
deriving Repr, DecidableEq

/-- Whether a comment begins anywhere in the text. -/
def opensComment : List Char → Bool
  | [] => false
  | c :: rest => (c = '/' && (rest.head? = some '/' || rest.head? = some '*')) || opensComment rest

/-- A bracket, a separator, a quote or a backslash. -/
def isSpecial (c : Char) : Bool :=
  c = '{' || c = '}' || c = '[' || c = ']' || c = '(' || c = ')' || c = ',' || c = '\'' ||
    c = '"' || c = '\\'

/-- **Whether a text survives without quotes.**  It must not be empty, hold the beginning of a
comment or begin with a statement keyword.  As an operand it may then hold only ASCII letters,
digits and underscores; as a name no blank, no colon and no special character; as a value or key
no special character and no line break, no blank at its ends, and as a key no colon. -/
def isBare (text : String) (position : Position) : Bool :=
  let cs := text.toList
  if cs.isEmpty || opensComment cs then false
  else if (StatementKeyword.ofText? (String.ofList (Text.firstWord cs))).isSome then false
  else match position with
    | .operand => cs.all fun c => c.isAlphanum || c = '_'
    | .name => cs.all fun c => !(Text.isBlank c || isSpecial c || c = ':')
    | .value => Text.trim cs = cs && cs.all fun c => !(isSpecial c || c = '\n' || c = '\r')
    | .key => Text.trim cs = cs && cs.all fun c => !(isSpecial c || c = '\n' || c = '\r' || c = ':')

/-- A character inside quotes. -/
def quoteChar : Char → List Char
  | '\\' => ['\\', '\\']
  | '"' => ['\\', '"']
  | '\n' => ['\\', 'n']
  | '\t' => ['\\', 't']
  | '\r' => ['\\', 'r']
  | c => [c]

/-- A text in double quotes. -/
def quote (text : String) : String :=
  String.ofList (['"'] ++ text.toList.flatMap quoteChar ++ ['"'])

/-- A text, bare or quoted as its place asks for. -/
def printText (position : Position) (text : String) : String :=
  if isBare text position then text else quote text

/-- A name in front of a bracket.  The empty name is not written; inside an operation a name is
held to the rule of operands, or it would be cut at its operators. -/
def printName (position : Position) (name : String) : String :=
  if name.isEmpty then ""
  else printText (if position = .operand then .operand else .name) name

/-! ## Nodes -/

namespace Node

mutual

/-- The text of a node that stands at a position. -/
def printAt (position : Position) : Node → String
  | .primitive value _ => printText position value
  | .object name properties _ =>
    printName position name ++ "\x7b" ++ String.intercalate ", " (printProperties properties) ++
      "\x7d"
  | .list name values operation _ =>
    if operation then
      printName position name ++ "(" ++ String.intercalate ", " (printValues .operand values) ++ ")"
    else
      printName position name ++ "[" ++ String.intercalate ", " (printValues .value values) ++ "]"

/-- The texts of properties. -/
def printProperties : List (String × Node) → List String
  | [] => []
  | (key, value) :: rest =>
    (printText .key key ++ ": " ++ printAt .value value) :: printProperties rest

/-- The texts of values that stand at a position. -/
def printValues (position : Position) : List Node → List String
  | [] => []
  | value :: rest => printAt position value :: printValues position rest

end

/-- **The text of a node.** -/
def text (node : Node) : String :=
  node.printAt .value

end Node

end TreeLang
