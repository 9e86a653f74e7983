/-!
# JSON

Trees and definitions can be written as JSON, and options are read from it.  A value keeps the
members of an object in the order they are written, repeated names included, and numbers as their
text, so that neither writing nor reading loses anything.
-/

namespace TreeLang

/-- A JSON value. -/
inductive Json where
  | null
  | bool (value : Bool)
  /-- A number, as it is written. -/
  | number (text : String)
  | string (value : String)
  | array (elements : List Json)
  | object (members : List (String × Json))
deriving Repr, Inhabited

namespace Json

/-- A natural number. -/
def nat (n : Nat) : Json :=
  .number (toString n)

/-- An array of texts. -/
def strings (values : List String) : Json :=
  .array (values.map .string)

/-- A value that may be absent. -/
def orNull : Option Json → Json
  | some value => value
  | none => .null

end Json

end TreeLang
