/-!
# Nodes

A compiled text is a tree of *nodes*.  A primitive holds a text, numbers and truth values
included; an object holds properties in the order they were written; a list holds values in order.
Objects and lists are *nameable*: they carry a name, and the empty name means that they have none.
A list written with parentheses is an *operation*.

Every node also carries an `Origin`: where it was read, and a number that tells this very node from
any other one that looks the same.  Origins are bookkeeping; no two trees differ by them alone.

* `Node` — the three shapes; `Node.plain`, `Node.listOf` and `Node.objectOf` build them.
* `Node.lookup`, `Node.insertNew` — properties by key, the first one of a key counting.
* `Node.clearIds` — a tree that no longer remembers which nodes it was made of.
-/

namespace TreeLang

/-- The characters a node was read from, from `start` up to but not including `stop`. -/
structure Span where
  start : Nat
  stop : Nat
deriving Repr, DecidableEq, Inhabited

/-- Where a node comes from.  The number zero stands for a node without an identity. -/
structure Origin where
  id : Nat
  span : Span
deriving Repr, DecidableEq, Inhabited

/-- The origin of a node that was not read from a text. -/
def Origin.none : Origin := ⟨0, ⟨0, 0⟩⟩

/-- A node of a compiled tree. -/
inductive Node where
  | primitive (value : String) (origin : Origin)
  | object (name : String) (properties : List (String × Node)) (origin : Origin)
  | list (name : String) (values : List Node) (operation : Bool) (origin : Origin)
deriving Repr, Inhabited

namespace Node

/-! ## Construction and parts -/

/-- A primitive that was not read from a text. -/
def plain (value : String) : Node :=
  .primitive value .none

/-- An object that was not read from a text. -/
def objectOf (name : String) (properties : List (String × Node)) : Node :=
  .object name properties .none

/-- A list or an operation that was not read from a text. -/
def listOf (name : String) (values : List Node) (operation : Bool) : Node :=
  .list name values operation .none

/-- Where the node comes from. -/
def origin : Node → Origin
  | .primitive _ origin => origin
  | .object _ _ origin => origin
  | .list _ _ _ origin => origin

/-- The number that identifies this very node. -/
def id (node : Node) : Nat :=
  node.origin.id

/-- The characters the node was read from. -/
def span (node : Node) : Span :=
  node.origin.span

/-- The same node with another origin. -/
def withOrigin (node : Node) (origin : Origin) : Node :=
  match node with
  | .primitive value _ => .primitive value origin
  | .object name properties _ => .object name properties origin
  | .list name values operation _ => .list name values operation origin

/-- The same node under another number. -/
def withId (node : Node) (id : Nat) : Node :=
  node.withOrigin { node.origin with id := id }

/-- The same node, said to be read from elsewhere. -/
def withSpan (node : Node) (span : Span) : Node :=
  node.withOrigin { node.origin with span := span }

/-- The name of a nameable node; a primitive has none, not even an empty one. -/
def name? : Node → Option String
  | .primitive _ _ => none
  | .object name _ _ => some name
  | .list name _ _ _ => some name

/-- Whether the node is an object or a list. -/
def isNameable : Node → Bool
  | .primitive _ _ => false
  | _ => true

/-- Whether the node is a list written with parentheses. -/
def isOperation : Node → Bool
  | .list _ _ operation _ => operation
  | _ => false

/-- The text of a primitive. -/
def value? : Node → Option String
  | .primitive value _ => some value
  | _ => none

/-- The properties of an object. -/
def properties? : Node → Option (List (String × Node))
  | .object _ properties _ => some properties
  | _ => none

/-- The values of a list or operation. -/
def values? : Node → Option (List Node)
  | .list _ values _ _ => some values
  | _ => none

/-- A nameable node under another name.  A primitive stays as it is. -/
def rename (node : Node) (name : String) : Node :=
  match node with
  | .primitive value origin => .primitive value origin
  | .object _ properties origin => .object name properties origin
  | .list _ values operation origin => .list name values operation origin

@[simp] theorem origin_withOrigin (node : Node) (origin : Origin) :
    (node.withOrigin origin).origin = origin := by
  cases node <;> rfl

@[simp] theorem id_withId (node : Node) (id : Nat) : (node.withId id).id = id := by
  simp [withId, Node.id]

@[simp] theorem span_withSpan (node : Node) (span : Span) : (node.withSpan span).span = span := by
  simp [withSpan, Node.span]

@[simp] theorem span_withId (node : Node) (id : Nat) : (node.withId id).span = node.span := by
  simp [withId, Node.span]

@[simp] theorem id_withSpan (node : Node) (span : Span) : (node.withSpan span).id = node.id := by
  simp [withSpan, Node.id]

/-! ## Properties by key -/

/-- The value of a key among properties.  Of several properties with one key the first counts. -/
def lookup (properties : List (String × Node)) (key : String) : Option Node :=
  (properties.find? fun property => property.1 = key).map Prod.snd

/-- Whether a key is among the properties. -/
def hasKey (properties : List (String × Node)) (key : String) : Bool :=
  (lookup properties key).isSome

/-- **The first value of a key wins**: the property is appended only if its key is new. -/
def insertNew (properties : List (String × Node)) (key : String) (value : Node) :
    List (String × Node) :=
  if hasKey properties key then properties else properties ++ [(key, value)]

/-! ## Forgetting identities -/

mutual

/-- The tree with every number set back to zero.  Spans are kept. -/
def clearIds : Node → Node
  | .primitive value origin => .primitive value { origin with id := 0 }
  | .object name properties origin =>
    .object name (clearPropertyIds properties) { origin with id := 0 }
  | .list name values operation origin =>
    .list name (clearValueIds values) operation { origin with id := 0 }

/-- `clearIds` at every property. -/
def clearPropertyIds : List (String × Node) → List (String × Node)
  | [] => []
  | (key, value) :: rest => (key, value.clearIds) :: clearPropertyIds rest

/-- `clearIds` at every value. -/
def clearValueIds : List Node → List Node
  | [] => []
  | value :: rest => value.clearIds :: clearValueIds rest

end

end Node

end TreeLang
