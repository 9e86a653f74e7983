import TreeLang.Node.Basic

/-!
# Shapes and sets of shapes

What a parameter of a definition accepts is a set of node shapes.  There are seven shapes: a
primitive, and for each of object, list and operation one without and one with a name.

* `Shape`, `Shape.of` — the shape of a node.
* `ShapeSet` — a set of shapes, seven bits.
* `ShapeSet.ofAnnotation?`, `ShapeSet.text` — the names that sets have in parameter annotations, and
  the text of a set.
-/

namespace TreeLang

/-- The shape of a node. -/
inductive Shape where
  | primitive
  | unnamedObject
  | unnamedList
  | unnamedOperation
  | namedObject
  | namedList
  | namedOperation
deriving Repr, DecidableEq, Inhabited

namespace Shape

/-- All shapes, in the order in which sets of them are written. -/
def all : List Shape :=
  [primitive, unnamedObject, unnamedList, unnamedOperation, namedObject, namedList, namedOperation]

/-- The shape of a node. -/
def of : Node → Shape
  | .primitive _ _ => primitive
  | .object name _ _ => if name.isEmpty then unnamedObject else namedObject
  | .list name _ operation _ =>
    match name.isEmpty, operation with
    | true, false => unnamedList
    | true, true => unnamedOperation
    | false, false => namedList
    | false, true => namedOperation

/-- The name of a shape in messages and annotations. -/
def text : Shape → String
  | primitive => "primitive"
  | unnamedObject => "unnamed-object"
  | unnamedList => "unnamed-list"
  | unnamedOperation => "unnamed-operation"
  | namedObject => "named-object"
  | namedList => "named-list"
  | namedOperation => "named-operation"

/-- The name of a shape in JSON output. -/
def flag : Shape → String
  | primitive => "PRIMITIVE"
  | unnamedObject => "UNNAMED_OBJECT"
  | unnamedList => "UNNAMED_LIST"
  | unnamedOperation => "UNNAMED_OPERATION"
  | namedObject => "NAMED_OBJECT"
  | namedList => "NAMED_LIST"
  | namedOperation => "NAMED_OPERATION"

/-- The position of the shape's bit in a set. -/
def bit : Shape → Nat
  | primitive => 0
  | unnamedObject => 1
  | unnamedList => 2
  | unnamedOperation => 3
  | namedObject => 4
  | namedList => 5
  | namedOperation => 6

end Shape

/-- A set of shapes, one bit for each. -/
structure ShapeSet where
  bits : BitVec 7
deriving Repr, DecidableEq, Inhabited

namespace ShapeSet

/-! ## Sets -/

/-- The set without a shape. -/
def empty : ShapeSet := ⟨0⟩

/-- The set of one shape. -/
def only (shape : Shape) : ShapeSet := ⟨BitVec.twoPow 7 shape.bit⟩

/-- The shapes that are in either set. -/
def union (a b : ShapeSet) : ShapeSet := ⟨a.bits ||| b.bits⟩

/-- The shapes that are in both sets. -/
def inter (a b : ShapeSet) : ShapeSet := ⟨a.bits &&& b.bits⟩

/-- The set of the given shapes. -/
def ofList (shapes : List Shape) : ShapeSet :=
  shapes.foldl (fun set shape => set.union (only shape)) empty

/-- The set with the given bits, if they all belong to shapes. -/
def ofBits? (bits : Nat) : Option ShapeSet :=
  if bits < 128 then some ⟨BitVec.ofNat 7 bits⟩ else none

/-- Whether a shape is in the set. -/
def contains (set : ShapeSet) (shape : Shape) : Bool :=
  set.bits.getLsbD shape.bit

/-- Whether a node has one of the shapes. -/
def accepts (set : ShapeSet) (node : Node) : Bool :=
  set.contains (Shape.of node)

/-- Whether no shape is in the set. -/
def isEmpty (set : ShapeSet) : Bool :=
  set.bits == 0

/-- The shapes of the set, in order. -/
def toList (set : ShapeSet) : List Shape :=
  Shape.all.filter set.contains

/-- A shape is in the union of two sets when it is in one of them. -/
@[simp] theorem contains_union (a b : ShapeSet) (shape : Shape) :
    (a.union b).contains shape = (a.contains shape || b.contains shape) := by
  simp [contains, union]

/-- A shape is in the intersection of two sets when it is in both. -/
@[simp] theorem contains_inter (a b : ShapeSet) (shape : Shape) :
    (a.inter b).contains shape = (a.contains shape && b.contains shape) := by
  simp [contains, inter]

/-! ## Names -/

/-- Every shape. -/
def any : ShapeSet := ofList Shape.all

/-- The sets that have a name, each with its name. -/
def named : List (String × ShapeSet) :=
  [("any", any),
   ("nameable", ofList [.unnamedObject, .unnamedList, .unnamedOperation, .namedObject, .namedList,
      .namedOperation]),
   ("named", ofList [.namedObject, .namedList, .namedOperation]),
   ("unnamed", ofList [.unnamedObject, .unnamedList, .unnamedOperation]),
   ("object", ofList [.unnamedObject, .namedObject]),
   ("list", ofList [.unnamedList, .namedList]),
   ("operation", ofList [.unnamedOperation, .namedOperation])] ++
  Shape.all.map fun shape => (shape.text, only shape)

/-- **The set that an annotation stands for.** -/
def ofAnnotation? (name : String) : Option ShapeSet :=
  (named.find? fun entry => entry.1 = name).map Prod.snd

/-- The name of a set: `nothing` for the empty one, `mixed` for one that has no name. -/
def name (set : ShapeSet) : String :=
  if set.isEmpty then "nothing"
  else ((named.find? fun entry => entry.2 = set).map Prod.fst).getD "mixed"

/-- **The text of a set**: its name, or else the names of its shapes. -/
def text (set : ShapeSet) : String :=
  if set.name = "mixed" then String.intercalate " | " (set.toList.map Shape.text) else set.name

/-- The set as JSON output writes it. -/
def flags (set : ShapeSet) : String :=
  String.intercalate " | " (set.toList.map Shape.flag)

end ShapeSet

end TreeLang
