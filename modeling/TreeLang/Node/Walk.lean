import TreeLang.Node.Path

/-!
# Walking a tree

A walk visits the nodes of a tree in pre-order: a node before its children, the properties of an
object and the values of a list in their order.  At each node a visitor decides how to go on.

* `Node.walk` — the nodes visited, each with its path from the root.
* `Node.nodes` — the walk that visits everything.
-/

namespace TreeLang

/-- How a walk goes on after a node. -/
inductive Visit where
  | enter
  /-- Go on, but not below this node. -/
  | skipChildren
  /-- End the walk. -/
  | stop
deriving Repr, DecidableEq

/-- What a walk has visited, and whether it was ended. -/
structure Walk where
  visited : List (Path × Node)
  stopped : Bool

/-- One walk after another; the second does not start when the first was ended. -/
def Walk.andThen (first : Walk) (second : Unit → Walk) : Walk :=
  if first.stopped then first
  else ⟨first.visited ++ (second ()).visited, (second ()).stopped⟩

namespace Node

variable (visit : Path → Node → Visit)

mutual

/-- The walk from the node at `path`. -/
def walkFrom (path : Path) : Node → Walk
  | .primitive value origin =>
    ⟨[(path, .primitive value origin)], visit path (.primitive value origin) = .stop⟩
  | .object name properties origin =>
    let node := Node.object name properties origin
    match visit path node with
    | .stop => ⟨[(path, node)], true⟩
    | .skipChildren => ⟨[(path, node)], false⟩
    | .enter => Walk.andThen ⟨[(path, node)], false⟩ fun _ => walkProperties path properties
  | .list name values operation origin =>
    let node := Node.list name values operation origin
    match visit path node with
    | .stop => ⟨[(path, node)], true⟩
    | .skipChildren => ⟨[(path, node)], false⟩
    | .enter => Walk.andThen ⟨[(path, node)], false⟩ fun _ => walkValues path 0 values

/-- The walk through the properties of the object at `path`. -/
def walkProperties (path : Path) : List (String × Node) → Walk
  | [] => ⟨[], false⟩
  | (key, value) :: rest =>
    (walkFrom (path ++ [.key key]) value).andThen fun _ => walkProperties path rest

/-- The walk through the values of the list at `path`, the first of which has the given index. -/
def walkValues (path : Path) (index : Nat) : List Node → Walk
  | [] => ⟨[], false⟩
  | value :: rest =>
    (walkFrom (path ++ [.index index]) value).andThen fun _ => walkValues path (index + 1) rest

end

/-- **The nodes visited**, in order, each with its path. -/
def walk (node : Node) : List (Path × Node) :=
  (walkFrom visit [] node).visited

/-- Every node of the tree with its path, in pre-order. -/
def nodes (node : Node) : List (Path × Node) :=
  node.walk fun _ _ => .enter

end Node

end TreeLang
