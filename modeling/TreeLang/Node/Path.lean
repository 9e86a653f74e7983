import TreeLang.Node.Basic

/-!
# Paths

A path says how to walk from the root of a tree to one of its nodes: by key into an object, by
index into a list.  Paths outlive the tree they were found in: the template of a definition is
copied at every use, and the paths recorded for it are followed in each copy.

* `Path`, `Path.text`.
* `Node.get?` — the node a path leads to.
* `Node.modify?`, `Node.set?` — the tree with the node at a path changed, nothing if the path leads
  nowhere.
-/

namespace TreeLang

/-- One step of a path. -/
inductive PathStep where
  | key (name : String)
  | index (position : Nat)
deriving Repr, DecidableEq, Inhabited

/-- The steps from a root down to a node. -/
abbrev Path := List PathStep

/-- A step as it is shown. -/
def PathStep.text : PathStep → String
  | .key name => "." ++ name
  | .index position => "[" ++ toString position ++ "]"

/-- A path as it is shown. -/
def Path.text (path : Path) : String :=
  if path.isEmpty then "<root>" else String.join (path.map PathStep.text)

namespace Node

/-- The child a step leads to. -/
def child? : Node → PathStep → Option Node
  | .object _ properties _, .key key => lookup properties key
  | .list _ values _ _, .index index => values[index]?
  | _, _ => none

/-- **The node a path leads to.** -/
def get? (node : Node) : Path → Option Node
  | [] => some node
  | step :: rest => (node.child? step).bind (get? · rest)

/-- The properties with the first value of a key changed, if there is one and it can be. -/
def modifyKey? (change : Node → Option Node) (key : String) :
    List (String × Node) → Option (List (String × Node))
  | [] => none
  | (other, value) :: rest =>
    if other = key then (change value).map fun value => (other, value) :: rest
    else (modifyKey? change key rest).map ((other, value) :: ·)

/-- The values with the one at an index changed, if there is one and it can be. -/
def modifyIndex? (change : Node → Option Node) : Nat → List Node → Option (List Node)
  | _, [] => none
  | 0, value :: rest => (change value).map (· :: rest)
  | index + 1, value :: rest => (modifyIndex? change index rest).map (value :: ·)

/-- The node with the child at a step changed. -/
def modifyChild? (change : Node → Option Node) : Node → PathStep → Option Node
  | .object name properties origin, .key key =>
    (modifyKey? change key properties).map fun properties => .object name properties origin
  | .list name values operation origin, .index index =>
    (modifyIndex? change index values).map fun values => .list name values operation origin
  | _, _ => none

/-- **The tree with the node at a path changed.** -/
def modify? (change : Node → Option Node) (node : Node) : Path → Option Node
  | [] => change node
  | step :: rest => node.modifyChild? (modify? change · rest) step

/-- The tree with the node at a path replaced. -/
def set? (node : Node) (path : Path) (value : Node) : Option Node :=
  node.modify? (fun _ => some value) path

/-- A key can be changed exactly where it can be found. -/
theorem modifyKey?_isSome (change : Node → Option Node) (key : String)
    (properties : List (String × Node)) :
    (modifyKey? change key properties).isSome
      = ((lookup properties key).bind change).isSome := by
  induction properties with
  | nil => rfl
  | cons property rest ih =>
    obtain ⟨other, value⟩ := property
    by_cases h : other = key
    · simp [modifyKey?, lookup, h]
    · simpa [modifyKey?, lookup, h] using ih

/-- An index can be changed exactly where it can be found. -/
theorem modifyIndex?_isSome (change : Node → Option Node) (index : Nat) (values : List Node) :
    (modifyIndex? change index values).isSome = (values[index]?.bind change).isSome := by
  induction values generalizing index with
  | nil => cases index <;> rfl
  | cons value rest ih =>
    cases index with
    | zero => simp [modifyIndex?]
    | succ index => simpa [modifyIndex?] using ih index

/-- **A node can be changed exactly where it can be found.** -/
theorem modify?_isSome (change : Node → Option Node) (node : Node) (path : Path) :
    (node.modify? change path).isSome = ((node.get? path).bind change).isSome := by
  induction path generalizing node with
  | nil => rfl
  | cons step rest ih =>
    have bind_child : ∀ child : Option Node,
        (child.bind (modify? change · rest)).isSome
          = ((child.bind (get? · rest)).bind change).isSome := fun child => by
      cases child with
      | none => rfl
      | some child => exact ih child
    cases node <;> cases step <;>
      simp [modify?, get?, modifyChild?, child?, modifyKey?_isSome, modifyIndex?_isSome, bind_child]

end Node

end TreeLang
