import TreeLang.Yaml.Layout

/-!
# Documents of a YAML text

A text holds any number of documents, and a document is one node: a scalar, a sequence or a mapping.
What an alias refers to stands in its place.  Parts that are left out are empty scalars.

* `Node` — the three kinds, each with its tag.
* `Reading` — the tokens that are left, and the anchors that aliases may refer to.
* **`documents?`** — the documents of a text.
-/

namespace TreeLang.Yaml

/-- A node.  Its tag is written out, with what its handle stands for. -/
inductive Node where
  | scalar (text : String) (style : Style) (tag : Option String)
  | sequence (items : List Node) (tag : Option String)
  | mapping (entries : List (Node × Node)) (tag : Option String)
deriving Repr, Inhabited

/-- What stands where nothing is written. -/
def Node.empty : Node :=
  .scalar "" .plain none

/-- The tokens that are left, and the anchors with their nodes, the last one first. -/
structure Reading where
  tokens : List Token
  anchors : List (String × Node) := []

/-- A part of a document, read from the tokens that are left; nothing if it is malformed. -/
abbrev Reader := StateT Reading Option

/-- What the tag handles stand for in a document. -/
abbrev Handles := List (String × String)

namespace Reader

/-! ## Single tokens -/

/-- The next token. -/
def next : Reader (Option Token) := do
  return (← get).tokens.head?

/-- Passes over the next token. -/
def skip : Reader Unit :=
  modify fun reading => { reading with tokens := reading.tokens.tail }

/-- Whether the next token is one of the given. -/
def isAt (tokens : List Token) : Reader Bool := do
  return (← next).any tokens.contains

/-- Passes over the next token if it is the given one. -/
def take (token : Token) : Reader Bool := do
  let found ← isAt [token]
  if found then skip
  return found

/-! ## What stands before the content of a node -/

/-- An anchor and a tag, in either order. -/
structure Properties where
  anchor : Option String := none
  tag : Option (String × String) := none

/-- Reads the anchor, if the next token is one. -/
def anchor? : Reader (Option String) := do
  match ← next with
  | some (.anchor name) => skip; return some name
  | _ => return none

/-- Reads the tag, if the next token is one. -/
def tag? : Reader (Option (String × String)) := do
  match ← next with
  | some (.tag handle suffix) => skip; return some (handle, suffix)
  | _ => return none

/-- Reads the anchor and the tag of a node, as far as there are any. -/
def properties : Reader Properties := do
  let before ← anchor?
  let tag ← tag?
  let behind ← if before.isNone ∧ tag.isSome then anchor? else pure none
  return ⟨before.or behind, tag⟩

/-- A tag written out.  Its handle has to be known. -/
def writeOut (handles : Handles) : Option (String × String) → Reader (Option String)
  | none => return none
  | some (handle, suffix) =>
    if handle = "" then return some suffix
    else match handles.find? fun entry => entry.1 = handle with
      | some (_, meaning) => return some (meaning ++ suffix)
      | none => failure

/-- **Remembers the node of an anchor**, and answers how many were remembered before. -/
def remember (anchor : Option String) (node : Node) : Reader Nat := do
  let reading ← get
  match anchor with
  | some name => set { reading with anchors := (name, node) :: reading.anchors }
  | none => pure ()
  return reading.anchors.length

/-- Completes the node of an anchor that was remembered before its content was read. -/
def complete (anchor : Option String) (before : Nat) (node : Node) : Reader Node := do
  match anchor with
  | some name => modify fun reading =>
      { reading with
        anchors := reading.anchors.set (reading.anchors.length - 1 - before) (name, node) }
  | none => pure ()
  return node

/-- What an alias refers to. -/
def resolve (name : String) : Reader Node := do
  match (← get).anchors.find? fun entry => entry.1 = name with
  | some (_, node) => return node
  | none => failure

/-! ## Nodes

The bound is on how deep and how far the tokens are read; every step but one passes over a token.
-/

mutual

/-- **A node.**  In a block it may be a block itself; and where a sequence needs no indentation of
its own, its entries may follow at once. -/
def node (handles : Handles) (fuel : Nat) (inBlock bareEntries : Bool) : Reader Node :=
  match fuel with
  | 0 => failure
  | fuel + 1 => do
    if let some (.alias name) ← next then
      skip
      return ← resolve name
    let ⟨anchor, written⟩ ← properties
    let tag ← writeOut handles written
    match ← next with
    | some (.scalar text style) =>
      skip
      let node := Node.scalar text style (if tag = some "!" then none else tag)
      let _ ← remember anchor node
      return node
    | some .flowSequenceStart =>
      skip
      let before ← remember anchor (.sequence [] tag)
      complete anchor before (.sequence (← flowItems handles fuel true) tag)
    | some .flowMappingStart =>
      skip
      let before ← remember anchor (.mapping [] tag)
      complete anchor before (.mapping (← flowEntries handles fuel true) tag)
    | token =>
      if bareEntries ∧ token = some .blockEntry then
        let before ← remember anchor (.sequence [] tag)
        complete anchor before (.sequence (← bareItems handles fuel) tag)
      else if inBlock ∧ token = some .blockSequenceStart then
        skip
        let before ← remember anchor (.sequence [] tag)
        complete anchor before (.sequence (← blockItems handles fuel) tag)
      else if inBlock ∧ token = some .blockMappingStart then
        skip
        let before ← remember anchor (.mapping [] tag)
        complete anchor before (.mapping (← blockEntries handles fuel) tag)
      else if anchor.isSome ∨ tag.isSome then
        let node := Node.scalar "" .plain tag
        let _ ← remember anchor node
        return node
      else failure

/-- A node, or nothing where one of the given tokens follows. -/
def nodeUnless (handles : Handles) (fuel : Nat) (ends : List Token) (inBlock bareEntries : Bool) :
    Reader Node :=
  match fuel with
  | 0 => failure
  | fuel + 1 => do
    if ← isAt ends then return Node.empty else node handles fuel inBlock bareEntries

/-- The value of a key, if there is a colon. -/
def valueUnless (handles : Handles) (fuel : Nat) (ends : List Token) (inBlock : Bool) :
    Reader Node :=
  match fuel with
  | 0 => failure
  | fuel + 1 => do
    if ← take .value then nodeUnless handles fuel ends inBlock inBlock else return Node.empty

/-- The items of a block sequence up to its end. -/
def blockItems (handles : Handles) (fuel : Nat) : Reader (List Node) :=
  match fuel with
  | 0 => failure
  | fuel + 1 => do
    if ← take .blockEntry then
      let item ← nodeUnless handles fuel [.blockEntry, .blockEnd] true false
      return item :: (← blockItems handles fuel)
    else if ← take .blockEnd then return []
    else failure

/-- The items of a sequence without indentation of its own. -/
def bareItems (handles : Handles) (fuel : Nat) : Reader (List Node) :=
  match fuel with
  | 0 => failure
  | fuel + 1 => do
    if ← take .blockEntry then
      let item ← nodeUnless handles fuel [.blockEntry, .key, .value, .blockEnd] true false
      return item :: (← bareItems handles fuel)
    else return []

/-- The entries of a block mapping up to its end. -/
def blockEntries (handles : Handles) (fuel : Nat) : Reader (List (Node × Node)) :=
  match fuel with
  | 0 => failure
  | fuel + 1 => do
    if ← take .key then
      let key ← nodeUnless handles fuel [.key, .value, .blockEnd] true true
      let value ← valueUnless handles fuel [.key, .value, .blockEnd] true
      return (key, value) :: (← blockEntries handles fuel)
    else if ← take .blockEnd then return []
    else failure

/-- The items of a sequence in brackets up to the closing one; a key with its value is a mapping
of its own. -/
def flowItems (handles : Handles) (fuel : Nat) (isFirst : Bool) : Reader (List Node) :=
  match fuel with
  | 0 => failure
  | fuel + 1 => do
    if ← take .flowSequenceEnd then return []
    if !isFirst then
      if !(← take .flowEntry) then failure
    if ← take .flowSequenceEnd then return []
    let item ←
      if ← take .key then do
        let key ←
          if ← isAt [.value, .flowEntry, .flowSequenceEnd] then do
            skip
            pure Node.empty
          else node handles fuel false false
        let value ← valueUnless handles fuel [.flowEntry, .flowSequenceEnd] false
        pure (Node.mapping [(key, value)] none)
      else node handles fuel false false
    return item :: (← flowItems handles fuel false)

/-- The entries of a mapping in braces up to the closing one; a node that is no key has an empty
value. -/
def flowEntries (handles : Handles) (fuel : Nat) (isFirst : Bool) : Reader (List (Node × Node)) :=
  match fuel with
  | 0 => failure
  | fuel + 1 => do
    if ← take .flowMappingEnd then return []
    if !isFirst then
      if !(← take .flowEntry) then failure
    if ← take .flowMappingEnd then return []
    let entry ←
      if ← take .key then do
        let key ← nodeUnless handles fuel [.value, .flowEntry, .flowMappingEnd] false false
        let value ← valueUnless handles fuel [.flowEntry, .flowMappingEnd] false
        pure (key, value)
      else do
        let key ← node handles fuel false false
        pure (key, Node.empty)
    return entry :: (← flowEntries handles fuel false)

end

/-! ## Documents -/

/-- What the tag handles stand for unless a directive says otherwise. -/
def defaultHandles : Handles :=
  [("!", "!"), ("!!", "tag:yaml.org,2002:")]

/-- The directives in front of a document: the version at most once, and each handle at most
once. -/
def directives (version : Bool) (handles : Handles) : List Token → Option (Handles × List Token)
  | .version major minor :: rest =>
    if version ∨ major ≠ 1 ∨ (minor ≠ 1 ∧ minor ≠ 2) then none else directives true handles rest
  | .handle name meaning :: rest =>
    if handles.any fun entry => entry.1 = name then none
    else directives version (handles ++ [(name, meaning)]) rest
  | rest => some (handles ++ defaultHandles, rest)

/-- Whether a token says that the document in front of it is empty. -/
def endsDocument : Option Token → Bool
  | none | some .documentStart | some .documentEnd => true
  | some (.version _ _) | some (.handle _ _) => true
  | _ => false

/-- Whether a token announces a document. -/
def announcesDocument : Option Token → Bool
  | some .documentStart | some (.version _ _) | some (.handle _ _) => true
  | _ => false

/-- **The documents**, of which only the first one need not be announced. -/
def documents (fuel : Nat) (isFirst : Bool) (tokens : List Token) : Option (List Node) :=
  match fuel with
  | 0 => none
  | fuel + 1 => do
    let tokens := if isFirst then tokens else tokens.dropWhile (· = .documentEnd)
    if tokens.isEmpty then return []
    let bound := 4 * tokens.length + 4
    let (root, reading) ←
      if isFirst && !announcesDocument tokens.head? then
        (node defaultHandles bound true false).run { tokens }
      else
        match ← directives false [] tokens with
        | (handles, .documentStart :: tokens) =>
          if endsDocument tokens.head? then some (Node.empty, { tokens })
          else (node handles bound true false).run { tokens }
        | _ => none
    return root :: (← documents fuel false reading.tokens)

end Reader

/-- **The documents of a text**, if it is well-formed. -/
def documents? (text : String) : Option (List Node) := do
  let tokens ← tokens? text
  Reader.documents (tokens.length + 1) true tokens

end TreeLang.Yaml
