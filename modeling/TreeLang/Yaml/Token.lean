import TreeLang.Yaml.Place

/-!
# Tokens of a YAML text

A token is what remains of a text once its layout is told.  Where a block of lines begins and ends
is a token of its own, and so is what makes a word the key of a value.

* `Style` — the ways to write a scalar.
* `Token` — the tokens.
-/

namespace TreeLang.Yaml

/-- How a scalar is written. -/
inductive Style where
  /-- As it is. -/
  | plain
  | singleQuoted
  | doubleQuoted
  /-- As a block of lines that are kept. -/
  | literal
  /-- As a block of lines that are joined. -/
  | folded
deriving Repr, DecidableEq, Inhabited

/-- A token. -/
inductive Token where
  /-- The lines of three hyphens and of three points. -/
  | documentStart
  | documentEnd
  /-- The directive that names the version of the format. -/
  | version (major minor : Nat)
  /-- The directive that names what a tag handle stands for. -/
  | handle (name meaning : String)
  | blockSequenceStart
  | blockMappingStart
  | blockEnd
  | flowSequenceStart
  | flowSequenceEnd
  | flowMappingStart
  | flowMappingEnd
  | blockEntry
  | flowEntry
  | key
  | value
  | anchor (name : String)
  | alias (name : String)
  /-- A tag; with an empty handle the suffix is all of it. -/
  | tag (handle suffix : String)
  | scalar (text : String) (style : Style)
deriving Repr, DecidableEq, Inhabited

end TreeLang.Yaml
