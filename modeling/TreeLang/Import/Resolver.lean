import TreeLang.Definitions
import TreeLang.Fault
import TreeLang.Import.Failure

/-!
# Resolvers of imports

An import names a path, and a resolver finds the definitions behind it.  A resolver may compile the
text behind the path first, and what it learns on the way is kept in an `ImportState`: which paths
were compiled already, which are being compiled, and which identities are still free.

* `ImportState` — what is known about imports so far.
* `Resolver` — a function from paths to definitions, over that state.
* `tableResolver` — the resolver of a fixed table.
-/

namespace TreeLang

/-- What is known about imports so far. -/
structure ImportState where
  /-- The definitions behind the paths that were compiled without an error. -/
  cache : List (String × Shared Definitions) := []
  /-- The paths being compiled, the innermost first. -/
  active : List String := []
  /-- The paths the loader was asked for, in order. -/
  loaded : List String := []
  supply : Supply := {}
deriving Inhabited

/-- **Finds the definitions behind a path**, or says why there are none.  A fault breaks the search
off; the state as it was then is kept. -/
abbrev Resolver :=
  String → EStateM Fault ImportState (Except ImportFailure (Shared Definitions))

/-- The resolver of a fixed table; of several entries of one path the first counts. -/
def tableResolver (table : List (String × Shared Definitions)) : Resolver := fun path =>
  match table.find? fun entry => entry.1 = path with
  | some (_, definitions) => return .ok definitions
  | none => return .error (.notFound path)

end TreeLang
