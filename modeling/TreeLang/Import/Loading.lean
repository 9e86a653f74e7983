import TreeLang.Compilation

/-!
# Imports compiled on demand

Behind an import path there may be a source, which a loader finds.  It is compiled when it is
imported for the first time, its own imports in the same way, and its definitions are kept: a path
means the same definitions wherever it is imported.  A source that is imported while it is being
compiled imports itself, and that is refused; so imports nest no deeper than there are sources.

* `Loaded`, `Loader` — what is found behind a path.
* **`loadingResolver`** — the resolver of a loader.
* `precompile` — the table of definitions of sources that are compiled beforehand.
-/

namespace TreeLang

/-- What a loader finds behind a path. -/
inductive Loaded where
  | source (source : Source)
  | failure (failure : ImportFailure)
  /-- The loader gave way, with a message unless it had none to give. -/
  | fault (message : Option String)

/-- Finds sources. -/
abbrev Loader := String → Loaded

/-- Compiles the source behind a path, which is not being compiled yet. -/
def compileImport (options : CompileOptions) (resolver : Resolver) (path : String)
    (source : Source) : EStateM Fault ImportState (Except ImportFailure (Shared Definitions)) := do
  modify fun s => { s with active := path :: s.active }
  let compilation ← modifyGet (compile options resolver source)
  modify fun s => { s with active := s.active.filter (· ≠ path) }
  let errors := compilation.errorCount
  if errors = 0 then
    modify fun s => { s with cache := (path, compilation.definitions) :: s.cache }
    return .ok compilation.definitions
  else return .error (.failed path errors)

/-- **Resolves imports by compiling what a loader finds**, where imports nest no deeper than
`depth`. -/
def loadingResolver (options : CompileOptions) (loader : Loader) : Nat → Resolver
  | 0, _ => throw .exhausted
  | depth + 1, path => do
    let s ← get
    match s.cache.find? fun entry => entry.1 = path with
    | some (_, definitions) => return .ok definitions
    | none =>
      if s.active.contains path then return .error (.cycle path)
      else
        set { s with loaded := s.loaded ++ [path] }
        match loader path with
        | .failure failure => return .error failure
        | .fault message => throw (.loader message)
        | .source source =>
          compileImport options (loadingResolver options loader depth) path source

/-- The definitions of sources compiled one after the other, each with those before it at hand;
the latest first, so that of two sources of one path the latter counts. -/
def precompile (options : CompileOptions) (sources : List (String × Source))
    (imports : ImportState) : List (String × Shared Definitions) × ImportState :=
  sources.foldl (fun (table, imports) (path, source) =>
    let (compilation, imports) := compile options (tableResolver table) source imports
    ((path, compilation.definitions) :: table, imports)) ([], imports)

end TreeLang
