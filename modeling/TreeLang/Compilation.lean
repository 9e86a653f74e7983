import TreeLang.Parse.File
import TreeLang.Report.Render

/-!
# Compilations

Compiling a source gives its tree, the definitions it hands to importers, and every report.  It
never fails as such: a compilation is a success when none of its reports is an error.

* `Compilation` — the result.
* **`compile`** — compiles a source with a resolver for its imports.
* `compileAlone` — compiles a source that has no imports to resolve.
-/

namespace TreeLang

/-- The result of compiling a source. -/
structure Compilation where
  source : Source
  /-- An unnamed list of the values at the top of the source. -/
  root : Node
  definitions : Shared Definitions
  reports : List Report

namespace Compilation

/-- The values at the top of the source. -/
def values (compilation : Compilation) : List Node :=
  compilation.root.values?.getD []

/-- The reports that are errors. -/
def errors (compilation : Compilation) : List Report :=
  compilation.reports.filter Report.isError

/-- How many reports are errors. -/
def errorCount (compilation : Compilation) : Nat :=
  compilation.errors.length

/-- How many reports are warnings. -/
def warningCount (compilation : Compilation) : Nat :=
  compilation.reports.countP fun report => report.severity = .warning

/-- Whether no report is an error. -/
def isSuccess (compilation : Compilation) : Bool :=
  compilation.errorCount = 0

/-- Every report as plain text. -/
def render (compilation : Compilation) : String :=
  String.intercalate "\n" (compilation.reports.map (·.render compilation.source))

end Compilation

/-- **Compiles a source.**  What is learnt about imports is kept in the state that is passed on. -/
def compile (options : CompileOptions) (resolver : Resolver) (source : Source)
    (imports : ImportState) : Compilation × ImportState :=
  let start := Parser.initial options source imports
  let (values, definitions, reports, imports) :=
    match Parser.parseAll options resolver (source.length + 1) [] start with
    | .ok values s => (values, s.exported, s.reports.toList, s.imports)
    | .error fault s => ([], .empty, [Report.of (.fault fault.detail)], s.imports)
  let (shared, supply) := imports.supply.share definitions
  (⟨source, .listOf "" values false, shared, reports⟩, { imports with supply := supply })

/-- Compiles a source all of whose imports are unknown. -/
def compileAlone (options : CompileOptions) (source : Source) (imports : ImportState) :
    Compilation × ImportState :=
  compile options (tableResolver []) source imports

end TreeLang
