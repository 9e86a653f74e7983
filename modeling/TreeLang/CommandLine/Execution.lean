import TreeLang.CommandLine.Arguments
import TreeLang.CommandLine.Config
import TreeLang.CommandLine.FileTree
import TreeLang.Import.Loading
import TreeLang.Json.Encoding
import TreeLang.Json.Printer

/-!
# Executing a command

A command compiles one file and prints something about it.  Options come from a config file, and
imports are files next to the one that is compiled.

* `compileFile` — compiles a file with its imports.
* `Report` texts, `summary`, `printTree`, `printDefinitions` — what is written.
* **`execute`** — the outcome of a command: its exit code and what it writes.
-/

namespace TreeLang

/-- Why a command fails before anything is compiled. -/
inductive CommandFailure where
  | unreadable (path message : String)
  | invalidConfig (path : String)
deriving Repr, DecidableEq

/-- The message for a failed command. -/
def CommandFailure.message : CommandFailure → String
  | .unreadable path message => "cannot read '" ++ path ++ "': " ++ message
  | .invalidConfig path => "invalid config '" ++ path ++ "'"

/-- What a command leaves behind. -/
structure Outcome where
  /-- Zero, or one if the file has errors. -/
  code : Nat
  stdout : String
  /-- The reports as plain text, and the summary of a check. -/
  stderr : String
deriving Repr, DecidableEq

namespace Command

/-! ## Reading -/

/-- The path of the file behind an import of another file. -/
def importedFile (file path : String) : String :=
  FilePath.withDefaultExtension "among" (FilePath.join (FilePath.parent file) path)

/-- The loader of the imports of a file. -/
def fileLoader (system : FileSystem) (file : String) : Loader := fun path =>
  let imported := importedFile file path
  match system.read imported with
  | .ok text => .source ⟨imported, text⟩
  | .error message => .failure (.unreadable path message)

/-- **Compiles a file with its imports.**  Every path that is imported stands in some file, so
imports nest no deeper than there are characters. -/
def compileFile (system : FileSystem) (options : CompileOptions) (file text : String) :
    Compilation × ImportState :=
  let resolver := loadingResolver options (fileLoader system file) (system.extent + 1)
  compile options resolver ⟨file, text⟩ {}

/-- The text of a file, or the failure to read it. -/
def readFile (system : FileSystem) (path : String) : Except CommandFailure String :=
  match system.read path with
  | .ok text => .ok text
  | .error message => .error (.unreadable path message)

/-- The options of a config file; its extension tells its form. -/
def loadOptions (system : FileSystem) (path : String) : Except CommandFailure CompileOptions := do
  let text ← readFile system path
  let isYaml := FilePath.extension? path = some "yaml" ∨ FilePath.extension? path = some "yml"
  match if isYaml then CompileOptions.ofYamlText? text else CompileOptions.ofJsonText? text with
  | some options => return options
  | none => throw (.invalidConfig path)

/-! ## Writing -/

/-- A line of output. -/
def line (text : String) : String :=
  text ++ "\n"

/-- The ending of a counted word. -/
def plural (count : Nat) : String :=
  if count = 1 then "" else "s"

/-- One line on how many errors and warnings a file has. -/
def summary (compilation : Compilation) : String :=
  let errors := compilation.errorCount
  let warnings := compilation.warningCount
  line ((if errors = 0 then "ok" else "failed") ++ ": " ++ compilation.source.name ++ " (" ++
    toString errors ++ " error" ++ plural errors ++ ", " ++
    toString warnings ++ " warning" ++ plural warnings ++ ")")

/-- The values of a file, a line for each. -/
def printTree (compilation : Compilation) : String :=
  String.join (compilation.values.map fun value => line value.text)

/-- The definitions of a file, macros and operators under headings. -/
def printDefinitions (definitions : Definitions) : String :=
  let entry (text : String) : String := line ("  " ++ text)
  line "macros:" ++ String.join (definitions.macros.definitions.map (entry ·.value.header)) ++
    line "operators:" ++ String.join (definitions.operators.definitions.map (entry ·.text))

/-- What a command writes about a compilation: its result, and what goes with the reports. -/
def output (command : Command) (compilation : Compilation) : String × String :=
  let definitions := compilation.definitions.value
  match command with
  | .check => ("", summary compilation)
  | .tree true => (line compilation.root.toJson.pretty, "")
  | .tree false => (printTree compilation, "")
  | .defs true => (line definitions.toJson.pretty, "")
  | .defs false => (printDefinitions definitions, "")

/-- The reports of a compilation as plain text. -/
def printReports (compilation : Compilation) : String :=
  String.join (compilation.reports.map fun report => line (report.render compilation.source))

/-! ## Execution -/

/-- **Executes a command**: reads the options, compiles the file, and writes.  The second answer is
what was learnt about imports. -/
def execute (system : FileSystem) (arguments : Arguments) :
    Except CommandFailure (Outcome × ImportState) := do
  let options ← match arguments.config with
    | some path => loadOptions system path
    | none => pure {}
  let text ← readFile system arguments.file
  let (compilation, imports) := compileFile system options arguments.file text
  let (stdout, note) := arguments.command.output compilation
  return (⟨if compilation.isSuccess then 0 else 1, stdout, printReports compilation ++ note⟩,
    imports)

end Command

end TreeLang
