import TreeLang.CommandLine.Execution

/-!
# The program

The program executes one command on the files of the machine.  Which files a command needs shows
only while it is executed, so the command is executed on the files that are known, and once more
with those that it asked for in vain, until it asks for no other.  A command without an answer is
explained on the error output.

* `KnownFiles` — what was read so far.
* `KnownFiles.requests` — what has to be read next.
* `main` — exit code zero for success, one for a file with errors, two for a command that could not
  be executed.
-/

namespace TreeLang

/-- The paths that were looked up so far, each with its text or why it cannot be read. -/
structure KnownFiles where
  files : List (String × Except String String)

namespace KnownFiles

/-- The known files as a file system; nothing stands at any other path. -/
def toFileSystem (known : KnownFiles) : FileSystem where
  read := fun path =>
    ((known.files.find? fun file => file.1 = path).map Prod.snd).getD (.error FileTree.missing)
  extent :=
    known.files.foldl (fun extent file => extent + (file.2.toOption.getD "").length) 0

/-- **The paths that a command asks for in vain**, each once. -/
def requests (known : KnownFiles) (arguments : Arguments) : List String :=
  let asked := match Command.execute known.toFileSystem arguments with
    | .error (.unreadable path _) => [path]
    | .error (.invalidConfig _) => []
    | .ok (_, imports) => imports.loaded.map (Command.importedFile arguments.file)
  (asked.filter fun path => !(known.files.any fun file => file.1 = path)).eraseDups

end KnownFiles

/-- Why a file cannot be read, in the words of the file system. -/
def unreadableText : IO.Error → String
  | .noFileOrDirectory .. => FileTree.missing
  | .inappropriateType _ 21 _ => FileTree.isDirectory
  | .inappropriateType _ 20 _ => FileTree.notDirectory
  | .invalidArgument _ 36 _ => FileTree.nameTooLong
  | .permissionDenied .. => "Permission denied (os error 13)"
  | failure => toString failure

/-- The text of a file of the machine, or why it cannot be read. -/
def readMachineFile (path : String) : IO (Except String String) := do
  if path.toList.contains (Char.ofNat 0) then
    return .error FileTree.unexpectedNul
  try
    return .ok (← IO.FS.readFile path)
  catch failure =>
    return .error (unreadableText failure)

/-- Reads what a command asks for until it asks for no more. -/
partial def readRequested (arguments : Arguments) (known : KnownFiles) : IO KnownFiles := do
  match known.requests arguments with
  | [] => return known
  | paths => do
    let files ← paths.mapM fun path => return (path, ← readMachineFile path)
    readRequested arguments ⟨files ++ known.files⟩

/-- Writes what a command leaves behind, and answers the exit code. -/
def runCommand (arguments : Arguments) : IO UInt32 := do
  let known ← readRequested arguments ⟨[]⟩
  match Command.execute known.toFileSystem arguments with
  | .error failure =>
    IO.eprintln ("error: " ++ failure.message)
    return 2
  | .ok (outcome, _) =>
    IO.eprint outcome.stderr
    IO.print outcome.stdout
    return if outcome.code = 0 then 0 else 1

end TreeLang

/-- Executes the command that the arguments ask for. -/
def main (words : List String) : IO UInt32 := do
  match TreeLang.Arguments.parse words with
  | .ok arguments => TreeLang.runCommand arguments
  | .error mistake =>
    if mistake.isRequest then
      IO.print mistake.text
      return 0
    else
      IO.eprint mistake.text
      return 2
