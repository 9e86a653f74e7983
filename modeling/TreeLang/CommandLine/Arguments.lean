/-!
# Arguments of the command line

    among [--config FILE] [--plain] check FILE
    among [--config FILE] [--plain] tree [--json] FILE
    among [--config FILE] [--plain] defs [--json] FILE

The first two options may also stand behind the command.  Arguments are read from left to right,
and the first one that is wrong, or asks for help, decides the outcome.  A value, though, is looked
at only when the next argument has found its own place: a wrong option is noticed before an empty
value in front of it.

* `Command`, `Arguments` — what is asked for.
* `UsageError` — why arguments are refused, or what they ask for instead of a command; its `text` is
  what is shown then, and `isRequest` tells the two apart.
* `Level`, `Level.settle` — the arguments before a command or behind it, and the look at a value.
* **`Arguments.parse`** — the reader.
-/

namespace TreeLang

/-- What is done with a file. -/
inductive Command where
  /-- Compile it and say how many reports there are. -/
  | check
  /-- Print its tree. -/
  | tree (json : Bool)
  /-- List what it exports. -/
  | defs (json : Bool)
deriving Repr, DecidableEq

/-- What is asked for. -/
structure Arguments where
  config : Option String
  /-- Whether reports are written as plain text. -/
  plain : Bool
  command : Command
  file : String
deriving Repr, DecidableEq

/-- Why there is nothing to execute. -/
inductive UsageError where
  | displayHelp
  | displayVersion
  /-- There are no arguments at all. -/
  | displayHelpOnMissing
  | missingCommand
  | missingFile
  | invalidCommand
  | unknownArgument
  | invalidValue
  | surplusValue
  /-- An option is given twice. -/
  | conflict
deriving Repr, DecidableEq

namespace UsageError

/-- How the program is called. -/
def usage : String :=
  "Usage: among [--config FILE] [--plain] check FILE\n" ++
    "       among [--config FILE] [--plain] tree [--json] FILE\n" ++
    "       among [--config FILE] [--plain] defs [--json] FILE\n"

/-- Whether it was asked for, and is no mistake. -/
def isRequest : UsageError → Bool
  | .displayHelp | .displayVersion => true
  | _ => false

/-- What is shown instead of executing a command. -/
def text : UsageError → String
  | .displayHelp | .displayHelpOnMissing => usage
  | .displayVersion => "among 0.1.0\n"
  | .missingCommand => "error: a command is missing\n\n" ++ usage
  | .missingFile => "error: the file is missing\n\n" ++ usage
  | .invalidCommand => "error: there is no such command\n\n" ++ usage
  | .unknownArgument => "error: unexpected argument\n\n" ++ usage
  | .invalidValue => "error: an option lacks its value\n\n" ++ usage
  | .surplusValue => "error: an option takes no value\n\n" ++ usage
  | .conflict => "error: an option is given twice\n\n" ++ usage

end UsageError

namespace Arguments

/-! ## The arguments of one level -/

/-- What was read last and not looked at yet. -/
inductive Unsettled where
  /-- The option for the config file, its value still to come. -/
  | configOption
  | config (value : String)
  | file (value : String)
deriving Repr, DecidableEq

/-- What was read on one level: before the command, or behind it. -/
structure Level where
  config : Option String := none
  plain : Bool := false
  json : Bool := false
  file : Option String := none
  unsettled : Option Unsettled := none
deriving Repr, DecidableEq

namespace Level

/-- Sets the config file: once, and to something. -/
def setConfig (level : Level) (value : String) : Except UsageError Level :=
  if level.config.isSome then .error .conflict
  else if value.isEmpty then .error .invalidValue
  else .ok { level with config := some value }

/-- **Looks at what was read last.** -/
def settle (level : Level) : Except UsageError Level :=
  let settled := { level with unsettled := none }
  match level.unsettled with
  | none => .ok level
  | some .configOption => .error .invalidValue
  | some (.config value) => settled.setConfig value
  | some (.file value) =>
    if value.isEmpty then .error .invalidValue else .ok { settled with file := some value }

/-- Whether the next word is the value of the config file. -/
def awaitsValue (level : Level) : Bool :=
  level.unsettled = some .configOption

/-- Whether the file was read, settled or not. -/
def hasFile (level : Level) : Bool :=
  match level.unsettled with
  | some (.file _) => true
  | _ => level.file.isSome

/-- Whether any argument was read. -/
def isUsed (level : Level) : Bool :=
  level.config.isSome || level.plain

end Level

/-! ## Options -/

/-- Where an option stands. -/
inductive Scope where
  | beforeCommand
  | behindCommand (takesJson : Bool)
deriving Repr, DecidableEq

/-- The name of a long option and the value behind its equals sign. -/
def splitOption (word : String) : String × Option String :=
  let body := word.toList.drop 2
  let name := body.takeWhile (· ≠ '=')
  match body.drop name.length with
  | _ :: value => (String.ofList name, some (String.ofList value))
  | [] => (String.ofList name, none)

/-- Whether a word is an option and not a value: it begins with a hyphen and is more than that. -/
def isOption (word : String) : Bool :=
  word.toList.head? = some '-' && word ≠ "-"

/-- Whether a word is a long option. -/
def isLong (word : String) : Bool :=
  "--".toList.isPrefixOf word.toList

/-- Whether there is a long option of a name that takes no value. -/
def isFlag (scope : Scope) (name : String) : Bool :=
  name = "plain" || name = "help" || (name = "json" && scope = .behindCommand true) ||
    (name = "version" && scope = .beforeCommand)

/-- A flag: set once, or a request that ends the reading. -/
def flag (level : Level) (name : String) : Except UsageError Level := do
  let level ← level.settle
  if name = "plain" then
    if level.plain then throw .conflict else return { level with plain := true }
  else if name = "json" then
    if level.json then throw .conflict else return { level with json := true }
  else throw (if name = "version" then .displayVersion else .displayHelp)

/-- **An option.**  One that there is not, or a value that it does not take, is noticed before
anything that was read earlier is looked at. -/
def option (scope : Scope) (level : Level) (word : String) : Except UsageError Level :=
  if isLong word then
    let (name, value) := splitOption word
    if name = "config" then do
      let level ← level.settle
      match value with
      | some value => level.setConfig value
      | none => return { level with unsettled := some .configOption }
    else if !isFlag scope name then .error .unknownArgument
    else if value.isSome then .error .surplusValue
    else flag level name
  else if word.toList[1]? = some 'h' then flag level "help"
  else if word.toList[1]? = some 'V' ∧ scope = .beforeCommand then flag level "version"
  else .error .unknownArgument

/-! ## Commands -/

/-- The arguments behind a command.  After a double hyphen everything is a file. -/
def behindCommand (takesJson : Bool) (filesOnly : Bool) (level : Level) :
    List String → Except UsageError Level
  | [] => level.settle
  | word :: rest =>
    if !filesOnly && word = "--" then behindCommand takesJson true level rest
    else if !filesOnly && isOption word then do
      behindCommand takesJson false (← option (.behindCommand takesJson) level word) rest
    else if !filesOnly && level.awaitsValue then
      behindCommand takesJson false { level with unsettled := some (.config word) } rest
    else if level.hasFile then .error .unknownArgument
    else do
      let level ← level.settle
      behindCommand takesJson filesOnly { level with unsettled := some (.file word) } rest

/-- The command of a word. -/
def command? (word : String) : Option (Bool → Command) :=
  if word = "check" then some fun _ => .check
  else if word = "tree" then some .tree
  else if word = "defs" then some .defs
  else none

/-- What the words behind `help` ask for: help, on the program or on one command. -/
def help : List String → UsageError
  | [] => .displayHelp
  | [word] => if (command? word).isSome ∨ word = "help" then .displayHelp else .invalidCommand
  | _ => .invalidCommand

/-- The command with its arguments, which are looked at before what stands in front of the command;
what stands behind it overrides what stands before. -/
def complete (before : Level) (command : Bool → Command) (words : List String) :
    Except UsageError Arguments := do
  let takesJson := command true ≠ command false
  let level ← behindCommand takesJson false {} words
  match level.file with
  | none => throw .missingFile
  | some file =>
    let before ← before.settle
    return ⟨level.config.or before.config, before.plain || level.plain, command level.json, file⟩

/-- Why there is no command among the arguments. -/
def withoutCommand (level : Level) : UsageError :=
  match level.settle with
  | .error mistake => mistake
  | .ok level => if level.isUsed then .missingCommand else .displayHelpOnMissing

/-- The mistake in a word that is no command, or stands where none may stand any more. -/
def misplaced (word : String) : UsageError :=
  if (command? word).isSome ∨ word = "help" then .unknownArgument else .invalidCommand

/-- The arguments before the command, and everything from there on.  After a double hyphen no
command may follow. -/
def beforeCommand (level : Level) : List String → Except UsageError Arguments
  | [] => .error (withoutCommand level)
  | word :: rest =>
    if !level.awaitsValue && word = "help" then .error (help rest)
    else match if level.awaitsValue then none else command? word with
      | some command => complete level command rest
      | none =>
        if word = "--" then
          .error ((rest.head?.map misplaced).getD (withoutCommand level))
        else if isOption word then do
          beforeCommand (← option .beforeCommand level word) rest
        else if level.awaitsValue then
          beforeCommand { level with unsettled := some (.config word) } rest
        else .error .invalidCommand

/-- **What the words after the program's name ask for.** -/
def parse (words : List String) : Except UsageError Arguments :=
  beforeCommand {} words

end Arguments

end TreeLang
