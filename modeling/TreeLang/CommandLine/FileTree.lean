import TreeLang.CommandLine.FilePath

/-!
# Directories of files

The command line reads files, and sees of the file system only this: the text behind a path, or a
message why there is none.  A directory whose files are known beforehand is one such view.

A path is followed component by component.  Nothing is known of the machine outside the directory
but what every machine has, and a way that leads out of the directory does not lead back.

* `FileSystem` — the view.
* `FileTree` — the files of a directory, with their paths.
* `Place`, `FileTree.follow` — where a path has led so far, and where it leads on.
* **`FileTree.toFileSystem`** — the directory as a file system.
-/

namespace TreeLang

/-- What can be seen of a file system. -/
structure FileSystem where
  /-- The text behind a path, or why it cannot be read. -/
  read : String → Except String String
  /-- How many characters there are in all files together. -/
  extent : Nat

/-- The files of a directory in the order they were written, each with its path from there. -/
structure FileTree where
  files : List (String × String)
deriving Repr

namespace FileTree

/-! ## Why a file cannot be read -/

/-- Why a path leads nowhere. -/
def missing : String := "No such file or directory (os error 2)"

/-- Why a directory cannot be read. -/
def isDirectory : String := "Is a directory (os error 21)"

/-- Why a path cannot lead through a file. -/
def notDirectory : String := "Not a directory (os error 20)"

/-- Why a path is not followed at all, or no further than to a name. -/
def nameTooLong : String := "File name too long (os error 36)"

/-- Why a path with the character zero in it names nothing. -/
def unexpectedNul : String := "file name contained an unexpected NUL byte"

/-- How many bytes a path may have. -/
def maxPathLength : Nat := 4095

/-- How many bytes a name may have. -/
def maxNameLength : Nat := 255

/-! ## Places -/

/-- A place in the file system, given by the names that lead there. -/
inductive Place where
  /-- From the directory whose files are known. -/
  | inside (names : List String)
  /-- From the root of the file system. -/
  | absolute (names : List String)
  /-- Above the known directory. -/
  | above
deriving Repr, DecidableEq

/-- The place that a component leads to. -/
def Place.enter (place : Place) (component : String) : Option Place :=
  if component = "." then some place
  else if component = ".." then
    match place with
    | .inside [] => some .above
    | .inside names => some (.inside names.dropLast)
    | .absolute names => some (.absolute names.dropLast)
    | .above => some .above
  else
    match place with
    | .inside names => some (.inside (names ++ [component]))
    | .absolute names => some (.absolute (names ++ [component]))
    | .above => none

/-- The place of a file that was written under a path, reckoned without looking at the files. -/
def placeOf (path : String) : Option Place :=
  (FilePath.components path).foldlM Place.enter (.inside [])

/-- What stands at a place: a file, a directory, or nothing. -/
inductive Entry where
  | file (text : String)
  | directory
  | nothing

/-- The directories that every machine has at its root. -/
def commonDirectories : List String :=
  ["bin", "dev", "etc", "home", "lib", "opt", "proc", "root", "run", "sbin", "sys", "tmp", "usr",
    "var"]

/-- Whether the second place lies below the first one, or is it. -/
def Place.contains : Place → Place → Bool
  | .inside names, .inside others => names.isPrefixOf others
  | _, _ => false

/-- What stands at a place.  A file that was written later replaces an earlier one. -/
def entry (tree : FileTree) : Place → Entry
  | .above => .directory
  | .absolute [] => .directory
  | .absolute ["dev", "null"] => .file ""
  | .absolute [name] => if commonDirectories.contains name then .directory else .nothing
  | .absolute _ => .nothing
  | .inside names =>
    let place := Place.inside names
    match tree.files.reverse.find? fun file => placeOf file.1 = some place with
    | some (_, text) => .file text
    | none =>
      let above := tree.files.any fun file => (placeOf file.1).any place.contains
      if names.isEmpty || above then .directory else .nothing

/-! ## Following a path -/

/-- **Follows components from a place.**  Every place on the way has to be a directory. -/
def follow (tree : FileTree) (place : Place) : List String → Except String Entry
  | [] => .ok (tree.entry place)
  | component :: rest =>
    match tree.entry place with
    | .file _ => .error notDirectory
    | .nothing => .error missing
    | .directory =>
      if maxNameLength < component.utf8ByteSize then .error nameTooLong
      else match place.enter component with
        | some place => tree.follow place rest
        | none => .error missing

/-- The text behind a path. -/
def read (tree : FileTree) (path : String) : Except String String :=
  if path.toList.contains (Char.ofNat 0) then .error unexpectedNul
  else if path.isEmpty then .error missing
  else if maxPathLength < path.utf8ByteSize then .error nameTooLong
  else
    let start := if FilePath.isAbsolute path then Place.absolute [] else .inside []
    match tree.follow start (FilePath.components path) with
    | .error message => .error message
    | .ok .nothing => .error missing
    | .ok .directory => .error isDirectory
    | .ok (.file text) => if FilePath.endsInside path then .error notDirectory else .ok text

/-- **The directory as a file system.** -/
def toFileSystem (tree : FileTree) : FileSystem where
  read := tree.read
  extent := tree.files.foldl (fun extent file => extent + file.2.length) 0

end FileTree

end TreeLang
