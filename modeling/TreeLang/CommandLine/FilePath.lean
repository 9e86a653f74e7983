/-!
# Paths of files

A file path is a text whose components are separated by slashes.  Slashes may be repeated, and a
component that is a single point says to stay where one is; neither changes where a path leads, and
at the end of a path both are passed over to find the name of the file.  Import paths are file
paths relative to the directory of the file that is compiled, with an extension of their own or the
default one.

* `FilePath.components`, `FilePath.endsInside` — the way a path leads.
* `FilePath.fileName?`, `FilePath.extension?`, `FilePath.parent`, `FilePath.join`.
* `FilePath.withDefaultExtension` — the path of an imported file.
-/

namespace TreeLang.FilePath

/-- The components of a path; the empty ones say nothing. -/
def components (path : String) : List String :=
  ((path.toList.splitOn '/').map String.ofList).filter fun component => !component.isEmpty

/-- Whether a path starts at the root of the file system. -/
def isAbsolute (path : String) : Bool :=
  path.toList.head? = some '/'

/-- Whether a path ends with a slash, and so says that it leads to a directory. -/
def endsInside (path : String) : Bool :=
  path.toList.getLast? = some '/'

/-! ## The last component

These work on the characters of a path from its end.
-/

/-- A reversed path from its last component on, without slashes and single points behind it. -/
def trimEnd : List Char → List Char
  | '/' :: rest => trimEnd rest
  | '.' :: '/' :: rest => trimEnd rest
  | rest => rest

/-- The last component of a path, if it is a name and does not lead upwards or nowhere. -/
def fileName? (path : String) : Option String :=
  let name := String.ofList ((trimEnd path.toList.reverse).takeWhile (· ≠ '/')).reverse
  if name = "" ∨ name = "." ∨ name = ".." then none else some name

/-- **The directory of a file**: the path without its last component. -/
def parent (path : String) : String :=
  let above := (trimEnd path.toList.reverse).dropWhile (· ≠ '/')
  match trimEnd above with
  | [] => if above.isEmpty then "" else "/"
  | rest => String.ofList rest.reverse

/-- A path taken from a directory. -/
def join (directory path : String) : String :=
  if isAbsolute path then path
  else if directory.isEmpty || endsInside directory then directory ++ path
  else directory ++ "/" ++ path

/-- The extension of a file: what follows the last point of its name, unless the name begins with
that point. -/
def extension? (path : String) : Option String :=
  (fileName? path).bind fun name =>
    let cs := name.toList.reverse
    let ending := cs.takeWhile (· ≠ '.')
    if cs.length ≤ ending.length + 1 then none else some (String.ofList ending.reverse)

/-- **The path with an extension**, the default one if it has none.  A path that leads to no file
stays as it is. -/
def withDefaultExtension (extension : String) (path : String) : String :=
  match extension? path, fileName? path with
  | none, some _ => String.ofList (trimEnd path.toList.reverse).reverse ++ "." ++ extension
  | _, _ => path

end TreeLang.FilePath
