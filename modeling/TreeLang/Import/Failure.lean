/-!
# Failed imports

Why the definitions behind an import path cannot be had.  The messages appear as hints of the
report that stands at the importing statement.
-/

namespace TreeLang

/-- Why an import fails. -/
inductive ImportFailure where
  | notFound (path : String)
  /-- The text behind the path is still being compiled. -/
  | cycle (path : String)
  /-- The text behind the path has errors of its own. -/
  | failed (path : String) (errors : Nat)
  | unreadable (path : String) (message : String)
deriving Repr, DecidableEq

/-- The message for a failed import. -/
def ImportFailure.message : ImportFailure → String
  | .notFound path => "nothing is known under '" ++ path ++ "'"
  | .cycle path => "'" ++ path ++ "' imports itself"
  | .failed path errors => "'" ++ path ++ "' has " ++ toString errors ++ " error(s)"
  | .unreadable path message => "cannot read '" ++ path ++ "': " ++ message

end TreeLang
