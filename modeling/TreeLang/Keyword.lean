/-!
# Statement keywords

Six words open a definition statement.  They are not reserved everywhere: a word is a keyword only
where a statement begins, and only when more follows on its line.  The printer quotes a text that
begins with one of them all the same, so that a printed value is never taken for a statement.
-/

namespace TreeLang

/-- A word that opens a definition statement. -/
inductive StatementKeyword where
  /-- Defines a template that is invoked by its name and the shape of its argument. -/
  | template
  /-- Defines a template that is invoked on a receiver. -/
  | function
  /-- Defines a symbol operator. -/
  | operator
  /-- Defines a word operator. -/
  | keyword
  /-- Takes a definition or an import back. -/
  | undefine
  /-- Imports definitions. -/
  | use
deriving Repr, DecidableEq

namespace StatementKeyword

/-- All statement keywords. -/
def all : List StatementKeyword :=
  [template, function, operator, keyword, undefine, use]

/-- The keyword as it is written. -/
def text : StatementKeyword → String
  | template => "macro"
  | function => "fn"
  | operator => "operator"
  | keyword => "keyword"
  | undefine => "undef"
  | use => "use"

/-- The keyword that a word is, if it is one. -/
def ofText? (word : String) : Option StatementKeyword :=
  all.find? fun candidate => candidate.text = word

end StatementKeyword

end TreeLang
