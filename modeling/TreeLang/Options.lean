import TreeLang.Report.Basic

/-!
# Options of a compilation

Six settings that say how strict a compilation is and what it starts from.
-/

namespace TreeLang

/-- What happens to a malformed escape of a code point.  It is read as its letter in any case. -/
inductive EscapePolicy where
  | error
  | warn
  | ignore
deriving Repr, DecidableEq, Inhabited

/-- How serious the report of a malformed escape is; nothing when there is none. -/
def EscapePolicy.severity? : EscapePolicy → Option Severity
  | .error => some .error
  | .warn => some .warning
  | .ignore => none

/-- The settings of a compilation, with their defaults. -/
structure CompileOptions where
  /-- An unnamed operation of a single element is that element. -/
  collapseUnaryOperation : Bool := true
  /-- A repeated key is a warning and not an error. -/
  allowDuplicateProperties : Bool := false
  /-- A rejected operator is a warning and not an error. -/
  allowInvalidOperators : Bool := false
  /-- The template of a constant macro is copied at every use. -/
  copyConstantMacros : Bool := true
  invalidUnicodeEscape : EscapePolicy := .error
  /-- The source starts with the default operators. -/
  defaultOperators : Bool := true
deriving Repr, DecidableEq, Inhabited

namespace CompileOptions

/-- How serious a repeated key is. -/
def duplicatePropertySeverity (options : CompileOptions) : Severity :=
  if options.allowDuplicateProperties then .warning else .error

/-- How serious a rejected operator is. -/
def invalidOperatorSeverity (options : CompileOptions) : Severity :=
  if options.allowInvalidOperators then .warning else .error

end CompileOptions

end TreeLang
