import TreeLang.Report.Cause

/-!
# Reports

A report is one message of the compiler: a cause, how serious it is, and where it stands.
Compilation collects reports and goes on; it fails when one of them is an error.

* `Severity`, ordered from information to error.
* `Report`, `Report.of`, `Report.atOffset` — a report and its construction.
-/

namespace TreeLang

/-- How serious a report is. -/
inductive Severity where
  | info
  | warning
  | error
deriving Repr, DecidableEq, Inhabited

/-- A severity as it is shown. -/
def Severity.text : Severity → String
  | .info => "info"
  | .warning => "warning"
  | .error => "error"

/-- A severity as JSON output writes it. -/
def Severity.code : Severity → String
  | .info => "info"
  | .warning => "warn"
  | .error => "error"

/-- A message of the compiler. -/
structure Report where
  severity : Severity
  cause : Cause
  /-- The character it is about, counted from the start of the source. -/
  offset : Option Nat
  hints : List String
deriving Repr, DecidableEq

namespace Report

/-- An error without a place, with the hints of its cause. -/
def of (cause : Cause) : Report :=
  ⟨.error, cause, none, cause.hints⟩

/-- The report at a place, unless it already has one. -/
def atOffset (report : Report) (offset : Nat) : Report :=
  { report with offset := some (report.offset.getD offset) }

/-- The report with one more hint. -/
def hint (report : Report) (text : String) : Report :=
  { report with hints := report.hints ++ [text] }

/-- The report with another severity. -/
def withSeverity (report : Report) (severity : Severity) : Report :=
  { report with severity := severity }

/-- The report as a warning. -/
def asWarning (report : Report) : Report :=
  report.withSeverity .warning

/-- An error at a place. -/
def errorAt (offset : Nat) (cause : Cause) : Report :=
  (of cause).atOffset offset

/-- Whether the report makes a compilation fail. -/
def isError (report : Report) : Bool :=
  report.severity = .error

/-- How the report is classified. -/
def category (report : Report) : Category :=
  report.cause.category

/-- How the report is worded. -/
def message (report : Report) : String :=
  report.cause.message

/-- A place is kept once it is set. -/
@[simp] theorem atOffset_atOffset (report : Report) (first second : Nat) :
    (report.atOffset first).atOffset second = report.atOffset first := rfl

end Report

end TreeLang
