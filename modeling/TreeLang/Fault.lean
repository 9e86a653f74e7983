import TreeLang.Report.Basic

/-!
# Faults

A fault is not a mistake in a source but a breakdown: the loader of imports gave way, or the
compiler met data that contradict themselves.  A fault ends the statement it happens in and no
more; the compiler notes it as an internal report and goes on with the next statement.

* `Fault`, `Fault.detail` — what broke down.
* `Failure` — either a mistake, with its report, or a fault.
-/

namespace TreeLang

/-- What broke down. -/
inductive Fault where
  /-- The loader of imports gave way, with a message unless it had none to give. -/
  | loader (message : Option String)
  /-- A definition refers to a parameter that it does not have. -/
  | missingParameter (index : Nat)
  /-- A receiver macro has no parameter for its receiver. -/
  | missingReceiver
  /-- More references were found in a template than were made, so that the number of lost ones,
  which a report would name, comes out negative. -/
  | inventedReferences (found total : Nat)
  /-- A bounded computation ran into its bound. -/
  | exhausted
deriving Repr, DecidableEq

/-- A fault as the report about it words it. -/
def Fault.detail : Fault → String
  | .loader message => message.getD "unknown cause"
  | .missingParameter index => "no parameter has the index " ++ toString index
  | .missingReceiver => "a receiver macro lacks the parameter of its receiver"
  | .inventedReferences _ _ => "attempt to subtract with overflow"
  | .exhausted => "a bounded computation ran into its bound"

/-- Why an operation has no result. -/
inductive Failure where
  | mistake (report : Report)
  | fault (fault : Fault)
deriving Repr, DecidableEq

/-- A mistake that has no place yet. -/
def Failure.of (cause : Cause) : Failure :=
  .mistake (Report.of cause)

end TreeLang
