import TreeLang.Report.Basic
import TreeLang.Source

/-!
# Rendering a report

Two views of a report against the source it is about: a plain text with the offending line and a
caret under the offending character, and the label that an annotated drawing puts on the source, in
bytes.

* `Report.render` — the plain text.
* `Report.label?`, `Report.code`, `Report.help?`, `Report.level` — the parts of a drawing.
-/

namespace TreeLang

namespace Report

/-- The lines that show a place of a source: the position, the line and the caret under the
column. -/
def snippet (source : Source) (offset : Nat) : List String :=
  let (line, column) := source.lineCol offset
  let number := toString line
  let pad := "".pushn ' ' number.length
  (" --> " ++ source.name ++ ":" ++ number ++ ":" ++ toString column) ::
    match source.line? line with
    | some text =>
      [pad ++ " |", number ++ " | " ++ text, pad ++ " | " ++ "".pushn ' ' (column - 1) ++ "^"]
    | none => []

/-- **The plain text of a report**: a headline, the place if there is one, and the hints. -/
def render (report : Report) (source : Source) : String :=
  let headline :=
    report.severity.text ++ "[" ++ report.category.text ++ "]: " ++ report.message
  let place := match report.offset with
    | some offset => snippet source offset
    | none => []
  String.join (([headline] ++ place ++ report.hints.map ("  = hint: " ++ ·)).map (· ++ "\n"))

/-! ## The parts of a drawing -/

/-- A stretch of a source with a word about it, in bytes. -/
structure Label where
  text : String
  start : Nat
  length : Nat
deriving Repr, DecidableEq

/-- **The label of a report**: the bytes of the character at its offset, and of the last character
when the offset is at or past the end. -/
def label? (report : Report) (source : Source) : Option Label :=
  report.offset.map fun offset =>
    let offset := min offset (source.length - 1)
    let start := source.byteOffset offset
    ⟨report.category.text, start, source.byteOffset (offset + 1) - start⟩

/-- The code of a report. -/
def code (report : Report) : String :=
  "among::" ++ report.category.text

/-- The hints as one text. -/
def help? (report : Report) : Option String :=
  if report.hints.isEmpty then none else some (String.intercalate "\n" report.hints)

/-- The severity in the words of the drawing. -/
def level (report : Report) : String :=
  match report.severity with
  | .info => "Advice"
  | .warning => "Warning"
  | .error => "Error"

end Report

end TreeLang
