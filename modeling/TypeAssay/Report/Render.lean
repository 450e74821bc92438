import TypeAssay.Report.Snippet

/-!
# The text of a report

A headline, the place of the report, the labelled lines of the source, and the notes. Between two
labelled lines a single other line is shown as well; more are replaced by a break.
-/

namespace TypeAssay

/-- Why a report cannot be written. -/
inductive ReportError where
  /-- A label is in a file that there is not. -/
  | fileMissing
deriving DecidableEq, Repr

/-- The wording of an error. -/
def ReportError.message : ReportError → String
  | fileMissing => "file missing"

namespace Diagnostic

/-- The headline. -/
def headline (d : Diagnostic) : String :=
  let code := (d.code.filter (!·.isEmpty)).elim "" fun c => "[" ++ c ++ "]"
  d.severity.text ++ code ++ ": " ++ d.message

/-- The rows of the lines with some indices, with what stands between them. -/
def lineRows (frame : Frame) (marked : Nat → MarkedLine) : List Nat → List String
  | [] => []
  | [i] => frame.sourceRows (marked i)
  | i :: j :: rest =>
    let between :=
      if j = i + 1 then []
      else if j = i + 2 then frame.sourceRows { marked (i + 1) with marks := [] }
      else [frame.blankRow "·" (marked i).bars]
    frame.sourceRows (marked i) ++ between ++ lineRows frame marked (j :: rest)

/-- The rows of the labelled source. -/
def sourceRows (file : SourceFile) (d : Diagnostic) (frame : Frame) (leading : Label) :
    List String :=
  let lines := file.lines
  let extents := d.labels.map (Extent.of lines)
  let place := locationIn lines leading.start
  let start := outerGutter frame.numberWidth "" ++ "┌─ " ++
    s!"{file.name}:{place.line}:{place.column}"
  let border := frame.blankRow "│" []
  [start, border] ++ lineRows frame (markedLine lines extents) (shownIndices lines extents) ++
    (if d.notes.isEmpty then [] else [border])

/-- The lines of a text. A newline ends a line, and a carriage return before it belongs to it; the
last line needs no newline. -/
def textLines (text : String) : List (List Char) :=
  let rec go (line : List Char) : List Char → List (List Char)
    | [] => if line.isEmpty then [] else [line.reverse]
    | '\n' :: cs =>
      match line with
      | '\r' :: before => before.reverse :: go [] cs
      | _ => line.reverse :: go [] cs
    | c :: cs => go (c :: line) cs
  go [] text.toList

/-- The rows of a note. -/
def noteRows (width : Nat) (note : String) : List String :=
  (textLines note).zipIdx.map fun (line, i) =>
    outerGutter width "" ++ (if i = 0 then "=" else " ") ++ " " ++ String.ofList line

/-- The measures of a report. -/
def frame (lines : List SourceLine) (d : Diagnostic) : Frame :=
  let extents := d.labels.map (Extent.of lines)
  let widths := extents.map fun e =>
    max (toString (e.first + 1)).length (toString (e.last + 1)).length
  { numberWidth := widths.foldl max 0, columns := (barExtents extents).length }

/-- All rows of a report. An empty one ends it. -/
def rows (file : SourceFile) (d : Diagnostic) : List String :=
  let frame := d.frame file.lines
  let source := (leadingLabel? d.labels).elim [] (d.sourceRows file frame)
  d.headline :: source ++ d.notes.flatMap (noteRows frame.numberWidth) ++ [""]

/-- The text of a report. -/
def render (file : SourceFile) (d : Diagnostic) : Except ReportError String :=
  if d.labels.any (·.file ≠ 0) then .error .fileMissing
  else .ok (String.join ((d.rows file).map (· ++ "\n")))

end Diagnostic

/-- The reports of all errors of a file, one after the other. -/
def renderErrors (file : SourceFile) (errors : List CheckError) : Except ReportError String := do
  let texts ← errors.mapM fun e => e.toDiagnostic.render file
  return String.join texts

end TypeAssay
