import TypeAssay.Checker.Error

/-!
# Diagnostics

What a reader is told about an error: a headline, labels on stretches of the source text, and notes.
-/

namespace TypeAssay

/-- How bad it is. -/
inductive Severity where
  | bug
  | error
  | warning
  | note
  | help
deriving DecidableEq, Repr

namespace Severity

def all : List Severity := [bug, error, warning, note, help]

def text : Severity → String
  | bug => "bug"
  | error => "error"
  | warning => "warning"
  | note => "note"
  | help => "help"

/-- The severity with a written form. -/
def ofText? (word : String) : Option Severity := all.find? (·.text == word)

end Severity

/-- Whether a label shows the cause or something related. -/
inductive LabelStyle where
  | primary
  | secondary
deriving DecidableEq, Repr

namespace LabelStyle

def text : LabelStyle → String
  | primary => "primary"
  | secondary => "secondary"

/-- The mark under a labelled character. -/
def caret : LabelStyle → Char
  | primary => '^'
  | secondary => '-'

/-- The mark at an end of a label over several lines. -/
def endCaret : LabelStyle → Char
  | primary => '^'
  | secondary => '\''

end LabelStyle

/-- A message about a stretch of a file. A report has one file, with the number zero. -/
structure Label where
  style : LabelStyle
  file : Nat := 0
  start : Nat
  stop : Nat
  message : String
deriving DecidableEq, Repr

/-- A message about a source text. -/
structure Diagnostic where
  severity : Severity
  code : Option String := none
  message : String
  labels : List Label := []
  notes : List String := []
deriving DecidableEq, Repr

namespace Diagnostic

/-- Adds a label. -/
def withLabel (d : Diagnostic) (l : Label) : Diagnostic := { d with labels := d.labels ++ [l] }

/-- Adds a note. -/
def withNote (d : Diagnostic) (text : String) : Diagnostic := { d with notes := d.notes ++ [text] }

/-- Adds a note that suggests what to do. -/
def withHelp (d : Diagnostic) (text : String) : Diagnostic := d.withNote ("help: " ++ text)

end Diagnostic

namespace CheckFault

/-- What the label at the place of a fault says. -/
def labelText : CheckFault → String
  | malformed _ | reservedName _ => "syntax error"
  | arity _ expected _ =>
    if expected = 0 then "takes no type arguments" else s!"expected {expected} type argument(s)"
  | undefinedName _ => "not found in this file"
  | duplicateAlias .. => "duplicate declaration"
  | assertion expected _ => s!"not provably '{expected}'"
  | batch .. => "a case in this tuple failed"
  | type _ | capacityOverflow => "in this type"

/-- Related places of a fault. -/
def relatedLabels : CheckFault → List Label
  | duplicateAlias _ first =>
    [{ style := .secondary, start := first.start, stop := first.stop,
       message := "first declaration here" }]
  | _ => []

/-- What is said below the source text. -/
def notes : CheckFault → List String
  | undefinedName _ => ["Aliases must be declared before they are used"]
  | assertion expected _ =>
    if expected = "true" then ["help: Use ExpectFalse if this case should be false"] else []
  | batch .. =>
    ["Batch assertions name the whole tuple, not the failing case",
      "help: Use Expect or ExpectFalse per case to locate it"]
  | _ => []

end CheckFault

/-- The diagnostic of an error. -/
def CheckError.toDiagnostic (e : CheckError) : Diagnostic :=
  { severity := .error
    code := some e.fault.code
    message := e.fault.message
    labels :=
      { style := .primary, start := e.span.start, stop := e.span.stop,
        message := e.fault.labelText } :: e.fault.relatedLabels
    notes := e.fault.notes }

end TypeAssay
