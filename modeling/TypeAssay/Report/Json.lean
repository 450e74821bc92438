import TypeAssay.Report.Diagnostic
import TypeAssay.Report.Source

/-!
# Diagnostics as JSON

A diagnostic as an object for other programs, with labels placed by lines and columns. Objects and
lists are spread over lines and indented by two spaces for each level; empty ones stay closed.
-/

namespace TypeAssay

/-! ## JSON text -/

/-- The JSON values that a diagnostic consists of. -/
inductive JsonValue where
  | null
  | number (n : Nat)
  | string (s : String)
  | list (elements : List JsonValue)
  | object (fields : List (String × JsonValue))

namespace JsonValue

/-- A control character by its code. -/
def controlEscape (c : Char) : List Char :=
  let digits := Nat.toDigits 16 c.toNat
  '\\' :: 'u' :: List.replicate (4 - digits.length) '0' ++ digits

/-- A character of a JSON string. -/
def escapeChar (c : Char) : List Char :=
  match c with
  | '"' => ['\\', '"']
  | '\\' => ['\\', '\\']
  | '\n' => ['\\', 'n']
  | '\r' => ['\\', 'r']
  | '\t' => ['\\', 't']
  | '\x08' => ['\\', 'b']
  | '\x0c' => ['\\', 'f']
  | _ => if c.toNat < 0x20 then controlEscape c else [c]

/-- A string in quotes. -/
def quote (s : String) : String :=
  String.ofList ('"' :: s.toList.flatMap escapeChar ++ ['"'])

/-- The start of a line at a level. -/
def indent (level : Nat) : String := String.ofList (List.replicate (2 * level) ' ')

/-- Elements between brackets, one to a line. -/
def bracketed (opening closing : String) (level : Nat) (elements : List String) : String :=
  if elements.isEmpty then opening ++ closing
  else
    let lines := elements.map (indent (level + 1) ++ ·)
    opening ++ "\n" ++ ",\n".intercalate lines ++ "\n" ++ indent level ++ closing

mutual

/-- The text of a value that stands at a level. -/
def text (level : Nat) : JsonValue → String
  | null => "null"
  | number n => toString n
  | string s => quote s
  | list elements => bracketed "[" "]" level (texts (level + 1) elements)
  | object fields => bracketed "\x7b" "\x7d" level (fieldTexts (level + 1) fields)

/-- The texts of some values. -/
def texts (level : Nat) : List JsonValue → List String
  | [] => []
  | v :: vs => text level v :: texts level vs

/-- The texts of some fields. -/
def fieldTexts (level : Nat) : List (String × JsonValue) → List String
  | [] => []
  | (name, v) :: fields => (quote name ++ ": " ++ text level v) :: fieldTexts level fields

end

end JsonValue

/-! ## Diagnostics -/

/-- A label with its places. -/
def Label.toJson (file : SourceFile) (l : Label) : JsonValue :=
  let start := file.location l.start
  let stop := file.location l.stop
  .object [("file", .string file.name), ("start_line", .number start.line),
    ("start_column", .number start.column), ("end_line", .number stop.line),
    ("end_column", .number stop.column), ("message", .string l.message),
    ("style", .string l.style.text)]

namespace Diagnostic

/-- A diagnostic as a value. Labels in other files are left out. -/
def toJson (file : SourceFile) (d : Diagnostic) : JsonValue :=
  .object [("code", d.code.elim .null .string), ("severity", .string d.severity.text),
    ("message", .string d.message),
    ("labels", .list ((d.labels.filter (·.file = 0)).map (Label.toJson file))),
    ("notes", .list (d.notes.map .string))]

/-- The JSON text of a diagnostic. -/
def jsonText (file : SourceFile) (d : Diagnostic) : String := (d.toJson file).text 0

end Diagnostic

end TypeAssay
