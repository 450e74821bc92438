import TypeAssay.Toml.Scalar
import TypeAssay.Toml.Table

/-!
# TOML documents

A document is a sequence of lines: assignments, and headers of sections. It is read as such, and
the tables are built afterwards. Arrays and inline tables nest to a fixed depth, and keys have a
largest number of parts.
-/

namespace TypeAssay.Toml

open Scanner

/-- The number of parts that a key has at most, and of arrays and inline tables that a value lies
in. -/
def maxDepth : Nat := 79

/-! ## Keys -/

/-- Whether a character may stand in a key without quotes. -/
def isBareKeyChar (c : Char) : Bool := c.isAlphanum || c == '_' || c == '-'

/-- A key without quotes. -/
def bareKey : Scanner String := do
  let cs ← takeWhile isBareKeyChar
  require !cs.isEmpty
  return String.ofList cs

/-- One part of a dotted key. -/
def keyPart : Scanner String := bareKey <|> basicString <|> literalString

/-- A dotted key, with blanks around its parts. -/
def key : Scanner Key := do
  let parts ← separated (blanks *> keyPart <* blanks) (char '.')
  require (parts.length ≤ maxDepth)
  return ⟨parts.dropLast, parts.getLastD ""⟩

/-! ## Values -/

/-- A comment, up to the end of the line. -/
def comment : Scanner Unit := do
  let _ ← char '#'
  discard (takeWhile isTextChar)

/-- What may stand around the elements of an array: blanks, ends of lines, and comments. -/
def filler : Scanner Unit :=
  discard (many (discard (satisfy isBlank) <|> discard newline <|>
    (comment *> discard newline)))

/-- Parts with a separator between any two, or none at all. -/
def optionally {α : Type} (parts : Scanner (List α)) : Scanner (List α) := parts <|> return []

/-- An array. A comma may follow the last element. -/
def arrayOf (value : Scanner Value) : Scanner Value := do
  let _ ← char '['
  let elements ← optionally (separated (filler *> value <* filler) (char ','))
  unless elements.isEmpty do discard (optional (char ','))
  filler
  let _ ← char ']'
  return .array elements

/-- A key, an equals sign and a value. -/
def assignmentOf (value : Scanner Value) : Scanner Assignment := do
  let k ← key
  let _ ← char '='
  blanks
  let v ← value
  blanks
  return ⟨k, v⟩

/-- An inline table. It stays on one line as far as its values do, and no comma ends it. -/
def inlineTableOf (value : Scanner Value) : Scanner Value := do
  let _ ← char '\x7b'
  let assignments ← optionally (separated (assignmentOf value) (char ','))
  blanks
  let _ ← char '\x7d'
  let entries ← given (assignAll [] assignments)
  return .table .inline entries

/-- A value that nests to a depth at most. -/
def valueWithin : Nat → Scanner Value
  | 0 => scalar
  | depth + 1 =>
    scalar <|> arrayOf (valueWithin depth) <|> inlineTableOf (valueWithin depth)

/-- A value. -/
def value : Scanner Value := valueWithin maxDepth

/-! ## Lines -/

/-- What a line says. -/
inductive Line where
  | empty
  | header (header : Header)
  | assignment (assignment : Assignment)

/-- What may follow on a line. -/
def lineEnd : Scanner Unit := do
  blanks
  discard (optional comment)
  discard newline <|> endOfText

/-- A key in single or double brackets. -/
def headerLine : Scanner Header :=
  (do
    exactly ['[', '[']
    let k ← key
    exactly [']', ']']
    return .element k) <|>
  (do
    let _ ← char '['
    let k ← key
    let _ ← char ']'
    return .table k)

/-- A line. It takes at least one character. -/
def line : Scanner Line := do
  moreText
  blanks
  let content ← (return .header (← headerLine)) <|> (return .assignment (← assignmentOf value)) <|>
    return .empty
  lineEnd
  return content

/-- The lines of a document. Its last line need not end. A mark of byte order may come first. -/
def lines : Scanner (List Line) := do
  let _ ← optional (char '\ufeff')
  let ls ← many line
  endOfText
  return ls

/-! ## Documents -/

/-- The assignments before the first header, and the sections. -/
def sections : List Line → List Assignment × List Section
  | [] => ([], [])
  | .empty :: rest => sections rest
  | .assignment a :: rest =>
    let (first, more) := sections rest
    (a :: first, more)
  | .header h :: rest =>
    let (first, more) := sections rest
    ([], ⟨h, first⟩ :: more)

/-- The root table of a document. -/
def build (ls : List Line) : Option Entries := do
  let (first, more) := sections ls
  let root ← assignAll [] first
  more.foldlM addSection root

/-- Reads a document. Anything but a valid document gives nothing. -/
def document? (text : String) : Option Entries := (lines.scanAll? text.toList).bind build

end TypeAssay.Toml
