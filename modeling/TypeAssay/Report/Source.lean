import TypeAssay.CaseFile.Span
import TypeAssay.Text.Search

/-!
# Lines of a source file

Places given as byte offsets, read as lines and columns. An offset beyond the text is on the last
line, and a column never goes beyond the end of its line.
-/

namespace TypeAssay

/-- A named text. -/
structure SourceFile where
  name : String
  text : String
deriving DecidableEq, Repr

/-- A line with its newline, and the offset of its first byte. -/
structure SourceLine where
  start : Nat
  text : List Char
deriving DecidableEq, Repr

/-- Gives lines their offsets, from one on, and all but the last their newlines. -/
def linesFrom (start : Nat) : List (List Char) → List SourceLine
  | [] => []
  | [line] => [⟨start, line⟩]
  | line :: rest => ⟨start, line ++ ['\n']⟩ :: linesFrom (start + byteLength line + 1) rest

/-- The lines of a file. There is one more line than newlines. -/
def SourceFile.lines (f : SourceFile) : List SourceLine :=
  linesFrom 0 (splitOnChar '\n' f.text.toList)

/-- The index of the line that an offset is on. -/
def lineIndex (lines : List SourceLine) (offset : Nat) : Nat :=
  (lines.takeWhile (·.start ≤ offset)).length - 1

/-- The line with an index. -/
def lineAt (lines : List SourceLine) (index : Nat) : SourceLine := lines.getD index ⟨0, []⟩

/-- The number of characters of a text that end within some bytes. -/
def charsWithin : List Char → Nat → Nat
  | [], _ => 0
  | c :: cs, n => if c.utf8Size ≤ n then charsWithin cs (n - c.utf8Size) + 1 else 0

/-- A line and a column, both counted from one. -/
structure Location where
  line : Nat
  column : Nat
deriving DecidableEq, Repr

/-- Where an offset is. -/
def locationIn (lines : List SourceLine) (offset : Nat) : Location :=
  let index := lineIndex lines offset
  let line := lineAt lines index
  { line := index + 1, column := charsWithin line.text (offset - line.start) + 1 }

/-- Where an offset of a file is. -/
def SourceFile.location (f : SourceFile) (offset : Nat) : Location := locationIn f.lines offset

end TypeAssay
