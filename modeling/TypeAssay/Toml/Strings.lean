import TypeAssay.Text.Hex
import TypeAssay.Toml.Scanner

/-!
# Strings of a TOML document

A string stands in double quotes and knows escapes, or in single quotes and knows none. Three
quotes on either side let it run over lines. Then one or two quotes may stand anywhere in it, also
right before the closing ones.
-/

namespace TypeAssay.Toml

open Scanner

/-! ## Blanks and characters -/

/-- Whether a character is a blank. -/
def isBlank (c : Char) : Bool := c == ' ' || c == '\t'

/-- Whether a character may stand in a comment or a string. -/
def isTextChar (c : Char) : Bool := c == '\t' || (' ' ≤ c && c != '\x7f')

/-- Blanks, or none. -/
def blanks : Scanner Unit := discard (takeWhile isBlank)

/-- The end of a line, which counts as a line feed alone. -/
def newline : Scanner (List Char) := do
  let _ ← optional (char '\r')
  let _ ← char '\n'
  return ['\n']

/-- Blanks and ends of lines, or none. -/
def blankLines : Scanner Unit := discard (many (discard (satisfy isBlank) <|> discard newline))

/-! ## Escapes -/

/-- A character by the hexadecimal digits of its code. -/
def codePoint (length : Nat) : Scanner (List Char) := fun text =>
  let digits := text.take length
  if digits.length = length && digits.all isHexDigit then
    (charOfCode? (natOfHexDigits digits)).map fun c => ([c], text.drop length)
  else none

/-- What a backslash and the characters after it stand for. -/
def escape : Scanner (List Char) := do
  let _ ← char '\\'
  match ← satisfy fun _ => true with
  | 'b' => return ['\x08']
  | 't' => return ['\t']
  | 'n' => return ['\n']
  | 'f' => return ['\x0c']
  | 'r' => return ['\r']
  | '"' => return ['"']
  | '\\' => return ['\\']
  | 'u' => codePoint 4
  | 'U' => codePoint 8
  | _ => failure

/-- A backslash at the end of a line, which takes all blanks and ends of lines after it along. -/
def continuation : Scanner (List Char) := do
  let _ ← char '\\'
  blanks
  let _ ← newline
  blankLines
  return []

/-! ## Strings on one line -/

/-- A character that stands for itself between some quotes. -/
def plainChar (quote : Char) : Scanner (List Char) := do
  let c ← satisfy fun c => isTextChar c && c != quote
  return [c]

/-- A character that stands for itself between double quotes. -/
def unescapedChar : Scanner (List Char) := do
  let c ← satisfy fun c => isTextChar c && c != '"' && c != '\\'
  return [c]

/-- Pieces between two quotes. -/
def enclosed (quote : Char) (piece : Scanner (List Char)) : Scanner String := do
  let _ ← char quote
  let pieces ← many piece
  let _ ← char quote
  return String.ofList pieces.flatten

/-- A string in double quotes. -/
def basicString : Scanner String := enclosed '"' (unescapedChar <|> escape)

/-- A string in single quotes. -/
def literalString : Scanner String := enclosed '\'' (plainChar '\'')

/-! ## Strings over lines -/

/-- All quotes that come next, if their number fits. -/
def quoteRun (quote : Char) (low high : Nat) : Scanner (List Char) := do
  let run ← takeWhile (· == quote)
  require (low ≤ run.length && run.length ≤ high)
  return run

/-- Pieces between three quotes on either side. An end of line right after the opening quotes does
not count, and of the quotes at the end the last three close the string. -/
def enclosedLines (quote : Char) (piece : Scanner (List Char)) : Scanner String := do
  exactly [quote, quote, quote]
  let _ ← optional newline
  let pieces ← many (piece <|> newline <|> quoteRun quote 1 2)
  let run ← quoteRun quote 3 5
  return String.ofList (pieces.flatten ++ run.drop 3)

/-- A string in double quotes that may run over lines. -/
def basicLines : Scanner String := enclosedLines '"' (unescapedChar <|> continuation <|> escape)

/-- A string in single quotes that may run over lines. -/
def literalLines : Scanner String := enclosedLines '\'' (plainChar '\'')

/-- A string of any kind. -/
def anyString : Scanner String := basicLines <|> basicString <|> literalLines <|> literalString

end TypeAssay.Toml
