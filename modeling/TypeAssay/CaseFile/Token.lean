import TypeAssay.Number.Decimal
import TypeAssay.CaseFile.Span

/-!
# Tokens of case files

The names of types are plain identifiers; keywords are only the words that change the shape of the
grammar.
-/

namespace TypeAssay

/-- The words that are no identifiers. -/
inductive Keyword where
  | type
  | exported
  | readonly
deriving DecidableEq, Repr

namespace Keyword

def all : List Keyword := [type, exported, readonly]

def spelling : Keyword → String
  | type => "type"
  | exported => "export"
  | readonly => "readonly"

/-- The keyword that a word is. -/
def ofWord? (word : String) : Option Keyword := all.find? (·.spelling == word)

end Keyword

/-- The single characters that are tokens. -/
inductive Punctuation where
  | pipe
  | amp
  | less
  | greater
  | equal
  | minus
  | question
  | colon
  | semicolon
  | comma
  | leftParen
  | rightParen
  | leftBrace
  | rightBrace
  | leftBracket
  | rightBracket
deriving DecidableEq, Repr

namespace Punctuation

def all : List Punctuation :=
  [pipe, amp, less, greater, equal, minus, question, colon, semicolon, comma, leftParen,
    rightParen, leftBrace, rightBrace, leftBracket, rightBracket]

def char : Punctuation → Char
  | pipe => '|'
  | amp => '&'
  | less => '<'
  | greater => '>'
  | equal => '='
  | minus => '-'
  | question => '?'
  | colon => ':'
  | semicolon => ';'
  | comma => ','
  | leftParen => '('
  | rightParen => ')'
  | leftBrace => '\x7b'
  | rightBrace => '\x7d'
  | leftBracket => '['
  | rightBracket => ']'

/-- The token that a character is. -/
def ofChar? (c : Char) : Option Punctuation := all.find? (·.char == c)

/-- A punctuation mark is read back from its character. -/
theorem ofChar?_char (p : Punctuation) : ofChar? p.char = some p := by
  cases p <;> decide

end Punctuation

/-- A token. Numbers carry no sign, bigints are decimal digits without the suffix, and strings are
what their text means. -/
inductive Token where
  | keyword (k : Keyword)
  | identifier (name : String)
  | number (value : Binary64)
  | bigint (digits : String)
  | string (value : String)
  | punctuation (p : Punctuation)
  | eof
deriving DecidableEq, Repr

namespace Token

/-- The written form of a token, as messages show it. -/
def text : Token → String
  | keyword k => k.spelling
  | identifier name => name
  | number value => value.text
  | bigint digits => digits ++ "n"
  | string value => "'" ++ value ++ "'"
  | punctuation p => p.char.toString
  | eof => "end of file"

end Token

/-- A token and its place. -/
structure LocatedToken where
  token : Token
  span : Span
deriving DecidableEq, Repr

end TypeAssay
