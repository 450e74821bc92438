import TypeAssay.CaseFile.Numeral
import TypeAssay.CaseFile.Token
import TypeAssay.CaseFile.Quoted

/-!
# From text to tokens

`pieces` cuts a text into pieces, each of which is a token, a fault, or blank: white space or a
comment. Scanning goes on after a fault, so every fault of a text is found.

* `flatMap_text_pieces` : the pieces put together again are the text.
* `text_ne_nil_of_mem_pieces` : no piece is empty.
-/

namespace TypeAssay

/-! ## Faults -/

/-- Why some characters are no token. -/
inductive LexFault where
  /-- No token starts with this character. -/
  | unexpectedCharacter (char : Char)
  /-- A string without its closing quote. -/
  | unterminatedString
  /-- A number literal that is no number. -/
  | invalidNumber (text : String)
deriving DecidableEq, Repr

namespace LexFault

/-- The wording of a fault. -/
def message : LexFault → String
  | unexpectedCharacter c => s!"Unexpected character '{c}'"
  | unterminatedString => "Unterminated string literal"
  | invalidNumber text => s!"Invalid number literal '{text}'"

end LexFault

/-- A fault and its place. -/
structure LexError where
  fault : LexFault
  span : Span
deriving DecidableEq, Repr

/-! ## Pieces -/

/-- What a piece of text is. -/
inductive Lexeme where
  | blank
  | token (t : Token)
  | fault (f : LexFault)
deriving DecidableEq, Repr

/-- A piece of text and what it is. -/
structure Piece where
  text : List Char
  lexeme : Lexeme
deriving DecidableEq, Repr

/-- The characters of white space. -/
def isBlank (c : Char) : Bool :=
  c = ' ' || c = '\t' || c = '\r' || c = '\n' || c = '\x0c'

/-- The characters that an identifier starts with. -/
def isIdentifierStart (c : Char) : Bool := c.isAlpha || c = '_' || c = '$'

/-- The characters that an identifier goes on with. -/
def isIdentifierPart (c : Char) : Bool := isIdentifierStart c || c.isDigit

/-- The token that a word is. -/
def wordToken (word : String) : Token :=
  match Keyword.ofWord? word with
  | some k => .keyword k
  | none => .identifier word

/-- The length of a comment after its opening `/*`: to the closing `*/`, or to the end. -/
def blockLength : List Char → Nat
  | '*' :: '/' :: _ => 2
  | _ :: rest => blockLength rest + 1
  | [] => 0

/-- What a number literal is, with its text at hand. -/
def numeralLexeme (text : List Char) : Numeral → Lexeme
  | .number value => .token (.number value)
  | .bigint digits => .token (.bigint digits)
  | .tooLarge => .fault (.invalidNumber (String.ofList text))

/-- What a piece that starts with a character is, and how many of the following characters belong
to it. -/
def scan (c : Char) (rest : List Char) : Lexeme × Nat :=
  if isBlank c then (.blank, (rest.takeWhile isBlank).length)
  else if c = '/' && rest.head? = some '/' then (.blank, (rest.takeWhile (· ≠ '\n')).length)
  else if c = '/' && rest.head? = some '*' then (.blank, blockLength rest.tail + 1)
  else if isIdentifierStart c then
    let word := rest.takeWhile isIdentifierPart
    (.token (wordToken (String.ofList (c :: word))), word.length)
  else if c.isDigit then
    let (numeral, length) := scanNumeral (c :: rest)
    (numeralLexeme ((c :: rest).take length) numeral, length - 1)
  else if c = '.' && rest.head?.any Char.isDigit then
    let (numeral, length) := scanFraction (c :: rest)
    (numeralLexeme ((c :: rest).take length) numeral, length - 1)
  else if c = '"' || c = '\'' then
    match stringBody c rest with
    | (body, true) => (.token (.string (String.ofList (unescape body))), body.length + 1)
    | (body, false) => (.fault .unterminatedString, body.length)
  else
    match Punctuation.ofChar? c with
    | some p => (.token (.punctuation p), 0)
    | none => (.fault (.unexpectedCharacter c), 0)

/-- Cuts a text into pieces. -/
def pieces (cs : List Char) : List Piece :=
  match cs with
  | [] => []
  | c :: rest =>
    let (lexeme, n) := scan c rest
    ⟨c :: rest.take n, lexeme⟩ :: pieces (rest.drop n)
termination_by cs.length
decreasing_by
  rw [List.length_drop, List.length_cons]
  omega

/-- The first piece is what the scan takes, and the rest is cut in the same way. -/
theorem pieces_cons (c : Char) (rest : List Char) :
    pieces (c :: rest) = ⟨c :: rest.take (scan c rest).2, (scan c rest).1⟩ ::
      pieces (rest.drop (scan c rest).2) := by
  rw [pieces]

/-- The pieces put together again are the text. -/
theorem flatMap_text_pieces (cs : List Char) : (pieces cs).flatMap Piece.text = cs := by
  fun_induction pieces cs with
  | case1 => rfl
  | case2 c rest lexeme n _ ih => simp [ih]

/-- No piece is empty. -/
theorem text_ne_nil_of_mem_pieces {cs : List Char} {p : Piece} (h : p ∈ pieces cs) :
    p.text ≠ [] := by
  fun_induction pieces cs with
  | case1 => simp at h
  | case2 c rest lexeme n _ ih =>
    rcases List.mem_cons.mp h with rfl | h
    · simp
    · exact ih h

/-! ## Places -/

/-- A piece and its place. -/
structure LocatedPiece where
  piece : Piece
  span : Span
deriving DecidableEq, Repr

/-- Gives each piece its place, from a point on. -/
def locate (p : Position) : List Piece → List LocatedPiece
  | [] => []
  | piece :: rest => ⟨piece, p.spanOver piece.text⟩ :: locate (p.advance piece.text) rest

/-- The pieces of a text with their places. -/
def locatedPieces (source : String) : List LocatedPiece := locate {} (pieces source.toList)

/-- The token that a piece is. -/
def LocatedPiece.token? (p : LocatedPiece) : Option LocatedToken :=
  match p.piece.lexeme with
  | .token t => some ⟨t, p.span⟩
  | _ => none

/-- The error that a piece is. -/
def LocatedPiece.error? (p : LocatedPiece) : Option LexError :=
  match p.piece.lexeme with
  | .fault f => some ⟨f, p.span⟩
  | _ => none

/-- The empty span at the end of a text. -/
def endSpan (source : String) : Span := (Position.advance {} source.toList).spanOver []

/-- The tokens of a text, the last of which marks its end, or all its errors. -/
def tokenize (source : String) : Except (List LexError) (List LocatedToken) :=
  let located := locatedPieces source
  match located.filterMap LocatedPiece.error? with
  | [] => .ok (located.filterMap LocatedPiece.token? ++ [⟨.eof, endSpan source⟩])
  | errors => .error errors

end TypeAssay
