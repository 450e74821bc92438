import TypeAssay.Number.Decimal
import TypeAssay.Text.Hex

/-!
# Number literals

A number literal starts with a digit, or with a point and a digit. Underscores may separate digits.
In the whole part of a decimal literal a separator may also come last or come twice in a row: which
of these a literal takes is decided by `SeparatorState`.

Each function says how much of the characters ahead belongs to the literal, so that the lexer can
split the text there.
-/

namespace TypeAssay

/-! ## Digits -/

/-- The length of digits with single underscores between them. -/
def separatedLength (isDigit : Char → Bool) : List Char → Nat
  | [] => 0
  | [c] => if isDigit c then 1 else 0
  | c :: d :: rest =>
    if isDigit c then separatedLength isDigit (d :: rest) + 1
    else if c = '_' && isDigit d then separatedLength isDigit (d :: rest) + 1
    else 0

/-- Digits without their separators. -/
def withoutSeparators (cs : List Char) : List Char := cs.filter (· ≠ '_')

/-! ## The whole part of a decimal literal -/

/-- What a scan over digits and underscores has seen. -/
inductive SeparatorState where
  /-- Digits only. -/
  | digits
  /-- A digit after some separator. -/
  | separated
  /-- One underscore after a digit that followed another separator. -/
  | pending
  /-- An underscore that ends the literal unless a digit follows. -/
  | closing
deriving DecidableEq, Repr

namespace SeparatorState

/-- The state after one more character, or nothing where the scan stops. -/
def next? : SeparatorState → Char → Option SeparatorState
  | state, c =>
    if c.isDigit then some (if state = digits then digits else separated)
    else if c = '_' then
      match state with
      | digits => some closing
      | separated => some pending
      | pending => some closing
      | closing => none
    else none

end SeparatorState

/-- How far digits and underscores are scanned, and the state in which the scan stops. -/
def scanWhole : SeparatorState → List Char → Nat × SeparatorState
  | state, [] => (0, state)
  | state, c :: rest =>
    match state.next? c with
    | none => (0, state)
    | some state' =>
      let (n, last) := scanWhole state' rest
      (n + 1, last)

/-! ## Fraction and exponent -/

/-- The length of a point and the digits after it, or zero without a digit there. -/
def fractionLength : List Char → Nat
  | '.' :: rest =>
    if rest.head?.any Char.isDigit then separatedLength Char.isDigit rest + 1 else 0
  | _ => 0

/-- The length of an exponent: `e` or `E`, a sign or none, and digits. -/
def exponentLength : List Char → Nat
  | c :: rest =>
    if c = 'e' || c = 'E' then
      let (signLength, ds) := match rest with
        | '+' :: ds => (1, ds)
        | '-' :: ds => (1, ds)
        | ds => (0, ds)
      match (ds.takeWhile Char.isDigit).length with
      | 0 => 0
      | n => 1 + signLength + n
    else 0
  | [] => 0

/-! ## Literals -/

/-- What a number literal is. -/
inductive Numeral where
  | number (value : Binary64)
  | bigint (digits : String)
  /-- A hexadecimal literal that 64 bits do not hold. -/
  | tooLarge
deriving DecidableEq, Repr

/-- The number that the text of a decimal literal denotes. -/
def decimalValue (cs : List Char) : Numeral :=
  .number ((Binary64.unsignedOfChars? (withoutSeparators cs)).getD .zero)

/-- The number that hexadecimal digits denote. -/
def hexValue (ds : List Char) : Numeral :=
  let n := natOfHexDigits (withoutSeparators ds)
  if n < UInt64.size then .number (.ofNat n) else .tooLarge

/-- The length of the digits of a hexadecimal literal after its `0x`, if it is one. -/
def hexLength? : List Char → Option Nat
  | '0' :: x :: rest =>
    if (x = 'x' || x = 'X') && rest.head?.any isHexDigit then
      some (separatedLength isHexDigit rest)
    else none
  | _ => none

/-- The literal at the start of some characters that begin with a digit, and its length. -/
def scanNumeral (cs : List Char) : Numeral × Nat :=
  match hexLength? cs with
  | some n => (hexValue ((cs.drop 2).take n), n + 2)
  | none =>
    let (whole, state) := scanWhole .digits cs
    let rest := cs.drop whole
    if state = .closing then (decimalValue (cs.take whole), whole)
    else if rest.head? = some 'n' then
      (.bigint (String.ofList (withoutSeparators (cs.take whole))), whole + 1)
    else
      let fraction := fractionLength rest
      let length := whole + fraction + exponentLength (rest.drop fraction)
      (decimalValue (cs.take length), length)

/-- The literal at the start of some characters that begin with a point and a digit, and its
length. -/
def scanFraction (cs : List Char) : Numeral × Nat :=
  let fraction := fractionLength cs
  let length := fraction + exponentLength (cs.drop fraction)
  (decimalValue (cs.take length), length)

end TypeAssay
