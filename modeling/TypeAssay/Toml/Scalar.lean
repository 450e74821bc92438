import TypeAssay.Number.Decimal
import TypeAssay.Toml.Strings
import TypeAssay.Toml.Value

/-!
# Scalars of a TOML document

Numbers, truth values, dates and times. Single underscores may separate digits. An integer has to
fit 64 bits with a sign.
-/

namespace TypeAssay.Toml

open Scanner

/-! ## Digits -/

/-- Digits that come next, with single underscores allowed before each of them. -/
def moreDigits (isDigit : Char → Bool) : Scanner (List Char) :=
  many (satisfy isDigit <|> (char '_' *> satisfy isDigit))

/-- Digits with single underscores between them. -/
def digits (isDigit : Char → Bool) : Scanner (List Char) := do
  let first ← satisfy isDigit
  let more ← moreDigits isDigit
  return first :: more

/-- The digits of a decimal whole number: no zero comes first, except alone. -/
def wholeDigits : Scanner (List Char) :=
  (do
    let first ← satisfy fun c => c.isDigit && c != '0'
    let more ← moreDigits Char.isDigit
    return first :: more) <|>
  (return [← char '0'])

/-- A sign or none. Only a minus is kept. -/
def sign : Scanner (List Char) :=
  (return [← char '-']) <|> (char '+' *> return []) <|> return []

/-! ## Integers -/

/-- An integer value, if 64 bits hold it. -/
def integerValue (n : Int) : Scanner Value := do
  require (Int64.minValue.toInt ≤ n && n ≤ Int64.maxValue.toInt)
  return .integer (Int64.ofInt n)

/-- An integer with a mark for its base. -/
def basedInteger (mark : Char) (base : Nat) (isDigit : Char → Bool) : Scanner Value := do
  exactly ['0', mark]
  let ds ← digits isDigit
  integerValue (natOfBaseDigits base ds)

/-- A decimal integer. -/
def decimalInteger : Scanner Value := do
  let minus ← sign
  let ds ← wholeDigits
  let n : Int := natOfBaseDigits 10 ds
  integerValue (if minus.isEmpty then n else -n)

/-- An integer. -/
def integer : Scanner Value :=
  basedInteger 'x' 16 isHexDigit <|>
  basedInteger 'o' 8 (fun c => '0' ≤ c && c ≤ '7') <|>
  basedInteger 'b' 2 (fun c => c == '0' || c == '1') <|>
  decimalInteger

/-! ## Floating point numbers -/

/-- A point and the digits after it. -/
def fractionPart : Scanner (List Char) := do
  let point ← char '.'
  let ds ← digits Char.isDigit
  return point :: ds

/-- The exponent of a number. -/
def exponentPart : Scanner (List Char) := do
  let mark ← char 'e' <|> char 'E'
  let minus ← sign
  let ds ← digits Char.isDigit
  return mark :: minus ++ ds

/-- A number with a fraction, an exponent or both. -/
def decimalFloat : Scanner Value := do
  let minus ← sign
  let whole ← wholeDigits
  let rest ← exponentPart <|> do
    let fraction ← fractionPart
    let exponent ← optional exponentPart
    return fraction ++ exponent.getD []
  let x ← given (Binary64.ofText? (String.ofList (minus ++ whole ++ rest)))
  require (x ≠ .infinity)
  return .float x

/-- Infinity or no number. -/
def namedFloat : Scanner Value := do
  let minus ← sign
  let x ← (exactly "inf".toList *> return Binary64.infinity) <|>
    (exactly "nan".toList *> return Binary64.nan)
  return .float (if minus.isEmpty then x else x.neg)

/-! ## Dates and times -/

/-- A number of so many digits that lies between two bounds. -/
def fixedNumber (length low high : Nat) : Scanner Nat := fun text =>
  let ds := text.take length
  let n := Binary64.natOfDigits ds
  if ds.length = length && ds.all Char.isDigit && low ≤ n && n ≤ high then
    some (n, text.drop length)
  else none

/-- Whether a year has a leap day. -/
def isLeapYear (year : Nat) : Bool := year % 4 == 0 && (year % 100 != 0 || year % 400 == 0)

/-- The number of days in a month. -/
def daysInMonth (year month : Nat) : Nat :=
  if month = 2 then (if isLeapYear year then 29 else 28)
  else if month = 4 ∨ month = 6 ∨ month = 9 ∨ month = 11 then 30
  else 31

/-- A day of the calendar. -/
def date : Scanner Unit := do
  let year ← fixedNumber 4 0 9999
  let _ ← char '-'
  let month ← fixedNumber 2 1 12
  let _ ← char '-'
  discard (fixedNumber 2 1 (daysInMonth year month))

/-- A time of day, which may be a leap second. -/
def time : Scanner Unit := do
  let _ ← fixedNumber 2 0 23
  let _ ← char ':'
  let _ ← fixedNumber 2 0 59
  let _ ← char ':'
  let _ ← fixedNumber 2 0 60
  discard (optional do
    let _ ← char '.'
    let ds ← takeWhile Char.isDigit
    require !ds.isEmpty)

/-- The distance from universal time. -/
def timeOffset : Scanner Unit :=
  discard (char 'Z' <|> char 'z') <|> do
    let _ ← char '+' <|> char '-'
    let _ ← fixedNumber 2 0 23
    let _ ← char ':'
    discard (fixedNumber 2 0 59)

/-- A date with or without a time, or a time alone. -/
def datetime : Scanner Value := do
  (do
    date
    discard (optional do
      let _ ← char 'T' <|> char 't' <|> char ' '
      time
      discard (optional timeOffset))) <|> time
  return .datetime

/-! ## Scalars -/

/-- A truth value. -/
def boolean : Scanner Value :=
  (exactly "true".toList *> return .boolean true) <|>
  (exactly "false".toList *> return .boolean false)

/-- A value without parts. -/
def scalar : Scanner Value :=
  (return .string (← anyString)) <|> datetime <|> decimalFloat <|> namedFloat <|> integer <|>
    boolean

end TypeAssay.Toml
