/-!
# Hexadecimal digits

Digits in both cases, the numbers they spell, and the characters that such numbers name.
-/

namespace TypeAssay

/-- Whether a character is a hexadecimal digit. -/
def isHexDigit (c : Char) : Bool :=
  c.isDigit || ('a' ≤ c && c ≤ 'f') || ('A' ≤ c && c ≤ 'F')

/-- The value of a hexadecimal digit. -/
def hexDigitValue (c : Char) : Nat :=
  if c.isDigit then c.toNat - '0'.toNat
  else if 'a' ≤ c then c.toNat - 'a'.toNat + 10
  else c.toNat - 'A'.toNat + 10

/-- The natural number that digits of a base up to sixteen spell. -/
def natOfBaseDigits (base : Nat) (ds : List Char) : Nat :=
  ds.foldl (fun n c => base * n + hexDigitValue c) 0

/-- The natural number that hexadecimal digits spell. -/
def natOfHexDigits (ds : List Char) : Nat := natOfBaseDigits 16 ds

/-- The character with a code point, if there is one. -/
def charOfCode? (n : Nat) : Option Char :=
  if n.isValidChar then some (Char.ofNat n) else none

end TypeAssay
