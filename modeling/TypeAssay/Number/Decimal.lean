import TypeAssay.Number.Binary64

/-!
# Decimal text of binary64 numbers

Reading is exact: the text names a rational number, which is rounded once.

Writing takes the fewest significant digits that read back to the same value, the nearest of
those, and of two equally near ones the larger. The digits are written positionally, however
many zeros that takes, and integers carry no point.
-/

namespace TypeAssay

namespace Binary64

/-! ## Reading -/

/-- The value of a decimal digit. -/
def digitValue (c : Char) : Nat := c.toNat - '0'.toNat

/-- The natural number that decimal digits spell. -/
def natOfDigits (ds : List Char) : Nat := ds.foldl (fun n c => 10 * n + digitValue c) 0

/-- The value nearest to `n * 10 ^ e`. The two outer branches keep the powers small: they decide
only numbers far outside the range of the format. -/
def ofDecimal (n : Nat) (e : Int) : Binary64 :=
  let digits : Int := (Nat.toDigits 10 n).length
  if n = 0 then zero
  else if digits + e > 400 then infinity
  else if digits + e < -400 then zero
  else ofRatio (n * tenTo e.toNat) (tenTo (-e).toNat)

/-- An exponent part: `e` or `E`, a sign or none, and digits. -/
def exponentOfChars? : List Char → Option Int
  | [] => some 0
  | c :: rest =>
    if c = 'e' ∨ c = 'E' then
      let (negative, ds) := match rest with
        | '-' :: ds => (true, ds)
        | '+' :: ds => (false, ds)
        | ds => (false, ds)
      if ds.isEmpty ∨ !ds.all Char.isDigit then none
      else some (if negative then -(natOfDigits ds : Int) else natOfDigits ds)
    else none

/-- A decimal number without a sign: digits with at most one point among them, at least one digit
in all, and an exponent part or none. -/
def unsignedOfChars? (cs : List Char) : Option Binary64 :=
  let whole := cs.takeWhile Char.isDigit
  let afterWhole := cs.dropWhile Char.isDigit
  let (fraction, rest) := match afterWhole with
    | '.' :: tail => (tail.takeWhile Char.isDigit, tail.dropWhile Char.isDigit)
    | _ => ([], afterWhole)
  -- a point alone is no number; a point may lead or end the digits
  if whole.isEmpty ∧ fraction.isEmpty then none
  else (exponentOfChars? rest).map fun e =>
    ofDecimal (natOfDigits (whole ++ fraction)) (e - fraction.length)

/-- The names of the values that have no digits, in any case. -/
def namedOfChars? (cs : List Char) : Option Binary64 :=
  let name := cs.map Char.toLower
  if name = "inf".toList ∨ name = "infinity".toList then some infinity
  else if name = "nan".toList then some nan
  else none

/-- Reads a number: a sign or none, then a decimal number or a named value. -/
def ofText? (text : String) : Option Binary64 :=
  let (negative, cs) := match text.toList with
    | '-' :: cs => (true, cs)
    | '+' :: cs => (false, cs)
    | cs => (false, cs)
  let value := (namedOfChars? cs).orElse fun _ => unsignedOfChars? cs
  value.map fun x => if negative then x.neg else x

/-! ## The fewest digits -/

/-- A positive rational interval `[low, high] / den` around `value / den`: the numbers that round
to one value. The ends belong to it when the significand is even. -/
structure Interval where
  value : Nat
  low : Nat
  high : Nat
  den : Nat
  closed : Bool

/-- The numbers that round to a finite value other than zero. Below a power of two the
neighbours are half as far apart. -/
def roundingInterval (x : Binary64) : Interval :=
  let m := x.significand
  let q := x.exponent
  let up := twoTo q.toNat
  -- the smallest normal number is left out: the subnormals below it are as far apart as it and the
  -- next
  let narrow := m = twoTo 52 ∧ q ≠ -1074
  { value := 4 * m * up
    low := (if narrow then 4 * m - 1 else 4 * m - 2) * up
    high := (4 * m + 2) * up
    den := 4 * twoTo (-q).toNat
    closed := m % 2 == 0 }

/-- Whether `d * 10 ^ k` lies in the interval. -/
def Interval.holds (r : Interval) (d : Nat) (k : Int) : Bool :=
  let point := d * tenTo k.toNat * r.den
  let unit := tenTo (-k).toNat
  (r.low * unit < point || (r.closed && r.low * unit == point)) &&
    (point < r.high * unit || (r.closed && r.high * unit == point))

/-- The multiple of `10 ^ k` in the interval that is nearest to its value, if there is one; of two
equally near ones the larger. -/
def Interval.nearest? (r : Interval) (k : Int) : Option Nat :=
  let unit := r.den * tenTo k.toNat
  let scaledValue := r.value * tenTo (-k).toNat
  let d := scaledValue / unit
  let upIsNearer := unit ≤ 2 * (scaledValue % unit)
  match r.holds d k, r.holds (d + 1) k with
  | true, true => some (if upIsNearer then d + 1 else d)
  | true, false => some d
  | false, true => some (d + 1)
  | false, false => none

/-- A power of ten that is not below the value of the interval, and at most ten times it or one. -/
def Interval.topPower (r : Interval) : Int :=
  if r.den ≤ r.value then (Nat.toDigits 10 (r.value / r.den)).length
  else 1 - ((Nat.toDigits 10 (r.den / r.value)).length : Int)

/-- The digits and the power of ten of the shortest decimal in the interval: the first hit as the
grid gets finer. Twenty steps are more than the seventeen digits any value needs. -/
def Interval.shortest (r : Interval) : Nat × Int :=
  let hit? (i : Nat) : Option (Nat × Int) :=
    let k := r.topPower - i
    (r.nearest? k).map fun d => (d, k)
  ((List.range 20).findSome? hit?).getD (r.value / r.den, 0)

/-! ## Writing -/

/-- Writes `digits * 10 ^ k` without an exponent. -/
def positional (digits : Nat) (k : Int) : String :=
  let ds := Nat.toDigits 10 digits
  let places := (-k).toNat
  if 0 ≤ k then String.ofList (ds ++ List.replicate k.toNat '0')
  else
    -- at least one digit stands before the point
    let padded := List.replicate (places + 1 - ds.length) '0' ++ ds
    let point := padded.length - places
    String.ofList (padded.take point ++ '.' :: padded.drop point)

/-- The text of a number: its fewest digits, without an exponent. -/
def text (x : Binary64) : String :=
  let sign := if x.negative then "-" else ""
  if x.isNaN then "NaN"
  else if x.isInfinite then sign ++ "inf"
  else if x.isZero then sign ++ "0"
  else
    let (digits, k) := x.roundingInterval.shortest
    sign ++ positional digits k

end Binary64

end TypeAssay
