import TypeAssay.Number.Power

/-!
# Binary64 numbers

The numbers of the language are IEEE 754 binary64 values, kept as their 64 bits: the sign, an
exponent field of eleven bits and a fraction of 52 bits. Two values are the same literal exactly
when their bits agree, so equality here is equality of bits.

`Binary64.ofRatio` rounds an exact quotient to the nearest value, a tie going to the even
neighbour; every other constructor of a finite value is an instance of it.
-/

namespace TypeAssay

/-- A binary64 value, by its bits. -/
structure Binary64 where
  bits : UInt64
deriving DecidableEq, Hashable, Repr, Inhabited

namespace Binary64

/-! ## Reading the bits -/

/-- The sign bit. -/
def negative (x : Binary64) : Bool := x.bits.toNat / twoTo 63 == 1

/-- The bits below the sign: they order the magnitudes. -/
def magnitude (x : Binary64) : Nat := x.bits.toNat % twoTo 63

/-- The magnitude of the infinities. -/
def infinite : Nat := 0x7FF * twoTo 52

/-- Whether the value is not a number. -/
def isNaN (x : Binary64) : Bool := infinite < x.magnitude

/-- Whether the value is one of the two infinities. -/
def isInfinite (x : Binary64) : Bool := x.magnitude == infinite

/-- Whether the value is one of the two zeros. -/
def isZero (x : Binary64) : Bool := x.magnitude == 0

/-- The integer factor of a finite value `m * 2 ^ q`. -/
def significand (x : Binary64) : Nat :=
  if x.magnitude < twoTo 52 then x.magnitude else twoTo 52 + x.magnitude % twoTo 52

/-- The power of two of a finite value `m * 2 ^ q`. -/
def exponent (x : Binary64) : Int :=
  if x.magnitude < twoTo 52 then -1074 else (x.magnitude / twoTo 52 : Nat) - 1075

/-! ## Making values -/

/-- The value with a sign and a magnitude. -/
def ofParts (negative : Bool) (magnitude : Nat) : Binary64 :=
  ⟨UInt64.ofNat (cond negative (twoTo 63) 0 + magnitude)⟩

def zero : Binary64 := ofParts false 0
def infinity : Binary64 := ofParts false infinite
def nan : Binary64 := ofParts false (infinite + twoTo 51)

/-- The value with the other sign. -/
def neg (x : Binary64) : Binary64 := ofParts (!x.negative) x.magnitude

/-- The quotient to the nearest integer, a tie to the even one. -/
def roundHalfEven (num den : Nat) : Nat :=
  let down := num / den
  let rest := 2 * (num % den)
  if rest < den ∨ (rest = den ∧ down % 2 = 0) then down else down + 1

/-- The quotient times two to the power `-q`, to the nearest integer. -/
def scaled (num den : Nat) (q : Int) : Nat :=
  roundHalfEven (num * twoTo (-q).toNat) (den * twoTo q.toNat)

/-- The power of two at which the quotient has 53 bits, or the smallest one there is. -/
def unitExponent (num den : Nat) : Int :=
  let k : Int := (num.log2 : Int) - den.log2
  let below := num * twoTo (-k).toNat < den * twoTo k.toNat
  max (if below then k - 53 else k - 52) (-1074)

/-- The magnitude nearest to a quotient. Values too large for the format become infinite. -/
def roundedMagnitude (num den : Nat) : Nat :=
  if num = 0 then 0 else
    let q := unitExponent num den
    min ((q + 1074).toNat * twoTo 52 + scaled num den q) infinite

/-- The non-negative value nearest to a quotient. -/
def ofRatio (num den : Nat) : Binary64 := ofParts false (roundedMagnitude num den)

/-- The value nearest to a natural number. -/
def ofNat (n : Nat) : Binary64 := ofRatio n 1

end Binary64

end TypeAssay
