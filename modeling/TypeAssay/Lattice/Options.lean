import TypeAssay.Lattice.Error

/-!
# Options of the type lattice
-/

namespace TypeAssay

/-- What a configuration can change about the lattice. -/
structure Options where
  /-- When false, `null` and `undefined` fit every type but `never`. -/
  strictNullChecks : Bool := true
  /-- The largest number of alternatives an intersection may distribute into. -/
  maxUnionSize : Nat := 100000
deriving DecidableEq, Repr

namespace Options

/-- Accepts options whose union limit leaves room for a union. -/
def validate (o : Options) : Except TypeError Unit :=
  if o.maxUnionSize < 2 then
    .error (.invalidConfig s!"max-union-size must be at least 2, got {o.maxUnionSize}")
  else .ok ()

end Options

end TypeAssay
