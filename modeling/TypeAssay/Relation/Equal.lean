import TypeAssay.Lattice.Normalize
import TypeAssay.Outcome

/-!
# Equality

Two types are equal when they have the same normal form. The normal form of a type is its own
witness: comparing ids neither distributes over unions nor lets `any` or `never` absorb anything,
so the answer is always strict.
-/

namespace TypeAssay

/-- A type that went through normalization. -/
structure NormalType where
  type : TypeId
deriving DecidableEq, Repr

/-- The normal form of a type. -/
def NormalType.of (i : TypeId) : Building NormalType := do
  return ⟨← normalize i⟩

/-- Whether two types resolve to the same type. -/
def equal (a b : TypeId) : Building Outcome := do
  let a ← NormalType.of a
  let b ← NormalType.of b
  return .ofBool (a = b)

/-- The complement of `equal`. -/
def notEqual (a b : TypeId) : Building Outcome := do
  let a ← NormalType.of a
  let b ← NormalType.of b
  return .ofBool (a ≠ b)

end TypeAssay
