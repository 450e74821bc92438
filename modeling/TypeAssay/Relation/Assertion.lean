import TypeAssay.Lattice.Display
import TypeAssay.Relation.Category
import TypeAssay.Relation.Equal

/-!
# Assertions

A single assertion demands that its argument is the literal `true`, or the literal `false`. A batch
demands it of every element of a sequence, and that the sequence is a tuple: an array may be empty
or of any length, so it proves nothing about each case.

Each comes in two parts, the constraint on the argument and the value, because a caller that goes on
after a violated constraint still has a value to compute.
-/

namespace TypeAssay

/-! ## Single assertions -/

/-- The constraint of a single assertion: the argument is assignable to the literal and not
`any`. -/
def TypeTable.assertionConstraint (T : TypeTable) (i : TypeId) (target : Bool) :
    Except TypeError Unit :=
  let literal := TypeId.ofBool target
  if i ≠ TypeId.any && T.assignable i literal then .ok ()
  else .error (.assertionFailed (T.display literal) (T.display i))

/-- Demands a literal and says whether the argument equals it. Only `never` meets the constraint
without being equal. -/
def expectLiteral (i : TypeId) (target : Bool) : Building Outcome := do
  let T ← get
  match T.assertionConstraint i target with
  | .error e => throw e
  | .ok () => equal i (TypeId.ofBool target)

/-! ## Batches -/

/-- The type of the elements of a sequence, with a bound on how deep unions nest. -/
def elementTypeWithin : Nat → TypeId → Interning TypeId
  | 0, _ => return TypeId.unknown
  | depth + 1, i => do
    match (← get).get? i with
    | some (.tuple es _) => unionOf es
    | some (.array e _) => return e
    | some (.union ms) => unionOf (← ms.mapM (elementTypeWithin depth))
    | some .never => return TypeId.never
    | some .any => return TypeId.any
    | _ => return TypeId.unknown

/-- The union of all types that an element of a sequence can have. -/
def elementType (i : TypeId) : Interning TypeId := do
  let T ← get
  elementTypeWithin T.levelBound i

/-- The constraint of a batch: the argument is a sequence of the literal. -/
def batchConstraint (i : TypeId) (target : Bool) : Building Unit := do
  let constraint ← arrayOf (TypeId.ofBool target) true
  let T ← get
  if T.assignable i constraint then return ()
  else throw (.batchFailed (T.display constraint) (T.display i))

/-- Whether the argument is a tuple whose elements all are the literal. -/
def foldBatch (i : TypeId) (target : Bool) : Building Outcome := do
  let elements ← elementType i
  let matching ← equal elements (TypeId.ofBool target)
  let T ← get
  return .ofBool (matching = .yes && T.isTuple i = .yes)

/-- Demands a literal of every case and says whether the cases are a tuple of it. -/
def expectBatch (i : TypeId) (target : Bool) : Building Outcome := do
  batchConstraint i target
  foldBatch i target

/-- A batch of outcomes. -/
def expectBatchOf (outcomes : List Outcome) (target : Bool) : Building Outcome := do
  let cases ← tupleOf (outcomes.map Outcome.toType) false
  expectBatch cases target

end TypeAssay
