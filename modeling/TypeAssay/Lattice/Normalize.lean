import TypeAssay.Lattice.Construct

/-!
# Normal forms

The constructors give canonical types. A node that was interned as it is need not be canonical;
`normalize` rebuilds it, parts first, with the constructors.
-/

namespace TypeAssay

/-- Rebuilds one node with the constructors; `part` normalizes the types it refers to. -/
def normalizeStep (part : TypeId → Building TypeId) (i : TypeId) : Ty → Building TypeId
  | .union ms => do unionOf (← ms.mapM part)
  | .intersection ms => do intersectionOf (← ms.mapM part)
  | .tuple es readonly => do tupleOf (← es.mapM part) readonly
  | .array e readonly => do arrayOf (← part e) readonly
  | .object ps => do
    objectOf (← ps.mapM fun p => do return { p with type := ← part p.type })
  | .literal (.number value) => numberLiteral value
  | .literal (.bigint digits) => bigintLiteral digits
  | _ => return i

/-- The normal form, with a bound on how deep types nest. -/
def normalizeWithin : Nat → TypeId → Building TypeId
  | 0, i => return i
  | depth + 1, i => do
    match (← get).get? i with
    | none => return i
    | some t => normalizeStep (normalizeWithin depth) i t

/-- The normal form of a type. An id of no type is its own. -/
def normalize (i : TypeId) : Building TypeId := do
  let T ← get
  normalizeWithin T.levelBound i

end TypeAssay
