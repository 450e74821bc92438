import TypeAssay.Lattice.Table

/-!
# Unions

The canonical union of some types: nested unions are opened, `never` is dropped, `any` and then
`unknown` absorb everything, a literal next to its own primitive is dropped, and the members that
are left are listed once each in ascending order of their ids. One member stands for itself and no
member is `never`.
-/

namespace TypeAssay

/-! ## Ascending lists -/

/-- Inserts into an ascending list, unless the element is there already. -/
def insertAscending (x : Nat) : List Nat → List Nat
  | [] => [x]
  | y :: ys =>
    if x < y then x :: y :: ys
    else if x = y then y :: ys
    else y :: insertAscending x ys

/-- The elements of a list, each once, in ascending order. -/
def ascending (xs : List Nat) : List Nat := xs.foldr insertAscending []

/-- An insertion adds the one element and nothing else. -/
theorem mem_insertAscending {x z : Nat} {ys : List Nat} :
    z ∈ insertAscending x ys ↔ z = x ∨ z ∈ ys := by
  induction ys with
  | nil => simp [insertAscending]
  | cons y ys ih =>
    rw [insertAscending]
    split
    · simp
    · split
      · rename_i h
        subst h
        simp
      · simp [ih, or_left_comm]

/-- An ascending list has the elements of the list that it is made of. -/
theorem mem_ascending {z : Nat} {xs : List Nat} : z ∈ ascending xs ↔ z ∈ xs := by
  induction xs with
  | nil => simp [ascending]
  | cons x xs ih =>
    have : ascending (x :: xs) = insertAscending x (ascending xs) := rfl
    rw [this, mem_insertAscending, ih, List.mem_cons]

/-- An insertion keeps a list strictly ascending. -/
theorem pairwise_insertAscending {x : Nat} {ys : List Nat} (h : ys.Pairwise (· < ·)) :
    (insertAscending x ys).Pairwise (· < ·) := by
  induction ys with
  | nil => simp [insertAscending]
  | cons y ys ih =>
    obtain ⟨hy, hys⟩ := List.pairwise_cons.mp h
    rw [insertAscending]
    split
    · rename_i hlt
      refine List.pairwise_cons.mpr ⟨fun z hz => ?_, h⟩
      rcases List.mem_cons.mp hz with rfl | hz
      · exact hlt
      · exact Nat.lt_trans hlt (hy z hz)
    · split
      · exact h
      · refine List.pairwise_cons.mpr ⟨fun z hz => ?_, ih hys⟩
        rcases mem_insertAscending.mp hz with rfl | hz
        · omega
        · exact hy z hz

/-- The order is strict, so no element comes twice. -/
theorem pairwise_ascending (xs : List Nat) : (ascending xs).Pairwise (· < ·) := by
  induction xs with
  | nil => exact List.Pairwise.nil
  | cons x xs ih => exact pairwise_insertAscending ih

/-! ## The canonical union -/

namespace TypeTable

/-- What a type contributes to a union: its members if it is one, else itself. -/
def alternatives (T : TypeTable) (i : TypeId) : List TypeId :=
  match T.get? i with
  | some (.union ms) => ms
  | _ => [i]

/-- The primitive that an id names. -/
def primitive? (T : TypeTable) (i : TypeId) : Option Primitive := (T.get? i).bind Ty.primitive?

/-- The primitive that the literal with this id widens to. -/
def literalBase? (T : TypeTable) (i : TypeId) : Option Primitive :=
  ((T.get? i).bind Ty.literal?).bind Literal.base?

/-- Whether an id names a literal of one of the primitives. -/
def isSubsumed (T : TypeTable) (primitives : List Primitive) (i : TypeId) : Bool :=
  (T.literalBase? i).any primitives.contains

/-- The members that are left of a union without `any` and `unknown`, in ascending order. -/
def unionMembers (T : TypeTable) (flat : List TypeId) : List TypeId :=
  let inhabited := flat.filter (· ≠ TypeId.never)
  let primitives := inhabited.filterMap T.primitive?
  ascending (inhabited.filter fun i => !T.isSubsumed primitives i)

end TypeTable

/-- The canonical union of some types, which are canonical themselves. -/
def unionOf (members : List TypeId) : Interning TypeId := do
  let T ← get
  let flat := members.flatMap T.alternatives
  if TypeId.any ∈ flat then return TypeId.any
  if TypeId.unknown ∈ flat then return TypeId.unknown
  match T.unionMembers flat with
  | [] => return TypeId.never
  | [i] => return i
  | ms => intern (.union ms)

end TypeAssay
