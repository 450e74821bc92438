import TypeAssay.Lattice.Basic
import TypeAssay.Lattice.Options
import Std.Data.HashMap

/-!
# The type table

A table hands out ids in the order in which types are first seen and gives the same id to the same
node ever after. The array answers "which type has this id", the map answers "which id has this
type", and the two are inverse to each other: `TypeTable.index_iff` is part of the type, so every
table has it.

* `lookup_eq_some_iff` : the map finds exactly what the array holds.
* `get?_intern_fst` : the id that comes back from interning a type names that type.
* `get?_intern_of_get?` : interning moves nothing.
-/

namespace TypeAssay

/-- All types seen so far, and the options they are built under. -/
structure TypeTable where
  types : Array Ty
  index : Std.HashMap Ty TypeId
  options : Options
  index_iff : ∀ (t : Ty) (i : TypeId), index[t]? = some i ↔ types[i]? = some t

namespace TypeTable

/-! ## Looking up -/

/-- The number of types. -/
def size (T : TypeTable) : Nat := T.types.size

/-- The type with an id. -/
def get? (T : TypeTable) (i : TypeId) : Option Ty := T.types[i]?

/-- The id of a type that the table holds. -/
def lookup (T : TypeTable) (t : Ty) : Option TypeId := T.index[t]?

/-- The map finds a type at an id just if the array holds it there. -/
theorem lookup_eq_some_iff {T : TypeTable} {t : Ty} {i : TypeId} :
    T.lookup t = some i ↔ T.get? i = some t :=
  T.index_iff t i

/-- The ids that name no type are those from the size on. -/
theorem get?_eq_none_iff {T : TypeTable} {i : TypeId} : T.get? i = none ↔ T.size ≤ i := by
  simp [get?, size]

/-- An id that names a type is below the size. -/
theorem lt_size_of_get? {T : TypeTable} {i : TypeId} {t : Ty} (h : T.get? i = some t) :
    i < T.size := by
  rcases Nat.lt_or_ge i T.size with hlt | hge
  · exact hlt
  · rw [get?_eq_none_iff.mpr hge] at h
    exact absurd h (by simp)

/-- No type is stored twice. -/
theorem get?_injective {T : TypeTable} {i j : TypeId} {t : Ty}
    (hi : T.get? i = some t) (hj : T.get? j = some t) : i = j := by
  have := (lookup_eq_some_iff.mpr hi).symm.trans (lookup_eq_some_iff.mpr hj)
  simpa using this

/-! ## Interning -/

/-- A table without types. -/
def empty (options : Options) : TypeTable where
  types := #[]
  index := ∅
  options := options
  index_iff := by simp

/-- The id of a type, which the table holds from then on. -/
def intern (T : TypeTable) (t : Ty) : TypeId × TypeTable :=
  match h : T.index[t]? with
  | some i => (i, T)
  | none =>
    (T.size,
      { types := T.types.push t
        index := T.index.insert t T.size
        options := T.options
        index_iff := by
          intro u i
          -- what the map does not find is nowhere in the array
          have hfresh : ∀ j : Nat, T.types[j]? ≠ some t := by
            intro j hj
            rw [(T.index_iff t j).mpr hj] at h
            exact absurd h (by simp)
          rw [Std.HashMap.getElem?_insert, Array.getElem?_push]
          -- the node has the new id and no other; every other node is where it was
          by_cases hu : t = u
          · subst hu
            by_cases hi : i = T.size
            · simp [hi, size]
            · have hne : ¬ T.size = i := fun e => hi e.symm
              have hi' : ¬ i = T.types.size := hi
              simp [hi', hne, hfresh i]
          · by_cases hi : i = T.size
            · subst hi
              have hnew : T.index[u]? ≠ some T.types.size := by
                intro hT
                have := (T.index_iff u _).mp hT
                simp at this
              simp [hu, hnew, size]
            · have hi' : ¬ i = T.types.size := hi
              simp [hu, hi', T.index_iff u i] })

/-- A type that the table holds gets its old id, and the table stays as it is. -/
theorem intern_of_lookup {T : TypeTable} {t : Ty} {i : TypeId} (h : T.lookup t = some i) :
    T.intern t = (i, T) := by
  unfold lookup at h
  unfold intern
  split
  · rename_i j hj
    rw [hj] at h
    simpa using h
  · rename_i hj
    rw [hj] at h
    exact absurd h (by simp)

/-- A type that the table does not hold gets the next id and is put at the end. -/
theorem intern_of_lookup_eq_none {T : TypeTable} {t : Ty} (h : T.lookup t = none) :
    (T.intern t).1 = T.size ∧ (T.intern t).2.types = T.types.push t ∧
      (T.intern t).2.options = T.options := by
  unfold lookup at h
  unfold intern
  split
  · rename_i j hj
    rw [hj] at h
    exact absurd h (by simp)
  · exact ⟨rfl, rfl, rfl⟩

/-- Interning leaves the options alone. -/
@[simp]
theorem options_intern (T : TypeTable) (t : Ty) : (T.intern t).2.options = T.options := by
  cases h : T.lookup t with
  | some i => rw [intern_of_lookup h]
  | none => exact (intern_of_lookup_eq_none h).2.2

/-- The id that comes back names the type. -/
theorem get?_intern_fst (T : TypeTable) (t : Ty) :
    (T.intern t).2.get? (T.intern t).1 = some t := by
  cases h : T.lookup t with
  | some i =>
    rw [intern_of_lookup h]
    exact lookup_eq_some_iff.mp h
  | none =>
    obtain ⟨hid, htypes, _⟩ := intern_of_lookup_eq_none h
    rw [hid, get?, htypes]
    simp [size]

/-- A type that the table holds keeps its id. -/
theorem get?_intern_of_get? {T : TypeTable} {i : TypeId} {u : Ty} (h : T.get? i = some u)
    (t : Ty) : (T.intern t).2.get? i = some u := by
  cases hl : T.lookup t with
  | some j => rw [intern_of_lookup hl]; exact h
  | none =>
    have hlt : i < T.types.size := lt_size_of_get? h
    obtain ⟨_, htypes, _⟩ := intern_of_lookup_eq_none hl
    rw [get?, htypes, Array.getElem?_push]
    rw [if_neg (Nat.ne_of_lt hlt)]
    exact h

/-- Interning never shrinks a table. -/
theorem size_le_size_intern (T : TypeTable) (t : Ty) : T.size ≤ (T.intern t).2.size := by
  cases h : T.lookup t with
  | some i => exact Nat.le_of_eq (by rw [intern_of_lookup h])
  | none =>
    obtain ⟨_, htypes, _⟩ := intern_of_lookup_eq_none h
    simp [size, htypes]

/-! ## The built-in types -/

/-- The types that every table starts with, in the order of their ids. -/
def builtins : List Ty :=
  [.any, .never, .unknown] ++ Primitive.all.map .primitive ++
    [.literal (.boolean true), .literal (.boolean false), .union [TypeId.yes, TypeId.no]]

/-- The table that holds the built-in types only. -/
def withOptions (options : Options) : TypeTable :=
  builtins.foldl (fun T t => (T.intern t).2) (empty options)

/-- A bound on the levels of a computation that goes down from some types to their parts and may
intern types on the way. Where it interns none, each level has a set of ids of its own, so there are
no more levels than sets; one more id stands for all that name no type. -/
def levelBound (T : TypeTable) : Nat := twoTo (T.size + 1)

/-- Types that refer to smaller ids only leave levels to spare. -/
theorem size_lt_levelBound (T : TypeTable) : T.size < T.levelBound :=
  Nat.lt_trans (Nat.lt_succ_self _) Nat.lt_two_pow_self

/-- Whether an id names a union. -/
def isUnion (T : TypeTable) (i : TypeId) : Bool := (T.get? i).any Ty.isUnion

end TypeTable

/-! ## Building types -/

/-- A computation that may intern types. -/
abbrev Interning := StateM TypeTable

/-- A computation that may intern types and may fail; what it interned before it failed stays. -/
abbrev Building := ExceptT TypeError Interning

/-- Interns one node as it is. -/
def intern (t : Ty) : Interning TypeId := fun T => T.intern t

end TypeAssay
