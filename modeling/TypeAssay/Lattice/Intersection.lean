import TypeAssay.Lattice.Union

/-!
# Intersections

The canonical intersection of some types: nested intersections are opened, `never` and then `any`
absorb everything and `unknown` is dropped. If a member is a union, the intersection becomes the
union of the intersections of every choice of one alternative from each member. What is left has
no union in it: conflicting scalars collapse to `never`, a literal replaces its own primitive, and
object types, arrays and tuples stay side by side.
-/

namespace TypeAssay

/-! ## Choices -/

/-- Every choice of one element from each list; the first list varies fastest. -/
def choices : List (List TypeId) → List (List TypeId)
  | [] => [[]]
  | options :: rest => (choices rest).flatMap fun tail => options.map (· :: tail)

/-- There are as many choices as the product of the lengths says. -/
theorem length_choices (lists : List (List TypeId)) :
    (choices lists).length = (lists.map List.length).foldr (· * ·) 1 := by
  induction lists with
  | nil => rfl
  | cons options rest ih =>
    have : (choices (options :: rest)).length = (choices rest).length * options.length := by
      rw [choices]
      induction choices rest with
      | nil => simp
      | cons tail tails ihs => simp [ihs, Nat.succ_mul, Nat.add_comm]
    rw [this, ih]
    simp [Nat.mul_comm]

/-! ### The odometer

The choices are visited one after the other with a cursor, which has an index into each list and
moves as an odometer does.
-/

/-- The choice that a cursor shows: from each list the element at its index. There is none if an
index is out of range. -/
def choiceAt? : List (List TypeId) → List Nat → Option (List TypeId)
  | options :: lists, i :: cursor => do return (← options[i]?) :: (← choiceAt? lists cursor)
  | _, _ => some []

/-- The cursor after this one: the first index that is not the last of its list goes up by one, and
those before it start again. After the last cursor there is none. -/
def advance? : List (List TypeId) → List Nat → Option (List Nat)
  | options :: lists, i :: cursor =>
    if i + 1 < options.length then some ((i + 1) :: cursor)
    else (advance? lists cursor).map (0 :: ·)
  | _, _ => none

/-- How often a cursor can still be advanced. -/
def stepsLeft : List (List TypeId) → List Nat → Nat
  | options :: lists, i :: cursor =>
    options.length - 1 - i + max options.length 1 * stepsLeft lists cursor
  | _, _ => 0

/-- Each turn of the odometer leaves fewer steps. -/
theorem stepsLeft_advance? {lists : List (List TypeId)} {cursor next : List Nat}
    (h : advance? lists cursor = some next) : stepsLeft lists next < stepsLeft lists cursor := by
  fun_induction advance? lists cursor generalizing next with
  | case1 options lists i cursor hlt =>
    obtain rfl := Option.some.inj h
    simp only [stepsLeft]
    omega
  | case2 options lists i cursor _ ih =>
    obtain ⟨rest, hrest, rfl⟩ := Option.map_eq_some_iff.mp h
    -- what the carry costs is more than starting again gains
    have hcarry := Nat.mul_le_mul_left (max options.length 1) (Nat.succ_le_of_lt (ih hrest))
    rw [Nat.mul_succ] at hcarry
    simp only [stepsLeft]
    omega
  | case3 => exact absurd h (by simp)

/-- Visits the choices from a cursor on, behind those with the results `done`, the last one first,
and collects the results. A visit that fails is the last one. -/
@[specialize]
def visitFrom {m : Type → Type} [Monad m] {α : Type} (lists : List (List TypeId))
    (visit : List TypeId → m α) (cursor : List Nat) (done : List α) : m (List α) := do
  match choiceAt? lists cursor with
  | none => return done.reverse
  | some choice =>
    let result ← visit choice
    match _ : advance? lists cursor with
    | none => return (result :: done).reverse
    | some next => visitFrom lists visit next (result :: done)
termination_by stepsLeft lists cursor
decreasing_by exact stepsLeft_advance? ‹_›

/-- Visits every choice in order, from the first element of each list on, and collects the
results. -/
@[specialize]
def visitChoices {m : Type → Type} [Monad m] {α : Type} (lists : List (List TypeId))
    (visit : List TypeId → m α) : m (List α) :=
  visitFrom lists visit (lists.map fun _ => 0) []

/-- The product of two counts, if 64 bits hold it. -/
def boundedProduct? (m n : Nat) : Option Nat := if m * n < UInt64.size then some (m * n) else none

/-- The number of choices, counted from the first list on. Once 64 bits do not hold a product, the
largest number that they hold stands for it, whatever lists follow. -/
def choiceCount (lists : List (List TypeId)) : Nat :=
  (lists.foldlM (fun n options => boundedProduct? n options.length) 1).getD (UInt64.size - 1)

/-! ## Constraints without unions -/

namespace TypeTable

/-- What a type contributes to an intersection: its members if it is one, else itself. -/
def constraints (T : TypeTable) (i : TypeId) : List TypeId :=
  match T.get? i with
  | some (.intersection ms) => ms
  | _ => [i]

/-- The scalar primitive that an id names: any but `object`. -/
def scalar? (T : TypeTable) (i : TypeId) : Option Primitive :=
  (T.primitive? i).filter (· ≠ .object)

/-- The literal that an id names. -/
def literal? (T : TypeTable) (i : TypeId) : Option Literal := (T.get? i).bind Ty.literal?

/-- Whether an id names a type of structured values. -/
def isStructured (T : TypeTable) (i : TypeId) : Bool :=
  match T.get? i with
  | some (.primitive .object) | some (.object _) | some (.tuple ..) | some (.array ..) => true
  | _ => false

/-- The parts of a union-free intersection that can rule each other out. -/
structure Scalars where
  primitives : List Primitive
  literals : List Literal
  hasObject : Bool
  hasStructure : Bool

/-- Whether no value can meet all constraints. -/
def Scalars.conflict (c : Scalars) : Bool :=
  1 < c.primitives.length || 1 < c.literals.length ||
    c.literals.any (fun l => c.primitives.any fun p => l.base? ≠ some p) ||
    (c.hasObject && (!c.primitives.isEmpty || !c.literals.isEmpty)) ||
    (c.hasStructure && c.primitives.any Primitive.isNullish)

/-- The scalar parts of a list of constraints. `undefined` is a part of `void`, so `void` does not
count next to it. -/
def scalars (T : TypeTable) (ms : List TypeId) : Scalars :=
  let primitives := ms.filterMap T.scalar?
  { primitives :=
      if primitives.contains .undefined then primitives.filter (· ≠ .void) else primitives
    literals := ms.filterMap T.literal?
    hasObject := ms.any fun i => T.primitive? i == some .object
    hasStructure := ms.any T.isStructured }

/-- The constraints that say more than the others: `undefined` makes `void` redundant, and a
literal its own primitive. -/
def reducedConstraints (T : TypeTable) (ms : List TypeId) : List TypeId :=
  let c := T.scalars ms
  let primitives := ms.filterMap T.scalar?
  let ms :=
    if primitives.contains .undefined && primitives.contains .void
    then ms.filter (· ≠ TypeId.void) else ms
  if c.literals.isEmpty || c.primitives.isEmpty then ms
  else ms.filter fun i => !(c.primitives.map Primitive.id).contains i

end TypeTable

/-- The canonical intersection of constraints that are neither unions nor intersections. -/
def reduceConstraints (ms : List TypeId) : Interning TypeId := do
  let T ← get
  if (T.scalars ms).conflict then return TypeId.never
  match T.reducedConstraints ms with
  | [] => return TypeId.unknown
  | [i] => return i
  | kept => intern (.intersection kept)

/-! ## The canonical intersection -/

/-- How many types a list has room for: an id takes four bytes, and all of them together no more
than `2 ^ 63 - 1`. Whether the memory holds that many is not considered. -/
def listCapacity : Nat := 9223372036854775807 / 4

/-- Why a distribution into a number of choices is not begun, if it is not. The limit comes first;
within it, there must be room for the results of all choices before the first one is visited. -/
def refusal? (size limit : Nat) : Option TypeError :=
  if size > limit then some (.unionTooComplex size limit)
  else if size > listCapacity then some .capacityOverflow
  else none

/-- The limit and the room of a list are the only bounds, in this order. -/
theorem refusal?_eq_some_iff {size limit : Nat} {e : TypeError} :
    refusal? size limit = some e ↔ (limit < size ∧ e = .unionTooComplex size limit) ∨
      (size ≤ limit ∧ listCapacity < size ∧ e = .capacityOverflow) := by
  unfold refusal?
  by_cases hlimit : limit < size
  · simp [hlimit, Nat.not_le.mpr hlimit, eq_comm]
  · simp [hlimit, Nat.not_lt.mp hlimit, eq_comm]

/-- A distribution is begun if its size is within the limit and within the room of a list. -/
theorem refusal?_eq_none_iff {size limit : Nat} :
    refusal? size limit = none ↔ size ≤ limit ∧ size ≤ listCapacity := by
  unfold refusal?
  by_cases hlimit : limit < size
  · simp [hlimit, Nat.not_le.mpr hlimit]
  · simp [hlimit, Nat.not_lt.mp hlimit]

/-- Distributes an intersection over its unions, if the alternatives are not too many; `meet`
intersects each choice. -/
def distribute (meet : List TypeId → Building TypeId) (ms : List TypeId) : Building TypeId := do
  let T ← get
  let lists := ms.map T.alternatives
  match refusal? (choiceCount lists) T.options.maxUnionSize with
  | some e => throw e
  | none => unionOf (← visitChoices lists meet)

/-- One level of an intersection; `meet` intersects the choices that a distribution makes. -/
def intersectionStep (meet : List TypeId → Building TypeId) (members : List TypeId) :
    Building TypeId := do
  let T ← get
  let flat := members.flatMap T.constraints
  if TypeId.never ∈ flat then return TypeId.never
  if TypeId.any ∈ flat then return TypeId.any
  match ascending (flat.filter (· ≠ TypeId.unknown)) with
  | [] => return TypeId.unknown
  | [i] => return i
  | ms => if ms.any T.isUnion then distribute meet ms else reduceConstraints ms

/-- The canonical intersection, with a bound on how deep distributions nest. -/
def intersectionWithin : Nat → List TypeId → Building TypeId
  | 0, _ => return TypeId.unknown
  | depth + 1, members => intersectionStep (intersectionWithin depth) members

/-- The canonical intersection of some types, which are canonical themselves. Each nested
distribution opens one more level of unions. -/
def intersectionOf (members : List TypeId) : Building TypeId := do
  let T ← get
  intersectionWithin T.levelBound members

end TypeAssay
