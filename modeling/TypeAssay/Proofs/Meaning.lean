import TypeAssay.Proofs.Computation

/-!
# The values of a type

The set-theoretic reading of types. A value has a core, which says what it is, and named fields,
which every value but the nullish ones can carry. A type is read as the set of its values: a union
as the union of its members, an intersection as their intersection, an object type as the values
whose members it describes.

`Ty.Accepts` reads one node, given a reading of its parts, and `TypeTable.Inhabits` is the least
reading of all ids that agrees with their nodes. `any` is no set of values: it is read like
`unknown`, and the theorems that depend on it leave it out.

* `inhabits_iff` : an id has the values of its node.
* `Founded.inhabits_grows` : the values of a type do not change when the table grows.
-/

namespace TypeAssay

/-! ## Values -/

/-- What a value is, its named fields aside; `α` are the values that arrays hold. -/
inductive Core (α : Type) where
  | number (value : Binary64)
  | string (value : String)
  | bigint (value : Int)
  | boolean (value : Bool)
  | symbol (tag : Nat)
  | null
  | undefined
  /-- The result of a function without one. -/
  | void
  | record
  | array (elements : List α) (mutable : Bool)

/-- A value: its core, and fields by name. Of two fields with one name the first counts. -/
inductive Value where
  | mk (core : Core Value) (fields : List (String × Value))

/-- Whether two numbers are the same: there are two zeros. -/
def Binary64.same (x y : Binary64) : Bool := x = y || (x.isZero && y.isZero)

/-- The integer that decimal digits with a minus sign or none denote. -/
def bigintValue? (digits : String) : Option Int :=
  let (negative, ds) := splitSign digits.toList
  if ds.isEmpty || !ds.all Char.isDigit then none
  else
    let n : Int := Binary64.natOfDigits ds
    some (if negative then -n else n)

namespace Core

variable {α : Type}

/-- Whether a core has no members and takes no fields. -/
def isNullish : Core α → Bool
  | null | undefined | void => true
  | _ => false

/-- The primitives that a core belongs to. They are disjoint, but for `undefined`, which is a part
of `void`. -/
def primitives : Core α → List Primitive
  | number _ => [.number]
  | string _ => [.string]
  | bigint _ => [.bigint]
  | boolean _ => []
  | symbol _ => [.symbol]
  | null => [.null]
  | undefined => [.undefined, .void]
  | void => [.void]
  | record | array .. => [.object]

/-- Whether a core is what a literal stands for. -/
def isLiteral : Core α → Literal → Bool
  | number x, .number y => x.same y
  | string s, .string r => s = r
  | bigint n, .bigint digits => bigintValue? digits = some n
  | boolean a, .boolean b => a = b
  | _, _ => false

end Core

namespace Value

/-- What a value is. -/
def core : Value → Core Value
  | mk c _ => c

/-- The named fields of a value. -/
def fields : Value → List (String × Value)
  | mk _ fs => fs

/-- A number without fields. -/
def ofNat (n : Nat) : Value := mk (.number (.ofNat n)) []

/-- The member of a value with a name: strings and arrays have a `length`, and all else is in the
fields. -/
def member? (v : Value) (name : String) : Option Value :=
  match v.core with
  | .null | .undefined | .void => none
  | .string s => if name = "length" then some (ofNat s.length) else v.fields.lookup name
  | .array vs _ => if name = "length" then some (ofNat vs.length) else v.fields.lookup name
  | _ => v.fields.lookup name

end Value

/-! ## Types as sets of values -/

/-- Whether a value belongs to a node, where `has` says which values belong to its parts. -/
def Ty.Accepts (has : Value → TypeId → Prop) (v : Value) : Ty → Prop
  | any | unknown => True
  | never => False
  | primitive p => p ∈ v.core.primitives
  | literal l => v.core.isLiteral l
  | union ms => ∃ m ∈ ms, has v m
  | intersection ms => ∀ m ∈ ms, has v m
  | tuple es readonly =>
    ∃ vs mutable, v.core = .array vs mutable ∧ (mutable ∨ readonly) ∧ List.Forall₂ has vs es
  | array e readonly =>
    ∃ vs mutable, v.core = .array vs mutable ∧ (mutable ∨ readonly) ∧ ∀ w ∈ vs, has w e
  | object ps =>
    v.core.isNullish = false ∧ ∀ p ∈ ps,
      match v.member? p.name with
      | some w => has w p.type
      | none => p.optional

/-- Readings of the parts that agree give the same reading of a node. -/
theorem Ty.accepts_congr {has has' : Value → TypeId → Prop} {t : Ty}
    (h : ∀ j ∈ t.parts, ∀ w, has w j ↔ has' w j) (v : Value) :
    t.Accepts has v ↔ t.Accepts has' v := by
  cases t with
  | any | unknown | never | primitive _ | literal _ => rfl
  | union ms =>
    exact exists_congr fun m => and_congr_right fun hm => h m hm v
  | intersection ms =>
    exact forall₂_congr fun m hm => h m hm v
  | array e readonly =>
    have he := h e (by simp [Ty.parts])
    simp only [Accepts, he]
  | tuple es readonly =>
    -- a tuple asks for its elements one by one, and each of them is a part
    have hes : ∀ vs, List.Forall₂ has vs es ↔ List.Forall₂ has' vs es := by
      intro vs
      simp only [List.forall₂_iff_get]
      refine and_congr_right fun _ => forall₃_congr fun k _ hk => ?_
      exact h _ (List.getElem_mem hk) _
    simp only [Accepts, hes]
  | object ps =>
    refine and_congr_right fun _ => forall₂_congr fun p hp => ?_
    have hp' := h p.type (List.mem_map_of_mem (f := (·.type)) hp)
    cases v.member? p.name with
    | some w => exact hp' w
    | none => rfl

/-- More values in the parts give more values in a node. -/
theorem Ty.accepts_mono {has has' : Value → TypeId → Prop} (h : ∀ w j, has w j → has' w j)
    {v : Value} {t : Ty} (ht : t.Accepts has v) : t.Accepts has' v := by
  cases t with
  | any | unknown | never | primitive _ | literal _ => exact ht
  | union ms =>
    obtain ⟨m, hm, hv⟩ := ht
    exact ⟨m, hm, h v m hv⟩
  | intersection ms => exact fun m hm => h v m (ht m hm)
  | array e readonly =>
    obtain ⟨vs, mutable, hcore, hwrite, hvs⟩ := ht
    exact ⟨vs, mutable, hcore, hwrite, fun w hw => h w e (hvs w hw)⟩
  | tuple es readonly =>
    obtain ⟨vs, mutable, hcore, hwrite, hvs⟩ := ht
    exact ⟨vs, mutable, hcore, hwrite, hvs.imp h⟩
  | object ps =>
    refine ⟨ht.1, fun p hp => ?_⟩
    have hp' := ht.2 p hp
    cases hw : v.member? p.name with
    | some w => exact h w p.type (by simpa [hw] using hp')
    | none => simpa [hw] using hp'

namespace TypeTable

variable {T U : TypeTable} {i : TypeId} {t : Ty} {v : Value}

/-- Whether a value belongs to a type: the least relation that holds where the node of the type
accepts the value, given the relation for its parts. -/
inductive Inhabits (T : TypeTable) : Value → TypeId → Prop
  | node {v : Value} {i : TypeId} {t : Ty} (has : Value → TypeId → Prop)
      (parts : ∀ w j, has w j → Inhabits T w j) (get? : T.get? i = some t)
      (accepts : t.Accepts has v) : Inhabits T v i

/-- A value belongs to a type exactly when the node of the type accepts it. -/
theorem inhabits_iff (h : T.get? i = some t) : T.Inhabits v i ↔ t.Accepts T.Inhabits v := by
  constructor
  · rintro ⟨has, parts, hget, haccepts⟩
    obtain rfl := Option.some.inj (h.symm.trans hget)
    -- the relation is the least one, so the reading that put a value into it may be smaller
    exact Ty.accepts_mono parts haccepts
  · exact .node T.Inhabits (fun _ _ hw => hw) h

/-- An id of no type has no values. -/
theorem Inhabits.exists_get? (h : T.Inhabits v i) : ∃ t, T.get? i = some t := by
  obtain ⟨_, _, hget, _⟩ := h
  exact ⟨_, hget⟩

/-- The values of a type do not change when the table grows. -/
theorem Founded.inhabits_grows (hi : T.Founded i) (h : Grows T U) :
    ∀ v, U.Inhabits v i ↔ T.Inhabits v i := by
  induction hi with
  | node ht _ ih =>
    intro v
    rw [inhabits_iff (h.get? ht), inhabits_iff ht]
    exact Ty.accepts_congr ih v

/-- The values of an interned node whose parts were there before. -/
theorem inhabits_intern (hp : ∀ j ∈ t.parts, T.Founded j) :
    (T.intern t).2.Inhabits v (T.intern t).1 ↔ t.Accepts T.Inhabits v := by
  rw [inhabits_iff (get?_intern_fst T t)]
  exact Ty.accepts_congr (fun j hj => (hp j hj).inhabits_grows (grows_intern T t)) v

/-! ## The built-in types -/

/-- No value belongs to `never`. -/
theorem HasBuiltins.not_inhabits_never (h : T.HasBuiltins) : ¬ T.Inhabits v TypeId.never := by
  rw [inhabits_iff h.never]
  exact id

/-- Every value belongs to `unknown`. -/
theorem HasBuiltins.inhabits_unknown (h : T.HasBuiltins) : T.Inhabits v TypeId.unknown :=
  (inhabits_iff h.unknown).mpr trivial

/-- Every value belongs to `any`, as it is read here. -/
theorem HasBuiltins.inhabits_any (h : T.HasBuiltins) : T.Inhabits v TypeId.any :=
  (inhabits_iff h.any).mpr trivial

end TypeTable

/-! ## Interning -/

open TypeTable

variable {T : TypeTable} {t : Ty}

/-- A canonical node over canonical types has the values that it describes. -/
theorem intern_yields (hb : T.HasBuiltins) (hne : t ≠ .any) (hc : T.CanonicalNode t)
    (hp : ∀ j ∈ t.parts, T.Canonical j) :
    (intern t).Yields T fun n U => U.Canonical n ∧ n ≠ TypeId.any ∧
      ∀ v, U.Inhabits v n ↔ t.Accepts T.Inhabits v := by
  refine Interning.yields_intern hc hp ⟨canonical_intern hc hp, hb.intern_fst_ne_any hne, ?_⟩
  exact fun v => inhabits_intern fun j hj => (hp j hj).founded

end TypeAssay
