import TypeAssay.Proofs.Intersections
import TypeAssay.Proofs.Literals

/-!
# Predicates that follow the form of types

Which values a type has and which types fit it are both decided by its form: a union has what some
member has and an intersection what all members have. `Reading` says that of any predicate on the
types of a table, so what normalization does to it is proved once: the union of types has a property
if one of them does (`Reading.isUnionOf`), and their intersection has it if one choice of
alternatives does that leaves no conflict (`Reading.isIntersectionOf`).

Constraints conflict only where no type can have both. `Consistent` says that of a predicate, and
then the intersection has the property as soon as all members do.

## Main results

* `unionOf_yields` : the values of a union are those of its members.
* `intersectionOf_yields` : the values of an intersection are those that all members have.
-/

namespace TypeAssay

namespace TypeTable

variable {T U : TypeTable} {i n a m : TypeId} {t : Ty} {ms flat : List TypeId}
  {P : TypeId → Prop} {v : Value}

/-- A predicate on the types of a table that follows their form: a union has it if some member has
it and an intersection if all members have it; it passes from a literal to its primitive and from
`undefined` to `void`. -/
structure Reading (T : TypeTable) (P : TypeId → Prop) : Prop where
  any : P TypeId.any
  unknown : P TypeId.unknown
  never : ¬ P TypeId.never
  union : ∀ i ms, T.get? i = some (.union ms) → (P i ↔ ∃ m ∈ ms, P m)
  intersection : ∀ i ms, T.get? i = some (.intersection ms) → (P i ↔ ∀ m ∈ ms, P m)
  literal : ∀ i l p, T.get? i = some (.literal l) → l.base? = some p → P i → P p.id
  void : P TypeId.undefined → P TypeId.void

namespace Reading

variable (h : T.Reading P)

include h

/-! ## Unions -/

/-- Opening a union changes nothing. -/
theorem exists_alternatives : (∃ a ∈ T.alternatives m, P a) ↔ P m := by
  rw [alternatives]
  split
  · rename_i ms hget
    exact (h.union m ms hget).symm
  · simp

/-- Opening the unions among some members changes nothing. -/
theorem exists_flatMap_alternatives :
    (∃ a ∈ ms.flatMap T.alternatives, P a) ↔ ∃ m ∈ ms, P m := by
  constructor
  · rintro ⟨a, ha, hp⟩
    obtain ⟨m, hm, ha⟩ := List.mem_flatMap.mp ha
    exact ⟨m, hm, h.exists_alternatives.mp ⟨a, ha, hp⟩⟩
  · rintro ⟨m, hm, hp⟩
    obtain ⟨a, ha, hp⟩ := h.exists_alternatives.mpr hp
    exact ⟨a, List.mem_flatMap.mpr ⟨m, hm, ha⟩, hp⟩

/-- What is dropped of a union follows from what is kept. -/
theorem exists_unionMembers (hb : T.HasBuiltins) :
    (∃ a ∈ T.unionMembers flat, P a) ↔ ∃ a ∈ flat, P a := by
  constructor
  · rintro ⟨a, ha, hp⟩
    exact ⟨a, ((mem_unionMembers hb).mp ha).1, hp⟩
  · rintro ⟨a, ha, hp⟩
    have hnever : a ≠ TypeId.never := by
      rintro rfl
      exact h.never hp
    rcases mem_unionMembers_or_base hb ha hnever with hkept | ⟨l, p, hl, hlp, hkept⟩
    · exact ⟨a, hkept, hp⟩
    · exact ⟨p.id, hkept, h.literal a l p hl hlp hp⟩

/-- A type has the property if one of its subjects does. -/
theorem exists_subjects (hb : T.HasBuiltins) : (∃ a ∈ T.subjects n, P a) ↔ P n := by
  rw [subjects]
  split
  · rename_i hget
    obtain rfl := get?_injective hget hb.never
    simp [h.never]
  · rename_i ms hget
    exact (h.union n ms hget).symm
  · simp

/-- A union has the property if some member does. -/
theorem isUnionOf (hb : T.HasBuiltins) (hn : T.IsUnionOf ms n) : P n ↔ ∃ m ∈ ms, P m := by
  rw [← h.exists_flatMap_alternatives]
  rw [IsUnionOf] at hn
  by_cases hany : TypeId.any ∈ ms.flatMap T.alternatives
  · rw [if_pos hany] at hn
    exact iff_of_true (hn ▸ h.any) ⟨_, hany, h.any⟩
  by_cases hunknown : TypeId.unknown ∈ ms.flatMap T.alternatives
  · rw [if_neg hany, if_pos hunknown] at hn
    exact iff_of_true (hn ▸ h.unknown) ⟨_, hunknown, h.unknown⟩
  rw [if_neg hany, if_neg hunknown] at hn
  rw [← h.exists_subjects hb, hn, h.exists_unionMembers hb]

/-! ## Intersections -/

/-- Opening an intersection changes nothing. -/
theorem forall_constraints : (∀ a ∈ T.constraints m, P a) ↔ P m := by
  rw [constraints]
  split
  · rename_i ms hget
    exact (h.intersection m ms hget).symm
  · simp

/-- Opening the intersections among some members changes nothing. -/
theorem forall_flatMap_constraints :
    (∀ a ∈ ms.flatMap T.constraints, P a) ↔ ∀ m ∈ ms, P m := by
  constructor
  · intro hp m hm
    exact h.forall_constraints.mp fun a ha => hp a (List.mem_flatMap.mpr ⟨m, hm, ha⟩)
  · intro hp a ha
    obtain ⟨m, hm, ha⟩ := List.mem_flatMap.mp ha
    exact h.forall_constraints.mpr (hp m hm) a ha

/-- Dropping `unknown` changes nothing either. -/
theorem forall_openedMembers : (∀ a ∈ T.openedMembers ms, P a) ↔ ∀ m ∈ ms, P m := by
  refine Iff.trans (forall_congr' fun a => ?_) h.forall_flatMap_constraints
  rw [mem_openedMembers]
  by_cases hunknown : a = TypeId.unknown
  · simp [hunknown, h.unknown]
  · simp [hunknown]

/-- A type has the property if the constraints that it makes do. -/
theorem forall_demands (hb : T.HasBuiltins) : (∀ a ∈ T.demands n, P a) ↔ P n := by
  rw [demands]
  split
  · rename_i hget
    obtain rfl := get?_injective hget hb.unknown
    simp [h.unknown]
  · rename_i ms hget
    exact (h.intersection n ms hget).symm
  · simp

/-- What is dropped of compatible constraints follows from what is kept. -/
theorem forall_reducedConstraints (hb : T.HasBuiltins) (hc : (T.scalars ms).Compatible) :
    (∀ m ∈ T.reducedConstraints ms, P m) ↔ ∀ m ∈ ms, P m := by
  constructor
  · intro hp
    have hliteral : ∀ m ∈ ms, ∀ l, T.get? m = some (.literal l) → P m := by
      intro m hm l hl
      refine hp m ((mem_reducedConstraints hb).mpr ⟨⟨hm, ?_⟩, ?_⟩)
      · rintro ⟨rfl, -⟩
        exact absurd ((hb.primitive .void).symm.trans hl) (by simp)
      · rintro ⟨-, p, -, rfl⟩
        exact absurd ((hb.primitive p).symm.trans hl) (by simp)
    have hprimitive : ∀ p ∈ (T.scalars ms).primitives, P p.id := by
      intro p hp'
      by_cases hlits : (T.scalars ms).literals = []
      · refine hp p.id ((mem_reducedConstraints hb).mpr ⟨⟨?_, ?_⟩, fun h => h.1 hlits⟩)
        · exact ((mem_primitives hb).mp hp').1.1
        · rintro ⟨hvoid, hu⟩
          exact ((mem_primitives hb).mp hp').2 ⟨hb.primitive_injective hvoid, hu⟩
      · -- the primitive was replaced by its literal
        obtain ⟨l, hl⟩ := List.exists_mem_of_ne_nil _ hlits
        obtain ⟨m, hm, hget⟩ := mem_literals.mp hl
        exact h.literal m l p hget (hc.widened l hl p hp') (hliteral m hm l hget)
    intro m hm
    by_cases hvoid : m = TypeId.void ∧ TypeId.undefined ∈ ms
    · -- `undefined` was kept in place of `void`
      have hu : Primitive.undefined ∈ (T.scalars ms).primitives :=
        (mem_primitives hb).mpr ⟨⟨hvoid.2, by decide⟩, by simp⟩
      rw [hvoid.1]
      exact h.void (hprimitive _ hu)
    · by_cases hrefined : (T.scalars ms).literals ≠ [] ∧ ∃ p ∈ (T.scalars ms).primitives, p.id = m
      · obtain ⟨-, p, hp', rfl⟩ := hrefined
        exact hprimitive p hp'
      · exact hp m ((mem_reducedConstraints hb).mpr ⟨⟨hm, hvoid⟩, hrefined⟩)
  · exact fun hp m hm => hp m (reducedConstraints_sublist.subset hm)

/-- What constraints reduce to has the property if all of them do and none rules out another. -/
theorem isReductionOf (hb : T.HasBuiltins) (hms : ms.Nodup) (hn : T.IsReductionOf ms n) :
    P n ↔ (T.scalars ms).Compatible ∧ ∀ m ∈ ms, P m := by
  have hconflict := Scalars.conflict_eq_false_iff (nodup_primitives (T := T) hms)
    (nodup_literals hms)
  rw [IsReductionOf] at hn
  by_cases hc : (T.scalars ms).Compatible
  · rw [hconflict.mpr hc, if_neg (by decide)] at hn
    rw [and_iff_right hc, ← h.forall_demands hb, hn, h.forall_reducedConstraints hb hc]
  · rw [if_pos (by simpa using mt hconflict.mp hc)] at hn
    exact iff_of_false (hn ▸ h.never) fun hp => hc hp.1

/-- An intersection has the property if one choice does throughout and leaves no conflict. -/
theorem isIntersectionOf (hb : T.HasBuiltins) (hn : T.IsIntersectionOf ms n)
    (hany : TypeId.any ∉ ms.flatMap T.constraints) :
    P n ↔ TypeId.never ∉ ms.flatMap T.constraints ∧
      ∃ c ∈ choices ((T.openedMembers ms).map T.alternatives),
        (T.scalars (T.openedMembers c)).Compatible ∧ ∀ a ∈ c, P a := by
  rw [IsIntersectionOf] at hn
  by_cases hnever : TypeId.never ∈ ms.flatMap T.constraints
  · rw [if_pos hnever] at hn
    exact iff_of_false (hn ▸ h.never) fun hp => hp.1 hnever
  rw [if_neg hnever, if_neg hany] at hn
  obtain ⟨ns, hns, hn⟩ := hn
  rw [and_iff_right hnever, h.isUnionOf hb hn]
  refine exists_iff_of_forall₂ hns fun c n hcn => ?_
  rw [h.isReductionOf hb nodup_openedMembers hcn.2, h.forall_openedMembers]

/-- The members of an intersection have the property if the intersection has it. -/
theorem forall_of_isIntersectionOf (hb : T.HasBuiltins) (hn : T.IsIntersectionOf ms n)
    (hany : TypeId.any ∉ ms.flatMap T.constraints) (hp : P n) : ∀ m ∈ ms, P m := by
  obtain ⟨-, c, hc, -, hp⟩ := (h.isIntersectionOf hb hn hany).mp hp
  rw [← h.forall_openedMembers]
  intro a ha
  rw [← h.exists_alternatives]
  exact (exists_mem_choices (p := P)).mp ⟨c, hc, hp⟩ _ (List.mem_map_of_mem ha)

/-- Where the property rules conflicts out, an intersection has it if all members do. -/
theorem isIntersectionOf_of_forall (hb : T.HasBuiltins) (hn : T.IsIntersectionOf ms n)
    (hany : TypeId.any ∉ ms.flatMap T.constraints)
    (hcompatible : ∀ c ∈ choices ((T.openedMembers ms).map T.alternatives), (∀ a ∈ c, P a) →
      (T.scalars (T.openedMembers c)).Compatible)
    (hp : ∀ m ∈ ms, P m) : P n := by
  refine (h.isIntersectionOf hb hn hany).mpr ⟨fun hnever => ?_, ?_⟩
  · exact h.never (h.forall_flatMap_constraints.mpr hp _ hnever)
  · -- an element with the property is chosen from each list
    have hsome : ∀ l ∈ (T.openedMembers ms).map T.alternatives, ∃ a ∈ l, P a := by
      rw [List.forall_mem_map]
      exact fun a ha => h.exists_alternatives.mpr (h.forall_openedMembers.mpr hp a ha)
    obtain ⟨c, hc, hpc⟩ := exists_mem_choices.mpr hsome
    exact ⟨c, hc, hcompatible c hc hpc, hpc⟩

end Reading

/-! ## Types that rule each other out -/

/-- No two types that rule each other out have `P` in common, `object` and scalars aside. -/
structure Consistent (T : TypeTable) (P : TypeId → Prop) : Prop where
  primitives : ∀ p q : Primitive, p ≠ .object → q ≠ .object → P p.id → P q.id →
    p = q ∨ (p = .undefined ∧ q = .void) ∨ (p = .void ∧ q = .undefined)
  literals : ∀ a b l l', T.Canonical a → T.Canonical b → T.get? a = some (.literal l) →
    T.get? b = some (.literal l') → P a → P b → l = l'
  widened : ∀ a l (p : Primitive), T.get? a = some (.literal l) → p ≠ .object → P a → P p.id →
    l.base? = some p
  structured : ∀ m (p : Primitive), T.isStructured m → p ≠ .object → P m → P p.id →
    p.isNullish = false

/-- Constraints with such a property in common are compatible, if none is a scalar next to
`object`. -/
theorem Consistent.compatible (hc : T.Consistent P) (hb : T.HasBuiltins)
    (hms : ∀ m ∈ ms, T.Canonical m)
    (hobject : TypeId.object ∈ ms → ∀ m ∈ ms, T.isScalar m = false) (hp : ∀ m ∈ ms, P m) :
    (T.scalars ms).Compatible := by
  have hprim : ∀ p ∈ (T.scalars ms).primitives, P p.id ∧ p ≠ .object := fun p hp' =>
    have h := ((mem_primitives hb).mp hp').1
    ⟨hp p.id h.1, h.2⟩
  have hlit : ∀ l ∈ (T.scalars ms).literals, ∃ m ∈ ms, T.get? m = some (.literal l) :=
    fun l hl => mem_literals.mp hl
  refine ⟨fun p hp' q hq => ?_, fun l hl l' hl' => ?_, fun l hl p hp' => ?_, fun ho => ⟨?_, ?_⟩,
    fun hs p hp' => ?_⟩
  · -- `void` does not count next to `undefined`
    have hp'' := (mem_primitives hb).mp hp'
    have hq' := (mem_primitives hb).mp hq
    rcases hc.primitives p q hp''.1.2 hq'.1.2 (hprim p hp').1 (hprim q hq).1 with
      h | ⟨rfl, rfl⟩ | ⟨rfl, rfl⟩
    · exact h
    · exact absurd ⟨rfl, hp''.1.1⟩ hq'.2
    · exact absurd ⟨rfl, hq'.1.1⟩ hp''.2
  · obtain ⟨m, hm, hget⟩ := hlit l hl
    obtain ⟨m', hm', hget'⟩ := hlit l' hl'
    exact hc.literals m m' l l' (hms m hm) (hms m' hm') hget hget' (hp m hm) (hp m' hm')
  · obtain ⟨m, hm, hget⟩ := hlit l hl
    exact hc.widened m l p hget (hprim p hp').2 (hp m hm) (hprim p hp').1
  · refine List.eq_nil_iff_forall_not_mem.mpr fun p hp' => ?_
    obtain ⟨hmem, hne⟩ := ((mem_primitives hb).mp hp').1
    have := hobject ((hasObject_iff hb).mp ho) _ hmem
    rw [hb.isScalar_id hne] at this
    exact absurd this (by decide)
  · refine List.eq_nil_iff_forall_not_mem.mpr fun l hl => ?_
    obtain ⟨m, hm, hget⟩ := hlit l hl
    have := hobject ((hasObject_iff hb).mp ho) m hm
    rw [isScalar_of_literal hget] at this
    exact absurd this (by decide)
  · obtain ⟨m, hm, hstructured⟩ := hasStructure_iff.mp hs
    exact hc.structured m p hstructured (hprim p hp').2 (hp m hm) (hprim p hp').1

end TypeTable

/-! ## The values of a type -/

namespace Core

variable {c : Core Value} {p q : Primitive}

/-- A core belongs to two primitives only if they are `undefined` and `void`. -/
theorem eq_of_mem_primitives (hp : p ∈ c.primitives) (hq : q ∈ c.primitives) :
    p = q ∨ (p = .undefined ∧ q = .void) ∨ (p = .void ∧ q = .undefined) := by
  cases c with
  | undefined =>
    simp only [primitives, List.mem_cons, List.not_mem_nil, or_false] at hp hq
    rcases hp with rfl | rfl <;> rcases hq with rfl | rfl <;> simp
  | boolean _ => exact absurd hp List.not_mem_nil
  | _ => exact Or.inl ((List.mem_singleton.mp hp).trans (List.mem_singleton.mp hq).symm)

/-- Nullish cores belong to nullish primitives. -/
theorem isNullish_of_mem_primitives (hp : p ∈ c.primitives) : p.isNullish = c.isNullish := by
  cases c with
  | undefined =>
    simp only [primitives, List.mem_cons, List.not_mem_nil, or_false] at hp
    rcases hp with rfl | rfl <;> rfl
  | boolean _ => exact absurd hp List.not_mem_nil
  | _ =>
    obtain rfl := List.mem_singleton.mp hp
    rfl

/-- `undefined` is a part of `void`. -/
theorem void_mem_primitives (h : .undefined ∈ c.primitives) : .void ∈ c.primitives := by
  cases c <;> simp [primitives] at h ⊢

end Core

namespace TypeTable

variable {T U : TypeTable} {i n a m : TypeId} {ms c : List TypeId} {v : Value}

/-- A structured type has no nullish values. -/
theorem not_isNullish_of_isStructured (h : T.isStructured m) (hv : T.Inhabits v m) :
    v.core.isNullish = false := by
  rw [isStructured] at h
  split at h
  · rename_i hget
    exact (Core.isNullish_of_mem_primitives ((inhabits_iff hget).mp hv)).symm
  · rename_i hget
    exact ((inhabits_iff hget).mp hv).1
  · rename_i hget
    obtain ⟨vs, mutable, hcore, -⟩ := (inhabits_iff hget).mp hv
    rw [hcore]
    rfl
  · rename_i hget
    obtain ⟨vs, mutable, hcore, -⟩ := (inhabits_iff hget).mp hv
    rw [hcore]
    rfl
  · exact absurd h (by decide)

/-- A primitive has the values whose core belongs to it. -/
theorem HasBuiltins.inhabits_primitive (hb : T.HasBuiltins) {p : Primitive} :
    T.Inhabits v p.id ↔ p ∈ v.core.primitives :=
  inhabits_iff (hb.primitive p)

/-- The values of a literal are values of its primitive and of no other. -/
theorem mem_primitives_of_inhabits_literal {l : Literal} (hl : T.get? a = some (.literal l))
    (hv : T.Inhabits v a) (p : Primitive) : p ∈ v.core.primitives ↔ l.base? = some p :=
  Core.mem_primitives_of_isLiteral ((inhabits_iff hl).mp hv) p

/-- Which types a value belongs to follows their form. -/
theorem HasBuiltins.reading_inhabits (hb : T.HasBuiltins) (v : Value) :
    T.Reading fun i => T.Inhabits v i where
  any := hb.inhabits_any
  unknown := hb.inhabits_unknown
  never := hb.not_inhabits_never
  union _ _ hget := inhabits_iff hget
  intersection _ _ hget := inhabits_iff hget
  literal _ _ p hl hlp hv :=
    hb.inhabits_primitive.mpr ((mem_primitives_of_inhabits_literal hl hv p).mpr hlp)
  void hv := hb.inhabits_primitive.mpr (Core.void_mem_primitives (hb.inhabits_primitive.mp hv))

/-- No value belongs to types that rule each other out. -/
theorem HasBuiltins.consistent_inhabits (hb : T.HasBuiltins) (v : Value) :
    T.Consistent fun i => T.Inhabits v i where
  primitives _ _ _ _ hp hq :=
    Core.eq_of_mem_primitives (hb.inhabits_primitive.mp hp) (hb.inhabits_primitive.mp hq)
  literals _ _ _ _ ha hb' hl hl' hv hv' :=
    isLiteral_unique (ha.canonicalNode hl) (hb'.canonicalNode hl') ((inhabits_iff hl).mp hv)
      ((inhabits_iff hl').mp hv')
  widened _ _ p hl _ hv hp :=
    (mem_primitives_of_inhabits_literal hl hv p).mp (hb.inhabits_primitive.mp hp)
  structured _ _ hs _ hv hp := by
    rw [Core.isNullish_of_mem_primitives (hb.inhabits_primitive.mp hp)]
    exact not_isNullish_of_isStructured hs hv

/-- No value of `object` is a scalar. -/
theorem HasBuiltins.isScalar_eq_false_of_inhabits (hb : T.HasBuiltins)
    (hobject : T.Inhabits v TypeId.object) (hv : T.Inhabits v m) : T.isScalar m = false := by
  have hcore : .object ∈ v.core.primitives := hb.inhabits_primitive.mp hobject
  refine Bool.eq_false_iff.mpr fun hs => ?_
  -- a scalar is a primitive or a literal, and `object` has a core of neither kind
  rcases isScalar_cases hb hs with ⟨p, rfl, hp⟩ | ⟨l, hl⟩
  · rcases Core.eq_of_mem_primitives (hb.inhabits_primitive.mp hv) hcore with h | ⟨-, h⟩ | ⟨-, h⟩
    · exact hp h
    · exact absurd h (by decide)
    · exact absurd h (by decide)
  · have hbase := (mem_primitives_of_inhabits_literal hl hv .object).mp hcore
    cases l <;> simp [Literal.base?] at hbase

/-- Constraints that have a value in common are compatible. -/
theorem compatible_of_inhabits (hb : T.HasBuiltins) (hms : ∀ m ∈ ms, T.Canonical m)
    (hv : ∀ m ∈ ms, T.Inhabits v m) : (T.scalars ms).Compatible :=
  (hb.consistent_inhabits v).compatible hb hms
    (fun ho m hm => hb.isScalar_eq_false_of_inhabits (hv _ ho) (hv m hm)) hv

/-- The values of an intersection are those that all members have. -/
theorem IsIntersectionOf.inhabits_iff (hn : T.IsIntersectionOf ms n) (hb : T.HasBuiltins)
    (h : ∀ m ∈ ms, T.Canonical m) (hany : TypeId.any ∉ ms) :
    T.Inhabits v n ↔ ∀ m ∈ ms, T.Inhabits v m := by
  have hflat := mt (any_mem_of_mem_constraints hb h) hany
  have hreading := hb.reading_inhabits v
  refine ⟨hreading.forall_of_isIntersectionOf hb hn hflat,
    hreading.isIntersectionOf_of_forall hb hn hflat fun c hc hv => ?_⟩
  refine compatible_of_inhabits hb (fun a ha => ?_) (hreading.forall_openedMembers.mpr hv)
  exact canonical_of_mem_openedMembers (canonical_of_mem_choice h hc) ha

end TypeTable

/-! ## The constructors -/

open TypeTable

variable {T : TypeTable} {ms : List TypeId}

/-- The union of canonical types is canonical, is `any` only if a member is, and has the values of
its members. -/
theorem unionOf_yields (hb : T.HasBuiltins) (h : ∀ m ∈ ms, T.Canonical m) :
    (unionOf ms).Yields T fun n U => U.Canonical n ∧ (TypeId.any ∉ ms → n ≠ TypeId.any) ∧
      ∀ v, U.Inhabits v n ↔ ∃ m ∈ ms, T.Inhabits v m := by
  refine (unionOf_isUnionOf hb h).mono ?_
  rintro n U hTU ⟨hn, hunion⟩
  have hbU := hTU.hasBuiltins hb
  refine ⟨hn, hunion.ne_any hbU fun m hm => hTU.canonical (h m hm), fun v => ?_⟩
  rw [(hbU.reading_inhabits v).isUnionOf hbU hunion]
  exact exists_congr fun m => and_congr_right fun hm => (h m hm).founded.inhabits_grows hTU.grows v

/-- What an intersection promises: a canonical type that is `any` only if a member is, with the
values that all members have. -/
def Meets (T : TypeTable) (ms : List TypeId) (n : TypeId) (U : TypeTable) : Prop :=
  U.Canonical n ∧ (TypeId.any ∉ ms → n ≠ TypeId.any ∧
    ∀ v, U.Inhabits v n ↔ ∀ m ∈ ms, T.Inhabits v m)

/-- The intersection of canonical types is canonical, and without `any` it has the values that all
members have. -/
theorem intersectionOf_yields (hb : T.HasBuiltins) (h : ∀ m ∈ ms, T.Canonical m) :
    (intersectionOf ms).Yields T (Meets T ms) := by
  refine (intersectionOf_yields_isIntersectionOf hb h).mono ?_
  rintro n U hTU ⟨hn, hinter⟩
  have hbU := hTU.hasBuiltins hb
  have hU : ∀ m ∈ ms, U.Canonical m := fun m hm => hTU.canonical (h m hm)
  refine ⟨hn, fun hany => ⟨hinter.ne_any hbU hU hany, fun v => ?_⟩⟩
  rw [hinter.inhabits_iff hbU hU hany]
  exact forall₂_congr fun m hm => (h m hm).founded.inhabits_grows hTU.grows v

end TypeAssay
