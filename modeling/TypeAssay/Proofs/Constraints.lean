import TypeAssay.Proofs.Unions

/-!
# Constraints that rule each other out

The last step of an intersection has no unions and no intersections among its members. Its scalar
parts either are `Compatible`, and then the constraints that are kept form a canonical intersection,
or the intersection is `never`. `IsReductionOf` says which type it is in a table, and
`reduceConstraints_isReductionOf` that this type is built.

* `mem_reducedConstraints` : the constraints that are kept.
* `Coexist.isReductionOf` : constraints that coexist are what they reduce to.
-/

namespace TypeAssay

/-- A list with at most one element has no two. -/
theorem eq_of_length_le_one {α : Type} {l : List α} (h : l.length ≤ 1) {a b : α} (ha : a ∈ l)
    (hb : b ∈ l) : a = b := by
  match l, h with
  | [c], _ => rw [List.mem_singleton.mp ha, List.mem_singleton.mp hb]

/-- A list that names each element once has at most one element if all are equal. -/
theorem length_le_one_of_forall_eq {α : Type} {l : List α} (hl : l.Nodup)
    (h : ∀ a ∈ l, ∀ b ∈ l, a = b) : l.length ≤ 1 := by
  match l with
  | [] | [_] => simp
  | a :: b :: rest =>
    have hab := h a (by simp) b (by simp)
    simp [hab] at hl

namespace TypeTable

variable {T U : TypeTable} {i a m n : TypeId} {t : Ty} {ms : List TypeId}

/-! ## The scalar parts of constraints -/

/-- The scalar primitives among some constraints. -/
theorem mem_filterMap_scalar? (hb : T.HasBuiltins) {p : Primitive} :
    p ∈ ms.filterMap T.scalar? ↔ p.id ∈ ms ∧ p ≠ .object := by
  rw [List.mem_filterMap]
  constructor
  · rintro ⟨m, hm, hp⟩
    obtain ⟨hp, hne⟩ := Option.filter_eq_some_iff.mp hp
    obtain rfl := hb.eq_id (get?_of_primitive? hp)
    exact ⟨hm, of_decide_eq_true hne⟩
  · rintro ⟨hm, hne⟩
    exact ⟨p.id, hm, by simp [scalar?, hb.primitive?_id p, hne]⟩

/-- The scalar primitives that count: `void` does not, next to `undefined`. -/
theorem mem_primitives (hb : T.HasBuiltins) {p : Primitive} :
    p ∈ (T.scalars ms).primitives ↔
      (p.id ∈ ms ∧ p ≠ .object) ∧ ¬ (p = .void ∧ TypeId.undefined ∈ ms) := by
  have hundefined : (ms.filterMap T.scalar?).contains .undefined ↔ TypeId.undefined ∈ ms := by
    rw [List.contains_iff_mem, mem_filterMap_scalar? hb]
    simp [Primitive.id]
  rw [scalars]
  by_cases hu : TypeId.undefined ∈ ms
  · simp only [hundefined.mpr hu, if_true, List.mem_filter, mem_filterMap_scalar? hb]
    simp [hu]
  · rw [if_neg (mt hundefined.mp hu), mem_filterMap_scalar? hb]
    simp [hu]

/-- What is seen to be a literal has it as its node. -/
theorem literal?_eq_some_iff {l : Literal} :
    T.literal? a = some l ↔ T.get? a = some (.literal l) := by
  rw [literal?]
  cases T.get? a with
  | none => simp
  | some t => cases t <;> simp [Ty.literal?]

/-- The literals among some constraints. -/
theorem mem_literals {l : Literal} :
    l ∈ (T.scalars ms).literals ↔ ∃ m ∈ ms, T.get? m = some (.literal l) := by
  simp only [scalars, List.mem_filterMap, literal?_eq_some_iff]

/-- Whether `object` is among the constraints. -/
theorem hasObject_iff (hb : T.HasBuiltins) :
    (T.scalars ms).hasObject ↔ TypeId.object ∈ ms := by
  simp only [scalars, List.any_eq_true, beq_iff_eq]
  constructor
  · rintro ⟨m, hm, hp⟩
    obtain rfl := hb.eq_id (get?_of_primitive? hp)
    exact hm
  · exact fun h => ⟨_, h, hb.primitive?_id .object⟩

/-- Whether a structured type is among the constraints. -/
theorem hasStructure_iff : (T.scalars ms).hasStructure ↔ ∃ m ∈ ms, T.isStructured m := by
  simp [scalars]

/-- At most one scalar of a kind, a literal only next to its own primitive, nothing next to
`object`, and nothing nullish next to a structured type. -/
structure Scalars.Compatible (c : Scalars) : Prop where
  primitives : ∀ p ∈ c.primitives, ∀ q ∈ c.primitives, p = q
  literals : ∀ l ∈ c.literals, ∀ l' ∈ c.literals, l = l'
  widened : ∀ l ∈ c.literals, ∀ p ∈ c.primitives, l.base? = some p
  object_alone : c.hasObject → c.primitives = [] ∧ c.literals = []
  structured : c.hasStructure → ∀ p ∈ c.primitives, p.isNullish = false

/-- There is no conflict just if the scalar parts are compatible; none of them is counted twice. -/
theorem Scalars.conflict_eq_false_iff {c : Scalars} (hp : c.primitives.Nodup)
    (hl : c.literals.Nodup) : c.conflict = false ↔ c.Compatible := by
  simp only [Scalars.conflict, Bool.or_eq_false_iff, decide_eq_false_iff_not, Nat.not_lt,
    List.any_eq_false, List.any_eq_true, decide_eq_true_eq, not_exists, not_and, not_not,
    Bool.and_eq_false_imp, Bool.not_eq_false', List.isEmpty_iff, Bool.not_eq_true]
  constructor
  · rintro ⟨⟨⟨⟨hps, hls⟩, hw⟩, ho⟩, hs⟩
    exact ⟨fun p hp q hq => eq_of_length_le_one hps hp hq,
      fun l hl l' hl' => eq_of_length_le_one hls hl hl', hw, ho, hs⟩
  · rintro ⟨hps, hls, hw, ho, hs⟩
    exact ⟨⟨⟨⟨length_le_one_of_forall_eq hp hps, length_le_one_of_forall_eq hl hls⟩, hw⟩, ho⟩, hs⟩

/-- Constraints without repetitions have no primitive twice. -/
theorem nodup_primitives (hms : ms.Nodup) : (T.scalars ms).primitives.Nodup := by
  have hnodup : (ms.filterMap T.scalar?).Nodup := by
    refine hms.filterMap fun a b p ha hb => ?_
    exact get?_injective (get?_of_primitive? (Option.filter_eq_some_iff.mp ha).1)
      (get?_of_primitive? (Option.filter_eq_some_iff.mp hb).1)
  rw [scalars]
  split
  · exact hnodup.filter _
  · exact hnodup

/-- Constraints without repetitions have no literal twice. -/
theorem nodup_literals (hms : ms.Nodup) : (T.scalars ms).literals.Nodup :=
  hms.filterMap fun _ _ _ ha hb =>
    get?_injective (literal?_eq_some_iff.mp ha) (literal?_eq_some_iff.mp hb)

/-- The scalar parts of old constraints stay the same. -/
theorem Grows.scalars_eq (h : Grows T U) (hms : ∀ m ∈ ms, m < T.size) :
    U.scalars ms = T.scalars ms := by
  have hscalar : ms.filterMap U.scalar? = ms.filterMap T.scalar? :=
    List.filterMap_congr fun m hm => h.scalar?_eq (hms m hm)
  have hliteral : ms.filterMap U.literal? = ms.filterMap T.literal? :=
    List.filterMap_congr fun m hm => h.literal?_eq (hms m hm)
  have hobject : ms.any (fun i => U.primitive? i == some .object) =
      ms.any fun i => T.primitive? i == some .object :=
    any_eq_of_forall_mem fun m hm => by rw [h.primitive?_eq (hms m hm)]
  have hstructure : ms.any U.isStructured = ms.any T.isStructured :=
    any_eq_of_forall_mem fun m hm => h.isStructured_eq (hms m hm)
  rw [scalars, scalars, hscalar, hliteral, hobject, hstructure]

/-! ## The constraints that are kept -/

/-- A constraint is kept unless it is `void` next to `undefined` or a primitive next to its
literal. -/
theorem mem_reducedConstraints (hb : T.HasBuiltins) :
    m ∈ T.reducedConstraints ms ↔ (m ∈ ms ∧ ¬ (m = TypeId.void ∧ TypeId.undefined ∈ ms)) ∧
      ¬ ((T.scalars ms).literals ≠ [] ∧ ∃ p ∈ (T.scalars ms).primitives, p.id = m) := by
  have hcontains : ∀ p : Primitive, p ≠ .object →
      ((ms.filterMap T.scalar?).contains p ↔ p.id ∈ ms) := fun p hp => by
    rw [List.contains_iff_mem, mem_filterMap_scalar? hb, and_iff_left hp]
  have hu := hcontains .undefined (by decide)
  have hw := hcontains .void (by decide)
  -- `void` goes if `undefined` is there, whatever else is
  have hvoid : ∀ k : TypeId, k ∈ (if (ms.filterMap T.scalar?).contains .undefined &&
      (ms.filterMap T.scalar?).contains .void then ms.filter (· ≠ TypeId.void) else ms) ↔
      k ∈ ms ∧ ¬ (k = TypeId.void ∧ TypeId.undefined ∈ ms) := by
    intro k
    split
    · rename_i h
      have hundefined : TypeId.undefined ∈ ms := hu.mp (Bool.and_eq_true_iff.mp h).1
      simp [hundefined]
    · rename_i h
      refine (and_iff_left_of_imp fun hk => ?_).symm
      rintro ⟨rfl, hundefined⟩
      exact h (Bool.and_eq_true_iff.mpr ⟨hu.mpr hundefined, hw.mpr hk⟩)
  rw [reducedConstraints]
  split
  · rename_i h
    rw [hvoid]
    refine (and_iff_left ?_).symm
    rintro ⟨hl, p, hp, -⟩
    rcases Bool.or_eq_true_iff.mp h with h | h
    · exact hl (List.isEmpty_iff.mp h)
    · rw [List.isEmpty_iff.mp h] at hp
      exact absurd hp List.not_mem_nil
  · rename_i h
    simp only [Bool.or_eq_true, List.isEmpty_iff, not_or] at h
    rw [List.mem_filter, hvoid]
    simp [h.1]

/-- Constraints are dropped, and the others stay in order. -/
theorem reducedConstraints_sublist : (T.reducedConstraints ms).Sublist ms := by
  have hvoid : (if (ms.filterMap T.scalar?).contains .undefined &&
      (ms.filterMap T.scalar?).contains .void then ms.filter (· ≠ TypeId.void) else ms).Sublist
        ms := by
    split
    · exact List.filter_sublist
    · exact List.Sublist.refl _
  rw [reducedConstraints]
  split
  · exact hvoid
  · exact List.filter_sublist.trans hvoid

/-- A scalar primitive that is kept is one that counts, and no literal is next to it. -/
theorem mem_primitives_of_kept (hb : T.HasBuiltins) {p : Primitive}
    (hm : p.id ∈ T.reducedConstraints ms) (hp : p ≠ .object) :
    p ∈ (T.scalars ms).primitives ∧ (T.scalars ms).literals = [] := by
  obtain ⟨⟨hmem, hvoid⟩, hrefined⟩ := (mem_reducedConstraints hb).mp hm
  have hcounts : p ∈ (T.scalars ms).primitives := by
    refine (mem_primitives hb).mpr ⟨⟨hmem, hp⟩, ?_⟩
    rintro ⟨rfl, hu⟩
    exact hvoid ⟨rfl, hu⟩
  refine ⟨hcounts, ?_⟩
  by_contra hl
  exact hrefined ⟨hl, p, hcounts, rfl⟩

/-- A scalar is a primitive other than `object`, or a literal. -/
theorem isScalar_cases (hb : T.HasBuiltins) (h : T.isScalar m) :
    (∃ p : Primitive, m = p.id ∧ p ≠ .object) ∨ ∃ l, T.get? m = some (.literal l) := by
  rcases Bool.or_eq_true_iff.mp h with h | h
  · obtain ⟨p, hp⟩ := Option.isSome_iff_exists.mp h
    obtain ⟨hp, hne⟩ := Option.filter_eq_some_iff.mp hp
    exact Or.inl ⟨p, hb.eq_id (get?_of_primitive? hp), of_decide_eq_true hne⟩
  · obtain ⟨l, hl⟩ := Option.isSome_iff_exists.mp h
    exact Or.inr ⟨l, literal?_eq_some_iff.mp hl⟩

/-- What is kept of compatible constraints is a canonical intersection. -/
theorem canonicalIntersection_reducedConstraints (hb : T.HasBuiltins)
    (hms : ∀ m ∈ ms, ∃ t, T.get? m = some t ∧ t.isConstraint) (hasc : ms.Pairwise (· < ·))
    (hc : (T.scalars ms).Compatible) (htwo : 2 ≤ (T.reducedConstraints ms).length) :
    T.CanonicalIntersection (T.reducedConstraints ms) := by
  have hsub : T.reducedConstraints ms ⊆ ms := reducedConstraints_sublist.subset
  refine ⟨htwo, hasc.sublist reducedConstraints_sublist, fun m hm => hms m (hsub hm),
    fun a ha b hb' hsa hsb => ?_, fun ho m hm => Bool.eq_false_iff.mpr fun hs => ?_,
    fun m hm hs p hp hpm => ?_⟩
  · -- two scalars are both primitives or both literals, since a literal replaces its primitive
    rcases isScalar_cases hb hsa with ⟨p, rfl, hp⟩ | ⟨l, hl⟩ <;>
      rcases isScalar_cases hb hsb with ⟨q, rfl, hq⟩ | ⟨l', hl'⟩
    · rw [hc.primitives p (mem_primitives_of_kept hb ha hp).1 q
        (mem_primitives_of_kept hb hb' hq).1]
    · have := mem_literals.mpr ⟨b, hsub hb', hl'⟩
      rw [(mem_primitives_of_kept hb ha hp).2] at this
      exact absurd this List.not_mem_nil
    · have := mem_literals.mpr ⟨a, hsub ha, hl⟩
      rw [(mem_primitives_of_kept hb hb' hq).2] at this
      exact absurd this List.not_mem_nil
    · have := hc.literals l (mem_literals.mpr ⟨a, hsub ha, hl⟩) l'
        (mem_literals.mpr ⟨b, hsub hb', hl'⟩)
      exact get?_injective hl (this ▸ hl')
  · -- no scalar is next to `object`
    obtain ⟨hprims, hlits⟩ := hc.object_alone ((hasObject_iff hb).mpr (hsub ho))
    rcases isScalar_cases hb hs with ⟨p, rfl, hp⟩ | ⟨l, hl⟩
    · have := (mem_primitives_of_kept hb hm hp).1
      rw [hprims] at this
      exact absurd this List.not_mem_nil
    · have := mem_literals.mpr ⟨m, hsub hm, hl⟩
      rw [hlits] at this
      exact absurd this List.not_mem_nil
  · -- nothing nullish is next to a structured type
    have hne : p ≠ .object := by
      rintro rfl
      exact absurd hp (by decide)
    have := hc.structured (hasStructure_iff.mpr ⟨m, hsub hm, hs⟩) p
      (mem_primitives_of_kept hb hpm hne).1
    rw [this] at hp
    exact absurd hp (by decide)

/-- The constraints that are kept stay the same in later tables. -/
theorem Grows.reducedConstraints_eq (h : Grows T U) (hms : ∀ m ∈ ms, m < T.size) :
    U.reducedConstraints ms = T.reducedConstraints ms := by
  have hscalar : ms.filterMap U.scalar? = ms.filterMap T.scalar? :=
    List.filterMap_congr fun m hm => h.scalar?_eq (hms m hm)
  rw [reducedConstraints, reducedConstraints, h.scalars_eq hms, hscalar]

/-! ## Constraints that are all kept -/

/-- The primitives other than `object` are scalars. -/
theorem HasBuiltins.isScalar_id (hb : T.HasBuiltins) {p : Primitive} (hp : p ≠ .object) :
    T.isScalar p.id := by
  simp [isScalar, scalar?, hb.primitive?_id p, hp]

/-- Literals are scalars. -/
theorem isScalar_of_literal {l : Literal} (h : T.get? i = some (.literal l)) : T.isScalar i := by
  simp [isScalar, literal?_eq_some_iff.mpr h]

/-- Constraints that do not rule each other out and of which none makes another redundant. -/
structure Coexist (T : TypeTable) (ms : List TypeId) : Prop where
  one_scalar : ∀ a ∈ ms, ∀ b ∈ ms, T.isScalar a → T.isScalar b → a = b
  object_alone : TypeId.object ∈ ms → ∀ m ∈ ms, T.isScalar m = false
  structured : ∀ m ∈ ms, T.isStructured m → ∀ p : Primitive, p.isNullish → p.id ∉ ms

/-- The members of a canonical intersection coexist. -/
theorem CanonicalIntersection.coexist (h : T.CanonicalIntersection ms) : T.Coexist ms :=
  ⟨h.one_scalar, h.object_alone, h.structured⟩

/-- A single constraint has nobody to be in conflict with. -/
theorem coexist_singleton (hb : T.HasBuiltins) (i : TypeId) : T.Coexist [i] := by
  refine ⟨fun a ha b hb' _ _ => ?_, fun ho m hm => ?_, fun m hm hs p hp hpi => ?_⟩
  · rw [List.mem_singleton.mp ha, List.mem_singleton.mp hb']
  · obtain rfl := List.mem_singleton.mp hm
    obtain rfl := List.mem_singleton.mp ho
    have hobject : T.get? TypeId.object = some (.primitive .object) := hb.primitive .object
    simp [isScalar, scalar?, primitive?, literal?, hobject, Ty.primitive?, Ty.literal?]
  · obtain rfl := List.mem_singleton.mp hm
    obtain rfl := List.mem_singleton.mp hpi
    rw [isStructured, hb.primitive p] at hs
    cases p <;> simp_all [Primitive.isNullish]

namespace Coexist

variable (h : T.Coexist ms) (hb : T.HasBuiltins)

include h hb

/-- Constraints that coexist are compatible. -/
theorem compatible : (T.scalars ms).Compatible := by
  have hprim : ∀ p ∈ (T.scalars ms).primitives, p.id ∈ ms ∧ T.isScalar p.id := fun p hp =>
    have hp' := ((mem_primitives hb).mp hp).1
    ⟨hp'.1, hb.isScalar_id hp'.2⟩
  have hlit : ∀ l ∈ (T.scalars ms).literals, ∃ m ∈ ms, T.get? m = some (.literal l) :=
    fun l hl => mem_literals.mp hl
  refine ⟨fun p hp q hq => ?_, fun l hl l' hl' => ?_, fun l hl p hp => ?_, fun ho => ⟨?_, ?_⟩,
    fun hs p hp => ?_⟩
  · exact hb.primitive_injective
      (h.one_scalar _ (hprim p hp).1 _ (hprim q hq).1 (hprim p hp).2 (hprim q hq).2)
  · obtain ⟨m, hm, hget⟩ := hlit l hl
    obtain ⟨m', hm', hget'⟩ := hlit l' hl'
    obtain rfl := h.one_scalar m hm m' hm' (isScalar_of_literal hget) (isScalar_of_literal hget')
    exact Ty.literal.inj (Option.some.inj (hget.symm.trans hget'))
  · -- a literal and a primitive are two scalars
    obtain ⟨m, hm, hget⟩ := hlit l hl
    obtain rfl := h.one_scalar m hm _ (hprim p hp).1 (isScalar_of_literal hget) (hprim p hp).2
    exact absurd (hget.symm.trans (hb.primitive p)) (by simp)
  · refine List.eq_nil_iff_forall_not_mem.mpr fun p hp => ?_
    have := h.object_alone ((hasObject_iff hb).mp ho) _ (hprim p hp).1
    rw [(hprim p hp).2] at this
    exact absurd this (by decide)
  · refine List.eq_nil_iff_forall_not_mem.mpr fun l hl => ?_
    obtain ⟨m, hm, hget⟩ := hlit l hl
    have := h.object_alone ((hasObject_iff hb).mp ho) m hm
    rw [isScalar_of_literal hget] at this
    exact absurd this (by decide)
  · obtain ⟨m, hm, hstructured⟩ := hasStructure_iff.mp hs
    refine Bool.eq_false_iff.mpr fun hnullish => ?_
    exact h.structured m hm hstructured p hnullish (hprim p hp).1

/-- Constraints that coexist are not in conflict. -/
theorem conflict_eq_false (hms : ms.Nodup) : (T.scalars ms).conflict = false :=
  (Scalars.conflict_eq_false_iff (nodup_primitives hms) (nodup_literals hms)).mpr (h.compatible hb)

/-- Constraints that coexist are all kept. -/
theorem reducedConstraints_eq (hasc : ms.Pairwise (· < ·)) : T.reducedConstraints ms = ms := by
  have hkept : (T.reducedConstraints ms).Pairwise (· < ·) :=
    hasc.sublist reducedConstraints_sublist
  refine hkept.eq_of_mem_iff hasc fun m => ?_
  rw [mem_reducedConstraints hb]
  refine ⟨fun hm => hm.1.1, fun hm => ⟨⟨hm, ?_⟩, ?_⟩⟩
  · -- `void` and `undefined` are two scalars, which do not coexist
    rintro ⟨rfl, hu⟩
    have := h.one_scalar _ hm _ hu (hb.isScalar_id (p := .void) (by decide))
      (hb.isScalar_id (p := .undefined) (by decide))
    exact absurd this (by decide)
  · -- so are a literal and the primitive that it would replace
    rintro ⟨hl, p, hp, rfl⟩
    obtain ⟨l, hl⟩ := List.exists_mem_of_ne_nil _ hl
    obtain ⟨m, hm', hget⟩ := mem_literals.mp hl
    obtain rfl := h.one_scalar m hm' _ hm (isScalar_of_literal hget)
      (hb.isScalar_id ((mem_primitives hb).mp hp).1.2)
    exact absurd (hget.symm.trans (hb.primitive p)) (by simp)

end Coexist

/-! ## The last step of an intersection -/

/-- The constraints that a type makes: none for `unknown`, the members of an intersection. -/
def demands (T : TypeTable) (i : TypeId) : List TypeId :=
  match T.get? i with
  | some .unknown => []
  | some (.intersection ms) => ms
  | _ => [i]

/-- An old type makes the same constraints. -/
theorem Grows.demands_eq (h : Grows T U) (hi : i < T.size) : U.demands i = T.demands i := by
  rw [demands, demands, h.get?_eq hi]

/-- An intersection makes its members as constraints. -/
theorem demands_of_get?_intersection (h : T.get? n = some (.intersection ms)) :
    T.demands n = ms := by
  rw [demands, h]

/-- A single constraint makes itself. -/
theorem demands_of_isConstraint (ht : T.get? i = some t) (hcon : t.isConstraint) :
    T.demands i = [i] := by
  rw [demands, ht]
  cases t <;> first | rfl | exact absurd hcon Bool.false_ne_true

/-- `n` is the canonical intersection of the constraints `ms`, which are neither unions nor
intersections. -/
def IsReductionOf (T : TypeTable) (ms : List TypeId) (n : TypeId) : Prop :=
  if (T.scalars ms).conflict then n = TypeId.never else T.demands n = T.reducedConstraints ms

/-- What constraints reduce to stays the same in later tables. -/
theorem IsReductionOf.grows (h : T.IsReductionOf ms n) (hTU : Grows T U)
    (hms : ∀ m ∈ ms, m < T.size) (hn : n < T.size) : U.IsReductionOf ms n := by
  rw [IsReductionOf] at h ⊢
  rwa [hTU.scalars_eq hms, hTU.reducedConstraints_eq hms, hTU.demands_eq hn]

/-- An intersection of constraints other than `any` is not `any`. -/
theorem IsReductionOf.ne_any (h : T.IsReductionOf ms n) (hb : T.HasBuiltins)
    (hany : TypeId.any ∉ ms) : n ≠ TypeId.any := by
  rintro rfl
  rw [IsReductionOf] at h
  split at h
  · exact absurd h (by decide)
  · have hdemands : T.demands TypeId.any = [TypeId.any] := by rw [demands, hb.any]
    rw [hdemands] at h
    exact hany (reducedConstraints_sublist.subset (h ▸ List.mem_cons_self))

/-- Constraints that coexist are what they reduce to. -/
theorem Coexist.isReductionOf (h : T.Coexist ms) (hb : T.HasBuiltins)
    (hasc : ms.Pairwise (· < ·)) (hn : T.demands n = ms) : T.IsReductionOf ms n := by
  rw [IsReductionOf, h.conflict_eq_false hb hasc.nodup, if_neg (by decide), hn,
    h.reducedConstraints_eq hb hasc]

end TypeTable

open TypeTable

variable {T : TypeTable} {ms : List TypeId}

/-- What the last step of an intersection interns and answers. -/
theorem run_reduceConstraints (T : TypeTable) (ms : List TypeId) :
    (reduceConstraints ms).run T =
      if (T.scalars ms).conflict then (TypeId.never, T)
      else
        match T.reducedConstraints ms with
        | [] => (TypeId.unknown, T)
        | [i] => (i, T)
        | kept => T.intern (.intersection kept) := by
  simp only [reduceConstraints, StateT.run_bind, StateT.run_get, pure_bind]
  split
  · rfl
  rcases T.reducedConstraints ms with _ | ⟨i, _ | ⟨j, rest⟩⟩ <;> rfl

/-- The intersection of constraints without unions is canonical, and it is their intersection in the
table that it leaves behind. -/
theorem reduceConstraints_isReductionOf (hb : T.HasBuiltins) (h : ∀ m ∈ ms, T.Canonical m)
    (hms : ∀ m ∈ ms, ∃ t, T.get? m = some t ∧ t.isConstraint) (hasc : ms.Pairwise (· < ·)) :
    (reduceConstraints ms).Yields T fun n U => U.Canonical n ∧ U.IsReductionOf ms n := by
  have hlt : ∀ m ∈ ms, m < T.size := fun m hm => (h m hm).lt_size
  rw [Interning.Yields, run_reduceConstraints]
  by_cases hconflict : (T.scalars ms).conflict
  · simp only [if_pos hconflict, IsReductionOf]
    exact ⟨.refl, hb.canonical_never, trivial⟩
  simp only [if_neg hconflict]
  -- it is enough to know which constraints the result makes
  have hdone : ∀ n U, Grows T U → U.demands n = T.reducedConstraints ms →
      U.IsReductionOf ms n := by
    intro n U hTU hdemands
    rw [IsReductionOf, hTU.scalars_eq hlt, if_neg hconflict, hdemands,
      hTU.reducedConstraints_eq hlt]
  have hcompatible : (T.scalars ms).Compatible :=
    (Scalars.conflict_eq_false_iff (nodup_primitives hasc.nodup)
      (nodup_literals hasc.nodup)).mp (Bool.eq_false_iff.mpr hconflict)
  have hnode := canonicalIntersection_reducedConstraints hb hms hasc hcompatible
  have hsub : T.reducedConstraints ms ⊆ ms := reducedConstraints_sublist.subset
  -- no constraint is left, or one, or enough for an intersection
  rcases hkept : T.reducedConstraints ms with _ | ⟨i, _ | ⟨j, rest⟩⟩ <;>
    rw [hkept] at hdone hsub hnode
  · exact ⟨.refl, hb.canonical_unknown, hdone _ _ .refl (by simp [demands, hb.unknown])⟩
  · have hi := hsub List.mem_cons_self
    obtain ⟨t, ht, hcon⟩ := hms i hi
    exact ⟨.refl, h i hi, hdone _ _ .refl (demands_of_isConstraint ht hcon)⟩
  · have hparts : ∀ a ∈ (Ty.intersection (i :: j :: rest)).parts, T.Canonical a := fun a ha =>
      h a (hsub ha)
    have hnode : T.CanonicalNode (.intersection (i :: j :: rest)) := hnode (by simp)
    exact ⟨.intern .refl hnode hparts, canonical_intern hnode hparts,
      hdone _ _ (grows_intern T _) (demands_of_get?_intersection (get?_intern_fst T _))⟩

end TypeAssay
