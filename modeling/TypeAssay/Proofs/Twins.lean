import Mathlib.Algebra.BigOperators.Group.List.Basic
import Mathlib.Algebra.Order.BigOperators.GroupWithZero.List
import Mathlib.Algebra.Order.Ring.Nat
import TypeAssay.Proofs.Intersections
import TypeAssay.Proofs.Trees

/-!
# The same type in two tables

Two tables that were filled in different orders hold the same type under different ids: its
`Twins`. Members are sorted by id, so the members of twins come in different orders, and so do the
choices of an intersection. What is built from them is not affected: unions of twins are twins
(`IsUnionOf.twins`), intersections of twins are twins (`IsIntersectionOf.twins`), and an
intersection is refused in one table if it is in the other (`IsRefused.of_same`).

All of this rests on one fact: no type has two twins, so twins can take each other's place in a list
of members (`mem_iff_of_twins`).
-/

namespace TypeAssay

namespace TypeTable

variable {T U V W : TypeTable} {i j k l m n a b : TypeId} {t u : Ty}
  {ms ns xs ys flat flat' c : List TypeId} {node : List TypeId → Ty}

/-! ## Twins -/

/-- Canonical types of two tables that unfold to the same tree. -/
structure Twins (T U : TypeTable) (i j : TypeId) : Prop where
  left : T.Canonical i
  right : U.Canonical j
  similar : Similar .sets T U i j

/-- Twins are twins of each other. -/
theorem Twins.symm (h : Twins T U i j) : Twins U T j i := ⟨h.right, h.left, h.similar.symm⟩

/-- Twins stay twins in later tables. -/
theorem Twins.grows (h : Twins T U i j) (hTV : Grows T V) (hUW : Grows U W) : Twins V W i j :=
  ⟨hTV.canonical h.left, hUW.canonical h.right, h.similar.grows hTV hUW⟩

/-- No type has two twins. -/
theorem Twins.right_unique (h : Twins T U i j) (h' : Twins T U i k) : j = k :=
  h.similar.eq_of_canonical h'.similar h.right h'.right

/-- No type is the twin of two. -/
theorem Twins.left_unique (h : Twins T U i j) (h' : Twins T U k j) : i = k :=
  h.symm.right_unique h'.symm

/-- Types are equal exactly if their twins are. -/
theorem Twins.eq_iff (h : Twins T U i j) (h' : Twins T U k l) : i = k ↔ j = l := by
  constructor
  · rintro rfl
    exact h.right_unique h'
  · rintro rfl
    exact h.left_unique h'

/-- A type is among some types exactly if its twin is among their twins. -/
theorem mem_iff_of_twins (h : SameElements (Twins T U) ms ns) (hij : Twins T U i j) :
    i ∈ ms ↔ j ∈ ns := by
  constructor
  · intro hi
    obtain ⟨k, hk, hik⟩ := h.left i hi
    exact hij.right_unique hik ▸ hk
  · intro hj
    obtain ⟨k, hk, hkj⟩ := h.right j hj
    exact hij.left_unique hkj ▸ hk

/-- Twins have nodes that match, and their parts are twins. -/
theorem twins_iff (ht : T.get? i = some t) (hu : U.get? j = some u) (hi : T.Canonical i)
    (hj : U.Canonical j) : Twins T U i j ↔ t.Matches .sets (Twins T U) u := by
  constructor
  · intro h
    obtain ⟨u', hu', h⟩ := (similar_iff ht).mp h.similar
    obtain rfl := Option.some.inj (hu.symm.trans hu')
    exact h.mono fun a ha b hb hab => ⟨hi.part ht ha, hj.part hu hb, hab⟩
  · exact fun h => ⟨hi, hj, .node _ (fun a b hab => hab.similar) ht hu h⟩

/-- Twins have nodes, and these match. -/
theorem Twins.exists_nodes (h : Twins T U i j) :
    ∃ t u, T.get? i = some t ∧ U.get? j = some u ∧ t.Matches .sets (Twins T U) u := by
  obtain ⟨t, ht⟩ := exists_get?_of_lt_size h.left.lt_size
  obtain ⟨u, hu⟩ := exists_get?_of_lt_size h.right.lt_size
  exact ⟨t, u, ht, hu, (twins_iff ht hu h.left h.right).mp h⟩

/-- A type that has the same canonical node without parts in both tables is its own twin. -/
theorem twins_of_leaf (ht : T.get? i = some t) (hu : U.get? j = some t) (hp : t.parts = [])
    (hi : T.Canonical i) (hj : U.Canonical j) : Twins T U i j :=
  have hself : t.Matches .exact (Twins T U) t :=
    Ty.matches_self fun _ hk => absurd (hp ▸ hk) List.not_mem_nil
  (twins_iff ht hu hi hj).mpr hself.of_exact

/-- The type `any` is its own twin. -/
theorem twins_any (hT : T.HasBuiltins) (hU : U.HasBuiltins) : Twins T U TypeId.any TypeId.any :=
  twins_of_leaf hT.any hU.any rfl hT.canonical_any hU.canonical_any

/-- The type `never` is its own twin. -/
theorem twins_never (hT : T.HasBuiltins) (hU : U.HasBuiltins) :
    Twins T U TypeId.never TypeId.never :=
  twins_of_leaf hT.never hU.never rfl hT.canonical_never hU.canonical_never

/-- The type `unknown` is its own twin. -/
theorem twins_unknown (hT : T.HasBuiltins) (hU : U.HasBuiltins) :
    Twins T U TypeId.unknown TypeId.unknown :=
  twins_of_leaf hT.unknown hU.unknown rfl hT.canonical_unknown hU.canonical_unknown

/-- A primitive is its own twin. -/
theorem twins_primitive (hT : T.HasBuiltins) (hU : U.HasBuiltins) (p : Primitive) :
    Twins T U p.id p.id :=
  twins_of_leaf (hT.primitive p) (hU.primitive p) rfl (hT.canonical_primitive p)
    (hU.canonical_primitive p)

/-! ### What twins have in common -/

/-- Twins are the same literal, or none. -/
theorem Twins.literal?_eq (h : Twins T U i j) : T.literal? i = U.literal? j := by
  obtain ⟨t, u, ht, hu, h⟩ := h.exists_nodes
  rw [literal?, literal?, ht, hu]
  cases t <;> cases u <;> simp_all [Ty.Matches, Ty.literal?]

/-- Twins are both unions, or neither is. -/
theorem Twins.isUnion_eq (h : Twins T U i j) : T.isUnion i = U.isUnion j := by
  obtain ⟨t, u, ht, hu, h⟩ := h.exists_nodes
  rw [isUnion, isUnion, ht, hu]
  cases t <;> cases u <;> simp_all [Ty.Matches, Ty.isUnion]

/-- Twins are both structured, or neither is. -/
theorem Twins.isStructured_eq (h : Twins T U i j) : T.isStructured i = U.isStructured j := by
  obtain ⟨t, u, ht, hu, h⟩ := h.exists_nodes
  rw [isStructured, isStructured, ht, hu]
  cases t <;> cases u <;> simp_all [Ty.Matches]

/-- The alternatives of twins are twins. -/
theorem Twins.alternatives (h : Twins T U i j) :
    SameElements (Twins T U) (T.alternatives i) (U.alternatives j) := by
  obtain ⟨t, u, ht, hu, hm⟩ := h.exists_nodes
  rw [TypeTable.alternatives, TypeTable.alternatives, ht, hu]
  cases t <;> cases u <;> first | exact hm.elim | exact .of_forall₂ (.cons h .nil) | exact hm

/-- The constraints of twins are twins. -/
theorem Twins.constraints (h : Twins T U i j) :
    SameElements (Twins T U) (T.constraints i) (U.constraints j) := by
  obtain ⟨t, u, ht, hu, hm⟩ := h.exists_nodes
  rw [TypeTable.constraints, TypeTable.constraints, ht, hu]
  cases t <;> cases u <;> first | exact hm.elim | exact .of_forall₂ (.cons h .nil) | exact hm

/-! ## Types that consist of twins -/

/-- Read from the other table, twins are twins. -/
theorem same_symm (h : SameElements (Twins T U) xs ys) : SameElements (Twins U T) ys xs :=
  h.symm.mono fun _ _ _ _ hab => hab.symm

/-- Types that have twins are canonical, and their twins are. -/
theorem canonical_of_same (h : SameElements (Twins T U) xs ys) :
    (∀ x ∈ xs, T.Canonical x) ∧ ∀ y ∈ ys, U.Canonical y := by
  refine ⟨fun x hx => ?_, fun y hy => ?_⟩
  · obtain ⟨y, -, hxy⟩ := h.left x hx
    exact hxy.left
  · obtain ⟨x, -, hxy⟩ := h.right y hy
    exact hxy.right

/-- Twins stay when the same of them are kept. -/
theorem same_of_subset (h : SameElements (Twins T U) ms ns) (hxs : xs ⊆ ms) (hys : ys ⊆ ns)
    (hiff : ∀ a b, Twins T U a b → (a ∈ xs ↔ b ∈ ys)) : SameElements (Twins T U) xs ys := by
  refine ⟨fun a ha => ?_, fun b hb => ?_⟩
  · obtain ⟨b, -, hab⟩ := h.left a (hxs ha)
    exact ⟨b, (hiff a b hab).mp ha, hab⟩
  · obtain ⟨a, -, hab⟩ := h.right b (hys hb)
    exact ⟨a, (hiff a b hab).mpr hb, hab⟩

/-- Several types are not all twins of one. -/
theorem length_le_one_of_same (hxs : xs.Nodup) (h : SameElements (Twins T U) xs [n]) :
    xs.length ≤ 1 := by
  refine length_le_one_of_forall_eq hxs fun a ha b hb => ?_
  obtain ⟨a', ha', haa'⟩ := h.left a ha
  obtain ⟨b', hb', hbb'⟩ := h.left b hb
  rw [List.mem_singleton.mp ha'] at haa'
  rw [List.mem_singleton.mp hb'] at hbb'
  exact haa'.left_unique hbb'

/-- What a type consists of, if several of them form a node together and none of them is the
type `unit`. -/
def Expands (T : TypeTable) (unit : TypeId) (node : List TypeId → Ty) (i : TypeId)
    (xs : List TypeId) : Prop :=
  (xs = [] ∧ i = unit) ∨ xs = [i] ∨ (2 ≤ xs.length ∧ xs.Nodup ∧ T.get? i = some (node xs))

/-- A canonical type consists of its subjects as a union. -/
theorem Canonical.expands_subjects (hb : T.HasBuiltins) (h : T.Canonical i) :
    T.Expands TypeId.never .union i (T.subjects i) := by
  rw [subjects]
  split
  · rename_i hget
    exact Or.inl ⟨rfl, get?_injective hget hb.never⟩
  · rename_i ms hget
    have hms : T.CanonicalUnion ms := h.canonicalNode hget
    exact Or.inr (Or.inr ⟨hms.two_le, hms.ascending.nodup, hget⟩)
  · exact Or.inr (Or.inl rfl)

/-- A canonical type consists of the constraints that it makes as an intersection. -/
theorem Canonical.expands_demands (hb : T.HasBuiltins) (h : T.Canonical i) :
    T.Expands TypeId.unknown .intersection i (T.demands i) := by
  rw [demands]
  split
  · rename_i hget
    exact Or.inl ⟨rfl, get?_injective hget hb.unknown⟩
  · rename_i ms hget
    have hms : T.CanonicalIntersection ms := h.canonicalNode hget
    exact Or.inr (Or.inr ⟨hms.two_le, hms.ascending.nodup, hget⟩)
  · exact Or.inr (Or.inl rfl)

/-- Types that consist of twins are twins. -/
theorem twins_of_expands {unit : TypeId} (hunit : Twins T U unit unit)
    (hnode : ∀ {xs ys}, SameElements (Twins T U) xs ys →
      (node xs).Matches .sets (Twins T U) (node ys))
    (hm : T.Canonical m) (hn : U.Canonical n) (hx : T.Expands unit node m xs)
    (hy : U.Expands unit node n ys) (h : SameElements (Twins T U) xs ys) : Twins T U m n := by
  have hempty : xs = [] ↔ ys = [] := by
    constructor
    · rintro rfl
      refine List.eq_nil_iff_forall_not_mem.mpr fun b hb => ?_
      obtain ⟨a, ha, -⟩ := h.right b hb
      exact absurd ha List.not_mem_nil
    · rintro rfl
      refine List.eq_nil_iff_forall_not_mem.mpr fun a ha => ?_
      obtain ⟨b, hb, -⟩ := h.left a ha
      exact absurd hb List.not_mem_nil
  -- a type that consists of nothing is the unit, one that consists of one type is that type
  rcases hx with ⟨rfl, rfl⟩ | rfl | ⟨htwo, hnodup, hget⟩
  · obtain rfl := hempty.mp rfl
    rcases hy with ⟨-, rfl⟩ | hy | ⟨hy, -⟩
    · exact hunit
    · exact absurd hy (by simp)
    · exact absurd hy (by simp)
  · rcases hy with ⟨hy, -⟩ | rfl | ⟨htwo, hnodup, -⟩
    · exact absurd (hempty.mpr hy) (by simp)
    · obtain ⟨b, hb, hmb⟩ := h.left m List.mem_cons_self
      exact List.mem_singleton.mp hb ▸ hmb
    · exact absurd (length_le_one_of_same hnodup (same_symm h)) (by omega)
  · rcases hy with ⟨hy, -⟩ | rfl | ⟨-, -, hget'⟩
    · rw [hempty.mpr hy] at htwo
      exact absurd htwo (by decide)
    · exact absurd (length_le_one_of_same hnodup h) (by omega)
    · exact (twins_iff hget hget' hm hn).mpr (hnode h)

/-- Types that consist of twins as unions are twins. -/
theorem twins_of_subjects (hT : T.HasBuiltins) (hU : U.HasBuiltins) (hm : T.Canonical m)
    (hn : U.Canonical n) (h : SameElements (Twins T U) (T.subjects m) (U.subjects n)) :
    Twins T U m n :=
  twins_of_expands (twins_never hT hU) id hm hn (hm.expands_subjects hT) (hn.expands_subjects hU) h

/-- Types that consist of twins as intersections are twins. -/
theorem twins_of_demands (hT : T.HasBuiltins) (hU : U.HasBuiltins) (hm : T.Canonical m)
    (hn : U.Canonical n) (h : SameElements (Twins T U) (T.demands m) (U.demands n)) :
    Twins T U m n :=
  twins_of_expands (twins_unknown hT hU) id hm hn (hm.expands_demands hT) (hn.expands_demands hU) h

/-! ## Unions of twins -/

/-- Twins widen to the same primitive. -/
theorem Twins.literalBase?_eq (h : Twins T U i j) : T.literalBase? i = U.literalBase? j :=
  congrArg (·.bind Literal.base?) h.literal?_eq

/-- Of twins the same are kept in a union. -/
theorem same_unionMembers (hT : T.HasBuiltins) (hU : U.HasBuiltins)
    (h : SameElements (Twins T U) flat flat') :
    SameElements (Twins T U) (T.unionMembers flat) (U.unionMembers flat') := by
  refine same_of_subset h (fun a ha => ((mem_unionMembers hT).mp ha).1)
    (fun b hb => ((mem_unionMembers hU).mp hb).1) fun a b hab => ?_
  rw [mem_unionMembers hT, mem_unionMembers hU, mem_iff_of_twins h hab, Ne, Ne,
    hab.eq_iff (twins_never hT hU), hab.literalBase?_eq]
  simp only [mem_iff_of_twins h (twins_primitive hT hU _)]

/-- Unions of twins are twins. -/
theorem IsUnionOf.twins (hT : T.HasBuiltins) (hU : U.HasBuiltins)
    (hm : T.Canonical m) (hn : U.Canonical n) (hmu : T.IsUnionOf ms m) (hnu : U.IsUnionOf ns n)
    (h : SameElements (Twins T U) ms ns) : Twins T U m n := by
  have hflat : SameElements (Twins T U) (ms.flatMap T.alternatives) (ns.flatMap U.alternatives) :=
    h.flatMap fun _ _ hab => hab.alternatives
  have hany := mem_iff_of_twins hflat (twins_any hT hU)
  have hunknown := mem_iff_of_twins hflat (twins_unknown hT hU)
  rw [IsUnionOf] at hmu hnu
  simp only [← hany, ← hunknown] at hnu
  -- `any` absorbs the members in both tables or in neither, then `unknown`, then the rest counts
  split at hmu
  · rw [if_pos ‹_›] at hnu
    exact hmu ▸ hnu ▸ twins_any hT hU
  rw [if_neg ‹_›] at hnu
  split at hmu
  · rw [if_pos ‹_›] at hnu
    exact hmu ▸ hnu ▸ twins_unknown hT hU
  rw [if_neg ‹_›] at hnu
  exact twins_of_subjects hT hU hm hn (hmu ▸ hnu ▸ same_unionMembers hT hU hflat)

/-! ## Intersections of twins -/

/-- The opened members of twins are twins. -/
theorem same_openedMembers (hT : T.HasBuiltins) (hU : U.HasBuiltins)
    (h : SameElements (Twins T U) ms ns) :
    SameElements (Twins T U) (T.openedMembers ms) (U.openedMembers ns) := by
  have hflat : SameElements (Twins T U) (ms.flatMap T.constraints) (ns.flatMap U.constraints) :=
    h.flatMap fun _ _ hab => hab.constraints
  refine same_of_subset hflat (fun a ha => (mem_openedMembers.mp ha).1)
    (fun b hb => (mem_openedMembers.mp hb).1) fun a b hab => ?_
  rw [mem_openedMembers, mem_openedMembers, mem_iff_of_twins hflat hab, Ne, Ne,
    hab.eq_iff (twins_unknown hT hU)]

/-- Twins have the same literals among their scalar parts. -/
theorem same_literals (h : SameElements (Twins T U) ms ns) (l : Literal) :
    l ∈ (T.scalars ms).literals ↔ l ∈ (U.scalars ns).literals := by
  simp only [mem_literals, ← literal?_eq_some_iff]
  constructor
  · rintro ⟨m, hm, hl⟩
    obtain ⟨n, hn, hmn⟩ := h.left m hm
    exact ⟨n, hn, hmn.literal?_eq ▸ hl⟩
  · rintro ⟨n, hn, hl⟩
    obtain ⟨m, hm, hmn⟩ := h.right n hn
    exact ⟨m, hm, hmn.literal?_eq ▸ hl⟩

/-- Twins have the same primitives among their scalar parts. -/
theorem same_primitives (hT : T.HasBuiltins) (hU : U.HasBuiltins)
    (h : SameElements (Twins T U) ms ns) (p : Primitive) :
    p ∈ (T.scalars ms).primitives ↔ p ∈ (U.scalars ns).primitives := by
  have hundefined : TypeId.undefined ∈ ms ↔ TypeId.undefined ∈ ns :=
    mem_iff_of_twins h (twins_primitive hT hU .undefined)
  rw [mem_primitives hT, mem_primitives hU, mem_iff_of_twins h (twins_primitive hT hU p),
    hundefined]

/-- The twins of constraints that do not rule each other out do not do so either. -/
theorem compatible_of_same (hT : T.HasBuiltins) (hU : U.HasBuiltins)
    (h : SameElements (Twins T U) ms ns) (hc : (T.scalars ms).Compatible) :
    (U.scalars ns).Compatible := by
  have hlits := same_literals h
  have hprims := same_primitives hT hU h
  refine ⟨fun p hp q hq => ?_, fun l hl l' hl' => ?_, fun l hl p hp => ?_, fun ho => ?_,
    fun hs p hp => ?_⟩
  · exact hc.primitives p ((hprims p).mpr hp) q ((hprims q).mpr hq)
  · exact hc.literals l ((hlits l).mpr hl) l' ((hlits l').mpr hl')
  · exact hc.widened l ((hlits l).mpr hl) p ((hprims p).mpr hp)
  · have hobject : (T.scalars ms).hasObject := (hasObject_iff hT).mpr <|
      (mem_iff_of_twins h (twins_primitive hT hU .object)).mpr ((hasObject_iff hU).mp ho)
    obtain ⟨hnoprims, hnolits⟩ := hc.object_alone hobject
    rw [List.eq_nil_iff_forall_not_mem] at hnoprims hnolits ⊢
    rw [List.eq_nil_iff_forall_not_mem]
    exact ⟨fun p hp => hnoprims p ((hprims p).mpr hp), fun l hl => hnolits l ((hlits l).mpr hl)⟩
  · obtain ⟨n, hn, hs⟩ := hasStructure_iff.mp hs
    obtain ⟨m, hm, hmn⟩ := h.right n hn
    have hstructure := hasStructure_iff.mpr ⟨m, hm, hmn.isStructured_eq ▸ hs⟩
    exact hc.structured hstructure p ((hprims p).mpr hp)

/-- Of twins the same constraints are kept. -/
theorem same_reducedConstraints (hT : T.HasBuiltins) (hU : U.HasBuiltins)
    (h : SameElements (Twins T U) ms ns) :
    SameElements (Twins T U) (T.reducedConstraints ms) (U.reducedConstraints ns) := by
  have hlits : (T.scalars ms).literals = [] ↔ (U.scalars ns).literals = [] := by
    simp only [List.eq_nil_iff_forall_not_mem, same_literals h]
  refine same_of_subset h reducedConstraints_sublist.subset reducedConstraints_sublist.subset
    fun a b hab => ?_
  have hid : ∀ p : Primitive, p.id = a ↔ p.id = b := fun p => (twins_primitive hT hU p).eq_iff hab
  have hvoid : a = TypeId.void ↔ b = TypeId.void := hab.eq_iff (twins_primitive hT hU .void)
  have hundefined : TypeId.undefined ∈ ms ↔ TypeId.undefined ∈ ns :=
    mem_iff_of_twins h (twins_primitive hT hU .undefined)
  rw [mem_reducedConstraints hT, mem_reducedConstraints hU, mem_iff_of_twins h hab, hvoid,
    hundefined, Ne, Ne, hlits]
  simp only [same_primitives hT hU h, hid]

/-- Intersections of twins without unions are twins. -/
theorem IsReductionOf.twins (hT : T.HasBuiltins) (hU : U.HasBuiltins) (hms : ms.Nodup)
    (hns : ns.Nodup) (hm : T.Canonical m) (hn : U.Canonical n) (hmr : T.IsReductionOf ms m)
    (hnr : U.IsReductionOf ns n) (h : SameElements (Twins T U) ms ns) : Twins T U m n := by
  have hconflict : (T.scalars ms).conflict = (U.scalars ns).conflict := by
    rw [← Bool.not_inj_iff, Bool.eq_iff_iff, Bool.not_eq_true', Bool.not_eq_true',
      Scalars.conflict_eq_false_iff (nodup_primitives hms) (nodup_literals hms),
      Scalars.conflict_eq_false_iff (nodup_primitives hns) (nodup_literals hns)]
    exact ⟨compatible_of_same hT hU h, compatible_of_same hU hT (same_symm h)⟩
  rw [IsReductionOf] at hmr hnr
  rw [← hconflict] at hnr
  split at hmr
  · rw [if_pos ‹_›] at hnr
    exact hmr ▸ hnr ▸ twins_never hT hU
  rw [if_neg ‹_›] at hnr
  exact twins_of_demands hT hU hm hn (hmr ▸ hnr ▸ same_reducedConstraints hT hU h)

/-! ### Choices among twins -/

/-- A choice of alternatives has a choice of their twins. -/
theorem exists_twin_choice (h : Reordered (Twins T U) xs ys)
    (hc : c ∈ choices (xs.map T.alternatives)) :
    ∃ c' ∈ choices (ys.map U.alternatives), SameElements (Twins T U) c c' := by
  obtain ⟨zs, hzs, hperm⟩ := h
  obtain ⟨c', hc', hcc'⟩ : ∃ c', List.Forall₂ (· ∈ ·) c' (zs.map U.alternatives) ∧
      List.Forall₂ (Twins T U) c c' := by
    rw [mem_choices] at hc
    clear hperm
    -- by induction on the lists, whose elements are twins in order
    induction hzs generalizing c with
    | nil =>
      rw [List.map_nil, List.forall₂_nil_right_iff] at hc
      obtain rfl := hc
      exact ⟨[], .nil, .nil⟩
    | @cons x z xs zs hxz _ ih =>
      obtain ⟨a, tail, ha, htail, rfl⟩ := List.forall₂_cons_right_iff.mp hc
      obtain ⟨b, hb, hab⟩ := hxz.alternatives.left a ha
      obtain ⟨tail', htail', hsame⟩ := ih htail
      exact ⟨b :: tail', .cons hb htail', .cons hab hsame⟩
  -- then the choice is put into the order of the other list
  have hswap : Relation.Comp (List.Forall₂ (· ∈ ·)) List.Perm c' (ys.map U.alternatives) :=
    ⟨_, hc', hperm.map _⟩
  rw [List.forall₂_comp_perm_eq_perm_comp_forall₂] at hswap
  obtain ⟨c'', hperm', hc''⟩ := hswap
  exact ⟨c'', mem_choices.mpr hc'', Reordered.sameElements ⟨c', hcc', hperm'⟩⟩

/-- Twins that are named once each correspond in some order. -/
theorem reordered_of_same (hxs : xs.Nodup) (hys : ys.Nodup) (h : SameElements (Twins T U) xs ys) :
    Reordered (Twins T U) xs ys :=
  .of_sameElements hxs hys h (fun _ _ _ _ _ _ => Twins.right_unique)
    fun _ _ _ _ _ _ => Twins.left_unique

/-- The opened members of twins correspond in some order. -/
theorem reordered_openedMembers (hT : T.HasBuiltins) (hU : U.HasBuiltins)
    (h : SameElements (Twins T U) ms ns) :
    Reordered (Twins T U) (T.openedMembers ms) (U.openedMembers ns) :=
  reordered_of_same nodup_openedMembers nodup_openedMembers (same_openedMembers hT hU h)

/-- Intersections of twins are twins. -/
theorem IsIntersectionOf.twins (hT : T.HasBuiltins) (hU : U.HasBuiltins)
    (hm : T.Canonical m) (hn : U.Canonical n) (hmi : T.IsIntersectionOf ms m)
    (hni : U.IsIntersectionOf ns n) (h : SameElements (Twins T U) ms ns) : Twins T U m n := by
  have hflat : SameElements (Twins T U) (ms.flatMap T.constraints) (ns.flatMap U.constraints) :=
    h.flatMap fun _ _ hab => hab.constraints
  have hnever := mem_iff_of_twins hflat (twins_never hT hU)
  have hany := mem_iff_of_twins hflat (twins_any hT hU)
  rw [IsIntersectionOf] at hmi hni
  simp only [← hany, ← hnever] at hni
  -- `never` absorbs the members in both tables or in neither, then `any`
  split at hmi
  · rw [if_pos ‹_›] at hni
    exact hmi ▸ hni ▸ twins_never hT hU
  rw [if_neg ‹_›] at hni
  split at hmi
  · rw [if_pos ‹_›] at hni
    exact hmi ▸ hni ▸ twins_any hT hU
  rw [if_neg ‹_›] at hni
  obtain ⟨rs, hrs, hmu⟩ := hmi
  obtain ⟨rs', hrs', hnu⟩ := hni
  have hopened := reordered_openedMembers hT hU h
  have hopened' := reordered_openedMembers hU hT (same_symm h)
  -- the results of choices of twins are twins
  have hresult : ∀ {c c' r r'}, SameElements (Twins T U) c c' →
      T.Canonical r ∧ T.IsReductionOf (T.openedMembers c) r →
      U.Canonical r' ∧ U.IsReductionOf (U.openedMembers c') r' → Twins T U r r' :=
    fun hcc' hr hr' => hr.2.twins hT hU nodup_openedMembers nodup_openedMembers hr.1 hr'.1 hr'.2
      (same_openedMembers hT hU hcc')
  refine IsUnionOf.twins hT hU hm hn hmu hnu ⟨fun r hr => ?_, fun r' hr' => ?_⟩
  · obtain ⟨c, hc, hcr⟩ := (SameElements.of_forall₂ hrs).right r hr
    obtain ⟨c', hc', hcc'⟩ := exists_twin_choice hopened hc
    obtain ⟨r', hr', hcr'⟩ := (SameElements.of_forall₂ hrs').left c' hc'
    exact ⟨r', hr', hresult hcc' hcr hcr'⟩
  · obtain ⟨c', hc', hcr'⟩ := (SameElements.of_forall₂ hrs').right r' hr'
    obtain ⟨c, hc, hcc'⟩ := exists_twin_choice hopened' hc'
    obtain ⟨r, hr, hcr⟩ := (SameElements.of_forall₂ hrs).left c hc
    exact ⟨r, hr, hresult (same_symm hcc') hcr hcr'⟩

/-! ### The number of choices -/

/-- The product of lengths that are not zero is counted as long as 64 bits hold it. -/
theorem foldlM_boundedProduct? {lists : List (List TypeId)} (hlists : ∀ l ∈ lists, l ≠ [])
    {n : Nat} (hn : n < UInt64.size) :
    lists.foldlM (fun n options => boundedProduct? n options.length) n =
      if n * (lists.map List.length).prod < UInt64.size then
        some (n * (lists.map List.length).prod)
      else none := by
  induction lists generalizing n with
  | nil => simp [hn]
  | cons l lists ih =>
    obtain ⟨hl, hlists⟩ := List.forall_mem_cons.mp hlists
    have hpos : 0 < (lists.map List.length).prod := by
      refine List.prod_pos fun k hk => ?_
      obtain ⟨l', hl', rfl⟩ := List.mem_map.mp hk
      exact List.length_pos_iff.mpr (hlists l' hl')
    have hassoc : n * (List.map List.length (l :: lists)).prod =
        n * l.length * (lists.map List.length).prod := by
      rw [List.map_cons, List.prod_cons, Nat.mul_assoc]
    rw [List.foldlM_cons, boundedProduct?, hassoc]
    by_cases hlt : n * l.length < UInt64.size
    · rw [if_pos hlt]
      exact ih hlists hlt
    · -- the other lists do not make the number of choices smaller again
      have hge : UInt64.size ≤ n * l.length * (lists.map List.length).prod :=
        Nat.le_trans (Nat.not_lt.mp hlt) (Nat.le_mul_of_pos_right _ hpos)
      rw [if_neg hlt, if_neg (Nat.not_lt.mpr hge)]
      rfl

/-- The number of choices from lists that are not empty is the product of their lengths, as far as
64 bits hold it. -/
theorem choiceCount_eq {lists : List (List TypeId)} (hlists : ∀ l ∈ lists, l ≠ []) :
    choiceCount lists = if (lists.map List.length).prod < UInt64.size then
      (lists.map List.length).prod else UInt64.size - 1 := by
  rw [choiceCount, foldlM_boundedProduct? hlists (by decide), Nat.one_mul]
  split <;> rfl

/-- A canonical type has an alternative. -/
theorem Canonical.alternatives_ne_nil (h : T.Canonical i) : T.alternatives i ≠ [] := by
  rw [TypeTable.alternatives]
  split
  · rename_i ms hget
    have hms : T.CanonicalUnion ms := h.canonicalNode hget
    exact List.ne_nil_of_length_pos (Nat.lt_of_lt_of_le Nat.zero_lt_two hms.two_le)
  · simp

/-- A canonical type has no alternative twice. -/
theorem Canonical.nodup_alternatives (h : T.Canonical i) : (T.alternatives i).Nodup := by
  rw [TypeTable.alternatives]
  split
  · rename_i ms hget
    have hms : T.CanonicalUnion ms := h.canonicalNode hget
    exact hms.ascending.nodup
  · exact List.nodup_singleton _

/-- Twins have the same number of alternatives. -/
theorem Twins.length_alternatives (h : Twins T U i j) :
    (T.alternatives i).length = (U.alternatives j).length :=
  (reordered_of_same h.left.nodup_alternatives h.right.nodup_alternatives h.alternatives).length_eq

/-- Twins leave the same number of choices. -/
theorem choiceCount_eq_of_twins (h : Reordered (Twins T U) xs ys) :
    choiceCount (xs.map T.alternatives) = choiceCount (ys.map U.alternatives) := by
  have hleft : ∀ l ∈ xs.map T.alternatives, l ≠ [] := by
    rw [List.forall_mem_map]
    intro x hx
    obtain ⟨y, -, hxy⟩ := h.sameElements.left x hx
    exact hxy.left.alternatives_ne_nil
  have hright : ∀ l ∈ ys.map U.alternatives, l ≠ [] := by
    rw [List.forall_mem_map]
    intro y hy
    obtain ⟨x, -, hxy⟩ := h.sameElements.right y hy
    exact hxy.right.alternatives_ne_nil
  have hprod : ((xs.map T.alternatives).map List.length).prod =
      ((ys.map U.alternatives).map List.length).prod := by
    obtain ⟨zs, hzs, hperm⟩ := h
    have hlengths : (xs.map T.alternatives).map List.length =
        (zs.map U.alternatives).map List.length := by
      clear hperm hleft hright
      induction hzs with
      | nil => rfl
      | cons hxz _ ih => simp only [List.map_cons, ih, hxz.length_alternatives]
    rw [hlengths]
    exact ((hperm.map _).map _).prod_eq
  rw [choiceCount_eq hleft, choiceCount_eq hright, hprod]

/-- An intersection distributes into as many choices as its twin. -/
theorem choiceSize_eq_of_same (hT : T.HasBuiltins) (hU : U.HasBuiltins)
    (h : SameElements (Twins T U) ms ns) : T.choiceSize ms = U.choiceSize ns :=
  choiceCount_eq_of_twins (reordered_openedMembers hT hU h)

/-- An intersection distributes where its twin does. -/
theorem Distributes.of_same (hT : T.HasBuiltins) (hU : U.HasBuiltins)
    (h : SameElements (Twins T U) ms ns) (hd : T.Distributes ms) : U.Distributes ns := by
  have hflat : SameElements (Twins T U) (ms.flatMap T.constraints) (ns.flatMap U.constraints) :=
    h.flatMap fun _ _ hab => hab.constraints
  have hopened := reordered_openedMembers hT hU h
  obtain ⟨a, ha, hunion⟩ := hd.union
  obtain ⟨b, hb, hab⟩ := hopened.sameElements.left a ha
  exact {
    unabsorbed :=
      ⟨mt (mem_iff_of_twins hflat (twins_never hT hU)).mpr hd.unabsorbed.never,
        mt (mem_iff_of_twins hflat (twins_any hT hU)).mpr hd.unabsorbed.any⟩
    two_le := hopened.length_eq ▸ hd.two_le
    union := ⟨b, hb, hab.isUnion_eq ▸ hunion⟩ }

/-- An intersection is refused where its twin is, for the same reason. -/
theorem IsRefused.of_same {e : TypeError} (hT : T.HasBuiltins) (hU : U.HasBuiltins)
    (hoptions : T.options = U.options) (h : SameElements (Twins T U) ms ns)
    (hrefused : T.IsRefused ms e) : U.IsRefused ns e :=
  ⟨hrefused.1.of_same hT hU h, by
    rw [← hoptions, ← choiceSize_eq_of_same hT hU h]
    exact hrefused.2⟩

end TypeTable

end TypeAssay
