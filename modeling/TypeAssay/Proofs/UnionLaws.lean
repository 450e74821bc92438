import TypeAssay.Proofs.Branches
import TypeAssay.Proofs.Replays

/-!
# The laws of unions

Unions are a commutative idempotent monoid with two absorbing elements, and not up to equivalence
only: the two sides of each law are one id (`unionOf_laws`). It does not matter when the sides are
built, nor what clients do between the calls, so the laws are stated for a table in which several
unions were `United` at some time before.

What a union consists of is determined by what its members are opened to, `never` aside
(`IsUnionOf.congr`, `IsUnionOf.unique`). A literal next to its primitive can be dropped by the inner
or by the outer of two nested unions; a primitive itself is dropped by none, so all that is folded
away early is folded away in the end (`unionMembers_append_unionMembers`).
-/

namespace TypeAssay

open TypeTable

namespace TypeTable

variable {T U V : TypeTable} {o : Options} {a i j n u : TypeId} {ms xs ys flat flat' : List TypeId}

/-! ## What is kept -/

/-- Primitives are no literals, so they are always kept. -/
theorem id_mem_unionMembers_iff (hb : T.HasBuiltins) (p : Primitive) :
    p.id ∈ T.unionMembers flat ↔ p.id ∈ flat := by
  rw [mem_unionMembers hb]
  refine and_iff_left ⟨by cases p <;> decide, fun q hq => ?_⟩
  obtain ⟨l, hl, -⟩ := exists_get?_of_literalBase? hq
  exact absurd hl (hb.get?_id_ne_literal p l)

/-- What is kept depends on which types there are, `never` aside, and not on their order or
number. -/
theorem unionMembers_congr (hb : T.HasBuiltins)
    (h : ∀ a, a ≠ TypeId.never → (a ∈ flat ↔ a ∈ flat')) :
    T.unionMembers flat = T.unionMembers flat' := by
  have hid : ∀ p : Primitive, p.id ∈ flat ↔ p.id ∈ flat' := fun p => h _ (by cases p <;> decide)
  apply (pairwise_ascending _).eq_of_mem_iff (pairwise_ascending _)
  intro a
  rw [← unionMembers, ← unionMembers, mem_unionMembers hb, mem_unionMembers hb]
  simp only [hid]
  constructor
  · rintro ⟨ha, hnever, hfold⟩
    exact ⟨(h a hnever).mp ha, hnever, hfold⟩
  · rintro ⟨ha, hnever, hfold⟩
    exact ⟨(h a hnever).mpr ha, hnever, hfold⟩

/-- Dropping members early drops no more than dropping them once all are there. -/
theorem unionMembers_append_unionMembers (hb : T.HasBuiltins) :
    T.unionMembers (T.unionMembers flat ++ flat') = T.unionMembers (flat ++ flat') := by
  have hid : ∀ p : Primitive, p.id ∈ T.unionMembers flat ++ flat' ↔ p.id ∈ flat ++ flat' :=
    fun p => by rw [List.mem_append, List.mem_append, id_mem_unionMembers_iff hb]
  apply (pairwise_ascending _).eq_of_mem_iff (pairwise_ascending _)
  intro a
  rw [← unionMembers, ← unionMembers, mem_unionMembers hb, mem_unionMembers hb]
  simp only [hid]
  apply and_congr_left
  rintro ⟨hnever, hfold⟩
  -- what the whole union does not fold, its first part does not fold, either
  have hkept : a ∈ T.unionMembers flat ↔ a ∈ flat := by
    rw [mem_unionMembers hb]
    exact and_iff_left ⟨hnever, fun p hp hmem => hfold p hp (List.mem_append_left flat' hmem)⟩
  rw [List.mem_append, List.mem_append, hkept]

/-- The alternatives of a type are its subjects, but for `never`, which has itself and no
subject. -/
theorem mem_alternatives_iff_mem_subjects (hb : T.HasBuiltins) (hnever : a ≠ TypeId.never) :
    a ∈ T.alternatives i ↔ a ∈ T.subjects i := by
  by_cases hi : i = TypeId.never
  · subst hi
    rw [subjects_never hb, TypeTable.alternatives, hb.never, List.mem_singleton]
    exact iff_of_false hnever List.not_mem_nil
  · rw [subjects_eq_alternatives hb hi]

/-! ## Unions of the same members -/

/-- Members with the same absorbing types among them, and of which the same is kept. -/
theorem IsUnionOf.of_kept (h : T.IsUnionOf xs n)
    (hany : TypeId.any ∈ xs.flatMap T.alternatives ↔ TypeId.any ∈ ys.flatMap T.alternatives)
    (hunknown : TypeId.unknown ∈ xs.flatMap T.alternatives ↔
      TypeId.unknown ∈ ys.flatMap T.alternatives)
    (hkept : T.unionMembers (xs.flatMap T.alternatives) =
      T.unionMembers (ys.flatMap T.alternatives)) : T.IsUnionOf ys n := by
  unfold IsUnionOf at h ⊢
  simpa only [← hany, ← hunknown, ← hkept] using h

/-- The union depends on the alternatives of the members, up to `never`. -/
theorem IsUnionOf.congr (h : T.IsUnionOf xs n) (hb : T.HasBuiltins)
    (hflat : ∀ a, a ≠ TypeId.never →
      (a ∈ xs.flatMap T.alternatives ↔ a ∈ ys.flatMap T.alternatives)) : T.IsUnionOf ys n :=
  h.of_kept (hflat _ (by decide)) (hflat _ (by decide)) (unionMembers_congr hb hflat)

/-- A union among the members of another one may be opened. -/
theorem IsUnionOf.flatten (hu : T.IsUnionOf xs u) (h : T.IsUnionOf (u :: ys) n)
    (hb : T.HasBuiltins) : T.IsUnionOf (xs ++ ys) n := by
  have houter : (u :: ys).flatMap T.alternatives =
      T.alternatives u ++ ys.flatMap T.alternatives := List.flatMap_cons
  have hflat : (xs ++ ys).flatMap T.alternatives =
      xs.flatMap T.alternatives ++ ys.flatMap T.alternatives := List.flatMap_append
  -- `any`, and then `unknown`, absorb the inner union and with it the outer one
  by_cases hany : TypeId.any ∈ xs.flatMap T.alternatives
  · rw [IsUnionOf, if_pos hany] at hu
    rw [IsUnionOf, houter, if_pos (by simp [hu, alternatives, hb.any])] at h
    rwa [IsUnionOf, hflat, if_pos (List.mem_append_left _ hany)]
  by_cases hunknown : TypeId.unknown ∈ xs.flatMap T.alternatives
  · rw [IsUnionOf, if_neg hany, if_pos hunknown] at hu
    have hopen : T.alternatives u = [TypeId.unknown] := by rw [hu, alternatives, hb.unknown]
    rw [IsUnionOf, houter, hopen] at h
    by_cases hlater : TypeId.any ∈ ys.flatMap T.alternatives
    · rw [if_pos (List.mem_append_right _ hlater)] at h
      rwa [IsUnionOf, hflat, if_pos (List.mem_append_right _ hlater)]
    · rw [if_neg (by simp [hlater]), if_pos (by simp)] at h
      rwa [IsUnionOf, hflat, if_neg (by simp [hany, hlater]),
        if_pos (List.mem_append_left _ hunknown)]
  -- otherwise the inner union is opened to what it kept
  rw [IsUnionOf, if_neg hany, if_neg hunknown] at hu
  have hopen : ∀ a, a ≠ TypeId.never → (a ∈ T.alternatives u ++ ys.flatMap T.alternatives ↔
      a ∈ T.unionMembers (xs.flatMap T.alternatives) ++ ys.flatMap T.alternatives) := by
    intro a ha
    rw [List.mem_append, List.mem_append, mem_alternatives_iff_mem_subjects hb ha, hu]
  have habsorbing : ∀ a, a ≠ TypeId.never → a ∉ xs.flatMap T.alternatives →
      (a ∈ (u :: ys).flatMap T.alternatives ↔ a ∈ (xs ++ ys).flatMap T.alternatives) := by
    intro a ha hnot
    rw [houter, hflat, hopen a ha, List.mem_append, List.mem_append, mem_unionMembers hb]
    exact or_congr_left (iff_of_false (fun hmem => hnot hmem.1) hnot)
  apply h.of_kept (habsorbing _ (by decide) hany) (habsorbing _ (by decide) hunknown)
  rw [houter, hflat, unionMembers_congr hb hopen, unionMembers_append_unionMembers hb]

/-- The union of nothing is `never`. -/
theorem IsUnionOf.eq_never (h : T.IsUnionOf [] i) (hT : T.Tidy) : i = TypeId.never :=
  hT.subjects_eq_nil_iff.mp h

/-- A type with one of the members among its alternatives. -/
theorem mem_flatMap_alternatives_self (hm : a ∈ ms) (hunion : T.isUnion a = false) :
    a ∈ ms.flatMap T.alternatives :=
  List.mem_flatMap.mpr ⟨a, hm, by simp [alternatives_of_not_union hunion]⟩

/-- A union with `any` is `any`. -/
theorem IsUnionOf.eq_any (h : T.IsUnionOf ms i) (hb : T.HasBuiltins) (hany : TypeId.any ∈ ms) :
    i = TypeId.any := by
  have hself : T.isUnion TypeId.any = false := by rw [isUnion, hb.any]; rfl
  have hopen := mem_flatMap_alternatives_self hany hself
  rwa [IsUnionOf, if_pos hopen] at h

/-- A union with `unknown` is `unknown`, unless it has `any`. -/
theorem IsUnionOf.eq_unknown (h : T.IsUnionOf ms i) (hb : T.HasBuiltins)
    (hms : ∀ m ∈ ms, T.Canonical m) (hany : TypeId.any ∉ ms) (hunknown : TypeId.unknown ∈ ms) :
    i = TypeId.unknown := by
  have hnone := mt (any_mem_of_mem_alternatives hb hms) hany
  have hself : T.isUnion TypeId.unknown = false := by rw [isUnion, hb.unknown]; rfl
  have hopen := mem_flatMap_alternatives_self hunknown hself
  rwa [IsUnionOf, if_neg hnone, if_pos hopen] at h

/-! ## Unions that clients asked for -/

/-- On the way from a new table to `V`, clients asked for the union of `ms` and were given `i`. -/
def United (o : Options) (V : TypeTable) (ms : List TypeId) (i : TypeId) : Prop :=
  ∃ T U, Runs (withOptions o) T ∧ (∀ m ∈ ms, m < T.size) ∧ (unionOf ms).run T = (i, U) ∧ Runs U V

/-- An answer stays the union of its members. -/
theorem United.isUnionOf (h : V.United o ms i) :
    V.Tidy ∧ (∀ m ∈ ms, V.Canonical m) ∧ V.Canonical i ∧ V.IsUnionOf ms i := by
  obtain ⟨T, U, hT, hms, hi, hUV⟩ := h
  have htidy := hT.tidy
  have hms' : ∀ m ∈ ms, T.Canonical m := fun m hm => htidy.canonical (hms m hm)
  obtain ⟨hbuilds, hcanonical, hunion⟩ := unionOf_isUnionOf htidy.hasBuiltins hms'
  rw [hi] at hbuilds hcanonical hunion
  have hU := hbuilds.tidy htidy
  have hlater := hUV.builds hU
  have hmsU : ∀ m ∈ ms, U.Canonical m := fun m hm => hbuilds.canonical (hms' m hm)
  exact ⟨hlater.tidy hU, fun m hm => hlater.canonical (hmsU m hm), hlater.canonical hcanonical,
    hunion.grows hlater.grows hmsU hcanonical.lt_size⟩

/-- Unions whose members are opened to the same types, `never` aside, are one type. -/
theorem United.eq_of_mem_iff (hi : V.United o xs i) (hj : V.United o ys j)
    (hflat : ∀ a, a ≠ TypeId.never →
      (a ∈ xs.flatMap V.alternatives ↔ a ∈ ys.flatMap V.alternatives)) : i = j := by
  obtain ⟨hV, -, hic, hi⟩ := hi.isUnionOf
  obtain ⟨-, hys, hjc, hj⟩ := hj.isUnionOf
  exact (hi.congr hV.hasBuiltins hflat).unique hj hV.hasBuiltins hys hic hjc

end TypeTable

/-! ## The laws -/

/-- Unions are a commutative idempotent monoid with absorption, whenever they are asked for: a union
among the members may be opened; order and repetition do not matter; the union of nothing is
`never`, which changes no union, and the union of one type is that type; `any` absorbs every other
member, and `unknown` all but `any`. -/
theorem unionOf_laws (o : Options) (V : TypeTable) :
    (∀ xs ys u i j, V.United o xs u → V.United o (u :: ys) i → V.United o (xs ++ ys) j → i = j) ∧
      (∀ xs ys i j, (∀ m, m ∈ xs ↔ m ∈ ys) → V.United o xs i → V.United o ys j → i = j) ∧
      (∀ i, V.United o [] i → i = TypeId.never) ∧
      (∀ x i, V.United o [x] i → i = x) ∧
      (∀ xs ys i j, V.United o (xs ++ TypeId.never :: ys) i → V.United o (xs ++ ys) j → i = j) ∧
      (∀ xs i, V.United o xs i → TypeId.any ∈ xs → i = TypeId.any) ∧
      (∀ xs i, V.United o xs i → TypeId.any ∉ xs → TypeId.unknown ∈ xs → i = TypeId.unknown) := by
  -- each law is one about what a union is, since both calls answer that
  refine ⟨?grouping, ?membership, ?empty, ?single, ?neutral, ?any, ?unknown⟩
  case grouping =>
    intro xs ys u i j hu hi hj
    obtain ⟨hV, -, -, hu⟩ := hu.isUnionOf
    obtain ⟨-, -, hic, hi⟩ := hi.isUnionOf
    obtain ⟨-, hms, hjc, hj⟩ := hj.isUnionOf
    exact (hu.flatten hi hV.hasBuiltins).unique hj hV.hasBuiltins hms hic hjc
  case membership =>
    intro xs ys i j hmem hi hj
    refine hi.eq_of_mem_iff hj fun a _ => ?_
    simp only [List.mem_flatMap, hmem]
  case empty =>
    intro i hi
    obtain ⟨hV, -, -, hi⟩ := hi.isUnionOf
    exact hi.eq_never hV
  case single =>
    intro x i hi
    obtain ⟨hV, hxs, hic, hi⟩ := hi.isUnionOf
    exact hi.eq_of_singleton hV.hasBuiltins (hxs x (List.mem_singleton_self x)) hic
  case neutral =>
    intro xs ys i j hi hj
    have hnever : V.alternatives TypeId.never = [TypeId.never] := by
      rw [alternatives, hi.isUnionOf.1.hasBuiltins.never]
    refine hi.eq_of_mem_iff hj fun a ha => ?_
    simp [hnever, ha]
  case any =>
    intro xs i hi hany
    obtain ⟨hV, -, -, hi⟩ := hi.isUnionOf
    exact hi.eq_any hV.hasBuiltins hany
  case unknown =>
    intro xs i hi hany hunknown
    obtain ⟨hV, hxs, -, hi⟩ := hi.isUnionOf
    exact hi.eq_unknown hV.hasBuiltins hxs hany hunknown

/-! ### Tagged strings -/

/-- A union that the table of tagged strings knows is found. -/
theorem united_tagsTable {ms : List TypeId} {n : TypeId} (hms : ∀ m ∈ ms, m < (tagsTable 8).size)
    (hn : n < (tagsTable 8).size) (h : (tagsTable 8).IsUnionOf ms n) :
    (tagsTable 8).United {} ms n := by
  have hT := runs_tagsTable.tidy
  exact ⟨_, _, runs_tagsTable, hms, h.run_unionOf hT.hasBuiltins (hT.canonical hn), .refl⟩

/-- The strings with one of two tags, those with both added: built from a union of the first two and
at once, in another order with some of them twice, and with `never`; the first union alone; `any`
and `unknown` among them. -/
theorem unionOf_laws_tagsTable :
    (tagsTable 8).United {} [17, 18] 19 ∧ (tagsTable 8).United {} [19, 20] 21 ∧
      (tagsTable 8).United {} ([17, 18] ++ [20]) 21 ∧
      (tagsTable 8).United {} [20, 18, 17, 18] 21 ∧
      (∀ j, (tagsTable 8).United {} ([17, 18] ++ [20]) j → 21 = j) ∧
      (∀ j, (tagsTable 8).United {} [20, 18, 17, 18] j → 21 = j) ∧
      (∀ j, (tagsTable 8).United {} [19] j → j = 19) ∧
      (∀ j, (tagsTable 8).United {} ([17, 18] ++ TypeId.never :: [20]) j → j = 21) ∧
      (∀ j, (tagsTable 8).United {} [19, TypeId.unknown, TypeId.any] j → j = TypeId.any) ∧
      (∀ j, (tagsTable 8).United {} [19, TypeId.unknown] j → j = TypeId.unknown) := by
  have hinner : (tagsTable 8).United {} [17, 18] 19 :=
    united_tagsTable (by decide) (by decide) (by decide)
  have hnested : (tagsTable 8).United {} [19, 20] 21 :=
    united_tagsTable (by decide) (by decide) (by decide)
  have hflat : (tagsTable 8).United {} ([17, 18] ++ [20]) 21 :=
    united_tagsTable (by decide) (by decide) (by decide)
  have hturned : (tagsTable 8).United {} [20, 18, 17, 18] 21 :=
    united_tagsTable (by decide) (by decide) (by decide)
  obtain ⟨hgrouping, hmembership, -, hsingle, hneutral, hany, hunknown⟩ :=
    unionOf_laws {} (tagsTable 8)
  refine ⟨hinner, hnested, hflat, hturned, fun j hj => hgrouping _ _ _ _ _ hinner hnested hj,
    fun j hj => hmembership _ _ _ _ (fun m => ?_) hflat hj, fun j hj => hsingle _ _ hj,
    fun j hj => hneutral _ _ _ _ hj hflat, fun j hj => hany _ _ hj (by decide),
    fun j hj => hunknown _ _ hj (by decide) (by decide)⟩
  simp only [List.cons_append, List.nil_append, List.mem_cons, List.not_mem_nil, or_false]
  tauto

end TypeAssay
