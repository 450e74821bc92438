import TypeAssay.Proofs.Assertions
import TypeAssay.Proofs.Branches

/-!
# Mutual comparison

`simpleEqual` takes each alternative of one type and asks whether it and the whole other type are
assignable to each other. It is no equality (`simpleEqual_and_equal`): it reaches no branch for
`never`, which equals itself, and both branches where the alternatives disagree, and it takes types
for equal that offer the same members in different ways. What is equal reaches the true branch. The
answer yes means that the types are assignable to each other, and between types of one alternative
each it means nothing else.
-/

namespace TypeAssay

open TypeTable Building

variable {T U : TypeTable} {o : Options} {a b m s : TypeId}

namespace Outcome

/-- What reaches the false branch reaches one. -/
theorem union_no_ne_never (r : Outcome) : r.union .no ≠ .never := by
  cases r
  simp [union, no, never]

/-- One outcome is its own union. -/
theorem unionAll_singleton (r : Outcome) : unionAll [r] = r := by
  cases r
  simp [unionAll, union, never]

end Outcome

namespace TypeTable

/-! ## `never` -/

/-- No question is put to `never`. -/
theorem Tidy.never_not_mem_subjects (hT : T.Tidy) : TypeId.never ∉ T.subjects a := by
  intro hmem
  rw [TypeTable.subjects] at hmem
  split at hmem
  · exact List.not_mem_nil hmem
  · rename_i ms hget
    have hms : T.CanonicalUnion ms := hT.canonicalNode a _ hget
    exact hms.not_mem hT.hasBuiltins.never rfl hmem
  · rename_i hnever _
    exact hnever (List.mem_singleton.mp hmem ▸ hT.hasBuiltins.never)

/-- Evaluations that each reach a branch, one for each alternative, reach none together only for
`never`. -/
theorem Tidy.unionAll_subjects_eq_never_iff {f : TypeId → Outcome} (hT : T.Tidy)
    (hf : ∀ s ∈ T.subjects a, f s ≠ .never) :
    Outcome.unionAll ((T.subjects a).map f) = .never ↔ a = TypeId.never := by
  rw [Outcome.unionAll_eq_never_iff (List.forall_mem_map.mpr hf), List.map_eq_nil_iff,
    hT.subjects_eq_nil_iff]

/-- Only for `never` no branch is taken. -/
theorem Tidy.extendsType_eq_never_iff (hT : T.Tidy) :
    T.extendsType a b = .never ↔ a = TypeId.never :=
  hT.unionAll_subjects_eq_never_iff fun s _ => extendsAlternative_ne_never s b

/-! ## One alternative -/

/-- Any alternative but `any` is compared with the whole of the other type, in both directions. -/
theorem HasBuiltins.simpleEqualAlternative_eq (hb : T.HasBuiltins) (hany : s ≠ TypeId.any) :
    T.simpleEqualAlternative b s = if T.assignable s b then T.extendsType b s else .no := by
  have hnot : ((T.get? s).any Ty.isAny && !T.isTop b) = false := by
    rw [Bool.eq_false_iff.mpr (mt hb.any_isAny_iff.mp hany), Bool.false_and]
  rw [simpleEqualAlternative, hnot, if_neg Bool.false_ne_true]

/-- Each alternative reaches a branch. -/
theorem Tidy.simpleEqualAlternative_ne_never (hT : T.Tidy) (hs : s ∈ T.subjects a) :
    T.simpleEqualAlternative b s ≠ .never := by
  rw [simpleEqualAlternative]
  split
  · exact Outcome.union_no_ne_never _
  split
  · rename_i hfits
    rw [Ne, hT.extendsType_eq_never_iff]
    -- what fits `never` is `never`, which is no alternative
    rintro rfl
    exact hT.never_not_mem_subjects (hT.assignable_never_iff.mp hfits ▸ hs)
  · decide

/-- An alternative reaches the true branch alone exactly if it and the other type fit each other. -/
theorem Tidy.simpleEqualAlternative_reachesFalse_iff (hT : T.Tidy) (hs : s ∈ T.subjects a)
    (hsany : s ≠ TypeId.any) (hany : b ≠ TypeId.any) :
    (T.simpleEqualAlternative b s).reachesFalse = false ↔ T.assignable s b ∧ T.assignable b s := by
  rw [hT.hasBuiltins.simpleEqualAlternative_eq hsany]
  by_cases hfits : T.assignable s b
  · have hnever : b ≠ TypeId.never := by
      rintro rfl
      exact hT.never_not_mem_subjects (hT.assignable_never_iff.mp hfits ▸ hs)
    rw [if_pos hfits, and_iff_right hfits, ← Bool.not_eq_true,
      hT.extendsType_reachesFalse_iff hnever hany, Bool.not_eq_false]
  · rw [if_neg hfits]
    exact iff_of_false (by decide) fun h => hfits h.1

/-! ## All alternatives -/

/-- The subjects of a type are its alternatives, but for `never`. -/
theorem Tidy.mem_subjects_iff (hT : T.Tidy) (hnever : a ≠ TypeId.never) :
    m ∈ T.subjects a ↔ m ∈ T.alternatives a := by
  rw [subjects_eq_alternatives hT.hasBuiltins hnever]

/-- What fits an alternative fits the type. -/
theorem Tidy.assignable_of_mem_alternatives (hT : T.Tidy) (hany : b ≠ TypeId.any)
    (hm : m ∈ T.alternatives a) (h : T.assignable b m) : T.assignable b a := by
  rcases eq_or_lt_size_of_assignable h with rfl | ⟨hb, hlt⟩
  · exact (hT.assignable_iff_all_alternatives a a).mp (assignable_self a) b hm
  rw [alternatives] at hm
  split at hm
  · rename_i ms hget
    rw [hT.assignable_iff_subjects hb (lt_size_of_get? hget)]
    intro s hs
    have hsm := (hT.assignable_iff_subjects hb hlt).mp h s hs
    exact ((hT.reading_of_mem_subjects hb hany hs).union a ms hget).mpr ⟨m, hm, hsm⟩
  · exact List.mem_singleton.mp hm ▸ h

/-- A type is compared with itself: it reaches the true branch. -/
theorem Tidy.simpleEqual_self_reachesTrue (hT : T.Tidy) (hnever : a ≠ TypeId.never) :
    (T.simpleEqual a a).reachesTrue := by
  have hb := hT.hasBuiltins
  by_cases hany : a = TypeId.any
  · subst hany
    have hsubjects : T.subjects TypeId.any = [TypeId.any] := by rw [TypeTable.subjects, hb.any]
    have htop : T.isTop TypeId.any := hb.isTop_iff.mpr (Or.inl rfl)
    rw [simpleEqual, hsubjects, List.map_singleton, simpleEqualAlternative, htop, Bool.not_true,
      Bool.and_false, if_neg Bool.false_ne_true, if_pos (assignable_self _), hb.extendsType_any]
    rfl
  · obtain ⟨m, hm⟩ := List.exists_mem_of_ne_nil _ (hT.alternatives_ne_nil a)
    have hfits := (hT.assignable_iff_all_alternatives a a).mp (assignable_self a) m hm
    -- the alternative fits the type, and of the type at least the alternative itself fits it
    have htrue := (hT.extendsType_reachesTrue_iff (b := m) hnever hany).mpr
      ⟨m, hm, assignable_self m⟩
    rw [simpleEqual, Outcome.reachesTrue_unionAll, List.any_map, List.any_eq_true]
    refine ⟨m, (hT.mem_subjects_iff hnever).mpr hm, ?_⟩
    rw [Function.comp_apply,
      hb.simpleEqualAlternative_eq (hT.ne_any_of_mem_alternatives hany hm), if_pos hfits]
    exact htrue

/-- Where no alternative reaches the false branch, the types fit each other. -/
theorem Tidy.assignable_of_simpleEqual_eq_yes (hT : T.Tidy) (hany : a ≠ TypeId.any)
    (hbany : b ≠ TypeId.any) (h : T.simpleEqual a b = .yes) :
    T.assignable a b ∧ T.assignable b a := by
  have hnever : a ≠ TypeId.never := by
    rintro rfl
    rw [simpleEqual, subjects_never hT.hasBuiltins] at h
    exact absurd (show Outcome.never = .yes from h) (by decide)
  have hboth : ∀ m ∈ T.alternatives a, T.assignable m b ∧ T.assignable b m := by
    intro m hm
    have hs := (hT.mem_subjects_iff hnever).mpr hm
    have hfalse := Outcome.reachesFalse_unionAll ((T.subjects a).map (T.simpleEqualAlternative b))
    rw [← simpleEqual, h, List.any_map, eq_comm] at hfalse
    have hm' := hT.ne_any_of_mem_alternatives hany hm
    refine (hT.simpleEqualAlternative_reachesFalse_iff hs hm' hbany).mp ?_
    exact Bool.eq_false_iff.mpr (List.any_eq_false.mp hfalse m hs)
  obtain ⟨m, hm⟩ := List.exists_mem_of_ne_nil _ (hT.alternatives_ne_nil a)
  exact ⟨(hT.assignable_iff_all_alternatives a b).mpr fun m hm => (hboth m hm).1,
    hT.assignable_of_mem_alternatives hbany hm (hboth m hm).2⟩

/-- A type of one alternative is asked about as a whole. -/
theorem HasBuiltins.subjects_of_not_union (hb : T.HasBuiltins) (hnever : a ≠ TypeId.never)
    (hunion : T.isUnion a = false) : T.subjects a = [a] := by
  rw [subjects_eq_alternatives hb hnever, alternatives_of_not_union hunion]

/-- Between types of one alternative each the answer is whether they fit each other. -/
theorem HasBuiltins.simpleEqual_of_not_union (hb : T.HasBuiltins) (hnever : a ≠ TypeId.never)
    (hany : a ≠ TypeId.any) (hunion : T.isUnion a = false) (hbnever : b ≠ TypeId.never)
    (hbany : b ≠ TypeId.any) (hbunion : T.isUnion b = false) :
    T.simpleEqual a b = .ofBool (T.assignable a b && T.assignable b a) := by
  rw [simpleEqual, hb.subjects_of_not_union hnever hunion, List.map_singleton,
    Outcome.unionAll_singleton, hb.simpleEqualAlternative_eq hany, extendsType,
    hb.subjects_of_not_union hbnever hbunion, List.map_singleton, Outcome.unionAll_singleton,
    hb.extendsAlternative_eq hbany]
  cases T.assignable a b <;> rfl

end TypeTable

/-! ## Mutual comparison and equality -/

/-- An id of no type is its own normal form. -/
theorem on_normalize_of_size_le (h : T.size ≤ a) : (normalize a).on T = (.ok a, T) := by
  obtain ⟨depth, hdepth⟩ := T.exists_levelBound_eq
  rw [normalize, on_get_bind, hdepth, normalizeWithin, on_get_bind, get?_eq_none_iff.mpr h]
  rfl

/-- In a tidy table equality is identity of ids, whether or not these name types. -/
theorem TypeTable.Tidy.on_equal (hT : T.Tidy) (a b : TypeId) :
    (equal a b).on T = (.ok (.ofBool (a = b)), T) := by
  have hnormal : ∀ i, (normalize i).on T = (.ok i, T) := by
    intro i
    rcases Nat.lt_or_ge i T.size with hi | hi
    · exact on_normalize hT.hasBuiltins (hT.canonical hi)
    · exact on_normalize_of_size_le hi
  exact on_equal_ok (hnormal a) (hnormal b)

/-- What a mutual comparison has in common with equality. It reaches no branch exactly for `never`.
Equal types other than `never` reach the true branch. Between types other than `any` it answers yes
only if they are assignable to each other. Between types that are neither unions nor `never` nor
`any` its answer is strict, and yes exactly if they are assignable to each other. -/
theorem simpleEqual_and_equal (hT : Runs (withOptions o) T) (a b : TypeId) :
    (T.simpleEqual a b = .never ↔ a = TypeId.never) ∧
      (∀ U, (equal a b).on T = (.ok .yes, U) → a ≠ TypeId.never →
        (U.simpleEqual a b).reachesTrue) ∧
      (a ≠ TypeId.any → b ≠ TypeId.any → T.simpleEqual a b = .yes →
        T.assignable a b ∧ T.assignable b a) ∧
      (a ≠ TypeId.never → a ≠ TypeId.any → T.isUnion a = false →
        b ≠ TypeId.never → b ≠ TypeId.any → T.isUnion b = false →
          (T.simpleEqual a b).isStrict ∧
            (T.simpleEqual a b = .yes ↔ T.assignable a b ∧ T.assignable b a)) := by
  have htidy := hT.tidy
  refine ⟨?_, fun U hequal hnever => ?_, fun hany hbany h => ?_,
    fun hnever hany hunion hbnever hbany hbunion => ?_⟩
  · exact htidy.unionAll_subjects_eq_never_iff fun s hs => htidy.simpleEqualAlternative_ne_never hs
  · rw [htidy.on_equal, Prod.mk.injEq, Except.ok.injEq] at hequal
    obtain ⟨hsame, rfl⟩ := hequal
    obtain rfl : a = b := by
      by_contra hne
      rw [decide_eq_false hne] at hsame
      exact absurd hsame (by decide)
    exact htidy.simpleEqual_self_reachesTrue hnever
  · exact htidy.assignable_of_simpleEqual_eq_yes hany hbany h
  · rw [htidy.hasBuiltins.simpleEqual_of_not_union hnever hany hunion hbnever hbany hbunion,
      Outcome.ofBool_eq_yes_iff, Bool.and_eq_true]
    exact ⟨Outcome.isStrict_ofBool _, Iff.rfl⟩

/-! ## Members offered together and apart -/

/-- Two shapes, the shape of the members of both, and the intersection of the two. -/
def mergings : Listing where
  nodes := [.object [{ name := "a", type := TypeId.number }],
    .object [{ name := "b", type := TypeId.number }],
    .object [{ name := "a", type := TypeId.number }, { name := "b", type := TypeId.number }],
    .intersection [14, 15]]
  fresh := by decide
  nodup := by decide

/-- Clients can build the table. -/
theorem runs_mergings (count : Nat) : Runs (withOptions {}) (mergings.table count) := by
  refine mergings.runs (fun k t hk => ?_) count
  have hlt : k < 4 := (List.getElem?_eq_some_iff.mp hk).1
  interval_cases k <;> obtain rfl := Option.some.inj hk
  · exact ⟨List.pairwise_singleton _ _, by decide⟩
  · exact ⟨List.pairwise_singleton _ _, by decide⟩
  · exact ⟨List.pairwise_pair.mpr (by decide), by decide⟩
  · exact ⟨canonicalIntersection_of_get? (by decide) (by decide) (by decide) (by decide)
      (by decide) (by decide), by decide⟩

/-- A shape and the intersection of its parts are told apart by equality only. -/
theorem simpleEqual_and_equal_mergings :
    Runs (withOptions {}) (mergings.table 4) ∧
      (equal 16 16).on (mergings.table 4) = (.ok .yes, mergings.table 4) ∧
      16 ≠ TypeId.never ∧ 16 ≠ TypeId.any ∧ (mergings.table 4).isUnion 16 = false ∧
      17 ≠ TypeId.never ∧ 17 ≠ TypeId.any ∧ (mergings.table 4).isUnion 17 = false ∧
      ((mergings.table 4).simpleEqual 16 16).reachesTrue ∧
      (equal 16 17).on (mergings.table 4) = (.ok .no, mergings.table 4) ∧
      (mergings.table 4).simpleEqual 16 17 = .yes ∧
      (mergings.table 4).assignable 16 17 ∧ (mergings.table 4).assignable 17 16 := by
  have hT := runs_mergings 4
  have hsame : (equal 16 16).on (mergings.table 4) = (.ok .yes, mergings.table 4) :=
    hT.tidy.on_equal 16 16
  obtain ⟨-, hequal, -, -⟩ := simpleEqual_and_equal hT 16 16
  obtain ⟨-, -, hyes, hboth⟩ := simpleEqual_and_equal hT 16 17
  have hsimple : (mergings.table 4).simpleEqual 16 17 = .yes :=
    (hboth (by decide) (by decide) rfl (by decide) (by decide) rfl).2.mpr (by decide)
  exact ⟨hT, hsame, by decide, by decide, rfl, by decide, by decide, rfl,
    hequal _ hsame (by decide), hT.tidy.on_equal 16 17, hsimple,
    hyes (by decide) (by decide) hsimple⟩

end TypeAssay
