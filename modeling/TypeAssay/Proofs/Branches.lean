import TypeAssay.Proofs.Batches
import TypeAssay.Proofs.Clauses
import TypeAssay.Proofs.Transitivity

/-!
# The branches of a directional comparison

`extendsType` asks each alternative of a type on its own, while assignability has rules that come
before a union is taken apart: identity, the types that fit or accept everything, loose null checks.
The two never disagree (`extendsType_branches`). The false branch is reached exactly where
`assignable` answers no, so what the early rules accept is accepted alternative by alternative
(`Tidy.assignable_iff_all_alternatives`).

That holds of all ids, those that name no type included: such an id is its own alternative and fits
nothing but itself.
-/

namespace TypeAssay

open TypeTable

variable {T : TypeTable} {o : Options} {a b m : TypeId}

/-! ## Outcomes of lists -/

namespace Outcome

/-- A truth value is the outcome `yes` if it is true. -/
theorem ofBool_eq_yes_iff {p : Bool} : ofBool p = yes ↔ p := by
  cases p <;> decide

/-- An answer of yes or no reaches a branch. -/
theorem ofBool_ne_never (p : Bool) : ofBool p ≠ never := by
  cases p <;> decide

/-- Evaluations that reach some branch each reach none together only if there are none. -/
theorem unionAll_eq_never_iff {os : List Outcome} (h : ∀ r ∈ os, r ≠ never) :
    unionAll os = never ↔ os = [] := by
  refine ⟨fun hnever => ?_, fun hnil => hnil ▸ rfl⟩
  by_contra hne
  obtain ⟨r, hr⟩ := List.exists_mem_of_ne_nil os hne
  have htrue := reachesTrue_unionAll os
  have hfalse := reachesFalse_unionAll os
  rw [hnever] at htrue hfalse
  have htrue' : r.reachesTrue = false :=
    Bool.eq_false_iff.mpr (List.any_eq_false.mp htrue.symm r hr)
  have hfalse' : r.reachesFalse = false :=
    Bool.eq_false_iff.mpr (List.any_eq_false.mp hfalse.symm r hr)
  apply h r hr
  cases r
  simp_all [never]

end Outcome

namespace TypeTable

/-! ## `never`, `any` and the types that accept everything -/

/-- Only `never` is found to be `never`. -/
theorem HasBuiltins.isNever_eq_yes_iff (hb : T.HasBuiltins) :
    T.isNever i = .yes ↔ i = TypeId.never := by
  rw [isNever, Outcome.ofBool_eq_yes_iff, Option.any_eq_true]
  constructor
  · rintro ⟨t, ht, hnever⟩
    cases t with
    | never => exact get?_injective ht hb.never
    | _ => exact absurd hnever Bool.false_ne_true
  · rintro rfl
    exact ⟨.never, hb.never, rfl⟩

/-- Only `any` has its node. -/
theorem HasBuiltins.any_isAny_iff (hb : T.HasBuiltins) :
    (T.get? a).any Ty.isAny ↔ a = TypeId.any := by
  constructor
  · intro h
    obtain ⟨t, ht, hany⟩ := (Option.any_eq_true _ _).mp h
    cases t with
    | any => exact get?_injective ht hb.any
    | _ => exact absurd hany Bool.false_ne_true
  · rintro rfl
    rw [hb.any]
    rfl

/-- Only `any` and `unknown` accept everything. -/
theorem HasBuiltins.isTop_iff (hb : T.HasBuiltins) :
    T.isTop b ↔ b = TypeId.any ∨ b = TypeId.unknown := by
  constructor
  · intro h
    obtain ⟨t, ht, htop⟩ := (Option.any_eq_true _ _).mp h
    cases t with
    | any => exact Or.inl (get?_injective ht hb.any)
    | unknown => exact Or.inr (get?_injective ht hb.unknown)
    | _ => exact absurd htop Bool.false_ne_true
  · rintro (rfl | rfl)
    · rw [isTop, hb.any]
      rfl
    · rw [isTop, hb.unknown]
      rfl

/-- `any` takes both branches unless everything is accepted. -/
theorem HasBuiltins.extendsType_any (hb : T.HasBuiltins) (b : TypeId) :
    T.extendsType TypeId.any b =
      if b = TypeId.any ∨ b = TypeId.unknown then .yes else .both := by
  have hsubjects : T.subjects TypeId.any = [TypeId.any] := by rw [subjects, hb.any]
  rw [extendsType, hsubjects, List.map_singleton, extendsAlternative,
    if_pos (hb.any_isAny_iff.mpr rfl)]
  simp only [hb.isTop_iff]
  split <;> rfl

/-- Any other alternative is assignable or not. -/
theorem HasBuiltins.extendsAlternative_eq (hb : T.HasBuiltins) (hany : a ≠ TypeId.any) :
    T.extendsAlternative a b = .ofBool (T.assignable a b) := by
  rw [extendsAlternative, if_neg (mt hb.any_isAny_iff.mp hany)]

/-- For one alternative some branch is taken. -/
theorem extendsAlternative_ne_never (a b : TypeId) : T.extendsAlternative a b ≠ .never := by
  rw [extendsAlternative]
  split
  · split <;> decide
  · exact Outcome.ofBool_ne_never _

/-! ## Alternatives of any id -/

/-- An id that the table does not have is its own alternative. -/
theorem alternatives_of_size_le (h : T.size ≤ a) : T.alternatives a = [a] := by
  rw [alternatives, get?_eq_none_iff.mpr h]

/-- Every type has an alternative. -/
theorem Tidy.alternatives_ne_nil (hT : T.Tidy) (a : TypeId) : T.alternatives a ≠ [] := by
  by_cases ha : a < T.size
  · exact (hT.canonical ha).alternatives_ne_nil
  · rw [alternatives_of_size_le (Nat.not_lt.mp ha)]
    exact List.cons_ne_nil _ _

/-- Only `never` has nothing to ask about. -/
theorem Tidy.subjects_eq_nil_iff (hT : T.Tidy) : T.subjects a = [] ↔ a = TypeId.never := by
  constructor
  · intro hnil
    by_contra hne
    rw [subjects_eq_alternatives hT.hasBuiltins hne] at hnil
    exact hT.alternatives_ne_nil a hnil
  · rintro rfl
    exact subjects_never hT.hasBuiltins

/-- No alternative of another type is `any`. -/
theorem Tidy.ne_any_of_mem_alternatives (hT : T.Tidy) (hany : a ≠ TypeId.any)
    (hm : m ∈ T.alternatives a) : m ≠ TypeId.any := by
  by_cases ha : a < T.size
  · rintro rfl
    exact hany ((hT.canonical ha).any_mem_alternatives hT.hasBuiltins hm)
  · rw [alternatives_of_size_le (Nat.not_lt.mp ha), List.mem_singleton] at hm
    exact hm ▸ hany

/-- A type fits another where all its alternatives do, whether or not the ids name types. -/
theorem Tidy.assignable_iff_all_alternatives (hT : T.Tidy) (a b : TypeId) :
    T.assignable a b ↔ ∀ m ∈ T.alternatives a, T.assignable m b := by
  by_cases ha : a < T.size
  · by_cases hb : b < T.size
    · exact hT.assignable_iff_alternatives ha hb
    · -- nothing in the table fits an id of no type
      have hnone : ∀ m < T.size, ¬ T.assignable m b := by
        intro m hm h
        rcases eq_or_lt_size_of_assignable h with rfl | ⟨-, hlt⟩
        · exact hb hm
        · exact hb hlt
      obtain ⟨m, hm⟩ := List.exists_mem_of_ne_nil _ (hT.alternatives_ne_nil a)
      refine iff_of_false (hnone a ha) fun h => ?_
      exact hnone m ((hT.canonical ha).alternatives hm).1.lt_size (h m hm)
  · rw [alternatives_of_size_le (Nat.not_lt.mp ha), List.forall_mem_singleton]

/-- Only `never` fits `never`. -/
theorem Tidy.assignable_never_iff (hT : T.Tidy) :
    T.assignable a TypeId.never ↔ a = TypeId.never := by
  refine ⟨fun h => ?_, fun h => h ▸ assignable_self _⟩
  rcases eq_or_lt_size_of_assignable h with rfl | ⟨ha, -⟩
  · rfl
  · by_contra hne
    rw [hT.not_assignable_never ha hne] at h
    exact Bool.false_ne_true h

/-! ## Branches -/

/-- A type other than `any` and `never` reaches the branches that its alternatives reach. -/
theorem Tidy.extendsType_eq (hT : T.Tidy) (hnever : a ≠ TypeId.never) (hany : a ≠ TypeId.any) :
    T.extendsType a b =
      .unionAll ((T.alternatives a).map fun m => .ofBool (T.assignable m b)) := by
  rw [extendsType, subjects_eq_alternatives hT.hasBuiltins hnever]
  refine congrArg Outcome.unionAll (List.map_congr_left fun m hm => ?_)
  exact hT.hasBuiltins.extendsAlternative_eq (hT.ne_any_of_mem_alternatives hany hm)

/-- The first branch is taken for an alternative that fits. -/
theorem Tidy.extendsType_reachesTrue_iff (hT : T.Tidy) (hnever : a ≠ TypeId.never)
    (hany : a ≠ TypeId.any) :
    (T.extendsType a b).reachesTrue ↔ ∃ m ∈ T.alternatives a, T.assignable m b := by
  rw [hT.extendsType_eq hnever hany, Outcome.reachesTrue_unionAll, List.any_map, List.any_eq_true]
  rfl

/-- The second branch is taken if not all alternatives fit. -/
theorem Tidy.extendsType_reachesFalse_iff (hT : T.Tidy) (hnever : a ≠ TypeId.never)
    (hany : a ≠ TypeId.any) :
    (T.extendsType a b).reachesFalse ↔ T.assignable a b = false := by
  have hfits := hT.assignable_iff_all_alternatives a b
  rw [hT.extendsType_eq hnever hany, Outcome.reachesFalse_unionAll, List.any_map, List.any_eq_true,
    ← Bool.not_eq_true, hfits]
  push Not
  exact exists_congr fun m => and_congr_right fun _ => by simp [Outcome.ofBool]

end TypeTable

/-! ## The two questions -/

/-- A directional comparison agrees with assignability up to distribution. It reaches no branch
exactly for `never`. `any` reaches the true branch before a type that accepts everything, and both
before any other. Every other type reaches the false branch exactly if it is not assignable, and the
true branch exactly if one of its alternatives is. -/
theorem extendsType_branches (hT : Runs (withOptions o) T) (a b : TypeId) :
    (T.extendsType a b = .never ↔ a = TypeId.never) ∧
      T.extendsType TypeId.any b =
        (if b = TypeId.any ∨ b = TypeId.unknown then .yes else .both) ∧
      (a ≠ TypeId.never → a ≠ TypeId.any →
        ((T.extendsType a b).reachesFalse ↔ T.assignable a b = false) ∧
          ((T.extendsType a b).reachesTrue ↔ ∃ m ∈ T.alternatives a, T.assignable m b)) := by
  have htidy := hT.tidy
  refine ⟨?_, htidy.hasBuiltins.extendsType_any b, fun hnever hany => ?_⟩
  · rw [extendsType, Outcome.unionAll_eq_never_iff, List.map_eq_nil_iff,
      htidy.subjects_eq_nil_iff]
    intro r hr
    obtain ⟨m, -, rfl⟩ := List.mem_map.mp hr
    exact extendsAlternative_ne_never m b
  · exact ⟨htidy.extendsType_reachesFalse_iff hnever hany,
      htidy.extendsType_reachesTrue_iff hnever hany⟩

/-- Under loose null checks, too, the truth values together reach both branches before one of
them. -/
theorem extendsType_branches_boolean :
    Runs (withOptions { strictNullChecks := false }) (withOptions { strictNullChecks := false }) ∧
      TypeId.boolean ≠ TypeId.never ∧ TypeId.boolean ≠ TypeId.any ∧
      ((withOptions { strictNullChecks := false }).extendsType TypeId.boolean TypeId.yes) =
        .both := by
  have hT : Runs (withOptions { strictNullChecks := false })
      (withOptions { strictNullChecks := false }) := .refl
  have htidy := hT.tidy
  have halternatives : (withOptions { strictNullChecks := false }).alternatives TypeId.boolean =
      [TypeId.ofBool true, TypeId.ofBool false] := by
    rw [alternatives, get?_withOptions]
    rfl
  obtain ⟨-, -, hbranches⟩ := extendsType_branches hT TypeId.boolean (TypeId.ofBool true)
  obtain ⟨hfalse, htrue⟩ := hbranches (by decide) (by decide)
  rw [halternatives] at htrue
  have hyes := htrue.mpr ⟨TypeId.ofBool true, by simp, assignable_self _⟩
  -- `false` is no `true`, so the union of the two does not fit, either
  have hno := hfalse.mpr <| Bool.eq_false_iff.mpr fun hfits => by
    rw [htidy.assignable_iff_all_alternatives, halternatives] at hfits
    exact absurd ((htidy.assignable_ofBool_iff false true).mp (hfits _ (by simp))) (by decide)
  refine ⟨hT, by decide, by decide, ?_⟩
  show Outcome.mk _ _ = Outcome.mk true true
  rw [Outcome.mk.injEq]
  exact ⟨hyes, hno⟩

end TypeAssay
