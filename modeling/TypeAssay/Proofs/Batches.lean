import TypeAssay.Proofs.Equality
import TypeAssay.Proofs.Relations
import TypeAssay.Proofs.Sources

/-!
# Batches

What a batch of outcomes answers, for every batch (`on_expectBatchOf`). The constraint lets an
outcome pass if it is the literal that is demanded, or if it is `never`, which fits every literal.
The union of the cases, which is then compared with the literal, drops `never`. So a batch passes
exactly if one outcome is the literal and all others are the literal or `never`
(`expectBatchOf_eq_yes_iff`): without `never` among them it is the demand that each outcome is the
literal, but a `never` next to a case that holds passes, too (`expectBatchOf_never`).
-/

namespace TypeAssay

open TypeTable Building

variable {T U : TypeTable} {o : Options} {os : List Outcome} {r : Outcome} {target : Bool}

namespace TypeTable

/-! ## The constraint -/

/-- A truth value fits itself only. -/
theorem Tidy.assignable_ofBool_iff (hT : T.Tidy) (b c : Bool) :
    T.assignable (TypeId.ofBool b) (TypeId.ofBool c) ↔ b = c := by
  have hb := hT.hasBuiltins
  rw [hT.assignable_literal_iff (hb.ofBool b) rfl (hb.ofBool c)]
  cases b <;> cases c <;> simp [TypeId.ofBool, isLooseNull]

/-- Of the outcomes, only `never` and a truth value itself fit the truth value. -/
theorem Tidy.assignable_toType_iff (hT : T.Tidy) (r : Outcome) (target : Bool) :
    T.assignable r.toType (TypeId.ofBool target) ↔ r = .never ∨ r = .ofBool target := by
  have hb := hT.hasBuiltins
  have htarget := lt_size_of_get? (hb.ofBool target)
  have hboolean : T.get? TypeId.boolean = some (.union [TypeId.ofBool true, TypeId.ofBool false]) :=
    hb _ _ rfl
  rcases r with ⟨_ | _, _ | _⟩
  · exact iff_of_true (hT.never_assignable htarget) (Or.inl rfl)
  · refine (hT.assignable_ofBool_iff false target).trans ?_
    cases target <;> decide
  · refine (hT.assignable_ofBool_iff true target).trans ?_
    cases target <;> decide
  · -- either truth value would have to fit
    refine iff_of_false ?_ (by cases target <;> decide)
    rw [Outcome.toType, hT.assignable_iff_subjects (lt_size_of_get? hboolean) htarget,
      subjects_of_get?_union hboolean]
    intro h
    have htrue := (hT.assignable_ofBool_iff true target).mp (h _ (by decide))
    have hfalse := (hT.assignable_ofBool_iff false target).mp (h _ (by decide))
    exact absurd (htrue.trans hfalse.symm) (by decide)

/-- A tuple of outcomes fits the sequence of a literal if each outcome is the literal or `never`. -/
theorem Tidy.assignable_outcomes_iff {i j : TypeId} (hT : T.Tidy)
    (hi : T.get? i = some (.tuple (os.map Outcome.toType) false))
    (hj : T.get? j = some (.array (TypeId.ofBool target) true)) :
    T.assignable i j ↔ ∀ r ∈ os, r = .never ∨ r = .ofBool target := by
  have hne : i ≠ j := by
    rintro rfl
    exact absurd (hi.symm.trans hj) (by simp)
  rw [hT.assignable_iff hi hj (plain_of_isAlternative rfl) (plain_of_isAlternative rfl)]
  simp [hne, isLooseNull, structuralStep, hT.assignable_toType_iff]

end TypeTable

/-! ## The union of the cases -/

/-- The type of a truth value is its literal type. -/
theorem Outcome.toType_ofBool (b : Bool) : (Outcome.ofBool b).toType = TypeId.ofBool b := by
  cases b <;> rfl

/-- Outcomes that may pass are built-in types other than unions. -/
theorem TypeTable.HasBuiltins.alternatives_toType (hb : T.HasBuiltins)
    (h : r = .never ∨ r = .ofBool target) : T.alternatives r.toType = [r.toType] := by
  rcases h with rfl | rfl
  · exact alternatives_of_not_union (by simp [isUnion, Outcome.toType, Outcome.never, hb.never,
      Ty.isUnion])
  · rw [Outcome.toType_ofBool]
    exact alternatives_of_not_union (by simp [isUnion, hb.ofBool target, Ty.isUnion])

/-- The union of outcomes that may pass is the literal, if it is among them, and `never` else. -/
theorem run_unionOf_outcomes (hb : T.HasBuiltins) (h : ∀ r ∈ os, r = .never ∨ r = .ofBool target) :
    (unionOf (os.map Outcome.toType)).run T =
      (if .ofBool target ∈ os then TypeId.ofBool target else TypeId.never, T) := by
  have hflat : (os.map Outcome.toType).flatMap T.alternatives = os.map Outcome.toType := by
    rw [List.flatMap_map]
    exact (List.flatMap_congr fun r hr => hb.alternatives_toType (h r hr)).trans
      (List.flatMap_pure_eq_map _ _)
  have hmem : ∀ i ∈ os.map Outcome.toType, i = TypeId.never ∨ i = TypeId.ofBool target := by
    intro i hi
    obtain ⟨r, hr, rfl⟩ := List.mem_map.mp hi
    rcases h r hr with rfl | rfl
    · exact Or.inl rfl
    · exact Or.inr (Outcome.toType_ofBool target)
  have htarget : TypeId.ofBool target ∈ os.map Outcome.toType ↔ Outcome.ofBool target ∈ os := by
    refine ⟨fun hi => ?_, fun hr => Outcome.toType_ofBool target ▸ List.mem_map_of_mem hr⟩
    obtain ⟨r, hr, hri⟩ := List.mem_map.mp hi
    rcases h r hr with rfl | rfl
    · cases target <;> exact absurd hri (by decide)
    · exact hr
  have hany : TypeId.any ∉ os.map Outcome.toType := fun hi => by
    rcases hmem _ hi with he | he <;> cases target <;> exact absurd he (by decide)
  have hunknown : TypeId.unknown ∉ os.map Outcome.toType := fun hi => by
    rcases hmem _ hi with he | he <;> cases target <;> exact absurd he (by decide)
  have hbase : T.literalBase? (TypeId.ofBool target) = none := by
    simp [literalBase?, hb.ofBool target, Ty.literal?, Literal.base?]
  have hnever : TypeId.ofBool target ≠ TypeId.never := by cases target <;> decide
  -- nothing but the target is left of the union, and that only if it is among the outcomes
  have hkept : ∀ i, i ∈ T.unionMembers (os.map Outcome.toType) ↔
      i = TypeId.ofBool target ∧ .ofBool target ∈ os := by
    intro i
    rw [mem_unionMembers hb]
    constructor
    · rintro ⟨hi, hne, -⟩
      obtain rfl := (hmem i hi).resolve_left hne
      exact ⟨rfl, htarget.mp hi⟩
    · rintro ⟨rfl, hr⟩
      exact ⟨htarget.mpr hr, hnever, fun p hp => by simp [hbase] at hp⟩
  rw [run_unionOf, hflat, if_neg hany, if_neg hunknown]
  have hascending : (T.unionMembers (os.map Outcome.toType)).Pairwise (· < ·) :=
    pairwise_ascending _
  by_cases hr : .ofBool target ∈ os
  · have hone : T.unionMembers (os.map Outcome.toType) = [TypeId.ofBool target] :=
      hascending.eq_of_mem_iff (List.pairwise_singleton _ _) fun i => by simp [hkept, hr]
    rw [hone, if_pos hr]
  · have hnone : T.unionMembers (os.map Outcome.toType) = [] :=
      List.eq_nil_iff_forall_not_mem.mpr fun i hi => hr ((hkept i).mp hi).2
    rw [hnone, if_neg hr]

/-! ## What a batch answers -/

/-- The elements of a tuple have the union of their types. -/
theorem run_elementType_tuple {i : TypeId} {es : List TypeId} {readonly : Bool}
    (hi : T.get? i = some (.tuple es readonly)) : (elementType i).run T = (unionOf es).run T := by
  obtain ⟨depth, hdepth⟩ : ∃ depth, T.levelBound = depth + 1 :=
    Nat.exists_eq_add_one.mpr (Nat.lt_of_le_of_lt (Nat.zero_le _) T.size_lt_levelBound)
  rw [elementType, StateT.run_bind, StateT.run_get, pure_bind, hdepth, elementTypeWithin,
    StateT.run_bind, StateT.run_get, pure_bind, hi]

/-- A tuple is one. -/
theorem isTuple_of_tuple {i : TypeId} {es : List TypeId} {readonly : Bool}
    (hi : T.get? i = some (.tuple es readonly)) : T.isTuple i = .yes := by
  have hnever : T.isNever i = .no := by
    rw [isNever, hi]
    rfl
  rw [isTuple, hnever, if_neg (by decide), hi, isTupleAlternative, hi]
  rfl

/-- The value of a batch whose constraint holds. -/
theorem on_foldBatch {i : TypeId} (hT : T.Tidy)
    (hi : T.get? i = some (.tuple (os.map Outcome.toType) false))
    (h : ∀ r ∈ os, r = .never ∨ r = .ofBool target) :
    (foldBatch i target).on T = (.ok (.ofBool (.ofBool target ∈ os)), T) := by
  have hb := hT.hasBuiltins
  have htarget := hb.canonical_ofBool target
  have helement : (monadLift (elementType i) : Building TypeId).on T =
      (.ok (if .ofBool target ∈ os then TypeId.ofBool target else TypeId.never), T) := by
    rw [on_lift, run_elementType_tuple hi, run_unionOf_outcomes hb h]
  rw [foldBatch, on_bind_ok helement]
  -- without an outcome that is the target, the union of the elements is `never`
  by_cases hr : .ofBool target ∈ os
  · rw [if_pos hr, on_bind_ok (on_equal_ok (on_normalize hb htarget) (on_normalize hb htarget)),
      on_get_bind, isTuple_of_tuple hi]
    simp only [hr, decide_true]
    rfl
  · have hne : TypeId.never ≠ TypeId.ofBool target := by cases target <;> decide
    rw [if_neg hr, on_bind_ok (on_equal_ok (on_normalize hb hb.canonical_never)
      (on_normalize hb htarget)), on_get_bind, isTuple_of_tuple hi]
    simp only [hr, hne, decide_false]
    rfl

/-- The constraint of a batch, which leaves the sequence of the literal behind. -/
theorem on_batchConstraint {i : TypeId} (hT : T.Tidy)
    (hi : T.get? i = some (.tuple (os.map Outcome.toType) false)) (target : Bool) :
    ∃ expected actual U, T.Builds U ∧ (batchConstraint i target).on T =
      (if ∀ r ∈ os, r = .never ∨ r = .ofBool target then .ok ()
        else .error (.batchFailed expected actual), U) := by
  have hparts : ∀ e ∈ (Ty.array (TypeId.ofBool target) true).parts, T.Canonical e := fun e he =>
    List.mem_singleton.mp he ▸ hT.hasBuiltins.canonical_ofBool target
  have hbuilds : T.Builds (T.intern (.array (TypeId.ofBool target) true)).2 :=
    .intern .refl trivial hparts
  have harray : (monadLift (arrayOf (TypeId.ofBool target) true) : Building TypeId).on T =
      (.ok (T.intern (.array (TypeId.ofBool target) true)).1,
        (T.intern (.array (TypeId.ofBool target) true)).2) := rfl
  have hj := get?_intern_fst T (.array (TypeId.ofBool target) true)
  generalize T.intern (.array (TypeId.ofBool target) true) = result at hbuilds harray hj
  obtain ⟨j, U⟩ := result
  have hfits := (hbuilds.tidy hT).assignable_outcomes_iff (hbuilds.get? hi) hj
  refine ⟨U.display j, U.display i, U, hbuilds, ?_⟩
  rw [batchConstraint, on_bind_ok harray, on_get_bind]
  by_cases h : ∀ r ∈ os, r = .never ∨ r = .ofBool target
  · rw [if_pos (hfits.mpr h), if_pos h]
    rfl
  · rw [if_neg (mt hfits.mp h), if_neg h]
    rfl

/-- What a batch answers: it is refused if an outcome is neither the literal that is demanded nor
`never`, and else it says whether the literal is among the outcomes. -/
theorem on_expectBatchOf (hT : T.Tidy) (os : List Outcome) (target : Bool) :
    ∃ expected actual, ((expectBatchOf os target).on T).1 =
      if ∀ r ∈ os, r = .never ∨ r = .ofBool target then .ok (.ofBool (.ofBool target ∈ os))
      else .error (.batchFailed expected actual) := by
  have hcases : ∀ e ∈ os.map Outcome.toType, T.Canonical e := fun e he => by
    obtain ⟨r, -, rfl⟩ := List.mem_map.mp he
    exact hT.hasBuiltins.canonical_toType r
  have hU := hT.intern (t := .tuple (os.map Outcome.toType) false) trivial hcases
  have hi := get?_intern_fst T (.tuple (os.map Outcome.toType) false)
  have htuple : (monadLift (tupleOf (os.map Outcome.toType) false) : Building TypeId).on T =
      (.ok (T.intern (.tuple (os.map Outcome.toType) false)).1,
        (T.intern (.tuple (os.map Outcome.toType) false)).2) := rfl
  obtain ⟨expected, actual, V, hUV, hconstraint⟩ := on_batchConstraint hU hi target
  refine ⟨expected, actual, ?_⟩
  rw [expectBatchOf, on_bind_ok htuple, expectBatch]
  by_cases h : ∀ r ∈ os, r = .never ∨ r = .ofBool target
  · rw [if_pos h] at hconstraint ⊢
    rw [on_bind_ok hconstraint, on_foldBatch (hUV.tidy hU) (hUV.get? hi) h]
  · rw [if_neg h] at hconstraint ⊢
    rw [on_bind_error hconstraint]

/-- A batch passes exactly if some outcome is the literal and all are the literal or `never`; where
none is `never`, that is to say that there are outcomes and each is the literal. -/
theorem expectBatchOf_eq_yes_iff (hT : Runs (withOptions o) T) (os : List Outcome)
    (target : Bool) :
    (((expectBatchOf os target).on T).1 = .ok .yes ↔
        .ofBool target ∈ os ∧ ∀ r ∈ os, r = .never ∨ r = .ofBool target) ∧
      (.never ∉ os → (((expectBatchOf os target).on T).1 = .ok .yes ↔
        os ≠ [] ∧ ∀ r ∈ os, r = .ofBool target)) := by
  -- the tuple of the outcomes is built first, so the first equivalence is about one answer
  have hpass : ((expectBatchOf os target).on T).1 = .ok .yes ↔
      .ofBool target ∈ os ∧ ∀ r ∈ os, r = .never ∨ r = .ofBool target := by
    obtain ⟨expected, actual, hanswer⟩ := on_expectBatchOf hT.tidy os target
    rw [hanswer]
    by_cases h : ∀ r ∈ os, r = .never ∨ r = .ofBool target
    · have hyes : ∀ b, Outcome.ofBool b = .yes ↔ b = true := by decide
      rw [if_pos h, Except.ok.injEq, hyes, decide_eq_true_eq]
      exact ⟨fun hr => ⟨hr, h⟩, And.left⟩
    · rw [if_neg h]
      exact iff_of_false (by simp) fun hall => h hall.2
  refine ⟨hpass, fun hnever => hpass.trans
    ⟨fun ⟨hr, h⟩ => ⟨List.ne_nil_of_mem hr, fun r hmem => ?_⟩, fun ⟨hne, h⟩ => ?_⟩⟩
  · exact (h r hmem).resolve_left fun he => hnever (he ▸ hmem)
  · obtain ⟨r, hr⟩ := List.exists_mem_of_ne_nil os hne
    exact ⟨h r hr ▸ hr, fun r hr => Or.inr (h r hr)⟩

/-- Two cases that hold are a batch that holds. -/
theorem expectBatchOf_eq_yes_twoCases :
    Runs (withOptions {}) (withOptions {}) ∧ .never ∉ [Outcome.yes, .yes] ∧
      ((expectBatchOf [.yes, .yes] true).on (withOptions {})).1 = .ok .yes := by
  obtain ⟨-, hpass⟩ := expectBatchOf_eq_yes_iff (o := {}) .refl [.yes, .yes] true
  have hnever : .never ∉ [Outcome.yes, .yes] := by decide
  exact ⟨.refl, hnever, (hpass hnever).mpr ⟨by decide, by decide⟩⟩

/-- A batch passes though one of its cases is `never`. -/
theorem expectBatchOf_never :
    ((expectBatchOf [.yes, .never] true).on (withOptions {})).1 = .ok .yes ∧
      ¬ ∀ r ∈ [Outcome.yes, .never], r = .yes := by
  refine ⟨?_, by decide⟩
  obtain ⟨expected, actual, hanswer⟩ :=
    on_expectBatchOf (tidy_withOptions {}) [.yes, .never] true
  rw [hanswer, if_pos (by decide)]
  rfl

end TypeAssay
