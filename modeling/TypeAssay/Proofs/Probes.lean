import TypeAssay.Proofs.Assertions
import TypeAssay.Proofs.Bounds
import TypeAssay.Proofs.Branches
import TypeAssay.Proofs.TwinAnswers

/-!
# Probes

The questions whether a type is `never`, `unknown` or `any` look at its node. Each of these types
can also be told from all others by what fits what (`category_probes`): only `never` fits `never`,
`unknown` is asked about by what fits it, and `any` is the only type that makes a literal accept
another one once it is intersected with it.

The last is the probe `0 extends 1 & T`. What fits an intersection without `any` fits its members,
and `0` does not fit `1`, however the intersection distributes or collapses. An intersection of `1`
with `any` is `any`, which `0` fits.
-/

namespace TypeAssay

open TypeTable Building

variable {T U V : TypeTable} {o : Options} {i j x y : TypeId}

namespace TypeTable

/-! ## Looking at the node -/

/-- Only `any` is found to be `any`. -/
theorem HasBuiltins.isAny_eq_yes_iff (hb : T.HasBuiltins) :
    T.isAny i = .yes ↔ i = TypeId.any := by
  rw [isAny, Outcome.ofBool_eq_yes_iff, hb.any_isAny_iff]

/-- What `unknown` fits is `unknown` or `any`, of which `any` is ruled out. -/
theorem Tidy.isUnknown_eq_yes_iff (hT : T.Tidy) :
    T.isUnknown i = .yes ↔ i = TypeId.unknown := by
  have hb := hT.hasBuiltins
  rw [isUnknown, Outcome.ofBool_eq_yes_iff, Bool.and_eq_true, Bool.and_eq_true,
    decide_eq_true_eq, decide_eq_true_eq]
  constructor
  · rintro ⟨⟨hfits, hany⟩, -⟩
    have hne : i ≠ TypeId.any := fun e => by
      rw [hb.isAny_eq_yes_iff.mpr e] at hany
      exact absurd hany (by decide)
    rcases eq_or_lt_size_of_assignable hfits with h | ⟨-, hi⟩
    · exact h.symm
    · exact hT.eq_unknown_of_assignable hi hne hfits
  · rintro rfl
    refine ⟨⟨assignable_self _, ?_⟩, ?_⟩
    · rw [isAny, hb.unknown]
      rfl
    · rw [isNever, hb.unknown]
      rfl

/-! ## Two literals -/

/-- A literal fits no other one. -/
theorem Tidy.not_assignable_literal {k l : Literal} (hT : T.Tidy)
    (hx : T.get? x = some (.literal k)) (hy : T.get? y = some (.literal l)) (hne : x ≠ y) :
    ¬ T.assignable x y := by
  rw [hT.assignable_literal_iff hx rfl hy]
  rintro (h | h)
  · exact hne h
  · exact Bool.false_ne_true h

/-- An intersection of a literal with `any` is `any`. -/
theorem IsIntersectionOf.eq_any {l : Literal} (hj : T.IsIntersectionOf [y, TypeId.any] j)
    (hb : T.HasBuiltins) (hy : T.get? y = some (.literal l)) : j = TypeId.any := by
  have hflat : [y, TypeId.any].flatMap T.constraints = [y, TypeId.any] := by
    simp [constraints, hy, hb.any]
  have hne : TypeId.never ≠ y := by
    rintro rfl
    exact absurd (hb.never.symm.trans hy) (by simp)
  rw [IsIntersectionOf, hflat, if_neg (by simp [hne, TypeId.never, TypeId.any]),
    if_pos (by simp)] at hj
  exact hj

/-- Of two different literals one fits the intersection of the other one with a type exactly if that
type is `any`. -/
theorem Tidy.assignable_intersection_literal_iff {k l : Literal} (hT : T.Tidy)
    (hx : T.get? x = some (.literal k)) (hy : T.get? y = some (.literal l)) (hne : x ≠ y)
    (hi : i < T.size) (hj : T.IsIntersectionOf [y, i] j) (hlt : j < T.size) :
    T.assignable x j ↔ i = TypeId.any := by
  have hb := hT.hasBuiltins
  constructor
  · -- a literal fits no other one, so it fits an intersection with it only if `any` absorbs both
    intro hfits
    by_contra hany
    have hms : ∀ m ∈ [y, i], T.Canonical m := by
      intro m hm
      rcases List.mem_pair.mp hm with rfl | rfl
      · exact hT.canonical (lt_size_of_get? hy)
      · exact hT.canonical hi
    have hyany : TypeId.any ≠ y := by
      rintro rfl
      exact absurd (hb.any.symm.trans hy) (by simp)
    have hxany : x ≠ TypeId.any := by
      rintro rfl
      exact absurd (hb.any.symm.trans hx) (by simp)
    have hflat : TypeId.any ∉ [y, i].flatMap T.constraints :=
      mt (any_mem_of_mem_constraints hb hms) (by simp [hyany, Ne.symm hany])
    exact hT.not_assignable_literal hx hy hne <|
      assignable_of_assignable_intersection hT hms hj hlt hflat (lt_size_of_get? hx) hxany hfits y
        (by simp)
  · rintro rfl
    obtain rfl := hj.eq_any hb hy
    exact hT.assignable_any (lt_size_of_get? hx)

end TypeTable

/-! ## The probes -/

/-- The intersection of the literal `1` with a type. -/
def meetOne (i : TypeId) : Building TypeId := do
  intersectionOf [← numberLiteral (.ofNat 1), i]

/-- A number literal is interned, and answered. -/
theorem on_numberLiteral_ofNat {n : Nat} (h : (numberLiteral (.ofNat n)).on T = (.ok x, U)) :
    T.Builds U ∧ U.get? x = some (.literal (.number (.ofNat n))) := by
  rw [numberLiteral_of_isCanonical (isCanonical_ofNat n)] at h
  obtain ⟨hbuilds, hget⟩ := (yields_intern_literal (T := T) (isCanonical_ofNat n)).lift
  rw [h] at hbuilds hget
  exact ⟨hbuilds, (hget x rfl).2⟩

/-- There is always a number literal. -/
theorem exists_on_numberLiteral_ofNat (T : TypeTable) (n : Nat) :
    ∃ x U, (numberLiteral (.ofNat n)).on T = (.ok x, U) := by
  rw [numberLiteral_of_isCanonical (isCanonical_ofNat n)]
  exact ⟨_, _, rfl⟩

/-- An intersection with the literal `1` has it among the types of the table. -/
theorem TypeTable.Tidy.on_meetOne (hT : T.Tidy) (hi : i < T.size)
    (h : (meetOne i).on T = (.ok j, U)) :
    T.Builds U ∧ j < U.size ∧
      ∃ one, U.get? one = some (.literal (.number (.ofNat 1))) ∧ U.IsIntersectionOf [one, i] j := by
  obtain ⟨one, T₁, hone⟩ := exists_on_numberLiteral_ofNat T 1
  rw [meetOne, on_bind_ok hone] at h
  obtain ⟨hbuilds, hget⟩ := on_numberLiteral_ofNat hone
  have hT₁ := hbuilds.tidy hT
  have hms : ∀ m ∈ [one, i], T₁.Canonical m := by
    intro m hm
    rcases List.mem_pair.mp hm with rfl | rfl
    · exact hT₁.canonical (lt_size_of_get? hget)
    · exact hbuilds.canonical (hT.canonical hi)
  obtain ⟨hbuilds', hinter⟩ := intersectionOf_yields_isIntersectionOf hT₁.hasBuiltins hms
  rw [h] at hbuilds' hinter
  obtain ⟨hcanonical, hinter⟩ := hinter j rfl
  exact ⟨hbuilds.trans hbuilds', hcanonical.lt_size, one, hbuilds'.grows.get? hget, hinter⟩

/-- The three categories, each with the probe that tells it from all other types. A type is `never`
exactly if it fits `never`. It is the unknown type exactly if the answer to that question is yes. It
is `any` exactly if the literal `0` fits its intersection with the literal `1`, where there is such
an intersection. -/
theorem category_probes (hT : Runs (withOptions o) T) (i : TypeId) :
    (T.isNever i = .yes ↔ T.assignable i TypeId.never) ∧
      (T.isUnknown i = .yes ↔ i = TypeId.unknown) ∧
      ∀ j U, i < T.size → (meetOne i).on T = (.ok j, U) →
        ∃ z V, (numberLiteral (.ofNat 0)).on U = (.ok z, V) ∧
          (T.isAny i = .yes ↔ V.assignable z j) := by
  have htidy := hT.tidy
  refine ⟨?_, htidy.isUnknown_eq_yes_iff, fun j U hi hmeet => ?_⟩
  · rw [htidy.hasBuiltins.isNever_eq_yes_iff, htidy.assignable_never_iff]
  · obtain ⟨hTU, hj, one, hone, hinter⟩ := htidy.on_meetOne hi hmeet
    obtain ⟨z, V, hliteral⟩ := exists_on_numberLiteral_ofNat U 0
    obtain ⟨hUV, hzero⟩ := on_numberLiteral_ofNat hliteral
    refine ⟨z, V, hliteral, ?_⟩
    -- the second literal is entered behind the intersection, which changes no answer
    have hU := hTU.tidy htidy
    have hone' := hUV.grows.get? hone
    have hne : z ≠ one := by
      rintro rfl
      exact absurd (hzero.symm.trans hone') (by decide)
    have hms : ∀ m ∈ [one, i], U.Canonical m := by
      intro m hm
      rcases List.mem_pair.mp hm with rfl | rfl
      · exact hU.canonical (lt_size_of_get? hone)
      · exact hTU.canonical (htidy.canonical hi)
    rw [htidy.hasBuiltins.isAny_eq_yes_iff]
    exact ((hUV.tidy hU).assignable_intersection_literal_iff hzero hone' hne
      (Nat.lt_of_lt_of_le hi (hTU.grows.trans hUV.grows).size_le)
      (hinter.grows hUV.grows hU.hasBuiltins hms hj)
      (Nat.lt_of_lt_of_le hj hUV.grows.size_le)).symm

/-! ### A shape and `any` -/

/-- The two literals, a shape, and the intersection of the shape with `1`. -/
def probed : Listing where
  nodes := [.literal (.number (.ofNat 1)), .literal (.number (.ofNat 0)),
    .object [{ name := "a", type := TypeId.number }], .intersection [14, 16]]
  fresh := by decide
  nodup := by decide

/-- Clients can build the table. -/
theorem runs_probed (count : Nat) : Runs (withOptions {}) (probed.table count) := by
  refine probed.runs (fun k t hk => ?_) count
  have hlt : k < 4 := (List.getElem?_eq_some_iff.mp hk).1
  interval_cases k <;> obtain rfl := Option.some.inj hk
  · exact ⟨isCanonical_ofNat 1, by decide⟩
  · exact ⟨isCanonical_ofNat 0, by decide⟩
  · exact ⟨List.pairwise_singleton _ _, by decide⟩
  · exact ⟨canonicalIntersection_of_get? (by decide) (by decide) (by decide) (by decide)
      (by decide) (by decide), by decide⟩

/-- The table has the two numbers. -/
theorem on_numberLiteral_probed :
    (numberLiteral (.ofNat 1)).on (probed.table 4) = (.ok 14, probed.table 4) ∧
      (numberLiteral (.ofNat 0)).on (probed.table 4) = (.ok 15, probed.table 4) := by
  rw [numberLiteral_of_isCanonical (isCanonical_ofNat 1),
    numberLiteral_of_isCanonical (isCanonical_ofNat 0)]
  exact ⟨on_intern_of_get? rfl, on_intern_of_get? rfl⟩

/-- The table has the intersections with one. -/
theorem on_meetOne_probed :
    (meetOne 16).on (probed.table 4) = (.ok 17, probed.table 4) ∧
      (meetOne TypeId.any).on (probed.table 4) = (.ok TypeId.any, probed.table 4) := by
  rw [meetOne, meetOne, on_bind_ok on_numberLiteral_probed.1,
    on_bind_ok on_numberLiteral_probed.1]
  constructor
  · have hcanonical : (probed.table 4).CanonicalIntersection [14, 16] :=
      canonicalIntersection_of_get? (by decide) (by decide) (by decide) (by decide) (by decide)
        (by decide)
    rw [hcanonical.on_intersectionOf (runs_probed 4).tidy.hasBuiltins]
    exact on_intern_of_get? rfl
  · obtain ⟨depth, hdepth⟩ := on_intersectionOf (probed.table 4) [14, TypeId.any]
    rw [hdepth, on_intersectionStep, if_neg (by decide), if_pos (by decide)]

/-- `0` fits `any`, which is what `any` and `1` have in common, and not the shape with `1`. -/
theorem category_probes_probed :
    Runs (withOptions {}) (probed.table 4) ∧ 16 < (probed.table 4).size ∧
      TypeId.any < (probed.table 4).size ∧
      (numberLiteral (.ofNat 0)).on (probed.table 4) = (.ok 15, probed.table 4) ∧
      (meetOne 16).on (probed.table 4) = (.ok 17, probed.table 4) ∧
      (meetOne TypeId.any).on (probed.table 4) = (.ok TypeId.any, probed.table 4) ∧
      ¬ (probed.table 4).assignable 15 17 ∧ (probed.table 4).isAny TypeId.any = .yes := by
  have hT := runs_probed 4
  have hzero := on_numberLiteral_probed.2
  obtain ⟨hmeet, hmeetAny⟩ := on_meetOne_probed
  obtain ⟨-, -, hshape⟩ := category_probes hT 16
  obtain ⟨-, -, hany⟩ := category_probes hT TypeId.any
  obtain ⟨z, V, hliteral, hshape⟩ := hshape _ _ (by decide) hmeet
  obtain ⟨z', V', hliteral', hany⟩ := hany _ _ (by decide) hmeetAny
  rw [hzero, Prod.mk.injEq, Except.ok.injEq] at hliteral hliteral'
  obtain ⟨rfl, rfl⟩ := hliteral
  obtain ⟨rfl, rfl⟩ := hliteral'
  refine ⟨hT, by decide, by decide, hzero, hmeet, hmeetAny, ?_, ?_⟩
  · rw [← hshape]
    decide
  · rw [hany]
    decide

end TypeAssay
