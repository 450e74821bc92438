import TypeAssay.Proofs.Assertions
import TypeAssay.Proofs.TwinAnswers
import TypeAssay.Proofs.UpperBounds

/-!
# Element types

A batch asks twice what the elements of a sequence are. Its constraint asks whether the sequence
fits an array of the literal, and its value compares the literal with the union of the element
types. For tuples, arrays and unions of them these are one question: the sequence fits the array of
a type exactly if its element type fits that type. An intersection with a sequence among its
constraints fits an array, too, but as its elements it has `unknown`
(`elementType_assignable_iff`), so a batch that meets the constraint may be compared with a type
that the constraint says nothing about (`not_elementType_assignable_brandTable`).
-/

namespace TypeAssay

open TypeTable Building

variable {T U V : TypeTable} {o : Options} {i m n e x q r : TypeId} {a : Ty} {es ms : List TypeId}
  {readonly : Bool}

namespace TypeTable

/-! ## Sequences below arrays -/

/-- A tuple fits the readonly arrays that take each of its elements. -/
theorem Tidy.tuple_assignable_array_iff (hT : T.Tidy) (hm : T.get? m = some (.tuple es readonly))
    (hr : T.get? r = some (.array x true)) :
    T.assignable m r ↔ ∀ e ∈ es, T.assignable e x := by
  have hne : m ≠ r := by
    rintro rfl
    exact absurd (hm.symm.trans hr) (by simp)
  rw [hT.assignable_iff hm hr (plain_of_isAlternative rfl) (plain_of_isAlternative rfl)]
  simp [hne, isLooseNull, structuralStep]

/-- An array fits the readonly arrays that take its elements. -/
theorem Tidy.array_assignable_array_iff (hT : T.Tidy) (hm : T.get? m = some (.array e readonly))
    (hr : T.get? r = some (.array x true)) : T.assignable m r ↔ T.assignable e x := by
  rw [hT.assignable_iff hm hr (plain_of_isAlternative rfl) (plain_of_isAlternative rfl)]
  simp only [isLooseNull, structuralStep, Bool.or_true, Bool.true_and,
    Bool.false_eq_true, false_or, or_iff_right_iff_imp]
  rintro rfl
  obtain ⟨rfl, -⟩ := Ty.array.inj (Option.some.inj (hm.symm.trans hr))
  exact assignable_self e

/-- Under strict null checks an alternative that fits an array is a tuple, an array, or an
intersection. -/
theorem Tidy.isSequence_of_assignable_array (hT : T.Tidy) (hstrict : T.options.strictNullChecks)
    (hm : T.get? m = some a) (ha : a.isAlternative) (hq : T.get? q = some (.array x true))
    (h : T.assignable m q) : a.isSequence ∨ ∃ ms, a = .intersection ms := by
  rcases (hT.assignable_iff hm hq (plain_of_isAlternative ha)
    (plain_of_isAlternative rfl)).mp h with rfl | hloose | hstep
  · obtain rfl := Option.some.inj (hm.symm.trans hq)
    exact Or.inl rfl
  · rw [isLooseNull_eq_false hstrict] at hloose
    exact absurd hloose Bool.false_ne_true
  · cases a with
    | tuple _ _ | array _ _ => exact Or.inl rfl
    | intersection ms => exact Or.inr ⟨ms, rfl⟩
    | primitive _ | literal _ | object _ => exact absurd hstep Bool.false_ne_true
    | any | never | unknown | union _ => exact absurd ha Bool.false_ne_true

/-! ## What the elements of one alternative have in common -/

/-- Where no `any` is reached, the elements do not have `any` in common. -/
theorem HasElements.ne_any (h : T.HasElements m e) (hb : T.HasBuiltins) (hm : T.Canonical m)
    (hany : ¬ T.Reaches m TypeId.any) : e ≠ TypeId.any := by
  unfold HasElements at h
  split at h
  · rename_i es _ hget
    exact h.ne_any hb (fun e he => hm.part hget he) fun he => hany (.of_part hget he .refl)
  · rename_i hget
    rintro rfl
    exact hany (.of_part hget (h ▸ List.mem_cons_self) .refl)
  · exact h ▸ by decide
  · rename_i hget
    obtain rfl := get?_injective hget hb.any
    exact absurd .refl hany
  · exact h ▸ by decide

/-- The elements of an alternative that fits some array fit a type exactly if the alternative fits
the array of that type, except that the elements of an intersection fit `unknown` only. -/
theorem HasElements.assignable_iff (h : T.HasElements m e) (hT : T.Tidy)
    (hstrict : T.options.strictNullChecks) (hm : T.IsAlternative m) (he : e < T.size)
    (hany : ¬ T.Reaches m TypeId.any) (hx : x ≠ TypeId.any)
    (hq : T.get? q = some (.array TypeId.unknown true)) (hr : T.get? r = some (.array x true))
    (hfits : T.assignable m q) :
    T.assignable e x ↔
      T.assignable m r ∧ ((∀ ms, T.get? m ≠ some (.intersection ms)) ∨ x = TypeId.unknown) := by
  obtain ⟨hcanonical, a, hget, halt⟩ := hm
  have hxlt : x < T.size := ((hT.canonical (lt_size_of_get? hr)).part hr List.mem_cons_self).lt_size
  unfold HasElements at h
  -- what fits an array is a sequence or an intersection
  rw [hget] at h ⊢
  rcases hT.isSequence_of_assignable_array hstrict hget halt hq hfits with hsequence | ⟨ms, rfl⟩
  · have hplain : ∀ ms, some a ≠ some (.intersection ms) := by
      rintro ms ⟨⟩
      exact absurd hsequence Bool.false_ne_true
    rw [and_iff_left (Or.inl hplain)]
    -- the elements of a tuple or an array decide alone
    cases a with
    | tuple es readonly =>
      have hes : ∀ e ∈ es, e < T.size := fun e he => (hcanonical.part hget he).lt_size
      rw [hT.tuple_assignable_array_iff hget hr]
      exact IsUnionOf.assignable_iff h hT hes he (fun he => hany (.of_part hget he .refl)) hxlt
    | array e readonly =>
      rw [hT.array_assignable_array_iff hget hr, h]
    | any | never | unknown | primitive _ | literal _ | union _ | intersection _ | object _ =>
      exact absurd hsequence Bool.false_ne_true
  · have hinter : ¬ ∀ ms', some (Ty.intersection ms) ≠ some (.intersection ms') := fun h => h ms rfl
    rw [or_iff_right hinter, h]
    -- an intersection has no elements of its own, so only `unknown` takes them
    constructor
    · intro hunknown
      obtain rfl := hT.eq_unknown_of_assignable hxlt hx hunknown
      exact ⟨get?_injective hq hr ▸ hfits, rfl⟩
    · rintro ⟨-, rfl⟩
      exact assignable_self _

end TypeTable

/-! ## The element type -/

namespace TypeTable

/-- A type reaches its alternatives. -/
theorem reaches_of_mem_alternatives (hm : m ∈ T.alternatives i) : T.Reaches i m := by
  rw [alternatives] at hm
  split at hm
  · rename_i hget
    exact .of_part hget hm .refl
  · exact List.mem_singleton.mp hm ▸ .refl

/-- What fits an array consists of alternatives, unless it is `never`. -/
theorem Tidy.isAlternative_of_assignable_array (hT : T.Tidy) (hi : i < T.size)
    (hany : i ≠ TypeId.any) (hnever : i ≠ TypeId.never)
    (hq : T.get? q = some (.array x readonly)) (hfits : T.assignable i q)
    (hm : m ∈ T.alternatives i) : T.IsAlternative m := by
  refine (hT.canonical hi).isAlternative_of_mem hT.hasBuiltins hany ?_ hnever hm
  rintro rfl
  rw [hT.not_unknown_assignable hq (by simp) (by simp)] at hfits
  exact absurd hfits Bool.false_ne_true

/-- What an element type is in one table it is in later ones. -/
theorem IsElementTypeOf.grows (h : T.IsElementTypeOf i e) (hTU : Grows T U) (hi : T.Canonical i)
    (he : T.Canonical e) : U.IsElementTypeOf i e := by
  obtain ⟨rs, hrs, hunion⟩ := h
  refine ⟨rs, ?_, hunion.grows hTU (forall_right_of_forall₂ hrs fun _ _ hr => hr.1) he.lt_size⟩
  rw [hTU.alternatives_eq hi.lt_size]
  exact ((List.forall₂_and_left _ _).mpr ⟨fun m hm => (hi.alternatives hm).1, hrs⟩).imp
    fun m r ⟨hm, hr, helements⟩ => ⟨hTU.canonical hr, helements.grows hTU hm hr⟩

/-- The element type of a type that fits some array fits a type exactly if the type fits the array
of that type, unless there is an intersection among its alternatives. -/
theorem IsElementTypeOf.assignable_iff (h : T.IsElementTypeOf i e) (hT : T.Tidy)
    (hstrict : T.options.strictNullChecks) (hi : i < T.size) (he : e < T.size)
    (hany : ¬ T.Reaches i TypeId.any) (hx : x ≠ TypeId.any)
    (hq : T.get? q = some (.array TypeId.unknown true)) (hr : T.get? r = some (.array x true))
    (hfits : T.assignable i q) :
    T.assignable e x ↔ T.assignable i r ∧
      ((∀ m ∈ T.alternatives i, ∀ ms, T.get? m ≠ some (.intersection ms)) ∨
        x = TypeId.unknown) := by
  have hb := hT.hasBuiltins
  have hcanonical := hT.canonical hi
  have hxlt : x < T.size := ((hT.canonical (lt_size_of_get? hr)).part hr List.mem_cons_self).lt_size
  have hfit := (hT.assignable_iff_alternatives hi (lt_size_of_get? hq)).mp hfits
  have hanym : ∀ m ∈ T.alternatives i, ¬ T.Reaches m TypeId.any := fun m hm h =>
    hany ((reaches_of_mem_alternatives hm).trans h)
  obtain ⟨rs, hrs, hunion⟩ := h
  have hmem := (List.forall₂_and_left _ _).mpr ⟨fun m hm => hm, hrs⟩
  have hrcanonical : ∀ r ∈ rs, T.Canonical r := forall_right_of_forall₂ hrs fun _ _ hr => hr.1
  have hanyrs : ∀ r ∈ rs, r ≠ TypeId.any := forall_right_of_forall₂ hmem
    fun m _ ⟨hm, _, helements⟩ => helements.ne_any hb (hcanonical.alternatives hm).1 (hanym m hm)
  have halternatives : (∀ r ∈ rs, T.assignable r x) ↔ ∀ m ∈ T.alternatives i, T.assignable m r ∧
      ((∀ ms, T.get? m ≠ some (.intersection ms)) ∨ x = TypeId.unknown) := by
    refine forall_iff_of_forall₂ hmem fun m r' ⟨hm, hr', helements⟩ => ?_
    -- the empty union is its own only alternative, and has no elements
    by_cases hnever : i = TypeId.never
    · subst hnever
      obtain rfl : m = TypeId.never := by simpa [alternatives, hb.never] using hm
      obtain rfl : r' = TypeId.never := by simpa [HasElements, hb.never] using helements
      refine iff_of_true (hT.never_assignable hxlt) ⟨hT.never_assignable (lt_size_of_get? hr), ?_⟩
      simp [hb.never]
    · refine helements.assignable_iff hT hstrict ?_ hr'.lt_size (hanym m hm) hx hq hr (hfit m hm)
      refine hT.isAlternative_of_assignable_array hi ?_ hnever hq hfits hm
      rintro rfl
      exact hany .refl
  rw [hunion.assignable_iff hT (fun r hr => (hrcanonical r hr).lt_size) he
    (fun hmem => hanyrs _ hmem rfl) hxlt, halternatives,
    hT.assignable_iff_alternatives hi (lt_size_of_get? hr)]
  by_cases hunknown : x = TypeId.unknown <;> simp [hunknown, forall_and]

end TypeTable

/-- For a type that fits the array of anything, under strict null checks and without `any`: in every
later table its element type fits a type exactly if it fits the array of that type and either none
of its alternatives is an intersection or that type is `unknown`. So the two questions are one for
all sequences and unions of them, and for `never`. -/
theorem elementType_assignable_iff (hT : Runs (withOptions o) T)
    (hstrict : T.options.strictNullChecks) (hi : i < T.size)
    (he : (elementType i).run T = (e, U)) (hV : Runs U V)
    (hq : V.get? q = some (.array TypeId.unknown true)) (hr : V.get? r = some (.array x true))
    (hfits : V.assignable i q) (hanyi : ¬ V.Reaches i TypeId.any)
    (hanyx : ¬ V.Reaches x TypeId.any) :
    V.assignable e x ↔ V.assignable i r ∧
      ((∀ m ∈ V.alternatives i, ∀ ms, V.get? m ≠ some (.intersection ms)) ∨
        x = TypeId.unknown) := by
  have htidy := hT.tidy
  have hcanonical := htidy.canonical hi
  obtain ⟨hTU, hce, helements⟩ := elementType_isElementTypeOf htidy.hasBuiltins hcanonical
  rw [he] at hTU hce helements
  have hUV := hV.builds (hTU.tidy htidy)
  have hTV := hTU.trans hUV
  refine (helements.grows hUV.grows (hTU.canonical hcanonical) hce).assignable_iff
    (hTV.tidy htidy) ?_ (hTV.canonical hcanonical).lt_size (hUV.canonical hce).lt_size hanyi ?_
    hq hr hfits
  · rwa [hTV.grows.options_eq]
  · rintro rfl
    exact hanyx .refl

/-! ## Branded cases -/

namespace TypeTable

/-- A type reaches `any` only if it is `any` or a part reaches it. -/
theorem not_reaches_any_of_parts {t : Ty} (ht : T.get? i = some t) (hi : i ≠ TypeId.any)
    (hparts : ∀ j ∈ t.parts, ¬ T.Reaches j TypeId.any) : ¬ T.Reaches i TypeId.any := fun h => by
  rcases h.eq_or_part ht with h | ⟨j, hj, h⟩
  · exact hi h.symm
  · exact hparts j hj h

end TypeTable

/-- The elements of an intersection have nothing in common that the table knows. -/
theorem run_elementType_intersection (hi : T.get? i = some (.intersection ms)) :
    (elementType i).run T = (TypeId.unknown, T) := by
  obtain ⟨depth, hdepth⟩ := T.exists_levelBound_eq
  rw [elementType, StateT.run_bind, StateT.run_get, pure_bind, hdepth, elementTypeWithin,
    StateT.run_bind, StateT.run_get, pure_bind, hi]
  rfl

/-- The types of the table do not reach `any`. -/
theorem not_reaches_any_brandTable :
    ¬ (brandTable 6).Reaches TypeId.yes TypeId.any ∧ ¬ (brandTable 6).Reaches 16 TypeId.any ∧
      ¬ (brandTable 6).Reaches 17 TypeId.any := by
  have hb := (runs_brandTable 6).tidy.hasBuiltins
  have hyes : ¬ (brandTable 6).Reaches TypeId.yes TypeId.any :=
    not_reaches_any_of_parts (hb.ofBool true) (by decide) fun j hj => absurd hj List.not_mem_nil
  have hnumber : ¬ (brandTable 6).Reaches TypeId.number TypeId.any :=
    not_reaches_any_of_parts (hb.primitive .number) (by decide) fun j hj =>
      absurd hj List.not_mem_nil
  have hbrand : ¬ (brandTable 6).Reaches 14 TypeId.any :=
    not_reaches_any_of_parts (t := .object [{ name := "a", type := TypeId.number }]) rfl (by decide)
      (List.forall_mem_singleton.mpr hnumber)
  have hcases : ¬ (brandTable 6).Reaches 16 TypeId.any :=
    not_reaches_any_of_parts (t := .tuple [TypeId.yes] false) rfl (by decide)
      (List.forall_mem_singleton.mpr hyes)
  exact ⟨hyes, hcases, not_reaches_any_of_parts (t := .intersection [14, 16]) rfl (by decide)
    (List.forall_mem_cons.mpr ⟨hbrand, List.forall_mem_singleton.mpr hcases⟩)⟩

/-- The cases `[true]` fit the array of `true`, and their element type fits `true`. -/
theorem elementType_assignable_brandTable :
    Runs (withOptions {}) (brandTable 6) ∧ (brandTable 6).options.strictNullChecks ∧
      16 < (brandTable 6).size ∧
      (elementType 16).run (brandTable 6) = (TypeId.yes, brandTable 6) ∧
      Runs (brandTable 6) (brandTable 6) ∧
      (brandTable 6).get? 18 = some (.array TypeId.unknown true) ∧
      (brandTable 6).get? 19 = some (.array TypeId.yes true) ∧ (brandTable 6).assignable 16 18 ∧
      ¬ (brandTable 6).Reaches 16 TypeId.any ∧ ¬ (brandTable 6).Reaches TypeId.yes TypeId.any ∧
      ((brandTable 6).assignable TypeId.yes TypeId.yes ↔ (brandTable 6).assignable 16 19 ∧
        ((∀ m ∈ (brandTable 6).alternatives 16, ∀ ms,
          (brandTable 6).get? m ≠ some (.intersection ms)) ∨ TypeId.yes = TypeId.unknown)) := by
  obtain ⟨hyes, hcases, -⟩ := not_reaches_any_brandTable
  have hruns := runs_brandTable 6
  have hsize : 16 < (brandTable 6).size := by decide
  have hfits : (brandTable 6).assignable 16 18 := by decide
  have htuple : (brandTable 6).get? 16 = some (.tuple [TypeId.yes] false) := rfl
  have hpasses : ∀ r ∈ [Outcome.yes], r = .never ∨ r = .ofBool true := by decide
  have helement : (elementType 16).run (brandTable 6) = (TypeId.yes, brandTable 6) :=
    (run_elementType_tuple htuple).trans (run_unionOf_outcomes hruns.tidy.hasBuiltins hpasses)
  exact ⟨hruns, rfl, hsize, helement, .refl, rfl, rfl, hfits, hcases, hyes,
    elementType_assignable_iff hruns rfl hsize helement .refl rfl rfl hfits hcases hyes⟩

/-- The cases `[true]` with a brand fit the array of `true`, but their element type does not fit
`true`: the batch meets its constraint and is a tuple, and the answer is no. -/
theorem not_elementType_assignable_brandTable :
    Runs (withOptions {}) (brandTable 6) ∧ (brandTable 6).options.strictNullChecks ∧
      (brandTable 6).get? 17 = some (.intersection [14, 16]) ∧
      (brandTable 6).get? 18 = some (.array TypeId.unknown true) ∧
      (brandTable 6).get? 19 = some (.array TypeId.yes true) ∧ (brandTable 6).assignable 17 18 ∧
      ¬ (brandTable 6).Reaches 17 TypeId.any ∧ ¬ (brandTable 6).Reaches TypeId.yes TypeId.any ∧
      (elementType 17).run (brandTable 6) = (TypeId.unknown, brandTable 6) ∧
      (brandTable 6).assignable 17 19 ∧
      ¬ (brandTable 6).assignable TypeId.unknown TypeId.yes ∧
      (brandTable 6).isTuple 17 = .yes ∧
      (foldBatch 17 true).on (brandTable 6) = (.ok .no, brandTable 6) := by
  obtain ⟨hyes, -, hbranded⟩ := not_reaches_any_brandTable
  have hb := (runs_brandTable 6).tidy.hasBuiltins
  have hinter : (brandTable 6).get? 17 = some (.intersection [14, 16]) := rfl
  have helement := run_elementType_intersection hinter
  have htuple : (brandTable 6).isTuple 17 = .yes := by decide
  have hfold : (foldBatch 17 true).on (brandTable 6) = (.ok .no, brandTable 6) := by
    have hlift : (monadLift (elementType 17) : Building TypeId).on (brandTable 6) =
        (.ok TypeId.unknown, brandTable 6) := by
      rw [on_lift, helement]
    rw [foldBatch, on_bind_ok hlift, on_bind_ok (on_equal_ok
      (on_normalize hb hb.canonical_unknown) (on_normalize hb (hb.canonical_ofBool true))),
      on_get_bind, htuple]
    rfl
  exact ⟨runs_brandTable 6, rfl, hinter, rfl, rfl, by decide, hbranded, hyes, helement, by decide,
    by decide, htuple, hfold⟩

end TypeAssay
