import TypeAssay.Proofs.Canonical
import TypeAssay.Proofs.Offers
import TypeAssay.Relation.Extends

/-!
# Answers that stay the same

What a table answers about its types does not change when it grows, whatever is interned, provided
that its nodes refer to smaller ids (`stable_answers`).

The rules of assignability go down to smaller ids: either the target gets smaller, or it stays and
the source does. So they need no more levels than there are pairs of ids, and with enough levels
neither their number nor the types that came later matter (`assignableWithin_eq`).

There is one place where a later table has more to say. The count of the elements of a tuple is
looked up among the types, and the literal for it may have been interned in between. But a literal
that an earlier target does not know fits it exactly when `number` does
(`assignableWithin_fresh_eq`).
-/

namespace TypeAssay

namespace TypeTable

variable {T U : TypeTable} {s t i : TypeId} {a b : Ty} {f g : TypeId → TypeId → Bool}

/-! ## One step in two tables -/

/-- An old type offers the same members. -/
theorem Grows.offers?_eq (h : Grows T U) (hi : i < T.size) : U.offers? i = T.offers? i := by
  rw [offers?, offers?, h.get?_eq hi]

/-- Which types count as null depends on the options only. -/
theorem Grows.isLooseNull_eq (h : Grows T U) : U.isLooseNull a = T.isLooseNull a := by
  rw [isLooseNull.eq_def, isLooseNull.eq_def, h.options_eq]

/-- Offers meet a property alike if they fit its type alike. -/
theorem meetsProperty_eq {offers : List Offer} {wanted : Property}
    (h : ∀ o ∈ offers, f (U.offerType o) wanted.type = g (T.offerType o) wanted.type) :
    U.meetsProperty f offers wanted = T.meetsProperty g offers wanted := by
  have hany : (offers.filter (·.name = wanted.name)).any (fun o => f (U.offerType o) wanted.type) =
      (offers.filter (·.name = wanted.name)).any fun o => g (T.offerType o) wanted.type :=
    any_eq_of_forall_mem fun o ho => h o (List.mem_filter.mp ho).1
  rw [meetsProperty, meetsProperty]
  split
  · rfl
  · rw [hany]

/-- Sources offer the same in both tables, so it is enough that the relations agree on what they
offer. -/
theorem meetsShape_eq {sources : List TypeId} {wanted : List Property}
    (hsources : ∀ s ∈ sources, U.offers? s = T.offers? s)
    (h : ∀ s ∈ sources, ∀ os, T.offers? s = some os → ∀ o ∈ os, ∀ p ∈ wanted,
      f (U.offerType o) p.type = g (T.offerType o) p.type) :
    U.meetsShape f sources wanted = T.meetsShape g sources wanted := by
  rw [meetsShape, meetsShape, mapM_eq_of_forall_mem hsources]
  split
  · rfl
  · rename_i offers hoffers
    refine all_eq_of_forall_mem fun p hp => meetsProperty_eq fun o ho => ?_
    obtain ⟨os, hos, ho⟩ := List.mem_flatten.mp ho
    obtain ⟨s, hs, hsos⟩ := (mem_of_mapM_eq_some hoffers).1 os hos
    exact h s hs os hsos o ho p hp

/-- Two relations agree where the rules for `s` and `t` ask: on smaller targets, on smaller sources
for `t` itself, and on counts for smaller targets. -/
structure Agree (U T : TypeTable) (f g : TypeId → TypeId → Bool) (s t : TypeId) : Prop where
  target : ∀ a b, a < T.size → b < t → f a b = g a b
  source : ∀ a, a < s → f a t = g a t
  count : ∀ n b, b < t → f (U.countType n) b = g (T.countType n) b

/-- The members that a type offers fit the properties of a target alike. -/
theorem Agree.offerType_eq {os : List Offer} {o : Offer} {j : TypeId} (h : Agree U T f g s t)
    (hT : T.Descends) (hb : T.HasBuiltins) (hos : T.offers? i = some os) (ho : o ∈ os)
    (hj : j < t) : f (U.offerType o) j = g (T.offerType o) j := by
  cases o with
  | property p =>
    obtain ⟨ps, hps, hp⟩ := exists_object_of_offers? hos ho
    have hlt : p.type < i := hT i _ hps p.type (List.mem_map_of_mem hp)
    exact h.target _ _ (Nat.lt_trans hlt (lt_size_of_get? hps)) hj
  | length => exact h.target _ _ (lt_size_of_get? (hb.primitive .number)) hj
  | lengthOf n => exact h.count n j hj

/-- The structural rules give the same answer where they ask relations that agree. -/
theorem structuralStep_eq (hTU : Grows T U) (hT : T.Descends) (hb : T.HasBuiltins)
    (hs : T.get? s = some a) (ht : T.get? t = some b) (h : Agree U T f g s t) :
    U.structuralStep f s t a b = T.structuralStep g s t a b := by
  have hpart : ∀ j ∈ a.parts, j < s := hT s a hs
  have htarget : ∀ j ∈ b.parts, j < t := hT t b ht
  have hsize : ∀ j ∈ a.parts, j < T.size := fun j hj =>
    Nat.lt_trans (hpart j hj) (lt_size_of_get? hs)
  have hshape : ∀ sources wanted, b = .object wanted → (∀ m ∈ sources, m < T.size) →
      U.meetsShape f sources wanted = T.meetsShape g sources wanted := by
    rintro sources wanted rfl hsources
    refine meetsShape_eq (fun m hm => hTU.offers?_eq (hsources m hm)) ?_
    intro m hm os hos o ho p hp
    exact h.offerType_eq hT hb hos ho (htarget p.type (List.mem_map_of_mem hp))
  rw [structuralStep.eq_def, structuralStep.eq_def]
  split
  -- unions and intersections ask for the same target, or for the same source
  · exact all_eq_of_forall_mem fun m hm => h.source m (hpart m hm)
  · exact any_eq_of_forall_mem fun m hm => h.target s m (lt_size_of_get? hs) (htarget m hm)
  · exact all_eq_of_forall_mem fun m hm => h.target s m (lt_size_of_get? hs) (htarget m hm)
  · rename_i ms wanted
    have hmembers : ms.any (f · t) = ms.any (g · t) :=
      any_eq_of_forall_mem fun m hm => h.source m (hpart m hm)
    rw [hmembers, hshape ms wanted rfl hsize]
  · exact any_eq_of_forall_mem fun m hm => h.source m (hpart m hm)
  -- literals and primitives, and the keyword `object`, ask nothing
  · rfl
  · rfl
  · rfl
  · rfl
  · rfl
  · rfl
  -- sequences ask for their elements
  · rename_i e readonly e' readonly'
    rw [h.target e e' (hsize e List.mem_cons_self) (htarget e' List.mem_cons_self)]
  · rename_i es readonly e' readonly'
    have helements : es.all (f · e') = es.all (g · e') := all_eq_of_forall_mem fun e he =>
      h.target e e' (hsize e he) (htarget e' List.mem_cons_self)
    rw [helements]
  · rename_i es readonly es' readonly'
    refine congrArg (_ && ·) (all_eq_of_forall_mem fun x hx => ?_)
    obtain ⟨e, e'⟩ := x
    obtain ⟨he, he'⟩ := List.of_mem_zip hx
    exact h.target e e' (hsize e he) (htarget e' he')
  · rename_i wanted _ _
    refine hshape [s] wanted rfl fun m hm => ?_
    obtain rfl := List.mem_singleton.mp hm
    exact lt_size_of_get? hs
  · rfl

/-- The rules for two nodes give the same answer where they ask relations that agree. -/
theorem nodeStep_eq (hTU : Grows T U) (hT : T.Descends) (hb : T.HasBuiltins)
    (hs : T.get? s = some a) (ht : T.get? t = some b) (h : Agree U T f g s t) :
    U.nodeStep f s t a b = T.nodeStep g s t a b := by
  rw [nodeStep.eq_def, nodeStep.eq_def]
  split
  -- the rules for `any`, `unknown` and `never` ask nothing
  · rfl
  · rfl
  · rfl
  · rfl
  · rfl
  · rfl
  · rw [hTU.isLooseNull_eq, structuralStep_eq hTU hT hb hs ht h]

/-- One step gives the same answer where it asks relations that agree. -/
theorem assignableStep_eq (hTU : Grows T U) (hT : T.Descends) (hb : T.HasBuiltins)
    (hs : s < T.size) (ht : t < T.size) (h : Agree U T f g s t) :
    U.assignableStep f s t = T.assignableStep g s t := by
  obtain ⟨a, ha⟩ := exists_get?_of_lt_size hs
  obtain ⟨b, hb'⟩ := exists_get?_of_lt_size ht
  rw [assignableStep, assignableStep, hTU.get? ha, hTU.get? hb', ha, hb']
  dsimp only
  rw [nodeStep_eq hTU hT hb ha hb' h]

/-! ## Literals that came later -/

/-- Without members only optional properties are met. -/
theorem meetsShape_of_offers?_nil {wanted : List Property} (h : T.offers? i = some []) :
    T.meetsShape f [i] wanted = wanted.all (·.optional) := by
  rw [meetsShape, List.mapM_cons, h]
  rfl

/-- A number literal that a target cannot mention fits it exactly when `number` does. -/
theorem assignableWithin_fresh_eq (hTU : Grows T U) (hT : T.Descends) (hb : T.HasBuiltins)
    {x : Binary64} (hi : U.get? i = some (.literal (.number x))) (hnew : T.size ≤ i)
    (ht : t < T.size) {d e : Nat} (hd : t < d) (he : t < e) :
    U.assignableWithin d i t = T.assignableWithin e TypeId.number t := by
  -- by strong induction on the target, whose parts have smaller ids
  induction t using Nat.strong_induction_on generalizing d e with
  | _ t ih =>
    obtain ⟨d, rfl⟩ := Nat.exists_eq_add_one_of_ne_zero (Nat.ne_zero_of_lt hd)
    obtain ⟨e, rfl⟩ := Nat.exists_eq_add_one_of_ne_zero (Nat.ne_zero_of_lt he)
    obtain ⟨b, hget⟩ := exists_get?_of_lt_size ht
    have hpart : ∀ j ∈ b.parts,
        U.assignableWithin d i j = T.assignableWithin e TypeId.number j := by
      intro j hj
      have hlt : j < t := hT t b hget j hj
      exact ih j hlt (Nat.lt_trans hlt ht) (Nat.lt_of_lt_of_le hlt (Nat.le_of_lt_succ hd))
        (Nat.lt_of_lt_of_le hlt (Nat.le_of_lt_succ he))
    have hnumber : T.get? TypeId.number = some (.primitive .number) := hb.primitive .number
    have hne : (i == t) = false :=
      beq_eq_false_iff_ne.mpr (Nat.ne_of_gt (Nat.lt_of_lt_of_le ht hnew))
    -- only at `number` itself does identity decide; everywhere else the rules do
    have hother : b ≠ .primitive .number → (TypeId.number == t) = false := by
      intro hb'
      refine beq_eq_false_iff_ne.mpr ?_
      rintro rfl
      exact hb' (Option.some.inj (hget.symm.trans hnumber))
    rw [assignableWithin, assignableWithin, assignableStep, assignableStep, hi, hTU.get? hget, hget,
      hnumber, hne, Bool.false_or]
    cases b with
    | any | unknown => simp [nodeStep]
    | never | tuple _ _ | array _ _ =>
      rw [hother (by simp)]
      rfl
    | literal l =>
      have hl : Literal.number x ≠ l := by
        rintro rfl
        exact absurd (get?_injective hi (hTU.get? hget)) (beq_eq_false_iff_ne.mp hne)
      rw [hother (by simp)]
      simp [nodeStep, isLooseNull, structuralStep, hl]
    | primitive p =>
      by_cases hp : p = .number
      · subst hp
        simp [nodeStep, isLooseNull, structuralStep, Literal.base?]
      · rw [hother (by simpa using hp)]
        simp [nodeStep, isLooseNull, structuralStep, Literal.base?]
    | union ms =>
      rw [hother (by simp)]
      exact any_eq_of_forall_mem hpart
    | intersection ms =>
      rw [hother (by simp)]
      exact all_eq_of_forall_mem hpart
    | object ps =>
      -- neither offers any member
      rw [hother (by simp)]
      have hliteral : U.offers? i = some [] := by rw [offers?, hi]
      have hnone : T.offers? TypeId.number = some [] := by
        rw [offers?, hnumber]
        rfl
      exact (meetsShape_of_offers?_nil hliteral).trans (meetsShape_of_offers?_nil hnone).symm

/-! ## All steps -/

/-- Levels that are enough for a source and a target. -/
def rank (T : TypeTable) (s t : TypeId) : Nat := t * T.size + s

/-- A smaller target takes fewer levels, whatever the source. -/
theorem rank_lt_of_target {a b : TypeId} (ha : a < T.size) (hb : b < t) :
    T.rank a b < T.rank s t := by
  calc b * T.size + a < b * T.size + T.size := Nat.add_lt_add_left ha _
    _ = (b + 1) * T.size := (Nat.succ_mul b T.size).symm
    _ ≤ t * T.size := Nat.mul_le_mul_right _ hb
    _ ≤ t * T.size + s := Nat.le_add_right _ _

/-- A target takes at most the levels of a pair with it. -/
theorem le_rank (hs : s < T.size) : t ≤ T.rank s t := by
  calc t = t * 1 := (Nat.mul_one t).symm
    _ ≤ t * T.size := Nat.mul_le_mul_left t (Nat.lt_of_le_of_lt (Nat.zero_le s) hs)
    _ ≤ t * T.size + s := Nat.le_add_right _ _

/-- The count of a tuple fits a target alike in both tables: its literal has the same id in both, or
came later, or is in neither. -/
theorem assignableWithin_countType_eq (hTU : Grows T U) (hT : T.Descends) (hb : T.HasBuiltins)
    {d e : Nat} (n : Nat) (ht : t < T.size) (hd : t < d) (he : t < e)
    (h : ∀ s, s < T.size → U.assignableWithin d s t = T.assignableWithin e s t) :
    U.assignableWithin d (U.countType n) t = T.assignableWithin e (T.countType n) t := by
  have hnumber := h TypeId.number (lt_size_of_get? (hb.primitive .number))
  rw [countType, countType]
  cases hold : T.lookup (.literal (.number (.ofNat n))) with
  -- the literal was there, so both tables look up the same id
  | some i =>
    have hi := lookup_eq_some_iff.mp hold
    rw [lookup_eq_some_iff.mpr (hTU.get? hi)]
    exact h i (lt_size_of_get? hi)
  | none =>
    cases hlater : U.lookup (.literal (.number (.ofNat n))) with
    -- no literal in either table: both fall back to `number`
    | none => exact hnumber
    | some i =>
      have hi := lookup_eq_some_iff.mp hlater
      have hnew : T.size ≤ i := by
        by_contra hlt
        rw [hTU.get?_eq (Nat.not_le.mp hlt)] at hi
        exact lookup_eq_none_iff.mp hold i hi
      exact assignableWithin_fresh_eq hTU hT hb hi hnew ht hd he

/-- With enough levels the answer depends neither on their number nor on the types that came
later. -/
theorem assignableWithin_eq (hTU : Grows T U) (hT : T.Descends) (hb : T.HasBuiltins) {d e : Nat}
    (hs : s < T.size) (ht : t < T.size) (hd : T.rank s t < d) (he : T.rank s t < e) :
    U.assignableWithin d s t = T.assignableWithin e s t := by
  induction d generalizing e s t with
  | zero => exact absurd hd (Nat.not_lt_zero _)
  -- by induction on the levels: each question that a step puts has a smaller rank
  | succ d ih =>
    obtain ⟨e, rfl⟩ := Nat.exists_eq_add_one_of_ne_zero (Nat.ne_zero_of_lt he)
    have htarget : ∀ a b, a < T.size → b < t →
        U.assignableWithin d a b = T.assignableWithin e a b := by
      intro a b ha hbt
      have hlt := rank_lt_of_target (s := s) ha hbt
      exact ih ha (Nat.lt_trans hbt ht) (Nat.lt_of_lt_of_le hlt (Nat.le_of_lt_succ hd))
        (Nat.lt_of_lt_of_le hlt (Nat.le_of_lt_succ he))
    refine assignableStep_eq hTU hT hb hs ht ⟨htarget, fun a ha => ?_, fun n b hbt => ?_⟩
    · have hlt : T.rank a t < T.rank s t := Nat.add_lt_add_left ha _
      exact ih (Nat.lt_trans ha hs) ht (Nat.lt_of_lt_of_le hlt (Nat.le_of_lt_succ hd))
        (Nat.lt_of_lt_of_le hlt (Nat.le_of_lt_succ he))
    · have hlt : b < T.rank s t := Nat.lt_of_lt_of_le hbt (le_rank hs)
      exact assignableWithin_countType_eq hTU hT hb n (Nat.lt_trans hbt ht)
        (Nat.lt_of_lt_of_le hlt (Nat.le_of_lt_succ hd))
        (Nat.lt_of_lt_of_le hlt (Nat.le_of_lt_succ he)) fun a ha => htarget a b ha hbt

/-- The levels that assignability allows are enough, even one level further down. -/
theorem rank_lt_levels (hs : s < T.size) (ht : t < T.size) :
    T.rank s t < (T.size + 1) * (T.size + 1) := by
  calc T.rank s t < (t + 1) * T.size := by
        rw [Nat.succ_mul]
        exact Nat.add_lt_add_left hs _
    _ ≤ (T.size + 1) * (T.size + 1) := Nat.mul_le_mul (Nat.succ_le_succ (Nat.le_of_lt ht))
        (Nat.le_succ _)

/-- Assignability satisfies its own rules. -/
theorem assignable_eq_step (hT : T.Descends) (hb : T.HasBuiltins) (hs : s < T.size)
    (ht : t < T.size) : T.assignable s t = T.assignableStep T.assignable s t := by
  -- one level more changes nothing, and that is what a step adds
  have hsame : ∀ a b, a < T.size → b < T.size →
      T.assignableWithin ((T.size + 1) * (T.size + 1)) a b = T.assignable a b := by
    intro a b ha hb'
    have hlevels := rank_lt_levels ha hb'
    exact assignableWithin_eq .refl hT hb ha hb' hlevels (Nat.lt_succ_of_lt hlevels)
  refine assignableStep_eq .refl hT hb hs ht
    ⟨fun a b ha hbt => ?_, fun a ha => ?_, fun n b hbt => ?_⟩
  · exact hsame a b ha (Nat.lt_trans hbt ht)
  · exact hsame a t (Nat.lt_trans ha hs) ht
  · refine hsame _ b ?_ (Nat.lt_trans hbt ht)
    rw [countType]
    cases hlookup : T.lookup (.literal (.number (.ofNat n))) with
    | none => exact lt_size_of_get? (hb.primitive .number)
    | some i => exact lt_size_of_get? (lookup_eq_some_iff.mp hlookup)

/-- Every id fits itself. -/
theorem assignable_self (i : TypeId) : T.assignable i i := by
  simp [assignable, assignableWithin, assignableStep]

/-! ## Answers about types -/

/-- Assignability does not change when the table grows. -/
theorem Grows.assignable_eq (hTU : Grows T U) (hT : T.Descends) (hb : T.HasBuiltins)
    (hs : s < T.size) (ht : t < T.size) : U.assignable s t = T.assignable s t := by
  have hlevels := Nat.lt_succ_of_lt (rank_lt_levels hs ht)
  refine assignableWithin_eq hTU hT hb hs ht (Nat.lt_of_lt_of_le hlevels ?_) hlevels
  have hsize := Nat.succ_le_succ hTU.size_le
  exact Nat.succ_le_succ (Nat.mul_le_mul hsize hsize)

/-- Whether an old type is `never` stays the same. -/
theorem Grows.isNever_eq (h : Grows T U) (hi : i < T.size) : U.isNever i = T.isNever i := by
  rw [isNever, isNever, h.get?_eq hi]

/-- Whether an old type is `any` stays the same. -/
theorem Grows.isAny_eq (h : Grows T U) (hi : i < T.size) : U.isAny i = T.isAny i := by
  rw [isAny, isAny, h.get?_eq hi]

/-- Whether an old type is a union stays the same. -/
theorem Grows.isUnionType_eq (h : Grows T U) (hi : i < T.size) :
    U.isUnionType i = T.isUnionType i := by
  rw [isUnionType, isUnionType, h.get?_eq hi]

/-- Whether an old type is like `unknown` stays the same. -/
theorem Grows.isUnknown_eq (h : Grows T U) (hT : T.Descends) (hb : T.HasBuiltins)
    (hi : i < T.size) : U.isUnknown i = T.isUnknown i := by
  have hunknown : TypeId.unknown < T.size := lt_size_of_get? hb.unknown
  rw [isUnknown, isUnknown, h.assignable_eq hT hb hunknown hi, h.isAny_eq hi, h.isNever_eq hi]

/-! ### Relations -/

/-- Whether an old type is a top type stays the same. -/
theorem Grows.isTop_eq (h : Grows T U) (hi : i < T.size) : U.isTop i = T.isTop i := by
  rw [isTop, isTop, h.get?_eq hi]

/-- The alternatives of a type are types of the table. -/
theorem lt_size_of_mem_subjects {m : TypeId} (hT : T.Descends) (hi : i < T.size)
    (hm : m ∈ T.subjects i) : m < T.size := by
  rw [subjects] at hm
  split at hm
  · exact absurd hm (by simp)
  · rename_i ms hget
    exact Nat.lt_trans (hT i _ hget m hm) hi
  · exact List.mem_singleton.mp hm ▸ hi

/-- Whether one old type extends another stays the same. -/
theorem Grows.extendsType_eq (h : Grows T U) (hT : T.Descends) (hb : T.HasBuiltins)
    (hs : s < T.size) (ht : t < T.size) : U.extendsType s t = T.extendsType s t := by
  rw [extendsType, extendsType, h.subjects_eq hs]
  refine congrArg Outcome.unionAll (List.map_congr_left fun m hm => ?_)
  have hlt := lt_size_of_mem_subjects hT hs hm
  rw [extendsAlternative, extendsAlternative, h.get?_eq hlt, h.isTop_eq ht,
    h.assignable_eq hT hb hlt ht]

/-- Whether two old types are equal, compared in the simple way, stays the same. -/
theorem Grows.simpleEqual_eq (h : Grows T U) (hT : T.Descends) (hb : T.HasBuiltins)
    (hs : s < T.size) (ht : t < T.size) : U.simpleEqual s t = T.simpleEqual s t := by
  rw [simpleEqual, simpleEqual, h.subjects_eq hs]
  refine congrArg Outcome.unionAll (List.map_congr_left fun m hm => ?_)
  have hlt := lt_size_of_mem_subjects hT hs hm
  rw [simpleEqualAlternative, simpleEqualAlternative, h.get?_eq hlt, h.isTop_eq ht,
    h.assignable_eq hT hb hlt ht, h.extendsType_eq hT hb ht hlt]

/-! ### Tuples -/

/-- Whether an old object type fixes a length stays the same. -/
theorem Grows.fixesLength_eq (h : Grows T U) (hT : T.Descends) (hi : i < T.size) :
    U.fixesLength i = T.fixesLength i := by
  rw [fixesLength, fixesLength, h.get?_eq hi]
  split
  · rfl
  · rename_i ps hget
    refine any_eq_of_forall_mem fun p hp => ?_
    have hlt : p.type < i := hT i _ hget p.type (List.mem_map_of_mem (f := (·.type)) hp)
    rw [h.get?_eq (Nat.lt_trans hlt hi)]
  · rfl

/-- Whether an old alternative is a tuple stays the same. -/
theorem Grows.isTupleAlternative_eq (h : Grows T U) (hT : T.Descends) (hi : i < T.size) :
    U.isTupleAlternative i = T.isTupleAlternative i := by
  rw [isTupleAlternative, isTupleAlternative, h.get?_eq hi]
  split
  · rfl
  · rename_i ms hget
    have hlt : ∀ m ∈ ms, m < T.size := fun m hm => Nat.lt_trans (hT i _ hget m hm) hi
    have hsequence : ms.any (fun m => (U.get? m).any Ty.isSequence) =
        ms.any fun m => (T.get? m).any Ty.isSequence :=
      any_eq_of_forall_mem fun m hm => by rw [h.get?_eq (hlt m hm)]
    have hlength : ms.any U.fixesLength = ms.any T.fixesLength :=
      any_eq_of_forall_mem fun m hm => h.fixesLength_eq hT (hlt m hm)
    rw [hsequence, hlength]
  · rfl

/-- Whether an old type is a tuple stays the same. -/
theorem Grows.isTuple_eq (h : Grows T U) (hT : T.Descends) (hi : i < T.size) :
    U.isTuple i = T.isTuple i := by
  rw [isTuple, isTuple, h.isNever_eq hi, h.get?_eq hi]
  split
  · rfl
  split
  · rename_i ms hget
    refine congrArg Outcome.unionAll (List.map_congr_left fun m hm => ?_)
    rw [h.isTupleAlternative_eq hT (Nat.lt_trans (hT i _ hget m hm) hi)]
  · rw [h.isTupleAlternative_eq hT hi]

/-! ## Growth -/

/-- Answers are stable: in a table that comes from a new one by interning nodes as they are, and
whose nodes refer to smaller ids, no answer about its types changes by what is interned later. In
particular it does not matter for the length of a tuple whether its literal is there. -/
theorem stable_answers {o : Options} (hT : Grows (withOptions o) T) (hdescends : T.Descends)
    (hTU : Grows T U) (hs : s < T.size) (ht : t < T.size) :
    U.assignable s t = T.assignable s t ∧
      U.extendsType s t = T.extendsType s t ∧
      U.simpleEqual s t = T.simpleEqual s t ∧
      U.isNever s = T.isNever s ∧
      U.isAny s = T.isAny s ∧
      U.isUnknown s = T.isUnknown s ∧
      U.isUnionType s = T.isUnionType s ∧
      U.isTuple s = T.isTuple s ∧
      ∀ n, (T.intern (.literal (.number (.ofNat n)))).2.assignable s t = T.assignable s t := by
  have hb := hT.hasBuiltins (hasBuiltins_withOptions o)
  exact ⟨hTU.assignable_eq hdescends hb hs ht, hTU.extendsType_eq hdescends hb hs ht,
    hTU.simpleEqual_eq hdescends hb hs ht, hTU.isNever_eq hs, hTU.isAny_eq hs,
    hTU.isUnknown_eq hdescends hb hs, hTU.isUnionType_eq hs, hTU.isTuple_eq hdescends hs,
    fun n => (grows_intern T _).assignable_eq hdescends hb hs ht⟩

/-! ### A tuple and its length -/

/-- A table with a pair and the object type of what has a number as its `length`. -/
def lengthTable : TypeTable :=
  (((withOptions {}).intern (.tuple [TypeId.number, TypeId.string] false)).2.intern
    (.object [{ name := "length", type := TypeId.number }])).2

/-- The table comes from a new one. -/
theorem grows_lengthTable : Grows (withOptions {}) lengthTable :=
  (grows_intern _ _).trans (grows_intern _ _)

/-- The pair has the first id behind the built-in types. -/
theorem get?_lengthTable_tuple :
    lengthTable.get? 14 = some (.tuple [TypeId.number, TypeId.string] false) :=
  (grows_intern _ _).get? (get?_intern_withOptions (by decide))

/-- The object type has the next id. -/
theorem get?_lengthTable_object :
    lengthTable.get? 15 = some (.object [{ name := "length", type := TypeId.number }]) := by
  have hget := get?_intern_size (T := ((withOptions {}).intern
    (.tuple [TypeId.number, TypeId.string] false)).2)
    (t := .object [{ name := "length", type := TypeId.number }])
    (lookup_intern_eq_none (lookup_withOptions_eq_none (by decide)) (by decide))
  rwa [size_intern (lookup_withOptions_eq_none (by decide)), size_withOptions] at hget

/-- Both refer to built-in types only. -/
theorem descends_lengthTable : lengthTable.Descends := by
  refine ((descends_withOptions {}).intern ?_).intern fun j hj => ?_
  · rw [size_withOptions]
    decide
  · obtain rfl := List.mem_singleton.mp hj
    refine Nat.lt_of_lt_of_le ?_ (size_le_size_intern _ _)
    rw [size_withOptions]
    decide

/-- Nobody mentioned the literal `2`, so the length of the pair is a number. -/
theorem countType_lengthTable : lengthTable.countType 2 = TypeId.number := by
  have hnew : lengthTable.lookup (.literal (.number (.ofNat 2))) = none := by
    refine lookup_intern_eq_none (lookup_intern_eq_none (lookup_withOptions_eq_none ?_) ?_) ?_
    · simp [builtins, Primitive.all]
    · simp
    · simp
  rw [countType, hnew]
  rfl

/-- The pair fits, since `number` does. -/
theorem assignable_lengthTable : lengthTable.assignable 14 15 := by
  have hb := grows_lengthTable.hasBuiltins (hasBuiltins_withOptions {})
  have hoffers : lengthTable.offers? 14 = some [.lengthOf 2] := by
    rw [offers?, get?_lengthTable_tuple]
    rfl
  have hnumber : lengthTable.assignable (lengthTable.countType 2) TypeId.number := by
    rw [countType_lengthTable]
    exact assignable_self TypeId.number
  rw [assignable_eq_step descends_lengthTable hb (lt_size_of_get? get?_lengthTable_tuple)
    (lt_size_of_get? get?_lengthTable_object), assignableStep, get?_lengthTable_tuple,
    get?_lengthTable_object]
  change lengthTable.meetsShape lengthTable.assignable [14] _ = true
  rw [meetsShape, List.mapM_cons, hoffers]
  simp [meetsProperty, Offer.name, Offer.optional, offerType, hnumber]

/-- The pair fits before the literal for its length is interned and after. -/
theorem stable_answers_lengthTable :
    Grows (withOptions {}) lengthTable ∧ lengthTable.Descends ∧
      Grows lengthTable (lengthTable.intern (.literal (.number (.ofNat 2)))).2 ∧
      14 < lengthTable.size ∧ 15 < lengthTable.size ∧ lengthTable.assignable 14 15 ∧
      (lengthTable.intern (.literal (.number (.ofNat 2)))).2.assignable 14 15 := by
  have htuple := lt_size_of_get? get?_lengthTable_tuple
  have hobject := lt_size_of_get? get?_lengthTable_object
  have hgrows := grows_intern lengthTable (.literal (.number (.ofNat 2)))
  obtain ⟨hassignable, -⟩ :=
    stable_answers grows_lengthTable descends_lengthTable hgrows htuple hobject
  exact ⟨grows_lengthTable, descends_lengthTable, hgrows, htuple, hobject, assignable_lengthTable,
    hassignable.trans assignable_lengthTable⟩

end TypeTable

end TypeAssay
