import TypeAssay.Proofs.Soundness
import TypeAssay.Proofs.UpperBounds

/-!
# Transitivity

Assignability is transitive among types that reach neither `any` nor `object` nor an optional
property (`assignable_trans`), under strict and under loose null checks.

The proof goes down as the rules do: to parts of the last type, or to parts of the middle one with
the last unchanged, or to parts of the first with both unchanged. `TransitiveBelow` says that the
relation is transitive there, and each form of the middle and the last type has its lemma. Where the
last is an object type, the middle one offers its members, and whatever fits the middle one offers
members that fit those (`Tidy.exists_offer_of_assignable`).
-/

namespace TypeAssay

namespace TypeTable

variable {T : TypeTable} {s t u d i j : TypeId} {a b c : Ty} {ms : List TypeId} {os : List Offer}
  {o : Offer} {wanted : List Property} {fits : TypeId → TypeId → Bool}

/-! ## Types without escape hatches -/

/-- A type that reaches neither `any` nor `object` nor an optional property. -/
structure Firm (T : TypeTable) (i : TypeId) : Prop extends T.Demanding i where
  no_any : ¬ T.Reaches i TypeId.any

/-- The parts of a firm type are firm. -/
theorem Firm.part (h : T.Firm i) (hi : T.get? i = some a) (hj : j ∈ a.parts) : T.Firm j :=
  ⟨h.toDemanding.part hi hj, fun hany => h.no_any (.of_part hi hj hany)⟩

/-- The constraints of a firm type are firm. -/
theorem Firm.constraint (h : T.Firm i) (hd : d ∈ T.constraints i) : T.Firm d := by
  rw [constraints] at hd
  split at hd
  · rename_i hget
    exact h.part hget hd
  · exact List.mem_singleton.mp hd ▸ h

/-- A firm type is not `any`. -/
theorem Firm.ne_any (h : T.Firm i) : i ≠ TypeId.any := by
  rintro rfl
  exact h.no_any .refl

/-- A type of firm parts is firm, unless it is `any` or `object` or has an optional property. -/
theorem HasBuiltins.firm_of_parts (hb : T.HasBuiltins) (hi : T.get? i = some a) (hany : a ≠ .any)
    (hobject : a ≠ .primitive .object)
    (hrequired : ∀ ps, a = .object ps → ∀ p ∈ ps, p.optional = false)
    (hparts : ∀ j ∈ a.parts, T.Firm j) : T.Firm i := by
  refine ⟨⟨fun h => ?_, fun j ps hj hps => ?_⟩, fun h => ?_⟩
  · rcases h.eq_or_part hi with rfl | ⟨k, hk, h⟩
    · exact hobject (Option.some.inj (hi.symm.trans (hb.primitive .object)))
    · exact (hparts k hk).no_object h
  · rcases hj.eq_or_part hi with rfl | ⟨k, hk, hj⟩
    · exact hrequired ps (Option.some.inj (hi.symm.trans hps))
    · exact (hparts k hk).required j ps hj hps
  · rcases h.eq_or_part hi with rfl | ⟨k, hk, h⟩
    · exact hany (Option.some.inj (hi.symm.trans hb.any))
    · exact (hparts k hk).no_any h

/-- A type without parts is firm, but for `any` and `object`. -/
theorem HasBuiltins.firm_of_leaf (hb : T.HasBuiltins) (hi : T.get? i = some a)
    (hparts : a.parts = []) (hany : a ≠ .any) (hobject : a ≠ .primitive .object) : T.Firm i := by
  refine hb.firm_of_parts hi hany hobject (fun ps hps p hp => ?_) (by simp [hparts])
  rw [hps] at hparts
  obtain rfl : ps = [] := List.map_eq_nil_iff.mp hparts
  exact absurd hp List.not_mem_nil

/-- The type `number` is firm. -/
theorem HasBuiltins.firm_number (hb : T.HasBuiltins) : T.Firm TypeId.number :=
  hb.firm_of_leaf (hb.primitive .number) rfl (by simp) (by simp)

/-- A firm type offers members that are there for sure, of firm types. -/
theorem Firm.offers (h : T.Firm s) (hb : T.HasBuiltins) (ho : T.Offers s o) :
    o.optional = false ∧ T.Firm (T.offerType o) := by
  obtain ⟨os, hos, ho⟩ := ho
  cases o with
  | length => exact ⟨rfl, hb.firm_number⟩
  | lengthOf n =>
    refine ⟨rfl, ?_⟩
    rw [offerType, countType]
    cases hlookup : T.lookup (.literal (.number (.ofNat n))) with
    | none => exact hb.firm_number
    | some i => exact hb.firm_of_leaf (lookup_eq_some_iff.mp hlookup) rfl (by simp) (by simp)
  | property p =>
    obtain ⟨ps, hps, hp⟩ := exists_object_of_offers? hos ho
    exact ⟨h.required s ps .refl hps p hp, h.part hps (List.mem_map_of_mem hp)⟩

/-! ## Sources of constraints -/

/-- A type that fits everything but `never` because null checks are loose. -/
def Loose (T : TypeTable) (s : TypeId) : Prop := ∃ a, T.get? s = some a ∧ T.isLooseNull a

/-- A loose null fits everything but `never`. -/
theorem Tidy.assignable_of_loose (hT : T.Tidy) (hs : T.Loose s) (hu : T.get? u = some c)
    (hc : c ≠ .never) : T.assignable s u := by
  obtain ⟨a, ha, hloose⟩ := hs
  exact hT.loose_assignable ha hloose hu hc

/-- A loose type stands alone. -/
theorem IsAlternative.eq_of_loose (hs : T.IsAlternative s) (hb : T.HasBuiltins)
    (hd : d ∈ T.constraints s) (hloose : T.Loose d) : s = d := by
  obtain ⟨b, hdb, hloose⟩ := hloose
  obtain ⟨p, rfl, hp⟩ := exists_nullish_of_isLooseNull hloose
  obtain rfl := hb.eq_id hdb
  exact hs.eq_of_nullish hb hp hd

/-- What fits a loose type is loose. -/
theorem Tidy.loose_of_assignable (hT : T.Tidy) (hs : T.IsAlternative s) (ht : T.Loose t)
    (h : T.assignable s t) : T.Loose s := by
  obtain ⟨b, hbt, hloose⟩ := id ht
  obtain ⟨p, rfl, hp⟩ := exists_nullish_of_isLooseNull hloose
  obtain rfl := hT.hasBuiltins.eq_id hbt
  obtain ⟨-, a, ha, halt⟩ := id hs
  obtain ⟨d, hd, h⟩ := (hT.assignable_leaf_iff ha halt hbt (by simp [Ty.primitive?])).mp h
  obtain ⟨e, he, hcon⟩ := hs.constraints hd
  have hd' : T.Loose d := by
    rcases (hT.assignable_primitive_iff he hcon).mp h with
      h | rfl | ⟨l, -, hl⟩ | ⟨-, rfl⟩ | ⟨rfl, -⟩
    · exact ⟨e, he, h⟩
    · exact ⟨_, he, hloose⟩
    · rw [isNullish_of_base? hl] at hp
      exact absurd hp (by decide)
    -- neither `void` nor `object` is loose
    · exact absurd hloose Bool.false_ne_true
    · exact absurd hloose Bool.false_ne_true
  exact hs.eq_of_loose hT.hasBuiltins hd hd' ▸ hd'

/-- The rules for a target that is no union and no intersection, for all sources alike: it accepts
one of the constraints, or it is an object type that they meet together. -/
theorem Tidy.assignable_constraint_iff (hT : T.Tidy) (hs : T.IsAlternative s)
    (hu : T.get? u = some c) (hc : c.isConstraint) :
    T.assignable s u ↔ T.Loose s ∨ (∃ d ∈ T.constraints s, T.assignable d u) ∨
      ∃ wanted, c = .object wanted ∧ T.meetsShape T.assignable (T.constraints s) wanted := by
  obtain ⟨-, a, ha, halt⟩ := hs
  -- a constraint is its own only constraint, and an intersection has several
  by_cases hcon : a.isConstraint
  · rw [constraints_of_isConstraint ha hcon]
    refine ⟨fun h => Or.inr (Or.inl ⟨s, List.mem_singleton_self s, h⟩), ?_⟩
    rintro (hloose | ⟨d, hd, h⟩ | ⟨wanted, rfl, h⟩)
    · exact hT.assignable_of_loose hloose hu (plain_of_isConstraint hc).never
    · exact List.mem_singleton.mp hd ▸ h
    · refine (hT.assignable_iff ha hu (plain_of_isConstraint hcon) (plain_of_isConstraint hc)).mpr
        (Or.inr (Or.inr ?_))
      cases a with
      | any | never | unknown | union _ | intersection _ => exact absurd hcon Bool.false_ne_true
      | primitive _ | literal _ | tuple _ _ | array _ _ | object _ => exact h
  · cases a with
    | any | never | unknown | union _ => exact absurd halt Bool.false_ne_true
    | primitive _ | literal _ | tuple _ _ | array _ _ | object _ => exact absurd rfl hcon
    | intersection ss =>
      have hne : s ≠ u := by
        rintro rfl
        obtain rfl := Option.some.inj (ha.symm.trans hu)
        exact hcon hc
      have hloose : ¬ T.Loose s := by
        rintro ⟨a, ha', hloose⟩
        obtain rfl := Option.some.inj (ha.symm.trans ha')
        exact absurd hloose Bool.false_ne_true
      have hopen : T.constraints s = ss := by rw [constraints, ha]
      rw [hT.assignable_iff ha hu (plain_of_isAlternative rfl) (plain_of_isConstraint hc), hopen]
      simp only [hne, hloose, false_or, isLooseNull, Bool.false_eq_true]
      cases c with
      | any | never | unknown | union _ | intersection _ => exact absurd hc Bool.false_ne_true
      | primitive _ | literal _ | tuple _ _ | array _ _ => simp [structuralStep]
      | object wanted => simp [structuralStep]

/-! ## What fits offers as much -/

/-- An alternative has a constraint at least. -/
theorem IsAlternative.exists_mem_constraints (hs : T.IsAlternative s) :
    ∃ d, d ∈ T.constraints s := by
  rw [TypeTable.constraints]
  split
  · rename_i ms hget
    have hms : T.CanonicalIntersection ms := hs.1.canonicalNode hget
    exact List.exists_mem_of_length_pos (Nat.lt_of_lt_of_le Nat.zero_lt_two hms.two_le)
  · exact ⟨s, List.mem_singleton_self s⟩

/-- Only nullish constraints have no members at all. -/
theorem exists_nullish_of_offers?_eq_none (hd : T.get? d = some a) (hcon : a.isConstraint)
    (h : T.offers? d = none) : ∃ p : Primitive, a = .primitive p ∧ p.isNullish := by
  rw [offers?, hd] at h
  cases a with
  | any | never | unknown | union _ | intersection _ => exact absurd hcon Bool.false_ne_true
  | primitive p =>
    refine ⟨p, rfl, ?_⟩
    by_contra hp
    simp [hp] at h
  | literal l => cases l <;> simp at h
  | tuple _ _ | array _ _ | object _ => simp at h

/-- A nullish primitive that is not loose fits no constraint that has members. -/
theorem Tidy.not_nullish_assignable (hT : T.Tidy) {p : Primitive} (hp : p.isNullish)
    (hloose : ¬ T.Loose p.id) (hd : T.get? d = some b) (hcon : b.isConstraint)
    (hos : T.offers? d = some os) : ¬ T.assignable p.id d := by
  intro h
  have hpget := hT.hasBuiltins.primitive p
  have hnone : T.offers? p.id = none := by simp [offers?, hpget, hp]
  rcases (hT.assignable_iff hpget hd (plain_of_isAlternative rfl) (plain_of_isConstraint hcon)).mp h
    with rfl | h | h
  · exact absurd (hnone.symm.trans hos) (by simp)
  · exact hloose ⟨_, hpget, h⟩
  · cases b with
    | any | never | unknown | union _ | intersection _ => exact absurd hcon Bool.false_ne_true
    | literal _ | tuple _ _ | array _ _ => exact absurd h Bool.false_ne_true
    | object wanted => simp [structuralStep, meetsShape, hnone] at h
    | primitive q =>
      -- the same primitive, or `void`, which has no members either
      obtain rfl := hT.hasBuiltins.eq_id hd
      have hq : q.isNullish := by
        rcases Bool.or_eq_true_iff.mp h with h | h
        · exact of_decide_eq_true h ▸ hp
        · rw [of_decide_eq_true (Bool.and_eq_true_iff.mp h).2]
          rfl
      simp [offers?, hd, hq] at hos

/-- What fits a constraint with members has members throughout. -/
theorem Tidy.isSome_offers?_of_assignable (hT : T.Tidy) (hs : T.IsAlternative s)
    (hloose : ¬ T.Loose s) (hd : T.get? d = some b) (hcon : b.isConstraint)
    (hos : T.offers? d = some os) (h : T.assignable s d) :
    ∀ e ∈ T.constraints s, (T.offers? e).isSome := by
  intro e he
  obtain ⟨a, ha, hacon⟩ := hs.constraints he
  rw [Option.isSome_iff_ne_none]
  intro hnone
  obtain ⟨p, rfl, hp⟩ := exists_nullish_of_offers?_eq_none ha hacon hnone
  obtain rfl := hT.hasBuiltins.eq_id ha
  obtain rfl := hs.eq_of_nullish hT.hasBuiltins hp he
  exact hT.not_nullish_assignable hp hloose hd hcon hos h

/-- One of the types `sources` offers a member under the same name, whose type fits. -/
def OfferedBy (T : TypeTable) (sources : List TypeId) (o : Offer) : Prop :=
  ∃ s ∈ sources, ∃ o', T.Offers s o' ∧ o'.name = o.name ∧
    T.assignable (T.offerType o') (T.offerType o)

/-- An offer of the source that fits is one that is asked for. -/
theorem offeredBy_of_offers {o' : Offer} (ho : T.Offers s o') (hname : o'.name = o.name)
    (h : T.assignable (T.offerType o') (T.offerType o)) : T.OfferedBy [s] o :=
  ⟨s, List.mem_singleton_self s, o', ho, hname, h⟩

/-- A type offers what it offers. -/
theorem offeredBy_self (ho : T.Offers s o) : T.OfferedBy [s] o :=
  offeredBy_of_offers ho rfl (assignable_self _)

/-- What an object type offers is offered by the types that meet it. -/
theorem offeredBy_of_meetsShape {sources : List TypeId} (hb : T.HasBuiltins)
    (hsources : ∀ s ∈ sources, T.Firm s) (hd : T.Firm d) (hget : T.get? d = some (.object wanted))
    (h : T.meetsShape T.assignable sources wanted) (ho : T.Offers d o) :
    T.OfferedBy sources o := by
  obtain ⟨-, hmeets⟩ := (meetsShape_iff_of_required
    (fun p hp => (hd.properties hget p hp).1)
    (fun s hs o ho => ((hsources s hs).offers hb ho).1)).mp h
  obtain ⟨os, hos, ho⟩ := ho
  rw [offers?, hget] at hos
  obtain rfl := Option.some.inj hos
  obtain ⟨p, hp, rfl⟩ := List.mem_map.mp ho
  exact hmeets p hp

/-- The count of a tuple is a number. -/
theorem Tidy.countType_assignable (hT : T.Tidy) (n : Nat) :
    T.assignable (T.countType n) TypeId.number := by
  rw [countType]
  cases hlookup : T.lookup (.literal (.number (.ofNat n))) with
  | none => exact assignable_self _
  | some i =>
    exact hT.assignable_of_base (p := .number) (lookup_eq_some_iff.mp hlookup) rfl
      (lt_size_of_get? (hT.hasBuiltins.primitive .number)) (assignable_self _)

/-- The rules for two constraints: what the target offers, the source offers. -/
theorem Tidy.offeredBy_of_structuralStep (hT : T.Tidy) (hs : T.Firm s) (hd : T.Firm d)
    (hsget : T.get? s = some a) (hdget : T.get? d = some b) (ha : a.isConstraint)
    (hb : b.isConstraint) (h : T.structuralStep T.assignable s d a b) (ho : T.Offers d o) :
    T.OfferedBy [s] o := by
  obtain ⟨os, hos, hmem⟩ := id ho
  rw [structuralStep.eq_def] at h
  split at h
  · exact absurd ha Bool.false_ne_true
  · exact absurd hb Bool.false_ne_true
  · exact absurd hb Bool.false_ne_true
  · exact absurd ha Bool.false_ne_true
  · exact absurd ha Bool.false_ne_true
  · -- two literals
    obtain rfl := of_decide_eq_true h
    exact get?_injective hsget hdget ▸ offeredBy_self ho
  · -- a literal and its primitive
    have hsame := offers?_literal_of_base hsget (of_decide_eq_true h) hdget
    exact offeredBy_of_offers ⟨os, hsame.trans hos, hmem⟩ rfl (assignable_self _)
  · -- two primitives: the same one, or `void`, which offers nothing
    rcases Bool.or_eq_true_iff.mp h with h | h
    · obtain rfl := of_decide_eq_true h
      exact get?_injective hsget hdget ▸ offeredBy_self ho
    · obtain rfl := of_decide_eq_true (Bool.and_eq_true_iff.mp h).2
      rw [offers?, hdget] at hos
      exact absurd hos (by simp [Primitive.isNullish])
  -- the target is not `object`
  · exact absurd hdget (hd.get?_ne_object hT.hasBuiltins)
  · exact absurd hdget (hd.get?_ne_object hT.hasBuiltins)
  · exact absurd hdget (hd.get?_ne_object hT.hasBuiltins)
  · -- array to array
    rw [offers?, hdget] at hos
    obtain rfl := Option.some.inj hos
    obtain rfl := List.mem_singleton.mp hmem
    have hlength : T.Offers s .length := ⟨_, by rw [offers?, hsget], hmem⟩
    exact offeredBy_of_offers hlength rfl (assignable_self _)
  · -- tuple to array: the length is a number
    rw [offers?, hdget] at hos
    obtain rfl := Option.some.inj hos
    obtain rfl := List.mem_singleton.mp hmem
    rename_i es _ _ _
    have hlength : T.Offers s (.lengthOf es.length) :=
      ⟨_, by rw [offers?, hsget], List.mem_singleton_self _⟩
    exact offeredBy_of_offers hlength rfl (hT.countType_assignable _)
  · -- tuple to tuple: the lengths agree
    simp only [Bool.and_eq_true] at h
    have hlength := of_decide_eq_true h.1.2
    have hsame : T.offers? s = T.offers? d := by simp only [offers?, hsget, hdget, hlength]
    exact offeredBy_of_offers ⟨os, hsame.trans hos, hmem⟩ rfl (assignable_self _)
  · -- any source of an object type
    refine offeredBy_of_meetsShape hT.hasBuiltins (fun m hm => ?_) hd hdget h ho
    exact List.mem_singleton.mp hm ▸ hs
  · exact absurd h Bool.false_ne_true

/-- More sources offer more. -/
theorem OfferedBy.mono {sources sources' : List TypeId} (h : T.OfferedBy sources o)
    (hsub : sources ⊆ sources') : T.OfferedBy sources' o := by
  obtain ⟨s, hs, h⟩ := h
  exact ⟨s, hsub hs, h⟩

/-- What fits a constraint offers what the constraint offers, unless null checks are loose about
it. -/
theorem Tidy.offeredBy_of_assignable (hT : T.Tidy) (hs : T.IsAlternative s) (hsfirm : T.Firm s)
    (hd : T.Firm d) (hloose : ¬ T.Loose s) (hdget : T.get? d = some b) (hb : b.isConstraint)
    (h : T.assignable s d) (ho : T.Offers d o) : T.OfferedBy (T.constraints s) o := by
  have hfirm : ∀ e ∈ T.constraints s, T.Firm e := fun e he => hsfirm.constraint he
  rcases (hT.assignable_constraint_iff hs hdget hb).mp h with h | ⟨e, he, h⟩ | ⟨wanted, rfl, h⟩
  · exact absurd h hloose
  · obtain ⟨a, ha, hacon⟩ := hs.constraints he
    refine OfferedBy.mono ?_ fun x hx => List.mem_singleton.mp hx ▸ he
    rcases (hT.assignable_iff ha hdget (plain_of_isConstraint hacon)
      (plain_of_isConstraint hb)).mp h with rfl | h | h
    · exact offeredBy_self ho
    · have he' : T.Loose e := ⟨a, ha, h⟩
      exact absurd (hs.eq_of_loose hT.hasBuiltins he he' ▸ he') hloose
    · exact hT.offeredBy_of_structuralStep (hfirm e he) hd ha hdget hacon hb h ho
  · exact offeredBy_of_meetsShape hT.hasBuiltins hfirm hd hdget h ho

/-! ## The forms of the last type -/

/-- If `s` fits `t` and `t` fits `u`, then `s` fits `u`, where all three are firm. -/
def Composes (T : TypeTable) (s t u : TypeId) : Prop :=
  T.Firm s → T.Firm t → T.Firm u → T.assignable s t → T.assignable t u → T.assignable s u

/-- Assignability composes where the rules for `s`, `t` and `u` lead: at smaller last types, at
smaller middle types for `u` itself, and at smaller first types for `t` and `u` themselves. -/
structure ComposesBelow (T : TypeTable) (s t u : TypeId) : Prop where
  last : ∀ s' t' u', u' < u → T.Composes s' t' u'
  middle : ∀ t', t' < t → T.Composes s t' u
  first : ∀ s', s' < s → T.Composes s' t u

/-- A literal or a primitive as the last type: what fits it by structure is one of its literals, or
`undefined` for `void`. -/
theorem Reading.of_structuralStep_leaf {P : TypeId → Prop} (h : T.Reading P) (hb : T.HasBuiltins)
    (ht : T.get? t = some b) (hu : T.get? u = some c) (hbcon : b.isConstraint)
    (hleaf : c.literal?.isSome ∨ c.primitive?.isSome) (hobject : c ≠ .primitive .object)
    (hstep : T.structuralStep fits t u b c) (hp : P t) : P u := by
  cases c with
  | literal l =>
    cases b with
    | literal l' =>
      obtain rfl := of_decide_eq_true hstep
      exact get?_injective ht hu ▸ hp
    | any | never | unknown | union _ | intersection _ => exact absurd hbcon Bool.false_ne_true
    | primitive _ | tuple _ _ | array _ _ | object _ => exact absurd hstep Bool.false_ne_true
  | primitive q =>
    obtain rfl := hb.eq_id hu
    cases b with
    | literal l => exact h.literal t l q ht (of_decide_eq_true hstep) hp
    | primitive p =>
      rcases Bool.or_eq_true_iff.mp hstep with hstep | hstep
      · obtain rfl := of_decide_eq_true hstep
        exact get?_injective ht hu ▸ hp
      · obtain ⟨hundefined, hvoid⟩ := Bool.and_eq_true_iff.mp hstep
        obtain rfl := of_decide_eq_true hundefined
        obtain rfl := of_decide_eq_true hvoid
        obtain rfl := hb.eq_id ht
        exact h.void hp
    | any | never | unknown | union _ | intersection _ => exact absurd hbcon Bool.false_ne_true
    | tuple _ _ | array _ _ | object _ =>
      cases q with
      | object => exact absurd rfl hobject
      | _ => exact absurd hstep Bool.false_ne_true
  | any | never | unknown | union _ | intersection _ | tuple _ _ | array _ _ | object _ =>
    exact absurd hleaf (by simp [Ty.literal?, Ty.primitive?])

/-- The rules for two tuples. -/
theorem structuralStep_tuple_iff {es fs : List TypeId} {r r' : Bool} :
    T.structuralStep fits s t (.tuple es r) (.tuple fs r') ↔
      (!r || r') ∧ List.Forall₂ (fun e f => fits e f) es fs := by
  rw [List.forall₂_iff_zip]
  simp [structuralStep, and_assoc]

/-- What can be read only does not become writable on the way. -/
theorem readonly_trans {r r' r'' : Bool} (h : !r || r') (h' : !r' || r'') : !r || r'' := by
  cases r with
  | false => rfl
  | true =>
    obtain rfl : r' = true := by simpa using h
    exact h'

/-- A sequence as the last type: the first two are sequences, too. -/
theorem structuralStep_trans_of_isSequence (ha : a.isConstraint) (hb : b.isConstraint)
    (hc : c.isSequence)
    (hparts : ∀ x ∈ a.parts, ∀ y ∈ b.parts, ∀ z ∈ c.parts, fits x y → fits y z → fits x z)
    (hab : T.structuralStep fits s t a b) (hbc : T.structuralStep fits t u b c) :
    T.structuralStep fits s u a c := by
  -- sequence by sequence; the elements of the first fit those of the last by the middle one
  cases c with
  | tuple zs r'' =>
    cases b with
    | tuple ys r' =>
      cases a with
      | tuple xs r =>
        rw [structuralStep_tuple_iff] at hab hbc ⊢
        exact ⟨readonly_trans hab.1 hbc.1, forall₂_trans hab.2 hbc.2 hparts⟩
      | any | never | unknown | union _ | intersection _ => exact absurd ha Bool.false_ne_true
      | primitive _ | literal _ | array _ _ | object _ => exact absurd hab Bool.false_ne_true
    | any | never | unknown | union _ | intersection _ => exact absurd hb Bool.false_ne_true
    | primitive _ | literal _ | array _ _ | object _ => exact absurd hbc Bool.false_ne_true
  | array z r'' =>
    cases b with
    | array y r' =>
      obtain ⟨hr', hyz⟩ := Bool.and_eq_true_iff.mp hbc
      have hz : ∀ x ∈ a.parts, fits x y → fits x z := fun x hx hxy =>
        hparts x hx y List.mem_cons_self z List.mem_cons_self hxy hyz
      cases a with
      | array x r =>
        obtain ⟨hr, hxy⟩ := Bool.and_eq_true_iff.mp hab
        exact Bool.and_eq_true_iff.mpr ⟨readonly_trans hr hr', hz x List.mem_cons_self hxy⟩
      | tuple xs r =>
        obtain ⟨hr, hxy⟩ := Bool.and_eq_true_iff.mp hab
        refine Bool.and_eq_true_iff.mpr ⟨readonly_trans hr hr', List.all_eq_true.mpr fun x hx => ?_⟩
        exact hz x hx (List.all_eq_true.mp hxy x hx)
      | any | never | unknown | union _ | intersection _ => exact absurd ha Bool.false_ne_true
      | primitive _ | literal _ | object _ => exact absurd hab Bool.false_ne_true
    | tuple ys r' =>
      obtain ⟨hr', hyz⟩ := Bool.and_eq_true_iff.mp hbc
      cases a with
      | tuple xs r =>
        obtain ⟨hr, hxys⟩ := structuralStep_tuple_iff.mp hab
        refine Bool.and_eq_true_iff.mpr ⟨readonly_trans hr hr', List.all_eq_true.mpr fun x hx => ?_⟩
        -- the element fits its partner, and that fits the element type
        obtain ⟨y, hy, hxy⟩ := exists_right_of_forall₂ hxys hx
        exact hparts x hx y hy z List.mem_cons_self hxy (List.all_eq_true.mp hyz y hy)
      | any | never | unknown | union _ | intersection _ => exact absurd ha Bool.false_ne_true
      | primitive _ | literal _ | array _ _ | object _ => exact absurd hab Bool.false_ne_true
    | any | never | unknown | union _ | intersection _ => exact absurd hb Bool.false_ne_true
    | primitive _ | literal _ | object _ => exact absurd hbc Bool.false_ne_true
  | any | never | unknown | primitive _ | literal _ | union _ | intersection _ | object _ =>
    exact absurd hc Bool.false_ne_true

/-- An object type as the last type, which the middle type meets: what fits the middle type meets
it, too, since it offers whatever the middle type offers. -/
theorem ComposesBelow.of_meetsShape (h : T.ComposesBelow s t u) (hT : T.Tidy)
    (hs : T.IsAlternative s) (ht : T.IsAlternative t) (hsfirm : T.Firm s) (htfirm : T.Firm t)
    (hufirm : T.Firm u) (hst : T.assignable s t) (hu : T.get? u = some (.object wanted))
    (hmeets : T.meetsShape T.assignable (T.constraints t) wanted) : T.assignable s u := by
  have hb := hT.hasBuiltins
  by_cases hloose : T.Loose s
  · exact hT.assignable_of_loose hloose hu (by simp)
  have hwanted : ∀ p ∈ wanted, p.optional = false := fun p hp => (hufirm.properties hu p hp).1
  have hrequired : ∀ {x}, T.Firm x → ∀ e ∈ T.constraints x, ∀ o, T.Offers e o →
      o.optional = false := fun hx e he o ho => ((hx.constraint he).offers hb ho).1
  have hfits : ∀ d ∈ T.constraints t, T.assignable s d :=
    (hT.reading_assignable hs).forall_constraints.mpr hst
  obtain ⟨hsome, hmeets⟩ := (meetsShape_iff_of_required hwanted (hrequired htfirm)).mp hmeets
  refine (hT.assignable_constraint_iff hs hu rfl).mpr (Or.inr (Or.inr ⟨wanted, rfl, ?_⟩))
  refine (meetsShape_iff_of_required hwanted (hrequired hsfirm)).mpr ⟨?_, fun p hp => ?_⟩
  · obtain ⟨d, hd⟩ := ht.exists_mem_constraints
    obtain ⟨b, hdget, hcon⟩ := ht.constraints hd
    obtain ⟨os, hos⟩ := Option.isSome_iff_exists.mp (hsome d hd)
    exact hT.isSome_offers?_of_assignable hs hloose hdget hcon hos (hfits d hd)
  · obtain ⟨d, hd, o, ho, hname, hfit⟩ := hmeets p hp
    obtain ⟨b, hdget, hcon⟩ := ht.constraints hd
    obtain ⟨e, he, o', ho', hname', hfit'⟩ := hT.offeredBy_of_assignable hs hsfirm
      (htfirm.constraint hd) hloose hdget hcon (hfits d hd) ho
    -- the member of the source fits that of the middle type, and that fits the property
    have hlt : p.type < u := hT.descends u _ hu p.type (List.mem_map_of_mem (f := (·.type)) hp)
    refine ⟨e, he, o', ho', hname'.trans hname, h.last _ _ _ hlt ?_ ?_ ?_ hfit' hfit⟩
    · exact ((hsfirm.constraint he).offers hb ho').2
    · exact ((htfirm.constraint hd).offers hb ho).2
    · exact hufirm.part hu (List.mem_map_of_mem (f := (·.type)) hp)

/-- A sequence as the last type and a constraint as the middle one: of the first type, one
constraint is enough. -/
theorem ComposesBelow.of_isSequence (h : T.ComposesBelow s t u) (hT : T.Tidy)
    (hs : T.IsAlternative s) (hsfirm : T.Firm s) (htfirm : T.Firm t) (hufirm : T.Firm u)
    (ht : T.get? t = some b) (hb : b.isConstraint) (hu : T.get? u = some c) (hc : c.isSequence)
    (hst : T.assignable s t) (htu : T.assignable t u)
    (hstep : T.structuralStep T.assignable t u b c) : T.assignable s u := by
  have hccon : c.isConstraint := by
    cases c <;> first | rfl | exact absurd hc Bool.false_ne_true
  by_cases hloose : T.Loose s
  · exact hT.assignable_of_loose hloose hu (plain_of_isConstraint hccon).never
  rcases (hT.assignable_constraint_iff hs ht hb).mp hst with hst | ⟨e, he, het⟩ | ⟨_, rfl, -⟩
  · exact absurd hst hloose
  · refine (hT.assignable_constraint_iff hs hu hccon).mpr (Or.inr (Or.inl ⟨e, he, ?_⟩))
    obtain ⟨a, ha, hacon⟩ := hs.constraints he
    rcases (hT.assignable_iff ha ht (plain_of_isConstraint hacon) (plain_of_isConstraint hb)).mp het
      with rfl | hloose' | het
    · exact htu
    · have he' : T.Loose e := ⟨a, ha, hloose'⟩
      exact absurd (hs.eq_of_loose hT.hasBuiltins he he' ▸ he') hloose
    · refine (hT.assignable_iff ha hu (plain_of_isConstraint hacon)
        (plain_of_isConstraint hccon)).mpr (Or.inr (Or.inr ?_))
      refine structuralStep_trans_of_isSequence hacon hb hc (fun x hx y hy z hz => ?_) het hstep
      exact h.last x y z (hT.descends u c hu z hz) ((hsfirm.constraint he).part ha hx)
        (htfirm.part ht hy) (hufirm.part hu hz)
  · cases c <;> first | exact absurd hstep Bool.false_ne_true | exact absurd hc Bool.false_ne_true

/-- The middle type is a constraint, and so is the last. -/
theorem ComposesBelow.of_isConstraint (h : T.ComposesBelow s t u) (hT : T.Tidy)
    (hs : T.IsAlternative s) (hsfirm : T.Firm s) (htfirm : T.Firm t) (hufirm : T.Firm u)
    (ht : T.get? t = some b) (hb : b.isConstraint) (hu : T.get? u = some c) (hc : c.isConstraint)
    (hst : T.assignable s t) (htu : T.assignable t u) : T.assignable s u := by
  rcases (hT.assignable_iff ht hu (plain_of_isConstraint hb) (plain_of_isConstraint hc)).mp htu
    with rfl | hloose | hstep
  · exact hst
  · exact hT.assignable_of_loose (hT.loose_of_assignable hs ⟨b, ht, hloose⟩ hst) hu
      (plain_of_isConstraint hc).never
  have hobject := hufirm.get?_ne_object hT.hasBuiltins
  cases c with
  | any | never | unknown | union _ | intersection _ => exact absurd hc Bool.false_ne_true
  | literal l =>
    exact (hT.reading_assignable hs).of_structuralStep_leaf hT.hasBuiltins ht hu hb (Or.inl rfl)
      (by simp) hstep hst
  | primitive p =>
    refine (hT.reading_assignable hs).of_structuralStep_leaf hT.hasBuiltins ht hu hb (Or.inr rfl)
      ?_ hstep hst
    rintro hp
    exact hobject (hp ▸ hu)
  | tuple _ _ | array _ _ =>
    exact h.of_isSequence hT hs hsfirm htfirm hufirm ht hb hu rfl hst htu hstep
  | object wanted =>
    have halt : T.IsAlternative t :=
      ⟨hT.canonical (lt_size_of_get? ht), b, ht, Ty.isAlternative_of_isConstraint hb⟩
    refine h.of_meetsShape hT hs halt hsfirm htfirm hufirm hst hu ?_
    rw [constraints_of_isConstraint ht hb]
    cases b with
    | any | never | unknown | union _ | intersection _ => exact absurd hb Bool.false_ne_true
    | primitive _ | literal _ | tuple _ _ | array _ _ | object _ => exact hstep

/-- An intersection as the middle type and a constraint as the last: a member of the intersection is
enough, or the members together. -/
theorem ComposesBelow.of_intersection (h : T.ComposesBelow s t u) (hT : T.Tidy)
    (hs : T.IsAlternative s) (hsfirm : T.Firm s) (htfirm : T.Firm t) (hufirm : T.Firm u)
    (ht : T.get? t = some (.intersection ms)) (hu : T.get? u = some c) (hc : c.isConstraint)
    (hst : T.assignable s t) (htu : T.assignable t u) : T.assignable s u := by
  have halt : T.IsAlternative t := ⟨hT.canonical (lt_size_of_get? ht), _, ht, rfl⟩
  rcases (hT.assignable_constraint_iff halt hu hc).mp htu with ⟨b, hb, hloose⟩ | ⟨d, hd, hdu⟩ |
    ⟨wanted, rfl, hmeets⟩
  · obtain rfl := Option.some.inj (ht.symm.trans hb)
    exact absurd hloose Bool.false_ne_true
  · have hsd := (hT.reading_assignable hs).forall_constraints.mpr hst d hd
    have hlt : d < t := hT.descends t _ ht d (by rwa [constraints, ht] at hd)
    exact h.middle d hlt hsfirm (htfirm.constraint hd) hufirm hsd hdu
  · exact h.of_meetsShape hT hs halt hsfirm htfirm hufirm hst hu hmeets

/-- Neither the first nor the middle type is a union. -/
theorem ComposesBelow.of_isAlternative (h : T.ComposesBelow s t u) (hT : T.Tidy)
    (hs : T.IsAlternative s) (ht : T.IsAlternative t) (hsfirm : T.Firm s) (htfirm : T.Firm t)
    (hufirm : T.Firm u) (hu : T.get? u = some c) (hst : T.assignable s t)
    (htu : T.assignable t u) : T.assignable s u := by
  have hreading := hT.reading_assignable hs
  have hlast : ∀ m ∈ c.parts, T.assignable t m → T.assignable s m := fun m hm htm =>
    h.last s t m (hT.descends u c hu m hm) hsfirm htfirm (hufirm.part hu hm) hst htm
  obtain ⟨-, b, hbt, halt⟩ := id ht
  -- the last type decides which rule composes the two steps
  by_cases hc : c.isConstraint
  · by_cases hb : b.isConstraint
    · exact h.of_isConstraint hT hs hsfirm htfirm hufirm hbt hb hu hc hst htu
    · cases b with
      | intersection ms => exact h.of_intersection hT hs hsfirm htfirm hufirm hbt hu hc hst htu
      | any | never | unknown | union _ => exact absurd halt Bool.false_ne_true
      | primitive _ | literal _ | tuple _ _ | array _ _ | object _ => exact absurd rfl hb
  cases c with
  | any => exact get?_injective hT.hasBuiltins.any hu ▸ hreading.any
  | unknown => exact get?_injective hT.hasBuiltins.unknown hu ▸ hreading.unknown
  | never =>
    obtain rfl := get?_injective hu hT.hasBuiltins.never
    exact absurd htu (hT.reading_assignable ht).never
  | union ms =>
    obtain ⟨m, hm, htm⟩ := ((hT.reading_assignable ht).union u ms hu).mp htu
    exact (hreading.union u ms hu).mpr ⟨m, hm, hlast m hm htm⟩
  | intersection ms =>
    have htms := ((hT.reading_assignable ht).intersection u ms hu).mp htu
    exact (hreading.intersection u ms hu).mpr fun m hm => hlast m hm (htms m hm)
  | primitive _ | literal _ | tuple _ _ | array _ _ | object _ => exact absurd rfl hc

/-- The first type is no union. -/
theorem ComposesBelow.of_first_isAlternative (h : T.ComposesBelow s t u) (hT : T.Tidy)
    (hs : T.IsAlternative s) (hsfirm : T.Firm s) (htfirm : T.Firm t) (hufirm : T.Firm u)
    (ht : t < T.size) (hu : u < T.size) (hst : T.assignable s t) (htu : T.assignable t u) :
    T.assignable s u := by
  have hb := hT.hasBuiltins
  have hreading := hT.reading_assignable hs
  obtain ⟨b, hbt⟩ := exists_get?_of_lt_size ht
  obtain ⟨c, hcu⟩ := exists_get?_of_lt_size hu
  by_cases halt : b.isAlternative
  · exact h.of_isAlternative hT hs ⟨hT.canonical ht, b, hbt, halt⟩ hsfirm htfirm hufirm hcu hst htu
  cases b with
  | any => exact absurd (get?_injective hbt hb.any) htfirm.ne_any
  | unknown =>
    obtain rfl := get?_injective hbt hb.unknown
    exact hT.assignable_of_unknown hs.1.lt_size hu htu
  | never =>
    obtain rfl := get?_injective hbt hb.never
    exact absurd hst hreading.never
  | union ms =>
    obtain ⟨m, hm, hsm⟩ := (hreading.union t ms hbt).mp hst
    have hmu : T.assignable m u := by
      rw [hT.assignable_iff_subjects ht hu, subjects_of_get?_union hbt] at htu
      exact htu m hm
    exact h.middle m (hT.descends t _ hbt m hm) hsfirm (htfirm.part hbt hm) hufirm hsm hmu
  | primitive _ | literal _ | intersection _ | tuple _ _ | array _ _ | object _ =>
    exact absurd rfl halt

/-- What a type consists of is the type itself, or smaller. -/
theorem Firm.subjects (h : T.Firm s) (hT : T.Descends) (hd : d ∈ T.subjects s) :
    T.Firm d ∧ (d = s ∨ d < s) := by
  rw [TypeTable.subjects] at hd
  split at hd
  · exact absurd hd List.not_mem_nil
  · rename_i ms hget
    exact ⟨h.part hget hd, Or.inr (hT s _ hget d hd)⟩
  · obtain rfl := List.mem_singleton.mp hd
    exact ⟨h, Or.inl rfl⟩

/-- An id of no type fits nothing but itself. -/
theorem eq_or_lt_size_of_assignable (h : T.assignable s t) : s = t ∨ s < T.size ∧ t < T.size := by
  rw [assignable, assignableWithin, assignableStep] at h
  rcases Bool.or_eq_true_iff.mp h with h | h
  · exact Or.inl (beq_iff_eq.mp h)
  · split at h
    · rename_i hs ht
      exact Or.inr ⟨lt_size_of_get? hs, lt_size_of_get? ht⟩
    · exact absurd h Bool.false_ne_true

/-- The step: assignability composes where it composes below. -/
theorem ComposesBelow.composes (h : T.ComposesBelow s t u) (hT : T.Tidy) : T.Composes s t u := by
  intro hsfirm htfirm hufirm hst htu
  rcases eq_or_lt_size_of_assignable hst with rfl | ⟨hs, ht⟩
  · exact htu
  rcases eq_or_lt_size_of_assignable htu with rfl | ⟨-, hu⟩
  · exact hst
  rw [hT.assignable_iff_subjects hs hu]
  intro d hd
  have hdt := (hT.assignable_iff_subjects hs ht).mp hst d hd
  obtain ⟨hdfirm, hds⟩ := hsfirm.subjects hT.descends hd
  rcases hds with rfl | hlt
  · rcases hT.subjects hs hsfirm.ne_any hd with rfl | halt
    · -- `unknown` fits no other type without `any`
      obtain rfl : t = TypeId.unknown := hT.eq_unknown_of_assignable ht htfirm.ne_any hdt
      exact htu
    · exact h.of_first_isAlternative hT halt hsfirm htfirm hufirm ht hu hdt htu
  · exact h.first d hlt hdfirm htfirm hufirm hdt htu

/-- Assignability composes at all types: by induction on the last type, then on the middle one, then
on the first. -/
theorem Tidy.composes (hT : T.Tidy) (s t u : TypeId) : T.Composes s t u := by
  induction u using Nat.strong_induction_on generalizing s t with
  | _ u hlast =>
    induction t using Nat.strong_induction_on generalizing s with
    | _ t hmiddle =>
      induction s using Nat.strong_induction_on with
      | _ s hfirst =>
        refine ComposesBelow.composes ⟨fun s' t' u' hu => hlast u' hu s' t', fun t' ht => ?_, ?_⟩ hT
        · exact hmiddle t' ht s
        · exact hfirst

/-- Assignability is transitive among types that reach neither `any` nor `object` nor an optional
property. -/
theorem assignable_trans {o : Options} (hT : Runs (withOptions o) T) (hs : T.Firm s) (ht : T.Firm t)
    (hu : T.Firm u) (hst : T.assignable s t) (htu : T.assignable t u) : T.assignable s u :=
  hT.tidy.composes s t u hs ht hu hst htu

/-! ### A word and its length -/

/-- The types of the table are firm. -/
theorem firm_wordTable : wordTable.Firm 14 ∧ wordTable.Firm TypeId.string ∧ wordTable.Firm 15 := by
  have hb := runs_wordTable.tidy.hasBuiltins
  refine ⟨?_, ?_, ?_⟩
  · exact hb.firm_of_leaf (get?_wordTable 14) rfl (by simp) (by simp)
  · exact hb.firm_of_leaf (get?_wordTable TypeId.string) rfl (by simp) (by simp)
  · refine hb.firm_of_parts (get?_wordTable 15) (by simp) (by simp) (fun ps hps p hp => ?_) ?_
    · obtain rfl := Ty.object.inj hps
      obtain rfl := List.mem_singleton.mp hp
      rfl
    · intro j hj
      obtain rfl := List.mem_singleton.mp hj
      exact hb.firm_number

/-- A string fits the union of the table. -/
theorem assignable_string_wordTable : wordTable.assignable TypeId.string 15 := by
  have hstring : wordTable.get? TypeId.string = some (.primitive .string) := get?_wordTable 4
  rw [runs_wordTable.tidy.assignable_eq hstring (get?_wordTable 15), Bool.or_eq_true]
  right
  change wordTable.meetsShape wordTable.assignable [TypeId.string] _ = true
  simp [meetsShape, offers?, hstring, Primitive.isNullish, meetsProperty, Offer.name,
    Offer.optional, offerType, assignable_self]

/-- A word is a string, a string has a `length`, so a word has one. -/
theorem assignable_trans_wordTable :
    Runs (withOptions {}) wordTable ∧ wordTable.Firm 14 ∧ wordTable.Firm TypeId.string ∧
      wordTable.Firm 15 ∧ wordTable.assignable 14 TypeId.string ∧
      wordTable.assignable TypeId.string 15 ∧ wordTable.assignable 14 15 := by
  obtain ⟨hword, hstring, hlength⟩ := firm_wordTable
  have hfits : wordTable.assignable 14 TypeId.string :=
    runs_wordTable.tidy.assignable_of_base (p := .string) (get?_wordTable 14) rfl
      (lt_size_of_get? (get?_wordTable 4)) (assignable_self _)
  exact ⟨runs_wordTable, hword, hstring, hlength, hfits, assignable_string_wordTable,
    assignable_trans runs_wordTable hword hstring hlength hfits assignable_string_wordTable⟩

end TypeTable

end TypeAssay
