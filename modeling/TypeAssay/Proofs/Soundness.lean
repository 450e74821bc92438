import TypeAssay.Proofs.Reachable
import TypeAssay.Proofs.Stability

/-!
# Soundness of assignability

Under strict null checks a type that is assignable to another has values of the other only
(`inhabits_of_assignable`). That is so where `any` does not come in, which fits everything, and for
targets that ask for what the rules check: the keyword `object` accepts shapes whose values need not
be objects, and an optional property says nothing about fields that a source does not mention.

One step of the rules is sound when the relation on the parts is (`sound_assignableStep`), and the
relation is the step iterated. An object type is met by what the source types offer:
`inhabits_offers` says that a value has the members that its types offer.
-/

namespace TypeAssay

namespace Core

variable {c : Core Value}

/-- Only strings belong to `string`. -/
theorem exists_of_string_mem_primitives (h : .string ∈ c.primitives) : ∃ r, c = .string r := by
  cases c with
  | string r => exact ⟨r, rfl⟩
  | _ => simp [primitives] at h

/-- No literal is nullish. -/
theorem isNullish_of_isLiteral {l : Literal} (h : c.isLiteral l) : c.isNullish = false := by
  cases c with
  | null | undefined | void => simp [isLiteral] at h
  | _ => rfl

end Core

namespace TypeTable

variable {T : TypeTable} {s t i j : TypeId} {v : Value} {a b : Ty} {fits : TypeId → TypeId → Bool}

/-! ## Targets and relations -/

/-- A target that neither asks for `object` nor has optional properties, at any depth. -/
structure Demanding (T : TypeTable) (t : TypeId) : Prop where
  no_object : ¬ T.Reaches t TypeId.object
  required : ∀ j ps, T.Reaches t j → T.get? j = some (.object ps) → ∀ p ∈ ps, p.optional = false

/-- The parts of a demanding target are demanding. -/
theorem Demanding.part (h : T.Demanding t) (ht : T.get? t = some b) (hj : j ∈ b.parts) :
    T.Demanding j :=
  ⟨fun hobject => h.no_object (.of_part ht hj hobject),
    fun k ps hk => h.required k ps (.of_part ht hj hk)⟩

/-- A demanding target is not `object`. -/
theorem Demanding.get?_ne_object (h : T.Demanding t) (hT : T.HasBuiltins) :
    T.get? t ≠ some (.primitive .object) := by
  intro hget
  obtain rfl := hT.eq_id hget
  exact h.no_object .refl

/-- The properties of a demanding target are required and demanding. -/
theorem Demanding.properties {ps : List Property} (h : T.Demanding t)
    (ht : T.get? t = some (.object ps)) : ∀ p ∈ ps, p.optional = false ∧ T.Demanding p.type :=
  fun p hp => ⟨h.required t ps .refl ht p hp,
    h.part ht (List.mem_map_of_mem (f := (·.type)) hp)⟩

/-- A relation on ids that only relates types to types with more values. -/
def Sound (T : TypeTable) (fits : TypeId → TypeId → Bool) : Prop :=
  ∀ s t, ¬ T.Reaches s TypeId.any → T.Demanding t → fits s t → ∀ v, T.Inhabits v s → T.Inhabits v t

/-! ## Offers -/

/-- A number that is a length belongs to the type of lengths. -/
theorem inhabits_ofNat_number (hb : T.HasBuiltins) (n : Nat) :
    T.Inhabits (.ofNat n) TypeId.number :=
  (inhabits_iff (hb.primitive .number)).mpr List.mem_cons_self

/-- A count belongs to the type that stands for it. -/
theorem inhabits_countType (hb : T.HasBuiltins) (n : Nat) :
    T.Inhabits (.ofNat n) (T.countType n) := by
  rw [countType]
  cases hlookup : T.lookup (.literal (.number (.ofNat n))) with
  | none => exact inhabits_ofNat_number hb n
  | some i =>
    refine (inhabits_iff (lookup_eq_some_iff.mp hlookup)).mpr ?_
    exact (Binary64.same_iff).mpr (Or.inl rfl)

/-- Whether a value has a member that was offered. -/
def Provides (T : TypeTable) (v : Value) (o : Offer) : Prop :=
  match v.member? o.name with
  | some w => T.Inhabits w (T.offerType o)
  | none => o.optional

/-- A value with a length provides one. -/
theorem provides_length (hb : T.HasBuiltins) {n : Nat} (h : v.member? "length" = some (.ofNat n)) :
    T.Provides v .length := by
  rw [Provides, Offer.name, h]
  exact inhabits_ofNat_number hb n

/-- A value with a known length provides it. -/
theorem provides_lengthOf (hb : T.HasBuiltins) {n : Nat}
    (h : v.member? "length" = some (.ofNat n)) : T.Provides v (.lengthOf n) := by
  rw [Provides, Offer.name, h]
  exact inhabits_countType hb n

/-- A string provides a length. -/
theorem provides_length_of_string (hb : T.HasBuiltins) {r : String} (h : v.core = .string r) :
    T.Provides v .length :=
  provides_length hb (n := r.length) (by simp [Value.member?, h])

/-- Values of a primitive other than the nullish ones have the members that it offers. -/
theorem provides_of_primitive {p : Primitive} {os : List Offer} (hb : T.HasBuiltins)
    (hv : p ∈ v.core.primitives) (h : T.offers? s = some os) (hs : T.get? s = some (.primitive p)) :
    v.core.isNullish = false ∧ ∀ o ∈ os, T.Provides v o := by
  have hnullish := Core.isNullish_of_mem_primitives hv
  rw [offers?, hs] at h
  simp only at h
  split at h
  · exact absurd h (by simp)
  · rename_i hp
    obtain rfl := Option.some.inj h
    refine ⟨hnullish ▸ Bool.eq_false_iff.mpr hp, fun o ho => ?_⟩
    split at ho
    · rename_i hstring
      obtain ⟨r, hcore⟩ := Core.exists_of_string_mem_primitives (hstring ▸ hv)
      obtain rfl := List.mem_singleton.mp ho
      exact provides_length_of_string hb hcore
    · exact absurd ho (by simp)

/-- What a literal stands for has the members that the literal offers. -/
theorem provides_of_literal {l : Literal} {os : List Offer} (hb : T.HasBuiltins)
    (hv : v.core.isLiteral l) (h : T.offers? s = some os) (hs : T.get? s = some (.literal l)) :
    v.core.isNullish = false ∧ ∀ o ∈ os, T.Provides v o := by
  have hnullish := Core.isNullish_of_isLiteral hv
  rw [offers?, hs] at h
  cases l with
  | number _ | bigint _ | boolean _ =>
    obtain rfl := Option.some.inj h
    exact ⟨hnullish, by simp⟩
  | string r =>
    obtain rfl := Option.some.inj h
    refine ⟨hnullish, fun o ho => ?_⟩
    have hstring : Primitive.string ∈ v.core.primitives :=
      (Core.mem_primitives_of_isLiteral hv .string).mpr rfl
    obtain ⟨r', hcore⟩ := Core.exists_of_string_mem_primitives hstring
    obtain rfl := List.mem_singleton.mp ho
    exact provides_length_of_string hb hcore

/-- A value has members, and those that its type offers. -/
theorem inhabits_offers {os : List Offer} (hb : T.HasBuiltins) (hv : T.Inhabits v s)
    (h : T.offers? s = some os) : v.core.isNullish = false ∧ ∀ o ∈ os, T.Provides v o := by
  obtain ⟨a, ha⟩ := hv.exists_get?
  have haccepts := (inhabits_iff ha).mp hv
  -- form by form: what a type offers is what its values have
  cases a with
  | primitive p => exact provides_of_primitive hb haccepts h ha
  | literal l => exact provides_of_literal hb haccepts h ha
  | any | never | unknown | union _ | intersection _ => simp [offers?, ha] at h
  | object ps =>
    rw [offers?, ha] at h
    obtain rfl := Option.some.inj h
    refine ⟨haccepts.1, fun o ho => ?_⟩
    obtain ⟨p, hp, rfl⟩ := List.mem_map.mp ho
    exact haccepts.2 p hp
  | array e readonly =>
    obtain ⟨vs, mutable, hcore, -⟩ := haccepts
    rw [offers?, ha] at h
    obtain rfl := Option.some.inj h
    refine ⟨by rw [hcore]; rfl, fun o ho => ?_⟩
    obtain rfl := List.mem_singleton.mp ho
    exact provides_length hb (n := vs.length) (by simp [Value.member?, hcore])
  | tuple es readonly =>
    obtain ⟨vs, mutable, hcore, -, hvs⟩ := haccepts
    rw [offers?, ha] at h
    obtain rfl := Option.some.inj h
    refine ⟨by rw [hcore]; rfl, fun o ho => ?_⟩
    obtain rfl := List.mem_singleton.mp ho
    exact provides_lengthOf hb (by simp [Value.member?, hcore, hvs.length_eq])

/-- What a type offers does not reach `any` when the type itself does not. -/
theorem not_reaches_any_offerType {os : List Offer} {o : Offer} (hb : T.HasBuiltins)
    (hs : ¬ T.Reaches s TypeId.any) (h : T.offers? s = some os) (ho : o ∈ os) :
    ¬ T.Reaches (T.offerType o) TypeId.any := by
  have hleaf : ∀ i a, T.get? i = some a → a.parts = [] → a ≠ .any → ¬ T.Reaches i TypeId.any := by
    intro i a ha hparts hne hany
    obtain rfl := hany.eq_of_leaf ha hparts
    exact hne (Option.some.inj (ha.symm.trans hb.any))
  have hnumber : ¬ T.Reaches TypeId.number TypeId.any :=
    hleaf _ _ (hb.primitive .number) rfl (by simp)
  cases o with
  | length => exact hnumber
  | lengthOf n =>
    rw [offerType, countType]
    cases hlookup : T.lookup (.literal (.number (.ofNat n))) with
    | none => exact hnumber
    | some i => exact hleaf i _ (lookup_eq_some_iff.mp hlookup) rfl (by simp)
  | property p =>
    obtain ⟨ps, hps, hp⟩ := exists_object_of_offers? h ho
    exact fun hany => hs (.of_part hps (List.mem_map_of_mem (f := (·.type)) hp) hany)

/-! ## Object types -/

/-- A value of all sources is a value of an object type that the sources meet together. -/
theorem accepts_of_meetsShape {sources : List TypeId} {wanted : List Property}
    (hb : T.HasBuiltins) (hfits : T.Sound fits) (hne : sources ≠ [])
    (hsources : ∀ s ∈ sources, ¬ T.Reaches s TypeId.any ∧ T.Inhabits v s)
    (hwanted : ∀ p ∈ wanted, p.optional = false ∧ T.Demanding p.type)
    (h : T.meetsShape fits sources wanted) : (Ty.object wanted).Accepts T.Inhabits v := by
  rw [meetsShape] at h
  split at h
  · exact absurd h (by simp)
  rename_i offers hoffers
  obtain ⟨hright, hleft⟩ := mem_of_mapM_eq_some hoffers
  -- the value has all members that the sources offer
  have hprovides : ∀ o ∈ offers.flatten,
      T.Provides v o ∧ ¬ T.Reaches (T.offerType o) TypeId.any := by
    intro o ho
    obtain ⟨os, hos, ho⟩ := List.mem_flatten.mp ho
    obtain ⟨s, hs, hsos⟩ := hright os hos
    exact ⟨(inhabits_offers hb (hsources s hs).2 hsos).2 o ho,
      not_reaches_any_offerType hb (hsources s hs).1 hsos ho⟩
  obtain ⟨s, hs⟩ := List.exists_mem_of_ne_nil sources hne
  obtain ⟨os, _, hsos⟩ := hleft s hs
  refine ⟨(inhabits_offers hb (hsources s hs).2 hsos).1, fun p hp => ?_⟩
  obtain ⟨hrequired, hdemanding⟩ := hwanted p hp
  have hmeets := List.all_eq_true.mp h p hp
  rw [meetsProperty, hrequired] at hmeets
  split at hmeets
  · exact absurd hmeets (by simp)
  simp only [Bool.false_or, Bool.and_eq_true, List.any_eq_true, List.mem_filter,
    decide_eq_true_eq] at hmeets
  obtain ⟨⟨o, ⟨ho, hname⟩, hthere⟩, o', ⟨ho', hname'⟩, hfit⟩ := hmeets
  -- one offer says that the member is there, and maybe another one what its type is
  have hsome := (hprovides o ho).1
  obtain ⟨hprovided, hany⟩ := hprovides o' ho'
  rw [Provides, hname] at hsome
  rw [Provides, hname'] at hprovided
  cases hw : v.member? p.name with
  | none =>
    rw [hw] at hsome
    simp [show o.optional = true from hsome] at hthere
  | some w =>
    rw [hw] at hprovided
    exact hfits _ _ hany hdemanding hfit w hprovided

/-! ## One step -/

section

variable {readonly readonly' : Bool} {es fs : List TypeId} {e f : TypeId}

/-- What can be read only is not passed on as what can be written to. -/
theorem writable_of_readonly {mutable : Bool} (h : !readonly || readonly')
    (hwrite : mutable ∨ readonly) : mutable ∨ readonly' := by
  cases readonly with
  | true => exact Or.inr (by simpa using h)
  | false => exact Or.inl (by simpa using hwrite)

/-- An array fits one of wider elements, unless it would become mutable. -/
theorem accepts_array_of_array (h : !readonly || readonly')
    (hef : ∀ w, T.Inhabits w e → T.Inhabits w f)
    (hv : (Ty.array e readonly).Accepts T.Inhabits v) :
    (Ty.array f readonly').Accepts T.Inhabits v := by
  obtain ⟨vs, mutable, hcore, hwrite, hvs⟩ := hv
  exact ⟨vs, mutable, hcore, writable_of_readonly h hwrite, fun w hw => hef w (hvs w hw)⟩

/-- A tuple fits an array that all its elements fit. -/
theorem accepts_array_of_tuple (h : !readonly || readonly')
    (hef : ∀ e ∈ es, ∀ w, T.Inhabits w e → T.Inhabits w f)
    (hv : (Ty.tuple es readonly).Accepts T.Inhabits v) :
    (Ty.array f readonly').Accepts T.Inhabits v := by
  obtain ⟨vs, mutable, hcore, hwrite, hvs⟩ := hv
  refine ⟨vs, mutable, hcore, writable_of_readonly h hwrite, ?_⟩
  exact forall_right_of_forall₂ ((List.forall₂_and_left es vs).mpr ⟨hef, hvs.flip⟩)
    fun e w hw => hw.1 w hw.2

/-- A tuple fits one of wider elements. -/
theorem accepts_tuple_of_tuple (h : !readonly || readonly')
    (hef : List.Forall₂ (fun e f => ∀ w, T.Inhabits w e → T.Inhabits w f) es fs)
    (hv : (Ty.tuple es readonly).Accepts T.Inhabits v) :
    (Ty.tuple fs readonly').Accepts T.Inhabits v := by
  obtain ⟨vs, mutable, hcore, hwrite, hvs⟩ := hv
  refine ⟨vs, mutable, hcore, writable_of_readonly h hwrite, ?_⟩
  clear hcore
  induction hvs generalizing fs with
  | nil => exact (List.forall₂_nil_left_iff.mp hef) ▸ .nil
  | cons hv _ ih =>
    obtain ⟨f, fs', hf, hfs, rfl⟩ := List.forall₂_cons_left_iff.mp hef
    exact .cons (hf _ hv) (ih hfs)

end

/-- The rules for two nodes are sound when the relation on their parts is. -/
theorem inhabits_of_structuralStep (hT : T.Tidy) (hfits : T.Sound fits) (ha : T.get? s = some a)
    (hb : T.get? t = some b) (hany : ¬ T.Reaches s TypeId.any) (ht : T.Demanding t)
    (h : T.structuralStep fits s t a b) (hv : T.Inhabits v s) : T.Inhabits v t := by
  have hsource : ∀ j ∈ a.parts, ¬ T.Reaches j TypeId.any := fun j hj hj' =>
    hany (.of_part ha hj hj')
  have htarget : ∀ j ∈ b.parts, T.Demanding j := fun j hj => ht.part hb hj
  have haccepts := (inhabits_iff ha).mp hv
  rw [structuralStep.eq_def] at h
  split at h
  · -- a union as the source: each alternative is assignable
    obtain ⟨m, hm, hvm⟩ := haccepts
    exact hfits m t (hsource m hm) ht (List.all_eq_true.mp h m hm) v hvm
  · -- a union as the target: some alternative accepts the source
    obtain ⟨m, hm, hfit⟩ := List.any_eq_true.mp h
    exact (inhabits_iff hb).mpr ⟨m, hm, hfits s m hany (htarget m hm) hfit v hv⟩
  · -- an intersection as the target: each constraint accepts the source
    refine (inhabits_iff hb).mpr fun m hm => ?_
    exact hfits s m hany (htarget m hm) (List.all_eq_true.mp h m hm) v hv
  · -- an intersection and an object type: one constraint is enough, or all of them together
    rename_i ms wanted
    rcases Bool.or_eq_true_iff.mp h with h | h
    · obtain ⟨m, hm, hfit⟩ := List.any_eq_true.mp h
      exact hfits m t (hsource m hm) ht hfit v (haccepts m hm)
    · have hne : ms ≠ [] := by
        have htwo := (hT.canonicalNode s _ ha).two_le
        rintro rfl
        exact absurd htwo (by simp)
      exact (inhabits_iff hb).mpr (accepts_of_meetsShape hT.hasBuiltins hfits hne
        (fun m hm => ⟨hsource m hm, haccepts m hm⟩) (ht.properties hb) h)
  · -- an intersection as the source of anything else
    obtain ⟨m, hm, hfit⟩ := List.any_eq_true.mp h
    exact hfits m t (hsource m hm) ht hfit v (haccepts m hm)
  · -- two literals
    obtain rfl := of_decide_eq_true h
    exact (inhabits_iff hb).mpr haccepts
  · -- a literal and a primitive
    exact (inhabits_iff hb).mpr ((Core.mem_primitives_of_isLiteral haccepts _).mpr
      (of_decide_eq_true h))
  · -- two primitives: the same one, or `undefined` and `void`
    refine (inhabits_iff hb).mpr ?_
    rcases Bool.or_eq_true_iff.mp h with h | h
    · obtain rfl := of_decide_eq_true h
      exact haccepts
    · obtain ⟨hp, hq⟩ := Bool.and_eq_true_iff.mp h
      obtain rfl := of_decide_eq_true hp
      obtain rfl := of_decide_eq_true hq
      exact Core.void_mem_primitives haccepts
  -- the target does not ask for `object`
  · exact absurd hb (ht.get?_ne_object hT.hasBuiltins)
  · exact absurd hb (ht.get?_ne_object hT.hasBuiltins)
  · exact absurd hb (ht.get?_ne_object hT.hasBuiltins)
  · -- array to array
    rename_i e readonly f readonly'
    obtain ⟨hreadonly, hfit⟩ := Bool.and_eq_true_iff.mp h
    have hef := hfits e f (hsource e List.mem_cons_self) (htarget f List.mem_cons_self) hfit
    exact (inhabits_iff hb).mpr (accepts_array_of_array hreadonly hef haccepts)
  · -- tuple to array
    rename_i es readonly f readonly'
    obtain ⟨hreadonly, hfit⟩ := Bool.and_eq_true_iff.mp h
    have hef : ∀ e ∈ es, ∀ w, T.Inhabits w e → T.Inhabits w f := fun e he =>
      hfits e f (hsource e he) (htarget f List.mem_cons_self) (List.all_eq_true.mp hfit e he)
    exact (inhabits_iff hb).mpr (accepts_array_of_tuple hreadonly hef haccepts)
  · -- tuple to tuple
    rename_i es readonly fs readonly'
    simp only [Bool.and_eq_true] at h
    obtain ⟨⟨hreadonly, hlength⟩, hfit⟩ := h
    have hef : List.Forall₂ (fun e f => ∀ w, T.Inhabits w e → T.Inhabits w f) es fs := by
      refine List.forall₂_iff_zip.mpr ⟨of_decide_eq_true hlength, fun {e f} hef => ?_⟩
      obtain ⟨he, hf⟩ := List.of_mem_zip hef
      exact hfits e f (hsource e he) (htarget f hf) (List.all_eq_true.mp hfit _ hef)
    exact (inhabits_iff hb).mpr (accepts_tuple_of_tuple hreadonly hef haccepts)
  · -- any other source of an object type
    refine (inhabits_iff hb).mpr (accepts_of_meetsShape hT.hasBuiltins hfits
      (List.cons_ne_nil s []) (fun m hm => ?_) (ht.properties hb) h)
    obtain rfl := List.mem_singleton.mp hm
    exact ⟨hany, hv⟩
  · exact absurd h (by simp)

/-- One step of the rules is sound when the relation on the parts is. -/
theorem sound_assignableStep (hT : T.Tidy) (hstrict : T.options.strictNullChecks)
    (hfits : T.Sound fits) : T.Sound (T.assignableStep fits) := by
  intro s t hany ht h v hv
  rw [assignableStep] at h
  rcases Bool.or_eq_true_iff.mp h with h | h
  · exact (beq_iff_eq.mp h) ▸ hv
  split at h
  · rename_i a b ha hb
    have hanynode : a ≠ .any := by
      rintro rfl
      exact hany (get?_injective ha hT.hasBuiltins.any ▸ .refl)
    have hloose : T.isLooseNull a = false := by
      rw [isLooseNull.eq_def]
      split <;> simp [hstrict]
    rw [nodeStep.eq_def] at h
    -- the wide targets accept everything, and no value is of `never`
    split at h
    · exact (inhabits_iff hb).mpr trivial
    · exact (inhabits_iff hb).mpr trivial
    · exact absurd ((inhabits_iff ha).mp hv) id
    · exact absurd h (by simp)
    · exact absurd rfl hanynode
    · exact absurd h (by simp)
    · rw [hloose, Bool.false_or] at h
      exact inhabits_of_structuralStep hT hfits ha hb hany ht h hv
  · exact absurd h (by simp)

/-- The relation is sound at any depth. -/
theorem sound_assignableWithin (hT : T.Tidy) (hstrict : T.options.strictNullChecks)
    (depth : Nat) : T.Sound (T.assignableWithin depth) := by
  induction depth with
  | zero => exact fun _ _ _ _ h => absurd h (by simp [assignableWithin])
  | succ depth ih => exact sound_assignableStep hT hstrict ih

/-! ## All steps -/

/-- Assignability is sound: under strict null checks, in every table that clients reach, a type that
is assignable to another has values of the other only, if the source does not reach `any` and the
target reaches neither `object` nor an optional property. A target may reach `any`, which is read
like `unknown`. -/
theorem inhabits_of_assignable {o : Options} (hT : Runs (withOptions o) T)
    (hstrict : o.strictNullChecks) (hs : ¬ T.Reaches s TypeId.any)
    (ht : T.Demanding t) (h : T.assignable s t) (v : Value)
    (hv : T.Inhabits v s) : T.Inhabits v t := by
  have htidy := hT.tidy
  have hoptions : T.options.strictNullChecks := by
    rw [(hT.builds (tidy_withOptions o)).grows.options_eq, options_withOptions]
    exact hstrict
  exact sound_assignableWithin htidy hoptions _ s t hs ht h v hv

/-! ### A tuple and its length -/

/-- An object with one property is entered as it is. -/
theorem on_run_object (T : TypeTable) (p : Property) :
    ((Call.object [p]).run.on T).2 = (T.intern (.object [p])).2 := rfl

/-- Clients can build the table. -/
theorem runs_lengthTable : Runs (withOptions {}) lengthTable := by
  have hpair : Runs (withOptions {}) ((withOptions {}).intern
      (.tuple [TypeId.number, TypeId.string] false)).2 := by
    rw [← on_run_tuple]
    refine .call .refl (.tuple _ false) ?_
    rw [size_withOptions]
    decide
  rw [lengthTable, ← on_run_object]
  refine hpair.call (.object _) fun i hi => ?_
  obtain rfl := List.mem_singleton.mp hi
  refine Nat.lt_of_lt_of_le ?_ (size_le_size_intern _ _)
  rw [size_withOptions]
  decide

/-- The source does not contain `any`. -/
theorem not_reaches_any_lengthTable : ¬ lengthTable.Reaches 14 TypeId.any := by
  have hb := grows_lengthTable.hasBuiltins (hasBuiltins_withOptions {})
  intro hany
  rcases hany.eq_or_part get?_lengthTable_tuple with h | ⟨k, hk, h⟩
  · exact absurd h (by decide)
  · have hk' : k = Primitive.number.id ∨ k = Primitive.string.id := by
      simpa [Ty.parts, Primitive.id] using hk
    rcases hk' with rfl | rfl
    · exact absurd (hb.eq_of_reaches_primitive h) (by decide)
    · exact absurd (hb.eq_of_reaches_primitive h) (by decide)

/-- The target is demanding. -/
theorem demanding_lengthTable : lengthTable.Demanding 15 := by
  have hb := grows_lengthTable.hasBuiltins (hasBuiltins_withOptions {})
  have hreach : ∀ j, lengthTable.Reaches 15 j → j = 15 ∨ j = TypeId.number := by
    intro j hj
    rcases hj.eq_or_part get?_lengthTable_object with rfl | ⟨k, hk, hj⟩
    · exact Or.inl rfl
    · obtain rfl : k = Primitive.number.id := List.mem_singleton.mp hk
      exact Or.inr (hb.eq_of_reaches_primitive hj)
  refine ⟨fun hobject => absurd (hreach _ hobject) (by decide), fun j ps hj hps p hp => ?_⟩
  rcases hreach j hj with rfl | rfl
  · obtain rfl := Ty.object.inj (Option.some.inj (get?_lengthTable_object.symm.trans hps))
    obtain rfl := List.mem_singleton.mp hp
    rfl
  · exact absurd (hps.symm.trans (hb.primitive .number)) (by simp)

/-- The array of a number and a string, which is a value of the pair. -/
def numberAndString : Value :=
  .mk (.array [.ofNat 1, .mk (.string "a") []] true) []

/-- The value belongs to the source. -/
theorem inhabits_numberAndString : lengthTable.Inhabits numberAndString 14 := by
  have hb := grows_lengthTable.hasBuiltins (hasBuiltins_withOptions {})
  have hstring : lengthTable.Inhabits (.mk (.string "a") []) TypeId.string :=
    (inhabits_iff (hb.primitive .string)).mpr List.mem_cons_self
  exact (inhabits_iff get?_lengthTable_tuple).mpr ⟨_, true, rfl, Or.inl rfl,
    .cons (inhabits_ofNat_number hb 1) (.cons hstring .nil)⟩

/-- A value of the pair is a value of the object type of what has a number as its `length`. -/
theorem inhabits_of_assignable_lengthTable :
    Runs (withOptions {}) lengthTable ∧ ({} : Options).strictNullChecks ∧
      ¬ lengthTable.Reaches 14 TypeId.any ∧ lengthTable.Demanding 15 ∧
      lengthTable.assignable 14 15 ∧ lengthTable.Inhabits numberAndString 14 ∧
      lengthTable.Inhabits numberAndString 15 :=
  ⟨runs_lengthTable, rfl, not_reaches_any_lengthTable, demanding_lengthTable,
    assignable_lengthTable, inhabits_numberAndString,
    inhabits_of_assignable runs_lengthTable rfl not_reaches_any_lengthTable demanding_lengthTable
      assignable_lengthTable numberAndString inhabits_numberAndString⟩

end TypeTable

end TypeAssay
