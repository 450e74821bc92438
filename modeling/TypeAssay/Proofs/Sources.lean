import TypeAssay.Proofs.Readings
import TypeAssay.Proofs.Stability

/-!
# What a type fits

Assignability in a tidy table, one lemma for each form of source and target. A source consists of
alternatives (`Tidy.subjects`) and fits a target if all of them do
(`Tidy.assignable_iff_subjects`). What an alternative fits follows the form of the target
(`Tidy.reading_assignable`): a union if one of its members, an intersection if all of them.

Under strict null checks an alternative fits no two types that rule each other out
(`Tidy.consistent_assignable`). It has at most one scalar among its constraints, and whatever scalar
it fits, it fits by that one.
-/

namespace TypeAssay

namespace TypeTable

variable {T : TypeTable} {i n d e s x m : TypeId} {a b t : Ty} {ms : List TypeId}

/-! ## The rules for two nodes -/

/-- Assignability of two types of a tidy table, by their nodes. -/
theorem Tidy.assignable_eq (hT : T.Tidy) (hs : T.get? s = some a) (hn : T.get? n = some b) :
    T.assignable s n = (s == n || T.nodeStep T.assignable s n a b) := by
  rw [assignable_eq_step hT.descends hT.hasBuiltins (lt_size_of_get? hs) (lt_size_of_get? hn),
    assignableStep, hs, hn]

/-- Everything fits `any`. -/
theorem Tidy.assignable_any (hT : T.Tidy) (hs : s < T.size) : T.assignable s TypeId.any := by
  obtain ⟨a, ha⟩ := exists_get?_of_lt_size hs
  rw [hT.assignable_eq ha hT.hasBuiltins.any]
  cases a <;> simp [nodeStep]

/-- Everything fits `unknown`. -/
theorem Tidy.assignable_unknown (hT : T.Tidy) (hs : s < T.size) :
    T.assignable s TypeId.unknown := by
  obtain ⟨a, ha⟩ := exists_get?_of_lt_size hs
  rw [hT.assignable_eq ha hT.hasBuiltins.unknown]
  cases a <;> simp [nodeStep]

/-- The type `never` fits everything. -/
theorem Tidy.never_assignable (hT : T.Tidy) (hn : n < T.size) :
    T.assignable TypeId.never n := by
  obtain ⟨b, hb⟩ := exists_get?_of_lt_size hn
  rw [hT.assignable_eq hT.hasBuiltins.never hb]
  cases b <;> simp [nodeStep]

/-- The type `any` fits everything but `never`. -/
theorem Tidy.any_assignable (hT : T.Tidy) (hn : n < T.size) (hne : n ≠ TypeId.never) :
    T.assignable TypeId.any n := by
  obtain ⟨b, hb⟩ := exists_get?_of_lt_size hn
  rw [hT.assignable_eq hT.hasBuiltins.any hb]
  cases b with
  | never => exact absurd (get?_injective hb hT.hasBuiltins.never) hne
  | _ => simp [nodeStep]

/-- Only `never` fits `never`. -/
theorem Tidy.not_assignable_never (hT : T.Tidy) (hs : s < T.size) (hne : s ≠ TypeId.never) :
    T.assignable s TypeId.never = false := by
  obtain ⟨a, ha⟩ := exists_get?_of_lt_size hs
  rw [hT.assignable_eq ha hT.hasBuiltins.never, beq_eq_false_iff_ne.mpr hne]
  cases a with
  | never => exact absurd (get?_injective ha hT.hasBuiltins.never) hne
  | _ => simp [nodeStep]

/-- `unknown` fits no type but itself and `any`. -/
theorem Tidy.not_unknown_assignable (hT : T.Tidy) (hn : T.get? n = some b) (hany : b ≠ .any)
    (hunknown : b ≠ .unknown) : T.assignable TypeId.unknown n = false := by
  have hne : TypeId.unknown ≠ n := by
    rintro rfl
    exact hunknown (Option.some.inj (hn.symm.trans hT.hasBuiltins.unknown))
  rw [hT.assignable_eq hT.hasBuiltins.unknown hn, beq_eq_false_iff_ne.mpr hne]
  cases b <;> simp_all [nodeStep]

/-- Neither `any`, `unknown` nor `never`. -/
structure Plain (t : Ty) : Prop where
  any : t ≠ .any
  unknown : t ≠ .unknown
  never : t ≠ .never

/-- A node is one of the three special ones, or plain. -/
theorem plain_or (t : Ty) : t = .any ∨ t = .unknown ∨ t = .never ∨ Plain t := by
  cases t with
  | any => exact Or.inl rfl
  | unknown => exact Or.inr (Or.inl rfl)
  | never => exact Or.inr (Or.inr (Or.inl rfl))
  | _ => exact Or.inr (Or.inr (Or.inr ⟨by simp, by simp, by simp⟩))

/-- An alternative of a union is plain. -/
theorem plain_of_isAlternative (h : a.isAlternative) : Plain a := by
  refine ⟨?_, ?_, ?_⟩ <;> rintro rfl <;> exact absurd h Bool.false_ne_true

/-- A constraint of an intersection is plain. -/
theorem plain_of_isConstraint (h : a.isConstraint) : Plain a :=
  plain_of_isAlternative (Ty.isAlternative_of_isConstraint h)

/-- Unions are plain. -/
theorem plain_union : Plain (.union ms) := ⟨by simp, by simp, by simp⟩

/-- A plain type does not have the id of `never`. -/
theorem Plain.ne_never (ht : Plain t) (hT : T.Tidy) (hi : T.get? i = some t) :
    i ≠ TypeId.never := by
  rintro rfl
  exact ht.never (Option.some.inj (hi.symm.trans hT.hasBuiltins.never))

/-- Two types are compared by their structure, unless null checks are loose. -/
theorem Tidy.assignable_iff (hT : T.Tidy) (hs : T.get? s = some a) (hn : T.get? n = some b)
    (ha : Plain a) (hb : Plain b) :
    T.assignable s n ↔ s = n ∨ T.isLooseNull a ∨ T.structuralStep T.assignable s n a b := by
  have hstep : T.nodeStep T.assignable s n a b =
      (T.isLooseNull a || T.structuralStep T.assignable s n a b) := by
    rw [nodeStep.eq_def]
    split
    · exact absurd rfl hb.any
    · exact absurd rfl hb.unknown
    · exact absurd rfl ha.never
    · exact absurd rfl hb.never
    · exact absurd rfl ha.any
    · exact absurd rfl ha.unknown
    · rfl
  rw [hT.assignable_eq hs hn, hstep, Bool.or_eq_true, Bool.or_eq_true, beq_iff_eq]

/-- Null checks are loose about nullish primitives only. -/
theorem exists_nullish_of_isLooseNull (h : T.isLooseNull a) :
    ∃ p : Primitive, a = .primitive p ∧ p.isNullish := by
  rw [isLooseNull.eq_def] at h
  split at h
  · exact ⟨_, rfl, rfl⟩
  · exact ⟨_, rfl, rfl⟩
  · exact absurd h Bool.false_ne_true

/-- Under loose null checks `null` and `undefined` fit every type but `never`. -/
theorem Tidy.loose_assignable (hT : T.Tidy) (hs : T.get? s = some a) (ha : T.isLooseNull a)
    (hn : T.get? n = some b) (hb : b ≠ .never) : T.assignable s n := by
  rw [hT.assignable_eq hs hn, Bool.or_eq_true, nodeStep.eq_def]
  right
  split
  · rfl
  · rfl
  · rfl
  · exact absurd rfl hb
  · rfl
  · exact ha
  · rw [ha, Bool.true_or]

/-- Among the members of a union one must be fitted. -/
theorem structuralStep_union {fits : TypeId → TypeId → Bool} (ha : a.isAlternative) :
    T.structuralStep fits s n a (.union ms) = ms.any (fits s) := by
  cases a <;> simp_all [Ty.isAlternative, structuralStep]

/-- Of the members of an intersection all must be fitted. -/
theorem structuralStep_intersection {fits : TypeId → TypeId → Bool} (ha : a.isAlternative) :
    T.structuralStep fits s n a (.intersection ms) = ms.all (fits s) := by
  cases a <;> simp_all [Ty.isAlternative, structuralStep]

/-- An intersection fits a constraint if one of its members does. -/
theorem structuralStep_of_mem {fits : TypeId → TypeId → Bool} (hb : b.isConstraint) (hd : d ∈ ms)
    (hfits : fits d n) : T.structuralStep fits s n (.intersection ms) b := by
  have hany : ms.any (fits · n) := List.any_eq_true.mpr ⟨d, hd, hfits⟩
  cases b <;> simp_all [Ty.isConstraint, structuralStep]

/-- An intersection fits a union exactly if it fits a member, and an intersection exactly if it fits
all of them. -/
theorem Tidy.assignable_union_iff (hT : T.Tidy) (hs : T.get? s = some a) (ha : a.isAlternative)
    (hn : T.get? n = some (.union ms)) : T.assignable s n ↔ ∃ m ∈ ms, T.assignable s m := by
  have hms : T.CanonicalUnion ms := hT.canonicalNode n _ hn
  rw [hT.assignable_iff hs hn (plain_of_isAlternative ha) plain_union, structuralStep_union ha,
    List.any_eq_true]
  refine ⟨?_, fun h => Or.inr (Or.inr h)⟩
  -- the rule for identical types does not apply, and loose types fit every member
  rintro (rfl | hloose | h)
  · rw [Option.some.inj (hs.symm.trans hn)] at ha
    exact absurd ha Bool.false_ne_true
  · obtain ⟨m, hm⟩ := List.exists_mem_of_length_pos (Nat.lt_of_lt_of_le Nat.zero_lt_two hms.two_le)
    obtain ⟨u, hu, halt⟩ := hms.alternative m hm
    exact ⟨m, hm, hT.loose_assignable hs hloose hu (plain_of_isAlternative halt).never⟩
  · exact h

/-- An alternative fits an intersection exactly if it fits all members. -/
theorem Tidy.assignable_intersection_iff (hT : T.Tidy) (hs : T.get? s = some a)
    (ha : a.isAlternative) (hn : T.get? n = some (.intersection ms)) :
    T.assignable s n ↔ ∀ m ∈ ms, T.assignable s m := by
  have hms : T.CanonicalIntersection ms := hT.canonicalNode n _ hn
  rw [hT.assignable_iff hs hn (plain_of_isAlternative ha) (plain_of_isAlternative rfl),
    structuralStep_intersection ha, List.all_eq_true]
  refine ⟨?_, fun h => Or.inr (Or.inr h)⟩
  rintro (rfl | hloose | h) m hm
  · obtain ⟨u, hu, hcon⟩ := hms.constraint m hm
    refine (hT.assignable_iff hn hu (plain_of_isAlternative rfl)
      (plain_of_isConstraint hcon)).mpr (Or.inr (Or.inr ?_))
    exact structuralStep_of_mem hcon hm (assignable_self m)
  · obtain ⟨u, hu, hcon⟩ := hms.constraint m hm
    exact hT.loose_assignable hs hloose hu (plain_of_isConstraint hcon).never
  · exact h m hm

/-- A type fits a literal or a primitive exactly if one of its constraints does. -/
theorem Tidy.assignable_leaf_iff (hT : T.Tidy) (hs : T.get? s = some a) (ha : a.isAlternative)
    (hx : T.get? x = some b) (hb : b.literal?.isSome ∨ b.primitive?.isSome) :
    T.assignable s x ↔ ∃ d ∈ T.constraints s, T.assignable d x := by
  by_cases hcon : a.isConstraint
  · simp [constraints_of_isConstraint hs hcon]
  cases a with
  | intersection ss =>
    have hne : s ≠ x := by
      rintro rfl
      obtain rfl := Option.some.inj (hs.symm.trans hx)
      simp [Ty.literal?, Ty.primitive?] at hb
    have hb' : Plain b := by
      refine ⟨?_, ?_, ?_⟩ <;> rintro rfl <;> simp [Ty.literal?, Ty.primitive?] at hb
    have hstep : T.structuralStep T.assignable s x (.intersection ss) b =
        ss.any (T.assignable · x) := by
      cases b <;> simp_all [Ty.literal?, Ty.primitive?, structuralStep]
    rw [hT.assignable_iff hs hx (plain_of_isAlternative rfl) hb', hstep, List.any_eq_true,
      constraints, hs]
    simp [hne, isLooseNull]
  | any | never | unknown | union _ => exact absurd ha Bool.false_ne_true
  | primitive _ | literal _ | tuple _ _ | array _ _ | object _ => exact absurd rfl hcon

/-- A constraint fits a literal only if it is that literal. -/
theorem Tidy.assignable_literal_iff {l : Literal} (hT : T.Tidy) (hd : T.get? d = some a)
    (ha : a.isConstraint) (hx : T.get? x = some (.literal l)) :
    T.assignable d x ↔ d = x ∨ T.isLooseNull a := by
  have halt := Ty.isAlternative_of_isConstraint ha
  rw [hT.assignable_iff hd hx (plain_of_isConstraint ha) (plain_of_isAlternative rfl)]
  constructor
  · rintro (rfl | hloose | h)
    · exact Or.inl rfl
    · exact Or.inr hloose
    · cases a <;> simp_all [structuralStep, Ty.isConstraint]
      exact Or.inl (get?_injective hd hx)
  · rintro (rfl | hloose)
    · exact Or.inl rfl
    · exact Or.inr (Or.inl hloose)

/-- The constraints that fit a primitive. -/
theorem Tidy.assignable_primitive_iff {p : Primitive} (hT : T.Tidy) (hd : T.get? d = some a)
    (ha : a.isConstraint) :
    T.assignable d p.id ↔ T.isLooseNull a ∨ a = .primitive p ∨
      (∃ l, a = .literal l ∧ l.base? = some p) ∨ (a = .primitive .undefined ∧ p = .void) ∨
      (p = .object ∧ T.isStructured d) := by
  have halt := Ty.isAlternative_of_isConstraint ha
  have hp := hT.hasBuiltins.primitive p
  have hdp : d = p.id ↔ a = .primitive p := by
    constructor
    · rintro rfl
      exact Option.some.inj (hd.symm.trans hp)
    · rintro rfl
      exact get?_injective hd hp
  rw [hT.assignable_iff hd hp (plain_of_isConstraint ha) (plain_of_isAlternative rfl), hdp,
    or_left_comm]
  refine or_congr_right ?_
  cases a with
  | primitive q =>
    simp only [structuralStep, isStructured, hd]
    cases q <;> simp +contextual
  | literal l => simp [structuralStep, isStructured, hd]
  | object _ | tuple _ _ | array _ _ => cases p <;> simp [structuralStep, isStructured, hd]
  | any | never | unknown | union _ | intersection _ => exact absurd ha Bool.false_ne_true

/-- What fits a literal fits its primitive. -/
theorem Tidy.assignable_base {l : Literal} {p : Primitive} (hT : T.Tidy) (hs : T.IsAlternative s)
    (hx : T.get? x = some (.literal l)) (hp : l.base? = some p) (h : T.assignable s x) :
    T.assignable s p.id := by
  obtain ⟨-, a, ha, halt⟩ := id hs
  rw [hT.assignable_leaf_iff ha halt hx (by simp [Ty.literal?])] at h
  rw [hT.assignable_leaf_iff ha halt (hT.hasBuiltins.primitive p) (by simp [Ty.primitive?])]
  obtain ⟨d, hd, h⟩ := h
  obtain ⟨b, hb, hcon⟩ := hs.constraints hd
  refine ⟨d, hd, (hT.assignable_primitive_iff hb hcon).mpr ?_⟩
  rcases (hT.assignable_literal_iff hb hcon hx).mp h with rfl | hloose
  · obtain rfl := Option.some.inj (hb.symm.trans hx)
    exact Or.inr (Or.inr (Or.inl ⟨l, rfl, hp⟩))
  · exact Or.inl hloose

/-- What fits `undefined` fits `void`. -/
theorem Tidy.assignable_void (hT : T.Tidy) (hs : T.IsAlternative s)
    (h : T.assignable s TypeId.undefined) : T.assignable s TypeId.void := by
  obtain ⟨-, a, ha, halt⟩ := id hs
  have hleaf : ∀ p : Primitive, T.assignable s p.id ↔ ∃ d ∈ T.constraints s, T.assignable d p.id :=
    fun p => hT.assignable_leaf_iff ha halt (hT.hasBuiltins.primitive p) (by simp [Ty.primitive?])
  obtain ⟨d, hd, h⟩ := (hleaf .undefined).mp h
  obtain ⟨b, hb, hcon⟩ := hs.constraints hd
  refine (hleaf .void).mpr ⟨d, hd, (hT.assignable_primitive_iff hb hcon).mpr ?_⟩
  rcases (hT.assignable_primitive_iff (p := .undefined) hb hcon).mp h with
    hloose | rfl | ⟨l, -, hl⟩ | ⟨-, h⟩ | ⟨h, -⟩
  · exact Or.inl hloose
  · exact Or.inr (Or.inr (Or.inr (Or.inl ⟨rfl, rfl⟩)))
  · cases l <;> simp [Literal.base?] at hl
  · exact absurd h (by decide)
  · exact absurd h (by decide)

/-- What a type fits follows the form of the target. -/
theorem Tidy.reading_assignable (hT : T.Tidy) (hs : T.IsAlternative s) :
    T.Reading fun n => T.assignable s n := by
  obtain ⟨hcanonical, a, ha, halt⟩ := id hs
  have hlt := lt_size_of_get? ha
  exact {
    any := hT.assignable_any hlt
    unknown := hT.assignable_unknown hlt
    never := by
      rw [hT.not_assignable_never hlt ((plain_of_isAlternative halt).ne_never hT ha)]
      decide
    union := fun n ms hn => hT.assignable_union_iff ha halt hn
    intersection := fun n ms hn => hT.assignable_intersection_iff ha halt hn
    literal := fun x l p hx hp h => hT.assignable_base hs hx hp h
    void := fun h => hT.assignable_void hs h }

/-- `unknown` fits nothing but itself and `any`, which follows the form of the target, too. -/
theorem Tidy.reading_unknown (hT : T.Tidy) : T.Reading fun n => T.assignable TypeId.unknown n := by
  -- `unknown` fits no alternative, so nothing that has one for a member
  have hb := hT.hasBuiltins
  have hlt := lt_size_of_get? hb.unknown
  have hnot : ∀ {n b}, T.get? n = some b → b.isAlternative → ¬ T.assignable TypeId.unknown n := by
    intro n b hn halt
    obtain ⟨hany, hunknown, -⟩ := plain_of_isAlternative halt
    rw [hT.not_unknown_assignable hn hany hunknown]
    decide
  refine ⟨hT.assignable_any hlt, hT.assignable_unknown hlt, ?_, fun n ms hn => ?_,
    fun n ms hn => ?_, fun n l p hn _ h => absurd h (hnot hn rfl),
    fun h => absurd h (hnot (hb.primitive .undefined) rfl)⟩
  · rw [hT.not_assignable_never hlt (by decide)]
    decide
  · have hms : T.CanonicalUnion ms := hT.canonicalNode n _ hn
    rw [hT.not_unknown_assignable hn (by simp) (by simp)]
    refine iff_of_false (by decide) ?_
    rintro ⟨m, hm, h⟩
    obtain ⟨u, hu, halt⟩ := hms.alternative m hm
    exact hnot hu halt h
  · have hms : T.CanonicalIntersection ms := hT.canonicalNode n _ hn
    refine iff_of_false (hnot hn rfl) fun h => ?_
    obtain ⟨m, hm⟩ := List.exists_mem_of_length_pos (Nat.lt_of_lt_of_le Nat.zero_lt_two hms.two_le)
    obtain ⟨u, hu, hcon⟩ := hms.constraint m hm
    exact hnot hu (Ty.isAlternative_of_isConstraint hcon) (h m hm)

/-! ## Sources -/

/-- Unless it is `any`, a type consists of alternatives, or of `unknown`. -/
theorem Tidy.subjects (hT : T.Tidy) (hi : i < T.size) (hany : i ≠ TypeId.any)
    (hs : s ∈ T.subjects i) : s = TypeId.unknown ∨ T.IsAlternative s := by
  obtain ⟨t, ht⟩ := exists_get?_of_lt_size hi
  have hcanonical := hT.canonical hi
  by_cases hunknown : i = TypeId.unknown
  · subst hunknown
    rw [TypeTable.subjects, hT.hasBuiltins.unknown] at hs
    exact Or.inl (List.mem_singleton.mp hs)
  by_cases hnever : i = TypeId.never
  · subst hnever
    rw [TypeTable.subjects, hT.hasBuiltins.never] at hs
    exact absurd hs List.not_mem_nil
  refine Or.inr (hcanonical.isAlternative_of_mem hT.hasBuiltins hany hunknown hnever ?_)
  rw [TypeTable.subjects] at hs
  rw [TypeTable.alternatives]
  split at hs
  · exact absurd hs List.not_mem_nil
  · rename_i ms hget
    rwa [hget]
  · rename_i hunion
    split
    · exact absurd ‹_› (hunion _)
    · exact hs

/-- What a subject fits follows the form of the target. -/
theorem Tidy.reading_of_mem_subjects (hT : T.Tidy) (hi : i < T.size) (hany : i ≠ TypeId.any)
    (hs : s ∈ T.subjects i) : T.Reading fun n => T.assignable s n := by
  rcases hT.subjects hi hany hs with rfl | halt
  · exact hT.reading_unknown
  · exact hT.reading_assignable halt

/-- A type fits where all that it consists of fits. -/
theorem Tidy.assignable_iff_subjects (hT : T.Tidy) (hi : i < T.size) (hn : n < T.size) :
    T.assignable i n ↔ ∀ s ∈ T.subjects i, T.assignable s n := by
  obtain ⟨a, ha⟩ := exists_get?_of_lt_size hi
  cases a with
  | never =>
    obtain rfl := get?_injective ha hT.hasBuiltins.never
    simp [TypeTable.subjects, ha, hT.never_assignable hn]
  | union ms =>
    rw [subjects_of_get?_union ha]
    have hms : T.CanonicalUnion ms := hT.canonicalNode i _ ha
    obtain ⟨b, hb⟩ := exists_get?_of_lt_size hn
    have hlt : ∀ m ∈ ms, m < T.size := fun m hm => ((hT.canonical hi).part ha hm).lt_size
    have hreading : ∀ m ∈ ms, T.Reading fun n => T.assignable m n := fun m hm =>
      hT.reading_assignable ⟨(hT.canonical hi).part ha hm, hms.alternative m hm⟩
    obtain ⟨m, hm⟩ := List.exists_mem_of_length_pos (Nat.lt_of_lt_of_le Nat.zero_lt_two hms.two_le)
    -- a union fits itself although the rule for identical types is used, since its members do
    by_cases hin : i = n
    · subst hin
      refine iff_of_true (assignable_self i) fun m hm => ?_
      exact ((hreading m hm).union i ms ha).mpr ⟨m, hm, assignable_self m⟩
    rw [hT.assignable_eq ha hb, beq_eq_false_iff_ne.mpr hin, Bool.false_or]
    cases b with
    | any =>
      obtain rfl := get?_injective hb hT.hasBuiltins.any
      exact iff_of_true rfl fun m hm => (hreading m hm).any
    | unknown =>
      obtain rfl := get?_injective hb hT.hasBuiltins.unknown
      exact iff_of_true rfl fun m hm => (hreading m hm).unknown
    | never =>
      obtain rfl := get?_injective hb hT.hasBuiltins.never
      exact iff_of_false (by simp [nodeStep]) fun h => (hreading m hm).never (h m hm)
    | primitive _ | literal _ | union _ | intersection _ | tuple _ _ | array _ _ | object _ =>
      simp [nodeStep, isLooseNull, structuralStep]
  | any | unknown | primitive _ | literal _ | intersection _ | tuple _ _ | array _ _ | object _ =>
    simp [TypeTable.subjects, ha]

/-! ## What a source has in common with its targets -/

/-- Under strict null checks nothing counts as loose. -/
theorem isLooseNull_eq_false (hstrict : T.options.strictNullChecks) :
    T.isLooseNull a = false := by
  rw [isLooseNull.eq_def]
  split <;> simp_all

/-- A canonical type has at most one scalar among its constraints. -/
theorem IsAlternative.one_scalar (hs : T.IsAlternative s) (hd : d ∈ T.constraints s)
    (he : e ∈ T.constraints s) (hd' : T.isScalar d) (he' : T.isScalar e) : d = e := by
  obtain ⟨hcanonical, a, ha, -⟩ := hs
  rw [TypeTable.constraints] at hd he
  split at hd
  · rename_i ms hget
    rw [hget] at he
    exact (CanonicalIntersection.one_scalar (hcanonical.canonicalNode hget)) d hd e he hd' he'
  · rename_i hinter
    split at he
    · exact absurd ‹_› (hinter _)
    · rw [List.mem_singleton.mp hd, List.mem_singleton.mp he]

/-- A constraint is a scalar or structured. -/
theorem isStructured_of_not_isScalar (ht : T.get? m = some t) (hcon : t.isConstraint)
    (hs : T.isScalar m = false) : T.isStructured m := by
  cases t with
  | primitive p =>
    cases p <;>
      simp_all [isScalar, scalar?, primitive?, isStructured, Ty.primitive?]
  | literal l => simp [isScalar_of_literal ht] at hs
  | tuple _ _ | array _ _ | object _ => simp [isStructured, ht]
  | any | never | unknown | union _ | intersection _ => exact absurd hcon Bool.false_ne_true

/-- Nothing is next to a nullish primitive. -/
theorem IsAlternative.eq_of_nullish (hs : T.IsAlternative s) (hb : T.HasBuiltins) {p : Primitive}
    (hp : p.isNullish) (hd : p.id ∈ T.constraints s) : s = p.id := by
  obtain ⟨hcanonical, a, ha, -⟩ := hs
  rw [TypeTable.constraints] at hd
  split at hd
  · rename_i ms hget
    have hms : T.CanonicalIntersection ms := hcanonical.canonicalNode hget
    have hscalar : T.isScalar p.id := hb.isScalar_id <| by
      rintro rfl
      exact absurd hp (by decide)
    -- another member would be a second scalar, or structured
    obtain ⟨m, hm, hne⟩ : ∃ m ∈ ms, m ≠ p.id := by
      by_contra hall
      simp only [not_exists, not_and, not_not] at hall
      have := length_le_one_of_forall_eq hms.ascending.nodup fun a ha b hb =>
        (hall a ha).trans (hall b hb).symm
      exact absurd hms.two_le (by omega)
    obtain ⟨u, hu, hcon⟩ := hms.constraint m hm
    cases hscalar' : T.isScalar m with
    | true => exact absurd (hms.one_scalar m hm _ hd hscalar' hscalar) hne
    | false =>
      exact absurd hd (hms.structured m hm (isStructured_of_not_isScalar hu hcon hscalar') p hp)
  · exact (List.mem_singleton.mp hd).symm

/-- A nullish primitive fits no structured type. -/
theorem Tidy.not_nullish_fits (hT : T.Tidy) (hstrict : T.options.strictNullChecks) {p : Primitive}
    (hp : p.isNullish) (hm : T.isStructured m) : T.assignable p.id m = false := by
  have hpget := hT.hasBuiltins.primitive p
  refine Bool.eq_false_iff.mpr fun h => ?_
  obtain ⟨t, ht⟩ : ∃ t, T.get? m = some t := by
    cases ht : T.get? m with
    | none => simp [isStructured, ht] at hm
    | some t => exact ⟨t, rfl⟩
  have hne : p.id ≠ m := by
    rintro rfl
    cases p <;> simp_all [isStructured, Primitive.isNullish]
  have ht' : Plain t := by
    refine ⟨?_, ?_, ?_⟩ <;> rintro rfl <;> simp [isStructured, ht] at hm
  rcases (hT.assignable_iff hpget ht (plain_of_isAlternative rfl) ht').mp h with h | hloose | h
  · exact hne h
  · rw [isLooseNull_eq_false hstrict] at hloose
    exact absurd hloose (by decide)
  · cases t with
    | primitive q =>
      obtain rfl : q = .object := by
        rw [isStructured, ht] at hm
        cases q <;> first | rfl | exact absurd hm Bool.false_ne_true
      obtain rfl : p = .object := by simpa [structuralStep] using h
      exact absurd hp (by decide)
    | object ps =>
      have hoffers : T.offers? p.id = none := by simp [offers?, hpget, hp]
      simp [structuralStep, meetsShape, hoffers] at h
    | tuple _ _ | array _ _ => simp [structuralStep] at h
    | any | never | unknown | literal _ | union _ | intersection _ => simp [isStructured, ht] at hm

/-- No literal widens to a nullish primitive. -/
theorem isNullish_of_base? {l : Literal} {p : Primitive} (h : l.base? = some p) :
    p.isNullish = false := by
  cases l with
  | boolean _ => exact absurd h (by simp [Literal.base?])
  | number _ | string _ | bigint _ =>
    obtain rfl := Option.some.inj h
    rfl

/-- The scalars that fit a scalar primitive under strict null checks: the primitive itself, its
literals, and `undefined` where `void` is expected. -/
def IsScalarOf (p : Primitive) (t : Ty) : Prop :=
  t = .primitive p ∨ (∃ l, t = .literal l ∧ l.base? = some p) ∨
    (t = .primitive .undefined ∧ p = .void)

/-- What fits a scalar primitive in this sense is a scalar. -/
theorem IsScalarOf.isScalar {p : Primitive} (h : IsScalarOf p t) (hb : T.HasBuiltins)
    (hp : p ≠ .object) (hd : T.get? d = some t) : T.isScalar d := by
  rcases h with rfl | ⟨l, rfl, -⟩ | ⟨rfl, -⟩
  · exact hb.eq_id hd ▸ hb.isScalar_id hp
  · exact isScalar_of_literal hd
  · exact hb.eq_id hd ▸ hb.isScalar_id (by decide)

/-- A scalar fits two primitives only if they are `undefined` and `void`. -/
theorem IsScalarOf.eq_or {p q : Primitive} (hp : IsScalarOf p t) (hq : IsScalarOf q t) :
    p = q ∨ (p = .undefined ∧ q = .void) ∨ (p = .void ∧ q = .undefined) := by
  rcases hp with rfl | ⟨l, rfl, hl⟩ | ⟨rfl, rfl⟩ <;>
    rcases hq with h | ⟨l', h, hl'⟩ | ⟨h, rfl⟩ <;> simp_all

/-- What fits a scalar primitive under strict null checks fits it by one of its scalars. -/
theorem Tidy.exists_isScalarOf (hT : T.Tidy) (hstrict : T.options.strictNullChecks)
    (hs : T.IsAlternative s) {p : Primitive} (hp : p ≠ .object) (h : T.assignable s p.id) :
    ∃ d ∈ T.constraints s, ∃ b, T.get? d = some b ∧ IsScalarOf p b := by
  obtain ⟨-, a, ha, halt⟩ := id hs
  rw [hT.assignable_leaf_iff ha halt (hT.hasBuiltins.primitive p) (by simp [Ty.primitive?])] at h
  obtain ⟨d, hd, h⟩ := h
  obtain ⟨b, hb, hcon⟩ := hs.constraints hd
  refine ⟨d, hd, b, hb, ?_⟩
  rcases (hT.assignable_primitive_iff hb hcon).mp h with hloose | h | h | h | ⟨h, -⟩
  · rw [isLooseNull_eq_false hstrict] at hloose
    exact absurd hloose (by decide)
  · exact Or.inl h
  · exact Or.inr (Or.inl h)
  · exact Or.inr (Or.inr h)
  · exact absurd h hp

/-- What fits a literal under strict null checks has it among its constraints. -/
theorem Tidy.mem_constraints_of_literal {l : Literal} (hT : T.Tidy)
    (hstrict : T.options.strictNullChecks) (hs : T.IsAlternative s)
    (hx : T.get? x = some (.literal l)) (h : T.assignable s x) : x ∈ T.constraints s := by
  obtain ⟨-, a, ha, halt⟩ := id hs
  rw [hT.assignable_leaf_iff ha halt hx (by simp [Ty.literal?])] at h
  obtain ⟨d, hd, h⟩ := h
  obtain ⟨b, hb, hcon⟩ := hs.constraints hd
  rcases (hT.assignable_literal_iff hb hcon hx).mp h with rfl | hloose
  · exact hd
  · rw [isLooseNull_eq_false hstrict] at hloose
    exact absurd hloose (by decide)

/-- Under strict null checks no type fits two that rule each other out, `object` and scalars
aside. -/
theorem Tidy.consistent_assignable (hT : T.Tidy) (hstrict : T.options.strictNullChecks)
    (hs : T.IsAlternative s) : T.Consistent fun n => T.assignable s n := by
  have hb := hT.hasBuiltins
  -- a type has one scalar, so whatever scalars it fits, it fits them by the same
  refine ⟨fun p q hp hq hfp hfq => ?_, fun x y l l' _ _ hx hy hfx hfy => ?_,
    fun x l p hx hp hfx hfp => ?_, fun m p hm hp hfm hfp => ?_⟩
  · obtain ⟨d, hd, b, hbget, hof⟩ := hT.exists_isScalarOf hstrict hs hp hfp
    obtain ⟨d', hd', b', hbget', hof'⟩ := hT.exists_isScalarOf hstrict hs hq hfq
    obtain rfl := hs.one_scalar hd hd' (hof.isScalar hb hp hbget) (hof'.isScalar hb hq hbget')
    obtain rfl := Option.some.inj (hbget.symm.trans hbget')
    exact hof.eq_or hof'
  · obtain rfl := hs.one_scalar (hT.mem_constraints_of_literal hstrict hs hx hfx)
      (hT.mem_constraints_of_literal hstrict hs hy hfy) (isScalar_of_literal hx)
      (isScalar_of_literal hy)
    exact Ty.literal.inj (Option.some.inj (hx.symm.trans hy))
  · obtain ⟨d, hd, b, hbget, hof⟩ := hT.exists_isScalarOf hstrict hs hp hfp
    obtain rfl := hs.one_scalar (hT.mem_constraints_of_literal hstrict hs hx hfx) hd
      (isScalar_of_literal hx) (hof.isScalar hb hp hbget)
    obtain rfl := Option.some.inj (hx.symm.trans hbget)
    rcases hof with h | ⟨l', h, hl'⟩ | ⟨h, -⟩
    · exact absurd h (by simp)
    · rwa [Ty.literal.inj h]
    · exact absurd h (by simp)
  · refine Bool.eq_false_iff.mpr fun hnullish => ?_
    obtain ⟨d, hd, b, hbget, hof⟩ := hT.exists_isScalarOf hstrict hs hp hfp
    -- the source is a nullish primitive itself
    obtain ⟨q, hq, rfl⟩ : ∃ q : Primitive, q.isNullish ∧ d = q.id := by
      rcases hof with rfl | ⟨l, rfl, hl⟩ | ⟨rfl, -⟩
      · exact ⟨p, hnullish, hb.eq_id hbget⟩
      · rw [isNullish_of_base? hl] at hnullish
        exact absurd hnullish (by decide)
      · exact ⟨.undefined, rfl, hb.eq_id hbget⟩
    obtain rfl := hs.eq_of_nullish hb hq hd
    rw [hT.not_nullish_fits hstrict hq hm] at hfm
    exact absurd hfm (by decide)

/-- No subject fits two types that rule each other out. -/
theorem Tidy.consistent_of_mem_subjects (hT : T.Tidy) (hstrict : T.options.strictNullChecks)
    (hi : i < T.size) (hany : i ≠ TypeId.any) (hs : s ∈ T.subjects i) :
    T.Consistent fun n => T.assignable s n := by
  rcases hT.subjects hi hany hs with rfl | halt
  · -- `unknown` fits neither primitives nor literals
    have hprim : ∀ p : Primitive, ¬ T.assignable TypeId.unknown p.id := fun p => by
      rw [hT.not_unknown_assignable (hT.hasBuiltins.primitive p) (by simp) (by simp)]
      decide
    have hlit : ∀ x l, T.get? x = some (.literal l) → ¬ T.assignable TypeId.unknown x := by
      intro x l hx
      rw [hT.not_unknown_assignable hx (by simp) (by simp)]
      decide
    exact ⟨fun p _ _ _ h => absurd h (hprim p), fun x _ l _ _ _ hx _ h => absurd h (hlit x l hx),
      fun x l _ hx _ h => absurd h (hlit x l hx), fun _ p _ _ _ h => absurd h (hprim p)⟩
  · exact hT.consistent_assignable hstrict halt

end TypeTable

end TypeAssay
