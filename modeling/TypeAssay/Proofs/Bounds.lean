import TypeAssay.Proofs.Fixpoints
import TypeAssay.Proofs.Sources

/-!
# Greatest lower bounds

An intersection fits all its members, and under strict null checks whatever fits all members fits
the intersection (`intersectionOf_isGLB`). Fitting is a `Reading`, so both follow from what readings
say of intersections; strict null checks are what makes it `Consistent`.

`object` is left out of the second half. An intersection of a scalar and an object type fits
`object` by the object type, so it fits both `object` and its scalar, though these rule each other
out. This happens also if `object` is a constraint of an alternative of a member only
(`not_assignable_shapesTable`).
-/

namespace TypeAssay

open TypeTable

variable {T U : TypeTable} {o : Options} {i j x t : TypeId} {ms c : List TypeId}

/-! ## Choices -/

namespace TypeTable

/-- The constraints in a choice are those of an alternative of a member. -/
theorem exists_of_mem_openedMembers_choice (h : ∀ m ∈ ms, T.Canonical m)
    (hc : c ∈ choices ((T.openedMembers ms).map T.alternatives)) (hx : x ∈ T.openedMembers c) :
    ∃ m ∈ ms, ∃ a ∈ T.alternatives m, x ∈ T.constraints a := by
  obtain ⟨a, ha, hxa⟩ := List.mem_flatMap.mp (mem_openedMembers.mp hx).1
  obtain ⟨l, hl, hal⟩ := exists_mem_of_mem_choices hc ha
  obtain ⟨k, hk, rfl⟩ := List.mem_map.mp hl
  obtain ⟨m, hm, hkm⟩ := List.mem_flatMap.mp (mem_openedMembers.mp hk).1
  have hopened := hkm
  rw [constraints] at hkm
  split at hkm
  · -- the constraints of an intersection are opened to themselves
    rename_i ks hget
    obtain ⟨t, ht, hcon⟩ := ((h m hm).canonicalNode hget).constraint k hkm
    have hunion := isUnion_of_isAlternative ht (Ty.isAlternative_of_isConstraint hcon)
    rw [alternatives_of_not_union hunion] at hal
    obtain rfl := List.mem_singleton.mp hal
    rw [constraints_of_isConstraint ht hcon] at hxa
    obtain rfl := List.mem_singleton.mp hxa
    exact ⟨m, hm, m, by simp [alternatives, hget], hopened⟩
  · obtain rfl := List.mem_singleton.mp hkm
    exact ⟨k, hm, a, hal, hxa⟩

/-! ## Below the members -/

/-- What fits an intersection without `any` fits every member. -/
theorem assignable_of_assignable_intersection (hT : T.Tidy) (hms : ∀ m ∈ ms, T.Canonical m)
    (hi : T.IsIntersectionOf ms i) (hlt : i < T.size)
    (hany : TypeId.any ∉ ms.flatMap T.constraints) (ht : t < T.size) (hne : t ≠ TypeId.any)
    (h : T.assignable t i) : ∀ m ∈ ms, T.assignable t m := by
  intro m hm
  rw [hT.assignable_iff_subjects ht (hms m hm).lt_size]
  intro s hs
  have hsi := (hT.assignable_iff_subjects ht hlt).mp h s hs
  exact (hT.reading_of_mem_subjects ht hne hs).forall_of_isIntersectionOf hT.hasBuiltins hi hany hsi
    m hm

/-- An intersection fits every member, whatever the members are. -/
theorem IsIntersectionOf.assignable (hi : T.IsIntersectionOf ms i) (hT : T.Tidy)
    (hms : ∀ m ∈ ms, T.Canonical m) (hlt : i < T.size) : ∀ m ∈ ms, T.assignable i m := by
  intro m hm
  have hb := hT.hasBuiltins
  by_cases hnever : TypeId.never ∈ ms.flatMap T.constraints
  · rw [IsIntersectionOf, if_pos hnever] at hi
    exact hi ▸ hT.never_assignable (hms m hm).lt_size
  by_cases hany : TypeId.any ∈ ms.flatMap T.constraints
  · rw [IsIntersectionOf, if_neg hnever, if_pos hany] at hi
    refine hi ▸ hT.any_assignable (hms m hm).lt_size ?_
    rintro rfl
    exact hnever (List.mem_flatMap.mpr ⟨_, hm, by simp [constraints, hb.never]⟩)
  have hne : i ≠ TypeId.any := hi.ne_any hb hms fun hmem =>
    hany (List.mem_flatMap.mpr ⟨_, hmem, by simp [constraints, hb.any]⟩)
  exact assignable_of_assignable_intersection hT hms hi hlt hany hlt hne (assignable_self i) m hm

/-! ## Above all lower bounds -/

/-- Under strict null checks what fits every member fits the intersection, where neither `any` nor
`object` is among the members, opened. -/
theorem assignable_intersection_of_forall (hT : T.Tidy) (hstrict : T.options.strictNullChecks)
    (hms : ∀ m ∈ ms, T.Canonical m) (hi : T.IsIntersectionOf ms i) (hlt : i < T.size)
    (hany : TypeId.any ∉ ms.flatMap T.constraints)
    (hobject : ∀ m ∈ ms, ∀ a ∈ T.alternatives m, TypeId.object ∉ T.constraints a)
    (ht : t < T.size) (hne : t ≠ TypeId.any) (h : ∀ m ∈ ms, T.assignable t m) :
    T.assignable t i := by
  have hb := hT.hasBuiltins
  rw [hT.assignable_iff_subjects ht hlt]
  intro s hs
  have hreading := hT.reading_of_mem_subjects ht hne hs
  have hsm : ∀ m ∈ ms, T.assignable s m := fun m hm =>
    (hT.assignable_iff_subjects ht (hms m hm).lt_size).mp (h m hm) s hs
  -- the choice of the alternatives that `s` fits leaves no conflict
  refine hreading.isIntersectionOf_of_forall hb hi hany (fun c hc hfits => ?_) hsm
  refine (hT.consistent_of_mem_subjects hstrict ht hne hs).compatible hb (fun x hx => ?_)
    (fun hmem => ?_) (hreading.forall_openedMembers.mpr hfits)
  · exact canonical_of_mem_openedMembers (canonical_of_mem_choice hms hc) hx
  · obtain ⟨m, hm, a, ha, hmem⟩ := exists_of_mem_openedMembers_choice hms hc hmem
    exact absurd hmem (hobject m hm a ha)

/-- Where every choice has a conflict, the intersection is `never`. -/
theorem IsIntersectionOf.eq_never (hi : T.IsIntersectionOf ms i) (hT : T.Tidy)
    (hms : ∀ m ∈ ms, T.Canonical m) (hlt : i < T.size) (hany : TypeId.any ∉ ms)
    (hconflict : ∀ c ∈ choices ((T.openedMembers ms).map T.alternatives),
      ¬ (T.scalars (T.openedMembers c)).Compatible) : i = TypeId.never := by
  have hb := hT.hasBuiltins
  have hne : i ≠ TypeId.any := hi.ne_any hb hms hany
  by_contra hnever
  have hsome : ¬ ∀ s ∈ T.subjects i, T.assignable s TypeId.never := by
    rw [← hT.assignable_iff_subjects hlt (lt_size_of_get? hb.never),
      -- otherwise some alternative of the intersection is left
      hT.not_assignable_never hlt hnever]
    decide
  simp only [not_forall] at hsome
  obtain ⟨s, hs, -⟩ := hsome
  -- an alternative of the intersection fits it, and so fits a choice without a conflict
  have hfits := (hT.assignable_iff_subjects hlt hlt).mp (assignable_self i) s hs
  obtain ⟨-, c, hc, hcompatible, -⟩ :=
    ((hT.reading_of_mem_subjects hlt hne hs).isIntersectionOf hb hi
      (mt (any_mem_of_mem_constraints hb hms) hany)).mp hfits
  exact hconflict c hc hcompatible

end TypeTable

/-! ## The greatest lower bound -/

/-- Intersection is the greatest lower bound. An intersection fits every member. Under strict null
checks, where no member is `any` and no alternative of a member has the constraint `object`, a type
other than `any` fits the intersection exactly when it fits every member. -/
theorem intersectionOf_isGLB (hT : Runs (withOptions o) T) (hms : ∀ m ∈ ms, m < T.size)
    (hi : (intersectionOf ms).on T = (.ok i, U)) :
    (∀ m ∈ ms, U.assignable i m) ∧
      (o.strictNullChecks → TypeId.any ∉ ms →
        (∀ m ∈ ms, ∀ a ∈ T.alternatives m, TypeId.object ∉ T.constraints a) →
        ∀ t < U.size, t ≠ TypeId.any →
          (U.assignable t i ↔ ∀ m ∈ ms, U.assignable t m)) := by
  have htidy := hT.tidy
  have hms' : ∀ m ∈ ms, T.Canonical m := fun m hm => htidy.canonical (hms m hm)
  obtain ⟨hbuilds, hyields⟩ := intersectionOf_yields_isIntersectionOf htidy.hasBuiltins hms'
  rw [hi] at hbuilds hyields
  obtain ⟨hcanonical, hinter⟩ := hyields i rfl
  have hU : U.Tidy := hbuilds.tidy htidy
  have hTU : Grows T U := hbuilds.grows
  have hmsU : ∀ m ∈ ms, U.Canonical m := fun m hm => hTU.canonical (hms' m hm)
  have hlt : i < U.size := hcanonical.lt_size
  refine ⟨hinter.assignable hU hmsU hlt, ?_⟩
  intro hstrict hany hobject t ht htany
  have hstrict' : U.options.strictNullChecks := by
    rw [hTU.options_eq, (hT.builds (tidy_withOptions o)).grows.options_eq, options_withOptions]
    exact hstrict
  have hflat : TypeId.any ∉ ms.flatMap U.constraints :=
    mt (any_mem_of_mem_constraints hU.hasBuiltins hmsU) hany
  have hobject' : ∀ m ∈ ms, ∀ a ∈ U.alternatives m, TypeId.object ∉ U.constraints a := by
    intro m hm a ha
    rw [hTU.alternatives_eq (hms m hm)] at ha
    rw [hTU.constraints_eq ((hms' m hm).alternatives ha).1.lt_size]
    exact hobject m hm a ha
  exact ⟨assignable_of_assignable_intersection hU hmsU hinter hlt hflat ht htany,
    assignable_intersection_of_forall hU hstrict' hmsU hinter hlt hflat hobject' ht htany⟩

/-! ### A string with a field -/

namespace TypeTable

variable {ps : List Property} {p : Primitive}

/-- A primitive that can have fields next to an object type. -/
theorem canonicalIntersection_primitive_object (hb : T.HasBuiltins) (hp : p.isNullish = false)
    (hj : T.get? j = some (.object ps)) (hlt : p.id < j) : T.CanonicalIntersection [p.id, j] := by
  have hne : ∀ q : Primitive, q.id ≠ j := by
    rintro q rfl
    exact absurd ((hb.primitive q).symm.trans hj) (by simp)
  have hscalar : T.isScalar j = false := by
    simp [isScalar, scalar?, primitive?, literal?, hj, Ty.primitive?, Ty.literal?]
  have hscalars : ∀ m ∈ [p.id, j], T.isScalar m → m = p.id := by
    intro m hm hs
    rcases List.mem_pair.mp hm with rfl | rfl
    · rfl
    · exact absurd hs (by simp [hscalar])
  refine ⟨Nat.le_refl 2, by simpa using hlt, fun m hm => ?_, fun a ha b hb' hsa hsb => ?_,
    fun ho m hm => ?_, fun m hm hs q hq hqm => ?_⟩
  · rcases List.mem_pair.mp hm with rfl | rfl
    · exact ⟨_, hb.primitive p, rfl⟩
    · exact ⟨_, hj, rfl⟩
  · rw [hscalars a ha hsa, hscalars b hb' hsb]
  · rcases List.mem_pair.mp hm with rfl | rfl
    · rcases List.mem_pair.mp ho with ho | ho
      · obtain rfl : p = .object := hb.primitive_injective ho.symm
        simp [isScalar, scalar?, literal?, hb.primitive?_id, hb.primitive .object, Ty.literal?]
      · exact absurd ho (hne .object)
    · exact hscalar
  · rcases List.mem_pair.mp hqm with hqp | hqj
    · rw [hb.primitive_injective hqp, hp] at hq
      exact absurd hq (by decide)
    · exact hne q hqj

/-- Values with a numeric field `b`; the objects among them; those or the numbers; the strings among
them. -/
def shapes : List Ty :=
  [.object [{ name := "b", type := TypeId.number }], .intersection [TypeId.object, 14],
    .union [TypeId.number, 15], .intersection [TypeId.string, 14]]

/-- A table with the first of `shapes`. -/
def shapesTable (count : Nat) : TypeTable := withNodes {} (shapes.take count)

/-- The types of the table are the built-in ones and the shapes. -/
theorem types_shapesTable (count : Nat) :
    (shapesTable count).types = (builtins ++ shapes.take count).toArray := by
  have hnew : ∀ t ∈ shapes, t ∉ builtins := by decide
  exact types_withNodes_take hnew (by decide) count

/-- A type of the table is found at its place. -/
theorem get?_shapesTable (count : Nat) (i : TypeId) :
    (shapesTable count).get? i = (builtins ++ shapes.take count)[i]? := by
  rw [get?, types_shapesTable, List.getElem?_toArray]

/-- The size of the table. -/
theorem size_shapesTable (count : Nat) :
    (shapesTable count).size = (builtins ++ shapes.take count).length := by
  rw [size, types_shapesTable, List.size_toArray]

/-- The built-in types are in place. -/
theorem hasBuiltins_shapesTable (count : Nat) : (shapesTable count).HasBuiltins :=
  (grows_withNodes _ _).hasBuiltins (hasBuiltins_withOptions {})

/-- The union of `number` and an object with a shape is canonical. -/
theorem canonicalUnion_shapesTable : (shapesTable 2).CanonicalUnion [TypeId.number, 15] := by
  have hget : ∀ m ∈ [TypeId.number, 15], ∃ t, (shapesTable 2).get? m = some t ∧ t.isAlternative ∧
      ∀ l, t ≠ .literal l := by
    intro m hm
    rcases List.mem_pair.mp hm with rfl | rfl
    · exact ⟨.primitive .number, get?_shapesTable 2 _, rfl, by simp⟩
    · exact ⟨.intersection [TypeId.object, 14], get?_shapesTable 2 _, rfl, by simp⟩
  refine ⟨Nat.le_refl 2, by decide, fun m hm => ?_, fun m hm p hp => ?_⟩
  · obtain ⟨t, ht, halt, -⟩ := hget m hm
    exact ⟨t, ht, halt⟩
  · obtain ⟨t, ht, -, hne⟩ := hget m hm
    obtain ⟨l, hl, -⟩ := exists_get?_of_literalBase? hp
    exact absurd (Option.some.inj (ht.symm.trans hl)) (hne l)

/-- Clients can build the table, one type after the other. -/
theorem runs_shapesTable : Runs (withOptions {}) (shapesTable 4) := by
  have h1 : Runs (withOptions {}) (shapesTable 1) :=
    Runs.intern .refl (tidy_withOptions {}) (t := .object [{ name := "b", type := TypeId.number }])
      (List.pairwise_singleton _ _) (by rw [size_withOptions]; decide)
  have h2 : Runs (withOptions {}) (shapesTable 2) :=
    h1.intern h1.tidy (t := .intersection [TypeId.object, 14])
      (canonicalIntersection_primitive_object (p := .object) (hasBuiltins_shapesTable 1) rfl
        (get?_shapesTable 1 14) (by decide)) (by rw [size_shapesTable]; decide)
  have h3 : Runs (withOptions {}) (shapesTable 3) :=
    h2.intern h2.tidy (t := .union [TypeId.number, 15]) canonicalUnion_shapesTable
      (by rw [size_shapesTable]; decide)
  refine h3.intern h3.tidy (t := .intersection [TypeId.string, 14]) ?_ ?_
  · exact canonicalIntersection_primitive_object (p := .string) (hasBuiltins_shapesTable 3) rfl
      (get?_shapesTable 3 14) (by decide)
  · rw [size_shapesTable]
    decide

/-- The strings with a field are the strings among the values with that field. -/
theorem on_intersectionOf_shapesTable :
    (intersectionOf [TypeId.string, 14]).on (shapesTable 4) = (.ok 17, shapesTable 4) := by
  have hb := hasBuiltins_shapesTable 4
  have hcanonical : (shapesTable 4).CanonicalIntersection [TypeId.string, 14] :=
    canonicalIntersection_primitive_object (p := .string) hb rfl (get?_shapesTable 4 14) (by decide)
  rw [hcanonical.on_intersectionOf hb]
  exact on_intern_of_get? (get?_shapesTable 4 17)

/-- The strings with a field fit the numbers and objects with that field, as they fit both `object`
and the field. -/
theorem assignable_shapesTable : ∀ m ∈ [16, TypeId.string], (shapesTable 4).assignable 17 m := by
  have hT := runs_shapesTable.tidy
  have hstrings : (shapesTable 4).get? 17 = some (.intersection [TypeId.string, 14]) :=
    get?_shapesTable 4 17
  have hfield : (shapesTable 4).get? 14 = some (.object [{ name := "b", type := TypeId.number }]) :=
    get?_shapesTable 4 14
  have hparts := (hT.assignable_intersection_iff hstrings rfl hstrings).mp (assignable_self 17)
  -- the member with a shape is an object
  have hobject : (shapesTable 4).assignable 17 TypeId.object := by
    refine (hT.assignable_leaf_iff hstrings rfl (hT.hasBuiltins.primitive .object)
      (Or.inr rfl)).mpr ⟨14, by simp [constraints, hstrings], ?_⟩
    refine (hT.assignable_primitive_iff (p := .object) hfield rfl).mpr ?_
    simp [isStructured, hfield]
  intro m hm
  rcases List.mem_pair.mp hm with rfl | rfl
  · rw [hT.assignable_union_iff hstrings rfl (get?_shapesTable 4 16)]
    refine ⟨15, by decide, ?_⟩
    rw [hT.assignable_intersection_iff hstrings rfl (get?_shapesTable 4 15)]
    intro m hm
    rcases List.mem_pair.mp hm with rfl | rfl
    · exact hobject
    · exact hparts 14 (by decide)
  · exact hparts _ (by decide)

/-- Strings are neither numbers nor objects. -/
theorem not_compatible_of_string (hb : T.HasBuiltins) (hstring : TypeId.string ∈ ms)
    (h : TypeId.number ∈ ms ∨ TypeId.object ∈ ms) : ¬ (T.scalars ms).Compatible := by
  intro hc
  have hprim : Primitive.string ∈ (T.scalars ms).primitives :=
    (mem_primitives hb).mpr ⟨⟨hstring, by decide⟩, by simp⟩
  rcases h with hnumber | hobject
  · have hnumber' : Primitive.number ∈ (T.scalars ms).primitives :=
      (mem_primitives hb).mpr ⟨⟨hnumber, by decide⟩, by simp⟩
    exact absurd (hc.primitives _ hprim _ hnumber') (by decide)
  · rw [(hc.object_alone ((hasObject_iff hb).mpr hobject)).1] at hprim
    exact absurd hprim List.not_mem_nil

/-- The strings among the numbers and the objects with a field: either kind, with `string`. -/
theorem map_alternatives_of_grows_shapesTable (hU : Grows (shapesTable 4) U) :
    (U.openedMembers [16, TypeId.string]).map U.alternatives =
      [[TypeId.string], [TypeId.number, 15]] := by
  have hstring : U.get? TypeId.string = some (.primitive .string) :=
    hU.get? (get?_shapesTable 4 TypeId.string)
  have hunion : U.get? 16 = some (.union [TypeId.number, 15]) := hU.get? (get?_shapesTable 4 16)
  have hopened : U.openedMembers [16, TypeId.string] = [TypeId.string, 16] := by
    simp only [openedMembers, List.flatMap_cons, List.flatMap_nil, constraints, hstring, hunion]
    decide
  simp [hopened, alternatives, hstring, hunion]

/-- Each choice asks for a number and a string, or for a string and an object. -/
theorem not_compatible_of_grows_shapesTable (hU : Grows (shapesTable 4) U)
    (hc : c ∈ choices ((U.openedMembers [16, TypeId.string]).map U.alternatives)) :
    ¬ (U.scalars (U.openedMembers c)).Compatible := by
  have hb := hU.hasBuiltins (hasBuiltins_shapesTable 4)
  have hobjects : U.constraints 15 = [TypeId.object, 14] := by
    rw [constraints, hU.get? (get?_shapesTable 4 15)]
  have hstring : U.constraints TypeId.string = [TypeId.string] :=
    constraints_of_isConstraint (hb.primitive .string) rfl
  have hnumber : U.constraints TypeId.number = [TypeId.number] :=
    constraints_of_isConstraint (hb.primitive .number) rfl
  have hchoices : choices [[TypeId.string], [TypeId.number, 15]] =
      [[TypeId.string, TypeId.number], [TypeId.string, 15]] := by decide
  rw [map_alternatives_of_grows_shapesTable hU, hchoices] at hc
  rcases List.mem_pair.mp hc with rfl | rfl
  · refine not_compatible_of_string hb ?_ (Or.inl ?_) <;>
      simp [mem_openedMembers, hstring, hnumber, TypeId.unknown, TypeId.number, TypeId.string]
  · refine not_compatible_of_string hb ?_ (Or.inr ?_) <;>
      simp [mem_openedMembers, hstring, hobjects, TypeId.unknown, TypeId.object, TypeId.string]

end TypeTable

/-- The strings with a field are the greatest lower bound of the strings and the values with that
field. -/
theorem intersectionOf_isGLB_shapesTable :
    Runs (withOptions {}) (shapesTable 4) ∧
      (∀ m ∈ [TypeId.string, 14], m < (shapesTable 4).size) ∧
      (intersectionOf [TypeId.string, 14]).on (shapesTable 4) = (.ok 17, shapesTable 4) ∧
      (∀ m ∈ [TypeId.string, 14], (shapesTable 4).assignable 17 m) ∧
      ({} : Options).strictNullChecks ∧ TypeId.any ∉ [TypeId.string, 14] ∧
      (∀ m ∈ [TypeId.string, 14], ∀ a ∈ (shapesTable 4).alternatives m,
        TypeId.object ∉ (shapesTable 4).constraints a) ∧
      15 < (shapesTable 4).size ∧ 15 ≠ TypeId.any ∧
      ((shapesTable 4).assignable 15 17 ↔
        ∀ m ∈ [TypeId.string, 14], (shapesTable 4).assignable 15 m) := by
  have hlt : ∀ m ∈ [TypeId.string, 14, 15], m < (shapesTable 4).size := by
    rw [size_shapesTable]
    decide
  have hlt' : ∀ m ∈ [TypeId.string, 14], m < (shapesTable 4).size := fun m hm =>
    hlt m (List.mem_append_left [15] hm)
  have hobject : ∀ m ∈ [TypeId.string, 14], ∀ a ∈ (shapesTable 4).alternatives m,
      TypeId.object ∉ (shapesTable 4).constraints a := by
    simp only [alternatives, constraints, get?_shapesTable]
    decide
  have hi := on_intersectionOf_shapesTable
  have ht : 15 < (shapesTable 4).size := hlt 15 (by decide)
  obtain ⟨hbelow, habove⟩ := intersectionOf_isGLB runs_shapesTable hlt' hi
  exact ⟨runs_shapesTable, hlt', hi, hbelow, rfl, by decide, hobject, ht, by decide,
    habove rfl (by decide) hobject 15 ht (by decide)⟩

/-- The strings with a field fit the numbers and objects with that field, but what is a string, too,
is `never`. `object` is neither of the members there, nor an alternative or a constraint of one. -/
theorem not_assignable_shapesTable :
    Runs (withOptions {}) (shapesTable 4) ∧
      (∀ m ∈ [16, TypeId.string, 17], m < (shapesTable 4).size) ∧
      ({} : Options).strictNullChecks ∧ TypeId.any ∉ [16, TypeId.string] ∧ 17 ≠ TypeId.any ∧
      (∀ m ∈ [16, TypeId.string], m ≠ TypeId.object ∧
        TypeId.object ∉ (shapesTable 4).alternatives m ∧
        TypeId.object ∉ (shapesTable 4).constraints m) ∧
      ∃ U, (intersectionOf [16, TypeId.string]).on (shapesTable 4) = (.ok TypeId.never, U) ∧
        (∀ m ∈ [16, TypeId.string], U.assignable 17 m) ∧ ¬ U.assignable 17 TypeId.never := by
  have hT := runs_shapesTable.tidy
  have hlt : ∀ m ∈ [16, TypeId.string, 17], m < (shapesTable 4).size := by
    rw [size_shapesTable]
    decide
  have hms : ∀ m ∈ [16, TypeId.string], (shapesTable 4).Canonical m := fun m hm =>
    hT.canonical (hlt m (List.mem_append_left [17] hm))
  have hoptions : (shapesTable 4).options = {} :=
    (grows_withNodes {} (shapes.take 4)).options_eq.trans (options_withOptions {})
  have hallowed : ¬ ∃ e, (shapesTable 4).IsRefused [16, TypeId.string] e := by
    rintro ⟨e, -, hlarge⟩
    rw [choiceSize, map_alternatives_of_grows_shapesTable .refl, hoptions] at hlarge
    have hnone : refusal? (choiceCount [[TypeId.string], [TypeId.number, 15]])
        ({} : Options).maxUnionSize = none := by decide
    exact absurd (hnone.symm.trans hlarge) (by simp)
  refine ⟨runs_shapesTable, hlt, rfl, by decide, by decide, ?_, ?_⟩
  · simp only [alternatives, constraints, get?_shapesTable]
    decide
  obtain ⟨i, U, hi, hbuilds, hcanonical, hinter⟩ :=
    intersectionOf_isIntersectionOf hT.hasBuiltins hms hallowed
  have hU := hbuilds.tidy hT
  obtain rfl : i = TypeId.never :=
    hinter.eq_never hU (fun m hm => hbuilds.canonical (hms m hm)) hcanonical.lt_size (by decide)
      fun c hc => not_compatible_of_grows_shapesTable hbuilds.grows hc
  refine ⟨U, hi, fun m hm => ?_, ?_⟩
  · -- the table has grown, and the answers about its old types are the old ones
    rw [hbuilds.grows.assignable_eq hT.descends hT.hasBuiltins (hlt 17 (by decide))
      (hlt m (List.mem_append_left [17] hm))]
    exact assignable_shapesTable m hm
  · rw [hU.not_assignable_never (Nat.lt_of_lt_of_le (hlt 17 (by decide)) hbuilds.grows.size_le)
      (by decide)]
    decide

end TypeAssay
