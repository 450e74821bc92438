import TypeAssay.Proofs.Clauses
import TypeAssay.Proofs.Equality
import TypeAssay.Proofs.Repeats

/-!
# Grouping in an intersection

Members of an intersection may be intersected first, as a group: the subjects of the group stand for
coherent demands of subjects of its members, and reducing these early changes nothing
(`IsIntersectionOf.eq_of_group`). So `A & B & C`, `(A & B) & C` and `A & (B & C)` are one type
(`intersectionOf_grouping`).

There is one exception. A member that is given twice counts once, and one alternative of it is
picked; but if one of the two is hidden in a group, an alternative is picked of each. Where the
member is a union with two alternatives that overlap, these may be different ones, and their
intersection is one more alternative (`not_grouping_tagsTable`). It adds no values, but unions drop
no alternative because it is part of another.
-/

namespace TypeAssay

open TypeTable

namespace TypeTable

variable {T U V : TypeTable} {o : Options} {i j k n u a b c ab bc x y : TypeId}
  {ms ns ls ks : List TypeId} {f : TypeId → TypeId}

/-! ## Intersections in later tables -/

/-- What a union is stays so in later tables. -/
theorem IsUnionOf.grows (h : T.IsUnionOf ms n) (hTU : Grows T U) (hms : ∀ m ∈ ms, T.Canonical m)
    (hn : n < T.size) : U.IsUnionOf ms n := by
  have hflat : ms.flatMap U.alternatives = ms.flatMap T.alternatives :=
    List.flatMap_congr fun m hm => hTU.alternatives_eq (hms m hm).lt_size
  have hlt : ∀ a ∈ ms.flatMap T.alternatives, a < T.size := fun a ha =>
    (canonical_of_mem_alternatives hms ha).1.lt_size
  rw [IsUnionOf] at h ⊢
  rwa [hflat, hTU.subjects_eq hn, hTU.unionMembers_eq hlt]

/-- An intersection stays one when the table grows. -/
theorem IsIntersectionOf.grows (h : T.IsIntersectionOf ms n) (hTU : Grows T U)
    (hb : T.HasBuiltins) (hms : ∀ m ∈ ms, T.Canonical m) (hn : n < T.size) :
    U.IsIntersectionOf ms n := by
  have hflat : ms.flatMap U.constraints = ms.flatMap T.constraints :=
    List.flatMap_congr fun m hm => hTU.constraints_eq (hms m hm).lt_size
  rw [IsIntersectionOf] at h
  -- `never` and `any` decide alone, and both are seen in either table
  by_cases hnever : TypeId.never ∈ ms.flatMap T.constraints
  · rw [if_pos hnever] at h
    rw [IsIntersectionOf, hflat, if_pos hnever]
    exact h
  by_cases hany : TypeId.any ∈ ms.flatMap T.constraints
  · rw [if_neg hnever, if_pos hany] at h
    rw [IsIntersectionOf, hflat, if_neg hnever, if_pos hany]
    exact h
  rw [if_neg hnever, if_neg hany] at h
  obtain ⟨ns, hns, hunion⟩ := h
  have hunabsorbed : T.Unabsorbed ms := ⟨hnever, hany⟩
  have hchoice : ∀ c ∈ choices ((T.openedMembers ms).map T.alternatives),
      ∀ a ∈ T.openedMembers c, a < T.size := fun c hc a ha =>
    (canonical_of_mem_openedMembers (canonical_of_mem_choice hms hc) ha).lt_size
  refine .of_choices hunabsorbed hb hms hTU ?_
    (hunion.grows hTU (forall_right_of_forall₂ hns fun _ _ hr => hr.1) hn)
  refine ((List.forall₂_and_left _ _).mpr ⟨hchoice, hns⟩).imp fun c r hr => ?_
  exact ⟨hTU.canonical hr.2.1, hr.2.2.grows hTU hr.1 hr.2.1.lt_size⟩

/-! ## One level of grouping -/

/-- Two different alternatives of the type have nothing in common: their intersection is `never`. -/
def Exclusive (T : TypeTable) (u : TypeId) : Prop :=
  ∀ x ∈ T.alternatives u, ∀ y ∈ T.alternatives u, x ≠ y → T.IsIntersectionOf [x, y] TypeId.never

/-- Subjects of an exclusive type that agree are the same. -/
theorem Exclusive.eq_of_coherent (h : T.Exclusive u) (hb : T.HasBuiltins) (hu : T.Canonical u)
    (hany : u ≠ TypeId.any) (hx : x ∈ T.subjects u) (hy : y ∈ T.subjects u)
    (hc : T.Coherent (T.demands x ++ T.demands y)) : x = y := by
  by_contra hne
  have hnever := ne_never_of_mem_subjects hb hx
  have hself : ∀ z ∈ T.subjects u, z ≠ TypeId.any ∧ T.Canonical z ∧ z ∈ T.subjects z := by
    intro z hz
    rcases hu.subject_cases hb hany hz with ⟨-, rfl⟩ | ⟨-, hcanonical, t, ht, halt⟩
    · exact ⟨by decide, hb.canonical_unknown, by simp [subjects, hb.unknown]⟩
    · refine ⟨?_, hcanonical, by simp [subjects_of_isAlternative ht halt]⟩
      rintro rfl
      obtain rfl := Option.some.inj (hb.any.symm.trans ht)
      exact absurd halt (by decide)
  rw [subjects_eq_alternatives hb hnever] at hx hy hself
  obtain ⟨hxany, hxc, hxs⟩ := hself x hx
  obtain ⟨hyany, hyc, hys⟩ := hself y hy
  obtain ⟨z, hz, -⟩ := (h x hx y hy hne).exists_subject hb (f := id) (by simp [hxc, hyc])
    (by simp [hxany.symm, hyany.symm]) (by simp [Picks, hxs, hys]) (by simpa [picked] using hc)
  rw [subjects_never hb] at hz
  exact absurd hz List.not_mem_nil

/-- Subjects that are picked of some members and of others, if they are coherent, are picked of all
members at once: of a member that both have, the subjects are the same. -/
theorem exists_picks_append {g : TypeId → TypeId} (hb : T.HasBuiltins)
    (h : ∀ m ∈ ms, T.Canonical m) (hany : TypeId.any ∉ ms) (hf : T.Picks ms f)
    (hg : T.Picks ls g) (hshared : ∀ u ∈ ms, u ∈ ls → T.Exclusive u)
    (hc : T.Coherent (T.picked ms f ++ T.picked ls g)) :
    ∃ e, T.Picks (ms ++ ls) e ∧ T.picked (ms ++ ls) e = T.picked ms f ++ T.picked ls g := by
  have hsame : ∀ m ∈ ls, (if m ∈ ms then f m else g m) = g m := by
    intro m hm
    by_cases hmem : m ∈ ms
    · rw [if_pos hmem]
      refine (hshared m hmem hm).eq_of_coherent hb (h m hmem) (fun e => hany (e ▸ hmem))
        (hf m hmem) (hg m hm) (hc.subset (List.append_subset.mpr ⟨?_, ?_⟩))
      · exact List.subset_append_of_subset_left _ (demands_subset_picked hmem)
      · exact List.subset_append_of_subset_right _ (demands_subset_picked hm)
    · rw [if_neg hmem]
  refine ⟨fun m => if m ∈ ms then f m else g m, fun m hm => ?_, ?_⟩
  · rcases List.mem_append.mp hm with hm | hm
    · simpa only [if_pos hm] using hf m hm
    · simpa only [hsame m hm] using hg m hm
  · rw [picked_append]
    exact congrArg₂ _ (picked_congr fun m hm => if_pos hm) (picked_congr hsame)

/-- Some members of an intersection may be put into a group, if the group and the rest of the
members share no type but exclusive ones. -/
theorem IsIntersectionOf.eq_of_group (hgroup : T.IsIntersectionOf ms n)
    (hnested : T.IsIntersectionOf (n :: ls) j) (hflat : T.IsIntersectionOf (ms ++ ls) i)
    (hb : T.HasBuiltins) (h : ∀ m ∈ ms ++ ls, T.Canonical m) (hany : TypeId.any ∉ ms ++ ls)
    (hn : T.Canonical n) (hi : T.Canonical i) (hj : T.Canonical j)
    (hshared : ∀ u ∈ ms, u ∈ ls → T.Exclusive u) (hagain : n ∈ ls → T.Exclusive n) : i = j := by
  have hms : ∀ m ∈ ms, T.Canonical m := fun m hm => h m (List.mem_append_left ls hm)
  have hls : ∀ m ∈ n :: ls, T.Canonical m :=
    List.forall_mem_cons.mpr ⟨hn, fun m hm => h m (List.mem_append_right ms hm)⟩
  have hmsany : TypeId.any ∉ ms := fun hm => hany (List.mem_append_left ls hm)
  have hnany : TypeId.any ∉ [n] := by
    simpa [eq_comm] using hgroup.ne_any hb hms hmsany
  have hlsany : TypeId.any ∉ n :: ls := by
    refine List.not_mem_cons_of_ne_of_not_mem (fun e => hnany (by simp [e])) fun hm => ?_
    exact hany (List.mem_append_right ms hm)
  have hagain' : ∀ u ∈ [n], u ∈ ls → T.Exclusive u := by simpa using hagain
  refine hi.eq_of_subjects hj hb fun x => ⟨fun hx => ?_, fun hx => ?_⟩
  · obtain ⟨hxc, f, hf, hfx⟩ := hflat.exists_picks hb h hany hx
    obtain ⟨hfms, hfls⟩ := List.forall_mem_append.mp hf
    rw [picked_append] at hfx
    -- the subjects that are picked in the group reduce to a subject of the group
    obtain ⟨w, hw, hfw⟩ := hgroup.exists_subject hb hms hmsany hfms
      (hfx.coherent.subset (List.subset_append_left _ _))
    have hwx : T.Reduces (T.picked [n] (fun _ => w) ++ T.picked ls f) x := by
      rw [picked_singleton]
      exact (hfw.append_iff hb).mpr hfx
    obtain ⟨e, he, hpicked⟩ := exists_picks_append hb (by simpa using hn) hnany
      (by simpa [Picks] using hw) hfls hagain' hwx.coherent
    obtain ⟨y, hy, hey⟩ := hnested.exists_subject hb hls hlsany he (hpicked ▸ hwx.coherent)
    have hyc := (hnested.exists_picks hb hls hlsany hy).1
    rwa [hwx.unique (hpicked ▸ hey) hxc hyc hb]
  · obtain ⟨hxc, f, hf, hfx⟩ := hnested.exists_picks hb hls hlsany hx
    obtain ⟨hfn, hfls⟩ := List.forall_mem_cons.mp hf
    rw [← List.singleton_append, picked_append, picked_singleton] at hfx
    -- a subject of the group is what subjects of its members reduce to
    obtain ⟨-, g, hg, hgn⟩ := hgroup.exists_picks hb hms hmsany hfn
    have hgx := (hgn.append_iff hb).mp hfx
    obtain ⟨e, he, hpicked⟩ := exists_picks_append hb hms hmsany hg hfls hshared hgx.coherent
    obtain ⟨y, hy, hey⟩ := hflat.exists_subject hb h hany he (hpicked ▸ hgx.coherent)
    have hyc := (hflat.exists_picks hb h hany hy).1
    rwa [hgx.unique (hpicked ▸ hey) hxc hyc hb]

/-- The order of the members does not matter, nor how often one is given. -/
theorem IsIntersectionOf.congr (h : T.IsIntersectionOf ms n) (hls : ∀ a, a ∈ ms ↔ a ∈ ls) :
    T.IsIntersectionOf ls n := by
  have hflat : ∀ a, a ∈ ms.flatMap T.constraints ↔ a ∈ ls.flatMap T.constraints := by
    simp only [List.mem_flatMap, hls, implies_true]
  have hopened : T.openedMembers ms = T.openedMembers ls :=
    (pairwise_ascending _).eq_of_mem_iff (pairwise_ascending _) fun a =>
      mem_openedMembers.trans ((and_congr_left fun _ => hflat a).trans mem_openedMembers.symm)
  rw [IsIntersectionOf] at h ⊢
  simpa only [← hflat, ← hopened] using h

/-- An element of both parts of a list is in it twice. -/
theorem two_le_count_append (hms : u ∈ ms) (hls : u ∈ ls) : 2 ≤ (ms ++ ls).count u := by
  rw [List.count_append]
  exact Nat.add_le_add (List.count_pos_iff.mpr hms) (List.count_pos_iff.mpr hls)

/-! ## Grouping -/

/-- On the way from a new table to `V`, clients asked for the intersection of `ms` and were given
`i`. -/
def Answered (o : Options) (V : TypeTable) (ms : List TypeId) (i : TypeId) : Prop :=
  ∃ T U, Runs (withOptions o) T ∧ (∀ m ∈ ms, m < T.size) ∧
    (intersectionOf ms).on T = (.ok i, U) ∧ Runs U V

/-- What clients are answered is the intersection, in a tidy table. -/
theorem Answered.isIntersectionOf (h : V.Answered o ms i) :
    V.Tidy ∧ (∀ m ∈ ms, V.Canonical m) ∧ V.Canonical i ∧ V.IsIntersectionOf ms i := by
  obtain ⟨T, U, hT, hms, hi, hUV⟩ := h
  have htidy := hT.tidy
  have hms' : ∀ m ∈ ms, T.Canonical m := fun m hm => htidy.canonical (hms m hm)
  obtain ⟨hbuilds, hinter⟩ := intersectionOf_yields_isIntersectionOf htidy.hasBuiltins hms'
  rw [hi] at hbuilds hinter
  obtain ⟨hcanonical, hinter⟩ := hinter i rfl
  have hU := hbuilds.tidy htidy
  have hbuilds' := hUV.builds hU
  have hmsU : ∀ m ∈ ms, U.Canonical m := fun m hm => hbuilds.canonical (hms' m hm)
  exact ⟨hbuilds'.tidy hU, fun m hm => hbuilds'.canonical (hmsU m hm),
    hbuilds'.canonical hcanonical,
    hinter.grows hbuilds'.grows hU.hasBuiltins hmsU hcanonical.lt_size⟩

/-- Without `any` among the members the answer is not `any`. -/
theorem Answered.ne_any (h : V.Answered o ms i) (hany : TypeId.any ∉ ms) : i ≠ TypeId.any := by
  obtain ⟨hV, hms, -, hi⟩ := h.isIntersectionOf
  exact hi.ne_any hV.hasBuiltins hms hany

/-- An answer has the values that all members have. -/
theorem Answered.inhabits_iff (h : V.Answered o ms i) (hany : TypeId.any ∉ ms) (v : Value) :
    V.Inhabits v i ↔ ∀ m ∈ ms, V.Inhabits v m := by
  obtain ⟨hV, hms, -, hi⟩ := h.isIntersectionOf
  exact hi.inhabits_iff hV.hasBuiltins hms hany

/-- Whatever the members share, grouping them adds no values and takes none away. -/
theorem Answered.inhabits_group_iff (hany : TypeId.any ∉ ms ++ ls)
    (hflat : V.Answered o (ms ++ ls) i) (hgroup : V.Answered o ms n)
    (hnested : V.Answered o (n :: ls) j) (v : Value) :
    V.Inhabits v j ↔ V.Inhabits v i := by
  rw [List.mem_append, not_or] at hany
  have hn := hgroup.ne_any hany.1
  rw [hflat.inhabits_iff (by simp [hany]), hnested.inhabits_iff (by simp [hany, hn.symm]),
    List.forall_mem_cons, hgroup.inhabits_iff hany.1, List.forall_mem_append]

end TypeTable

/-! ### Tagged strings -/

namespace TypeTable

variable {o : Options}

/-- Two tags; values with one of them; the strings with the first, with the second and with either;
the strings with both; the strings with either, those with both listed, too. -/
def tags : List Ty :=
  [.object [{ name := "a", type := TypeId.number }],
    .object [{ name := "b", type := TypeId.number }], .union [14, 15],
    .intersection [TypeId.string, 14], .intersection [TypeId.string, 15], .union [17, 18],
    .intersection [TypeId.string, 14, 15], .union [17, 18, 20]]

/-- The types of the table are the built-in ones and the tags. -/
theorem types_withNodes_tags (count : Nat) :
    (withNodes {} (tags.take count)).types = (builtins ++ tags.take count).toArray := by
  have hnew : ∀ t ∈ tags, t ∉ builtins := by decide
  exact types_withNodes_take hnew (by decide) count

/-- The table of the first tags, its types written out, so that it can be looked up in them. -/
def tagsTable (count : Nat) : TypeTable where
  types := (builtins ++ tags.take count).toArray
  index := (withNodes {} (tags.take count)).index
  options := {}
  index_iff := types_withNodes_tags count ▸ (withNodes {} (tags.take count)).index_iff

/-- The table that is written down is the one that is built. -/
theorem tagsTable_eq (count : Nat) : tagsTable count = withNodes {} (tags.take count) :=
  mk_eq_withNodes (types_withNodes_tags count)

variable {T : TypeTable} {ms : List TypeId}

/-- A union is canonical if its members pass the tests, one by one. -/
theorem canonicalUnion_of_get? (htwo : 2 ≤ ms.length) (hasc : ms.Pairwise (· < ·))
    (halt : ∀ m ∈ ms, (T.get? m).any Ty.isAlternative)
    (hfolded : ∀ m ∈ ms, ∀ p ∈ T.literalBase? m, p.id ∉ ms) : T.CanonicalUnion ms := by
  refine ⟨htwo, hasc, fun m hm => ?_, fun m hm p hp => hfolded m hm p hp⟩
  exact (Option.any_eq_true _ _).mp (halt m hm)

/-- An intersection is canonical if its members pass the tests. -/
theorem canonicalIntersection_of_get? (htwo : 2 ≤ ms.length) (hasc : ms.Pairwise (· < ·))
    (hcon : ∀ m ∈ ms, (T.get? m).any Ty.isConstraint)
    (hone : ∀ a ∈ ms, ∀ b ∈ ms, T.isScalar a → T.isScalar b → a = b)
    (hobject : TypeId.object ∉ ms) (hnullish : ∀ p ∈ Primitive.all, p.isNullish → p.id ∉ ms) :
    T.CanonicalIntersection ms := by
  refine ⟨htwo, hasc, fun m hm => ?_, hone, fun ho => absurd ho hobject, fun m _ _ p hp =>
    hnullish p (by cases p <;> decide) hp⟩
  exact (Option.any_eq_true _ _).mp (hcon m hm)

/-- Each tag is canonical where it is entered. -/
theorem canonicalNode_tagsTable (k : Nat) (t : Ty) (hk : tags[k]? = some t) :
    (tagsTable k).CanonicalNode t := by
  have hlt : k < 8 := (List.getElem?_eq_some_iff.mp hk).1
  interval_cases k <;> obtain rfl := Option.some.inj hk
  · exact List.pairwise_singleton _ _
  · exact List.pairwise_singleton _ _
  · exact canonicalUnion_of_get? (by decide) (by decide) (by decide) (by decide)
  · exact canonicalIntersection_of_get? (by decide) (by decide) (by decide) (by decide) (by decide)
      (by decide)
  · exact canonicalIntersection_of_get? (by decide) (by decide) (by decide) (by decide) (by decide)
      (by decide)
  · exact canonicalUnion_of_get? (by decide) (by decide) (by decide) (by decide)
  · exact canonicalIntersection_of_get? (by decide) (by decide) (by decide) (by decide) (by decide)
      (by decide)
  · exact canonicalUnion_of_get? (by decide) (by decide) (by decide) (by decide)

/-- Clients can build the table. -/
theorem runs_tagsTable : Runs (withOptions {}) (tagsTable 8) := by
  rw [tagsTable_eq]
  refine runs_withNodes_take (by decide) (by decide) (fun k t hk => ?_) (fun k t hk => ?_) 8
  · rw [← tagsTable_eq]
    exact canonicalNode_tagsTable k t hk
  · have hlt : k < 8 := (List.getElem?_eq_some_iff.mp hk).1
    interval_cases k <;> obtain rfl := Option.some.inj hk <;> decide

instance {n : TypeId} : Decidable (T.IsUnionOf ms n) :=
  inferInstanceAs (Decidable (if TypeId.any ∈ ms.flatMap T.alternatives then n = TypeId.any
    else if TypeId.unknown ∈ ms.flatMap T.alternatives then n = TypeId.unknown
    else T.subjects n = T.unionMembers (ms.flatMap T.alternatives)))

instance {n : TypeId} : Decidable (T.IsReductionOf ms n) :=
  inferInstanceAs (Decidable (if (T.scalars ms).conflict then n = TypeId.never
    else T.demands n = T.reducedConstraints ms))

/-- An intersection whose results for all choices are known, and their union. -/
theorem isIntersectionOf_of_results (ns : List TypeId) {n : TypeId} (hT : T.Tidy)
    (hms : ∀ m ∈ ms, m < T.size) (hu : T.Unabsorbed ms)
    (hns : List.Forall₂ (fun c r => r < T.size ∧ T.IsReductionOf (T.openedMembers c) r)
      (choices ((T.openedMembers ms).map T.alternatives)) ns) (hn : T.IsUnionOf ns n) :
    T.IsIntersectionOf ms n :=
  .of_choices hu hT.hasBuiltins (fun m hm => hT.canonical (hms m hm)) .refl
    (hns.imp fun _ _ hr => ⟨hT.canonical hr.1, hr.2⟩) hn

/-- A table that knows the results for all choices answers at once. -/
theorem answered_of_results (ns : List TypeId) {n : TypeId} (hT : Runs (withOptions o) T)
    (hms : ∀ m ∈ ms, m < T.size) (hn : n < T.size) (hd : T.Distributes ms)
    (hfits : refusal? (T.choiceSize ms) T.options.maxUnionSize = none)
    (hns : List.Forall₂ (fun c r => r < T.size ∧ T.IsReductionOf (T.openedMembers c) r)
      (choices ((T.openedMembers ms).map T.alternatives)) ns) (hu : T.IsUnionOf ns n) :
    T.Answered o ms n := by
  have htidy := hT.tidy
  have hi := isIntersectionOf_of_results ns htidy hms hd.unabsorbed hns hu
  exact ⟨T, T, hT, hms, hi.on_intersectionOf htidy.hasBuiltins (htidy.canonical hn)
    (fun m hm => htidy.canonical (hms m hm)) hd hfits, .refl⟩

/-- Members, the results for all their choices, and the answer: the strings with a tag, the same
asked for together with the tags again, on either side, and what is true among the truth values. -/
def tagsAnswers : List (List TypeId × List TypeId × TypeId) :=
  [([16, TypeId.string, 16], [17, 18], 19), ([16, TypeId.string], [17, 18], 19),
    ([TypeId.string, 16], [17, 18], 19), ([19, 16], [17, 20, 20, 18], 21),
    ([16, 19], [17, 20, 20, 18], 21),
    ([TypeId.boolean, TypeId.yes, TypeId.boolean], [TypeId.yes, TypeId.never], TypeId.yes),
    ([TypeId.boolean, TypeId.yes], [TypeId.yes, TypeId.never], TypeId.yes),
    ([TypeId.yes, TypeId.boolean], [TypeId.yes, TypeId.never], TypeId.yes)]

/-- The answers that are listed are given. -/
theorem answered_tagsTable (ns : List TypeId) {n : TypeId} (h : (ms, ns, n) ∈ tagsAnswers) :
    (tagsTable 8).Answered {} ms n := by
  simp only [tagsAnswers, List.mem_cons, Prod.mk.injEq, List.not_mem_nil, or_false] at h
  rcases h with ⟨rfl, hns, rfl⟩ | ⟨rfl, hns, rfl⟩ | ⟨rfl, hns, rfl⟩ | ⟨rfl, hns, rfl⟩ |
    ⟨rfl, hns, rfl⟩ | ⟨rfl, hns, rfl⟩ | ⟨rfl, hns, rfl⟩ | ⟨rfl, hns, rfl⟩ <;>
    exact answered_of_results ns runs_tagsTable (by decide) (by decide)
      ⟨⟨by decide, by decide⟩, by decide, by decide⟩ (by decide) (hns ▸ by decide)
      (hns ▸ by decide)

/-- A value is of one truth value only. -/
theorem exclusive_boolean_tagsTable : (tagsTable 8).Exclusive TypeId.boolean := by
  have halternatives : (tagsTable 8).alternatives TypeId.boolean = [TypeId.yes, TypeId.no] := rfl
  rw [Exclusive, halternatives]
  intro x hx y hy hne
  rcases List.mem_pair.mp hx with rfl | rfl <;> rcases List.mem_pair.mp hy with rfl | rfl
  · exact absurd rfl hne
  · exact isIntersectionOf_of_results [TypeId.never] runs_tagsTable.tidy (by decide)
      ⟨by decide, by decide⟩ (by decide) (by decide)
  · exact isIntersectionOf_of_results [TypeId.never] runs_tagsTable.tidy (by decide)
      ⟨by decide, by decide⟩ (by decide) (by decide)
  · exact absurd rfl hne

end TypeTable

/-! ### The three groupings -/

variable {V : TypeTable} {o : Options} {a b c ab bc i j k : TypeId}

/-- Grouping of an intersection is unobservable if no type that is given twice in one of the calls
is a union with two alternatives that have values in common: all groupings are the same type, and
equality of any two of them answers yes. -/
theorem intersectionOf_grouping (hany : TypeId.any ∉ [a, b, c]) (hflat : V.Answered o [a, b, c] i)
    (hab : V.Answered o [a, b] ab) (hleft : V.Answered o [ab, c] j)
    (hbc : V.Answered o [b, c] bc) (hright : V.Answered o [a, bc] k)
    (hshared : ∀ ms ∈ [[a, b, c], [ab, c], [a, bc]], ∀ u, 2 ≤ ms.count u → V.Exclusive u) :
    i = j ∧ i = k ∧ (equal i j).on V = (.ok .yes, V) ∧ (equal i k).on V = (.ok .yes, V) := by
  obtain ⟨hV, hms, hi, hflat⟩ := hflat.isIntersectionOf
  obtain ⟨-, -, habc, hab⟩ := hab.isIntersectionOf
  obtain ⟨-, -, hj, hleft⟩ := hleft.isIntersectionOf
  obtain ⟨-, -, hbcc, hbc⟩ := hbc.isIntersectionOf
  obtain ⟨-, -, hk, hright⟩ := hright.isIntersectionOf
  have hb := hV.hasBuiltins
  obtain ⟨hsflat, hsleft, hsright⟩ : (∀ u, 2 ≤ [a, b, c].count u → V.Exclusive u) ∧
      (∀ u, 2 ≤ [ab, c].count u → V.Exclusive u) ∧ ∀ u, 2 ≤ [a, bc].count u → V.Exclusive u := by
    simpa only [List.forall_mem_cons, List.not_mem_nil, false_implies, implies_true, and_true]
      using hshared
  have hij : i = j := hab.eq_of_group hleft hflat hb hms hany habc hi hj
    (fun u hu hc => hsflat u (two_le_count_append hu hc))
    fun hc => hsleft ab (two_le_count_append (List.mem_singleton_self ab) hc)
  -- the group on the right is one on the left once the members are turned around
  have hturn : ([b, c] ++ [a]).Perm [a, b, c] := List.perm_append_comm
  have hswap : [bc, a].Perm [a, bc] := List.Perm.swap a bc []
  have hik : i = k := by
    refine hbc.eq_of_group (hright.congr fun m => hswap.mem_iff.symm)
      (hflat.congr fun m => hturn.mem_iff.symm) hb (fun m hm => hms m (hturn.mem_iff.mp hm))
      (mt hturn.mem_iff.mp hany) hbcc hi hk (fun u hu ha => hsflat u ?_) fun ha => hsright bc ?_
    · rw [← hturn.count_eq]
      exact two_le_count_append hu ha
    · rw [← hswap.count_eq]
      exact two_le_count_append (List.mem_singleton_self bc) ha
  have hequal : (equal i i).on V = (.ok .yes, V) := by
    have hself := on_normalize hb hi
    rw [on_equal_ok hself hself]
    simp [Outcome.ofBool, Outcome.yes]
  exact ⟨hij, hik, hij ▸ hequal, hik ▸ hequal⟩

/-- The truth values exclude each other, so that they are given twice makes no difference. -/
theorem intersectionOf_grouping_boolean :
    TypeId.any ∉ [TypeId.boolean, TypeId.yes, TypeId.boolean] ∧
      (tagsTable 8).Answered {} [TypeId.boolean, TypeId.yes, TypeId.boolean] TypeId.yes ∧
      (tagsTable 8).Answered {} [TypeId.boolean, TypeId.yes] TypeId.yes ∧
      (tagsTable 8).Answered {} [TypeId.yes, TypeId.boolean] TypeId.yes ∧
      (∀ ms ∈ [[TypeId.boolean, TypeId.yes, TypeId.boolean], [TypeId.yes, TypeId.boolean],
        [TypeId.boolean, TypeId.yes]], ∀ u, 2 ≤ ms.count u → (tagsTable 8).Exclusive u) ∧
      (equal TypeId.yes TypeId.yes).on (tagsTable 8) = (.ok .yes, tagsTable 8) := by
  have hshared : ∀ ms ∈ [[TypeId.boolean, TypeId.yes, TypeId.boolean],
      [TypeId.yes, TypeId.boolean], [TypeId.boolean, TypeId.yes]], ∀ u, 2 ≤ ms.count u →
        (tagsTable 8).Exclusive u := by
    intro ms hms u hu
    have hmem : u ∈ ms := List.count_pos_iff.mp (Nat.lt_of_lt_of_le Nat.zero_lt_two hu)
    have honly : ∀ ms ∈ [[TypeId.boolean, TypeId.yes, TypeId.boolean],
        [TypeId.yes, TypeId.boolean], [TypeId.boolean, TypeId.yes]], ∀ u ∈ ms, 2 ≤ ms.count u →
          u = TypeId.boolean := by decide
    -- only `boolean` comes twice, in any of the three lists
    exact honly ms hms u hmem hu ▸ exclusive_boolean_tagsTable
  have hflat : (tagsTable 8).Answered {} [TypeId.boolean, TypeId.yes, TypeId.boolean] TypeId.yes :=
    answered_tagsTable [TypeId.yes, TypeId.never] (by decide)
  have hleft : (tagsTable 8).Answered {} [TypeId.boolean, TypeId.yes] TypeId.yes :=
    answered_tagsTable [TypeId.yes, TypeId.never] (by decide)
  have hright : (tagsTable 8).Answered {} [TypeId.yes, TypeId.boolean] TypeId.yes :=
    answered_tagsTable [TypeId.yes, TypeId.never] (by decide)
  obtain ⟨-, -, hequal, -⟩ := intersectionOf_grouping (by decide) hflat hleft hright hright hleft
    hshared
  exact ⟨by decide, hflat, hleft, hright, hshared, hequal⟩

/-- Strings with one of two tags, intersected with the tags once more: the tag that is asked for the
second time may be the other one, so strings with both are listed, too, and equality answers no. -/
theorem not_grouping_tagsTable :
    TypeId.any ∉ [16, TypeId.string, 16] ∧
      (tagsTable 8).Answered {} [16, TypeId.string, 16] 19 ∧
      (tagsTable 8).Answered {} [16, TypeId.string] 19 ∧ (tagsTable 8).Answered {} [19, 16] 21 ∧
      (tagsTable 8).Answered {} [TypeId.string, 16] 19 ∧ (tagsTable 8).Answered {} [16, 19] 21 ∧
      (equal 19 21).on (tagsTable 8) = (.ok .no, tagsTable 8) := by
  have hT := runs_tagsTable.tidy
  have hleft := on_normalize hT.hasBuiltins (hT.canonical (i := 19) (by decide))
  have hright := on_normalize hT.hasBuiltins (hT.canonical (i := 21) (by decide))
  exact ⟨by decide, answered_tagsTable [17, 18] (by decide),
    answered_tagsTable [17, 18] (by decide), answered_tagsTable [17, 20, 20, 18] (by decide),
    answered_tagsTable [17, 18] (by decide), answered_tagsTable [17, 20, 20, 18] (by decide),
    on_equal_ok hleft hright⟩

end TypeAssay
