import TypeAssay.Proofs.Fixpoints
import TypeAssay.Proofs.Twins

/-!
# Types that are there already

A constructor interns nothing when what it would build is in the table: it answers the id that is
there. For unions and for constraints that is a matter of one node
(`IsUnionOf.run_unionOf`, `IsReductionOf.run_reduceConstraints`). An intersection that distributes
builds the results for all choices on the way, and these are there, too, if the table knows what the
intersection is (`IsIntersectionOf.on_intersectionOf`).
-/

namespace TypeAssay

open TypeTable

variable {T : TypeTable} {i n r : TypeId} {ms ks : List TypeId}
  {meet : List TypeId → Building TypeId}

/-- A computation over a list whose results are known and that interns nothing. -/
theorem on_mapM_of_forall₂ {α β : Type} {f : α → Building β} {xs : List α} {ys : List β}
    (h : List.Forall₂ (fun x y => (f x).on T = (.ok y, T)) xs ys) :
    (xs.mapM f).on T = (.ok ys, T) := by
  induction h with
  | nil => rfl
  | cons hx _ ih =>
    rw [List.mapM_cons, Building.on_bind_ok hx, Building.on_bind_ok ih]
    rfl

namespace TypeTable

/-- A union that is there is found. -/
theorem IsUnionOf.run_unionOf (h : T.IsUnionOf ms n) (hb : T.HasBuiltins) (hn : T.Canonical n) :
    (unionOf ms).run T = (n, T) := by
  rw [TypeAssay.run_unionOf]
  rw [IsUnionOf] at h
  split at h
  · rw [if_pos ‹_›, h]
  rw [if_neg ‹_›]
  split at h
  · rw [if_pos ‹_›, h]
  rw [if_neg ‹_›, ← h]
  -- an empty union is `never`, a single member is itself, and the others have been entered
  rcases hn.expands_subjects hb with ⟨hnil, rfl⟩ | hone | ⟨htwo, -, hget⟩
  · rw [hnil]
  · rw [hone]
  · rcases hparts : T.subjects n with _ | ⟨_, _ | ⟨_, _⟩⟩ <;> rw [hparts] at htwo hget
    · exact absurd htwo (by simp)
    · exact absurd htwo (by simp)
    · exact intern_of_lookup (lookup_eq_some_iff.mpr hget)

/-- What constraints reduce to is found if it is there. -/
theorem IsReductionOf.run_reduceConstraints (h : T.IsReductionOf ks r) (hb : T.HasBuiltins)
    (hr : T.Canonical r) : (reduceConstraints ks).run T = (r, T) := by
  rw [TypeAssay.run_reduceConstraints]
  rw [IsReductionOf] at h
  split at h
  · rw [if_pos ‹_›, h]
  rw [if_neg ‹_›, ← h]
  rcases hr.expands_demands hb with ⟨hnil, rfl⟩ | hone | ⟨htwo, -, hget⟩
  · rw [hnil]
  · rw [hone]
  · rcases hparts : T.demands r with _ | ⟨_, _ | ⟨_, _⟩⟩ <;> rw [hparts] at htwo hget
    · exact absurd htwo (by simp)
    · exact absurd htwo (by simp)
    · exact intern_of_lookup (lookup_eq_some_iff.mpr hget)

/-- One constraint reduces to itself. -/
theorem run_reduceConstraints_singleton (hb : T.HasBuiltins) (i : TypeId) :
    (reduceConstraints [i]).run T = (i, T) := by
  have hone := coexist_singleton hb i
  rw [TypeAssay.run_reduceConstraints, hone.conflict_eq_false hb (List.nodup_singleton i),
    if_neg (by decide), hone.reducedConstraints_eq hb (List.pairwise_singleton _ i)]

/-- A level without unions finds what its members reduce to. -/
theorem IsReductionOf.on_intersectionStep (hr : T.IsReductionOf (T.openedMembers ms) r)
    (hrc : T.Canonical r) (hms : T.Unabsorbed ms) (hb : T.HasBuiltins)
    (hunion : ∀ a ∈ T.openedMembers ms, T.isUnion a = false) :
    (intersectionStep meet ms).on T = (.ok r, T) := by
  have hrun := hr.run_reduceConstraints hb hrc
  rw [TypeAssay.on_intersectionStep, if_neg hms.never, if_neg hms.any]
  rcases hopened : T.openedMembers ms with _ | ⟨i, _ | ⟨j, rest⟩⟩ <;> rw [hopened] at hrun hunion
  · -- without members the reduction is `unknown`, and that is what is answered
    have hnil : (reduceConstraints []).run T = (TypeId.unknown, T) := rfl
    rw [(Prod.mk.inj (hnil.symm.trans hrun)).1]
  · rw [(Prod.mk.inj ((run_reduceConstraints_singleton hb i).symm.trans hrun)).1]
  · have hnone : (i :: j :: rest).any T.isUnion = false := List.any_eq_false.mpr fun a ha => by
      rw [hunion a ha]
      decide
    dsimp only
    rw [hnone, if_neg (by decide), Building.on_lift, hrun]

/-- A choice of alternatives finds what it reduces to. -/
theorem IsReductionOf.on_choice (hr : T.IsReductionOf (T.openedMembers ms) r)
    (hrc : T.Canonical r) (hb : T.HasBuiltins) (hms : ∀ a ∈ ms, T.IsAlternative a) :
    (intersectionStep meet ms).on T = (.ok r, T) :=
  hr.on_intersectionStep hrc (unabsorbed_of_isAlternative hb hms) hb fun _ =>
    isUnion_of_mem_openedMembers hms

/-- An intersection that distributes is found, if the table knows what it is. -/
theorem IsIntersectionOf.on_intersectionOf (hi : T.IsIntersectionOf ms n) (hb : T.HasBuiltins)
    (hn : T.Canonical n) (h : ∀ m ∈ ms, T.Canonical m) (hd : T.Distributes ms)
    (hfits : refusal? (T.choiceSize ms) T.options.maxUnionSize = none) :
    (intersectionOf ms).on T = (.ok n, T) := by
  rw [IsIntersectionOf, if_neg hd.unabsorbed.never, if_neg hd.unabsorbed.any] at hi
  obtain ⟨ns, hns, hunion⟩ := hi
  obtain ⟨depth, hdepth⟩ := TypeAssay.on_intersectionOf T ms
  have hchoice : ∀ c ∈ choices ((T.openedMembers ms).map T.alternatives),
      ∀ a ∈ c, T.IsAlternative a := fun c => hd.unabsorbed.isAlternative hb h
  -- each choice reduces to its own result in the same table, since nothing is entered
  have hall := on_mapM_of_forall₂ (f := intersectionStep (intersectionWithin depth)) <|
    ((List.forall₂_and_left _ _).mpr ⟨hchoice, hns⟩).imp fun c r hr =>
      hr.2.2.on_choice hr.2.1 hb hr.1
  rw [hdepth, hd.on_intersectionStep, on_distribute, ← choiceSize, hfits]
  exact (Building.on_bind_ok hall).trans (by rw [Building.on_lift, hunion.run_unionOf hb hn])

end TypeTable

end TypeAssay
