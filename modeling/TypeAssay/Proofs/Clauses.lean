import TypeAssay.Proofs.Reductions
import TypeAssay.Proofs.Twins

/-!
# The subjects of an intersection

A canonical type is the union of its `subjects`, and each subject is the intersection of its
`demands`: together they are a disjunctive normal form. The normal form of an intersection comes
from the normal forms of its members: pick a subject of each member and collect their demands. If
these are coherent, what they reduce to is a subject of the intersection
(`IsIntersectionOf.exists_subject`), and there are no other subjects
(`IsIntersectionOf.exists_picks`).

A member that is given twice counts once, so the same subject is picked of both: what is picked is a
function of the member (`Picks`).
-/

namespace TypeAssay

/-- A list of as many elements as there are keys is given by a function of the keys, if these are
different. -/
theorem exists_map_of_forall₂ {α β : Type} [DecidableEq α] [Inhabited β] {R : β → α → Prop}
    {xs : List β} {keys : List α} (hkeys : keys.Nodup) (h : List.Forall₂ R xs keys) :
    ∃ g : α → β, xs = keys.map g ∧ ∀ k ∈ keys, R (g k) k := by
  induction h with
  | nil => exact ⟨fun _ => default, by simp⟩
  | @cons x key xs keys hx _ ih =>
    obtain ⟨hkey, hkeys⟩ := List.nodup_cons.mp hkeys
    obtain ⟨g, rfl, hg⟩ := ih hkeys
    have hother : ∀ k ∈ keys, Function.update g key x k = g k := fun k hk =>
      Function.update_of_ne (ne_of_mem_of_not_mem hk hkey) x g
    refine ⟨Function.update g key x, ?_, List.forall_mem_cons.mpr ⟨?_, fun k hk => ?_⟩⟩
    · rw [List.map_cons, Function.update_self, List.map_congr_left hother]
    · rwa [Function.update_self]
    · rw [hother k hk]
      exact hg k hk

namespace TypeTable

variable {T : TypeTable} {i j k m n r a b x : TypeId} {ms ns ks ls c : List TypeId}
  {f : TypeId → TypeId}

/-! ## Types with the same parts -/

/-- What a type consists of determines it. -/
theorem Expands.eq {unit : TypeId} {node : List TypeId → Ty} {xs : List TypeId}
    (hi : T.Expands unit node i xs) (hj : T.Expands unit node j xs) : i = j := by
  -- nothing, a single part, or several: in each case the parts say which type it is
  rcases hi with ⟨rfl, rfl⟩ | rfl | ⟨htwo, -, hi⟩
  · rcases hj with ⟨-, rfl⟩ | hj | ⟨htwo, -⟩
    · rfl
    · exact absurd hj (by simp)
    · exact absurd htwo (by simp)
  · rcases hj with ⟨hj, -⟩ | hj | ⟨htwo, -⟩
    · exact absurd hj (by simp)
    · exact List.singleton_injective hj
    · exact absurd htwo (by simp)
  · rcases hj with ⟨rfl, -⟩ | rfl | ⟨-, -, hj⟩
    · exact absurd htwo (by simp)
    · exact absurd htwo (by simp)
    · exact get?_injective hi hj

/-- The subjects of a canonical type come in ascending order. -/
theorem Canonical.pairwise_subjects (h : T.Canonical i) : (T.subjects i).Pairwise (· < ·) := by
  rw [subjects]
  split
  · exact .nil
  · rename_i ms hget
    have hms : T.CanonicalUnion ms := h.canonicalNode hget
    exact hms.ascending
  · exact List.pairwise_singleton _ _

/-- The constraints that a canonical type makes come in ascending order. -/
theorem Canonical.pairwise_demands (h : T.Canonical i) : (T.demands i).Pairwise (· < ·) := by
  rw [demands]
  split
  · exact .nil
  · rename_i ms hget
    have hms : T.CanonicalIntersection ms := h.canonicalNode hget
    exact hms.ascending
  · exact List.pairwise_singleton _ _

/-- Canonical types with the same subjects are equal. -/
theorem Canonical.eq_of_subjects (hi : T.Canonical i) (hj : T.Canonical j) (hb : T.HasBuiltins)
    (h : ∀ a, a ∈ T.subjects i ↔ a ∈ T.subjects j) : i = j := by
  have hsame : T.subjects i = T.subjects j :=
    hi.pairwise_subjects.eq_of_mem_iff hj.pairwise_subjects h
  exact (hi.expands_subjects hb).eq (hsame ▸ hj.expands_subjects hb)

/-- Canonical types that make the same constraints are equal. -/
theorem Canonical.eq_of_demands (hi : T.Canonical i) (hj : T.Canonical j) (hb : T.HasBuiltins)
    (h : ∀ a, a ∈ T.demands i ↔ a ∈ T.demands j) : i = j := by
  have hsame : T.demands i = T.demands j :=
    hi.pairwise_demands.eq_of_mem_iff hj.pairwise_demands h
  exact (hi.expands_demands hb).eq (hsame ▸ hj.expands_demands hb)

/-- Constraints reduce to one type only. -/
theorem Reduces.unique (hm : T.Reduces ks m) (hn : T.Reduces ks n) (hmc : T.Canonical m)
    (hnc : T.Canonical n) (hb : T.HasBuiltins) : m = n :=
  hmc.eq_of_demands hnc hb fun a => by rw [hm.mem_demands, hn.mem_demands]

/-! ## Subjects and their demands -/

/-- The type `never` has no subject. -/
theorem subjects_never (hb : T.HasBuiltins) : T.subjects TypeId.never = [] := by
  rw [subjects, hb.never]

/-- The type `unknown` makes no constraint. -/
theorem demands_unknown (hb : T.HasBuiltins) : T.demands TypeId.unknown = [] := by
  rw [demands, hb.unknown]

/-- The subjects of a type other than `never` are what a union opens it to. -/
theorem subjects_eq_alternatives (hb : T.HasBuiltins) (hnever : m ≠ TypeId.never) :
    T.subjects m = T.alternatives m := by
  rw [subjects]
  split
  · exact absurd (get?_injective ‹_› hb.never) hnever
  · rw [alternatives, ‹T.get? m = _›]
  · rw [alternatives]
    split <;> simp_all

/-- What has a subject is not `never`. -/
theorem ne_never_of_mem_subjects (hb : T.HasBuiltins) (hx : x ∈ T.subjects m) :
    m ≠ TypeId.never := by
  rintro rfl
  rw [subjects_never hb] at hx
  exact absurd hx List.not_mem_nil

/-- A subject of a type other than `any` is `unknown`, and then it is the type itself, or an
alternative. -/
theorem Canonical.subject_cases (hm : T.Canonical m) (hb : T.HasBuiltins) (hany : m ≠ TypeId.any)
    (hx : x ∈ T.subjects m) :
    (m = TypeId.unknown ∧ x = TypeId.unknown) ∨ m ≠ TypeId.unknown ∧ T.IsAlternative x := by
  have hnever := ne_never_of_mem_subjects hb hx
  rw [subjects_eq_alternatives hb hnever] at hx
  by_cases hunknown : m = TypeId.unknown
  · subst hunknown
    rw [TypeTable.alternatives, hb.unknown] at hx
    exact Or.inl ⟨rfl, List.mem_singleton.mp hx⟩
  · exact Or.inr ⟨hunknown, hm.isAlternative_of_mem hb hany hunknown hnever hx⟩

/-- A type demands what an intersection opens it to, `unknown` aside. -/
theorem Canonical.mem_demands (hm : T.Canonical m) (hb : T.HasBuiltins) :
    a ∈ T.demands m ↔ a ∈ T.constraints m ∧ a ≠ TypeId.unknown := by
  rw [demands, TypeTable.constraints]
  obtain ⟨t, ht⟩ := exists_get?_of_lt_size hm.lt_size
  rw [ht]
  cases t with
  | unknown =>
    obtain rfl := get?_injective ht hb.unknown
    simp
  | intersection ms =>
    have hms : T.CanonicalIntersection ms := hm.canonicalNode ht
    refine (and_iff_left_of_imp ?_).symm
    rintro ha rfl
    exact hms.not_mem hb.unknown rfl ha
  | any | never | union _ | primitive _ | literal _ | tuple _ _ | array _ _ | object _ =>
    refine (and_iff_left_of_imp fun ha => ?_).symm
    obtain rfl := List.mem_singleton.mp ha
    rintro rfl
    exact absurd (hb.unknown.symm.trans ht) (by simp)

/-- The members of an opened intersection are what the members demand. -/
theorem mem_openedMembers_iff_demands (hb : T.HasBuiltins) (h : ∀ m ∈ ms, T.Canonical m) :
    a ∈ T.openedMembers ms ↔ a ∈ ms.flatMap T.demands := by
  simp only [mem_openedMembers, List.mem_flatMap]
  constructor
  · rintro ⟨⟨m, hm, ha⟩, hunknown⟩
    exact ⟨m, hm, ((h m hm).mem_demands hb).mpr ⟨ha, hunknown⟩⟩
  · rintro ⟨m, hm, ha⟩
    obtain ⟨ha, hunknown⟩ := ((h m hm).mem_demands hb).mp ha
    exact ⟨⟨m, hm, ha⟩, hunknown⟩

/-- A union demands itself. -/
theorem demands_of_isUnion (h : T.isUnion m) : T.demands m = [m] := by
  rw [isUnion] at h
  rw [demands]
  split <;> simp_all [Ty.isUnion]

/-- What a type other than a union demands is a constraint, or the type itself. -/
theorem Canonical.demands_of_mem (hm : T.Canonical m) (hunion : T.isUnion m = false)
    (hk : k ∈ T.demands m) : T.demands k = [k] ∧ T.isUnion k = false := by
  obtain ⟨t, ht⟩ := exists_get?_of_lt_size hm.lt_size
  rw [demands, ht] at hk
  cases t with
  | unknown => exact absurd hk List.not_mem_nil
  | intersection ks =>
    have hks : T.CanonicalIntersection ks := hm.canonicalNode ht
    obtain ⟨u, hu, hcon⟩ := hks.constraint k hk
    exact ⟨demands_of_isConstraint hu hcon,
      isUnion_of_isAlternative hu (Ty.isAlternative_of_isConstraint hcon)⟩
  | any | never | union _ | primitive _ | literal _ | tuple _ _ | array _ _ | object _ =>
    obtain rfl := List.mem_singleton.mp hk
    exact ⟨by rw [demands, ht], hunion⟩

/-! ## One subject of each member -/

/-- `f` picks a subject of each member. Members that are the same get the same subject. -/
def Picks (T : TypeTable) (ms : List TypeId) (f : TypeId → TypeId) : Prop :=
  ∀ m ∈ ms, f m ∈ T.subjects m

/-- What the subjects that are picked demand together. -/
def picked (T : TypeTable) (ms : List TypeId) (f : TypeId → TypeId) : List TypeId :=
  ms.flatMap fun m => T.demands (f m)

/-- What a subject that is picked demands is among the demands collected. -/
theorem demands_subset_picked (hm : m ∈ ms) : T.demands (f m) ⊆ T.picked ms f :=
  fun _ ha => List.mem_flatMap.mpr ⟨m, hm, ha⟩

/-- What is picked of more members is collected in addition. -/
theorem picked_append : T.picked (ms ++ ls) f = T.picked ms f ++ T.picked ls f :=
  List.flatMap_append

/-- Only what is picked of the members counts. -/
theorem picked_congr {g : TypeId → TypeId} (h : ∀ m ∈ ms, f m = g m) :
    T.picked ms f = T.picked ms g :=
  List.flatMap_congr fun m hm => by rw [h m hm]

/-- Of a single member the demands of its subject are collected. -/
theorem picked_singleton : T.picked [m] f = T.demands (f m) := by simp [picked]

/-- The choice that picks the alternatives of unions. -/
def choiceOf (T : TypeTable) (ms : List TypeId) (f : TypeId → TypeId) : List TypeId :=
  (T.openedMembers ms).map fun k => if T.isUnion k then f k else k

section

variable (hb : T.HasBuiltins) (h : ∀ m ∈ ms, T.Canonical m)

include h

/-- Unions are not constraints, so a union that is opened is a member. -/
theorem mem_of_isUnion (hk : k ∈ T.openedMembers ms) (hunion : T.isUnion k) : k ∈ ms := by
  obtain ⟨m, hm, hk⟩ := List.mem_flatMap.mp (mem_openedMembers.mp hk).1
  rw [constraints] at hk
  split at hk
  · rename_i ks hget
    have hks : T.CanonicalIntersection ks := (h m hm).canonicalNode hget
    obtain ⟨u, hu, hcon⟩ := hks.constraint k hk
    rw [isUnion_of_isAlternative hu (Ty.isAlternative_of_isConstraint hcon)] at hunion
    exact absurd hunion (by decide)
  · exact List.mem_singleton.mp hk ▸ hm

include hb

/-- Picking subjects makes a choice. -/
theorem choiceOf_mem_choices (hf : T.Picks ms f) :
    T.choiceOf ms f ∈ choices ((T.openedMembers ms).map T.alternatives) := by
  rw [mem_choices, choiceOf, List.forall₂_map_left_iff, List.forall₂_map_right_iff,
    List.forall₂_same]
  intro k hk
  by_cases hunion : T.isUnion k
  · have hfk := hf k (mem_of_isUnion h hk hunion)
    rw [if_pos hunion]
    rwa [← subjects_eq_alternatives hb (ne_never_of_mem_subjects hb hfk)]
  · rw [if_neg hunion, alternatives_of_not_union (Bool.eq_false_iff.mpr hunion)]
    exact List.mem_singleton_self k

/-- Each choice comes from picking subjects. -/
theorem exists_picks_of_mem_choices (hnever : TypeId.never ∉ ms)
    (hc : c ∈ choices ((T.openedMembers ms).map T.alternatives)) :
    ∃ f, T.Picks ms f ∧ c = T.choiceOf ms f := by
  obtain ⟨g, rfl, hg⟩ := exists_map_of_forall₂ nodup_openedMembers
    (List.forall₂_map_right_iff.mp (mem_choices.mp hc))
  -- what is picked of a member that is no union is the member itself
  refine ⟨fun m => if T.isUnion m then g m else m, fun m hm => ?_, ?_⟩
  · have hne : m ≠ TypeId.never := fun e => hnever (e ▸ hm)
    rw [subjects_eq_alternatives hb hne]
    dsimp only
    by_cases hunion : T.isUnion m
    · rw [if_pos hunion]
      refine hg m ((mem_openedMembers_iff_demands hb h).mpr (List.mem_flatMap.mpr ⟨m, hm, ?_⟩))
      rw [demands_of_isUnion hunion]
      exact List.mem_singleton_self m
    · rw [if_neg hunion, alternatives_of_not_union (Bool.eq_false_iff.mpr hunion)]
      exact List.mem_singleton_self m
  · refine List.map_congr_left fun k hk => ?_
    by_cases hunion : T.isUnion k
    · simp only [if_pos hunion]
    · have hgk := hg k hk
      rw [alternatives_of_not_union (Bool.eq_false_iff.mpr hunion)] at hgk
      simp only [if_neg hunion, List.mem_singleton.mp hgk]

/-- A choice opens to what its subjects demand. -/
theorem mem_openedMembers_choiceOf (hf : T.Picks ms f) :
    a ∈ T.openedMembers (T.choiceOf ms f) ↔ a ∈ T.picked ms f := by
  -- member by member: a union gives the demands of what is picked, another one its own
  have hmember : ∀ m ∈ ms, ((∃ k ∈ T.demands m, a ∈ T.demands (if T.isUnion k then f k else k)) ↔
      a ∈ T.demands (f m)) := by
    intro m hm
    by_cases hunion : T.isUnion m
    · simp [demands_of_isUnion hunion, hunion]
    · have hsingle := Bool.eq_false_iff.mpr hunion
      have hfm := hf m hm
      rw [subjects_eq_alternatives hb (ne_never_of_mem_subjects hb hfm),
        alternatives_of_not_union hsingle] at hfm
      rw [List.mem_singleton.mp hfm]
      constructor
      · rintro ⟨k, hk, ha⟩
        obtain ⟨hdemands, hk'⟩ := (h m hm).demands_of_mem hsingle hk
        rw [hk', if_neg (by decide), hdemands] at ha
        exact List.mem_singleton.mp ha ▸ hk
      · intro ha
        obtain ⟨hdemands, ha'⟩ := (h m hm).demands_of_mem hsingle ha
        refine ⟨a, ha, ?_⟩
        rw [ha', if_neg (by decide), hdemands]
        exact List.mem_singleton_self a
  have hcanonical := canonical_of_mem_choice h (choiceOf_mem_choices hb h hf)
  rw [mem_openedMembers_iff_demands hb hcanonical, choiceOf, List.mem_flatMap]
  simp only [List.mem_map, exists_exists_and_eq_and, mem_openedMembers_iff_demands hb h,
    List.mem_flatMap, picked]
  constructor
  · rintro ⟨k, ⟨m, hm, hk⟩, ha⟩
    exact ⟨m, hm, (hmember m hm).mp ⟨k, hk, ha⟩⟩
  · rintro ⟨m, hm, ha⟩
    obtain ⟨k, hk, ha⟩ := (hmember m hm).mpr ha
    exact ⟨k, ⟨m, hm, hk⟩, ha⟩

/-- What a choice reduces to. -/
theorem IsReductionOf.reduces_picked (hf : T.Picks ms f)
    (hr : T.IsReductionOf (T.openedMembers (T.choiceOf ms f)) r) :
    (T.Coherent (T.picked ms f) → T.Reduces (T.picked ms f) r) ∧
      (r ≠ TypeId.never → T.Coherent (T.picked ms f)) := by
  have hmem : ∀ a, a ∈ T.openedMembers (T.choiceOf ms f) ↔ a ∈ T.picked ms f := fun a =>
    mem_openedMembers_choiceOf hb h hf
  constructor
  · intro hc
    have hc' := hc.subset fun a ha => (hmem a).mp ha
    exact (hr.reduces hb nodup_openedMembers hc').congr hmem
  · intro hne
    by_contra hc
    exact hne (hr.eq_never hb nodup_openedMembers fun hc' =>
      hc (hc'.subset fun a ha => (hmem a).mpr ha))

end

/-! ## The subjects of an intersection -/

/-- A canonical type demands at most one scalar. -/
theorem Canonical.one_scalar (h : T.Canonical i) (ha : a ∈ T.demands i) (hb : b ∈ T.demands i)
    (hsa : T.isScalar a) (hsb : T.isScalar b) : a = b := by
  rw [demands] at ha hb
  split at ha
  · exact absurd ha List.not_mem_nil
  · rename_i ks hget
    have hks : T.CanonicalIntersection ks := h.canonicalNode hget
    simp only [hget] at hb
    exact hks.one_scalar a ha b hb hsa hsb
  · simp_all

/-- An alternative that demands one thing is that thing. -/
theorem IsAlternative.eq_of_demands_unique (h : T.IsAlternative i) (hb : T.HasBuiltins)
    (hone : ∀ k ∈ T.demands i, k = a) : i = a := by
  obtain ⟨hcanonical, t, ht, halt⟩ := h
  rcases hcanonical.expands_demands hb with ⟨-, rfl⟩ | hi | ⟨htwo, hnodup, -⟩
  · obtain rfl := Option.some.inj (hb.unknown.symm.trans ht)
    exact absurd halt (by decide)
  · exact hone i (hi ▸ List.mem_singleton_self i)
  · have := length_le_one_of_forall_eq hnodup fun x hx y hy => (hone x hx).trans (hone y hy).symm
    omega

/-- What reduces to a primitive that has literals is that primitive only. -/
theorem Reduces.eq_of_primitive {p : Primitive} {l : Literal} (h : T.Reduces ks p.id)
    (hb : T.HasBuiltins) (hp : l.base? = some p) (hk : k ∈ ks) : k = p.id := by
  have hdemands : T.demands p.id = [p.id] := demands_of_isConstraint (hb.primitive p) rfl
  rcases h.mem_or_refined hb hk with hk | ⟨s, hs, hsk⟩
  · exact List.mem_singleton.mp (hdemands ▸ hk)
  · obtain rfl := List.mem_singleton.mp (hdemands ▸ hs)
    rcases hsk with ⟨hu, -⟩ | ⟨l', -, hl', -⟩
    · obtain rfl : p = .undefined := hb.primitive_injective hu
      exact absurd (Literal.base?_cases hp) (by decide)
    · exact absurd hl' (hb.get?_id_ne_literal p l')

/-- What reduces to a literal is that literal and perhaps its primitive. -/
theorem Reduces.eq_or_eq_of_literal {p : Primitive} {l : Literal} (h : T.Reduces ks x)
    (hb : T.HasBuiltins) (hl : T.get? x = some (.literal l)) (hp : l.base? = some p)
    (hk : k ∈ ks) : k = x ∨ k = p.id := by
  have hdemands : T.demands x = [x] := demands_of_isConstraint hl rfl
  rcases h.mem_or_refined hb hk with hk | ⟨s, hs, hsk⟩
  · exact Or.inl (List.mem_singleton.mp (hdemands ▸ hk))
  · obtain rfl := List.mem_singleton.mp (hdemands ▸ hs)
    rcases hsk with ⟨rfl, -⟩ | ⟨l', q, hl', hq, rfl⟩
    · exact absurd hl (hb.get?_id_ne_literal .undefined l)
    · obtain rfl := Ty.literal.inj (Option.some.inj (hl.symm.trans hl'))
      exact Or.inr (congrArg Primitive.id (Option.some.inj (hq.symm.trans hp)))

/-- Only no constraints reduce to `unknown`. -/
theorem Reduces.eq_nil (h : T.Reduces ks TypeId.unknown) (hb : T.HasBuiltins) : ks = [] := by
  refine List.eq_nil_iff_forall_not_mem.mpr fun a ha => ?_
  rcases h.mem_or_refined hb ha with ha | ⟨s, hs, -⟩
  · rw [demands_unknown hb] at ha
    exact absurd ha List.not_mem_nil
  · rw [demands_unknown hb] at hs
    exact absurd hs List.not_mem_nil

/-- What constraints reduce to is neither a union nor one of the types that absorb others. -/
theorem Reduces.not_absorbing (h : T.Reduces ks n) (hb : T.HasBuiltins)
    (hks : ∀ a ∈ ks, ∃ t, T.get? a = some t ∧ t.isConstraint) :
    n ≠ TypeId.never ∧ n ≠ TypeId.any ∧ T.isUnion n = false := by
  have hcon : T.demands n = [n] → ∃ t, T.get? n = some t ∧ t.isConstraint := fun hdemands =>
    hks n (h.demands_subset (hdemands ▸ List.mem_singleton_self n))
  refine ⟨?_, ?_, Bool.eq_false_iff.mpr fun hunion => ?_⟩
  · rintro rfl
    obtain ⟨t, ht, hcon⟩ := hcon (by rw [demands, hb.never])
    obtain rfl := Option.some.inj (hb.never.symm.trans ht)
    exact absurd hcon (by decide)
  · rintro rfl
    obtain ⟨t, ht, hcon⟩ := hcon (by rw [demands, hb.any])
    obtain rfl := Option.some.inj (hb.any.symm.trans ht)
    exact absurd hcon (by decide)
  · obtain ⟨t, ht, hcon⟩ := hcon (demands_of_isUnion hunion)
    rw [isUnion_of_isAlternative ht (Ty.isAlternative_of_isConstraint hcon)] at hunion
    exact absurd hunion (by decide)

/-- Only `never` is opened to `never`. -/
theorem Canonical.never_mem_constraints (hm : T.Canonical m) (hb : T.HasBuiltins)
    (hnever : TypeId.never ∈ T.constraints m) : m = TypeId.never := by
  rw [TypeTable.constraints] at hnever
  split at hnever
  · rename_i ks hget
    have hks : T.CanonicalIntersection ks := hm.canonicalNode hget
    exact absurd hnever (hks.not_mem hb.never rfl)
  · exact (List.mem_singleton.mp hnever).symm

/-- With `never` among its members an intersection is `never`. -/
theorem IsIntersectionOf.eq_never_of_mem (hi : T.IsIntersectionOf ms n) (hb : T.HasBuiltins)
    (hnever : TypeId.never ∈ ms) : n = TypeId.never := by
  have hflat : TypeId.never ∈ ms.flatMap T.constraints := List.mem_flatMap.mpr
    ⟨_, hnever, by simp [TypeTable.constraints, hb.never]⟩
  rwa [IsIntersectionOf, if_pos hflat] at hi

section

variable (hb : T.HasBuiltins) (h : ∀ m ∈ ms, T.Canonical m) (hany : TypeId.any ∉ ms)

include hb h hany

/-- What picked subjects demand are constraints. -/
theorem isConstraint_of_mem_picked (hf : T.Picks ms f) (ha : a ∈ T.picked ms f) :
    ∃ t, T.get? a = some t ∧ t.isConstraint := by
  obtain ⟨m, hm, ha⟩ := List.mem_flatMap.mp ha
  have hne : m ≠ TypeId.any := fun e => hany (e ▸ hm)
  rcases (h m hm).subject_cases hb hne (hf m hm) with ⟨-, hfm⟩ | ⟨-, halt⟩
  · rw [hfm, demands_unknown hb] at ha
    exact absurd ha List.not_mem_nil
  · exact halt.constraints ((halt.1.mem_demands hb).mp ha).1

/-- If some subjects reduce to `unknown`, then all do: each member is `unknown`. -/
theorem eq_unknown_of_picks {g : TypeId → TypeId} (hf : T.Picks ms f) (hg : T.Picks ms g)
    (hfu : T.Reduces (T.picked ms f) TypeId.unknown) (hx : T.Canonical x)
    (hgx : T.Reduces (T.picked ms g) x) : x = TypeId.unknown := by
  have hunknown : ∀ m ∈ ms, m = TypeId.unknown := by
    intro m hm
    have hne : m ≠ TypeId.any := fun e => hany (e ▸ hm)
    rcases (h m hm).subject_cases hb hne (hf m hm) with ⟨hm, -⟩ | ⟨-, hcanonical, t, ht, halt⟩
    · exact hm
    · -- an alternative demands something
      have hnone : T.demands (f m) = [] := List.flatMap_eq_nil_iff.mp (hfu.eq_nil hb) m hm
      have hfm := hcanonical.eq_of_demands hb.canonical_unknown hb fun a => by
        rw [hnone, demands_unknown hb]
      rw [hfm, hb.unknown] at ht
      obtain rfl := Option.some.inj ht
      exact absurd halt (by decide)
  have hnil : T.picked ms g = [] := by
    refine List.flatMap_eq_nil_iff.mpr fun m hm => ?_
    have hgm := hg m hm
    rw [hunknown m hm, subjects, hb.unknown] at hgm
    rw [hunknown m hm, List.mem_singleton.mp hgm, demands_unknown hb]
  refine hx.eq_of_demands hb.canonical_unknown hb fun a => ?_
  rw [hgx.mem_demands, hnil, demands_unknown hb]
  simp

/-- No literal is among the results whose primitive is, too: they would be subjects of one
member. -/
theorem literalBase?_ne_of_picks {g : TypeId → TypeId} {p : Primitive} (hf : T.Picks ms f)
    (hg : T.Picks ms g) (hfx : T.Reduces (T.picked ms f) x)
    (hgp : T.Reduces (T.picked ms g) p.id) : T.literalBase? x ≠ some p := by
  intro hbase
  obtain ⟨l, hl, hlp⟩ := exists_get?_of_literalBase? hbase
  have hp : p ≠ .object := by
    rintro rfl
    exact absurd (Literal.base?_cases hlp) (by decide)
  have hx : T.demands x = [x] := demands_of_isConstraint hl rfl
  -- the literal is demanded by the subject that `f` picks of some member
  obtain ⟨m, hm, hxm⟩ := List.mem_flatMap.mp
    (hfx.demands_subset (hx ▸ List.mem_singleton_self x) : x ∈ T.picked ms f)
  have hne : m ≠ TypeId.any := fun e => hany (e ▸ hm)
  obtain ⟨hunknown, hfm⟩ : m ≠ TypeId.unknown ∧ T.IsAlternative (f m) := by
    rcases (h m hm).subject_cases hb hne (hf m hm) with ⟨-, hfm⟩ | halt
    · rw [hfm, demands_unknown hb] at hxm
      exact absurd hxm List.not_mem_nil
    · exact halt
  have hfm' : f m = x := by
    refine hfm.eq_of_demands_unique hb fun k hk => ?_
    rcases hfx.eq_or_eq_of_literal hb hl hlp (demands_subset_picked hm hk) with rfl | rfl
    · rfl
    · exact hfm.1.one_scalar hk hxm (hb.isScalar_id hp) (isScalar_of_literal hl)
  have hgm' : g m = p.id := by
    rcases (h m hm).subject_cases hb hne (hg m hm) with ⟨hm, -⟩ | ⟨-, hgm⟩
    · exact absurd hm hunknown
    · exact hgm.eq_of_demands_unique hb fun k hk =>
        hgp.eq_of_primitive hb hlp (demands_subset_picked hm hk)
  have hxs := hfm' ▸ hf m hm
  have hps := hgm' ▸ hg m hm
  -- the two are alternatives of one union, which would have folded the literal away
  rw [subjects] at hxs hps
  split at hxs
  · exact absurd hxs List.not_mem_nil
  · rename_i us hget
    have hus : T.CanonicalUnion us := (h m hm).canonicalNode hget
    rw [hget] at hps
    exact hus.folded x hxs p hbase hps
  · have hpx : p.id = x := by simp_all
    exact hb.get?_id_ne_literal p l (hpx ▸ hl)

/-- Nothing is folded or absorbed in the union of what the choices reduce to: its subjects are the
results other than `never`. -/
theorem mem_subjects_of_results
    (hns : ∀ x ∈ ns, x ≠ TypeId.never →
      T.Canonical x ∧ ∃ f, T.Picks ms f ∧ T.Reduces (T.picked ms f) x)
    (hn : T.IsUnionOf ns n) : x ∈ T.subjects n ↔ x ∈ ns ∧ x ≠ TypeId.never := by
  have hresult : ∀ y ∈ ns, y ≠ TypeId.any ∧ T.isUnion y = false := by
    intro y hy
    by_cases hnever : y = TypeId.never
    · subst hnever
      exact ⟨by decide, by rw [isUnion, hb.never]; rfl⟩
    · obtain ⟨-, f, hf, hfy⟩ := hns y hy hnever
      exact (hfy.not_absorbing hb fun a => isConstraint_of_mem_picked hb h hany hf).2
  have hflat : ns.flatMap T.alternatives = ns :=
    flatMap_alternatives_eq_self fun y hy => (hresult y hy).2
  rw [IsUnionOf, hflat, if_neg fun hy => (hresult _ hy).1 rfl] at hn
  split at hn
  · -- one result is `unknown`, so all are
    rename_i hunknown
    obtain ⟨-, f, hf, hfu⟩ := hns _ hunknown (by decide)
    rw [hn, subjects, hb.unknown, List.mem_singleton]
    constructor
    · rintro rfl
      exact ⟨hunknown, by decide⟩
    · rintro ⟨hx, hnever⟩
      obtain ⟨hcanonical, g, hg, hgx⟩ := hns x hx hnever
      exact eq_unknown_of_picks hb h hany hf hg hfu hcanonical hgx
  · rw [hn, mem_unionMembers hb, ← and_assoc]
    refine and_iff_left_of_imp ?_
    rintro ⟨hx, hnever⟩ p hbase hp
    obtain ⟨-, f, hf, hfx⟩ := hns x hx hnever
    obtain ⟨-, g, hg, hgp⟩ := hns p.id hp (by cases p <;> decide)
    exact literalBase?_ne_of_picks hb h hany hf hg hfx hgp hbase

/-- The results for the choices, of which the intersection is the union. -/
theorem IsIntersectionOf.exists_results (hi : T.IsIntersectionOf ms n)
    (hnever : TypeId.never ∉ ms) : ∃ ns : List TypeId,
      (∀ x, x ∈ T.subjects n ↔ x ∈ ns ∧ x ≠ TypeId.never) ∧
      (∀ x ∈ ns, x ≠ TypeId.never →
        T.Canonical x ∧ ∃ f, T.Picks ms f ∧ T.Reduces (T.picked ms f) x) ∧
      ∀ f, T.Picks ms f → T.Coherent (T.picked ms f) →
        ∃ x ∈ ns, x ≠ TypeId.never ∧ T.Reduces (T.picked ms f) x := by
  have hflat : TypeId.never ∉ ms.flatMap T.constraints := by
    intro hmem
    obtain ⟨m, hm, hmem⟩ := List.mem_flatMap.mp hmem
    exact hnever ((h m hm).never_mem_constraints hb hmem ▸ hm)
  rw [IsIntersectionOf, if_neg hflat, if_neg (mt (any_mem_of_mem_constraints hb h) hany)] at hi
  obtain ⟨ns, hresults, hn⟩ := hi
  -- each result comes from a choice, and each choice from picking subjects
  have hsame := SameElements.of_forall₂ hresults
  have hns : ∀ x ∈ ns, x ≠ TypeId.never →
      T.Canonical x ∧ ∃ f, T.Picks ms f ∧ T.Reduces (T.picked ms f) x := by
    intro x hx hne
    obtain ⟨c, hc, hcanonical, hr⟩ := hsame.right x hx
    obtain ⟨f, hf, rfl⟩ := exists_picks_of_mem_choices hb h hnever hc
    obtain ⟨hreduces, hcoherent⟩ := hr.reduces_picked hb h hf
    exact ⟨hcanonical, f, hf, hreduces (hcoherent hne)⟩
  refine ⟨ns, fun x => mem_subjects_of_results hb h hany hns hn, hns, fun f hf hc => ?_⟩
  obtain ⟨x, hx, -, hr⟩ := hsame.left _ (choiceOf_mem_choices hb h hf)
  have hfx := (hr.reduces_picked hb h hf).1 hc
  exact ⟨x, hx, (hfx.not_absorbing hb fun a => isConstraint_of_mem_picked hb h hany hf).1, hfx⟩

/-- A subject of an intersection is what the demands of one subject of each member reduce to. -/
theorem IsIntersectionOf.exists_picks (hi : T.IsIntersectionOf ms n) (hx : x ∈ T.subjects n) :
    T.Canonical x ∧ ∃ f, T.Picks ms f ∧ T.Reduces (T.picked ms f) x := by
  by_cases hnever : TypeId.never ∈ ms
  · rw [hi.eq_never_of_mem hb hnever, subjects_never hb] at hx
    exact absurd hx List.not_mem_nil
  · obtain ⟨ns, hsubjects, hns, -⟩ := hi.exists_results hb h hany hnever
    obtain ⟨hx, hne⟩ := (hsubjects x).mp hx
    exact hns x hx hne

/-- If the demands of one subject of each member are coherent, what they reduce to is a subject of
the intersection. -/
theorem IsIntersectionOf.exists_subject (hi : T.IsIntersectionOf ms n) (hf : T.Picks ms f)
    (hc : T.Coherent (T.picked ms f)) : ∃ x ∈ T.subjects n, T.Reduces (T.picked ms f) x := by
  have hnever : TypeId.never ∉ ms := fun hmem => ne_never_of_mem_subjects hb (hf _ hmem) rfl
  obtain ⟨ns, hsubjects, -, hchoice⟩ := hi.exists_results hb h hany hnever
  obtain ⟨x, hx, hne, hfx⟩ := hchoice f hf hc
  exact ⟨x, (hsubjects x).mpr ⟨hx, hne⟩, hfx⟩

end

end TypeTable

end TypeAssay
