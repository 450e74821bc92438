import TypeAssay.Proofs.Constraints
import TypeAssay.Proofs.Odometer

/-!
# The canonical intersection

`intersectionOf` of canonical types either fails, since it would distribute into too many choices
(`IsRefused.on_intersectionOf`), or builds a canonical type, and it is known which one
(`intersectionOf_isIntersectionOf`): the union of what the choices of one alternative from each
member reduce to. `IsIntersectionOf` says so of an id in a table, whether or not the members were
distributed.

Canonical types are opened once: the alternatives of a union are no unions, so a choice of them
intersects without a second distribution (`intersectionStep_meetsChoices`). That is why two levels
are enough, and there always are two.
-/

namespace TypeAssay

open TypeTable

/-! ## Choices -/

/-- A choice takes one element from each list. -/
theorem mem_choices {lists : List (List TypeId)} {c : List TypeId} :
    c ∈ choices lists ↔ List.Forall₂ (· ∈ ·) c lists := by
  induction lists generalizing c with
  | nil => simp [choices]
  | cons l lists ih =>
    simp only [choices, List.mem_flatMap, List.mem_map, ih, List.forall₂_cons_right_iff]
    constructor
    · rintro ⟨tail, htail, x, hx, rfl⟩
      exact ⟨x, tail, hx, htail, rfl⟩
    · rintro ⟨x, tail, hx, htail, rfl⟩
      exact ⟨tail, htail, x, hx, rfl⟩

/-- What a choice takes is in one of the lists. -/
theorem exists_mem_of_mem_choices {lists : List (List TypeId)} {c : List TypeId} {a : TypeId}
    (hc : c ∈ choices lists) (ha : a ∈ c) : ∃ l ∈ lists, a ∈ l := by
  induction mem_choices.mp hc with
  | nil => exact absurd ha List.not_mem_nil
  | @cons b l c lists hb htail ih =>
    rcases List.mem_cons.mp ha with rfl | ha
    · exact ⟨l, List.mem_cons_self, hb⟩
    · obtain ⟨l', hl', ha⟩ := ih (mem_choices.mpr htail) ha
      exact ⟨l', List.mem_cons_of_mem _ hl', ha⟩

/-- Some choice satisfies `p` throughout exactly when each list has an element that does. -/
theorem exists_mem_choices {p : TypeId → Prop} {lists : List (List TypeId)} :
    (∃ c ∈ choices lists, ∀ a ∈ c, p a) ↔ ∀ l ∈ lists, ∃ a ∈ l, p a := by
  simp only [mem_choices]
  induction lists with
  | nil => simp
  | cons l lists ih =>
    rw [List.forall_mem_cons, ← ih]
    constructor
    · rintro ⟨c, hc, hp⟩
      obtain ⟨a, tail, ha, htail, rfl⟩ := List.forall₂_cons_right_iff.mp hc
      obtain ⟨hpa, hptail⟩ := List.forall_mem_cons.mp hp
      exact ⟨⟨a, ha, hpa⟩, tail, htail, hptail⟩
    · rintro ⟨⟨a, ha, hpa⟩, tail, htail, hptail⟩
      exact ⟨a :: tail, .cons ha htail, List.forall_mem_cons.mpr ⟨hpa, hptail⟩⟩

/-- Lists of one element each leave one choice. -/
theorem choices_map_singleton (xs : List TypeId) : choices (xs.map fun x => [x]) = [xs] := by
  induction xs with
  | nil => rfl
  | cons x xs ih => simp [choices, ih]

/-- From a single list each element is a choice. -/
theorem choices_singleton (xs : List TypeId) : choices [xs] = xs.map fun x => [x] := by
  simp [choices]

/-! ## Constraints -/

namespace TypeTable

variable {T U : TypeTable} {i a b m n : TypeId} {t : Ty} {ms ns c : List TypeId}

/-- A canonical type that is opened gives types that are canonical and no intersections. -/
theorem Canonical.constraints (hm : T.Canonical m) (ha : a ∈ T.constraints m) :
    T.Canonical a ∧ ∀ ms, T.get? a ≠ some (.intersection ms) := by
  rw [TypeTable.constraints] at ha
  split at ha
  · rename_i ms hget
    obtain ⟨t, ht, hcon⟩ := (hm.canonicalNode hget).constraint a ha
    refine ⟨hm.part hget ha, fun ms' h => ?_⟩
    obtain rfl := Option.some.inj (ht.symm.trans h)
    exact Bool.false_ne_true hcon
  · rename_i hinter
    obtain rfl := List.mem_singleton.mp ha
    exact ⟨hm, hinter⟩

/-- A canonical type other than `any` is not opened to `any`. -/
theorem Canonical.any_mem_constraints (hb : T.HasBuiltins) (hm : T.Canonical m)
    (ha : TypeId.any ∈ T.constraints m) : m = TypeId.any := by
  rw [TypeTable.constraints] at ha
  split at ha
  · rename_i ms hget
    obtain ⟨t, ht, hcon⟩ := (hm.canonicalNode hget).constraint _ ha
    obtain rfl := Option.some.inj (hb.any.symm.trans ht)
    exact absurd hcon (by decide)
  · exact (List.mem_singleton.mp ha).symm

/-- A type that is neither opened nor absorbed is a constraint of a canonical intersection. -/
theorem Canonical.isConstraint (hb : T.HasBuiltins) (h : T.Canonical a)
    (hunion : T.isUnion a = false) (hinter : ∀ ms, T.get? a ≠ some (.intersection ms))
    (hany : a ≠ TypeId.any) (hunknown : a ≠ TypeId.unknown) (hnever : a ≠ TypeId.never) :
    ∃ t, T.get? a = some t ∧ t.isConstraint := by
  obtain ⟨t, ht, halt⟩ := h.isAlternative hb hunion hany hunknown hnever
  refine ⟨t, ht, ?_⟩
  cases t with
  | intersection ms => exact absurd ht (hinter ms)
  | any | unknown | never | union _ => exact halt
  | primitive _ | literal _ | tuple _ _ | array _ _ | object _ => rfl

/-- A constraint is its own only one. -/
theorem constraints_of_isConstraint (ht : T.get? i = some t) (hcon : t.isConstraint) :
    T.constraints i = [i] := by
  rw [constraints, ht]
  cases t <;> first | rfl | exact absurd hcon Bool.false_ne_true

/-- What cannot be a constraint is no member of a canonical intersection. -/
theorem CanonicalIntersection.not_mem (h : T.CanonicalIntersection ms) (ht : T.get? i = some t)
    (hcon : t.isConstraint = false) : i ∉ ms := by
  intro hi
  obtain ⟨u, hu, hucon⟩ := h.constraint i hi
  obtain rfl := Option.some.inj (ht.symm.trans hu)
  rw [hcon] at hucon
  exact absurd hucon (by decide)

/-- Constraints are not opened any further. -/
theorem flatMap_constraints_eq_self
    (h : ∀ m ∈ ms, ∀ ks, T.get? m ≠ some (.intersection ks)) : ms.flatMap T.constraints = ms := by
  have hsingle : ∀ m ∈ ms, T.constraints m = [m] := by
    intro m hm
    rw [constraints]
    split
    · exact absurd ‹_› (h m hm _)
    · rfl
  calc ms.flatMap T.constraints
      = ms.flatMap fun m => [m] := List.flatMap_congr hsingle
    _ = ms := List.flatMap_singleton' ms

/-- The members of a canonical intersection are not opened any further. -/
theorem CanonicalIntersection.flatMap_constraints (h : T.CanonicalIntersection ms) :
    ms.flatMap T.constraints = ms := by
  refine flatMap_constraints_eq_self fun m hm ks hks => ?_
  obtain ⟨t, ht, hcon⟩ := h.constraint m hm
  obtain rfl := Option.some.inj (ht.symm.trans hks)
  exact absurd hcon Bool.false_ne_true

/-! ## The members of an opened intersection -/

/-- The members of an intersection once nested intersections are opened and `unknown` is dropped,
each once and in ascending order. -/
def openedMembers (T : TypeTable) (ms : List TypeId) : List TypeId :=
  ascending ((ms.flatMap T.constraints).filter (· ≠ TypeId.unknown))

/-- What is left after opening is what some member was opened to, `unknown` aside. -/
theorem mem_openedMembers :
    a ∈ T.openedMembers ms ↔ a ∈ ms.flatMap T.constraints ∧ a ≠ TypeId.unknown := by
  rw [openedMembers, mem_ascending, List.mem_filter, decide_eq_true_eq]

/-- Each opened member is named once. -/
theorem nodup_openedMembers : (T.openedMembers ms).Nodup := (pairwise_ascending _).nodup

/-- The opened members stay the same in later tables. -/
theorem Grows.openedMembers_eq (h : Grows T U) (hms : ∀ m ∈ ms, m < T.size) :
    U.openedMembers ms = T.openedMembers ms := by
  rw [openedMembers, openedMembers, List.flatMap_congr fun m hm => h.constraints_eq (hms m hm)]

/-- Members in order that are not opened and not `unknown` are left as they are. -/
theorem openedMembers_eq_self (hopen : ms.flatMap T.constraints = ms)
    (hasc : ms.Pairwise (· < ·)) (hunknown : TypeId.unknown ∉ ms) : T.openedMembers ms = ms := by
  refine (pairwise_ascending _).eq_of_mem_iff hasc fun a => ?_
  rw [← openedMembers, mem_openedMembers, hopen]
  refine and_iff_left_of_imp fun ha => ?_
  rintro rfl
  exact hunknown ha

/-- The members of a canonical intersection are left as they are. -/
theorem CanonicalIntersection.openedMembers_eq (h : T.CanonicalIntersection ms)
    (hb : T.HasBuiltins) : T.openedMembers ms = ms :=
  openedMembers_eq_self h.flatMap_constraints h.ascending (h.not_mem hb.unknown rfl)

/-- What canonical members are opened to is canonical and no intersection. -/
theorem canonical_of_mem_constraints (h : ∀ m ∈ ms, T.Canonical m)
    (ha : a ∈ ms.flatMap T.constraints) :
    T.Canonical a ∧ ∀ ms, T.get? a ≠ some (.intersection ms) := by
  obtain ⟨m, hm, ha⟩ := List.mem_flatMap.mp ha
  exact (h m hm).constraints ha

/-- After canonical members are opened, `any` is among them only if it was before. -/
theorem any_mem_of_mem_constraints (hb : T.HasBuiltins) (h : ∀ m ∈ ms, T.Canonical m)
    (ha : TypeId.any ∈ ms.flatMap T.constraints) : TypeId.any ∈ ms := by
  obtain ⟨m, hm, ha⟩ := List.mem_flatMap.mp ha
  exact (h m hm).any_mem_constraints hb ha ▸ hm

/-- The members of an opened intersection are canonical. -/
theorem canonical_of_mem_openedMembers (h : ∀ m ∈ ms, T.Canonical m)
    (ha : a ∈ T.openedMembers ms) : T.Canonical a :=
  (canonical_of_mem_constraints h (mem_openedMembers.mp ha).1).1

/-- A choice of alternatives of canonical members consists of canonical types. -/
theorem canonical_of_mem_choice (h : ∀ m ∈ ms, T.Canonical m)
    (hc : c ∈ choices ((T.openedMembers ms).map T.alternatives)) : ∀ a ∈ c, T.Canonical a := by
  intro a ha
  obtain ⟨l, hl, hal⟩ := exists_mem_of_mem_choices hc ha
  obtain ⟨k, hk, rfl⟩ := List.mem_map.mp hl
  exact ((canonical_of_mem_openedMembers h hk).alternatives hal).1

/-- Members are opened once. -/
theorem openedMembers_openedMembers (h : ∀ m ∈ ms, T.Canonical m) :
    T.openedMembers (T.openedMembers ms) = T.openedMembers ms := by
  refine openedMembers_eq_self (flatMap_constraints_eq_self fun a ha => ?_) (pairwise_ascending _)
    fun hu => (mem_openedMembers.mp hu).2 rfl
  exact (canonical_of_mem_constraints h (mem_openedMembers.mp ha).1).2

/-- A canonical type is the intersection of what it is opened to. -/
theorem Canonical.isReductionOf (hi : T.Canonical i) (hb : T.HasBuiltins)
    (ht : T.get? i = some t) (halt : t.isAlternative) :
    T.IsReductionOf (T.openedMembers [i]) i := by
  by_cases hcon : t.isConstraint
  · have hopen : T.openedMembers [i] = [i] := by
      refine openedMembers_eq_self ?_ (List.pairwise_singleton _ _) ?_
      · simp [constraints_of_isConstraint ht hcon]
      · rintro hmem
        obtain rfl := List.mem_singleton.mp hmem
        obtain rfl := Option.some.inj (hb.unknown.symm.trans ht)
        exact absurd hcon (by decide)
    rw [hopen]
    exact (coexist_singleton hb i).isReductionOf hb (List.pairwise_singleton _ _)
      (demands_of_isConstraint ht hcon)
  · cases t with
    | intersection ms =>
      have hms : T.CanonicalIntersection ms := hi.canonicalNode ht
      have hopen : T.openedMembers [i] = ms := by
        rw [← hms.openedMembers_eq hb, openedMembers, openedMembers, hms.flatMap_constraints]
        simp [TypeTable.constraints, ht]
      rw [hopen]
      exact hms.coexist.isReductionOf hb hms.ascending (demands_of_get?_intersection ht)
    | any | never | unknown | union _ => exact absurd halt Bool.false_ne_true
    | primitive _ | literal _ | tuple _ _ | array _ _ | object _ => exact absurd rfl hcon

/-! ## Members that nothing absorbs -/

/-- Neither `never` nor `any` is among the members of an intersection, opened. -/
structure Unabsorbed (T : TypeTable) (ms : List TypeId) : Prop where
  never : TypeId.never ∉ ms.flatMap T.constraints
  any : TypeId.any ∉ ms.flatMap T.constraints

/-- An opened member that is no union is a constraint, if nothing absorbs the members. -/
theorem Unabsorbed.isConstraint (hms : T.Unabsorbed ms) (hb : T.HasBuiltins)
    (h : ∀ m ∈ ms, T.Canonical m) (ha : a ∈ T.openedMembers ms) (hunion : T.isUnion a = false) :
    ∃ t, T.get? a = some t ∧ t.isConstraint := by
  obtain ⟨hmem, hunknown⟩ := mem_openedMembers.mp ha
  obtain ⟨hcanonical, hinter⟩ := canonical_of_mem_constraints h hmem
  exact hcanonical.isConstraint hb hunion hinter (fun e => hms.any (e ▸ hmem)) hunknown
    (fun e => hms.never (e ▸ hmem))

/-- A canonical type that can be a member of a canonical union. -/
def IsAlternative (T : TypeTable) (a : TypeId) : Prop :=
  T.Canonical a ∧ ∃ t, T.get? a = some t ∧ t.isAlternative

/-- An alternative stays one while types are built. -/
theorem IsAlternative.builds (h : T.IsAlternative a) (hTU : T.Builds U) : U.IsAlternative a := by
  obtain ⟨hcanonical, t, ht, halt⟩ := h
  exact ⟨hTU.canonical hcanonical, t, hTU.get? ht, halt⟩

/-- What an alternative is opened to. -/
theorem IsAlternative.constraints (h : T.IsAlternative a) (hb : b ∈ T.constraints a) :
    ∃ u, T.get? b = some u ∧ u.isConstraint := by
  obtain ⟨hcanonical, t, ht, halt⟩ := h
  rw [TypeTable.constraints, ht] at hb
  cases t with
  | intersection ms =>
    have hms : T.CanonicalIntersection ms := hcanonical.canonicalNode ht
    exact hms.constraint b hb
  | any | never | unknown | union _ => exact absurd halt Bool.false_ne_true
  | primitive _ | literal _ | tuple _ _ | array _ _ | object _ =>
    obtain rfl := List.mem_singleton.mp hb
    exact ⟨_, ht, rfl⟩

/-- Nothing absorbs alternatives. -/
theorem unabsorbed_of_isAlternative (hb : T.HasBuiltins) (hc : ∀ a ∈ c, T.IsAlternative a) :
    T.Unabsorbed c := by
  have hnot : ∀ {i t}, T.get? i = some t → t.isConstraint = false →
      i ∉ c.flatMap T.constraints := by
    intro i t ht hcon hi
    obtain ⟨a, ha, hi⟩ := List.mem_flatMap.mp hi
    obtain ⟨u, hu, hucon⟩ := (hc a ha).constraints hi
    obtain rfl := Option.some.inj (ht.symm.trans hu)
    rw [hcon] at hucon
    exact absurd hucon (by decide)
  exact ⟨hnot hb.never rfl, hnot hb.any rfl⟩

/-- Alternatives are opened to constraints, so there is no union among them. -/
theorem isUnion_of_mem_openedMembers (hc : ∀ a ∈ c, T.IsAlternative a)
    (hbc : b ∈ T.openedMembers c) : T.isUnion b = false := by
  obtain ⟨a, ha, hba⟩ := List.mem_flatMap.mp (mem_openedMembers.mp hbc).1
  obtain ⟨u, hu, hcon⟩ := (hc a ha).constraints hba
  exact isUnion_of_isAlternative hu (Ty.isAlternative_of_isConstraint hcon)

/-- A canonical type is opened to alternatives, if it is none of the three special types. -/
theorem Canonical.isAlternative_of_mem (hb : T.HasBuiltins) (hi : T.Canonical i)
    (hany : i ≠ TypeId.any) (hunknown : i ≠ TypeId.unknown) (hnever : i ≠ TypeId.never)
    (ha : a ∈ T.alternatives i) : T.IsAlternative a := by
  have hcanonical := hi.alternatives ha
  refine ⟨hcanonical.1, ?_⟩
  rw [TypeTable.alternatives] at ha
  split at ha
  · rename_i ms hget
    have hms : T.CanonicalUnion ms := hi.canonicalNode hget
    exact hms.alternative a ha
  · obtain rfl := List.mem_singleton.mp ha
    exact hi.isAlternative hb hcanonical.2 hany hunknown hnever

/-- The choices from members that nothing absorbs consist of alternatives. -/
theorem Unabsorbed.isAlternative (hms : T.Unabsorbed ms) (hb : T.HasBuiltins)
    (h : ∀ m ∈ ms, T.Canonical m) (hc : c ∈ choices ((T.openedMembers ms).map T.alternatives)) :
    ∀ a ∈ c, T.IsAlternative a := by
  intro a ha
  obtain ⟨l, hl, ha⟩ := exists_mem_of_mem_choices hc ha
  obtain ⟨m, hm, rfl⟩ := List.mem_map.mp hl
  obtain ⟨hmem, hunknown⟩ := mem_openedMembers.mp hm
  exact (canonical_of_mem_openedMembers h hm).isAlternative_of_mem hb
    (fun e => hms.any (e ▸ hmem)) hunknown (fun e => hms.never (e ▸ hmem)) ha

/-! ## The intersection -/

/-- `n` is the canonical intersection of `ms`: the union of what the choices of one alternative from
each member reduce to. -/
def IsIntersectionOf (T : TypeTable) (ms : List TypeId) (n : TypeId) : Prop :=
  let flat := ms.flatMap T.constraints
  if TypeId.never ∈ flat then n = TypeId.never
  else if TypeId.any ∈ flat then n = TypeId.any
  else ∃ ns, List.Forall₂ (fun c n => T.Canonical n ∧ T.IsReductionOf (T.openedMembers c) n)
      (choices ((T.openedMembers ms).map T.alternatives)) ns ∧ T.IsUnionOf ns n

/-- Members of which several are left once they are opened, with a union among them. -/
structure Distributes (T : TypeTable) (ms : List TypeId) : Prop where
  unabsorbed : T.Unabsorbed ms
  two_le : 2 ≤ (T.openedMembers ms).length
  union : ∃ a ∈ T.openedMembers ms, T.isUnion a

/-- The number of choices that an intersection distributes into. -/
def choiceSize (T : TypeTable) (ms : List TypeId) : Nat :=
  choiceCount ((T.openedMembers ms).map T.alternatives)

/-- An intersection distributes into more choices than the options allow, or than a list has room
for. -/
def IsRefused (T : TypeTable) (ms : List TypeId) (e : TypeError) : Prop :=
  T.Distributes ms ∧ refusal? (T.choiceSize ms) T.options.maxUnionSize = some e

/-- A distribution that is not refused is begun. -/
theorem Distributes.refusal?_eq_none (hd : T.Distributes ms)
    (hallowed : ¬ ∃ e, T.IsRefused ms e) :
    refusal? (T.choiceSize ms) T.options.maxUnionSize = none := by
  rw [Option.eq_none_iff_forall_ne_some]
  exact fun e he => hallowed ⟨e, hd, he⟩

/-- An intersection is `any` only if a member is. -/
theorem IsIntersectionOf.ne_any (hi : T.IsIntersectionOf ms n) (hb : T.HasBuiltins)
    (h : ∀ m ∈ ms, T.Canonical m) (hany : TypeId.any ∉ ms) : n ≠ TypeId.any := by
  rw [IsIntersectionOf] at hi
  by_cases hnever : TypeId.never ∈ ms.flatMap T.constraints
  · rw [if_pos hnever] at hi
    exact hi ▸ (by decide)
  have hflat := mt (any_mem_of_mem_constraints hb h) hany
  rw [if_neg hnever, if_neg hflat] at hi
  obtain ⟨ns, hns, hn⟩ := hi
  refine hn.ne_any hb (forall_right_of_forall₂ hns fun _ _ hcn => hcn.1) fun hmem => ?_
  -- what a choice reduces to is not `any`
  have hchoice := fun c (hc : c ∈ choices ((T.openedMembers ms).map T.alternatives)) =>
    unabsorbed_of_isAlternative hb (Unabsorbed.isAlternative ⟨hnever, hflat⟩ hb h hc)
  have hne : ∀ n ∈ ns, n ≠ TypeId.any :=
    forall_right_of_forall₂ ((List.forall₂_and_left _ _).mpr ⟨hchoice, hns⟩) fun c n hcn =>
      hcn.2.2.ne_any hb fun hopened => hcn.1.any (mem_openedMembers.mp hopened).1
  exact hne _ hmem rfl

/-- The results for the choices, with the union of them, are the intersection. -/
theorem IsIntersectionOf.of_choices (hms : T.Unabsorbed ms) (hb : T.HasBuiltins)
    (h : ∀ m ∈ ms, T.Canonical m) (hTU : Grows T U)
    (hns : List.Forall₂ (fun c n => U.Canonical n ∧ U.IsReductionOf (T.openedMembers c) n)
      (choices ((T.openedMembers ms).map T.alternatives)) ns) (hn : U.IsUnionOf ns n) :
    U.IsIntersectionOf ms n := by
  have hlt : ∀ m ∈ ms, m < T.size := fun m hm => (h m hm).lt_size
  have hflat : ms.flatMap U.constraints = ms.flatMap T.constraints :=
    List.flatMap_congr fun m hm => hTU.constraints_eq (hlt m hm)
  have hlists : (U.openedMembers ms).map U.alternatives =
      (T.openedMembers ms).map T.alternatives := by
    rw [hTU.openedMembers_eq hlt]
    exact List.map_congr_left fun a ha =>
      hTU.alternatives_eq (canonical_of_mem_openedMembers h ha).lt_size
  simp only [IsIntersectionOf, hflat, if_neg hms.never, if_neg hms.any, hlists]
  refine ⟨ns, ?_, hn⟩
  have hc : ∀ c ∈ choices ((T.openedMembers ms).map T.alternatives), ∀ a ∈ c, a < T.size :=
    fun c hc a ha => (hms.isAlternative hb h hc a ha).1.lt_size
  refine ((List.forall₂_and_left _ _).mpr ⟨hc, hns⟩).imp fun c n hcn => ?_
  rw [hTU.openedMembers_eq hcn.1]
  exact hcn.2

end TypeTable

/-! ## One level -/

variable {T U : TypeTable} {ms : List TypeId} {meet : List TypeId → Building TypeId}

/-- What a distribution interns and answers. -/
theorem on_distribute (meet : List TypeId → Building TypeId) (T : TypeTable) (ms : List TypeId) :
    (distribute meet ms).on T =
      match refusal? (choiceCount (ms.map T.alternatives)) T.options.maxUnionSize with
      | some e => (.error e, T)
      | none => Building.on (do unionOf (← (choices (ms.map T.alternatives)).mapM meet)) T := by
  rw [distribute, Building.on_get_bind]
  dsimp only
  cases refusal? (choiceCount (ms.map T.alternatives)) T.options.maxUnionSize with
  | some e => rfl
  | none =>
    dsimp only
    rw [visitChoices_eq_mapM]

/-- What one level of an intersection interns and answers. -/
theorem on_intersectionStep (meet : List TypeId → Building TypeId) (T : TypeTable)
    (ms : List TypeId) :
    (intersectionStep meet ms).on T =
      if TypeId.never ∈ ms.flatMap T.constraints then (.ok TypeId.never, T)
      else if TypeId.any ∈ ms.flatMap T.constraints then (.ok TypeId.any, T)
      else
        match T.openedMembers ms with
        | [] => (.ok TypeId.unknown, T)
        | [i] => (.ok i, T)
        | kept =>
          if kept.any T.isUnion then (distribute meet kept).on T
          else Building.on (monadLift (reduceConstraints kept)) T := by
  rw [intersectionStep, Building.on_get_bind]
  dsimp only
  split
  · rfl
  split
  · rfl
  rw [← openedMembers]
  rcases T.openedMembers ms with _ | ⟨i, _ | ⟨j, rest⟩⟩
  · rfl
  · rfl
  · dsimp only
    split <;> rfl

/-- With several members and a union among them a level is a distribution. -/
theorem TypeTable.Distributes.on_intersectionStep (h : T.Distributes ms) :
    (intersectionStep meet ms).on T = (distribute meet (T.openedMembers ms)).on T := by
  have hsome : (T.openedMembers ms).any T.isUnion := List.any_eq_true.mpr h.union
  have htwo := h.two_le
  rw [TypeAssay.on_intersectionStep, if_neg h.unabsorbed.never, if_neg h.unabsorbed.any]
  match T.openedMembers ms, htwo, hsome with
  | i :: j :: rest, _, hsome =>
    dsimp only
    rw [if_pos hsome]

/-- A level without unions is the last step. -/
theorem intersectionStep_isReductionOf (hms : T.Unabsorbed ms) (hb : T.HasBuiltins)
    (h : ∀ m ∈ ms, T.Canonical m) (hunion : ∀ a ∈ T.openedMembers ms, T.isUnion a = false) :
    (intersectionStep meet ms).Gives T fun n U =>
      U.Canonical n ∧ U.IsReductionOf (T.openedMembers ms) n := by
  have hcanonical : ∀ a ∈ T.openedMembers ms, T.Canonical a := fun a =>
    canonical_of_mem_openedMembers h
  have hconstraint : ∀ a ∈ T.openedMembers ms, ∃ t, T.get? a = some t ∧ t.isConstraint :=
    fun a ha => hms.isConstraint hb h ha (hunion a ha)
  have hasc : (T.openedMembers ms).Pairwise (· < ·) := pairwise_ascending _
  have hreduce := reduceConstraints_isReductionOf hb hcanonical hconstraint hasc
  rw [Building.Gives, on_intersectionStep, if_neg hms.never, if_neg hms.any]
  -- no constraint is left, or one, or enough for an intersection
  rcases hkept : T.openedMembers ms with _ | ⟨i, _ | ⟨j, rest⟩⟩ <;>
    rw [hkept] at hcanonical hconstraint hunion hreduce hasc
  · refine ⟨TypeId.unknown, T, rfl, .refl, hb.canonical_unknown, ?_⟩
    have hnil : T.Coexist [] := ⟨by simp, by simp, by simp⟩
    exact hnil.isReductionOf hb .nil (by simp [demands, hb.unknown])
  · obtain ⟨t, ht, hcon⟩ := hconstraint i List.mem_cons_self
    refine ⟨i, T, rfl, .refl, hcanonical i List.mem_cons_self, ?_⟩
    exact (coexist_singleton hb i).isReductionOf hb hasc (demands_of_isConstraint ht hcon)
  · have hnone : (i :: j :: rest).any T.isUnion = false := List.any_eq_false.mpr fun a ha => by
      rw [hunion a ha]
      decide
    dsimp only
    rw [hnone]
    exact hreduce.gives

/-- What a level promises of a choice of alternatives. -/
def MeetsChoices (meet : List TypeId → Building TypeId) (T : TypeTable) : Prop :=
  ∀ U c, T.Builds U → (∀ a ∈ c, U.IsAlternative a) →
    (meet c).Gives U fun n V => V.Canonical n ∧ V.IsReductionOf (U.openedMembers c) n

/-- Alternatives are no unions, so a choice of them is not distributed again. -/
theorem intersectionStep_meetsChoices (hb : T.HasBuiltins) :
    -- the choice may be intersected later, after others were
    MeetsChoices (intersectionStep meet) T := by
  intro U c hTU hc
  have hbU := hTU.hasBuiltins hb
  exact intersectionStep_isReductionOf (unabsorbed_of_isAlternative hbU hc) hbU
    (fun a ha => (hc a ha).1) fun b => isUnion_of_mem_openedMembers hc

/-- A distribution into few enough choices gives the intersection. -/
theorem distribute_isIntersectionOf (hms : T.Unabsorbed ms) (hb : T.HasBuiltins)
    (h : ∀ m ∈ ms, T.Canonical m) (hmeet : MeetsChoices meet T)
    (hfits : refusal? (T.choiceSize ms) T.options.maxUnionSize = none) :
    (distribute meet (T.openedMembers ms)).Gives T fun n U =>
      U.Canonical n ∧ U.IsIntersectionOf ms n := by
  have hchoice : ∀ c ∈ choices ((T.openedMembers ms).map T.alternatives),
      ∀ a ∈ c, T.IsAlternative a := fun c => hms.isAlternative hb h
  have hopened : ∀ c ∈ choices ((T.openedMembers ms).map T.alternatives),
      ∀ a ∈ T.openedMembers c, a < T.size := fun c hc a ha =>
    (canonical_of_mem_openedMembers (fun a ha => (hchoice c hc a ha).1) ha).lt_size
  -- a result stays what it is while the other choices are intersected
  have hall : ((choices ((T.openedMembers ms).map T.alternatives)).mapM meet).Gives T fun ns U =>
      List.Forall₂ (fun c n => (U.Canonical n ∧ ∀ a ∈ T.openedMembers c, a < U.size) ∧
        U.IsReductionOf (T.openedMembers c) n)
        (choices ((T.openedMembers ms).map T.alternatives)) ns := by
    refine Building.gives_mapM (Q := fun c n U =>
      (U.Canonical n ∧ ∀ a ∈ T.openedMembers c, a < U.size) ∧ U.IsReductionOf (T.openedMembers c) n)
      (fun c hc U hTU => ?_) ?_
    · have hc' : ∀ a ∈ c, U.IsAlternative a := fun a ha => (hchoice c hc a ha).builds hTU
      have hsame : U.openedMembers c = T.openedMembers c :=
        hTU.grows.openedMembers_eq fun a ha => (hchoice c hc a ha).1.lt_size
      refine (hmeet U c hTU hc').mono fun n V hUV hn => ⟨⟨hn.1, fun a ha => ?_⟩, hsame ▸ hn.2⟩
      exact Nat.lt_of_lt_of_le (hopened c hc a ha) (hTU.grows.trans hUV.grows).size_le
    · rintro c n U V hUV ⟨⟨hn, hlt⟩, hreduct⟩
      exact ⟨⟨hUV.canonical hn, fun a ha => Nat.lt_of_lt_of_le (hlt a ha) hUV.grows.size_le⟩,
        hreduct.grows hUV.grows hlt hn.lt_size⟩
  rw [Building.Gives, on_distribute, ← choiceSize, hfits]
  refine hall.bind fun ns U hTU hns => ?_
  have hns' : ∀ n ∈ ns, U.Canonical n := forall_right_of_forall₂ hns fun _ _ hn => hn.1.1
  refine (unionOf_isUnionOf (hTU.hasBuiltins hb) hns').gives.mono ?_
  rintro n V hUV ⟨hn, hunion⟩
  refine ⟨hn, .of_choices hms hb h (hTU.grows.trans hUV.grows) (hns.imp ?_) hunion⟩
  rintro c n ⟨⟨hn, hlt⟩, hreduct⟩
  exact ⟨hUV.canonical hn, hreduct.grows hUV.grows hlt hn.lt_size⟩

/-- One level of an intersection that is not refused. -/
theorem intersectionStep_isIntersectionOf (hb : T.HasBuiltins) (h : ∀ m ∈ ms, T.Canonical m)
    (hmeet : MeetsChoices meet T) (hallowed : ¬ ∃ e, T.IsRefused ms e) :
    (intersectionStep meet ms).Gives T fun n U => U.Canonical n ∧ U.IsIntersectionOf ms n := by
  -- `never` and then `any` absorb all other members
  by_cases hnever : TypeId.never ∈ ms.flatMap T.constraints
  · refine ⟨TypeId.never, T, ?_, .refl, hb.canonical_never, ?_⟩
    · rw [on_intersectionStep, if_pos hnever]
    · simp only [IsIntersectionOf, if_pos hnever]
  by_cases hany : TypeId.any ∈ ms.flatMap T.constraints
  · refine ⟨TypeId.any, T, ?_, .refl, hb.canonical_any, ?_⟩
    · rw [on_intersectionStep, if_neg hnever, if_pos hany]
    · simp only [IsIntersectionOf, if_neg hnever, if_pos hany]
  have hms : T.Unabsorbed ms := ⟨hnever, hany⟩
  by_cases hunion : ∃ a ∈ T.openedMembers ms, T.isUnion a
  · by_cases htwo : 2 ≤ (T.openedMembers ms).length
    · have hdistributes : T.Distributes ms := ⟨hms, htwo, hunion⟩
      rw [Building.Gives, hdistributes.on_intersectionStep]
      exact distribute_isIntersectionOf hms hb h hmeet (hdistributes.refusal?_eq_none hallowed)
    · -- a single union stands for itself
      obtain ⟨i, hi, -⟩ := hunion
      have hsingle : T.openedMembers ms = [i] := by
        match T.openedMembers ms, hi, htwo with
        | [_], hi, _ => rw [List.mem_singleton.mp hi]
        | _ :: _ :: _, _, htwo => simp at htwo
      have hi' := canonical_of_mem_openedMembers h hi
      refine ⟨i, T, ?_, .refl, hi', ?_⟩
      · rw [on_intersectionStep, if_neg hnever, if_neg hany, hsingle]
      have halternatives : T.IsUnionOf (T.alternatives i) i :=
        hi'.isUnionOf hb (flatMap_alternatives_eq_self fun a ha => (hi'.alternatives ha).2)
      refine .of_choices hms hb h .refl ?_ halternatives
      rw [hsingle, List.map_singleton, choices_singleton, List.forall₂_map_left_iff,
        List.forall₂_same]
      intro a ha
      obtain ⟨hcanonical, t, ht, halt⟩ := hi'.isAlternative_of_mem hb
        (fun e => hany (e ▸ (mem_openedMembers.mp hi).1)) (mem_openedMembers.mp hi).2
        (fun e => hnever (e ▸ (mem_openedMembers.mp hi).1)) ha
      exact ⟨hcanonical, hcanonical.isReductionOf hb ht halt⟩
  · -- without a union there is one choice, which is reduced
    have hunion' : ∀ a ∈ T.openedMembers ms, T.isUnion a = false := fun a ha =>
      Bool.eq_false_iff.mpr fun h => hunion ⟨a, ha, h⟩
    refine (intersectionStep_isReductionOf hms hb h hunion').mono ?_
    rintro n U hTU ⟨hn, hreduct⟩
    have hlists : (T.openedMembers ms).map T.alternatives = (T.openedMembers ms).map fun a => [a] :=
      List.map_congr_left fun a ha => alternatives_of_not_union (hunion' a ha)
    have hsingle : U.IsUnionOf [n] n := hn.isUnionOf (hTU.hasBuiltins hb) (by simp)
    refine ⟨hn, .of_choices hms hb h hTU.grows ?_ hsingle⟩
    rw [hlists, choices_map_singleton, List.forall₂_cons, openedMembers_openedMembers h]
    exact ⟨⟨hn, hreduct⟩, .nil⟩

/-! ## All levels -/

/-- There are always two levels. -/
theorem TypeTable.exists_levelBound_eq (T : TypeTable) : ∃ depth, T.levelBound = depth + 2 := by
  have htwo : 2 ^ 1 ≤ 2 ^ (T.size + 1) := Nat.pow_le_pow_right (by decide) (by omega)
  exact ⟨T.levelBound - 2, (Nat.sub_add_cancel htwo).symm⟩

/-- Two levels are all that is used of the bound. -/
theorem on_intersectionOf (T : TypeTable) (ms : List TypeId) : ∃ depth,
    (intersectionOf ms).on T =
      (intersectionStep (intersectionStep (intersectionWithin depth)) ms).on T := by
  obtain ⟨depth, hdepth⟩ := T.exists_levelBound_eq
  refine ⟨depth, ?_⟩
  rw [intersectionOf, Building.on_get_bind, hdepth]
  rfl

/-- A distribution into too many choices fails before it interns anything. -/
theorem TypeTable.IsRefused.on_intersectionOf {e : TypeError} (h : T.IsRefused ms e) :
    (intersectionOf ms).on T = (.error e, T) := by
  obtain ⟨depth, hdepth⟩ := TypeAssay.on_intersectionOf T ms
  rw [hdepth, h.1.on_intersectionStep, on_distribute, ← choiceSize, h.2]

/-- The intersection of canonical types, if it is not refused, is canonical, and it is their
intersection in the table that it leaves behind. -/
theorem intersectionOf_isIntersectionOf (hb : T.HasBuiltins) (h : ∀ m ∈ ms, T.Canonical m)
    (hallowed : ¬ ∃ e, T.IsRefused ms e) :
    (intersectionOf ms).Gives T fun n U => U.Canonical n ∧ U.IsIntersectionOf ms n := by
  obtain ⟨depth, hdepth⟩ := on_intersectionOf T ms
  rw [Building.Gives, hdepth]
  exact intersectionStep_isIntersectionOf hb h (intersectionStep_meetsChoices hb) hallowed

/-- An intersection of canonical types that is built is their intersection. -/
theorem intersectionOf_yields_isIntersectionOf (hb : T.HasBuiltins)
    (h : ∀ m ∈ ms, T.Canonical m) :
    (intersectionOf ms).Yields T fun n U => U.Canonical n ∧ U.IsIntersectionOf ms n := by
  -- what is refused gives no answer and builds nothing
  by_cases hrefused : ∃ e, T.IsRefused ms e
  · obtain ⟨e, hrefused⟩ := hrefused
    rw [Building.Yields, hrefused.on_intersectionOf]
    exact ⟨.refl, fun _ herror => absurd herror (by simp)⟩
  · exact (intersectionOf_isIntersectionOf hb h hrefused).yields

end TypeAssay
