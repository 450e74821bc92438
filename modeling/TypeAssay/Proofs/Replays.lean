import TypeAssay.Proofs.Batches
import TypeAssay.Proofs.Grouping

/-!
# Running again

What a computation built is there when it is run again. `m.Settles T Q` says that `m`, started with
the table `T`, builds canonical types, that an answer satisfies `Q`, and that in every later table
`m` answers the same and interns nothing. Which table is the later one does not matter, so two
settled computations in a row are settled (`Settles.bind`), although the second one interned types
between the two runs of the first one.

The constructors settle, since canonical types are found (`settles_unionOf`,
`settles_intersectionOf`), and so do the relations: they ask questions whose answers do not change,
or build types themselves (`settles_compare`, `settles_batchConstraint`, `settles_foldBatch`).
-/

namespace TypeAssay

open TypeTable

namespace TypeTable

variable {T U : TypeTable} {i m n : TypeId} {ms : List TypeId}

/-! ## Types that are known -/

/-- A canonical type is its own twin in every later table. -/
theorem Canonical.twins_self (h : T.Canonical i) (hTU : Grows T U) : Twins T U i i :=
  ⟨h, hTU.canonical h, (h.founded.similar hTU).of_exact⟩

/-- Canonical types are their own twins. -/
theorem same_self (h : ∀ m ∈ ms, T.Canonical m) : SameElements (Twins T T) ms ms :=
  ⟨fun m hm => ⟨m, hm, (h m hm).twins_self .refl⟩, fun m hm => ⟨m, hm, (h m hm).twins_self .refl⟩⟩

/-- There is one union of some types. -/
theorem IsUnionOf.unique (hm : T.IsUnionOf ms m) (hn : T.IsUnionOf ms n) (hb : T.HasBuiltins)
    (hms : ∀ k ∈ ms, T.Canonical k) (hmc : T.Canonical m) (hnc : T.Canonical n) : m = n :=
  (hmc.twins_self .refl).right_unique (hm.twins hb hb hmc hnc hn (same_self hms))

/-- The union of one type is that type. -/
theorem IsUnionOf.eq_of_singleton (h : T.IsUnionOf [m] n) (hb : T.HasBuiltins)
    (hmc : T.Canonical m) (hnc : T.Canonical n) : n = m :=
  h.unique (hmc.isUnionOf hb (by simp)) hb (by simpa using hmc) hnc hmc

/-- There is one intersection of some types. -/
theorem IsIntersectionOf.unique (hm : T.IsIntersectionOf ms m) (hn : T.IsIntersectionOf ms n)
    (hb : T.HasBuiltins) (hms : ∀ k ∈ ms, T.Canonical k) (hmc : T.Canonical m)
    (hnc : T.Canonical n) : m = n :=
  (hmc.twins_self .refl).right_unique (hm.twins hb hb hmc hnc hn (same_self hms))

/-- A single member stands for itself, although it may be a union. -/
theorem Unabsorbed.on_intersectionOf_singleton {u : TypeId} (h : T.Unabsorbed ms)
    (hu : T.openedMembers ms = [u]) : (intersectionOf ms).on T = (.ok u, T) := by
  obtain ⟨depth, hdepth⟩ := TypeAssay.on_intersectionOf T ms
  rw [hdepth, TypeAssay.on_intersectionStep, if_neg h.never, if_neg h.any, hu]

/-- Without a union there is one choice, and the intersection is what it reduces to. -/
theorem IsIntersectionOf.on_intersectionOf_of_plain (hi : T.IsIntersectionOf ms n)
    (hb : T.HasBuiltins) (hn : T.Canonical n) (h : ∀ m ∈ ms, T.Canonical m)
    (hunabsorbed : T.Unabsorbed ms) (hplain : ∀ a ∈ T.openedMembers ms, T.isUnion a = false) :
    (intersectionOf ms).on T = (.ok n, T) := by
  have hlists : (T.openedMembers ms).map T.alternatives = (T.openedMembers ms).map fun a => [a] :=
    List.map_congr_left fun a ha => alternatives_of_not_union (hplain a ha)
  rw [IsIntersectionOf, if_neg hunabsorbed.never, if_neg hunabsorbed.any, hlists,
    choices_map_singleton] at hi
  obtain ⟨ns, hns, hone⟩ := hi
  obtain ⟨r, rest, hr, hrest, rfl⟩ := List.forall₂_cons_left_iff.mp hns
  obtain rfl := List.forall₂_nil_left_iff.mp hrest
  rw [openedMembers_openedMembers h] at hr
  obtain rfl : n = r := hone.eq_of_singleton hb hr.1 hn
  obtain ⟨depth, hdepth⟩ := TypeAssay.on_intersectionOf T ms
  rw [hdepth]
  exact hr.2.on_intersectionStep hr.1 hunabsorbed hb hplain

/-- An intersection is found if the table knows what it is, whether or not it distributes. -/
theorem IsIntersectionOf.on_intersectionOf_of_allowed (hi : T.IsIntersectionOf ms n)
    (hb : T.HasBuiltins) (hn : T.Canonical n) (h : ∀ m ∈ ms, T.Canonical m)
    (hallowed : ¬ ∃ e, T.IsRefused ms e) : (intersectionOf ms).on T = (.ok n, T) := by
  -- either choices are gone through, or `never` or `any` decides, or there is one member at most
  by_cases hd : T.Distributes ms
  · exact hi.on_intersectionOf hb hn h hd (hd.refusal?_eq_none hallowed)
  obtain ⟨depth, hdepth⟩ := TypeAssay.on_intersectionOf T ms
  by_cases hnever : TypeId.never ∈ ms.flatMap T.constraints
  · rw [IsIntersectionOf, if_pos hnever] at hi
    rw [hdepth, TypeAssay.on_intersectionStep, if_pos hnever, hi]
  by_cases hany : TypeId.any ∈ ms.flatMap T.constraints
  · rw [IsIntersectionOf, if_neg hnever, if_pos hany] at hi
    rw [hdepth, TypeAssay.on_intersectionStep, if_neg hnever, if_pos hany, hi]
  have hunabsorbed : T.Unabsorbed ms := ⟨hnever, hany⟩
  by_cases hunion : ∃ a ∈ T.openedMembers ms, T.isUnion a
  · -- nothing is distributed over the union, so it is the only member
    have htwo : ¬ 2 ≤ (T.openedMembers ms).length := fun htwo => hd ⟨hunabsorbed, htwo, hunion⟩
    have hone : (T.openedMembers ms).length = 1 := by
      obtain ⟨a, ha, -⟩ := hunion
      have hpos := List.length_pos_of_mem ha
      omega
    obtain ⟨u, hsingle⟩ := List.length_eq_one_iff.mp hone
    have hon := hunabsorbed.on_intersectionOf_singleton hsingle
    obtain ⟨u', U, hon', -, huc, hui⟩ := intersectionOf_isIntersectionOf hb h hallowed
    obtain ⟨hu', rfl⟩ : Except.ok u = Except.ok u' ∧ T = U := Prod.mk.inj (hon.symm.trans hon')
    obtain rfl := Except.ok.inj hu'
    rw [hon, hui.unique hi hb h huc hn]
  · refine hi.on_intersectionOf_of_plain hb hn h hunabsorbed fun a ha => ?_
    exact Bool.eq_false_iff.mpr fun hua => hunion ⟨a, ha, hua⟩

end TypeTable

/-! ## Computations that cannot fail -/

variable {α β : Type} {T U V : TypeTable} {i j : TypeId} {ms : List TypeId}

namespace Interning

variable {m : Interning α} {f : α → Interning β} {Q : α → TypeTable → Prop}
  {R : β → TypeTable → Prop}

/-- `m` builds canonical types, its answer satisfies `Q`, and it answers the same in later tables,
where it interns nothing. -/
structure Settles (m : Interning α) (T : TypeTable) (Q : α → TypeTable → Prop) : Prop where
  yields : m.Yields T Q
  again : ∀ V, (m.run T).2.Builds V → m.run V = ((m.run T).1, V)

theorem Settles.pure {a : α} (h : Q a T) : Settles (Pure.pure a) T Q := ⟨.pure h, fun _ _ => rfl⟩

theorem Settles.bind (h : m.Settles T Q)
    (hf : ∀ a U, T.Builds U → Q a U → (f a).Settles U R) : Settles (m >>= f) T R := by
  have hf' := hf _ _ h.yields.1 h.yields.2
  refine ⟨h.yields.bind fun a U hb hQ => (hf a U hb hQ).yields, fun V hV => ?_⟩
  -- the second computation built types between the two runs of the first one
  have hbetween := hf'.yields.1
  show (f (m.run V).1).run (m.run V).2 = _
  rw [h.again V (hbetween.trans hV)]
  exact hf'.again V hV

theorem Settles.get {f : TypeTable → Interning β} (hf : ∀ V, T.Builds V → f V = f T)
    (h : (f T).Settles T R) : Settles (MonadState.get >>= f) T R := by
  refine ⟨.get h.yields, fun V hV => ?_⟩
  show (f V).run V = _
  rw [hf V (h.yields.1.trans hV)]
  exact h.again V hV

/-- Over a list each computation settles in the table that the last one has left. -/
theorem settles_mapM {f : α → Interning β} {Q : α → β → TypeTable → Prop} {xs : List α}
    (hf : ∀ x ∈ xs, ∀ U, T.Builds U → (f x).Settles U (Q x))
    (hQ : ∀ x b U V, U.Builds V → Q x b U → Q x b V) :
    Settles (xs.mapM f) T fun ys U => List.Forall₂ (fun x y => Q x y U) xs ys :=
  mapM_rule Settles.pure Settles.bind hf hQ

end Interning

/-! ## Computations that may fail -/

namespace Building

variable {m : Building α} {f : α → Building β} {Q : α → TypeTable → Prop}
  {R : β → TypeTable → Prop}

/-- `m` builds canonical types, an answer satisfies `Q`, and it stays the answer in later tables,
where `m` interns nothing. -/
structure Settles (m : Building α) (T : TypeTable) (Q : α → TypeTable → Prop) : Prop where
  yields : m.Yields T Q
  again : ∀ a U V, m.on T = (.ok a, U) → U.Builds V → m.on V = (.ok a, V)

theorem Settles.pure {a : α} (h : Q a T) : Settles (Pure.pure a) T Q := by
  refine ⟨.pure h, fun b U V hon _ => ?_⟩
  have hab : Except.ok a = Except.ok b := (Prod.mk.inj hon).1
  obtain rfl := Except.ok.inj hab
  rfl

/-- An error is no answer, so nothing has to stay. -/
theorem Settles.of_error {e : TypeError} (hb : T.Builds U) (h : m.on T = (.error e, U)) :
    m.Settles T Q := by
  refine ⟨?_, fun a V W hon _ => absurd (h.symm.trans hon) (by simp)⟩
  rw [Yields, h]
  exact ⟨hb, fun a ha => absurd ha (by simp)⟩

theorem Settles.throw {e : TypeError} : Settles (throw e : Building α) T Q := .of_error .refl rfl

theorem Settles.bind (h : m.Settles T Q)
    (hf : ∀ a U, T.Builds U → Q a U → (f a).Settles U R) : Settles (m >>= f) T R := by
  refine ⟨h.yields.bind fun a U hb hQ => (hf a U hb hQ).yields, fun b W V hon hWV => ?_⟩
  obtain ⟨hb, hQ⟩ := h.yields
  rcases hm : m.on T with ⟨⟨e⟩ | ⟨a⟩, U⟩
  · -- an error ends both, so the first computation has answered
    rw [on_bind_error hm] at hon
    exact absurd hon (by simp)
  · rw [hm] at hb hQ
    have hf' := hf a U hb (hQ a rfl)
    rw [on_bind_ok hm] at hon
    have hUW : U.Builds W := by
      have := hf'.yields.1
      rwa [hon] at this
    rw [on_bind_ok (h.again a U V hm (hUW.trans hWV))]
    exact hf'.again b W V hon hWV

/-- A question whose answer stays the same. -/
theorem Settles.ask {g : TypeTable → α} (h : ∀ V, T.Builds V → g V = g T) (hQ : Q (g T) T) :
    Settles (do return g (← get)) T Q := by
  refine ⟨.get (.pure hQ), fun a U V hon hUV => ?_⟩
  obtain ⟨ha, rfl⟩ : Except.ok (g T) = Except.ok a ∧ T = U := Prod.mk.inj hon
  obtain rfl := Except.ok.inj ha
  show (Except.ok (g V), V) = _
  rw [h V hUV]

end Building

open Building

/-- What settles still does where failing is allowed. -/
theorem Interning.Settles.lift {m : Interning α} {Q : α → TypeTable → Prop} (h : m.Settles T Q) :
    Building.Settles (monadLift m) T Q := by
  refine ⟨h.yields.lift, fun a U V hon hUV => ?_⟩
  rw [on_lift] at hon
  obtain ⟨ha, rfl⟩ := Prod.mk.inj hon
  obtain rfl := Except.ok.inj ha
  rw [on_lift, h.again V hUV]

/-! ## Constructors -/

/-- To enter a canonical node settles, since it is found from then on. -/
theorem settles_intern {t : Ty} {Q : TypeId → TypeTable → Prop} (hc : T.CanonicalNode t)
    (hp : ∀ j ∈ t.parts, T.Canonical j) (hQ : Q (T.intern t).1 (T.intern t).2) :
    (intern t).Settles T Q := by
  refine ⟨Interning.yields_intern hc hp hQ, fun V hV => ?_⟩
  have hget : V.get? (T.intern t).1 = some t := hV.get? (get?_intern_fst T t)
  exact intern_of_lookup (lookup_eq_some_iff.mpr hget)

/-- A canonical node over canonical parts. -/
theorem settles_intern_canonical {t : Ty} (hc : T.CanonicalNode t)
    (hp : ∀ j ∈ t.parts, T.Canonical j) : (intern t).Settles T fun n U => U.Canonical n :=
  settles_intern hc hp (canonical_intern hc hp)

/-- A literal that is kept settles. -/
theorem settles_literal {l : Literal} (hl : l.IsCanonical) :
    (intern (.literal l)).Settles T fun n U => U.Canonical n :=
  settles_intern_canonical (t := .literal l) hl fun _ hj => absurd hj List.not_mem_nil

/-- A number settles: it is refused or entered. -/
theorem settles_numberLiteral (x : Binary64) :
    (numberLiteral x).Settles T fun n U => U.Canonical n := by
  rw [numberLiteral]
  split
  · exact .throw
  · rename_i hnan
    exact (settles_literal (isCanonical_foldZero (Bool.eq_false_iff.mpr hnan))).lift

/-- A bigint settles: it is refused or entered. -/
theorem settles_bigintLiteral (digits : String) :
    (bigintLiteral digits).Settles T fun n U => U.Canonical n := by
  rw [bigintLiteral]
  split
  · exact .throw
  · rename_i c hc
    exact (settles_literal (l := .bigint c) (canonicalBigint?_spec hc).1).lift

/-- An object settles: it is refused or entered. -/
theorem settles_objectOf {ps : List Property} (h : ∀ p ∈ ps, T.Canonical p.type) :
    (objectOf ps).Settles T fun n U => U.Canonical n := by
  rw [objectOf]
  split
  · exact .throw
  · rename_i hrep
    refine (settles_intern_canonical (t := .object (sortByName ps))
      (pairwise_name_of_repeatedName? (pairwise_sortByName ps) hrep) fun j hj => ?_).lift
    obtain ⟨p, hp, rfl⟩ := List.mem_map.mp hj
    exact h p ((perm_sortByName ps).subset hp)

/-- A union settles: its members do not change, and it is found. -/
theorem settles_unionOf (hb : T.HasBuiltins) (h : ∀ m ∈ ms, T.Canonical m) :
    (unionOf ms).Settles T fun n U => U.Canonical n := by
  have hyields := unionOf_isUnionOf hb h
  obtain ⟨hTU, hn, hunion⟩ := hyields
  refine ⟨⟨hTU, hn⟩, fun V hV => ?_⟩
  have hms : ∀ m ∈ ms, Canonical _ m := fun m hm => hTU.canonical (h m hm)
  exact (hunion.grows hV.grows hms hn.lt_size).run_unionOf (hV.hasBuiltins (hTU.hasBuiltins hb))
    (hV.canonical hn)

/-- An intersection that is refused once is so in every later table, and one that is not is
found. -/
theorem settles_intersectionOf (hb : T.HasBuiltins) (h : ∀ m ∈ ms, T.Canonical m) :
    (intersectionOf ms).Settles T fun n U => U.Canonical n := by
  by_cases hrefused : ∃ e, T.IsRefused ms e
  · obtain ⟨e, hrefused⟩ := hrefused
    exact .of_error .refl hrefused.on_intersectionOf
  refine ⟨(intersectionOf_isIntersectionOf hb h hrefused).yields.mono fun _ _ _ hn => hn.1,
    fun n U V hon hUV => ?_⟩
  obtain ⟨n', U', hon', hTU, hn, hi⟩ := intersectionOf_isIntersectionOf hb h hrefused
  obtain ⟨hnn', rfl⟩ := Prod.mk.inj (hon.symm.trans hon')
  obtain rfl := Except.ok.inj hnn'
  have hbU := hTU.hasBuiltins hb
  have hms : ∀ m ∈ ms, U.Canonical m := fun m hm => hTU.canonical (h m hm)
  refine (hi.grows hUV.grows hbU hms hn.lt_size).on_intersectionOf_of_allowed
    (hUV.hasBuiltins hbU) (hUV.canonical hn) (fun m hm => hUV.canonical (hms m hm))
    fun ⟨e, hV⟩ => ?_
  have hTV := hTU.grows.trans hUV.grows
  refine hrefused ⟨e, hV.of_same (hUV.hasBuiltins hbU) hb hTV.options_eq ?_⟩
  exact ⟨fun m hm => ⟨m, hm, ((h m hm).twins_self hTV).symm⟩,
    fun m hm => ⟨m, hm, ((h m hm).twins_self hTV).symm⟩⟩

/-! ## Relations -/

/-- The normal form of a canonical type settles, since it is the type. -/
theorem settles_normalType (hb : T.HasBuiltins) (hi : T.Canonical i) :
    (NormalType.of i).Settles T fun n _ => n = ⟨i⟩ := by
  have hon := fun V (hV : T.Builds V) =>
    on_normalType_ok (on_normalize (hV.hasBuiltins hb) (hV.canonical hi))
  refine ⟨?_, fun a U V ha hV => ?_⟩
  · rw [Yields, hon T .refl]
    exact ⟨.refl, fun a ha => (Except.ok.inj ha).symm⟩
  · obtain ⟨haa, rfl⟩ := Prod.mk.inj ((hon T .refl).symm.trans ha)
    rw [hon V hV, haa]

/-- A comparison by normal forms settles. -/
theorem settles_compareNormal {answer : NormalType → NormalType → Outcome} (hb : T.HasBuiltins)
    (hi : T.Canonical i) (hj : T.Canonical j) :
    Settles (do return answer (← NormalType.of i) (← NormalType.of j)) T fun _ _ => True := by
  refine (settles_normalType hb hi).bind fun _ U hU _ => ?_
  exact (settles_normalType (hU.hasBuiltins hb) (hU.canonical hj)).bind fun _ _ _ _ =>
    .pure trivial

/-- Whether two types are equal settles. -/
theorem settles_equal (hb : T.HasBuiltins) (hi : T.Canonical i) (hj : T.Canonical j) :
    (equal i j).Settles T fun _ _ => True :=
  settles_compareNormal hb hi hj

/-- Every comparison settles. -/
theorem settles_compare (c : Comparison) (hT : T.Tidy) (hi : T.Canonical i) (hj : T.Canonical j) :
    (c.compare i j).Settles T fun _ _ => True := by
  have hd := hT.descends
  have hb := hT.hasBuiltins
  cases c with
  | equal | notEqual => exact settles_compareNormal hb hi hj
  | simpleEqual =>
    exact .ask (fun V hV => hV.grows.simpleEqual_eq hd hb hi.lt_size hj.lt_size) trivial
  | extending =>
    exact .ask (fun V hV => hV.grows.extendsType_eq hd hb hi.lt_size hj.lt_size) trivial

/-- The categories of a type stay the same. -/
theorem Category.holds_eq (c : Category) (hTU : Grows T U) (hT : T.Tidy) (hi : i < T.size) :
    c.holds U i = c.holds T i := by
  cases c with
  | never => exact hTU.isNever_eq hi
  | any => exact hTU.isAny_eq hi
  | unknown => exact hTU.isUnknown_eq hT.descends hT.hasBuiltins hi
  | union => exact hTU.isUnionType_eq hi
  | tuple => exact hTU.isTuple_eq hT.descends hi

/-! ### Assertions and batches -/

/-- The constraint of an assertion settles, since relations do not change. -/
theorem settles_assertionConstraint (target : Bool) (hT : T.Tidy) (hi : T.Canonical i) :
    Settles (do ExceptT.mk (return (← get).assertionConstraint i target)) T fun _ _ => True := by
  have hon : ∀ V, Building.on (do ExceptT.mk (return (← get).assertionConstraint i target)) V =
      (V.assertionConstraint i target, V) := fun _ => rfl
  refine ⟨⟨.refl, fun _ _ => trivial⟩, fun a U V hanswer hUV => ?_⟩
  rw [hon] at hanswer
  obtain ⟨ha, rfl⟩ := Prod.mk.inj hanswer
  have hlt := (hT.hasBuiltins.canonical_ofBool target).lt_size
  have hsame := hUV.grows.assignable_eq hT.descends hT.hasBuiltins hi.lt_size hlt
  rw [hon, assertionConstraint, hsame]
  rw [assertionConstraint] at ha
  -- the texts of an error may change, but there is none
  split at ha
  · rw [if_pos ‹_›, ha]
  · exact absurd ha (by simp)

/-- The constraint of a batch settles. -/
theorem settles_batchConstraint (target : Bool) (hT : T.Tidy) (hi : T.Canonical i) :
    (batchConstraint i target).Settles T fun _ _ => True := by
  have harray := settles_intern_canonical (T := T) (t := .array (TypeId.ofBool target) true) trivial
    (by simpa [Ty.parts] using hT.hasBuiltins.canonical_ofBool target)
  refine harray.lift.bind fun j U hTU hj => ?_
  have hU := hTU.tidy hT
  refine ⟨?_, fun a V W hon hVW => ?_⟩
  · -- a constraint that was met is met again, and one that was not ended the run
    refine Yields.get ?_
    split
    · exact .pure trivial
    · exact .throw
  · rw [on_get_bind] at hon
    split at hon
    · obtain ⟨ha, rfl⟩ : Except.ok () = Except.ok a ∧ U = V := Prod.mk.inj hon
      have hsame := hVW.grows.assignable_eq hU.descends hU.hasBuiltins
        (hTU.canonical hi).lt_size hj.lt_size
      rw [on_get_bind, hsame, if_pos ‹_›]
      rfl
    · have herror := (Prod.mk.inj hon).1
      exact absurd herror (by simp)

/-- Computations that agree where they are run agree over a list. -/
theorem run_mapM_congr {f g : α → Interning β} {xs : List α}
    (h : ∀ x ∈ xs, ∀ U, T.Builds U → (f x).run U = (g x).run U ∧ U.Builds ((f x).run U).2) :
    (xs.mapM f).run T = (xs.mapM g).run T := by
  induction xs generalizing T with
  | nil => rfl
  | cons x xs ih =>
    obtain ⟨hx, hb⟩ := h x List.mem_cons_self T .refl
    rw [List.mapM_cons, List.mapM_cons, StateT.run_bind, StateT.run_bind, ← hx]
    show StateT.run (xs.mapM f >>= _) _ = StateT.run (xs.mapM g >>= _) _
    rw [StateT.run_bind, StateT.run_bind, ih fun y hy U hU =>
      h y (List.mem_cons_of_mem x hy) U (hb.trans hU)]

/-- What is no union is not opened. -/
theorem run_elementTypeWithin_of_not_isUnion (d e : Nat) (h : T.isUnion i = false) :
    (elementTypeWithin (d + 1) i).run T = (elementTypeWithin (e + 1) i).run T := by
  simp only [elementTypeWithin, StateT.run_bind, StateT.run_get, pure_bind]
  split <;> first | rfl | skip
  simp_all [isUnion, Ty.isUnion]

/-- A canonical union has no unions among its members, so two levels open it to the end. -/
theorem run_elementTypeWithin_add_two (d e : Nat) (hb : T.HasBuiltins) (hi : T.Canonical i) :
    (elementTypeWithin (d + 2) i).run T = (elementTypeWithin (e + 2) i).run T := by
  rw [elementTypeWithin, elementTypeWithin]
  simp only [StateT.run_bind, StateT.run_get, pure_bind]
  split
  · rfl
  · rfl
  · rename_i ms hget
    rw [StateT.run_bind, StateT.run_bind]
    rw [run_mapM_congr fun m hm U hTU => ?_]
    have hm' : m ∈ T.alternatives i := by rw [TypeTable.alternatives, hget]; exact hm
    obtain ⟨hmc, hunion⟩ := hi.alternatives hm'
    refine ⟨run_elementTypeWithin_of_not_isUnion d e ?_, ?_⟩
    · rw [isUnion, hTU.grows.get?_eq hmc.lt_size]
      exact hunion
    · exact (yields_elementTypeWithin (d + 1) (hTU.hasBuiltins hb) (hTU.canonical hmc)).1
  · rfl
  · rfl
  · rfl

/-- The type of elements settles at any depth. -/
theorem settles_elementTypeWithin (depth : Nat) (hb : T.HasBuiltins) (hi : T.Canonical i) :
    (elementTypeWithin depth i).Settles T fun n U => U.Canonical n := by
  -- by induction on the depth; each member of an intersection settles on its own
  induction depth generalizing T i with
  | zero => exact .pure hb.canonical_unknown
  | succ depth ih =>
    rw [elementTypeWithin]
    refine .get (fun V hV => by rw [hV.grows.get?_eq hi.lt_size]) ?_
    split
    · rename_i es readonly hget
      exact settles_unionOf hb fun e he => hi.part hget he
    · rename_i e readonly hget
      exact .pure (hi.part hget List.mem_cons_self)
    · rename_i ms hget
      refine (Interning.settles_mapM (Q := fun _ n U => U.Canonical n) (fun m hm U hTU => ?_)
        fun _ _ _ _ hUV hn => hUV.canonical hn).bind fun ns U hTU hns => ?_
      · exact ih (hTU.hasBuiltins hb) (hTU.canonical (hi.part hget hm))
      · exact settles_unionOf (hTU.hasBuiltins hb) (forall_right_of_forall₂ hns fun _ _ hn => hn)
    · exact .pure hb.canonical_never
    · exact .pure hb.canonical_any
    · exact .pure hb.canonical_unknown

/-- The type of elements settles. -/
theorem settles_elementType (hb : T.HasBuiltins) (hi : T.Canonical i) :
    (elementType i).Settles T fun n U => U.Canonical n := by
  have hrun : ∀ V, T.Builds V → (elementType i).run V = (elementTypeWithin 2 i).run V := by
    intro V hV
    obtain ⟨depth, hdepth⟩ := V.exists_levelBound_eq
    show (elementTypeWithin V.levelBound i).run V = _
    rw [hdepth]
    exact run_elementTypeWithin_add_two depth 0 (hV.hasBuiltins hb) (hV.canonical hi)
  obtain ⟨hyields, hagain⟩ := settles_elementTypeWithin 2 hb hi
  refine ⟨yields_elementType hb hi, fun V hV => ?_⟩
  rw [hrun T .refl] at hV ⊢
  rw [hrun V (hyields.1.trans hV)]
  exact hagain V hV

/-- The outcome of a batch settles. -/
theorem settles_foldBatch (target : Bool) (hT : T.Tidy) (hi : T.Canonical i) :
    (foldBatch i target).Settles T fun _ _ => True := by
  refine (settles_elementType hT.hasBuiltins hi).lift.bind fun e U hTU he => ?_
  have hU := hTU.tidy hT
  refine (settles_equal hU.hasBuiltins he (hU.hasBuiltins.canonical_ofBool target)).bind
    fun matching V hUV _ => ?_
  have hiV := hUV.canonical (hTU.canonical hi)
  have hdescends := (hUV.tidy hU).descends
  refine Settles.ask (Q := fun _ _ => True) (fun W hVW => ?_) trivial
  rw [hVW.grows.isTuple_eq hdescends hiV.lt_size]

end TypeAssay
