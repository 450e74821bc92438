import TypeAssay.Proofs.Reachable

/-!
# Normal forms are fixed points

A constructor that is given the parts of a canonical node gives back that node: nothing is opened,
dropped, reordered or distributed. So normalizing a canonical type answers the type itself and
interns nothing (`on_normalize`), and the normal form of any type is a fixed point
(`normalize_fixed`).

The same fact read the other way says that clients can build every canonical node, so the tables
that they can reach are exactly those that come from interning canonical nodes
(`runs_iff_builds`).
-/

namespace TypeAssay

open TypeTable

/-! ## Unions and intersections -/

namespace TypeTable

variable {T : TypeTable} {i : TypeId} {t : Ty} {ms : List TypeId}

/-- The union of types that open to the members of a canonical union is that union. -/
theorem CanonicalUnion.run_unionOf_of_mem_iff {is : List TypeId} (h : T.CanonicalUnion ms)
    (hb : T.HasBuiltins) (his : ∀ a, a ∈ is.flatMap T.alternatives ↔ a ∈ ms) :
    (unionOf is).run T = T.intern (.union ms) := by
  have hany : TypeId.any ∉ is.flatMap T.alternatives := by
    rw [his]
    exact h.not_mem hb.any rfl
  have hunknown : TypeId.unknown ∉ is.flatMap T.alternatives := by
    rw [his]
    exact h.not_mem hb.unknown rfl
  rw [TypeAssay.run_unionOf, if_neg hany, if_neg hunknown, h.unionMembers_of_mem_iff hb his]
  match ms, h.two_le with
  | _ :: _ :: _, _ => rfl

/-- The union of the members of a canonical union is that union. -/
theorem CanonicalUnion.run_unionOf (h : T.CanonicalUnion ms) (hb : T.HasBuiltins) :
    (unionOf ms).run T = T.intern (.union ms) :=
  h.run_unionOf_of_mem_iff hb fun _ => by rw [h.flatMap_alternatives]

/-- The reduction leaves the members of a canonical intersection as they are. -/
theorem CanonicalIntersection.run_reduceConstraints (h : T.CanonicalIntersection ms)
    (hb : T.HasBuiltins) : (reduceConstraints ms).run T = T.intern (.intersection ms) := by
  rw [TypeAssay.run_reduceConstraints, h.coexist.conflict_eq_false hb h.ascending.nodup,
    if_neg (by decide), h.coexist.reducedConstraints_eq hb h.ascending]
  match ms, h.two_le with
  | _ :: _ :: _, _ => rfl

/-- The intersection of the members of a canonical intersection is that intersection. -/
theorem CanonicalIntersection.on_intersectionOf (h : T.CanonicalIntersection ms)
    (hb : T.HasBuiltins) :
    (intersectionOf ms).on T =
      (monadLift (TypeAssay.intern (.intersection ms)) : Building TypeId).on T := by
  -- no member is a union, so the choices are not gone through
  have hunion : ms.any T.isUnion = false := by
    refine List.any_eq_false.mpr fun m hm => ?_
    obtain ⟨t, ht, hcon⟩ := h.constraint m hm
    simp [isUnion_of_isAlternative ht (Ty.isAlternative_of_isConstraint hcon)]
  obtain ⟨depth, hdepth⟩ := TypeAssay.on_intersectionOf T ms
  rw [hdepth, on_intersectionStep, h.flatMap_constraints, if_neg (h.not_mem hb.never rfl),
    if_neg (h.not_mem hb.any rfl), h.openedMembers_eq hb, Building.on_lift]
  change _ = (Except.ok (T.intern (.intersection ms)).1, (T.intern (.intersection ms)).2)
  rw [← h.run_reduceConstraints hb]
  match ms, h.two_le with
  | _ :: _ :: _, _ =>
    dsimp only
    rw [hunion]
    rfl

end TypeTable

/-! ## Literals and objects -/

variable {T U V : TypeTable} {o : Options} {i n : TypeId} {t : Ty}

/-- A number that is kept is entered as it is. -/
theorem numberLiteral_of_isCanonical {x : Binary64} (h : (Literal.number x).IsCanonical) :
    numberLiteral x = monadLift (intern (.literal (.number x))) := by
  have hx : (if x.isZero then .zero else x) = x := by
    by_cases hzero : x.isZero
    · rw [if_pos hzero, h.2 hzero]
    · rw [if_neg hzero]
  rw [numberLiteral, h.1, hx]
  rfl

/-- The written form of a bigint that is canonical stays as it is. -/
theorem canonicalBigint?_eq_self {digits : String} (h : IsCanonicalBigint digits) :
    canonicalBigint? digits = some digits := by
  rcases h with rfl | ⟨d, ds, hd, hds, rfl | rfl⟩
  · decide
  · have hsplit := splitSign_of_digits (List.all_eq_true.mp hds)
    simp [canonicalBigint?, hsplit, hds, hd]
  · simp [canonicalBigint?, splitSign, hds, hd]

/-- A bigint that is kept is entered as it is. -/
theorem bigintLiteral_of_isCanonical {digits : String} (h : IsCanonicalBigint digits) :
    bigintLiteral digits = monadLift (intern (.literal (.bigint digits))) := by
  rw [bigintLiteral, canonicalBigint?_eq_self h]

/-- Properties in the order of their names stay in it. -/
theorem sortByName_eq_self {ps : List Property} (h : (ps.map (·.name)).Pairwise (· < ·)) :
    sortByName ps = ps := by
  induction ps with
  | nil => rfl
  | cons p ps ih =>
    obtain ⟨hp, hps⟩ := List.pairwise_cons.mp h
    have hsort : sortByName (p :: ps) = insertByName p (sortByName ps) := rfl
    rw [hsort, ih hps]
    cases ps with
    | nil => rfl
    | cons q qs => rw [insertByName, if_neg (lt_asymm (hp q.name (by simp)))]

/-- Names in ascending order are distinct. -/
theorem repeatedName?_eq_none {ps : List Property} (h : (ps.map (·.name)).Pairwise (· < ·)) :
    repeatedName? ps = none := by
  induction ps with
  | nil => rfl
  | cons p ps ih =>
    obtain ⟨hp, hps⟩ := List.pairwise_cons.mp h
    cases ps with
    | nil => rfl
    | cons q qs => rw [repeatedName?, if_neg (ne_of_lt (hp q.name (by simp))), ih hps]

/-- An object whose properties are in order is entered as it is. -/
theorem objectOf_of_pairwise {ps : List Property} (h : (ps.map (·.name)).Pairwise (· < ·)) :
    objectOf ps = monadLift (intern (.object ps)) := by
  rw [objectOf, sortByName_eq_self h, repeatedName?_eq_none h]

/-! ## Normal forms -/

/-- A computation over a list that gives back each element gives back the list. -/
theorem on_mapM_self {α : Type} {f : α → Building α} {xs : List α}
    (h : ∀ x ∈ xs, (f x).on T = (.ok x, T)) : (xs.mapM f).on T = (.ok xs, T) := by
  induction xs with
  | nil => rfl
  | cons x xs ih =>
    rw [List.mapM_cons, Building.on_bind_ok (h x List.mem_cons_self),
      Building.on_bind_ok (ih fun y hy => h y (List.mem_cons_of_mem x hy))]
    rfl

/-- Interning a node that is there answers its id. -/
theorem on_intern_of_get? (ht : T.get? i = some t) :
    (monadLift (intern t) : Building TypeId).on T = (.ok i, T) := by
  rw [Building.on_lift]
  change (Except.ok (T.intern t).1, (T.intern t).2) = _
  rw [intern_of_lookup (lookup_eq_some_iff.mpr ht)]

/-- Rebuilding a canonical node, when rebuilding its parts gives them back. -/
theorem on_normalizeStep {part : TypeId → Building TypeId} (hb : T.HasBuiltins)
    (ht : T.get? i = some t) (hc : T.CanonicalNode t)
    (hpart : ∀ j ∈ t.parts, (part j).on T = (.ok j, T)) :
    (normalizeStep part i t).on T = (.ok i, T) := by
  -- by the form of the node: its parts are normal already, and each constructor finds it there
  cases t with
  | any | never | unknown | primitive _ => rfl
  | literal l =>
    cases l with
    | string _ | boolean _ => rfl
    | number x => rw [normalizeStep, numberLiteral_of_isCanonical hc, on_intern_of_get? ht]
    | bigint digits => rw [normalizeStep, bigintLiteral_of_isCanonical hc, on_intern_of_get? ht]
  | union ms =>
    have hms : (ms.mapM part).on T = (.ok ms, T) := on_mapM_self hpart
    rw [normalizeStep, Building.on_bind_ok hms, Building.on_lift, hc.run_unionOf hb]
    exact on_intern_of_get? ht
  | intersection ms =>
    have hms : (ms.mapM part).on T = (.ok ms, T) := on_mapM_self hpart
    rw [normalizeStep, Building.on_bind_ok hms, hc.on_intersectionOf hb, on_intern_of_get? ht]
  | tuple es readonly =>
    have hes : (es.mapM part).on T = (.ok es, T) := on_mapM_self hpart
    rw [normalizeStep, Building.on_bind_ok hes]
    exact on_intern_of_get? ht
  | array e readonly =>
    rw [normalizeStep, Building.on_bind_ok (hpart e List.mem_cons_self)]
    exact on_intern_of_get? ht
  | object ps =>
    have hps : ∀ p ∈ ps, (do return { p with type := ← part p.type } : Building Property).on T =
        (.ok p, T) := by
      intro p hp
      rw [Building.on_bind_ok (hpart p.type (List.mem_map_of_mem (f := (·.type)) hp))]
      rfl
    rw [normalizeStep, Building.on_bind_ok (on_mapM_self hps), objectOf_of_pairwise hc,
      on_intern_of_get? ht]

/-- The normal form of a canonical type is the type. -/
theorem on_normalizeWithin {depth levels : Nat} (hi : T.NestsWithin depth i)
    (hdepth : depth ≤ levels) (hb : T.HasBuiltins) (hc : T.Canonical i) :
    (normalizeWithin levels i).on T = (.ok i, T) := by
  induction hi generalizing levels with
  | @node depth i t ht _ ih =>
    obtain ⟨levels, rfl⟩ : ∃ k, levels = k + 1 :=
      Nat.exists_eq_add_one.mpr (Nat.lt_of_lt_of_le (Nat.succ_pos depth) hdepth)
    rw [on_normalizeWithin_succ levels ht]
    exact on_normalizeStep hb ht (hc.canonicalNode ht) fun j hj =>
      ih j hj (Nat.le_of_succ_le_succ hdepth) (hc.part ht hj)

/-- A canonical type is its own normal form, and normalizing it interns nothing. -/
theorem on_normalize (hb : T.HasBuiltins) (hc : T.Canonical i) :
    (normalize i).on T = (.ok i, T) := by
  rw [normalize, Building.on_get_bind]
  exact on_normalizeWithin hc.founded.acyclic.nestsWithin_size (Nat.le_of_lt T.size_lt_levelBound)
    hb hc

/-- A canonical type has a canonical node. -/
theorem TypeTable.Canonical.exists_canonicalNode (h : T.Canonical i) :
    ∃ t, T.get? i = some t ∧ T.CanonicalNode t := by
  obtain ⟨ht, hc, _⟩ := h
  exact ⟨_, ht, hc⟩

/-- In any table that comes from a new one by interning nodes as they are, all that the normal form
of a type reaches is canonical, and normalizing it again, after whatever was interned since, answers
the same type and interns nothing. -/
theorem normalize_fixed (hT : Grows (withOptions o) T) (hi : T.Acyclic i)
    (hn : (normalize i).on T = (.ok n, U)) :
    (∀ j, U.Reaches n j → ∃ t, U.get? j = some t ∧ U.CanonicalNode t) ∧
      ∀ V, Grows U V → (normalize n).on V = (.ok n, V) := by
  have hb := hT.hasBuiltins (hasBuiltins_withOptions o)
  obtain ⟨hbuilds, hcanonical⟩ := normalize_yields hb hi
  rw [hn] at hbuilds hcanonical
  have hU := hbuilds.hasBuiltins hb
  have hn' : U.Canonical n := (hcanonical n rfl).1
  refine ⟨fun j hj => (hn'.of_reaches hj).exists_canonicalNode, fun V hUV => ?_⟩
  exact on_normalize (hUV.hasBuiltins hU) (hUV.canonical hn')

/-- The normal form of `never | number` stays `number` when more unions are interned. -/
theorem normalize_fixed_neverOrNumberTable :
    Grows (withOptions {}) neverOrNumberTable ∧ neverOrNumberTable.Acyclic 14 ∧
      (normalize 14).on neverOrNumberTable = (.ok TypeId.number, neverOrNumberTable) ∧
      (∀ j, neverOrNumberTable.Reaches TypeId.number j →
        ∃ t, neverOrNumberTable.get? j = some t ∧ neverOrNumberTable.CanonicalNode t) ∧
      (normalize TypeId.number).on (neverOrNumberTable.intern (.union [14, 14])).2 =
        (.ok TypeId.number, (neverOrNumberTable.intern (.union [14, 14])).2) := by
  have hgrows : Grows (withOptions {}) neverOrNumberTable := grows_intern _ _
  have hacyclic := acyclic_neverOrNumberTable
  obtain ⟨hcanonical, hfixed⟩ := normalize_fixed hgrows hacyclic normalize_neverOrNumberTable
  exact ⟨hgrows, hacyclic, normalize_neverOrNumberTable, hcanonical, hfixed _ (grows_intern _ _)⟩

/-! ## What clients can build -/

namespace TypeTable

variable {ms : List TypeId}

/-- One call interns a canonical node, unless it is there already. -/
theorem exists_call_intern (hb : T.HasBuiltins) (hc : T.CanonicalNode t) :
    (T.intern t).2 = T ∨ ∃ c : Call, c.arguments = t.parts ∧ (c.run.on T).2 = (T.intern t).2 := by
  have hbuiltin : ∀ {j}, T.get? j = some t → (T.intern t).2 = T := fun hj => by
    rw [intern_of_lookup (lookup_eq_some_iff.mpr hj)]
  have hsingle : ∀ m : Building TypeId,
      m.on T = (monadLift (TypeAssay.intern t) : Building TypeId).on T →
        (Building.on (do return [← m]) T).2 = (T.intern t).2 := by
    intro m hm
    rw [Building.on_lift] at hm
    rw [Building.on_bind_ok hm]
    rfl
  -- the constructor of each form enters the node itself
  cases t with
  | any => exact Or.inl (hbuiltin hb.any)
  | never => exact Or.inl (hbuiltin hb.never)
  | unknown => exact Or.inl (hbuiltin hb.unknown)
  | primitive p => exact Or.inr ⟨.primitive p, rfl, rfl⟩
  | literal l =>
    cases l with
    | boolean b => exact Or.inl (hbuiltin (hb.ofBool b))
    | string s => exact Or.inr ⟨.string s, rfl, rfl⟩
    | number x =>
      exact Or.inr ⟨.number x, rfl, hsingle _ (by rw [numberLiteral_of_isCanonical hc])⟩
    | bigint digits =>
      exact Or.inr ⟨.bigint digits, rfl, hsingle _ (by rw [bigintLiteral_of_isCanonical hc])⟩
  | union ms =>
    refine Or.inr ⟨.union ms, rfl, hsingle _ ?_⟩
    rw [Building.on_lift, hc.run_unionOf hb]
    rfl
  | intersection ms => exact Or.inr ⟨.intersection ms, rfl, hsingle _ (hc.on_intersectionOf hb)⟩
  | tuple es readonly => exact Or.inr ⟨.tuple es readonly, rfl, rfl⟩
  | array e readonly => exact Or.inr ⟨.array e readonly, rfl, rfl⟩
  | object ps => exact Or.inr ⟨.object ps, rfl, hsingle _ (by rw [objectOf_of_pairwise hc])⟩

/-- To enter a canonical node is a run. -/
theorem Runs.intern (h : Runs T U) (hU : U.Tidy) (hc : U.CanonicalNode t)
    (hp : ∀ j ∈ t.parts, j < U.size) : Runs T (U.intern t).2 := by
  rcases exists_call_intern hU.hasBuiltins hc with hsame | ⟨c, harguments, hrun⟩
  · rwa [hsame]
  · exact hrun ▸ h.call c (harguments ▸ hp)

/-- Nodes can be built one after the other if each is canonical when its turn comes. -/
theorem runs_withNodes_take {nodes : List Ty} (hnew : ∀ t ∈ nodes, t ∉ builtins)
    (hnodup : nodes.Nodup)
    (hc : ∀ k t, nodes[k]? = some t → (withNodes o (nodes.take k)).CanonicalNode t)
    (hp : ∀ k t, nodes[k]? = some t → ∀ j ∈ t.parts, j < builtins.length + k) (k : Nat) :
    Runs (withOptions o) (withNodes o (nodes.take k)) := by
  -- by induction on the nodes that are entered; each finds its parts among those before it
  induction k with
  | zero =>
    rw [List.take_zero, withNodes, List.foldl_nil]
    exact .refl
  | succ k ih =>
    rw [List.take_add_one]
    cases hk : nodes[k]? with
    | none => simpa using ih
    | some t =>
      have hlt : k < nodes.length := (List.getElem?_eq_some_iff.mp hk).1
      have hsize : (withNodes o (nodes.take k)).size = builtins.length + k := by
        rw [size, types_withNodes_take hnew hnodup, List.size_toArray, List.length_append,
          List.length_take, Nat.min_eq_left (Nat.le_of_lt hlt)]
      have happend : withNodes o (nodes.take k ++ [t]) =
          ((withNodes o (nodes.take k)).intern t).2 := by
        rw [withNodes, List.foldl_append]
        rfl
      rw [Option.toList_some, happend]
      refine ih.intern ih.tidy (hc k t hk) fun j hj => ?_
      rw [hsize]
      exact hp k t hk j hj

/-- Nodes that are canonical over any parts can be built one after the other. -/
theorem runs_withNodes {nodes : List Ty} (hnew : ∀ t ∈ nodes, t ∉ builtins) (hnodup : nodes.Nodup)
    (hc : ∀ t ∈ nodes, ∀ T : TypeTable, T.CanonicalNode t)
    (hp : ∀ k t, nodes[k]? = some t → ∀ j ∈ t.parts, j < builtins.length + k) :
    Runs (withOptions o) (withNodes o nodes) := by
  have hruns := runs_withNodes_take (o := o) hnew hnodup
    (fun k t hk => hc t (List.mem_of_getElem? hk) _) hp nodes.length
  rwa [List.take_length] at hruns

/-- The tables that clients can reach are those that come from a new one by interning canonical
nodes over canonical parts. -/
theorem runs_iff_builds : Runs (withOptions o) T ↔ Builds (withOptions o) T := by
  refine ⟨fun h => h.builds (tidy_withOptions o), fun h => ?_⟩
  induction h with
  | refl => exact .refl
  | intern h hc hp ih =>
    exact ih.intern (h.tidy (tidy_withOptions o)) hc fun j hj => (hp j hj).lt_size

end TypeTable

end TypeAssay
