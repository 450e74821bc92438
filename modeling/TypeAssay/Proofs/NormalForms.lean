import Mathlib.Data.String.Basic
import TypeAssay.Proofs.Readings

/-!
# Normal forms

Normalizing rebuilds a type from its parts upwards with the constructors. The nodes it meets may
have any form, so long as going down from the type ends: each constructor gets canonical parts that
have the values of the original ones, and what it gives is canonical and has the values of the node
(`normalizeWithin_yields`).
-/

namespace TypeAssay

open TypeTable

/-! ## Object types -/

/-- An insertion adds the one property and drops none. -/
theorem perm_insertByName (p : Property) (ps : List Property) :
    (insertByName p ps).Perm (p :: ps) := by
  induction ps with
  | nil => exact .refl _
  | cons q qs ih =>
    rw [insertByName]
    split
    · exact (ih.cons q).trans (.swap p q qs)
    · exact .refl _

/-- Sorting only changes the order of properties. -/
theorem perm_sortByName (ps : List Property) : (sortByName ps).Perm ps := by
  induction ps with
  | nil => exact .refl _
  | cons p ps ih => exact (perm_insertByName p _).trans (ih.cons p)

/-- An insertion keeps the order of names. -/
theorem pairwise_insertByName {p : Property} {ps : List Property}
    (h : ps.Pairwise (·.name ≤ ·.name)) : (insertByName p ps).Pairwise (·.name ≤ ·.name) := by
  induction ps with
  | nil => simp [insertByName]
  | cons q qs ih =>
    obtain ⟨hq, hqs⟩ := List.pairwise_cons.mp h
    rw [insertByName]
    -- the first name is below all others, before and behind the insertion
    split
    · rename_i hlt
      refine List.pairwise_cons.mpr ⟨fun r hr => ?_, ih hqs⟩
      rcases List.mem_cons.mp ((perm_insertByName p qs).subset hr) with rfl | hr
      · exact le_of_lt hlt
      · exact hq r hr
    · rename_i hge
      refine List.pairwise_cons.mpr ⟨fun r hr => ?_, h⟩
      rcases List.mem_cons.mp hr with rfl | hr
      · exact not_lt.mp hge
      · exact le_trans (not_lt.mp hge) (hq r hr)

/-- Sorted properties are in the order of their names. -/
theorem pairwise_sortByName (ps : List Property) :
    (sortByName ps).Pairwise (·.name ≤ ·.name) := by
  induction ps with
  | nil => exact .nil
  | cons p ps ih => exact pairwise_insertByName ih

/-- Sorted properties without a repeated name have ascending names. -/
theorem pairwise_name_of_repeatedName? {ps : List Property} (h : ps.Pairwise (·.name ≤ ·.name))
    (hrep : repeatedName? ps = none) : (ps.map (·.name)).Pairwise (· < ·) := by
  induction ps with
  | nil => exact .nil
  | cons p ps ih =>
    obtain ⟨hp, hps⟩ := List.pairwise_cons.mp h
    cases ps with
    | nil => simp
    | cons q rest =>
      rw [repeatedName?] at hrep
      split at hrep
      · exact absurd hrep (by simp)
      · rename_i hne
        have hpq : p.name < q.name := lt_of_le_of_ne (hp q List.mem_cons_self) hne
        refine List.pairwise_cons.mpr ⟨fun name hname => ?_, ih hps hrep⟩
        obtain ⟨r, hr, rfl⟩ := List.mem_map.mp hname
        rcases List.mem_cons.mp hr with rfl | hr
        · exact hpq
        · exact lt_of_lt_of_le hpq ((List.pairwise_cons.mp hps).1 r hr)

variable {T U V : TypeTable} {i n : TypeId} {t : Ty} {ps : List Property}

/-- An object type of canonical types is canonical and has the values that its properties describe,
in whatever order they were given. -/
theorem objectOf_yields (hb : T.HasBuiltins) (h : ∀ p ∈ ps, T.Canonical p.type) :
    (objectOf ps).Yields T fun n U => U.Canonical n ∧ n ≠ TypeId.any ∧
      ∀ v, U.Inhabits v n ↔ (Ty.object ps).Accepts T.Inhabits v := by
  rw [objectOf]
  split
  · exact Building.Yields.throw
  · rename_i hrep
    have hparts : ∀ j ∈ (Ty.object (sortByName ps)).parts, T.Canonical j := by
      intro j hj
      obtain ⟨p, hp, rfl⟩ := List.mem_map.mp hj
      exact h p ((perm_sortByName ps).subset hp)
    have hnode : T.CanonicalNode (.object (sortByName ps)) :=
      pairwise_name_of_repeatedName? (pairwise_sortByName ps) hrep
    refine (intern_yields hb (by simp) hnode hparts).lift.mono ?_
    rintro n U - ⟨hn, hne, hv⟩
    refine ⟨hn, hne, fun v => (hv v).trans ?_⟩
    refine and_congr_right fun _ => forall_congr' fun p => ?_
    rw [(perm_sortByName ps).mem_iff]

/-! ## One node -/

/-- What normalizing promises: a canonical type, and where `free` says that `any` is not met, one
other than `any` with the values of the original. -/
def Renders (free : Prop) (T : TypeTable) (i n : TypeId) (U : TypeTable) : Prop :=
  U.Canonical n ∧ (free → n ≠ TypeId.any ∧ ∀ v, U.Inhabits v n ↔ T.Inhabits v i)

/-- A normal form stays one while types are built. -/
theorem Renders.builds {free : Prop} (h : Renders free T i n U) (hUV : U.Builds V) :
    Renders free T i n V := by
  refine ⟨hUV.canonical h.1, fun hfree => ⟨(h.2 hfree).1, fun v => ?_⟩⟩
  rw [h.1.founded.inhabits_grows hUV.grows, (h.2 hfree).2]

/-- A promise under a weaker condition is one under a stronger condition. -/
theorem Renders.mono {free free' : Prop} (h : Renders free T i n U) (hf : free' → free) :
    Renders free' T i n U :=
  ⟨h.1, fun hfree => h.2 (hf hfree)⟩

/-- What normalizing promises of a property: it keeps its name and stays as optional as it was. -/
structure RendersProperty (free : Prop) (T : TypeTable) (p q : Property) (U : TypeTable) :
    Prop where
  name : q.name = p.name
  optional : q.optional = p.optional
  type : Renders free T p.type q.type U

/-- What is promised of a property stays true while types are built. -/
theorem RendersProperty.builds {free : Prop} {p q : Property} (h : RendersProperty free T p q U)
    (hUV : U.Builds V) : RendersProperty free T p q V :=
  ⟨h.name, h.optional, h.type.builds hUV⟩

/-- Only `any` has the id of `any`. -/
theorem ne_any_of_get? (hb : T.HasBuiltins) (ht : T.get? i = some t) (hne : t ≠ .any) :
    i ≠ TypeId.any := by
  rintro rfl
  exact hne (Option.some.inj (ht.symm.trans hb.any))

/-! ### The parts of a node -/

section

variable {free : Prop} {ms ns : List TypeId} {part : TypeId → Building TypeId}

/-- Normal forms are canonical. -/
theorem canonical_of_renders (h : List.Forall₂ (fun m n => Renders free T m n U) ms ns) :
    ∀ n ∈ ns, U.Canonical n :=
  forall_right_of_forall₂ h fun _ _ hn => hn.1

/-- Where `any` is not met, no normal form is `any`. -/
theorem any_not_mem_of_renders (hfree : free)
    (h : List.Forall₂ (fun m n => Renders free T m n U) ms ns) : TypeId.any ∉ ns :=
  fun hany => forall_right_of_forall₂ h (fun _ _ hn => (hn.2 hfree).1) _ hany rfl

/-- Elements that correspond have the same lists of values. -/
theorem forall₂_inhabits_iff (hfree : free)
    (h : List.Forall₂ (fun m n => Renders free T m n U) ms ns) {vs : List Value} :
    List.Forall₂ U.Inhabits vs ns ↔ List.Forall₂ T.Inhabits vs ms := by
  induction h generalizing vs with
  | nil => simp
  | cons hmn _ ih =>
    simp only [List.forall₂_cons_right_iff, (hmn.2 hfree).2, ih]

/-- Properties that correspond ask for the same members. -/
theorem accepts_object_iff {ps qs : List Property} (hfree : free)
    (h : List.Forall₂ (fun p q => RendersProperty free T p q U) ps qs) (v : Value) :
    (Ty.object qs).Accepts U.Inhabits v ↔ (Ty.object ps).Accepts T.Inhabits v := by
  refine and_congr_right fun _ => forall_iff_of_forall₂ h fun p q hq => ?_
  rw [hq.name, hq.optional]
  cases v.member? p.name with
  | some w => exact (hq.type.2 hfree).2 w
  | none => rfl

/-- Normalizing each of some types gives their normal forms. -/
theorem yields_normalizeAll
    (hpart : ∀ m ∈ ms, ∀ V, U.Builds V → (part m).Yields V (Renders free T m)) :
    (ms.mapM part).Yields U fun ns V => List.Forall₂ (fun m n => Renders free T m n V) ms ns :=
  Building.yields_mapM hpart fun _ _ _ _ hVW hn => hn.builds hVW

/-- Normalizing the types of properties keeps everything else about them. -/
theorem yields_normalizeProperties {ps : List Property}
    (hpart : ∀ p ∈ ps, ∀ V, U.Builds V → (part p.type).Yields V (Renders free T p.type)) :
    (ps.mapM fun p => do return { p with type := ← part p.type } : Building _).Yields U fun qs V =>
      List.Forall₂ (fun p q => RendersProperty free T p q V) ps qs := by
  refine Building.yields_mapM (fun p hp V hUV => ?_) fun p q V W hVW hq => hq.builds hVW
  exact (hpart p hp V hUV).bind fun n W _ hn => .pure ⟨rfl, rfl, hn⟩

/-- Two literals that stand for the same cores have the same values. -/
theorem renders_literal {l l' : Literal} (hb : U.HasBuiltins) (hi : T.get? i = some (.literal l))
    (hn : U.Canonical n) (hget : U.get? n = some (.literal l'))
    (hl : ∀ c : Core Value, c.isLiteral l' = c.isLiteral l) : Renders free T i n U := by
  refine ⟨hn, fun _ => ⟨ne_any_of_get? hb hget (by simp), fun v => ?_⟩⟩
  rw [inhabits_iff hget, inhabits_iff hi, Ty.Accepts, Ty.Accepts, hl]

/-! ### The node itself -/

/-- Rebuilding one node, when its parts are rebuilt by `part`. -/
theorem normalizeStep_yields (hb : U.HasBuiltins) (hTU : Grows T U) (ht : T.get? i = some t)
    (hi : T.Founded i) (hany : free → i ≠ TypeId.any)
    (hpart : ∀ j ∈ t.parts, ∀ V, U.Builds V → (part j).Yields V (Renders free T j)) :
    (normalizeStep part i t).Yields U (Renders free T i) := by
  -- a leaf is left as it is, and is canonical as soon as its node is
  have hsame : U.CanonicalNode t → t.parts = [] →
      (pure i : Building TypeId).Yields U (Renders free T i) := by
    intro hc hp
    refine .pure ⟨canonical_of_leaf (hTU.get? ht) hc hp, fun hfree => ?_⟩
    exact ⟨hany hfree, hi.inhabits_grows hTU⟩
  have hiff := fun v => inhabits_iff (v := v) ht
  cases t with
  | any | never | unknown | primitive _ => exact hsame trivial rfl
  | literal l =>
    cases l with
    | string _ | boolean _ => exact hsame trivial rfl
    | number x =>
      refine (numberLiteral_yields x).mono ?_
      rintro n V hUV ⟨hn, y, hget, hy⟩
      refine renders_literal (hUV.hasBuiltins hb) ht hn hget fun c => ?_
      cases c <;> simp [Core.isLiteral, hy]
    | bigint digits =>
      refine (bigintLiteral_yields digits).mono ?_
      rintro n V hUV ⟨hn, c, hget, hc⟩
      refine renders_literal (hUV.hasBuiltins hb) ht hn hget fun c => ?_
      cases c <;> simp [Core.isLiteral, hc]
  | union ms =>
    refine (yields_normalizeAll hpart).bind fun ns V hUV hns => ?_
    refine (unionOf_yields (hUV.hasBuiltins hb) (canonical_of_renders hns)).lift.mono ?_
    rintro n W - ⟨hn, hne, hv⟩
    refine ⟨hn, fun hfree => ⟨hne (any_not_mem_of_renders hfree hns), fun v => ?_⟩⟩
    rw [hv, hiff]
    exact exists_iff_of_forall₂ hns fun m n hn => (hn.2 hfree).2 v
  | intersection ms =>
    refine (yields_normalizeAll hpart).bind fun ns V hUV hns => ?_
    refine (intersectionOf_yields (hUV.hasBuiltins hb) (canonical_of_renders hns)).mono ?_
    rintro n W - ⟨hn, hmeets⟩
    refine ⟨hn, fun hfree => ?_⟩
    obtain ⟨hne, hv⟩ := hmeets (any_not_mem_of_renders hfree hns)
    refine ⟨hne, fun v => ?_⟩
    rw [hv, hiff]
    exact forall_iff_of_forall₂ hns fun m n hn => (hn.2 hfree).2 v
  | tuple es readonly =>
    have hes : ∀ e ∈ es, ∀ V, U.Builds V → (part e).Yields V (Renders free T e) := hpart
    refine (yields_normalizeAll hes).bind fun ns V hUV hns => ?_
    refine (intern_yields (hUV.hasBuiltins hb) (t := .tuple ns readonly) (by simp) trivial
      (canonical_of_renders hns)).lift.mono ?_
    rintro n W - ⟨hn, hne, hv⟩
    refine ⟨hn, fun hfree => ⟨hne, fun v => ?_⟩⟩
    rw [hv, hiff]
    simp only [Ty.Accepts, forall₂_inhabits_iff hfree hns]
  | array e readonly =>
    refine (hpart e List.mem_cons_self U .refl).bind fun n V hUV hn => ?_
    refine (intern_yields (hUV.hasBuiltins hb) (t := .array n readonly) (by simp) trivial
      (by simpa [Ty.parts] using hn.1)).lift.mono ?_
    rintro m W - ⟨hm, hne, hv⟩
    refine ⟨hm, fun hfree => ⟨hne, fun v => ?_⟩⟩
    rw [hv, hiff]
    simp only [Ty.Accepts, (hn.2 hfree).2]
  | object ps =>
    have hps : ∀ p ∈ ps, ∀ V, U.Builds V → (part p.type).Yields V (Renders free T p.type) :=
      fun p hp => hpart p.type (List.mem_map_of_mem hp)
    refine (yields_normalizeProperties hps).bind fun qs V hUV hqs => ?_
    have hcanonical := forall_right_of_forall₂ hqs fun _ _ hq => hq.type.1
    refine (objectOf_yields (hUV.hasBuiltins hb) hcanonical).mono ?_
    rintro n W - ⟨hn, hne, hv⟩
    refine ⟨hn, fun hfree => ⟨hne, fun v => ?_⟩⟩
    rw [hv, hiff]
    exact accepts_object_iff hfree hqs v

end

/-! ## All levels -/

/-- Normalizing with enough levels for a type gives its normal form. -/
theorem normalizeWithin_yields {depth levels : Nat} (hi : T.NestsWithin depth i)
    (hdepth : depth ≤ levels) (hb : U.HasBuiltins) (hTU : Grows T U) :
    (normalizeWithin levels i).Yields U (Renders (¬ T.Reaches i TypeId.any) T i) := by
  -- by induction on how deep the type nests; each level uses up one of those allowed
  induction hi generalizing levels U with
  | @node depth i t ht hparts ih =>
    obtain ⟨levels, rfl⟩ : ∃ k, levels = k + 1 :=
      Nat.exists_eq_add_one.mpr (Nat.lt_of_lt_of_le (Nat.succ_pos depth) hdepth)
    have hfounded : T.Founded i := (NestsWithin.node ht hparts).founded
    rw [normalizeWithin]
    refine Building.Yields.get ?_
    rw [hTU.get? ht]
    refine normalizeStep_yields hb hTU ht hfounded ?_ fun j hj V hUV => ?_
    · rintro hfree rfl
      exact hfree .refl
    · have hj' := ih j hj (Nat.le_of_succ_le_succ hdepth) (hUV.hasBuiltins hb)
        (hTU.trans hUV.grows)
      exact hj'.mono fun n W _ hn => hn.mono fun hfree hany => hfree (.of_part ht hj hany)

/-- Normalizing a type without circles and without dangling ids gives a canonical type, and one with
the same values when the original does not reach `any`. -/
theorem normalize_yields (hb : T.HasBuiltins) (hi : T.Acyclic i) :
    (normalize i).Yields T (Renders (¬ T.Reaches i TypeId.any) T i) := by
  rw [normalize]
  refine Building.Yields.get ?_
  exact normalizeWithin_yields hi.nestsWithin_size (Nat.le_of_lt T.size_lt_levelBound) hb .refl

/-! ## Meaning -/

/-- Normalization preserves meaning: in any table that comes from a new one by interning nodes as
they are, the normal form of a type has exactly the values of the type. -/
theorem inhabits_normalize_iff {o : Options} (hT : Grows (withOptions o) T) (hi : T.Acyclic i)
    (hany : ¬ T.Reaches i TypeId.any) (hn : (normalize i).on T = (.ok n, U)) (v : Value) :
    U.Inhabits v n ↔ T.Inhabits v i := by
  have hyields := (normalize_yields (hT.hasBuiltins (hasBuiltins_withOptions o)) hi).2
  rw [hn] at hyields
  exact ((hyields n rfl).2 hany).2 v

/-! ### A union that is not canonical -/

/-- One level rebuilds the node from parts that are normalized one level down. -/
theorem on_normalizeWithin_succ (depth : Nat) (ht : T.get? i = some t) :
    (normalizeWithin (depth + 1) i).on T = (normalizeStep (normalizeWithin depth) i t).on T := by
  rw [normalizeWithin, Building.on_get_bind, ht]

/-- A table with the union of `never` and `number`, interned as it is. -/
def neverOrNumberTable : TypeTable :=
  ((withOptions {}).intern (.union [TypeId.never, TypeId.number])).2

/-- The table has the built-in types. -/
theorem hasBuiltins_neverOrNumberTable : neverOrNumberTable.HasBuiltins :=
  (grows_intern _ _).hasBuiltins (hasBuiltins_withOptions {})

/-- The union has the first id behind the built-in types. -/
theorem get?_neverOrNumberTable :
    neverOrNumberTable.get? 14 = some (.union [TypeId.never, TypeId.number]) :=
  get?_intern_withOptions (by decide)

/-- Of the union only `number` is left. -/
theorem normalize_neverOrNumberTable :
    (normalize 14).on neverOrNumberTable = (.ok TypeId.number, neverOrNumberTable) := by
  have hb := hasBuiltins_neverOrNumberTable
  obtain ⟨depth, hdepth⟩ := neverOrNumberTable.exists_levelBound_eq
  have hnever : (normalizeWithin (depth + 1) TypeId.never).on neverOrNumberTable =
      (.ok TypeId.never, neverOrNumberTable) := on_normalizeWithin_succ depth hb.never
  have hnumber : (normalizeWithin (depth + 1) TypeId.number).on neverOrNumberTable =
      (.ok TypeId.number, neverOrNumberTable) :=
    on_normalizeWithin_succ depth (hb.primitive .number)
  change (normalizeWithin neverOrNumberTable.levelBound 14).on neverOrNumberTable = _
  rw [hdepth, on_normalizeWithin_succ _ get?_neverOrNumberTable, normalizeStep, List.mapM_cons,
    List.mapM_cons, List.mapM_nil]
  simp only [bind_assoc, pure_bind]
  rw [Building.on_bind_ok hnever, Building.on_bind_ok hnumber]
  have hnumber' : neverOrNumberTable.get? TypeId.number = some (.primitive .number) :=
    hb.primitive .number
  have hflat : [TypeId.never, TypeId.number].flatMap neverOrNumberTable.alternatives =
      [TypeId.never, TypeId.number] := by
    simp [alternatives, hb.never, hnumber']
  have hmembers : neverOrNumberTable.unionMembers [TypeId.never, TypeId.number] =
      [TypeId.number] := by
    simp [unionMembers, isSubsumed, literalBase?, hnumber', Ty.literal?, ascending, insertAscending]
  have hunion : (unionOf [TypeId.never, TypeId.number]).run neverOrNumberTable =
      (TypeId.number, neverOrNumberTable) := by
    simp only [unionOf, StateT.run_bind, StateT.run_get, pure_bind, hflat, hmembers]
    rfl
  change (Except.ok ((unionOf _).run neverOrNumberTable).1, ((unionOf _).run _).2) = _
  rw [hunion]

/-- The union reaches `never`, `number` and itself. -/
theorem not_reaches_any_neverOrNumberTable : ¬ neverOrNumberTable.Reaches 14 TypeId.any := by
  have hb := hasBuiltins_neverOrNumberTable
  intro hany
  rcases hany.eq_or_part get?_neverOrNumberTable with h | ⟨k, hk, h⟩
  · exact absurd h (by decide)
  · have hk' : k = TypeId.never ∨ k = Primitive.number.id := by
      simpa [Ty.parts, Primitive.id] using hk
    rcases hk' with rfl | rfl
    · exact absurd (h.eq_of_leaf hb.never rfl) (by decide)
    · exact absurd (hb.eq_of_reaches_primitive h) (by decide)

/-- The union refers to smaller ids. -/
theorem acyclic_neverOrNumberTable : neverOrNumberTable.Acyclic 14 := by
  have hdescends : neverOrNumberTable.Descends := by
    refine (descends_withOptions {}).intern ?_
    rw [size_withOptions]
    decide
  exact hdescends.acyclic (lt_size_of_get? get?_neverOrNumberTable)

/-- The normal form of the union is `number`, so a number is a value of both. -/
theorem inhabits_normalize_neverOrNumber :
    Grows (withOptions {}) neverOrNumberTable ∧ neverOrNumberTable.Acyclic 14 ∧
      ¬ neverOrNumberTable.Reaches 14 TypeId.any ∧
      (normalize 14).on neverOrNumberTable = (.ok TypeId.number, neverOrNumberTable) ∧
      (neverOrNumberTable.Inhabits (.ofNat 1) TypeId.number ↔
        neverOrNumberTable.Inhabits (.ofNat 1) 14) := by
  have hgrows : Grows (withOptions {}) neverOrNumberTable := grows_intern _ _
  have hacyclic : neverOrNumberTable.Acyclic 14 := acyclic_neverOrNumberTable
  refine ⟨hgrows, hacyclic, not_reaches_any_neverOrNumberTable, normalize_neverOrNumberTable, ?_⟩
  exact inhabits_normalize_iff hgrows hacyclic not_reaches_any_neverOrNumberTable
    normalize_neverOrNumberTable (.ofNat 1)

end TypeAssay
