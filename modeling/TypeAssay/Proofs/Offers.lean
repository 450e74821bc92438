import TypeAssay.Lattice.Assignable
import TypeAssay.Proofs.Growth

/-!
# What types offer to object types

The members that object types, strings and sequences offer, as the rules of assignability collect
them.
-/

namespace TypeAssay

/-- What a list of answers consists of, if each element has an answer. -/
theorem mem_of_mapM_eq_some {α β : Type} {f : α → Option β} {xs : List α} {ys : List β}
    (h : xs.mapM f = some ys) :
    (∀ y ∈ ys, ∃ x ∈ xs, f x = some y) ∧ ∀ x ∈ xs, ∃ y ∈ ys, f x = some y := by
  induction xs generalizing ys with
  | nil =>
    obtain rfl := Option.some.inj h
    simp
  | cons x xs ih =>
    rw [List.mapM_cons] at h
    obtain ⟨y, hy, h⟩ := Option.bind_eq_some_iff.mp h
    obtain ⟨ys', hys, h⟩ := Option.bind_eq_some_iff.mp h
    obtain rfl := Option.some.inj h
    obtain ⟨hright, hleft⟩ := ih hys
    refine ⟨fun z hz => ?_, fun z hz => ?_⟩
    · rcases List.mem_cons.mp hz with rfl | hz
      · exact ⟨x, List.mem_cons_self, hy⟩
      · obtain ⟨w, hw, hwz⟩ := hright z hz
        exact ⟨w, List.mem_cons_of_mem x hw, hwz⟩
    · rcases List.mem_cons.mp hz with rfl | hz
      · exact ⟨y, List.mem_cons_self, hy⟩
      · obtain ⟨w, hw, hwz⟩ := hleft z hz
        exact ⟨w, List.mem_cons_of_mem y hw, hwz⟩

/-- If each element of a list has an answer, the list has one. -/
theorem isSome_mapM {α β : Type} {f : α → Option β} {xs : List α}
    (h : ∀ x ∈ xs, (f x).isSome) : (xs.mapM f).isSome := by
  induction xs with
  | nil => rfl
  | cons x xs ih =>
    obtain ⟨y, hy⟩ := Option.isSome_iff_exists.mp (h x List.mem_cons_self)
    obtain ⟨ys, hys⟩ := Option.isSome_iff_exists.mp (ih fun z hz => h z (List.mem_cons_of_mem x hz))
    rw [List.mapM_cons, hy, hys]
    rfl

namespace TypeTable

variable {T U : TypeTable} {s i : TypeId}

/-- Only object types offer properties, and they offer their own. -/
theorem exists_object_of_offers? {os : List Offer} {p : Property} (h : T.offers? s = some os)
    (hp : .property p ∈ os) : ∃ ps, T.get? s = some (.object ps) ∧ p ∈ ps := by
  rw [offers?] at h
  cases ha : T.get? s with
  | none => simp [ha] at h
  | some a =>
    rw [ha] at h
    cases a with
    | object ps =>
      obtain rfl := Option.some.inj h
      obtain ⟨q, hq, hqp⟩ := List.mem_map.mp hp
      exact ⟨ps, rfl, Offer.property.inj hqp ▸ hq⟩
    | any | never | unknown | union _ | intersection _ => simp at h
    | array _ _ | tuple _ _ =>
      obtain rfl := Option.some.inj h
      simp at hp
    | literal l =>
      cases l with
      | string _ | number _ | bigint _ | boolean _ =>
        obtain rfl := Option.some.inj h
        simp at hp
    | primitive q =>
      simp only at h
      split at h
      · exact absurd h (by simp)
      · obtain rfl := Option.some.inj h
        split at hp <;> simp at hp

/-! ## Required members -/

/-- The type `s` offers the member `o`. -/
def Offers (T : TypeTable) (s : TypeId) (o : Offer) : Prop := ∃ os, T.offers? s = some os ∧ o ∈ os

variable {fits : TypeId → TypeId → Bool} {sources : List TypeId} {wanted : List Property}

/-- A required property is met if some member with its name is there for sure and some member with
its name has its type. -/
theorem meetsProperty_iff {offers : List Offer} {p : Property} (hp : p.optional = false) :
    -- `filter` collects the members with the name; none of them means that nothing is there for
    -- sure
    T.meetsProperty fits offers p ↔ (∃ o ∈ offers, o.name = p.name ∧ o.optional = false) ∧
      ∃ o ∈ offers, o.name = p.name ∧ fits (T.offerType o) p.type := by
  have hmem : ∀ o, o ∈ offers.filter (·.name = p.name) ↔ o ∈ offers ∧ o.name = p.name := by simp
  rw [meetsProperty]
  split
  · rename_i hnone
    rw [hp]
    refine iff_of_false (by decide) ?_
    rintro ⟨⟨o, ho, hname, -⟩, -⟩
    have hfound := (hmem o).mpr ⟨ho, hname⟩
    rw [hnone] at hfound
    exact absurd hfound List.not_mem_nil
  · simp only [hp, Bool.false_or, Bool.and_eq_true, List.any_eq_true, hmem, Bool.not_eq_true',
      and_assoc]

/-- An object type whose properties are required is met if all sources have members and for each
property one of them offers a member with its name for sure and one of them offers a member with its
name and its type. -/
theorem meetsShape_iff (hwanted : ∀ p ∈ wanted, p.optional = false) :
    T.meetsShape fits sources wanted ↔ (∀ s ∈ sources, (T.offers? s).isSome) ∧
      ∀ p ∈ wanted,
        (∃ s ∈ sources, ∃ o, T.Offers s o ∧ o.name = p.name ∧ o.optional = false) ∧
          ∃ s ∈ sources, ∃ o, T.Offers s o ∧ o.name = p.name ∧ fits (T.offerType o) p.type := by
  -- a source without members makes both sides false
  cases hoffers : sources.mapM T.offers? with
  | none =>
    refine iff_of_false (by simp [meetsShape, hoffers]) fun h => ?_
    have hsome := isSome_mapM h.1
    rw [hoffers] at hsome
    exact absurd hsome (by decide)
  | some offers =>
    obtain ⟨hright, hleft⟩ := mem_of_mapM_eq_some hoffers
    have hmem : ∀ P : Offer → Prop,
        (∃ o ∈ offers.flatten, P o) ↔ ∃ s ∈ sources, ∃ o, T.Offers s o ∧ P o := by
      intro P
      constructor
      · rintro ⟨o, ho, hP⟩
        obtain ⟨os, hos, ho⟩ := List.mem_flatten.mp ho
        obtain ⟨s, hs, hsos⟩ := hright os hos
        exact ⟨s, hs, o, ⟨os, hsos, ho⟩, hP⟩
      · rintro ⟨s, hs, o, ⟨os, hsos, ho⟩, hP⟩
        obtain ⟨os', hos', hsos'⟩ := hleft s hs
        obtain rfl := Option.some.inj (hsos.symm.trans hsos')
        exact ⟨o, List.mem_flatten.mpr ⟨os, hos', ho⟩, hP⟩
    have hsome : ∀ s ∈ sources, (T.offers? s).isSome := fun s hs => by
      obtain ⟨os, -, hos⟩ := hleft s hs
      rw [hos]
      rfl
    rw [meetsShape, hoffers, List.all_eq_true, and_iff_right hsome]
    refine forall₂_congr fun p hp => ?_
    rw [meetsProperty_iff (hwanted p hp), hmem, hmem]

/-- An object type whose properties are required is met by types that offer nothing optional if all
of them have members and for each property one of them offers a member with its name and its
type. -/
theorem meetsShape_iff_of_required (hwanted : ∀ p ∈ wanted, p.optional = false)
    (hsources : ∀ s ∈ sources, ∀ o, T.Offers s o → o.optional = false) :
    T.meetsShape fits sources wanted ↔ (∀ s ∈ sources, (T.offers? s).isSome) ∧
      ∀ p ∈ wanted, ∃ s ∈ sources, ∃ o, T.Offers s o ∧ o.name = p.name ∧
        fits (T.offerType o) p.type := by
  rw [meetsShape_iff hwanted]
  refine and_congr_right fun _ => forall₂_congr fun p _ => and_iff_right_iff_imp.mpr ?_
  rintro ⟨s, hs, o, ho, hname, -⟩
  exact ⟨s, hs, o, ho, hname, hsources s hs o ho⟩

end TypeTable

end TypeAssay
