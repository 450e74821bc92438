import Mathlib.Data.List.Sort
import TypeAssay.Proofs.Computation

/-!
# The canonical union

`unionOf` of canonical types is canonical, and it is known which type it is: `any` or `unknown` if
one of them is among the members, opened, and else the type that consists of the members that are
kept (`unionOf_isUnionOf`). `IsUnionOf` says that of an id in a table, so it does not matter in what
order things were interned or what came later.

* `mem_unionMembers` : the members that are kept.
* `Canonical.isUnionOf` : a canonical type is the union of what it is opened to.
-/

namespace TypeAssay

namespace TypeTable

variable {T U : TypeTable} {i a m n : TypeId} {t : Ty} {ms flat : List TypeId}

/-! ## Alternatives -/

/-- A canonical type that is opened gives types that are canonical and no unions. -/
theorem Canonical.alternatives (hm : T.Canonical m) (ha : a ∈ T.alternatives m) :
    T.Canonical a ∧ T.isUnion a = false := by
  rw [TypeTable.alternatives] at ha
  split at ha
  · rename_i ms hget
    obtain ⟨t, ht, halt⟩ := (hm.canonicalNode hget).alternative a ha
    refine ⟨hm.part hget ha, ?_⟩
    cases t <;> simp_all [isUnion, Ty.isUnion, Ty.isAlternative]
  · rename_i hunion
    obtain rfl := List.mem_singleton.mp ha
    refine ⟨hm, ?_⟩
    cases hget : T.get? a with
    | none => simp [isUnion, hget]
    | some t =>
      cases t <;> simp_all [isUnion, Ty.isUnion]

/-- What canonical members are opened to is canonical and no union. -/
theorem canonical_of_mem_alternatives (h : ∀ m ∈ ms, T.Canonical m)
    (ha : a ∈ ms.flatMap T.alternatives) : T.Canonical a ∧ T.isUnion a = false := by
  obtain ⟨m, hm, ha⟩ := List.mem_flatMap.mp ha
  exact (h m hm).alternatives ha

/-- Canonical members other than `any` are not `any` after they are opened. -/
theorem Canonical.any_mem_alternatives (hb : T.HasBuiltins) (hm : T.Canonical m)
    (ha : TypeId.any ∈ T.alternatives m) : m = TypeId.any := by
  rw [TypeTable.alternatives] at ha
  split at ha
  · rename_i ms hget
    obtain ⟨t, ht, halt⟩ := (hm.canonicalNode hget).alternative _ ha
    obtain rfl := Option.some.inj (hb.any.symm.trans ht)
    exact absurd halt (by decide)
  · exact (List.mem_singleton.mp ha).symm

/-- After canonical members are opened, `any` is among them only if it was before. -/
theorem any_mem_of_mem_alternatives (hb : T.HasBuiltins) (h : ∀ m ∈ ms, T.Canonical m)
    (ha : TypeId.any ∈ ms.flatMap T.alternatives) : TypeId.any ∈ ms := by
  obtain ⟨m, hm, ha⟩ := List.mem_flatMap.mp ha
  exact (h m hm).any_mem_alternatives hb ha ▸ hm

/-- A type that is neither a union nor absorbed is an alternative of a canonical union. -/
theorem Canonical.isAlternative (hb : T.HasBuiltins) (h : T.Canonical a)
    (hunion : T.isUnion a = false) (hany : a ≠ TypeId.any) (hunknown : a ≠ TypeId.unknown)
    (hnever : a ≠ TypeId.never) : ∃ t, T.get? a = some t ∧ t.isAlternative := by
  obtain ⟨t, ht⟩ := exists_get?_of_lt_size h.lt_size
  refine ⟨t, ht, ?_⟩
  cases t with
  | any => exact absurd (get?_injective ht hb.any) hany
  | unknown => exact absurd (get?_injective ht hb.unknown) hunknown
  | never => exact absurd (get?_injective ht hb.never) hnever
  | union ms => simp [isUnion, ht, Ty.isUnion] at hunion
  | primitive _ | literal _ | intersection _ | tuple _ _ | array _ _ | object _ => rfl

/-- A type that is no union is its one alternative. -/
theorem alternatives_of_not_union (h : T.isUnion i = false) : T.alternatives i = [i] := by
  rw [alternatives]
  split
  · rename_i hget
    simp [isUnion, hget, Ty.isUnion] at h
  · rfl

/-- A union has a union as its node. -/
theorem exists_get?_of_isUnion (h : T.isUnion i) : ∃ ms, T.get? i = some (.union ms) := by
  obtain ⟨t, ht, hunion⟩ := (Option.any_eq_true _ _).mp h
  cases t with
  | union ms => exact ⟨ms, ht⟩
  | _ => exact absurd hunion Bool.false_ne_true

/-- What can be an alternative is no union. -/
theorem isUnion_of_isAlternative (ht : T.get? i = some t) (halt : t.isAlternative) :
    T.isUnion i = false := by
  rw [isUnion, ht]
  cases t <;> first | rfl | exact absurd halt Bool.false_ne_true

/-- What cannot be an alternative is no member of a canonical union. -/
theorem CanonicalUnion.not_mem (h : T.CanonicalUnion ms) (ht : T.get? i = some t)
    (halt : t.isAlternative = false) : i ∉ ms := by
  intro hi
  obtain ⟨u, hu, hualt⟩ := h.alternative i hi
  obtain rfl := Option.some.inj (ht.symm.trans hu)
  rw [halt] at hualt
  exact absurd hualt (by decide)

/-- The alternatives of canonical types are not opened any further. -/
theorem flatMap_alternatives_eq_self (h : ∀ m ∈ ms, T.isUnion m = false) :
    ms.flatMap T.alternatives = ms := by
  calc ms.flatMap T.alternatives
      = ms.flatMap fun m => [m] := List.flatMap_congr fun m hm => alternatives_of_not_union (h m hm)
    _ = ms := List.flatMap_singleton' ms

/-- The members of a canonical union are not opened any further. -/
theorem CanonicalUnion.flatMap_alternatives (h : T.CanonicalUnion ms) :
    ms.flatMap T.alternatives = ms := by
  refine flatMap_alternatives_eq_self fun m hm => ?_
  obtain ⟨t, ht, halt⟩ := h.alternative m hm
  exact isUnion_of_isAlternative ht halt

/-! ## Members -/

/-- The id of a primitive is seen to be one. -/
theorem HasBuiltins.primitive?_id (hb : T.HasBuiltins) (p : Primitive) :
    T.primitive? p.id = some p := by
  simp [primitive?, hb.primitive p, Ty.primitive?]

/-- What is seen to be a primitive has it as its node. -/
theorem get?_of_primitive? {p : Primitive} (h : T.primitive? a = some p) :
    T.get? a = some (.primitive p) := by
  obtain ⟨t, ht, hp⟩ := Option.bind_eq_some_iff.mp h
  cases t <;> simp_all [Ty.primitive?]

/-- Only literals widen to a primitive. -/
theorem exists_get?_of_literalBase? {p : Primitive} (h : T.literalBase? a = some p) :
    ∃ l, T.get? a = some (.literal l) ∧ l.base? = some p := by
  obtain ⟨l, hl, hp⟩ := Option.bind_eq_some_iff.mp h
  obtain ⟨t, ht, hl⟩ := Option.bind_eq_some_iff.mp hl
  cases t <;> simp_all [Ty.literal?]

/-- Members are kept unless they are `never`, or literals next to their own primitive. -/
theorem mem_unionMembers (hb : T.HasBuiltins) : a ∈ T.unionMembers flat ↔
    a ∈ flat ∧ a ≠ TypeId.never ∧ ∀ p, T.literalBase? a = some p → p.id ∉ flat := by
  have hprim : ∀ p : Primitive,
      p ∈ (flat.filter (· ≠ TypeId.never)).filterMap T.primitive? ↔ p.id ∈ flat := by
    intro p
    rw [List.mem_filterMap]
    constructor
    · rintro ⟨b, hbm, hbp⟩
      exact hb.eq_id (get?_of_primitive? hbp) ▸ List.mem_of_mem_filter hbm
    · intro hp
      refine ⟨p.id, List.mem_filter.mpr ⟨hp, ?_⟩, hb.primitive?_id p⟩
      cases p <;> rfl
  have hsub : T.isSubsumed ((flat.filter (· ≠ TypeId.never)).filterMap T.primitive?) a = false ↔
      ∀ p, T.literalBase? a = some p → p.id ∉ flat := by
    rw [isSubsumed]
    cases T.literalBase? a with
    | none => simp
    | some p => simp [← hprim]
  rw [← hsub]
  simp only [unionMembers, mem_ascending, List.mem_filter, decide_eq_true_eq, Bool.not_eq_true',
    and_assoc]

/-- What is dropped of a union is `never`, or a literal whose primitive is kept. -/
theorem mem_unionMembers_or_base (hb : T.HasBuiltins) (ha : a ∈ flat) (hnever : a ≠ TypeId.never) :
    a ∈ T.unionMembers flat ∨ ∃ l p, T.get? a = some (.literal l) ∧ l.base? = some p ∧
      p.id ∈ T.unionMembers flat := by
  by_cases hkept : ∀ p, T.literalBase? a = some p → p.id ∉ flat
  · -- it is dropped, so its primitive is there, and that one is no literal and not dropped
    exact Or.inl ((mem_unionMembers hb).mpr ⟨ha, hnever, hkept⟩)
  · simp only [not_forall, not_not] at hkept
    obtain ⟨p, hbase, hmem⟩ := hkept
    obtain ⟨l, hl, hlp⟩ := exists_get?_of_literalBase? hbase
    refine Or.inr ⟨l, p, hl, hlp, (mem_unionMembers hb).mpr ⟨hmem, ?_, fun q hq => ?_⟩⟩
    · cases p <;> decide
    · obtain ⟨l', hl', -⟩ := exists_get?_of_literalBase? hq
      exact absurd ((hb.primitive p).symm.trans hl') (by simp)

/-- Members that nothing absorbs form a canonical union once they are cleaned up. -/
theorem canonicalUnion_unionMembers (hb : T.HasBuiltins)
    (hflat : ∀ a ∈ flat, T.Canonical a ∧ T.isUnion a = false) (hany : TypeId.any ∉ flat)
    (hunknown : TypeId.unknown ∉ flat) (htwo : 2 ≤ (T.unionMembers flat).length) :
    T.CanonicalUnion (T.unionMembers flat) := by
  refine ⟨htwo, pairwise_ascending _, fun m hm => ?_, fun m hm p hp hmem => ?_⟩
  · obtain ⟨hm, hnever, -⟩ := (mem_unionMembers hb).mp hm
    obtain ⟨hcanonical, hunion⟩ := hflat m hm
    exact hcanonical.isAlternative hb hunion (fun h => hany (h ▸ hm))
      (fun h => hunknown (h ▸ hm)) hnever
  · exact ((mem_unionMembers hb).mp hm).2.2 p hp ((mem_unionMembers hb).mp hmem).1

/-- The members of a canonical union are all kept, in whatever order they come. -/
theorem CanonicalUnion.unionMembers_of_mem_iff (h : T.CanonicalUnion ms) (hb : T.HasBuiltins)
    (hflat : ∀ a, a ∈ flat ↔ a ∈ ms) : T.unionMembers flat = ms := by
  refine (pairwise_ascending _).eq_of_mem_iff h.ascending fun a => ?_
  rw [← unionMembers, mem_unionMembers hb]
  simp only [hflat]
  refine ⟨fun ha => ha.1, fun ha => ⟨ha, ?_, h.folded a ha⟩⟩
  rintro rfl
  exact h.not_mem hb.never rfl ha

/-- A canonical union is cleaned up already. -/
theorem CanonicalUnion.unionMembers_eq (h : T.CanonicalUnion ms) (hb : T.HasBuiltins) :
    T.unionMembers ms = ms :=
  h.unionMembers_of_mem_iff hb fun _ => Iff.rfl

/-- A single member is kept, since a literal is no primitive. -/
theorem unionMembers_singleton (hb : T.HasBuiltins) (hnever : i ≠ TypeId.never) :
    T.unionMembers [i] = [i] := by
  refine (pairwise_ascending _).eq_of_mem_iff (List.pairwise_singleton _ _) fun a => ?_
  rw [← unionMembers, mem_unionMembers hb, List.mem_singleton]
  refine ⟨fun ha => ha.1, ?_⟩
  rintro rfl
  refine ⟨rfl, hnever, fun p hp hmem => ?_⟩
  obtain rfl := List.mem_singleton.mp hmem
  obtain ⟨l, hl, -⟩ := exists_get?_of_literalBase? hp
  exact absurd ((hb.primitive p).symm.trans hl) (by simp)

/-- The members that are kept stay the same in later tables. -/
theorem Grows.unionMembers_eq (h : Grows T U) (hflat : ∀ a ∈ flat, a < T.size) :
    U.unionMembers flat = T.unionMembers flat := by
  have hinhabited : ∀ a ∈ flat.filter (· ≠ TypeId.never), a < T.size := fun a ha =>
    hflat a (List.mem_of_mem_filter ha)
  have hprims : (flat.filter (· ≠ TypeId.never)).filterMap U.primitive? =
      (flat.filter (· ≠ TypeId.never)).filterMap T.primitive? :=
    List.filterMap_congr fun a ha => h.primitive?_eq (hinhabited a ha)
  rw [unionMembers, unionMembers, hprims]
  refine congrArg ascending (List.filter_congr fun a ha => ?_)
  rw [isSubsumed, isSubsumed, h.literalBase?_eq (hinhabited a ha)]

/-! ## The union -/

/-- The subjects of a union are its members. -/
theorem subjects_of_get?_union (h : T.get? n = some (.union ms)) : T.subjects n = ms := by
  rw [subjects, h]

/-- A single alternative is its own subject. -/
theorem subjects_of_isAlternative (ht : T.get? i = some t) (halt : t.isAlternative) :
    T.subjects i = [i] := by
  rw [subjects, ht]
  cases t <;> first | rfl | exact absurd halt Bool.false_ne_true

/-- `n` is the canonical union of `ms`. -/
def IsUnionOf (T : TypeTable) (ms : List TypeId) (n : TypeId) : Prop :=
  let flat := ms.flatMap T.alternatives
  if TypeId.any ∈ flat then n = TypeId.any
  else if TypeId.unknown ∈ flat then n = TypeId.unknown
  else T.subjects n = T.unionMembers flat

/-- A union is `any` only if a member is. -/
theorem IsUnionOf.ne_any (h : T.IsUnionOf ms n) (hb : T.HasBuiltins)
    (hms : ∀ m ∈ ms, T.Canonical m) (hany : TypeId.any ∉ ms) : n ≠ TypeId.any := by
  have hflat := mt (any_mem_of_mem_alternatives hb hms) hany
  rintro rfl
  rw [IsUnionOf, if_neg hflat] at h
  split at h
  · exact absurd h (by decide)
  · have hsubjects : T.subjects TypeId.any = [TypeId.any] := by rw [subjects, hb.any]
    rw [hsubjects] at h
    exact hflat ((mem_unionMembers hb).mp (h ▸ List.mem_cons_self)).1

/-- A canonical type is the union of what it is opened to. -/
theorem Canonical.isUnionOf (hi : T.Canonical i) (hb : T.HasBuiltins)
    (h : ms.flatMap T.alternatives = T.alternatives i) : T.IsUnionOf ms i := by
  obtain ⟨t, ht⟩ := exists_get?_of_lt_size hi.lt_size
  rw [IsUnionOf, h]
  by_cases halt : t.isAlternative
  · -- what is alone is none of the three types that a union treats in its own way
    have hne : ∀ {j u}, T.get? j = some u → u.isAlternative = false → j ≠ i := by
      rintro j u hu hualt rfl
      rw [Option.some.inj (hu.symm.trans ht), halt] at hualt
      exact absurd hualt (by decide)
    simp only [alternatives_of_not_union (isUnion_of_isAlternative ht halt), List.mem_singleton,
      if_neg (hne hb.any rfl), if_neg (hne hb.unknown rfl), subjects_of_isAlternative ht halt,
      unionMembers_singleton hb (hne hb.never rfl).symm]
  · cases t with
    | any =>
      obtain rfl := get?_injective ht hb.any
      simp [TypeTable.alternatives, hb.any]
    | unknown =>
      obtain rfl := get?_injective ht hb.unknown
      simp [TypeTable.alternatives, hb.unknown]
    | never =>
      obtain rfl := get?_injective ht hb.never
      simp [TypeTable.alternatives, hb.never, subjects, unionMembers, ascending]
    | union us =>
      have hus : T.CanonicalUnion us := hi.canonicalNode ht
      have hopen : T.alternatives i = us := by rw [TypeTable.alternatives, ht]
      simp only [hopen, if_neg (hus.not_mem hb.any rfl), if_neg (hus.not_mem hb.unknown rfl),
        subjects_of_get?_union ht, hus.unionMembers_eq hb]
    | primitive _ | literal _ | intersection _ | tuple _ _ | array _ _ | object _ =>
      exact absurd rfl halt

end TypeTable

open TypeTable

variable {T : TypeTable} {ms : List TypeId}

/-- What a union interns and answers. -/
theorem run_unionOf (T : TypeTable) (ms : List TypeId) :
    (unionOf ms).run T =
      if TypeId.any ∈ ms.flatMap T.alternatives then (TypeId.any, T)
      else if TypeId.unknown ∈ ms.flatMap T.alternatives then (TypeId.unknown, T)
      else
        match T.unionMembers (ms.flatMap T.alternatives) with
        | [] => (TypeId.never, T)
        | [i] => (i, T)
        | kept => T.intern (.union kept) := by
  simp only [unionOf, StateT.run_bind, StateT.run_get, pure_bind]
  split
  · rfl
  split
  · rfl
  rcases T.unionMembers (ms.flatMap T.alternatives) with _ | ⟨i, _ | ⟨j, rest⟩⟩ <;> rfl

/-- The union of canonical types is canonical, and it is their union in the table that it leaves
behind. -/
theorem unionOf_isUnionOf (hb : T.HasBuiltins) (h : ∀ m ∈ ms, T.Canonical m) :
    (unionOf ms).Yields T fun n U => U.Canonical n ∧ U.IsUnionOf ms n := by
  have hflat : ∀ a ∈ ms.flatMap T.alternatives, T.Canonical a ∧ T.isUnion a = false := fun a =>
    canonical_of_mem_alternatives h
  rw [Interning.Yields, run_unionOf]
  by_cases hany : TypeId.any ∈ ms.flatMap T.alternatives
  · simp only [if_pos hany, IsUnionOf]
    exact ⟨.refl, hb.canonical_any, trivial⟩
  by_cases hunknown : TypeId.unknown ∈ ms.flatMap T.alternatives
  · simp only [if_neg hany, if_pos hunknown, IsUnionOf]
    exact ⟨.refl, hb.canonical_unknown, trivial⟩
  simp only [if_neg hany, if_neg hunknown]
  -- it is enough to know what the union consists of
  have hdone : ∀ n U, Grows T U → U.subjects n = T.unionMembers (ms.flatMap T.alternatives) →
      U.IsUnionOf ms n := by
    intro n U hTU hsubjects
    have hsame : ms.flatMap U.alternatives = ms.flatMap T.alternatives :=
      List.flatMap_congr fun m hm => hTU.alternatives_eq (h m hm).lt_size
    simp only [IsUnionOf, hsame, if_neg hany, if_neg hunknown]
    rw [hsubjects, hTU.unionMembers_eq fun a ha => (hflat a ha).1.lt_size]
  have hsub : ∀ a ∈ T.unionMembers (ms.flatMap T.alternatives),
      a ∈ ms.flatMap T.alternatives ∧ a ≠ TypeId.never := fun a ha =>
    have h := (mem_unionMembers hb).mp ha
    ⟨h.1, h.2.1⟩
  have hunion := canonicalUnion_unionMembers hb hflat hany hunknown
  -- no alternative is left, or one, or enough for a union
  -- with no alternative left the union is `never`, and a single one stands for itself
  rcases hkept : T.unionMembers (ms.flatMap T.alternatives) with _ | ⟨i, _ | ⟨j, rest⟩⟩ <;>
    rw [hkept] at hdone hsub hunion
  · exact ⟨.refl, hb.canonical_never, hdone _ _ .refl (by simp [subjects, hb.never])⟩
  · obtain ⟨hi, hnever⟩ := hsub i List.mem_cons_self
    refine ⟨.refl, (hflat i hi).1, hdone _ _ .refl ?_⟩
    obtain ⟨t, ht, halt⟩ := (hflat i hi).1.isAlternative hb (hflat i hi).2
      (fun e => hany (e ▸ hi)) (fun e => hunknown (e ▸ hi)) hnever
    exact subjects_of_isAlternative ht halt
  · have hparts : ∀ a ∈ (Ty.union (i :: j :: rest)).parts, T.Canonical a := fun a ha =>
      (hflat a (hsub a ha).1).1
    have hnode : T.CanonicalNode (.union (i :: j :: rest)) := hunion (by simp)
    exact ⟨.intern .refl hnode hparts, canonical_intern hnode hparts,
      hdone _ _ (grows_intern T _) (subjects_of_get?_union (get?_intern_fst T _))⟩

end TypeAssay
