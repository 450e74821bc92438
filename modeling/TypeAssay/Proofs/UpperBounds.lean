import TypeAssay.Proofs.Fixpoints
import TypeAssay.Proofs.Sources

/-!
# Least upper bounds

All members fit their union, and without `any` among them the union fits whatever all of them fit
(`unionOf_isLUB`), under strict and under loose null checks.

The first half is a fact about what one source fits, so it follows from `Reading`. The second half
compares sources. A union drops literals next to their own primitive, which is invisible because a
literal fits wherever its primitive does: one step of the rules that accepts the primitive accepts
the literal if the same holds of the parts of the target (`structuralStep_literal_of_base`), and
targets are made of smaller ones (`Tidy.assignable_of_base`).
-/

namespace TypeAssay

open TypeTable

variable {T U : TypeTable} {o : Options} {n s t x : TypeId} {ms flat : List TypeId}

namespace TypeTable

variable {b : Ty} {l : Literal} {p : Primitive} {fits : TypeId → TypeId → Bool}

/-! ## Literals fit where their primitives do -/

/-- A literal offers the members that its primitive offers. -/
theorem offers?_literal_of_base (hx : T.get? x = some (.literal l)) (hp : l.base? = some p)
    (hs : T.get? s = some (.primitive p)) : T.offers? x = T.offers? s := by
  rw [offers?, offers?, hx, hs]
  cases l with
  | boolean _ => exact absurd hp (by simp [Literal.base?])
  | number _ | string _ | bigint _ =>
    obtain rfl := Option.some.inj hp
    rfl

/-- The rules that accept a primitive accept its literals, when the parts of the target do. -/
theorem structuralStep_literal_of_base (hx : T.get? x = some (.literal l)) (hp : l.base? = some p)
    (hs : T.get? s = some (.primitive p)) (hparts : ∀ j ∈ b.parts, fits s j → fits x j)
    (h : T.structuralStep fits s t (.primitive p) b) :
    T.structuralStep fits x t (.literal l) b := by
  cases b with
  | union ms =>
    obtain ⟨m, hm, hfit⟩ := List.any_eq_true.mp h
    exact List.any_eq_true.mpr ⟨m, hm, hparts m hm hfit⟩
  | intersection ms =>
    exact List.all_eq_true.mpr fun m hm => hparts m hm (List.all_eq_true.mp h m hm)
  | primitive q =>
    -- a primitive with literals is not `undefined`
    have hpq : p = q := by
      rcases Bool.or_eq_true_iff.mp h with h | h
      · exact of_decide_eq_true h
      · obtain ⟨hp', -⟩ := Bool.and_eq_true_iff.mp h
        obtain rfl := of_decide_eq_true hp'
        cases l <;> simp [Literal.base?] at hp
    exact decide_eq_true (hp.trans (congrArg some hpq))
  | object wanted =>
    change T.meetsShape fits [x] wanted = true
    rw [meetsShape, List.mapM_cons, offers?_literal_of_base hx hp hs]
    exact h
  | literal _ | tuple _ _ | array _ _ => exact absurd h Bool.false_ne_true
  | any | unknown | never => exact absurd h Bool.false_ne_true

/-- A literal fits wherever its primitive does. -/
theorem Tidy.assignable_of_base (hT : T.Tidy) (hx : T.get? x = some (.literal l))
    (hp : l.base? = some p) (ht : t < T.size) (h : T.assignable p.id t) : T.assignable x t := by
  -- by induction on the target, whose alternatives and constraints are smaller
  induction t using Nat.strong_induction_on with
  | _ t ih =>
    have hget := hT.hasBuiltins.primitive p
    obtain ⟨b, hb⟩ := exists_get?_of_lt_size ht
    have hreading := hT.reading_assignable
      ⟨hT.canonical (lt_size_of_get? hx), _, hx, rfl⟩
    rcases plain_or b with rfl | rfl | rfl | hplain
    · exact get?_injective hT.hasBuiltins.any hb ▸ hreading.any
    · exact get?_injective hT.hasBuiltins.unknown hb ▸ hreading.unknown
    · obtain rfl := get?_injective hb hT.hasBuiltins.never
      rw [hT.not_assignable_never (lt_size_of_get? hget) (by cases p <;> decide)] at h
      exact absurd h (by decide)
    rcases (hT.assignable_iff hget hb (plain_of_isAlternative rfl) hplain).mp h with
      rfl | hloose | hstep
    · exact hreading.literal x l p hx hp (assignable_self x)
    · obtain ⟨q, hq, hnullish⟩ := exists_nullish_of_isLooseNull hloose
      obtain rfl := Ty.primitive.inj hq
      rw [isNullish_of_base? hp] at hnullish
      exact absurd hnullish (by decide)
    · refine (hT.assignable_iff hx hb (plain_of_isAlternative rfl) hplain).mpr
        (Or.inr (Or.inr (structuralStep_literal_of_base hx hp hget (fun j hj => ?_) hstep)))
      have hlt : j < t := hT.descends t b hb j hj
      exact ih j hlt (Nat.lt_trans hlt ht)

/-! ## Above the members -/

/-- All members fit the union, whatever they are. -/
theorem IsUnionOf.assignable (hn : T.IsUnionOf ms n) (hT : T.Tidy) (hms : ∀ m ∈ ms, m < T.size)
    (hlt : n < T.size) : ∀ m ∈ ms, T.assignable m n := by
  intro m hm
  by_cases hany : m = TypeId.any
  · have hflat : TypeId.any ∈ ms.flatMap T.alternatives :=
      List.mem_flatMap.mpr ⟨m, hm, by simp [hany, alternatives, hT.hasBuiltins.any]⟩
    rw [IsUnionOf, if_pos hflat] at hn
    exact hn ▸ hT.assignable_any (hms m hm)
  · rw [hT.assignable_iff_subjects (hms m hm) hlt]
    intro s hs
    refine ((hT.reading_of_mem_subjects (hms m hm) hany hs).isUnionOf hT.hasBuiltins hn).mpr
      ⟨m, hm, ?_⟩
    exact (hT.assignable_iff_subjects (hms m hm) (hms m hm)).mp (assignable_self m) s hs

/-! ## Below all upper bounds -/

/-- A type fits where all its alternatives fit. -/
theorem Tidy.assignable_iff_alternatives (hT : T.Tidy) (hs : s < T.size) (ht : t < T.size) :
    T.assignable s t ↔ ∀ a ∈ T.alternatives s, T.assignable a t := by
  rw [alternatives]
  split
  · rename_i ms hget
    rw [hT.assignable_iff_subjects hs ht, subjects_of_get?_union hget]
  · simp

/-- What a union drops fits wherever all that it keeps fits. -/
theorem Tidy.forall_unionMembers_assignable (hT : T.Tidy) (ht : t < T.size) :
    (∀ a ∈ T.unionMembers flat, T.assignable a t) ↔ ∀ a ∈ flat, T.assignable a t := by
  refine ⟨fun h a ha => ?_, fun h a ha => h a ((mem_unionMembers hT.hasBuiltins).mp ha).1⟩
  by_cases hnever : a = TypeId.never
  · exact hnever ▸ hT.never_assignable ht
  rcases mem_unionMembers_or_base hT.hasBuiltins ha hnever with hkept | ⟨l, p, hl, hp, hkept⟩
  · exact h a hkept
  · exact hT.assignable_of_base hl hp ht (h p.id hkept)

/-- `unknown` fits no other type, `any` aside. -/
theorem Tidy.eq_unknown_of_assignable (hT : T.Tidy) (ht : t < T.size) (hany : t ≠ TypeId.any)
    (h : T.assignable TypeId.unknown t) : t = TypeId.unknown := by
  obtain ⟨b, hb⟩ := exists_get?_of_lt_size ht
  by_contra hunknown
  rw [hT.not_unknown_assignable hb (fun e => ?_) fun e => ?_] at h
  · exact absurd h (by decide)
  · exact hany (get?_injective (e ▸ hb) hT.hasBuiltins.any)
  · exact hunknown (get?_injective (e ▸ hb) hT.hasBuiltins.unknown)

/-- What `unknown` fits, everything fits. -/
theorem Tidy.assignable_of_unknown (hT : T.Tidy) (hs : s < T.size) (ht : t < T.size)
    (h : T.assignable TypeId.unknown t) : T.assignable s t := by
  by_cases hany : t = TypeId.any
  · exact hany ▸ hT.assignable_any hs
  · exact hT.eq_unknown_of_assignable ht hany h ▸ hT.assignable_unknown hs

/-- A union without `any` fits exactly where all its members fit. -/
theorem IsUnionOf.assignable_iff (hn : T.IsUnionOf ms n) (hT : T.Tidy) (hms : ∀ m ∈ ms, m < T.size)
    (hlt : n < T.size) (hany : TypeId.any ∉ ms) (ht : t < T.size) :
    T.assignable n t ↔ ∀ m ∈ ms, T.assignable m t := by
  have hb := hT.hasBuiltins
  have hflat := mt (any_mem_of_mem_alternatives hb fun m hm => hT.canonical (hms m hm)) hany
  have hmembers : (∀ m ∈ ms, T.assignable m t) ↔
      ∀ a ∈ ms.flatMap T.alternatives, T.assignable a t := by
    rw [List.forall_mem_flatMap]
    exact forall₂_congr fun m hm => hT.assignable_iff_alternatives (hms m hm) ht
  rw [hmembers]
  rw [IsUnionOf, if_neg hflat] at hn
  split at hn
  · rename_i hunknown
    subst hn
    have hcanonical : ∀ a ∈ ms.flatMap T.alternatives, T.Canonical a := fun a ha =>
      (canonical_of_mem_alternatives (fun m hm => hT.canonical (hms m hm)) ha).1
    exact ⟨fun h a ha => hT.assignable_of_unknown (hcanonical a ha).lt_size ht h,
      fun h => h _ hunknown⟩
  · rw [hT.assignable_iff_subjects hlt ht, hn, hT.forall_unionMembers_assignable ht]

end TypeTable

/-! ## The least upper bound -/

/-- Union is the least upper bound: every member fits the union, and the union of types other than
`any` fits a type exactly when all members fit it. -/
theorem unionOf_isLUB (hT : Runs (withOptions o) T) (hms : ∀ m ∈ ms, m < T.size)
    (hn : (unionOf ms).run T = (n, U)) :
    (∀ m ∈ ms, U.assignable m n) ∧
      (TypeId.any ∉ ms → ∀ t < U.size, (U.assignable n t ↔ ∀ m ∈ ms, U.assignable m t)) := by
  have htidy := hT.tidy
  obtain ⟨hbuilds, hcanonical, hunion⟩ :=
    unionOf_isUnionOf htidy.hasBuiltins fun m hm => htidy.canonical (hms m hm)
  rw [hn] at hbuilds hcanonical hunion
  have hU : U.Tidy := hbuilds.tidy htidy
  have hmsU : ∀ m ∈ ms, m < U.size := fun m hm =>
    Nat.lt_of_lt_of_le (hms m hm) hbuilds.grows.size_le
  have hlt : n < U.size := hcanonical.lt_size
  exact ⟨hunion.assignable hU hmsU hlt, fun hany t ht => hunion.assignable_iff hU hmsU hlt hany ht⟩

/-! ### A word and the strings -/

namespace TypeTable

/-- A word, and the object type of what has a number as its `length`. -/
def words : List Ty :=
  [.literal (.string "a"), .object [{ name := "length", type := TypeId.number }]]

/-- A table with a word and an object type that strings fit. -/
def wordTable : TypeTable := withNodes {} words

/-- A type of the table is found at its place. -/
theorem get?_wordTable (i : TypeId) : wordTable.get? i = (builtins ++ words)[i]? :=
  get?_withNodes (by decide) (by decide) i

/-- The size of the table. -/
theorem size_wordTable : wordTable.size = 16 := by
  rw [wordTable, size, types_withNodes (by decide) (by decide)]
  rfl

/-- Clients can build the table. -/
theorem runs_wordTable : Runs (withOptions {}) wordTable := by
  have hword : Runs (withOptions {}) ((withOptions {}).intern (.literal (.string "a"))).2 :=
    Runs.intern .refl (tidy_withOptions {}) (t := .literal (.string "a")) trivial (by decide)
  refine hword.intern hword.tidy (t := .object [{ name := "length", type := TypeId.number }])
    (List.pairwise_singleton _ _) fun i hi => ?_
  obtain rfl := List.mem_singleton.mp hi
  refine Nat.lt_of_lt_of_le ?_ (size_le_size_intern _ _)
  rw [size_withOptions]
  decide

/-- The union of a word and the strings drops the word. -/
theorem run_unionOf_wordTable :
    (unionOf [14, TypeId.string]).run wordTable = (TypeId.string, wordTable) := by
  have hword : wordTable.get? 14 = some (.literal (.string "a")) := get?_wordTable 14
  have hstring : wordTable.get? TypeId.string = some (.primitive .string) := get?_wordTable 4
  have hflat : [14, TypeId.string].flatMap wordTable.alternatives = [14, TypeId.string] := by
    simp [alternatives, hword, hstring]
  have hkept : wordTable.unionMembers [14, TypeId.string] = [TypeId.string] := by
    simp [unionMembers, isSubsumed, literalBase?, primitive?, hword, hstring, Ty.primitive?,
      Ty.literal?, Literal.base?, ascending, insertAscending]
  rw [run_unionOf, hflat, hkept]
  rfl

end TypeTable

/-- The strings are the least upper bound of a word and the strings: they have a `length` as both
have it. -/
theorem unionOf_isLUB_wordTable :
    Runs (withOptions {}) wordTable ∧ (∀ m ∈ [14, TypeId.string], m < wordTable.size) ∧
      (unionOf [14, TypeId.string]).run wordTable = (TypeId.string, wordTable) ∧
      (∀ m ∈ [14, TypeId.string], wordTable.assignable m TypeId.string) ∧
      TypeId.any ∉ [14, TypeId.string] ∧ 15 < wordTable.size ∧
      (wordTable.assignable TypeId.string 15 ↔
        ∀ m ∈ [14, TypeId.string], wordTable.assignable m 15) := by
  have hms : ∀ m ∈ [14, TypeId.string], m < wordTable.size := by
    rw [size_wordTable]
    decide
  have hlt : 15 < wordTable.size := by
    rw [size_wordTable]
    decide
  have hany : TypeId.any ∉ [14, TypeId.string] := by decide
  obtain ⟨habove, hbelow⟩ := unionOf_isLUB runs_wordTable hms run_unionOf_wordTable
  exact ⟨runs_wordTable, hms, run_unionOf_wordTable, habove, hany, hlt, hbelow hany 15 hlt⟩

end TypeAssay
