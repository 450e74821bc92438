import TypeAssay.Proofs.Constraints

/-!
# Reductions as sets

What constraints reduce to does not depend on their order, nor on how often one of them is given.
`Reduces` says what a reduction keeps of a set of constraints: they are `Coherent`, which is a
property of pairs, and what no other constraint `Refines` is kept.

A reduction forgets nothing that matters later: with more constraints next to them, the reduced
constraints are as coherent as the original ones and reduce to the same type
(`Reduces.append_iff`).
-/

namespace TypeAssay

/-- The primitives that have literals. -/
theorem Literal.base?_cases {l : Literal} {p : Primitive} (h : l.base? = some p) :
    p = .number ∨ p = .string ∨ p = .bigint := by
  cases l <;> simp_all [Literal.base?, eq_comm]

namespace TypeTable

variable {T : TypeTable} {m n r s a x : TypeId} {ks ls : List TypeId}

/-- A primitive is no literal. -/
theorem HasBuiltins.get?_id_ne_literal (hb : T.HasBuiltins) (p : Primitive) (l : Literal) :
    T.get? p.id ≠ some (.literal l) := fun hl => absurd ((hb.primitive p).symm.trans hl) (by simp)

/-! ## Constraints that admit each other -/

/-- The constraint `a` does not rule out the constraint `b`. -/
structure Admits (T : TypeTable) (a b : TypeId) : Prop where
  primitives : ∀ p q : Primitive, p ≠ .object → q ≠ .object → a = p.id → b = q.id →
    p = q ∨ (p = .undefined ∧ q = .void) ∨ (p = .void ∧ q = .undefined)
  literals : ∀ l l', T.get? a = some (.literal l) → T.get? b = some (.literal l') → l = l'
  widened : ∀ l (p : Primitive), p ≠ .object → T.get? a = some (.literal l) → b = p.id →
    l.base? = some p
  object_alone : a = TypeId.object → T.isScalar b = false
  structured : T.isStructured a → ∀ p : Primitive, p.isNullish → b ≠ p.id

/-- No two of the constraints rule each other out. -/
def Coherent (T : TypeTable) (ks : List TypeId) : Prop := ∀ a ∈ ks, ∀ b ∈ ks, T.Admits a b

/-- Fewer constraints rule each other out less. -/
theorem Coherent.subset (h : T.Coherent ls) (hsub : ks ⊆ ls) : T.Coherent ks :=
  fun a ha b hb => h a (hsub ha) b (hsub hb)

/-- A scalar primitive counts, unless it is `void` next to `undefined`, which counts. -/
theorem mem_primitives_or_undefined (hb : T.HasBuiltins) {p : Primitive} (hp : p ≠ .object)
    (hmem : p.id ∈ ks) : p ∈ (T.scalars ks).primitives ∨
      p = .void ∧ Primitive.undefined ∈ (T.scalars ks).primitives := by
  by_cases hvoid : p = .void ∧ TypeId.undefined ∈ ks
  · exact Or.inr ⟨hvoid.1, (mem_primitives hb).mpr ⟨⟨hvoid.2, by decide⟩, by simp⟩⟩
  · exact Or.inl ((mem_primitives hb).mpr ⟨⟨hmem, hp⟩, hvoid⟩)

/-- The scalar parts of coherent constraints are compatible. -/
theorem Coherent.compatible (h : T.Coherent ks) (hb : T.HasBuiltins) :
    (T.scalars ks).Compatible := by
  refine ⟨fun p hp q hq => ?_, fun l hl l' hl' => ?_, fun l hl p hp => ?_, fun ho => ⟨?_, ?_⟩,
    fun hs p hp => ?_⟩
  · obtain ⟨⟨hpm, hpo⟩, hpv⟩ := (mem_primitives hb).mp hp
    obtain ⟨⟨hqm, hqo⟩, hqv⟩ := (mem_primitives hb).mp hq
    -- `void` next to `undefined` does not count, so two that count are the same
    rcases (h _ hpm _ hqm).primitives p q hpo hqo rfl rfl with rfl | ⟨rfl, rfl⟩ | ⟨rfl, rfl⟩
    · rfl
    · exact absurd ⟨rfl, hpm⟩ hqv
    · exact absurd ⟨rfl, hqm⟩ hpv
  · obtain ⟨m, hm, hget⟩ := mem_literals.mp hl
    obtain ⟨m', hm', hget'⟩ := mem_literals.mp hl'
    exact (h m hm m' hm').literals l l' hget hget'
  · obtain ⟨m, hm, hget⟩ := mem_literals.mp hl
    obtain ⟨⟨hpm, hpo⟩, -⟩ := (mem_primitives hb).mp hp
    exact (h m hm _ hpm).widened l p hpo hget rfl
  · refine List.eq_nil_iff_forall_not_mem.mpr fun p hp => ?_
    obtain ⟨⟨hpm, hpo⟩, -⟩ := (mem_primitives hb).mp hp
    exact absurd (hb.isScalar_id hpo) (Bool.eq_false_iff.mp
      ((h _ ((hasObject_iff hb).mp ho) _ hpm).object_alone rfl))
  · refine List.eq_nil_iff_forall_not_mem.mpr fun l hl => ?_
    obtain ⟨m, hm, hget⟩ := mem_literals.mp hl
    exact absurd (isScalar_of_literal hget) (Bool.eq_false_iff.mp
      ((h _ ((hasObject_iff hb).mp ho) m hm).object_alone rfl))
  · obtain ⟨m, hm, hstructured⟩ := hasStructure_iff.mp hs
    obtain ⟨⟨hpm, -⟩, -⟩ := (mem_primitives hb).mp hp
    exact Bool.eq_false_iff.mpr fun hnullish =>
      (h m hm _ hpm).structured hstructured p hnullish rfl

/-- Constraints with compatible scalar parts are coherent. -/
theorem coherent_of_compatible (hb : T.HasBuiltins) (h : (T.scalars ks).Compatible) :
    T.Coherent ks := by
  intro a ha b hb'
  have hlit : ∀ {m l}, m ∈ ks → T.get? m = some (.literal l) → l ∈ (T.scalars ks).literals :=
    fun hm hget => mem_literals.mpr ⟨_, hm, hget⟩
  refine ⟨?_, fun l l' hl hl' => h.literals l (hlit ha hl) l' (hlit hb' hl'), ?_, ?_, ?_⟩
  · rintro p q hp hq rfl rfl
    -- each of the two counts, or is `void` and stands next to `undefined`, which counts
    rcases mem_primitives_or_undefined hb hp ha with hpc | ⟨rfl, hu⟩ <;>
      rcases mem_primitives_or_undefined hb hq hb' with hqc | ⟨rfl, hu'⟩
    · exact Or.inl (h.primitives p hpc q hqc)
    · exact Or.inr (Or.inl ⟨h.primitives p hpc _ hu', rfl⟩)
    · exact Or.inr (Or.inr ⟨rfl, h.primitives q hqc _ hu⟩)
    · exact Or.inl rfl
  · rintro l p hp hl rfl
    rcases mem_primitives_or_undefined hb hp hb' with hpc | ⟨rfl, hu⟩
    · exact h.widened l (hlit ha hl) p hpc
    · exact absurd (Literal.base?_cases (h.widened l (hlit ha hl) _ hu)) (by decide)
  · rintro rfl
    obtain ⟨hnoprims, hnolits⟩ := h.object_alone ((hasObject_iff hb).mpr ha)
    refine Bool.eq_false_iff.mpr fun hscalar => ?_
    rcases isScalar_cases hb hscalar with ⟨p, rfl, hp⟩ | ⟨l, hl⟩
    · rcases mem_primitives_or_undefined hb hp hb' with hpc | ⟨-, hu⟩
      · exact absurd (hnoprims ▸ hpc) List.not_mem_nil
      · exact absurd (hnoprims ▸ hu) List.not_mem_nil
    · exact absurd (hnolits ▸ hlit hb' hl) List.not_mem_nil
  · rintro hs p hnullish rfl
    have hp : p ≠ .object := by
      rintro rfl
      exact absurd hnullish (by decide)
    have hstructure := hasStructure_iff.mpr ⟨a, ha, hs⟩
    rcases mem_primitives_or_undefined hb hp hb' with hpc | ⟨-, hu⟩
    · exact absurd (h.structured hstructure p hpc) (by simp [hnullish])
    · exact absurd (h.structured hstructure _ hu) (by decide)

/-- Constraints are coherent just if no conflict is found among them. -/
theorem coherent_iff_conflict (hb : T.HasBuiltins) (hks : ks.Nodup) :
    T.Coherent ks ↔ (T.scalars ks).conflict = false := by
  rw [Scalars.conflict_eq_false_iff (nodup_primitives hks) (nodup_literals hks)]
  exact ⟨fun h => h.compatible hb, coherent_of_compatible hb⟩

/-! ## Constraints that refine others -/

/-- `s` makes `a` redundant: `undefined` is a part of `void`, and a literal is one of its
primitive. -/
def Refines (T : TypeTable) (s a : TypeId) : Prop :=
  (s = TypeId.undefined ∧ a = TypeId.void) ∨
    ∃ l, ∃ p : Primitive, T.get? s = some (.literal l) ∧ l.base? = some p ∧ a = p.id

/-- What refines something is refined by nothing. -/
theorem Refines.not_refines (h : T.Refines s a) (hb : T.HasBuiltins) : ¬ T.Refines r s := by
  rintro (⟨-, rfl⟩ | ⟨l, p, -, hl, rfl⟩) <;> rcases h with ⟨h, -⟩ | ⟨l', -, hl', -, -⟩
  · exact absurd h (by decide)
  · exact hb.get?_id_ne_literal .void l' hl'
  · rcases Literal.base?_cases hl with rfl | rfl | rfl <;> exact absurd h (by decide)
  · exact hb.get?_id_ne_literal p l' hl'

/-- Of what a scalar primitive may rule out only the other primitives depend on which it is. -/
theorem admits_of_primitive (hb : T.HasBuiltins) {p : Primitive} (hp : p ≠ .object)
    (h : ∀ q : Primitive, q ≠ .object → x = q.id →
      p = q ∨ (p = .undefined ∧ q = .void) ∨ (p = .void ∧ q = .undefined)) : T.Admits p.id x := by
  refine ⟨fun p' q _ hq hp' hx => ?_, fun l _ hl => absurd hl (hb.get?_id_ne_literal p l),
    fun l _ _ hl => absurd hl (hb.get?_id_ne_literal p l),
    fun ho => absurd (hb.primitive_injective ho) hp, fun hs => ?_⟩
  · obtain rfl := hb.primitive_injective hp'
    exact h q hq hx
  · rw [isStructured, hb.primitive p] at hs
    cases p <;> simp_all

/-- What a refinement admits is admitted by what it refines. -/
theorem Refines.admits_left (h : T.Refines s a) (hb : T.HasBuiltins) (hsx : T.Admits s x) :
    T.Admits a x := by
  rcases h with ⟨rfl, rfl⟩ | ⟨l, p, hl, hp, rfl⟩
  · refine admits_of_primitive (p := .void) hb (by decide) fun q hq hx => ?_
    rcases hsx.primitives .undefined q (by decide) hq rfl hx with rfl | ⟨-, rfl⟩ | ⟨h, -⟩
    · exact Or.inr (Or.inr ⟨rfl, rfl⟩)
    · exact Or.inl rfl
    · exact absurd h (by decide)
  · refine admits_of_primitive hb ?_ fun q hq hx => Or.inl ?_
    · rintro rfl
      exact absurd (Literal.base?_cases hp) (by decide)
    · exact Option.some.inj (hp.symm.trans (hsx.widened l q hq hl hx))

/-- What admits a refinement and is admitted by it admits what it refines. -/
theorem Refines.admits_right (h : T.Refines s a) (hb : T.HasBuiltins) (hsx : T.Admits s x)
    (hxs : T.Admits x s) : T.Admits x a := by
  have hprimitives := (h.admits_left hb hsx).primitives
  refine ⟨fun q p hq hp hx ha => ?_, fun _ l' _ hl' => ?_, fun l' q hq hl' ha => ?_,
    fun ho => ?_, fun hs q hnullish ha => ?_⟩
  · rcases hprimitives p q hp hq ha hx with rfl | ⟨rfl, rfl⟩ | ⟨rfl, rfl⟩ <;> simp
  -- in the order of the rules: literals, widened literals, `object`, structured types
  all_goals rcases h with ⟨rfl, rfl⟩ | ⟨l, p, hl, hp, rfl⟩
  · exact absurd hl' (hb.get?_id_ne_literal .void l')
  · exact absurd hl' (hb.get?_id_ne_literal p l')
  · exact absurd (Literal.base?_cases (hxs.widened l' .undefined (by decide) hl' rfl)) (by decide)
  · obtain rfl := hb.primitive_injective ha
    rwa [hxs.literals l' l hl' hl]
  · exact absurd (hb.isScalar_id (p := .undefined) (by decide))
      (Bool.eq_false_iff.mp (hxs.object_alone ho))
  · exact absurd (isScalar_of_literal hl) (Bool.eq_false_iff.mp (hxs.object_alone ho))
  · exact absurd rfl (hxs.structured hs .undefined rfl)
  · obtain rfl := hb.primitive_injective ha
    rcases Literal.base?_cases hp with rfl | rfl | rfl <;> exact absurd hnullish (by decide)

/-! ## Reductions -/

/-- `n` is what the constraints `ks` reduce to, in whatever order they come: they are coherent, and
`n` demands those that no other refines. -/
structure Reduces (T : TypeTable) (ks : List TypeId) (n : TypeId) : Prop where
  coherent : T.Coherent ks
  mem_demands : ∀ a, a ∈ T.demands n ↔ a ∈ ks ∧ ∀ s ∈ ks, ¬ T.Refines s a

/-- Of coherent constraints those are kept that no other refines. -/
theorem mem_reducedConstraints_iff_refines (hb : T.HasBuiltins) (h : T.Coherent ks) :
    a ∈ T.reducedConstraints ks ↔ a ∈ ks ∧ ∀ s ∈ ks, ¬ T.Refines s a := by
  rw [mem_reducedConstraints hb, and_assoc]
  refine and_congr_right fun ha => ⟨?_, fun hkept => ⟨?_, ?_⟩⟩
  · rintro ⟨hvoid, hliteral⟩ s hs (⟨rfl, rfl⟩ | ⟨l, p, hl, hp, rfl⟩)
    · exact hvoid ⟨rfl, hs⟩
    · refine hliteral ⟨List.ne_nil_of_mem (mem_literals.mpr ⟨s, hs, hl⟩), p, ?_, rfl⟩
      refine (mem_primitives hb).mpr ⟨⟨ha, ?_⟩, ?_⟩ <;>
        rcases Literal.base?_cases hp with rfl | rfl | rfl <;> simp
  · rintro ⟨rfl, hu⟩
    exact hkept _ hu (Or.inl ⟨rfl, rfl⟩)
  · rintro ⟨hne, p, hp, rfl⟩
    obtain ⟨l, hl⟩ := List.exists_mem_of_ne_nil _ hne
    obtain ⟨m, hm, hget⟩ := mem_literals.mp hl
    exact hkept m hm (Or.inr ⟨l, p, hget, (h.compatible hb).widened l hl p hp, rfl⟩)

/-- What coherent constraints reduce to is what is kept of them. -/
theorem IsReductionOf.reduces (h : T.IsReductionOf ks n) (hb : T.HasBuiltins) (hks : ks.Nodup)
    (hc : T.Coherent ks) : T.Reduces ks n := by
  rw [IsReductionOf, (coherent_iff_conflict hb hks).mp hc, if_neg (by decide)] at h
  exact ⟨hc, fun a => by rw [h, mem_reducedConstraints_iff_refines hb hc]⟩

/-- Constraints that are not coherent reduce to `never`. -/
theorem IsReductionOf.eq_never (h : T.IsReductionOf ks n) (hb : T.HasBuiltins) (hks : ks.Nodup)
    (hc : ¬ T.Coherent ks) : n = TypeId.never := by
  rwa [IsReductionOf, if_pos (by simpa [coherent_iff_conflict hb hks] using hc)] at h

/-- A constraint is demanded, or something that is demanded refines it. -/
theorem Reduces.mem_or_refined (h : T.Reduces ks n) (hb : T.HasBuiltins) (ha : a ∈ ks) :
    a ∈ T.demands n ∨ ∃ s ∈ T.demands n, T.Refines s a := by
  by_cases hkept : ∀ s ∈ ks, ¬ T.Refines s a
  · exact Or.inl ((h.mem_demands a).mpr ⟨ha, hkept⟩)
  · simp only [not_forall, not_not] at hkept
    obtain ⟨s, hs, hsa⟩ := hkept
    exact Or.inr ⟨s, (h.mem_demands s).mpr ⟨hs, fun r _ => hsa.not_refines hb⟩, hsa⟩

/-- A reduction demands nothing new. -/
theorem Reduces.demands_subset (h : T.Reduces ks n) : T.demands n ⊆ ks :=
  fun a ha => ((h.mem_demands a).mp ha).1

/-- Order and repetitions of constraints do not matter. -/
theorem Reduces.congr (h : T.Reduces ks n) (hls : ∀ a, a ∈ ks ↔ a ∈ ls) : T.Reduces ls n := by
  refine ⟨h.coherent.subset fun a ha => (hls a).mpr ha, fun a => ?_⟩
  rw [h.mem_demands, hls]
  simp only [hls]

/-- What is coherent with the reduced constraints is coherent with the original ones. -/
theorem Reduces.coherent_append (h : T.Reduces ks n) (hb : T.HasBuiltins) :
    T.Coherent (T.demands n ++ ls) ↔ T.Coherent (ks ++ ls) := by
  refine ⟨fun hc => ?_, fun hc => hc.subset (List.append_subset.mpr
    ⟨List.subset_append_of_subset_left ls h.demands_subset, List.subset_append_right ks ls⟩)⟩
  have hadmits : ∀ a ∈ ks, ∀ x ∈ ls, T.Admits a x ∧ T.Admits x a := by
    intro a ha x hx
    have hx' := List.mem_append_right (T.demands n) hx
    have hboth : ∀ s ∈ T.demands n, T.Admits s x ∧ T.Admits x s := fun s hs =>
      ⟨hc s (List.mem_append_left ls hs) x hx', hc x hx' s (List.mem_append_left ls hs)⟩
    -- a constraint that is dropped admits what its refinement admits
    rcases h.mem_or_refined hb ha with ha | ⟨s, hs, hsa⟩
    · exact hboth a ha
    · exact ⟨hsa.admits_left hb (hboth s hs).1, hsa.admits_right hb (hboth s hs).1 (hboth s hs).2⟩
  intro a ha x hx
  rcases List.mem_append.mp ha with ha | ha <;> rcases List.mem_append.mp hx with hx | hx
  · exact h.coherent a ha x hx
  · exact (hadmits a ha x hx).1
  · exact (hadmits x hx a ha).2
  · exact hc a (List.mem_append_right _ ha) x (List.mem_append_right _ hx)

/-- Constraints may be reduced before others are added. -/
theorem Reduces.append_iff (h : T.Reduces ks n) (hb : T.HasBuiltins) :
    T.Reduces (T.demands n ++ ls) m ↔ T.Reduces (ks ++ ls) m := by
  -- what refines something is itself refined by nothing, so it is never dropped
  have hrefiner : ∀ s a, T.Refines s a → (s ∈ T.demands n ++ ls ↔ s ∈ ks ++ ls) := by
    intro s a hsa
    rw [List.mem_append, List.mem_append, h.mem_demands]
    exact or_congr_left (and_iff_left fun r _ => hsa.not_refines hb)
  have hkept : ∀ a, (∀ s ∈ T.demands n ++ ls, ¬ T.Refines s a) ↔
      ∀ s ∈ ks ++ ls, ¬ T.Refines s a := fun a => forall_congr' fun s =>
    ⟨fun hs hmem hsa => hs ((hrefiner s a hsa).mpr hmem) hsa,
      fun hs hmem hsa => hs ((hrefiner s a hsa).mp hmem) hsa⟩
  have hmem : ∀ a, (a ∈ T.demands n ++ ls ∧ ∀ s ∈ T.demands n ++ ls, ¬ T.Refines s a) ↔
      a ∈ ks ++ ls ∧ ∀ s ∈ ks ++ ls, ¬ T.Refines s a := by
    intro a
    rw [hkept]
    refine and_congr_left fun hall => ?_
    rw [List.mem_append, List.mem_append, h.mem_demands]
    exact or_congr_left (and_iff_left fun s hs => hall s (List.mem_append_left ls hs))
  constructor
  · exact fun hm => ⟨(h.coherent_append hb).mp hm.coherent, fun a => by rw [hm.mem_demands, hmem]⟩
  · exact fun hm => ⟨(h.coherent_append hb).mpr hm.coherent, fun a => by rw [hm.mem_demands, hmem]⟩

end TypeTable

end TypeAssay
