import TypeAssay.Checker.Check
import TypeAssay.Proofs.Fixpoints
import TypeAssay.Proofs.Grammar

/-!
# What type expressions denote

`Denotes T i e` says that wherever the expression `e` stands, it resolves to the type `i` of the
table `T`, interns nothing and reports nothing. The expression that puts together what denotes the
parts of a canonical node denotes that node.
-/

namespace TypeAssay

open TypeTable Checking

/-- At any place, the expression resolves to the type, and that leaves no trace. -/
def Denotes (T : TypeTable) (i : TypeId) (e : TypeExpr) : Prop :=
  ∀ span (s : CheckState), s.table = T → (resolve (e.withSpan span)).run s = (i, s)

variable {T : TypeTable} {i : TypeId} {e : TypeExpr} {span : Span} {s : CheckState}

/-- Only the last span counts. -/
@[simp]
theorem TypeExpr.withSpan_withSpan (span span' : Span) (e : TypeExpr) :
    (e.withSpan span).withSpan span' = e.withSpan span' := by
  cases e <;> rfl

/-- An expression with its own span is itself. -/
theorem TypeExpr.withSpan_span (e : TypeExpr) : e.withSpan e.span = e := by cases e <;> rfl

/-- The expression is resolved to its type, and the state stays as it is. -/
theorem Denotes.run (h : Denotes T i e) (hs : s.table = T) : (resolve e).run s = (i, s) := by
  have := h e.span s hs
  rwa [e.withSpan_span] at this

/-- The span does not matter. -/
theorem Denotes.withSpan (h : Denotes T i e) (span : Span) : Denotes T i (e.withSpan span) := by
  intro span' s hs
  rw [TypeExpr.withSpan_withSpan]
  exact h span' s hs

/-! ## Building what is there -/

/-- What leaves the table as it is leaves the state as it is. -/
theorem run_interning {m : Interning TypeId} (h : m.run T = (i, T)) (hs : s.table = T) :
    (interning m).run s = (i, s) := by
  subst hs
  change ((m.run s.table).1, { s with table := (m.run s.table).2 }) = _
  rw [h]

/-- What leaves the table as it is leaves the state as it is, also with an error. -/
theorem run_build {α : Type} {m : Building α} {answer : Except TypeError α}
    (h : m.on T = (answer, T)) (hs : s.table = T) : (build m).run s = (answer, s) := by
  subst hs
  change ((m.on s.table).1, { s with table := (m.on s.table).2 }) = _
  rw [h]

/-- A type that is there needs no replacement. -/
theorem run_buildOrAny {m : Building TypeId} (h : m.on T = (.ok i, T)) (hs : s.table = T) :
    (buildOrAny m span).run s = (i, s) := by
  rw [buildOrAny, StateT.run_bind, run_build h hs]
  rfl

/-- A constraint that is met reports nothing. -/
theorem run_checkConstraint {m : Building Unit} (h : m.on T = (.ok (), T)) (hs : s.table = T) :
    (checkConstraint m span).run s = ((), s) := by
  rw [checkConstraint, StateT.run_bind, run_build h hs]
  rfl

/-- A node that is there is found. -/
theorem run_intern {t : Ty} (ht : T.get? i = some t) : (intern t).run T = (i, T) := by
  change T.intern t = _
  rw [intern_of_lookup (lookup_eq_some_iff.mpr ht)]

/-! ## Names and literals -/

/-- The name of a type denotes it. -/
theorem denotes_named {name : String} (h : TypeId.ofName? name = some i) :
    Denotes T i (.named name [] span) := by
  intro span s hs
  have hreferent : s.referent? name = some (.plain i) := by rw [CheckState.referent?, h]
  simp only [TypeExpr.withSpan, resolve, StateT.run_bind, StateT.run_get, pure_bind, hreferent]
  rfl

/-- A number denotes its literal type. -/
theorem denotes_number {x : Binary64} (ht : T.get? i = some (.literal (.number x)))
    (hx : (Literal.number x).IsCanonical) : Denotes T i (.number x span) := by
  intro span s hs
  rw [TypeExpr.withSpan, resolve, numberLiteral_of_isCanonical hx]
  exact run_buildOrAny (on_intern_of_get? ht) hs

/-- A bigint denotes its literal type. -/
theorem denotes_bigint {digits : String} (ht : T.get? i = some (.literal (.bigint digits)))
    (h : IsCanonicalBigint digits) : Denotes T i (.bigint digits span) := by
  intro span s hs
  rw [TypeExpr.withSpan, resolve, bigintLiteral_of_isCanonical h]
  exact run_buildOrAny (on_intern_of_get? ht) hs

/-- A string denotes its literal type. -/
theorem denotes_string {value : String} (ht : T.get? i = some (.literal (.string value))) :
    Denotes T i (.string value span) := by
  intro span s hs
  rw [TypeExpr.withSpan, resolve, stringLiteral]
  exact run_interning (run_intern ht) hs

/-! ## Compound types -/

/-- Expressions are resolved one by one. -/
theorem run_resolveAll {is : List TypeId} {es : List TypeExpr}
    (h : List.Forall₂ (Denotes T) is es) (hs : s.table = T) :
    (resolveAll es).run s = (is, s) := by
  induction h with
  | nil => rfl
  | cons he _ ih =>
    rw [resolveAll, StateT.run_bind, he.run hs]
    change StateT.run (resolveAll _ >>= _) s = _
    rw [StateT.run_bind, ih]
    rfl

/-- The union of the types that its members denote. -/
theorem denotes_union {is : List TypeId} {es : List TypeExpr} (h : List.Forall₂ (Denotes T) is es)
    (hi : (unionOf is).run T = (i, T)) : Denotes T i (.union es span) := by
  intro span s hs
  rw [TypeExpr.withSpan, resolve, StateT.run_bind, run_resolveAll h hs]
  exact run_interning hi hs

/-- The intersection of the types that its members denote. -/
theorem denotes_intersection {is : List TypeId} {es : List TypeExpr}
    (h : List.Forall₂ (Denotes T) is es) (hi : (intersectionOf is).on T = (.ok i, T)) :
    Denotes T i (.intersection es span) := by
  intro span s hs
  rw [TypeExpr.withSpan, resolve, StateT.run_bind, run_resolveAll h hs]
  exact run_buildOrAny hi hs

/-- An array of what its element denotes. -/
theorem denotes_array {j : TypeId} {readonly : Bool} (h : Denotes T j e)
    (ht : T.get? i = some (.array j readonly)) : Denotes T i (.array e readonly span) := by
  intro span s hs
  rw [TypeExpr.withSpan, resolve, StateT.run_bind, h.run hs]
  exact run_interning (run_intern ht) hs

/-- A tuple of what its elements denote. -/
theorem denotes_tuple {js : List TypeId} {es : List TypeExpr} {readonly : Bool}
    (h : List.Forall₂ (Denotes T) js es) (ht : T.get? i = some (.tuple js readonly)) :
    Denotes T i (.tuple es readonly span) := by
  intro span s hs
  rw [TypeExpr.withSpan, resolve, StateT.run_bind, run_resolveAll h hs]
  exact run_interning (run_intern ht) hs

/-- A property is resolved to one with the type that it denotes. -/
theorem run_resolveProperty {p : Property} {x : PropertyExpr}
    (h : IsPropertyExpr (fun p => Denotes T p.type) p x) (hs : s.table = T) :
    (resolveProperty x).run s = (p, s) := by
  obtain ⟨e, span, rfl, he⟩ := h
  rw [resolveProperty, StateT.run_bind, he.run hs]
  rfl

/-- Properties are resolved one by one. -/
theorem run_resolveProperties {ps : List Property} {es : List PropertyExpr}
    (h : List.Forall₂ (IsPropertyExpr fun p => Denotes T p.type) ps es) (hs : s.table = T) :
    (resolveProperties es).run s = (ps, s) := by
  induction h with
  | nil => rfl
  | cons hx _ ih =>
    rw [resolveProperties, StateT.run_bind, run_resolveProperty hx hs]
    change StateT.run (resolveProperties _ >>= _) s = _
    rw [StateT.run_bind, ih]
    rfl

/-- An object with the properties that are written. -/
theorem denotes_object {ps : List Property} {es : List PropertyExpr}
    (h : List.Forall₂ (IsPropertyExpr fun p => Denotes T p.type) ps es)
    (ht : T.get? i = some (.object ps)) (hps : T.CanonicalNode (.object ps)) :
    Denotes T i (.object es span) := by
  intro span s hs
  rw [TypeExpr.withSpan, resolve, StateT.run_bind, run_resolveProperties h hs]
  change StateT.run (buildOrAny (objectOf ps) span) s = _
  rw [objectOf_of_pairwise hps]
  exact run_buildOrAny (on_intern_of_get? ht) hs

/-! ## Written members -/

/-- The type that a written member of a union names. -/
def writtenId : Option TypeId → TypeId
  | none => TypeId.boolean
  | some m => m

section

variable {ms : List TypeId} {m : TypeId}

/-- What is written on its own is a member. -/
theorem mem_of_some_mem_writtenMembers (h : some m ∈ writtenMembers ms) : m ∈ ms := by
  rw [writtenMembers] at h
  split at h
  · simp only [List.mem_append, List.mem_cons, List.mem_map, reduceCtorEq, Option.some.injEq,
      exists_eq_right, false_or] at h
    rcases h with h | h
    · exact (List.takeWhile_sublist _).subset h
    · exact (List.dropWhile_sublist _).subset (List.mem_of_mem_filter h)
  · simpa using h

/-- The name `boolean` is written only where both truth values are members. -/
theorem mem_of_none_mem_writtenMembers (h : none ∈ writtenMembers ms) :
    TypeId.yes ∈ ms ∧ TypeId.no ∈ ms := by
  rw [writtenMembers] at h
  split at h
  · rename_i hboth
    simpa using hboth
  · simp at h

/-- A member is written on its own or as a part of `boolean`. -/
theorem mem_writtenMembers (hm : m ∈ ms) : some m ∈ writtenMembers ms ∨
    none ∈ writtenMembers ms ∧ (m = TypeId.yes ∨ m = TypeId.no) := by
  rw [writtenMembers]
  split
  · by_cases htruth : m = TypeId.yes ∨ m = TypeId.no
    · exact .inr ⟨by simp, htruth⟩
    · left
      have hsplit := List.takeWhile_append_dropWhile (l := ms)
        (p := fun i => !(decide (i = TypeId.yes) || decide (i = TypeId.no)))
      rw [← hsplit, List.mem_append] at hm
      simp only [List.mem_append, List.mem_cons, List.mem_map, Option.some.injEq, exists_eq_right,
        reduceCtorEq, false_or, List.mem_filter]
      refine hm.imp_right fun hm => ⟨hm, ?_⟩
      simpa using htruth
  · exact .inl (by simpa using hm)

/-- Something of a union is written. -/
theorem writtenMembers_ne_nil (h : T.CanonicalUnion ms) : writtenMembers ms ≠ [] := by
  intro hnil
  obtain ⟨m, hm⟩ := List.exists_mem_of_length_pos (Nat.lt_of_lt_of_le Nat.two_pos h.two_le)
  rcases mem_writtenMembers hm with hm | ⟨hm, _⟩
  · exact List.not_mem_nil (hnil ▸ hm)
  · exact List.not_mem_nil (hnil ▸ hm)

/-- What the written members of a canonical union open to are its members. -/
theorem mem_alternatives_writtenMembers (h : T.CanonicalUnion ms) (hb : T.HasBuiltins)
    (a : TypeId) :
    a ∈ ((writtenMembers ms).map writtenId).flatMap T.alternatives ↔ a ∈ ms := by
  -- `boolean` opens to the two truth values
  have hboolean : T.alternatives TypeId.boolean = [TypeId.yes, TypeId.no] := by
    have hget : T.get? TypeId.boolean = some (.union [TypeId.yes, TypeId.no]) := hb _ _ rfl
    rw [TypeTable.alternatives, hget]
  -- every other member opens to itself
  have hmember : ∀ m ∈ ms, T.alternatives m = [m] := by
    intro m hm
    obtain ⟨t, ht, halt⟩ := h.alternative m hm
    exact alternatives_of_not_union (isUnion_of_isAlternative ht halt)
  simp only [List.mem_flatMap, List.mem_map, exists_exists_and_eq_and]
  constructor
  · rintro ⟨w | m, hw, ha⟩
    · obtain ⟨hyes, hno⟩ := mem_of_none_mem_writtenMembers hw
      rw [writtenId, hboolean] at ha
      simp only [List.mem_cons, List.not_mem_nil, or_false] at ha
      rcases ha with rfl | rfl
      · exact hyes
      · exact hno
    · have hm := mem_of_some_mem_writtenMembers hw
      rw [writtenId, hmember m hm, List.mem_singleton] at ha
      exact ha ▸ hm
  · intro ha
    rcases mem_writtenMembers ha with hw | ⟨hw, htruth⟩
    · exact ⟨some a, hw, by simp [writtenId, hmember a ha]⟩
    · exact ⟨none, hw, by simp [writtenId, hboolean, htruth]⟩

/-- The union of what the written members name is the union that they were written for. -/
theorem run_unionOf_writtenMembers (h : T.CanonicalUnion ms) (hb : T.HasBuiltins)
    (ht : T.get? i = some (.union ms)) :
    (unionOf ((writtenMembers ms).map writtenId)).run T = (i, T) := by
  rw [h.run_unionOf_of_mem_iff hb (mem_alternatives_writtenMembers h hb)]
  exact run_intern ht

/-- A union that is written as one member is `boolean`. -/
theorem eq_boolean_of_writtenMembers {w : Option TypeId} (h : T.CanonicalUnion ms)
    (hb : T.HasBuiltins) (ht : T.get? i = some (.union ms)) (hw : writtenMembers ms = [w]) :
    w = none ∧ i = TypeId.boolean := by
  have hget : T.get? TypeId.boolean = some (.union [TypeId.yes, TypeId.no]) := hb _ _ rfl
  have hmem : ∀ a, a ∈ T.alternatives (writtenId w) ↔ a ∈ ms := by
    intro a
    rw [← mem_alternatives_writtenMembers h hb, hw, List.map_singleton, List.flatMap_singleton]
  cases w with
  | none =>
    have hms : [TypeId.yes, TypeId.no] = ms := by
      refine List.Pairwise.eq_of_mem_iff (by decide) h.ascending fun a => ?_
      rw [← hmem, writtenId, TypeTable.alternatives, hget]
    rw [← hms] at ht
    exact ⟨rfl, get?_injective ht hget⟩
  | some m =>
    have hmem' : m ∈ ms := mem_of_some_mem_writtenMembers (by simp [hw])
    -- a single other member would be a union of its own
    obtain ⟨t, hm, halt⟩ := h.alternative m hmem'
    have hms : [m] = ms := by
      refine List.Pairwise.eq_of_mem_iff (List.pairwise_singleton _ _) h.ascending fun a => ?_
      rw [← hmem, writtenId, alternatives_of_not_union (isUnion_of_isAlternative hm halt)]
    have htwo := h.two_le
    rw [← hms] at htwo
    exact absurd htwo (by simp)

end

end TypeAssay
