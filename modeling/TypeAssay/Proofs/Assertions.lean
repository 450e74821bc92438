import TypeAssay.Proofs.Batches
import TypeAssay.Proofs.Grouping

/-!
# Single assertions

What a single assertion answers, for every type that clients can build under strict null checks
(`on_expectLiteral`). The constraint is decided by assignability and the value by identity. The two
agree on types without intersections, `never` aside, which fits every literal and equals none. They
do not agree on an intersection that has the literal next to other constraints: it fits the literal
without being it, so the assertion lets it through and answers no (`on_expectLiteral_brandTable`),
though `never` was to be the only type that it lets through like that.
-/

namespace TypeAssay

open TypeTable Building

variable {T : TypeTable} {o : Options} {i : TypeId} {target : Bool}

namespace TypeTable

/-! ## What fits a truth value -/

/-- Whether each alternative of a type is a truth value or has it among its constraints. -/
def Narrows (T : TypeTable) (i : TypeId) (target : Bool) : Prop :=
  ∀ s ∈ T.subjects i, TypeId.ofBool target ∈ T.constraints s

instance : Decidable (T.Narrows i target) :=
  inferInstanceAs (Decidable (∀ s ∈ T.subjects i, TypeId.ofBool target ∈ T.constraints s))

/-- `never` has no alternatives. -/
theorem HasBuiltins.narrows_never (hb : T.HasBuiltins) (target : Bool) :
    T.Narrows TypeId.never target := by
  simp [Narrows, subjects, hb.never]

/-- The truth value asks for itself. -/
theorem HasBuiltins.narrows_ofBool (hb : T.HasBuiltins) (target : Bool) :
    T.Narrows (TypeId.ofBool target) target := by
  simp [Narrows, subjects, constraints, hb.ofBool target]

/-- The type `any` asks for no truth value. -/
theorem HasBuiltins.not_narrows_any (hb : T.HasBuiltins) (target : Bool) :
    ¬ T.Narrows TypeId.any target := by
  cases target <;> simp [Narrows, subjects, constraints, hb.any, TypeId.ofBool]

/-- Under strict null checks the types that fit a truth value are those that narrow it, and
`any`. -/
theorem Tidy.assignable_ofBool_iff_narrows (hT : T.Tidy) (hstrict : T.options.strictNullChecks)
    (hi : i < T.size) (hany : i ≠ TypeId.any) :
    T.assignable i (TypeId.ofBool target) ↔ T.Narrows i target := by
  have hb := hT.hasBuiltins
  have hliteral := hb.ofBool target
  rw [hT.assignable_iff_subjects hi (lt_size_of_get? hliteral)]
  refine forall₂_congr fun s hs => ?_
  rcases hT.subjects hi hany hs with rfl | halt
  · -- `unknown` fits no literal and has none among its constraints
    rw [hT.not_unknown_assignable hliteral (by simp) (by simp)]
    cases target <;> simp [constraints, hb.unknown, TypeId.ofBool]
  · exact ⟨hT.mem_constraints_of_literal hstrict halt hliteral,
      (hT.reading_assignable halt).forall_constraints.mpr (assignable_self s) _⟩

/-- Where no alternative is an intersection, only `never` and a truth value itself narrow it. -/
theorem Tidy.narrows_iff (hT : T.Tidy) (target : Bool) (hi : i < T.size)
    (hinter : ∀ s ∈ T.subjects i, ∀ ms, T.get? s ≠ some (.intersection ms)) :
    T.Narrows i target ↔ i = TypeId.never ∨ i = TypeId.ofBool target := by
  have hb := hT.hasBuiltins
  refine ⟨fun h => ?_, ?_⟩
  · -- without intersections a subject has one constraint, itself
    have heq : ∀ s ∈ T.subjects i, s = TypeId.ofBool target := fun s hs => by
      have hmem := h s hs
      rw [constraints] at hmem
      split at hmem
      · exact absurd ‹_› (hinter s hs _)
      · exact (List.mem_singleton.mp hmem).symm
    obtain ⟨t, ht⟩ := exists_get?_of_lt_size hi
    rw [TypeTable.subjects, ht] at heq
    cases t with
    | never => exact Or.inl (get?_injective ht hb.never)
    | union ms =>
      -- a union has two members, which would both be the literal
      have hms : T.CanonicalUnion ms := hT.canonicalNode i _ ht
      have hone := length_le_one_of_forall_eq hms.ascending.nodup fun a ha b hb =>
        (heq a ha).trans (heq b hb).symm
      exact absurd (hms.two_le.trans hone) (by decide)
    | any | unknown | primitive _ | literal _ | intersection _ | tuple _ _ | array _ _ | object _ =>
      exact Or.inr (heq i (List.mem_singleton_self i))
  · rintro (rfl | rfl)
    · exact hb.narrows_never target
    · exact hb.narrows_ofBool target

/-! ## Branded types -/

/-- A table of the given nodes, its types written out, so that it can be looked up in them. -/
def writtenTable (nodes : List Ty)
    (h : (withNodes {} nodes).types = (builtins ++ nodes).toArray) : TypeTable where
  types := (builtins ++ nodes).toArray
  index := (withNodes {} nodes).index
  options := {}
  index_iff := h ▸ (withNodes {} nodes).index_iff

/-- The table that is written down is the one that is built. -/
theorem writtenTable_eq (nodes : List Ty)
    (h : (withNodes {} nodes).types = (builtins ++ nodes).toArray) :
    writtenTable nodes h = withNodes {} nodes :=
  mk_eq_withNodes h

/-- A written table is a client's where each node is well-formed in the table of those before it. -/
theorem runs_writtenTable {nodes : List Ty}
    (htypes : ∀ k, (withNodes {} (nodes.take k)).types = (builtins ++ nodes.take k).toArray)
    (hnew : ∀ t ∈ nodes, t ∉ builtins) (hnodup : nodes.Nodup)
    (hc : ∀ k t, nodes[k]? = some t → (writtenTable (nodes.take k) (htypes k)).CanonicalNode t)
    (hp : ∀ k t, nodes[k]? = some t → ∀ j ∈ t.parts, j < builtins.length + k) (count : Nat) :
    Runs (withOptions {}) (writtenTable (nodes.take count) (htypes count)) := by
  rw [writtenTable_eq]
  refine runs_withNodes_take hnew hnodup (fun k t hk => ?_) hp count
  rw [← writtenTable_eq _ (htypes k)]
  exact hc k t hk

/-- Nodes that a table can be written of: none of them is built in, and none comes twice. -/
structure Listing where
  nodes : List Ty
  fresh : ∀ t ∈ nodes, t ∉ builtins
  nodup : nodes.Nodup

/-- The table of the first nodes. -/
def Listing.table (l : Listing) (count : Nat) : TypeTable :=
  writtenTable (l.nodes.take count) (types_withNodes_take l.fresh l.nodup count)

/-- Clients can build the table, one node after the other. -/
theorem Listing.runs (l : Listing)
    (h : ∀ k t, l.nodes[k]? = some t →
      (l.table k).CanonicalNode t ∧ ∀ j ∈ t.parts, j < builtins.length + k) (count : Nat) :
    Runs (withOptions {}) (l.table count) :=
  runs_writtenTable (types_withNodes_take l.fresh l.nodup) l.fresh l.nodup
    (fun k t hk => (h k t hk).1) (fun k t hk => (h k t hk).2) count

/-- A shape that serves as a brand, the branded `true`, a tuple of `true`, the branded tuple, and
the arrays of anything and of `true`. -/
def brands : List Ty :=
  [.object [{ name := "a", type := TypeId.number }], .intersection [TypeId.yes, 14],
    .tuple [TypeId.yes] false, .intersection [14, 16], .array TypeId.unknown true,
    .array TypeId.yes true]

/-- The types of the table are the built-in ones and the brands. -/
theorem types_withNodes_brands (count : Nat) :
    (withNodes {} (brands.take count)).types = (builtins ++ brands.take count).toArray :=
  types_withNodes_take (by decide) (by decide) count

/-- The table of the first brands. -/
def brandTable (count : Nat) : TypeTable :=
  writtenTable (brands.take count) (types_withNodes_brands count)

/-- Each brand is canonical where it is entered. -/
theorem canonicalNode_brandTable (k : Nat) (t : Ty) (hk : brands[k]? = some t) :
    (brandTable k).CanonicalNode t := by
  have hlt : k < 6 := (List.getElem?_eq_some_iff.mp hk).1
  interval_cases k <;> obtain rfl := Option.some.inj hk
  · exact List.pairwise_singleton _ _
  · exact canonicalIntersection_of_get? (by decide) (by decide) (by decide) (by decide) (by decide)
      (by decide)
  · trivial
  · exact canonicalIntersection_of_get? (by decide) (by decide) (by decide) (by decide) (by decide)
      (by decide)
  · trivial
  · trivial

/-- Clients can build the table. -/
theorem runs_brandTable (count : Nat) : Runs (withOptions {}) (brandTable count) := by
  refine runs_writtenTable types_withNodes_brands (by decide) (by decide)
    canonicalNode_brandTable (fun k t hk => ?_) count
  have hlt : k < 6 := (List.getElem?_eq_some_iff.mp hk).1
  interval_cases k <;> obtain rfl := Option.some.inj hk <;> decide

end TypeTable

/-! ## What an assertion answers -/

/-- `any` is refused though it fits, so the constraint lets exactly the types through that narrow
the literal. -/
theorem TypeTable.Tidy.assertionConstraint_eq (hT : T.Tidy)
    (hstrict : T.options.strictNullChecks) (hi : i < T.size) :
    (T.Narrows i target → T.assertionConstraint i target = .ok ()) ∧
      (¬ T.Narrows i target → T.assertionConstraint i target =
        .error (.assertionFailed (T.display (TypeId.ofBool target)) (T.display i))) := by
  have hfits : (i ≠ TypeId.any && T.assignable i (TypeId.ofBool target)) = true ↔
      T.Narrows i target := by
    rw [Bool.and_eq_true, decide_eq_true_eq]
    by_cases hany : i = TypeId.any
    · subst hany
      exact iff_of_false (fun h => h.1 rfl) (hT.hasBuiltins.not_narrows_any target)
    · rw [hT.assignable_ofBool_iff_narrows hstrict hi hany, and_iff_right hany]
  exact ⟨fun h => if_pos (hfits.mpr h), fun h => if_neg (mt hfits.mp h)⟩

/-- What the constraint lets through is compared with the literal. -/
theorem TypeTable.Tidy.on_expectLiteral_of_narrows (hT : T.Tidy)
    (hstrict : T.options.strictNullChecks) (hi : i < T.size) (h : T.Narrows i target) :
    (expectLiteral i target).on T = (.ok (.ofBool (i = TypeId.ofBool target)), T) := by
  have hb := hT.hasBuiltins
  rw [expectLiteral, on_get_bind, (hT.assertionConstraint_eq hstrict hi).1 h]
  exact on_equal_ok (on_normalize hb (hT.canonical hi))
    (on_normalize hb (hb.canonical_ofBool target))

/-- What the constraint does not let through is reported. -/
theorem TypeTable.Tidy.on_expectLiteral_of_not_narrows (hT : T.Tidy)
    (hstrict : T.options.strictNullChecks) (hi : i < T.size) (h : ¬ T.Narrows i target) :
    (expectLiteral i target).on T =
      (.error (.assertionFailed (T.display (TypeId.ofBool target)) (T.display i)), T) := by
  rw [expectLiteral, on_get_bind, (hT.assertionConstraint_eq hstrict hi).2 h]
  rfl

/-- What a single assertion answers: yes for the literal, no for every other type whose alternatives
all have the literal among their constraints, and an error that shows both types else. So where no
alternative is an intersection, the answer is yes for the literal, no for `never`, and an error for
every other type. -/
theorem on_expectLiteral (hT : Runs (withOptions o) T) (hstrict : T.options.strictNullChecks)
    (hi : i < T.size) (target : Bool) :
    let failure := TypeError.assertionFailed (T.display (TypeId.ofBool target)) (T.display i)
    (expectLiteral i target).on T =
        (if i = TypeId.ofBool target then .ok .yes
          else if T.Narrows i target then .ok .no else .error failure, T) ∧
      ((∀ s ∈ T.subjects i, ∀ ms, T.get? s ≠ some (.intersection ms)) →
        (expectLiteral i target).on T =
          (if i = TypeId.ofBool target then .ok .yes
            else if i = TypeId.never then .ok .no else .error failure, T)) := by
  intro failure
  have htidy := hT.tidy
  have hanswer : (expectLiteral i target).on T =
      (if i = TypeId.ofBool target then .ok .yes
        else if T.Narrows i target then .ok .no else .error failure, T) := by
    -- the constraint is met exactly where each alternative asks for the truth value
    by_cases h : T.Narrows i target
    · rw [htidy.on_expectLiteral_of_narrows hstrict hi h, if_pos h]
      by_cases hliteral : i = TypeId.ofBool target <;> simp [hliteral, Outcome.ofBool, Outcome.yes,
        Outcome.no]
    · have hliteral : i ≠ TypeId.ofBool target := by
        rintro rfl
        exact h (htidy.hasBuiltins.narrows_ofBool target)
      rw [htidy.on_expectLiteral_of_not_narrows hstrict hi h, if_neg hliteral, if_neg h]
  refine ⟨hanswer, fun hinter => ?_⟩
  have hiff := htidy.narrows_iff target hi hinter
  rw [hanswer]
  by_cases hliteral : i = TypeId.ofBool target
  · rw [if_pos hliteral, if_pos hliteral]
  · simp only [if_neg hliteral, hiff, or_iff_left hliteral]

/-- The truth values are not one of them, which is reported. -/
theorem on_expectLiteral_boolean :
    Runs (withOptions {}) (brandTable 2) ∧ (brandTable 2).options.strictNullChecks ∧
      TypeId.boolean < (brandTable 2).size ∧
      (∀ s ∈ (brandTable 2).subjects TypeId.boolean, ∀ ms,
        (brandTable 2).get? s ≠ some (.intersection ms)) ∧
      (expectLiteral TypeId.boolean true).on (brandTable 2) =
        (.error (.assertionFailed ((brandTable 2).display TypeId.yes)
          ((brandTable 2).display TypeId.boolean)), brandTable 2) := by
  have hinter : ∀ s ∈ (brandTable 2).subjects TypeId.boolean, ∀ ms,
      (brandTable 2).get? s ≠ some (.intersection ms) := by
    have hsubjects : ∀ s ∈ (brandTable 2).subjects TypeId.boolean,
        ∃ b, (brandTable 2).get? s = some (.literal (.boolean b)) := by decide
    intro s hs ms hget
    obtain ⟨b, hb⟩ := hsubjects s hs
    exact absurd (hb.symm.trans hget) (by simp)
  have hsize : TypeId.boolean < (brandTable 2).size := by decide
  exact ⟨runs_brandTable 2, rfl, hsize, hinter,
    (on_expectLiteral (runs_brandTable 2) rfl hsize true).2 hinter⟩

/-- A branded `true` is neither `true` nor `never`; it meets the constraint, and then the answer is
no. -/
theorem on_expectLiteral_brandTable :
    Runs (withOptions {}) (brandTable 2) ∧ (brandTable 2).options.strictNullChecks ∧
      (brandTable 2).get? 15 = some (.intersection [TypeId.yes, 14]) ∧
      15 ≠ TypeId.ofBool true ∧ 15 ≠ TypeId.never ∧
      (expectLiteral 15 true).on (brandTable 2) = (.ok .no, brandTable 2) := by
  have hnarrows : (brandTable 2).Narrows 15 true := by decide
  exact ⟨runs_brandTable 2, rfl, rfl, by decide, by decide,
    (runs_brandTable 2).tidy.on_expectLiteral_of_narrows rfl (by decide) hnarrows⟩

end TypeAssay
