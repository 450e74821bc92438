import TypeAssay.Catalog
import TypeAssay.Proofs.NormalForms

/-!
# What relations build

A relation may intern types on the way to its answer: the normal forms that it compares, the
constraint of a batch, the union of the elements of a sequence. It builds nothing but canonical
types, whether it answers or fails. The rules here say so for each relation that changes a table;
the types that a relation is asked about come from a tidy table.
-/

namespace TypeAssay

open TypeTable

variable {T U : TypeTable} {a b i : TypeId}

/-! ## Normal forms and equality -/

/-- Normalizing a type of a tidy table gives a canonical type. -/
theorem yields_normalize (hT : T.Tidy) (hi : T.Canonical i) :
    (normalize i).Yields T fun n U => U.Canonical n :=
  (normalize_yields hT.hasBuiltins (hT.descends.acyclic hi.lt_size)).mono fun _ _ _ hn => hn.1

/-- A normal type of a type of a tidy table is canonical. -/
theorem yields_normalType (hT : T.Tidy) (hi : T.Canonical i) :
    (NormalType.of i).Yields T fun n U => U.Canonical n.type :=
  (yields_normalize hT hi).bind fun _ _ _ hn => .pure hn

/-- Comparing the normal forms of two types, whatever is then asked about them. -/
theorem yields_compareNormal {answer : NormalType → NormalType → Outcome} (hT : T.Tidy)
    (ha : T.Canonical a) (hb : T.Canonical b) :
    Building.Yields (do return answer (← NormalType.of a) (← NormalType.of b)) T
      fun _ _ => True := by
  refine (yields_normalType hT ha).bind fun _ U hTU _ => ?_
  exact (yields_normalType (hTU.tidy hT) (hTU.canonical hb)).bind fun _ _ _ _ => .pure trivial

/-- Comparing two types builds their normal forms only. -/
theorem yields_equal (hT : T.Tidy) (ha : T.Canonical a) (hb : T.Canonical b) :
    (equal a b).Yields T fun _ _ => True :=
  yields_compareNormal hT ha hb

/-- No comparison builds anything but normal forms. -/
theorem yields_compare (c : Comparison) (hT : T.Tidy) (ha : T.Canonical a) (hb : T.Canonical b) :
    (c.compare a b).Yields T fun _ _ => True := by
  cases c with
  | equal | notEqual => exact yields_compareNormal hT ha hb
  | simpleEqual | extending => exact Building.Yields.get (Building.Yields.pure trivial)

/-! ## Sequences -/

/-- A tuple of canonical types is canonical. -/
theorem yields_tupleOf {es : List TypeId} (readonly : Bool) (h : ∀ e ∈ es, T.Canonical e) :
    (tupleOf es readonly).Yields T fun n U => U.Canonical n :=
  Interning.yields_intern (t := .tuple es readonly) trivial h
    (canonical_intern (t := .tuple es readonly) trivial h)

/-- An array of a canonical type is canonical. -/
theorem yields_arrayOf (readonly : Bool) (hi : T.Canonical i) :
    (arrayOf i readonly).Yields T fun n U => U.Canonical n := by
  have hparts : ∀ j ∈ (Ty.array i readonly).parts, T.Canonical j := by simpa [Ty.parts] using hi
  exact Interning.yields_intern trivial hparts (canonical_intern trivial hparts)

/-- The elements of a sequence have a canonical type, however deep its alternatives nest. -/
theorem yields_elementTypeWithin (depth : Nat) (hb : T.HasBuiltins) (hi : T.Canonical i) :
    (elementTypeWithin depth i).Yields T fun n U => U.Canonical n := by
  induction depth generalizing T i with
  | zero => exact .pure hb.canonical_unknown
  | succ depth ih =>
    rw [elementTypeWithin]
    refine Interning.Yields.get ?_
    split
    · -- a tuple has the union of its elements
      rename_i es readonly hget
      exact (unionOf_yields hb fun e he => hi.part hget he).mono fun _ _ _ hn => hn.1
    · rename_i e readonly hget
      exact .pure (hi.part hget (by simp [Ty.parts]))
    · -- each alternative is a sequence, an intersection of them, or neither, one level down
      rename_i ms hget
      have hms : (ms.mapM (elementTypeWithin depth)).Yields T fun ns U =>
          List.Forall₂ (fun _ n => U.Canonical n) ms ns :=
        Interning.yields_mapM (Q := fun _ n U => U.Canonical n)
          (fun m hm U hTU => ih (hTU.hasBuiltins hb) (hTU.canonical (hi.part hget hm)))
          fun _ _ _ _ hUV hn => hUV.canonical hn
      refine hms.bind fun ns U hTU hns => ?_
      have hns' := forall_right_of_forall₂ hns fun _ _ hn => hn
      exact (unionOf_yields (hTU.hasBuiltins hb) hns').mono fun _ _ _ hn => hn.1
    · exact .pure hb.canonical_never
    · exact .pure hb.canonical_any
    · exact .pure hb.canonical_unknown

/-- The element type of a sequence is canonical. -/
theorem yields_elementType (hb : T.HasBuiltins) (hi : T.Canonical i) :
    (elementType i).Yields T fun n U => U.Canonical n :=
  Interning.Yields.get (yields_elementTypeWithin T.levelBound hb hi)

/-! ## Assertions and batches -/

/-- An assertion builds normal forms only. -/
theorem yields_expectLiteral (target : Bool) (hT : T.Tidy) (hi : T.Canonical i) :
    (expectLiteral i target).Yields T fun _ _ => True := by
  rw [expectLiteral]
  refine Building.Yields.get ?_
  split
  · exact .throw
  · exact yields_equal hT hi (hT.hasBuiltins.canonical_ofBool target)

/-- What an assertion demands of its argument is looked up, not built. -/
theorem yields_assertionConstraint (target : Bool) :
    Building.Yields (do ExceptT.mk (return (← get).assertionConstraint i target)) T
      fun _ _ => True :=
  ⟨.refl, fun _ _ => trivial⟩

/-- The constraint of a batch is an array of a literal. -/
theorem yields_batchConstraint (target : Bool) (hb : T.HasBuiltins) :
    (batchConstraint i target).Yields T fun _ _ => True := by
  refine (yields_arrayOf true (hb.canonical_ofBool target)).lift.bind fun _ U _ _ => ?_
  refine Building.Yields.get ?_
  split
  · exact .pure trivial
  · exact .throw

/-- A batch is folded by comparing its element type. -/
theorem yields_foldBatch (target : Bool) (hT : T.Tidy) (hi : T.Canonical i) :
    (foldBatch i target).Yields T fun _ _ => True := by
  refine (yields_elementType hT.hasBuiltins hi).lift.bind fun _ U hTU he => ?_
  have hU := hTU.tidy hT
  refine (yields_equal hU he (hU.hasBuiltins.canonical_ofBool target)).bind fun _ _ _ _ => ?_
  exact Building.Yields.get (Building.Yields.pure trivial)

/-- A batch builds its constraint, its element type and normal forms. -/
theorem yields_expectBatch (target : Bool) (hT : T.Tidy) (hi : T.Canonical i) :
    (expectBatch i target).Yields T fun _ _ => True :=
  (yields_batchConstraint target hT.hasBuiltins).bind fun _ _ hTU _ =>
    yields_foldBatch target (hTU.tidy hT) (hTU.canonical hi)

/-- An outcome is a built-in type. -/
theorem TypeTable.HasBuiltins.canonical_toType (hb : T.HasBuiltins) (o : Outcome) :
    T.Canonical o.toType := by
  rcases o with ⟨_ | _, _ | _⟩
  · exact hb.canonical_never
  · exact hb.canonical_ofBool false
  · exact hb.canonical_ofBool true
  · exact hb.canonical_boolean

/-- A batch of outcomes builds the tuple of them in addition. -/
theorem yields_expectBatchOf (outcomes : List Outcome) (target : Bool) (hT : T.Tidy) :
    (expectBatchOf outcomes target).Yields T fun _ _ => True := by
  have hcases : ∀ e ∈ outcomes.map Outcome.toType, T.Canonical e := by
    intro e he
    obtain ⟨o, _, rfl⟩ := List.mem_map.mp he
    exact hT.hasBuiltins.canonical_toType o
  exact (yields_tupleOf false hcases).lift.bind fun _ _ hTU hn =>
    yields_expectBatch target (hTU.tidy hT) hn

end TypeAssay
