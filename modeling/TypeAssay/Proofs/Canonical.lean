import TypeAssay.Lattice.Normalize
import TypeAssay.Proofs.Growth
import TypeAssay.Relation.Extends

/-!
# Canonical types

What the constructors promise about the nodes that they intern. Whether a node is canonical depends
on what its parts are, so `CanonicalNode` is said of a node in a table, and an id is `Canonical`
when all nodes that it reaches are.

A table that only interned canonical nodes over canonical parts (`Builds`) is `Tidy`: each node in
it is canonical and refers to smaller ids.
-/

namespace TypeAssay

/-! ## Nodes -/

/-- Digits without leading zeros, and a sign only in front of a number other than zero. -/
def IsCanonicalBigint (digits : String) : Prop :=
  digits = "0" ∨ ∃ d ds, d ≠ '0' ∧ (d :: ds).all Char.isDigit ∧
    (digits = String.ofList (d :: ds) ∨ digits = String.ofList ('-' :: d :: ds))

/-- A literal in its one written form. -/
def Literal.IsCanonical : Literal → Prop
  | number x => x.isNaN = false ∧ (x.isZero → x = .zero)
  | bigint digits => IsCanonicalBigint digits
  | string _ | boolean _ => True

/-- Whether a node can be a member of a canonical union. -/
def Ty.isAlternative : Ty → Bool
  | any | never | unknown | union _ => false
  | _ => true

/-- Whether a node can be a member of a canonical intersection. -/
def Ty.isConstraint : Ty → Bool
  | any | never | unknown | union _ | intersection _ => false
  | _ => true

/-- What can stand in an intersection can stand in a union. -/
theorem Ty.isAlternative_of_isConstraint {t : Ty} (h : t.isConstraint) : t.isAlternative := by
  cases t <;> first | rfl | exact absurd h Bool.false_ne_true

namespace TypeTable

variable {T U V : TypeTable} {i j : TypeId} {t : Ty} {ms : List TypeId}

/-- Whether an id names a literal or a primitive other than `object`. -/
def isScalar (T : TypeTable) (i : TypeId) : Bool :=
  (T.scalar? i).isSome || (T.literal? i).isSome

/-- Two or more alternatives in ascending order, and no literal next to its own primitive. -/
structure CanonicalUnion (T : TypeTable) (ms : List TypeId) : Prop where
  two_le : 2 ≤ ms.length
  ascending : ms.Pairwise (· < ·)
  alternative : ∀ m ∈ ms, ∃ t, T.get? m = some t ∧ t.isAlternative
  folded : ∀ m ∈ ms, ∀ p, T.literalBase? m = some p → p.id ∉ ms

/-- Two or more constraints in ascending order that do not rule each other out: at most one scalar,
none next to `object`, and no nullish primitive next to a structured type. -/
structure CanonicalIntersection (T : TypeTable) (ms : List TypeId) : Prop where
  two_le : 2 ≤ ms.length
  ascending : ms.Pairwise (· < ·)
  constraint : ∀ m ∈ ms, ∃ t, T.get? m = some t ∧ t.isConstraint
  one_scalar : ∀ a ∈ ms, ∀ b ∈ ms, T.isScalar a → T.isScalar b → a = b
  object_alone : TypeId.object ∈ ms → ∀ m ∈ ms, T.isScalar m = false
  structured : ∀ m ∈ ms, T.isStructured m → ∀ p : Primitive, p.isNullish → p.id ∉ ms

/-- Whether a node has the form that its constructor gives. -/
def CanonicalNode (T : TypeTable) : Ty → Prop
  | .literal l => l.IsCanonical
  | .union ms => T.CanonicalUnion ms
  | .intersection ms => T.CanonicalIntersection ms
  | .object ps => (ps.map (·.name)).Pairwise (· < ·)
  | _ => True

/-- Every type that `i` reaches has a canonical node, and going down from it ends. -/
inductive Canonical (T : TypeTable) : TypeId → Prop
  | node {i : TypeId} {t : Ty} (get? : T.get? i = some t) (canonical : T.CanonicalNode t)
      (parts : ∀ j ∈ t.parts, Canonical T j) : Canonical T i

/-- Going down from a canonical type ends. -/
theorem Canonical.founded (h : T.Canonical i) : T.Founded i := by
  induction h with
  | node ht _ _ ih => exact .node ht ih

/-- A canonical type has a node. -/
theorem Canonical.lt_size (h : T.Canonical i) : i < T.size := h.founded.lt_size

/-- The node of a canonical type has the form that its constructor gives. -/
theorem Canonical.canonicalNode (h : T.Canonical i) (ht : T.get? i = some t) :
    T.CanonicalNode t := by
  cases h with
  | node hu hc _ => exact Option.some.inj (ht.symm.trans hu) ▸ hc

/-- The parts of a canonical type are canonical. -/
theorem Canonical.part (h : T.Canonical i) (ht : T.get? i = some t) (hj : j ∈ t.parts) :
    T.Canonical j := by
  cases h with
  | node hu _ hp =>
    obtain rfl : t = _ := Option.some.inj (ht.symm.trans hu)
    exact hp j hj

/-- All that a canonical type reaches is canonical. -/
theorem Canonical.of_reaches (h : T.Canonical i) (hj : T.Reaches i j) : T.Canonical j := by
  induction hj with
  | refl => exact h
  | tail _ hjk ih =>
    obtain ⟨t, ht, hk⟩ := hjk
    exact ih.part ht hk

/-- For a type without parts only its own node counts. -/
theorem canonical_of_leaf (ht : T.get? i = some t) (hc : T.CanonicalNode t) (hp : t.parts = []) :
    T.Canonical i :=
  .node ht hc fun j hj => by simp [hp] at hj

/-! ## The built-in types -/

/-- The type `any` is canonical. -/
theorem HasBuiltins.canonical_any (h : T.HasBuiltins) : T.Canonical TypeId.any :=
  canonical_of_leaf h.any trivial rfl

/-- The type `never` is canonical. -/
theorem HasBuiltins.canonical_never (h : T.HasBuiltins) : T.Canonical TypeId.never :=
  canonical_of_leaf h.never trivial rfl

/-- The type `unknown` is canonical. -/
theorem HasBuiltins.canonical_unknown (h : T.HasBuiltins) : T.Canonical TypeId.unknown :=
  canonical_of_leaf h.unknown trivial rfl

/-- The primitives are canonical. -/
theorem HasBuiltins.canonical_primitive (h : T.HasBuiltins) (p : Primitive) : T.Canonical p.id :=
  canonical_of_leaf (h.primitive p) trivial rfl

/-- The literals `true` and `false` are canonical. -/
theorem HasBuiltins.canonical_ofBool (h : T.HasBuiltins) (b : Bool) :
    T.Canonical (TypeId.ofBool b) :=
  canonical_of_leaf (h.ofBool b) trivial rfl

/-- Neither literal of `boolean` has a primitive that it could be folded into. -/
theorem HasBuiltins.canonicalUnion_boolean (h : T.HasBuiltins) :
    T.CanonicalUnion [TypeId.yes, TypeId.no] := by
  have hmem : ∀ m ∈ [TypeId.yes, TypeId.no], ∃ b, T.get? m = some (.literal (.boolean b)) := by
    simp only [List.forall_mem_cons, List.not_mem_nil, false_implies, implies_true, and_true]
    exact ⟨⟨true, h.ofBool true⟩, ⟨false, h.ofBool false⟩⟩
  refine ⟨by simp, by simp, fun m hm => ?_, fun m hm p hp => ?_⟩
  · obtain ⟨b, hb⟩ := hmem m hm
    exact ⟨_, hb, rfl⟩
  · obtain ⟨b, hb⟩ := hmem m hm
    simp [literalBase?, hb, Ty.literal?, Literal.base?] at hp

/-- The type `boolean` is canonical. -/
theorem HasBuiltins.canonical_boolean (h : T.HasBuiltins) : T.Canonical TypeId.boolean := by
  refine .node (h _ (.union [TypeId.yes, TypeId.no]) rfl) h.canonicalUnion_boolean ?_
  simp only [Ty.parts, List.forall_mem_cons, List.not_mem_nil, false_implies, implies_true,
    and_true]
  exact ⟨h.canonical_ofBool true, h.canonical_ofBool false⟩

/-! ## Canonical types in later tables -/

/-- The subjects of an old type stay the same. -/
theorem Grows.subjects_eq (h : Grows T U) (hi : i < T.size) : U.subjects i = T.subjects i := by
  rw [subjects, subjects, h.get?_eq hi]

/-- The alternatives of an old type stay the same. -/
theorem Grows.alternatives_eq (h : Grows T U) (hi : i < T.size) :
    U.alternatives i = T.alternatives i := by
  rw [alternatives, alternatives, h.get?_eq hi]

/-- The constraints of an old type stay the same. -/
theorem Grows.constraints_eq (h : Grows T U) (hi : i < T.size) :
    U.constraints i = T.constraints i := by
  rw [constraints, constraints, h.get?_eq hi]

/-- Which primitive an old type is stays the same. -/
theorem Grows.primitive?_eq (h : Grows T U) (hi : i < T.size) :
    U.primitive? i = T.primitive? i := by
  rw [primitive?, primitive?, h.get?_eq hi]

/-- Which scalar primitive an old type is stays the same. -/
theorem Grows.scalar?_eq (h : Grows T U) (hi : i < T.size) : U.scalar? i = T.scalar? i := by
  rw [scalar?, scalar?, h.primitive?_eq hi]

/-- Which literal an old type is stays the same. -/
theorem Grows.literal?_eq (h : Grows T U) (hi : i < T.size) : U.literal? i = T.literal? i := by
  rw [literal?, literal?, h.get?_eq hi]

/-- What an old literal widens to stays the same. -/
theorem Grows.literalBase?_eq (h : Grows T U) (hi : i < T.size) :
    U.literalBase? i = T.literalBase? i := by
  rw [literalBase?, literalBase?, h.get?_eq hi]

/-- Whether an old type is a scalar stays the same. -/
theorem Grows.isScalar_eq (h : Grows T U) (hi : i < T.size) : U.isScalar i = T.isScalar i := by
  rw [isScalar, isScalar, h.scalar?_eq hi, h.literal?_eq hi]

/-- Whether an old type is structured stays the same. -/
theorem Grows.isStructured_eq (h : Grows T U) (hi : i < T.size) :
    U.isStructured i = T.isStructured i := by
  rw [isStructured, isStructured, h.get?_eq hi]

/-- A node over old parts has its form in every later table. -/
theorem Grows.canonicalNode (h : Grows T U) (hparts : ∀ j ∈ t.parts, j < T.size)
    (ht : T.CanonicalNode t) : U.CanonicalNode t := by
  cases t with
  | union ms =>
    refine ⟨ht.two_le, ht.ascending, fun m hm => ?_, fun m hm p hp => ?_⟩
    · obtain ⟨t, hget, halt⟩ := ht.alternative m hm
      exact ⟨t, h.get? hget, halt⟩
    · exact ht.folded m hm p (by rwa [h.literalBase?_eq (hparts m hm)] at hp)
  | intersection ms =>
    have hscalar : ∀ m ∈ ms, U.isScalar m = T.isScalar m := fun m hm => h.isScalar_eq (hparts m hm)
    -- members are old, so each of the questions about them is answered as before
    refine ⟨ht.two_le, ht.ascending, fun m hm => ?_, fun a ha b hb => ?_, fun hobj m hm => ?_,
      fun m hm hs => ?_⟩
    · obtain ⟨t, hget, hcon⟩ := ht.constraint m hm
      exact ⟨t, h.get? hget, hcon⟩
    · rw [hscalar a ha, hscalar b hb]
      exact ht.one_scalar a ha b hb
    · rw [hscalar m hm]
      exact ht.object_alone hobj m hm
    · rw [h.isStructured_eq (hparts m hm)] at hs
      exact ht.structured m hm hs
  | literal _ | object _ => exact ht
  | any | never | unknown | primitive _ | tuple _ _ | array _ _ => trivial

/-- A canonical type stays canonical. -/
theorem Grows.canonical (h : Grows T U) (hi : T.Canonical i) : U.Canonical i := by
  induction hi with
  | node ht hc hp ih =>
    exact .node (h.get? ht) (h.canonicalNode (fun j hj => (hp j hj).lt_size) hc) ih

/-- A canonical node over canonical parts is canonical once it is interned. -/
theorem canonical_intern (hc : T.CanonicalNode t) (hp : ∀ j ∈ t.parts, T.Canonical j) :
    (T.intern t).2.Canonical (T.intern t).1 := by
  have hgrows := grows_intern T t
  exact .node (get?_intern_fst T t) (hgrows.canonicalNode (fun j hj => (hp j hj).lt_size) hc)
    fun j hj => hgrows.canonical (hp j hj)

/-! ## Tables of canonical types -/

/-- `U` comes from `T` by interning canonical nodes over canonical parts. -/
inductive Builds (T : TypeTable) : TypeTable → Prop
  | refl : Builds T T
  | intern {U : TypeTable} {t : Ty} (h : Builds T U) (canonical : U.CanonicalNode t)
      (parts : ∀ j ∈ t.parts, U.Canonical j) : Builds T (U.intern t).2

/-- Building further is building. -/
theorem Builds.trans (h : Builds T U) (h' : Builds U V) : Builds T V := by
  induction h' with
  | refl => exact h
  | intern _ hc hp ih => exact ih.intern hc hp

/-- Building canonical nodes is growing. -/
theorem Builds.grows (h : Builds T U) : Grows T U := by
  induction h with
  | refl => exact .refl
  | intern _ _ _ ih => exact ih.intern _

/-- An id keeps its type while others are built. -/
theorem Builds.get? (h : Builds T U) (ht : T.get? i = some t) : U.get? i = some t := h.grows.get? ht

/-- The built-in types stay where they are. -/
theorem Builds.hasBuiltins (h : Builds T U) (hT : T.HasBuiltins) : U.HasBuiltins :=
  h.grows.hasBuiltins hT

/-- Canonical types stay canonical while others are built. -/
theorem Builds.canonical (h : Builds T U) (hi : T.Canonical i) : U.Canonical i :=
  h.grows.canonical hi

/-- Each node refers to smaller ids only. -/
def Descends (T : TypeTable) : Prop := ∀ i t, T.get? i = some t → ∀ j ∈ t.parts, j < i

/-- A node over old parts refers to smaller ids, whichever id it gets. -/
theorem Descends.intern (h : T.Descends) (hp : ∀ j ∈ t.parts, j < T.size) :
    (T.intern t).2.Descends := by
  intro i u hu j hj
  rcases get?_intern_cases hu with hu | ⟨rfl, rfl, _⟩
  · exact h i u hu j hj
  · exact hp j hj

/-- The one built-in type with parts, `boolean`, comes after them. -/
theorem descends_withOptions (o : Options) : (withOptions o).Descends := by
  have hbuiltins : ∀ i < builtins.length, ∀ t ∈ builtins[i]?, ∀ j ∈ t.parts, j < i := by decide
  intro i t ht
  rw [get?_withOptions] at ht
  exact hbuiltins i (List.getElem?_eq_some_iff.mp ht).1 t ht

/-- A part has a smaller id than the whole. -/
theorem Descends.lt (h : T.Descends) (hij : T.Refers i j) : j < i := by
  obtain ⟨t, ht, hj⟩ := hij
  exact h i t ht j hj

/-- Nothing that a type reaches has a larger id. -/
theorem Descends.le_of_reaches (h : T.Descends) (hij : T.Reaches i j) : j ≤ i := by
  induction hij with
  | refl => exact Nat.le_refl i
  | tail _ hkl ih => exact Nat.le_trans (Nat.le_of_lt (h.lt hkl)) ih

/-- Where each node refers to smaller ids, there are no circles and no dangling ids. -/
theorem Descends.acyclic (h : T.Descends) (hi : i < T.size) : T.Acyclic i := by
  constructor
  · intro j _ hcircle
    -- a circle would lead from an id to a smaller one, and back
    have hlt : ∀ k, Relation.TransGen T.Refers j k → k < j := by
      intro k hk
      induction hk with
      | single hjk => exact h.lt hjk
      | tail _ hkl ih => exact Nat.lt_trans (h.lt hkl) ih
    exact Nat.lt_irrefl j (hlt j hcircle)
  · intro j hj
    exact exists_get?_of_lt_size (Nat.lt_of_le_of_lt (h.le_of_reaches hj) hi)

/-- Each node is canonical and refers to smaller ids only. -/
structure Tidy (T : TypeTable) : Prop where
  hasBuiltins : T.HasBuiltins
  descends : T.Descends
  canonicalNode : ∀ i t, T.get? i = some t → T.CanonicalNode t

/-- A new table is tidy. -/
theorem tidy_withOptions (o : Options) : (withOptions o).Tidy := by
  refine ⟨hasBuiltins_withOptions o, descends_withOptions o, fun i t ht => ?_⟩
  rw [get?_withOptions] at ht
  have hmem : t ∈ builtins := List.mem_of_getElem? ht
  simp only [builtins, Primitive.all, List.map_cons, List.map_nil, List.cons_append,
    List.nil_append, List.mem_cons, List.not_mem_nil, or_false] at hmem
  -- besides `boolean`, no built-in node says anything about other nodes
  cases t with
  | any | never | unknown | primitive _ | tuple _ _ | array _ _ => trivial
  | literal l =>
    cases l with
    | string _ | boolean _ => trivial
    | number _ | bigint _ => simp at hmem
  | union ms =>
    obtain rfl : ms = [TypeId.yes, TypeId.no] := by simpa using hmem
    exact (hasBuiltins_withOptions o).canonicalUnion_boolean
  | intersection _ | object _ => simp at hmem

/-- All types of a tidy table are canonical. -/
theorem Tidy.canonical (h : T.Tidy) (hi : i < T.size) : T.Canonical i := by
  -- by strong induction on the id: the parts have smaller ones
  induction i using Nat.strong_induction_on with
  | _ i ih =>
    obtain ⟨t, ht⟩ := exists_get?_of_lt_size hi
    refine .node ht (h.canonicalNode i t ht) fun j hj => ?_
    have hlt : j < i := h.descends i t ht j hj
    exact ih j hlt (Nat.lt_trans hlt hi)

/-- What one step adds: a canonical node whose parts were there before. -/
theorem Tidy.intern (h : T.Tidy) (hc : T.CanonicalNode t) (hp : ∀ j ∈ t.parts, T.Canonical j) :
    (T.intern t).2.Tidy := by
  have hgrows := grows_intern T t
  have hlt : ∀ j ∈ t.parts, j < T.size := fun j hj => (hp j hj).lt_size
  refine ⟨hgrows.hasBuiltins h.hasBuiltins, h.descends.intern hlt, fun i u hu => ?_⟩
  -- an old node keeps its parts, and the new one has parts that are old
  rcases get?_intern_cases hu with hu | ⟨rfl, _, _⟩
  · refine hgrows.canonicalNode (fun j hj => ?_) (h.canonicalNode i u hu)
    exact Nat.lt_trans (h.descends i u hu j hj) (lt_size_of_get? hu)
  · exact hgrows.canonicalNode hlt hc

/-- A tidy table stays tidy while canonical types are built. -/
theorem Builds.tidy (h : Builds T U) (hT : T.Tidy) : U.Tidy := by
  induction h with
  | refl => exact hT
  | intern _ hc hp ih => exact ih.intern hc hp

end TypeTable

end TypeAssay
