import Mathlib.Data.Finset.Card
import Mathlib.Data.List.Nodup
import Mathlib.Logic.Relation
import TypeAssay.Lattice.Table

/-!
# Growth of a type table

A table changes in one way only: it interns one more node. So a later table agrees with an earlier
one on every id that the earlier one gave out, and with it on everything that can be reached from
such an id.

* `Grows.get?` : an id once given out never changes its type.
* `hasBuiltins_withOptions` : a new table holds the built-in types at their ids.
* `nestsWithin_size` : without circles and without dangling ids, types nest no deeper than the table
  has types.
-/

namespace TypeAssay

/-! ## Lists of answers -/

/-- Conditions that agree on the elements of a list hold for all of them alike. -/
theorem all_eq_of_forall_mem {α : Type} {p q : α → Bool} {xs : List α}
    (h : ∀ x ∈ xs, p x = q x) : xs.all p = xs.all q := by
  rw [Bool.eq_iff_iff, List.all_eq_true, List.all_eq_true]
  exact forall₂_congr fun x hx => by rw [h x hx]

/-- Conditions that agree on the elements of a list hold for some of them alike. -/
theorem any_eq_of_forall_mem {α : Type} {p q : α → Bool} {xs : List α}
    (h : ∀ x ∈ xs, p x = q x) : xs.any p = xs.any q := by
  rw [Bool.eq_iff_iff, List.any_eq_true, List.any_eq_true]
  exact exists_congr fun x => and_congr_right fun hx => by rw [h x hx]

/-- Functions that agree on the elements of a list give the same answers for it. -/
theorem mapM_eq_of_forall_mem {α β : Type} {f g : α → Option β} {xs : List α}
    (h : ∀ x ∈ xs, f x = g x) : xs.mapM f = xs.mapM g := by
  induction xs with
  | nil => rfl
  | cons x xs ih =>
    rw [List.mapM_cons, List.mapM_cons, h x List.mem_cons_self,
      ih fun y hy => h y (List.mem_cons_of_mem x hy)]

namespace TypeTable

variable {T U V : TypeTable} {i j : TypeId} {t : Ty}

/-! ## Tables that come from others -/

/-- `U` comes from `T` by interning nodes as they are, in any number and in any order. -/
inductive Grows (T : TypeTable) : TypeTable → Prop
  | refl : Grows T T
  | intern {U : TypeTable} (t : Ty) : Grows T U → Grows T (U.intern t).2

/-- Growing further is growing. -/
theorem Grows.trans (h : Grows T U) (h' : Grows U V) : Grows T V := by
  induction h' with
  | refl => exact h
  | intern t _ ih => exact ih.intern t

/-- Interning one node is growing. -/
theorem grows_intern (T : TypeTable) (t : Ty) : Grows T (T.intern t).2 := Grows.refl.intern t

/-- An id once given out never changes its type. -/
theorem Grows.get? (h : Grows T U) (ht : T.get? i = some t) : U.get? i = some t := by
  induction h with
  | refl => exact ht
  | intern u _ ih => exact get?_intern_of_get? ih u

/-- A table never gets smaller. -/
theorem Grows.size_le (h : Grows T U) : T.size ≤ U.size := by
  induction h with
  | refl => exact Nat.le_refl _
  | intern u _ ih => exact Nat.le_trans ih (size_le_size_intern _ u)

/-- The options stay those of the first table. -/
theorem Grows.options_eq (h : Grows T U) : U.options = T.options := by
  induction h with
  | refl => rfl
  | intern u _ ih => rw [options_intern, ih]

/-- Every id below the size names a type. -/
theorem exists_get?_of_lt_size (h : i < T.size) : ∃ t, T.get? i = some t := by
  cases ht : T.get? i with
  | some t => exact ⟨t, rfl⟩
  | none => exact absurd h (Nat.not_lt.mpr (get?_eq_none_iff.mp ht))

/-- Both tables have the same node at an id of the earlier one. -/
theorem Grows.get?_eq (h : Grows T U) (hi : i < T.size) : U.get? i = T.get? i := by
  obtain ⟨t, ht⟩ := exists_get?_of_lt_size hi
  rw [ht]
  exact h.get? ht

/-- A node that is not found is not in the table. -/
theorem lookup_eq_none_iff : T.lookup t = none ↔ ∀ i, T.get? i ≠ some t := by
  rw [Option.eq_none_iff_forall_ne_some]
  exact forall_congr' fun i => not_congr lookup_eq_some_iff

/-- A node that the table does not hold gets the next id. -/
theorem get?_intern_size (h : T.lookup t = none) : (T.intern t).2.get? T.size = some t := by
  have := get?_intern_fst T t
  rwa [(intern_of_lookup_eq_none h).1] at this

/-- A node that the table does not hold makes it larger by one. -/
theorem size_intern (h : T.lookup t = none) : (T.intern t).2.size = T.size + 1 := by
  simp [size, (intern_of_lookup_eq_none h).2.1]

/-- What a table holds after interning a node: what it held, and that node. -/
theorem get?_intern_cases {u : Ty} (h : (T.intern t).2.get? i = some u) :
    T.get? i = some u ∨ (u = t ∧ i = T.size ∧ T.lookup t = none) := by
  cases hl : T.lookup t with
  | some k =>
    rw [intern_of_lookup hl] at h
    exact Or.inl h
  | none =>
    by_cases hi : i < T.size
    · exact Or.inl (by rw [← (grows_intern T t).get?_eq hi]; exact h)
    · have hlt := lt_size_of_get? h
      rw [size_intern hl] at hlt
      obtain rfl : i = T.size := Nat.le_antisymm (Nat.lt_succ_iff.mp hlt) (Nat.not_lt.mp hi)
      rw [get?_intern_size hl] at h
      exact Or.inr ⟨(Option.some.inj h).symm, rfl, rfl⟩

/-- Interning a node does not bring another one that the table does not hold. -/
theorem lookup_intern_eq_none {u : Ty} (h : T.lookup u = none) (hne : u ≠ t) :
    (T.intern t).2.lookup u = none := by
  refine lookup_eq_none_iff.mpr fun i hi => ?_
  rcases get?_intern_cases hi with hi | ⟨rfl, _, _⟩
  · exact lookup_eq_none_iff.mp h i hi
  · exact hne rfl

/-! ## The built-in types -/

/-- The table holds the built-in types at their ids. -/
def HasBuiltins (T : TypeTable) : Prop := ∀ i t, builtins[i]? = some t → T.get? i = some t

/-- The built-in types stay where they are. -/
theorem Grows.hasBuiltins (h : Grows T U) (hT : T.HasBuiltins) : U.HasBuiltins :=
  fun i t ht => h.get? (hT i t ht)

/-- New and different nodes are put at the end, in the order in which they are interned. -/
theorem types_foldl_intern {ts : List Ty} (hnew : ∀ t ∈ ts, T.lookup t = none)
    (hts : ts.Nodup) :
    (ts.foldl (fun T t => (T.intern t).2) T).types = T.types ++ ts.toArray := by
  induction ts generalizing T with
  | nil => simp
  | cons t ts ih =>
    obtain ⟨hmem, hts⟩ := List.nodup_cons.mp hts
    have ht : T.lookup t = none := hnew t List.mem_cons_self
    -- the nodes behind are still new once the first one is in, since they differ from it
    have hnew' : ∀ u ∈ ts, (T.intern t).2.lookup u = none := fun u hu =>
      lookup_intern_eq_none (hnew u (List.mem_cons_of_mem _ hu)) fun hut => hmem (hut ▸ hu)
    rw [List.foldl_cons, ih hnew' hts, (intern_of_lookup_eq_none ht).2.1]
    simp

/-- A new table holds the built-in types in their order. -/
theorem types_withOptions (o : Options) : (withOptions o).types = builtins.toArray := by
  rw [withOptions, types_foldl_intern]
  · simp [empty]
  · intro t _
    simp [lookup, empty]
  · decide

/-- A new table holds the built-in types and nothing else. -/
theorem get?_withOptions (o : Options) (i : TypeId) : (withOptions o).get? i = builtins[i]? := by
  rw [get?, types_withOptions]
  simp

/-- There are fourteen built-in types. -/
theorem size_withOptions (o : Options) : (withOptions o).size = 14 := by
  rw [size, types_withOptions]
  rfl

/-- A new table has the options that it is made with. -/
theorem options_withOptions (o : Options) : (withOptions o).options = o := by
  have hfold : ∀ (ts : List Ty) (T : TypeTable),
      (ts.foldl (fun T t => (T.intern t).2) T).options = T.options := by
    intro ts
    induction ts with
    | nil => exact fun _ => rfl
    | cons t ts ih => exact fun T => (ih _).trans (options_intern T t)
  exact hfold _ _

/-- A node that is not built in is new to a new table. -/
theorem lookup_withOptions_eq_none {o : Options} (h : t ∉ builtins) :
    (withOptions o).lookup t = none := by
  refine lookup_eq_none_iff.mpr fun i hi => h ?_
  rw [get?_withOptions] at hi
  exact List.mem_of_getElem? hi

/-- The first node that is new to a new table. -/
theorem get?_intern_withOptions {o : Options} (h : t ∉ builtins) :
    ((withOptions o).intern t).2.get? 14 = some t := by
  have hget := get?_intern_size (lookup_withOptions_eq_none (o := o) h)
  rwa [size_withOptions] at hget

/-- A new table has the built-in types at their ids. -/
theorem hasBuiltins_withOptions (o : Options) : (withOptions o).HasBuiltins :=
  fun i t ht => by rw [get?_withOptions, ht]

/-! ### Given nodes -/

/-- A new table that interned the nodes `ts`, one after the other. -/
def withNodes (o : Options) (ts : List Ty) : TypeTable :=
  ts.foldl (fun T t => (T.intern t).2) (withOptions o)

/-- A table with given nodes comes from a new one. -/
theorem grows_withNodes (o : Options) (ts : List Ty) : Grows (withOptions o) (withNodes o ts) := by
  have hfold : ∀ T : TypeTable, Grows T (ts.foldl (fun T t => (T.intern t).2) T) := by
    induction ts with
    | nil => exact fun _ => .refl
    | cons t ts ih => exact fun T => (grows_intern T t).trans (ih _)
  exact hfold _

/-- New and different nodes follow the built-in types in their order. -/
theorem types_withNodes {o : Options} {ts : List Ty} (hnew : ∀ t ∈ ts, t ∉ builtins)
    (hts : ts.Nodup) : (withNodes o ts).types = (builtins ++ ts).toArray := by
  rw [withNodes, types_foldl_intern (fun t ht => lookup_withOptions_eq_none (hnew t ht)) hts,
    types_withOptions, List.append_toArray]

/-- Where only the first nodes are interned, only these follow the built-in types. -/
theorem types_withNodes_take {o : Options} {ts : List Ty} (hnew : ∀ t ∈ ts, t ∉ builtins)
    (hts : ts.Nodup) (count : Nat) :
    (withNodes o (ts.take count)).types = (builtins ++ ts.take count).toArray :=
  types_withNodes (fun t ht => hnew t (List.mem_of_mem_take ht))
    (hts.sublist (List.take_sublist count ts))

/-- A table may be written down with its types, its options and the index that comes of its
nodes. -/
theorem mk_eq_withNodes {o : Options} {ts : List Ty} {types : Array Ty}
    (htypes : (withNodes o ts).types = types) {hindex} :
    (⟨types, (withNodes o ts).index, o, hindex⟩ : TypeTable) = withNodes o ts := by
  have heta : ∀ (T : TypeTable) {types options hindex}, T.types = types → T.options = options →
      (⟨types, T.index, options, hindex⟩ : TypeTable) = T := by
    rintro T types options hindex rfl rfl
    rfl
  exact heta _ htypes ((grows_withNodes o ts).options_eq.trans (options_withOptions o))

/-- Nodes that are new get the ids after the built-in types. -/
theorem get?_withNodes {o : Options} {ts : List Ty} (hnew : ∀ t ∈ ts, t ∉ builtins)
    (hts : ts.Nodup) (i : TypeId) : (withNodes o ts).get? i = (builtins ++ ts)[i]? := by
  rw [get?, types_withNodes hnew hts, List.getElem?_toArray]

/-! ### Their ids -/

/-- The id of `any` names `any`. -/
theorem HasBuiltins.any (h : T.HasBuiltins) : T.get? TypeId.any = some .any := h _ _ rfl

/-- The id of `never` names `never`. -/
theorem HasBuiltins.never (h : T.HasBuiltins) : T.get? TypeId.never = some .never := h _ _ rfl

/-- The id of `unknown` names `unknown`. -/
theorem HasBuiltins.unknown (h : T.HasBuiltins) : T.get? TypeId.unknown = some .unknown := h _ _ rfl

/-- The ids of `true` and `false` name these literals. -/
theorem HasBuiltins.ofBool (h : T.HasBuiltins) (b : Bool) :
    T.get? (TypeId.ofBool b) = some (.literal (.boolean b)) := by
  cases b <;> exact h _ _ rfl

/-- The id of a primitive names that primitive. -/
theorem HasBuiltins.primitive (h : T.HasBuiltins) (p : Primitive) :
    T.get? p.id = some (.primitive p) := by
  apply h
  cases p <;> rfl

/-- A primitive is found at its own id only. -/
theorem HasBuiltins.eq_id (h : T.HasBuiltins) {p : Primitive}
    (hi : T.get? i = some (.primitive p)) : i = p.id :=
  get?_injective hi (h.primitive p)

/-- Different primitives have different ids. -/
theorem HasBuiltins.primitive_injective (h : T.HasBuiltins) {p q : Primitive}
    (hpq : p.id = q.id) : p = q := by
  have := h.primitive p
  rw [hpq, h.primitive q] at this
  exact (Ty.primitive.inj (Option.some.inj this)).symm

/-- Only `any` gets the id of `any`. -/
theorem HasBuiltins.intern_fst_ne_any (h : T.HasBuiltins) (ht : t ≠ .any) :
    (T.intern t).1 ≠ TypeId.any := by
  intro hany
  have hget := get?_intern_fst T t
  rw [hany, ((grows_intern T t).hasBuiltins h).any] at hget
  exact ht (Option.some.inj hget).symm

/-! ## What a type refers to -/

/-- The node with id `i` has `j` among its parts. -/
def Refers (T : TypeTable) (i j : TypeId) : Prop := ∃ t, T.get? i = some t ∧ j ∈ t.parts

/-- `j` is `i`, or a part of it at some depth. -/
def Reaches (T : TypeTable) : TypeId → TypeId → Prop := Relation.ReflTransGen T.Refers

/-- A type refers to each of the parts of its node. -/
theorem refers_of_get? (h : T.get? i = some t) (hj : j ∈ t.parts) : T.Refers i j := ⟨t, h, hj⟩

/-- What a part of a type reaches, the type reaches. -/
theorem Reaches.of_part {k : TypeId} (h : T.get? i = some t) (hj : j ∈ t.parts)
    (hk : T.Reaches j k) : T.Reaches i k :=
  Relation.ReflTransGen.head (refers_of_get? h hj) hk

/-- What a type reaches is the type itself or is reached through one of its parts. -/
theorem Reaches.eq_or_part (h : T.Reaches i j) (ht : T.get? i = some t) :
    j = i ∨ ∃ k ∈ t.parts, T.Reaches k j := by
  rcases h.cases_head with rfl | ⟨k, ⟨u, hu, hk⟩, hkj⟩
  · exact Or.inl rfl
  · obtain rfl := Option.some.inj (ht.symm.trans hu)
    exact Or.inr ⟨k, hk, hkj⟩

/-- A type without parts reaches nothing but itself. -/
theorem Reaches.eq_of_leaf (h : T.Reaches i j) (ht : T.get? i = some t) (hleaf : t.parts = []) :
    j = i := by
  rcases h.eq_or_part ht with rfl | ⟨k, hk, _⟩
  · rfl
  · rw [hleaf] at hk
    exact absurd hk (by simp)

/-- A primitive reaches only itself. -/
theorem HasBuiltins.eq_of_reaches_primitive (hb : T.HasBuiltins) {p : Primitive}
    (h : T.Reaches p.id j) : j = p.id :=
  h.eq_of_leaf (hb.primitive p) rfl

/-- Going down from a type never comes back to an id and never meets one of no type. -/
structure Acyclic (T : TypeTable) (i : TypeId) : Prop where
  irreflexive : ∀ j, T.Reaches i j → ¬ Relation.TransGen T.Refers j j
  present : ∀ j, T.Reaches i j → ∃ t, T.get? j = some t

/-- The parts of a type without circles have no circles. -/
theorem Acyclic.part (h : T.Acyclic i) (ht : T.get? i = some t) (hj : j ∈ t.parts) :
    T.Acyclic j :=
  ⟨fun k hk => h.irreflexive k (.of_part ht hj hk), fun k hk => h.present k (.of_part ht hj hk)⟩

/-- Going down from a type takes at most `depth` levels and never meets an id of no type. -/
inductive NestsWithin (T : TypeTable) : Nat → TypeId → Prop
  | node {depth : Nat} {i : TypeId} {t : Ty} (get? : T.get? i = some t)
      (parts : ∀ j ∈ t.parts, NestsWithin T depth j) : NestsWithin T (depth + 1) i

/-- If all that a type reaches lies in a finite set of ids, the size of the set bounds the depth:
the parts of a type without circles do not reach the type itself. -/
theorem Acyclic.nestsWithin_card (h : T.Acyclic i) {s : Finset TypeId}
    (hs : ∀ j, T.Reaches i j → j ∈ s) : T.NestsWithin s.card i := by
  induction hn : s.card generalizing s i with
  | zero =>
    rw [Finset.card_eq_zero] at hn
    exact absurd (hs i .refl) (by simp [hn])
  | succ n ih =>
    obtain ⟨t, ht⟩ := h.present i .refl
    refine .node ht fun j hj => ?_
    have hsub : ∀ k, T.Reaches j k → k ∈ s.erase i := by
      -- a part that reaches the type again would close a circle, so one id fewer is left for it
      intro k hk
      refine Finset.mem_erase.mpr ⟨?_, hs k (.of_part ht hj hk)⟩
      rintro rfl
      exact h.irreflexive k .refl (Relation.TransGen.head' (refers_of_get? ht hj) hk)
    refine ih (h.part ht hj) hsub ?_
    rw [Finset.card_erase_of_mem (hs i .refl), hn]
    rfl

/-- Without circles and without dangling ids, types nest no deeper than the table has types. -/
theorem Acyclic.nestsWithin_size (h : T.Acyclic i) : T.NestsWithin T.size i := by
  have := h.nestsWithin_card (s := Finset.range T.size) fun j hj => by
    obtain ⟨t, ht⟩ := h.present j hj
    exact Finset.mem_range.mpr (lt_size_of_get? ht)
  rwa [Finset.card_range] at this

/-- Every type that `i` reaches has a node, and going down from it ends. -/
inductive Founded (T : TypeTable) : TypeId → Prop
  | node {i : TypeId} {t : Ty} (get? : T.get? i = some t) (parts : ∀ j ∈ t.parts, Founded T j) :
      Founded T i

/-- Where a type nests to a bounded depth, going down ends. -/
theorem NestsWithin.founded {depth : Nat} (h : T.NestsWithin depth i) : T.Founded i := by
  induction h with
  | node ht _ ih => exact .node ht ih

/-- A type from which going down ends has a node. -/
theorem Founded.lt_size (h : T.Founded i) : i < T.size := by
  cases h with
  | node ht _ => exact lt_size_of_get? ht

/-- Where going down ends there are no circles. -/
theorem Founded.acyclic (h : T.Founded i) : T.Acyclic i := by
  induction h with
  | @node i t ht _ ih =>
    refine ⟨fun j hj hcircle => ?_, fun j hj => ?_⟩
    · rcases hj.eq_or_part ht with rfl | ⟨k, hk, hkj⟩
      · -- a circle through the type itself goes through one of its parts
        obtain ⟨k, ⟨u, hu, hk⟩, hkj⟩ := Relation.TransGen.head'_iff.mp hcircle
        obtain rfl := Option.some.inj (ht.symm.trans hu)
        exact (ih k hk).irreflexive j hkj hcircle
      · exact (ih k hk).irreflexive j hkj hcircle
    · rcases hj.eq_or_part ht with rfl | ⟨k, hk, hkj⟩
      · exact ⟨t, ht⟩
      · exact (ih k hk).present j hkj

end TypeTable

end TypeAssay
