import Mathlib.Data.List.Perm.Basic
import Mathlib.Data.List.Sort
import Mathlib.Data.String.Basic
import TypeAssay.Proofs.Computation

/-!
# Types that unfold to the same tree

Ids say nothing of what a type is: one type has different ids in two tables that were filled in
different orders. `Similar` compares what types unfold to, node by node. How strict the comparison
is with members and with properties is a `Likeness`: in order, up to order, or as sets.

* `Founded.similar` : a type unfolds to the same tree in a later table.
* `Similar.eq_of_canonical` : canonical types of one table that unfold to one tree are the same,
  even if members and properties are compared as sets.
-/

namespace TypeAssay

/-! ## Lists that correspond -/

/-- Each element of one list has a partner in the other, whatever the order and however often. -/
structure SameElements {α β : Type} (R : α → β → Prop) (xs : List α) (ys : List β) : Prop where
  left : ∀ x ∈ xs, ∃ y ∈ ys, R x y
  right : ∀ y ∈ ys, ∃ x ∈ xs, R x y

/-- One list is the other, element by element, once it is put into another order. -/
def Reordered {α β : Type} (R : α → β → Prop) (xs : List α) (ys : List β) : Prop :=
  ∃ zs, List.Forall₂ R xs zs ∧ zs.Perm ys

section

variable {α β γ δ : Type} {R : α → β → Prop} {S : γ → δ → Prop} {xs : List α} {ys : List β}

/-- Another relation that holds of the elements that correspond. -/
theorem forall₂_mono {R' : α → β → Prop} (hR : ∀ x ∈ xs, ∀ y ∈ ys, R x y → R' x y)
    (h : List.Forall₂ R xs ys) : List.Forall₂ R' xs ys := by
  rw [List.forall₂_iff_zip] at h ⊢
  refine ⟨h.1, fun {x y} hxy => ?_⟩
  obtain ⟨hx, hy⟩ := List.of_mem_zip hxy
  exact hR x hx y hy (h.2 hxy)

/-- Another relation that holds of the partners. -/
theorem SameElements.mono {R' : α → β → Prop} (hR : ∀ x ∈ xs, ∀ y ∈ ys, R x y → R' x y)
    (h : SameElements R xs ys) : SameElements R' xs ys where
  left x hx := by
    obtain ⟨y, hy, hxy⟩ := h.left x hx
    exact ⟨y, hy, hR x hx y hy hxy⟩
  right y hy := by
    obtain ⟨x, hx, hxy⟩ := h.right y hy
    exact ⟨x, hx, hR x hx y hy hxy⟩

/-- Read from the other side, partners are partners. -/
theorem SameElements.symm (h : SameElements R xs ys) : SameElements (flip R) ys xs :=
  ⟨h.right, h.left⟩

/-- Where lists correspond element by element, everyone has a partner. -/
theorem SameElements.of_forall₂ (h : List.Forall₂ R xs ys) : SameElements R xs ys := by
  induction h with
  | nil => exact ⟨by simp, by simp⟩
  | @cons x y xs ys hxy _ ih =>
    refine ⟨fun z hz => ?_, fun z hz => ?_⟩
    · rcases List.mem_cons.mp hz with rfl | hz
      · exact ⟨y, List.mem_cons_self, hxy⟩
      · obtain ⟨w, hw, hzw⟩ := ih.left z hz
        exact ⟨w, List.mem_cons_of_mem y hw, hzw⟩
    · rcases List.mem_cons.mp hz with rfl | hz
      · exact ⟨x, List.mem_cons_self, hxy⟩
      · obtain ⟨w, hw, hwz⟩ := ih.right z hz
        exact ⟨w, List.mem_cons_of_mem x hw, hwz⟩

/-- Lists that are made of partners in the same way have the same elements. -/
theorem SameElements.flatMap {f : α → List γ} {g : β → List δ} (h : SameElements R xs ys)
    (hfg : ∀ x y, R x y → SameElements S (f x) (g y)) :
    SameElements S (xs.flatMap f) (ys.flatMap g) := by
  refine ⟨fun a ha => ?_, fun b hb => ?_⟩
  · obtain ⟨x, hx, ha⟩ := List.mem_flatMap.mp ha
    obtain ⟨y, hy, hxy⟩ := h.left x hx
    obtain ⟨b, hb, hab⟩ := (hfg x y hxy).left a ha
    exact ⟨b, List.mem_flatMap.mpr ⟨y, hy, hb⟩, hab⟩
  · obtain ⟨y, hy, hb⟩ := List.mem_flatMap.mp hb
    obtain ⟨x, hx, hxy⟩ := h.right y hy
    obtain ⟨a, ha, hab⟩ := (hfg x y hxy).right b hb
    exact ⟨a, List.mem_flatMap.mpr ⟨x, hx, ha⟩, hab⟩

/-- Lists that correspond in order correspond in some order. -/
theorem Reordered.of_forall₂ (h : List.Forall₂ R xs ys) : Reordered R xs ys := ⟨ys, h, .refl ys⟩

/-- Another relation that holds of the elements that correspond. -/
theorem Reordered.mono {R' : α → β → Prop} (hR : ∀ x ∈ xs, ∀ y ∈ ys, R x y → R' x y)
    (h : Reordered R xs ys) : Reordered R' xs ys := by
  obtain ⟨zs, hzs, hperm⟩ := h
  exact ⟨zs, forall₂_mono (fun x hx z hz => hR x hx z (hperm.subset hz)) hzs, hperm⟩

/-- Up to order each element has a partner. -/
theorem Reordered.sameElements (h : Reordered R xs ys) : SameElements R xs ys := by
  obtain ⟨zs, hzs, hperm⟩ := h
  have hsame := SameElements.of_forall₂ hzs
  refine ⟨fun x hx => ?_, fun y hy => hsame.right y (hperm.symm.subset hy)⟩
  obtain ⟨z, hz, hxz⟩ := hsame.left x hx
  exact ⟨z, hperm.subset hz, hxz⟩

/-- Putting a list in another order does not make it longer or shorter. -/
theorem Reordered.length_eq (h : Reordered R xs ys) : xs.length = ys.length := by
  obtain ⟨zs, hzs, hperm⟩ := h
  exact hzs.length_eq.trans hperm.length_eq

/-- Lists without repetitions that have the same elements, where each has one partner only, are
equal but for the order. -/
theorem Reordered.of_sameElements (hxs : xs.Nodup) (hys : ys.Nodup) (h : SameElements R xs ys)
    (hright : ∀ x ∈ xs, ∀ y ∈ ys, ∀ y' ∈ ys, R x y → R x y' → y = y')
    (hleft : ∀ y ∈ ys, ∀ x ∈ xs, ∀ x' ∈ xs, R x y → R x' y → x = x') : Reordered R xs ys := by
  classical
  induction xs generalizing ys with
  -- nothing is left for the other list, since each of its elements has a partner
  | nil =>
    have hnil : ys = [] := List.eq_nil_iff_forall_not_mem.mpr fun y hy => by
      obtain ⟨x, hx, -⟩ := h.right y hy
      exact absurd hx List.not_mem_nil
    exact ⟨[], .nil, hnil ▸ .refl _⟩
  | cons x xs ih =>
    obtain ⟨hx, hxs⟩ := List.nodup_cons.mp hxs
    obtain ⟨y, hy, hxy⟩ := h.left x List.mem_cons_self
    have hsub : ∀ z ∈ ys.erase y, z ∈ ys := fun z hz => List.mem_of_mem_erase hz
    -- the partner of `x` is taken away; nobody else had it
    have hrest : SameElements R xs (ys.erase y) := by
      refine ⟨fun x' hx' => ?_, fun y' hy' => ?_⟩
      · obtain ⟨y', hy', hxy'⟩ := h.left x' (List.mem_cons_of_mem x hx')
        refine ⟨y', (hys.mem_erase_iff).mpr ⟨?_, hy'⟩, hxy'⟩
        rintro rfl
        have := hleft y' hy x List.mem_cons_self x' (List.mem_cons_of_mem x hx') hxy hxy'
        exact hx (this ▸ hx')
      · obtain ⟨hne, hmem⟩ := hys.mem_erase_iff.mp hy'
        obtain ⟨x', hx', hxy'⟩ := h.right y' hmem
        rcases List.mem_cons.mp hx' with rfl | hx'
        · exact absurd (hright x' List.mem_cons_self y' hmem y hy hxy' hxy) hne
        · exact ⟨x', hx', hxy'⟩
    obtain ⟨zs, hzs, hperm⟩ := ih hxs (hys.erase y) hrest
      (fun x' hx' z hz z' hz' =>
        hright x' (List.mem_cons_of_mem x hx') z (hsub z hz) z' (hsub z' hz'))
      (fun z hz x' hx' x'' hx'' =>
        hleft z (hsub z hz) x' (List.mem_cons_of_mem x hx') x'' (List.mem_cons_of_mem x hx''))
    exact ⟨y :: zs, .cons hxy hzs, (hperm.cons y).trans (List.perm_cons_erase hy).symm⟩

end

/-! ## Comparing nodes -/

/-- How two types are compared: how the members of unions and of intersections correspond when
single members do, and how properties do. Lists that correspond element by element always do. -/
structure Likeness where
  members : (TypeId → TypeId → Prop) → List TypeId → List TypeId → Prop
  properties : (Property → Property → Prop) → List Property → List Property → Prop
  members_mono : ∀ {R S : TypeId → TypeId → Prop} {ms ns : List TypeId},
    (∀ a ∈ ms, ∀ b ∈ ns, R a b → S a b) → members R ms ns → members S ms ns
  properties_mono : ∀ {R S : Property → Property → Prop} {ps qs : List Property},
    (∀ p ∈ ps, ∀ q ∈ qs, R p q → S p q) → properties R ps qs → properties S ps qs
  members_of_forall₂ : ∀ {R : TypeId → TypeId → Prop} {ms ns : List TypeId},
    List.Forall₂ R ms ns → members R ms ns
  properties_of_forall₂ : ∀ {R : Property → Property → Prop} {ps qs : List Property},
    List.Forall₂ R ps qs → properties R ps qs

namespace Likeness

/-- Members and properties correspond in order. -/
def exact : Likeness where
  members := List.Forall₂
  properties := List.Forall₂
  members_mono := forall₂_mono
  properties_mono := forall₂_mono
  members_of_forall₂ := id
  properties_of_forall₂ := id

/-- Members correspond in some order, properties in theirs. -/
def reordered : Likeness where
  members := Reordered
  properties := List.Forall₂
  members_mono := Reordered.mono
  properties_mono := forall₂_mono
  members_of_forall₂ := Reordered.of_forall₂
  properties_of_forall₂ := id

/-- Members and properties are compared as sets. -/
def sets : Likeness where
  members := SameElements
  properties := SameElements
  members_mono := SameElements.mono
  properties_mono := SameElements.mono
  members_of_forall₂ := SameElements.of_forall₂
  properties_of_forall₂ := SameElements.of_forall₂

end Likeness

variable {c : Likeness} {R S : TypeId → TypeId → Prop} {t u : Ty}

/-- Two properties with one name and the same flags, and with types that `R` relates. -/
structure Property.Matches (R : TypeId → TypeId → Prop) (p q : Property) : Prop where
  name : p.name = q.name
  optional : p.optional = q.optional
  readonly : p.readonly = q.readonly
  type : R p.type q.type

/-- Whether two nodes are of one kind with the same data, where `R` compares the parts. -/
def Ty.Matches (c : Likeness) (R : TypeId → TypeId → Prop) : Ty → Ty → Prop
  | any, any => True
  | never, never => True
  | unknown, unknown => True
  | primitive p, primitive q => p = q
  | literal l, literal l' => l = l'
  | union ms, union ns => c.members R ms ns
  | intersection ms, intersection ns => c.members R ms ns
  | tuple es readonly, tuple fs readonly' => List.Forall₂ R es fs ∧ readonly = readonly'
  | array e readonly, array f readonly' => R e f ∧ readonly = readonly'
  | object ps, object qs => c.properties (Property.Matches R) ps qs
  | _, _ => False

/-- Another relation that holds of the parts that correspond. -/
theorem Ty.Matches.mono (hR : ∀ a ∈ t.parts, ∀ b ∈ u.parts, R a b → S a b)
    (h : t.Matches c R u) : t.Matches c S u := by
  cases t <;> cases u <;> try exact h
  case union.union ms ns => exact c.members_mono hR h
  case intersection.intersection ms ns => exact c.members_mono hR h
  case tuple.tuple es readonly fs readonly' => exact ⟨forall₂_mono hR h.1, h.2⟩
  case array.array e readonly f readonly' =>
    exact ⟨hR e List.mem_cons_self f List.mem_cons_self h.1, h.2⟩
  case object.object ps qs =>
    refine c.properties_mono (fun p hp q hq hpq => ?_) h
    exact ⟨hpq.name, hpq.optional, hpq.readonly,
      hR p.type (List.mem_map_of_mem hp) q.type (List.mem_map_of_mem hq) hpq.type⟩

/-- Nodes that match in order match in every other sense. -/
theorem Ty.Matches.of_exact (h : t.Matches .exact R u) : t.Matches c R u := by
  cases t <;> cases u <;> try exact h
  case union.union ms ns => exact c.members_of_forall₂ h
  case intersection.intersection ms ns => exact c.members_of_forall₂ h
  case object.object ps qs => exact c.properties_of_forall₂ h

/-- A node matches itself if its parts do. -/
theorem Ty.matches_self (h : ∀ j ∈ t.parts, R j j) : t.Matches .exact R t := by
  cases t with
  | any | never | unknown => trivial
  | primitive _ | literal _ => rfl
  | union ms | intersection ms => exact List.forall₂_same.mpr h
  | tuple es readonly => exact ⟨List.forall₂_same.mpr h, rfl⟩
  | array e readonly => exact ⟨h e List.mem_cons_self, rfl⟩
  | object ps =>
    refine List.forall₂_same.mpr fun p hp => ⟨rfl, rfl, rfl, h p.type ?_⟩
    exact List.mem_map_of_mem (f := (·.type)) hp

/-- Compared as sets, nodes match in both directions. -/
theorem Ty.Matches.symm (h : t.Matches .sets R u) : u.Matches .sets (flip R) t := by
  cases t <;> cases u <;> try exact h
  case primitive.primitive p q => exact Eq.symm h
  case literal.literal l l' => exact Eq.symm h
  case union.union ms ns => exact SameElements.symm h
  case intersection.intersection ms ns => exact SameElements.symm h
  case tuple.tuple es readonly fs readonly' => exact ⟨h.1.flip, h.2.symm⟩
  case array.array e readonly f readonly' => exact ⟨h.1, h.2.symm⟩
  case object.object ps qs =>
    refine SameElements.mono (fun p _ q _ hpq => ?_) (SameElements.symm h)
    exact ⟨hpq.name.symm, hpq.optional.symm, hpq.readonly.symm, hpq.type⟩

namespace TypeTable

variable {T U V W : TypeTable} {i j k : TypeId}

/-- Whether two types of two tables unfold to the same tree. It is the least relation that holds
where the nodes match, given the relation for their parts; so it holds of no type with a circle or
with an id of no type below it. -/
inductive Similar (c : Likeness) (T U : TypeTable) : TypeId → TypeId → Prop
  | node {i j : TypeId} {t u : Ty} (R : TypeId → TypeId → Prop)
      (parts : ∀ a b, R a b → Similar c T U a b) (left : T.get? i = some t)
      (right : U.get? j = some u) (nodes : t.Matches c R u) : Similar c T U i j

/-- Types are similar exactly if their nodes match with similar parts. -/
theorem similar_iff (ht : T.get? i = some t) :
    Similar c T U i j ↔ ∃ u, U.get? j = some u ∧ t.Matches c (Similar c T U) u := by
  constructor
  · rintro ⟨R, hparts, ht', hu, h⟩
    -- the relation is the least one, so the parts may be compared by a smaller one
    obtain rfl := Option.some.inj (ht.symm.trans ht')
    exact ⟨_, hu, h.mono fun a _ b _ => hparts a b⟩
  · rintro ⟨u, hu, h⟩
    exact .node _ (fun _ _ h => h) ht hu h

/-- Trees that agree in order agree in every other sense. -/
theorem Similar.of_exact (h : Similar .exact T U i j) : Similar c T U i j := by
  induction h with
  | node R _ ht hu h ih => exact .node R ih ht hu h.of_exact

/-- Compared as sets, trees agree in both directions. -/
theorem Similar.symm (h : Similar .sets T U i j) : Similar .sets U T j i := by
  induction h with
  | node R _ ht hu h ih => exact .node (flip R) (fun a b hab => ih b a hab) hu ht h.symm

/-- Types that unfold alike do so in all later tables. -/
theorem Similar.grows (h : Similar c T U i j) (hTV : Grows T V) (hUW : Grows U W) :
    Similar c V W i j := by
  induction h with
  | node R _ ht hu h ih => exact .node R ih (hTV.get? ht) (hUW.get? hu) h

/-- A type unfolds to the same tree in a later table. -/
theorem Founded.similar (hi : T.Founded i) (hTU : Grows T U) : Similar .exact T U i i := by
  induction hi with
  | @node i t ht _ ih =>
    exact .node (fun a b => b = a ∧ a ∈ t.parts) (by rintro a b ⟨rfl, ha⟩; exact ih b ha) ht
      (hTU.get? ht) (Ty.matches_self fun j hj => ⟨rfl, hj⟩)

/-- Types that unfold to the same tree unfold to one that ends. -/
theorem Similar.founded (h : Similar .exact T U i j) : T.Founded i ∧ U.Founded j := by
  induction h with
  | @node i j t u R _ ht hu h ih =>
    have hparts : ∀ {as bs : List TypeId}, List.Forall₂ R as bs →
        (∀ a ∈ as, T.Founded a) ∧ ∀ b ∈ bs, U.Founded b := by
      intro as bs hab
      have := SameElements.of_forall₂ hab
      refine ⟨fun a ha => ?_, fun b hb => ?_⟩
      · obtain ⟨b, -, hab⟩ := this.left a ha
        exact (ih a b hab).1
      · obtain ⟨a, -, hab⟩ := this.right b hb
        exact (ih a b hab).2
    -- the parts of nodes that match correspond in order, whatever the nodes are
    suffices hlists : List.Forall₂ R t.parts u.parts from
      ⟨.node ht (hparts hlists).1, .node hu (hparts hlists).2⟩
    cases t <;> cases u <;> try exact (False.elim h)
    case union.union ms ns => exact h
    case intersection.intersection ms ns => exact h
    case tuple.tuple es readonly fs readonly' => exact h.1
    case array.array e readonly f readonly' => exact .cons h.1 .nil
    case object.object ps qs =>
      refine List.forall₂_map_left_iff.mpr (List.forall₂_map_right_iff.mpr ?_)
      exact List.Forall₂.imp (fun _ _ hpq => hpq.type) h
    all_goals exact .nil

end TypeTable

/-! ## Canonical types -/

/-- Two lists that have the elements of a third have the same elements. -/
theorem SameElements.mem_iff {α β : Type} {R S : α → β → Prop} {xs : List α} {ys zs : List β}
    (hy : SameElements R xs ys) (hz : SameElements S xs zs)
    (h : ∀ x, ∀ y ∈ ys, ∀ z ∈ zs, R x y → S x z → y = z) (y : β) : y ∈ ys ↔ y ∈ zs := by
  constructor
  · intro hmem
    obtain ⟨x, hx, hxy⟩ := hy.right y hmem
    obtain ⟨z, hzmem, hxz⟩ := hz.left x hx
    exact h x y hmem z hzmem hxy hxz ▸ hzmem
  · intro hmem
    obtain ⟨x, hx, hxz⟩ := hz.right y hmem
    obtain ⟨w, hw, hxw⟩ := hy.left x hx
    exact h x w hw y hmem hxw hxz ▸ hw

/-- Properties in the order of their names are determined by what they are. -/
theorem eq_of_mem_iff_of_names {ps qs : List Property} (hp : (ps.map (·.name)).Pairwise (· < ·))
    (hq : (qs.map (·.name)).Pairwise (· < ·)) (h : ∀ p, p ∈ ps ↔ p ∈ qs) : ps = qs := by
  rw [List.pairwise_map] at hp hq
  have hnodup : ∀ {rs : List Property}, rs.Pairwise (·.name < ·.name) → rs.Nodup := by
    intro rs hrs
    refine hrs.imp fun {p q} hlt => ?_
    rintro rfl
    exact lt_irrefl _ hlt
  refine List.Perm.eq_of_pairwise (fun p q _ _ hpq hqp => ?_) hp hq
    ((List.perm_ext_iff_of_nodup (hnodup hp) (hnodup hq)).mpr h)
  exact absurd hpq (lt_asymm hqp)

/-- Two lists that correspond to a third are equal if the elements are. -/
theorem eq_of_forall₂_right {α β : Type} {R S : α → β → Prop} {xs : List α} {ys zs : List β}
    (hy : List.Forall₂ R xs ys) (hz : List.Forall₂ S xs zs)
    (h : ∀ x, ∀ y ∈ ys, ∀ z ∈ zs, R x y → S x z → y = z) : ys = zs := by
  induction hy generalizing zs with
  | nil => exact (List.forall₂_nil_left_iff.mp hz).symm
  | @cons x y xs ys hxy _ ih =>
    obtain ⟨z, zs', hxz, hzs, rfl⟩ := List.forall₂_cons_left_iff.mp hz
    rw [h x y List.mem_cons_self z List.mem_cons_self hxy hxz, ih hzs fun x y hy z hz =>
      h x y (List.mem_cons_of_mem _ hy) z (List.mem_cons_of_mem _ hz)]

namespace TypeTable

variable {T U V : TypeTable} {i j k : TypeId} {R S : TypeId → TypeId → Prop} {t u u' : Ty}

/-- Two canonical nodes that match a third are equal, if their parts are. -/
theorem CanonicalNode.eq_of_matches (hu : U.CanonicalNode u) (hu' : U.CanonicalNode u')
    (h : t.Matches .sets R u) (h' : t.Matches .sets S u')
    (hparts : ∀ a, ∀ b ∈ u.parts, ∀ b' ∈ u'.parts, R a b → S a b' → b = b') : u = u' := by
  -- nodes that match are of one kind
  cases t <;> cases u <;> try exact (False.elim h)
  all_goals cases u' <;> try exact (False.elim h')
  case union.union.union ms ns ns' =>
    rw [hu.ascending.eq_of_mem_iff hu'.ascending (SameElements.mem_iff h h' hparts)]
  case intersection.intersection.intersection ms ns ns' =>
    rw [hu.ascending.eq_of_mem_iff hu'.ascending (SameElements.mem_iff h h' hparts)]
  case primitive.primitive.primitive p q q' => rw [← show p = q from h, show p = q' from h']
  case literal.literal.literal l l' l'' => rw [← show l = l' from h, show l = l'' from h']
  case tuple.tuple.tuple es r fs r' fs' r'' =>
    rw [eq_of_forall₂_right h.1 h'.1 hparts, ← h.2, h'.2]
  case array.array.array e r f r' f' r'' =>
    rw [hparts e f List.mem_cons_self f' List.mem_cons_self h.1 h'.1, ← h.2, h'.2]
  case object.object.object ps qs qs' =>
    rw [eq_of_mem_iff_of_names hu hu' (SameElements.mem_iff h h' ?_)]
    intro p q hq q' hq' hpq hpq'
    have htype := hparts p.type q.type (List.mem_map_of_mem hq) q'.type (List.mem_map_of_mem hq')
      hpq.type hpq'.type
    obtain ⟨name, type, optional, readonly⟩ := q
    obtain ⟨name', type', optional', readonly'⟩ := q'
    obtain ⟨rfl, rfl, rfl, -⟩ := hpq
    obtain ⟨rfl, rfl, rfl, -⟩ := hpq'
    obtain rfl := htype
    rfl
  all_goals rfl

/-- Canonical types that unfold to one tree are the same type. -/
theorem Similar.eq_of_canonical (h : Similar .sets T U i j) (h' : Similar .sets T U i k)
    (hj : U.Canonical j) (hk : U.Canonical k) : j = k := by
  -- by induction on the first comparison: the parts are equal, so the nodes are
  induction h generalizing k with
  | @node i j t u R _ ht hu h ih =>
    obtain ⟨u', hu', h'⟩ := (similar_iff ht).mp h'
    have heq := (hj.canonicalNode hu).eq_of_matches (hk.canonicalNode hu') h h'
      fun a b hb b' hb' hab hab' => ih a b hab hab' (hj.part hu hb) (hk.part hu' hb')
    exact get?_injective hu (heq ▸ hu')

end TypeTable

end TypeAssay
