import TypeAssay.Proofs.Lockstep
import TypeAssay.Proofs.Numerals
import TypeAssay.Proofs.Replays

/-!
# Twins are answered alike

A question about types of one table has the same answer about their twins in another one. The rules
of assignability ask about parts, and the parts of twins are twins; but members come in another
order in the other table, and the literal that counts the elements of a tuple may be interned in one
of the two tables only. In that case it is interned in both for the sake of the argument: answers
about types that are there already do not change by that (`Tidy.assignable_countType_withCount`).

* `Twins.assignable_eq` : twins are assignable to twins of the same types.
* `Category.holds_eq_of_twins`, `alike_compare`, `alike_foldBatch` : relations give twins the same
  outcome.
-/

namespace TypeAssay

open TypeTable Building

/-! ## Lists that correspond -/

section

variable {α β γ δ : Type} {R : α → β → Prop} {S : γ → δ → Prop} {xs : List α} {ys : List β}
  {p : α → Bool} {q : β → Bool}

/-- A test holds of some element of both lists or of neither. -/
theorem SameElements.any_eq (h : SameElements R xs ys)
    (hpq : ∀ x ∈ xs, ∀ y ∈ ys, R x y → p x = q y) : xs.any p = ys.any q := by
  rw [Bool.eq_iff_iff, List.any_eq_true, List.any_eq_true]
  constructor
  · rintro ⟨x, hx, hp⟩
    obtain ⟨y, hy, hxy⟩ := h.left x hx
    exact ⟨y, hy, hpq x hx y hy hxy ▸ hp⟩
  · rintro ⟨y, hy, hq⟩
    obtain ⟨x, hx, hxy⟩ := h.right y hy
    exact ⟨x, hx, (hpq x hx y hy hxy).trans hq⟩

/-- A test holds of all elements of both lists or of neither. -/
theorem SameElements.all_eq (h : SameElements R xs ys)
    (hpq : ∀ x ∈ xs, ∀ y ∈ ys, R x y → p x = q y) : xs.all p = ys.all q := by
  rw [List.all_eq_not_any_not, List.all_eq_not_any_not, h.any_eq fun x hx y hy hxy => ?_]
  rw [hpq x hx y hy hxy]

/-- A test keeps elements that correspond. -/
theorem SameElements.filter (h : SameElements R xs ys)
    (hpq : ∀ x ∈ xs, ∀ y ∈ ys, R x y → p x = q y) :
    SameElements R (xs.filter p) (ys.filter q) := by
  refine ⟨fun x hx => ?_, fun y hy => ?_⟩
  · obtain ⟨hx, hp⟩ := List.mem_filter.mp hx
    obtain ⟨y, hy, hxy⟩ := h.left x hx
    exact ⟨y, List.mem_filter.mpr ⟨hy, hpq x hx y hy hxy ▸ hp⟩, hxy⟩
  · obtain ⟨hy, hq⟩ := List.mem_filter.mp hy
    obtain ⟨x, hx, hxy⟩ := h.right y hy
    exact ⟨x, List.mem_filter.mpr ⟨hx, (hpq x hx y hy hxy).trans hq⟩, hxy⟩

/-- Lists that correspond are empty together. -/
theorem SameElements.eq_nil_iff (h : SameElements R xs ys) : xs = [] ↔ ys = [] := by
  constructor
  · rintro rfl
    refine List.eq_nil_iff_forall_not_mem.mpr fun y hy => ?_
    obtain ⟨x, hx, -⟩ := h.right y hy
    exact List.not_mem_nil hx
  · rintro rfl
    refine List.eq_nil_iff_forall_not_mem.mpr fun x hx => ?_
    obtain ⟨y, hy, -⟩ := h.left x hx
    exact List.not_mem_nil hy

/-- Pairs of what corresponds correspond. -/
theorem forall₂_zip_zip {zs : List γ} {ws : List δ} (h : List.Forall₂ R xs ys)
    (h' : List.Forall₂ S zs ws) :
    List.Forall₂ (fun x y => R x.1 y.1 ∧ S x.2 y.2) (xs.zip zs) (ys.zip ws) := by
  induction h generalizing zs ws with
  | nil => exact .nil
  | cons hxy _ ih =>
    cases h' with
    | nil => exact .nil
    | cons hzw h' => exact .cons ⟨hxy, hzw⟩ (ih h')

/-- What corresponds is there together. -/
theorem isSome_eq_of_rel {c : Option γ} {d : Option δ} (h : Option.Rel S c d) :
    c.isSome = d.isSome := by
  cases h <;> rfl

/-- What is there corresponds. -/
theorem rel_of_rel_some {c : γ} {d : δ} (h : Option.Rel S (some c) (some d)) : S c d := by
  cases h with
  | some h => exact h

/-- A relation may be weakened where both are there. -/
theorem rel_imp {S' : γ → δ → Prop} {c : Option γ} {d : Option δ} (h : Option.Rel S c d)
    (hS : ∀ x ∈ c, ∀ y ∈ d, S x y → S' x y) : Option.Rel S' c d := by
  cases h with
  | some hxy => exact .some (hS _ rfl _ rfl hxy)
  | none => exact .none

/-- Where elements that correspond have answers that correspond, or none, so do the lists. -/
theorem SameElements.mapM {f : α → Option γ} {g : β → Option δ} (h : SameElements R xs ys)
    (hfg : ∀ x y, R x y → Option.Rel S (f x) (g y)) :
    Option.Rel (SameElements S) (xs.mapM f) (ys.mapM g) := by
  have hisSome : ∀ x y, R x y → (f x).isSome = (g y).isSome := fun x y hxy =>
    isSome_eq_of_rel (hfg x y hxy)
  -- one list fails exactly if some element does, and its partner then fails in the other
  cases hxs : xs.mapM f with
  | none =>
    cases hys : ys.mapM g with
    | none => exact .none
    | some ds =>
      have hall : ∀ x ∈ xs, (f x).isSome := fun x hx => by
        obtain ⟨y, hy, hxy⟩ := h.left x hx
        obtain ⟨d, -, hd⟩ := (mem_of_mapM_eq_some hys).2 y hy
        rw [hisSome x y hxy, hd, Option.isSome_some]
      have hsome := isSome_mapM hall
      rw [hxs, Option.isSome_none] at hsome
      exact absurd hsome Bool.false_ne_true
  | some cs =>
    obtain ⟨hright, hleft⟩ := mem_of_mapM_eq_some hxs
    have hall : ∀ y ∈ ys, (g y).isSome := fun y hy => by
      obtain ⟨x, hx, hxy⟩ := h.right y hy
      obtain ⟨c, -, hc⟩ := hleft x hx
      rw [← hisSome x y hxy, hc, Option.isSome_some]
    obtain ⟨ds, hds⟩ := Option.isSome_iff_exists.mp (isSome_mapM hall)
    obtain ⟨hright', hleft'⟩ := mem_of_mapM_eq_some hds
    rw [hds]
    refine .some ⟨fun c hc => ?_, fun d hd => ?_⟩
    · obtain ⟨x, hx, hxc⟩ := hright c hc
      obtain ⟨y, hy, hxy⟩ := h.left x hx
      obtain ⟨d, hd, hyd⟩ := hleft' y hy
      exact ⟨d, hd, rel_of_rel_some (hxc ▸ hyd ▸ hfg x y hxy)⟩
    · obtain ⟨y, hy, hyd⟩ := hright' d hd
      obtain ⟨x, hx, hxy⟩ := h.right y hy
      obtain ⟨c, hc, hxc⟩ := hleft x hx
      exact ⟨c, hc, rel_of_rel_some (hxc ▸ hyd ▸ hfg x y hxy)⟩

end

/-! ## Nodes and offers that match -/

/-- Nodes that match are of one kind, so there are as many cases as there are kinds. -/
@[elab_as_elim]
theorem Ty.Matches.kinds {c : Likeness} {R : TypeId → TypeId → Prop}
    {motive : ∀ t u : Ty, t.Matches c R u → Prop}
    (any : motive .any .any trivial) (never : motive .never .never trivial)
    (unknown : motive .unknown .unknown trivial)
    (primitive : ∀ p, motive (.primitive p) (.primitive p) rfl)
    (literal : ∀ l, motive (.literal l) (.literal l) rfl)
    (union : ∀ ms ns (h : c.members R ms ns), motive (.union ms) (.union ns) h)
    (intersection : ∀ ms ns (h : c.members R ms ns), motive (.intersection ms) (.intersection ns) h)
    (tuple : ∀ es fs readonly (h : List.Forall₂ R es fs),
      motive (.tuple es readonly) (.tuple fs readonly) ⟨h, rfl⟩)
    (array : ∀ e f readonly (h : R e f),
      motive (.array e readonly) (.array f readonly) ⟨h, rfl⟩)
    (object : ∀ ps qs (h : c.properties (Property.Matches R) ps qs),
      motive (.object ps) (.object qs) h)
    {t u : Ty} (h : t.Matches c R u) : motive t u h := by
  cases t <;> cases u <;> try exact (False.elim h)
  case any.any => exact any
  case never.never => exact never
  case unknown.unknown => exact unknown
  case primitive.primitive p q =>
    obtain rfl : p = q := h
    exact primitive p
  case literal.literal l l' =>
    obtain rfl : l = l' := h
    exact literal l
  case union.union ms ns => exact union ms ns h
  case intersection.intersection ms ns => exact intersection ms ns h
  case tuple.tuple es readonly fs readonly' =>
    obtain ⟨h, rfl⟩ := h
    exact tuple es fs readonly h
  case array.array e readonly f readonly' =>
    obtain ⟨h, rfl⟩ := h
    exact array e f readonly h
  case object.object ps qs => exact object ps qs h

/-- Two offers of one kind with the same data, where `R` compares the types of properties. -/
inductive Offer.Matches (R : TypeId → TypeId → Prop) : Offer → Offer → Prop
  | property {p q : Property} (h : p.Matches R q) : Matches R (.property p) (.property q)
  | length : Matches R .length .length
  | lengthOf (count : Nat) : Matches R (.lengthOf count) (.lengthOf count)

/-- Offers that correspond have the same name. -/
theorem Offer.Matches.name {R : TypeId → TypeId → Prop} {o o' : Offer} (h : o.Matches R o') :
    o.name = o'.name := by
  cases h with
  | property h => exact h.name
  | length | lengthOf _ => rfl

/-- Offers that correspond are optional together. -/
theorem Offer.Matches.optional {R : TypeId → TypeId → Prop} {o o' : Offer} (h : o.Matches R o') :
    o.optional = o'.optional := by
  cases h with
  | property h => exact h.optional
  | length | lengthOf _ => rfl

namespace TypeTable

variable {T U V W : TypeTable} {i j s s' t t' : TypeId} {a a' b b' : Ty} {ms ns : List TypeId}
  {f g : TypeId → TypeId → Bool} {p q : Property}

/-- Twins offer the same, or nothing at all. -/
theorem Twins.offers? (h : Twins T U i j) :
    Option.Rel (SameElements (Offer.Matches (Twins T U))) (T.offers? i) (U.offers? j) := by
  obtain ⟨t, u, ht, hu, hm⟩ := h.exists_nodes
  have hself : ∀ o : Offer, o.Matches (Twins T U) o →
      Option.Rel (SameElements (Offer.Matches (Twins T U))) (some [o]) (some [o]) :=
    fun o ho => .some (.of_forall₂ (.cons ho .nil))
  have hnil : Option.Rel (SameElements (Offer.Matches (Twins T U))) (some []) (some []) :=
    .some (.of_forall₂ .nil)
  rw [TypeTable.offers?, TypeTable.offers?, ht, hu]
  -- offers depend on the kind of a node, and for objects on the properties
  cases hm using Ty.Matches.kinds with
  | any | never | unknown | union _ _ _ | intersection _ _ _ => exact .none
  | primitive p => cases p <;> first | exact .none | exact hnil | exact hself _ .length
  | literal l => cases l <;> first | exact hnil | exact hself _ .length
  | array _ _ _ _ => exact hself _ .length
  | tuple es fs _ h =>
    show Option.Rel _ (some [Offer.lengthOf es.length]) (some [Offer.lengthOf fs.length])
    rw [h.length_eq]
    exact hself _ (.lengthOf _)
  | object ps qs h =>
    refine .some ⟨fun o ho => ?_, fun o ho => ?_⟩
    · obtain ⟨p, hp, rfl⟩ := List.mem_map.mp ho
      obtain ⟨q, hq, hpq⟩ := h.left p hp
      exact ⟨_, List.mem_map_of_mem hq, .property hpq⟩
    · obtain ⟨q, hq, rfl⟩ := List.mem_map.mp ho
      obtain ⟨p, hp, hpq⟩ := h.right q hq
      exact ⟨_, List.mem_map_of_mem hp, .property hpq⟩

/-! ## One step of assignability -/

/-- Two relations agree on twins where the rules for `s` and `t` ask: on smaller targets, on smaller
sources for `t` itself, and on counts for smaller targets. -/
structure AgreeOnTwins (T U : TypeTable) (f g : TypeId → TypeId → Bool) (s t t' : TypeId) :
    Prop where
  target : ∀ x x' y y', y < t → Twins T U x x' → Twins T U y y' → f x y = g x' y'
  source : ∀ x x', x < s → Twins T U x x' → f x t = g x' t'
  count : ∀ n y y', y < t → Twins T U y y' → f (T.countType n) y = g (U.countType n) y'

/-- Twins fit what offers that correspond promise. -/
theorem AgreeOnTwins.offerType {o o' : Offer} (h : AgreeOnTwins T U f g s t t')
    (hT : T.HasBuiltins) (hU : U.HasBuiltins) (ho : o.Matches (Twins T U) o') (hi : i < t)
    (hij : Twins T U i j) : f (T.offerType o) i = g (U.offerType o') j := by
  cases ho with
  | property hpq => exact h.target _ _ _ _ hi hpq.type hij
  | length => exact h.target _ _ _ _ hi (twins_primitive hT hU .number) hij
  | lengthOf n => exact h.count n _ _ hi hij

/-- Offers that correspond meet the same properties. -/
theorem AgreeOnTwins.meetsProperty {os os' : List Offer} (h : AgreeOnTwins T U f g s t t')
    (hT : T.HasBuiltins) (hU : U.HasBuiltins)
    (hos : SameElements (Offer.Matches (Twins T U)) os os') (hpq : p.Matches (Twins T U) q)
    (hp : p.type < t) : T.meetsProperty f os p = U.meetsProperty g os' q := by
  have hoffered : SameElements (Offer.Matches (Twins T U)) (os.filter (·.name = p.name))
      (os'.filter (·.name = q.name)) :=
    hos.filter fun o _ o' _ ho => by rw [ho.name, hpq.name]
  have hany := hoffered.any_eq (p := (!·.optional)) (q := (!·.optional)) fun o _ o' _ ho => by
    rw [ho.optional]
  have hfits := hoffered.any_eq fun o _ o' _ ho => h.offerType hT hU ho hp hpq.type
  unfold TypeTable.meetsProperty
  cases hos : os.filter (·.name = p.name) with
  | nil => rw [hoffered.eq_nil_iff.mp hos, hpq.optional]
  | cons o rest =>
    cases hos' : os'.filter (·.name = q.name) with
    | nil => exact absurd (hoffered.eq_nil_iff.mpr hos') (by simp [hos])
    | cons o' rest' =>
      rw [hos, hos'] at hany hfits
      show ((p.optional || _) && _) = ((q.optional || _) && _)
      rw [hany, hfits, hpq.optional]

/-- Sources that correspond meet the same shapes. -/
theorem AgreeOnTwins.meetsShape {wanted wanted' : List Property} (h : AgreeOnTwins T U f g s t t')
    (hT : T.HasBuiltins) (hU : U.HasBuiltins) (hms : SameElements (Twins T U) ms ns)
    (hwanted : SameElements (Property.Matches (Twins T U)) wanted wanted')
    (hlt : ∀ p ∈ wanted, p.type < t) : T.meetsShape f ms wanted = U.meetsShape g ns wanted' := by
  have hoffers := hms.mapM fun x y (hxy : Twins T U x y) => hxy.offers?
  unfold TypeTable.meetsShape
  revert hoffers
  generalize ms.mapM T.offers? = os, ns.mapM U.offers? = os'
  intro hoffers
  cases hoffers with
  | none => rfl
  | @some os os' hoffers =>
    have hflat : SameElements (Offer.Matches (Twins T U)) os.flatten os'.flatten := by
      rw [← List.flatMap_id, ← List.flatMap_id]
      exact hoffers.flatMap fun _ _ h => h
    exact hwanted.all_eq fun p hp q _ hpq => h.meetsProperty hT hU hflat hpq (hlt p hp)

/-- The structural rules give twins the same answer where they ask relations that agree. -/
theorem AgreeOnTwins.structuralStep (h : AgreeOnTwins T U f g s t t') (hT : T.HasBuiltins)
    (hU : U.HasBuiltins) (hs : Twins T U s s') (ha : a.Matches .sets (Twins T U) a')
    (hb : b.Matches .sets (Twins T U) b') (hsource : ∀ j ∈ a.parts, j < s)
    (htarget : ∀ j ∈ b.parts, j < t) :
    T.structuralStep f s t a b = U.structuralStep g s' t' a' b' := by
  have hsame : ∀ {ms ns : List TypeId}, List.Forall₂ (Twins T U) ms ns →
      SameElements (Twins T U) ms ns := .of_forall₂
  have hshape : ∀ {ms ns : List TypeId} {ps qs : List Property}, b = .object ps →
      SameElements (Twins T U) ms ns → SameElements (Property.Matches (Twins T U)) ps qs →
      T.meetsShape f ms ps = U.meetsShape g ns qs := by
    rintro ms ns ps qs rfl hms hps
    exact h.meetsShape hT hU hms hps fun p hp => htarget p.type (List.mem_map_of_mem hp)
  have hany : ∀ {ms ns : List TypeId}, (∀ m ∈ ms, m < t) → SameElements (Twins T U) ms ns →
      ms.any (f s) = ns.any (g s') := fun hlt hms =>
    hms.any_eq fun m hm n _ hmn => h.target s s' m n (hlt m hm) hs hmn
  have hall : ∀ {ms ns : List TypeId}, (∀ m ∈ ms, m < t) → SameElements (Twins T U) ms ns →
      ms.all (f s) = ns.all (g s') := fun hlt hms =>
    hms.all_eq fun m hm n _ hmn => h.target s s' m n (hlt m hm) hs hmn
  -- the kind of the source first: a union of the source goes before everything else
  cases ha using Ty.Matches.kinds with
  | union ms ns hms => exact hms.all_eq fun m hm n _ hmn => h.source m n (hsource m hm) hmn
  | intersection ms ns hms =>
    have hmember : ms.any (f · t) = ns.any (g · t') :=
      hms.any_eq fun m hm n _ hmn => h.source m n (hsource m hm) hmn
    cases hb using Ty.Matches.kinds with
    | union ps qs hps => exact hany htarget hps
    | intersection ps qs hps => exact hall htarget hps
    | object ps qs hps =>
      show (ms.any (f · t) || _) = (ns.any (g · t') || _)
      rw [hmember, hshape rfl hms hps]
    | _ => exact hmember
  | tuple es fs readonly hes =>
    cases hb using Ty.Matches.kinds with
    | union ps qs hps => exact hany htarget hps
    | intersection ps qs hps => exact hall htarget hps
    | object ps qs hps => exact hshape rfl (hsame (.cons hs .nil)) hps
    | primitive p => cases p <;> rfl
    | array e e' readonly' he =>
      refine congrArg (_ && ·) ((hsame hes).all_eq fun x _ y _ hxy => ?_)
      exact h.target x y e e' (htarget e List.mem_cons_self) hxy he
    | tuple gs gs' readonly' hgs =>
      have hzip : (es.zip gs).all (fun x => f x.1 x.2) = (fs.zip gs').all fun y => g y.1 y.2 :=
        (SameElements.of_forall₂ (forall₂_zip_zip hes hgs)).all_eq fun x hx y _ hxy =>
          h.target x.1 y.1 x.2 y.2 (htarget x.2 (List.of_mem_zip hx).2) hxy.1 hxy.2
      show (_ && decide (es.length = gs.length) && (es.zip gs).all fun x => f x.1 x.2) =
        (_ && decide (fs.length = gs'.length) && (fs.zip gs').all fun y => g y.1 y.2)
      rw [hes.length_eq, hgs.length_eq, hzip]
    | _ => rfl
  | array e e' readonly he =>
    cases hb using Ty.Matches.kinds with
    | union ps qs hps => exact hany htarget hps
    | intersection ps qs hps => exact hall htarget hps
    | object ps qs hps => exact hshape rfl (hsame (.cons hs .nil)) hps
    | primitive p => cases p <;> rfl
    | array d d' readonly' hd =>
      exact congrArg (_ && ·) (h.target e e' d d' (htarget d List.mem_cons_self) he hd)
    | _ => rfl
  | _ =>
    cases hb using Ty.Matches.kinds with
    | union ps qs hps => exact hany htarget hps
    | intersection ps qs hps => exact hall htarget hps
    | object ps qs hps => exact hshape rfl (hsame (.cons hs .nil)) hps
    | primitive p => cases p <;> rfl
    | _ => rfl

/-- One step of the relation answers the same for twins. -/
theorem AgreeOnTwins.nodeStep (h : AgreeOnTwins T U f g s t t') (hT : T.HasBuiltins)
    (hU : U.HasBuiltins) (hoptions : T.options = U.options) (hs : Twins T U s s')
    (ha : a.Matches .sets (Twins T U) a') (hb : b.Matches .sets (Twins T U) b')
    (hsource : ∀ j ∈ a.parts, j < s) (htarget : ∀ j ∈ b.parts, j < t) :
    T.nodeStep f s t a b = U.nodeStep g s' t' a' b' := by
  have hplain : (T.isLooseNull a || T.structuralStep f s t a b) =
      (U.isLooseNull a' || U.structuralStep g s' t' a' b') := by
    have hloose : T.isLooseNull a = U.isLooseNull a' := by
      cases ha using Ty.Matches.kinds with
      | primitive p => rw [isLooseNull.eq_def, isLooseNull.eq_def, hoptions]
      | _ => rfl
    rw [hloose, h.structuralStep hT hU hs ha hb hsource htarget]
  cases hb using Ty.Matches.kinds <;> cases ha using Ty.Matches.kinds <;>
    first | rfl | exact hplain

/-! ## Assignability -/

/-- No natural number is rounded to what is not a number, or to the negative zero. -/
theorem isCanonical_ofNat (n : Nat) : (Literal.number (.ofNat n)).IsCanonical := by
  have hle : Binary64.roundedMagnitude n 1 ≤ Binary64.infinite := by
    unfold Binary64.roundedMagnitude
    split
    · exact Nat.zero_le _
    · exact Nat.min_le_right _ _
  have hmagnitude : (Binary64.ofNat n).magnitude = Binary64.roundedMagnitude n 1 :=
    Binary64.magnitude_ofParts (Nat.lt_of_le_of_lt hle (by decide))
  refine ⟨decide_eq_false (hmagnitude ▸ Nat.not_lt.mpr hle), fun hzero => ?_⟩
  have hnil : Binary64.roundedMagnitude n 1 = 0 := hmagnitude ▸ beq_iff_eq.mp hzero
  rw [Binary64.ofNat, Binary64.ofRatio, hnil]
  rfl

/-- A table once the literal that counts `n` things is interned. -/
def withCount (T : TypeTable) (n : Nat) : TypeTable :=
  (T.intern (.literal (.number (.ofNat n)))).2

/-- A table with a count is built up from the one without it. -/
theorem builds_withCount (T : TypeTable) (n : Nat) : T.Builds (T.withCount n) :=
  .intern .refl (isCanonical_ofNat n) fun _ hj => absurd hj List.not_mem_nil

/-- The count is there, under the id that is asked for. -/
theorem countType_withCount (T : TypeTable) (n : Nat) :
    (T.withCount n).get? ((T.withCount n).countType n) = some (.literal (.number (.ofNat n))) := by
  have hget := get?_intern_fst T (.literal (.number (.ofNat n)))
  rw [countType, withCount, lookup_eq_some_iff.mpr hget, Option.getD_some, hget]

/-- How many elements a tuple has fits a type alike before the literal for it is interned and
after. -/
theorem Tidy.assignable_countType_withCount (hT : T.Tidy) (n : Nat) (ht : t < T.size) :
    (T.withCount n).assignable ((T.withCount n).countType n) t =
      T.assignable (T.countType n) t := by
  have hgrows := (builds_withCount T n).grows
  have hlevels : ∀ m, m < (m + 1) * (m + 1) + 1 := fun m =>
    Nat.lt_succ_of_le (Nat.le_trans (Nat.le_succ m) (Nat.le_mul_of_pos_left _ (Nat.succ_pos m)))
  refine assignableWithin_countType_eq hgrows hT.descends hT.hasBuiltins n ht
    (Nat.lt_trans (Nat.lt_of_lt_of_le ht hgrows.size_le) (hlevels _))
    (Nat.lt_trans ht (hlevels _)) fun s hs => ?_
  exact hgrows.assignable_eq hT.descends hT.hasBuiltins hs ht

/-- Where both tables hold the literal, the counts are twins. -/
theorem Tidy.twins_countType (hT : T.Tidy) (hU : U.Tidy) (n : Nat) :
    Twins (T.withCount n) (U.withCount n) ((T.withCount n).countType n)
      ((U.withCount n).countType n) := by
  have hi := countType_withCount T n
  have hj := countType_withCount U n
  exact twins_of_leaf hi hj rfl
    (((builds_withCount T n).tidy hT).canonical (lt_size_of_get? hi))
    (((builds_withCount U n).tidy hU).canonical (lt_size_of_get? hj))

/-- Questions of assignability have the same answer for twins. -/
theorem Twins.assignable_eq (hT : T.Tidy) (hU : U.Tidy) (hoptions : T.options = U.options)
    (hs : Twins T U s s') (ht : Twins T U t t') : T.assignable s t = U.assignable s' t' := by
  -- the target gets smaller, whatever the tables are, or it stays and the source gets smaller
  induction t using Nat.strong_induction_on generalizing T U s s' t' with
  | _ t iht =>
    induction s using Nat.strong_induction_on generalizing s' with
    | _ s ihs =>
      have hcount : ∀ n y y', y < t → Twins T U y y' →
          T.assignable (T.countType n) y = U.assignable (U.countType n) y' := by
        intro n y y' hy hyy'
        have hTV := builds_withCount T n
        have hUW := builds_withCount U n
        rw [← hT.assignable_countType_withCount n hyy'.left.lt_size,
          ← hU.assignable_countType_withCount n hyy'.right.lt_size]
        refine iht y hy (hTV.tidy hT) (hUW.tidy hU) ?_ (hT.twins_countType hU n)
          (hyy'.grows hTV.grows hUW.grows)
        rw [hTV.grows.options_eq, hUW.grows.options_eq, hoptions]
      have hagree : AgreeOnTwins T U T.assignable U.assignable s t t' := {
        target := fun x x' y y' hy hxx' hyy' => iht y hy hT hU hoptions hxx' hyy'
        source := fun x x' hx hxx' => ihs x hx hxx'
        count := hcount }
      -- the nodes of twins match, and the step asks only about smaller types
      obtain ⟨a, a', ha, ha', haa'⟩ := hs.exists_nodes
      obtain ⟨b, b', hb, hb', hbb'⟩ := ht.exists_nodes
      have hbeq : (s == t) = (s' == t') := by
        rw [Bool.eq_iff_iff, beq_iff_eq, beq_iff_eq, hs.eq_iff ht]
      rw [hT.assignable_eq ha hb, hU.assignable_eq ha' hb', hbeq,
        hagree.nodeStep hT.hasBuiltins hU.hasBuiltins hoptions hs haa' hbb' (hT.descends s a ha)
          (hT.descends t b hb)]

/-! ## Categories -/

/-- A question about the node alone has the same answer for twins if it has for nodes that match. -/
theorem Twins.any_eq {r : Ty → Bool} (h : Twins T U i j)
    (hr : ∀ t u : Ty, t.Matches .sets (Twins T U) u → r t = r u) :
    (T.get? i).any r = (U.get? j).any r := by
  obtain ⟨t, u, ht, hu, hm⟩ := h.exists_nodes
  rw [ht, hu]
  exact hr t u hm

/-- Twins are the node `any` together. -/
theorem Twins.any_isAny (h : Twins T U i j) : (T.get? i).any Ty.isAny = (U.get? j).any Ty.isAny :=
  h.any_eq fun _ _ hm => by cases hm using Ty.Matches.kinds <;> rfl

/-- Twins are `never` together. -/
theorem Twins.isNever_eq (h : Twins T U i j) : T.isNever i = U.isNever j :=
  congrArg Outcome.ofBool (h.any_eq fun _ _ hm => by cases hm using Ty.Matches.kinds <;> rfl)

/-- Twins are `any` together. -/
theorem Twins.isAny_eq (h : Twins T U i j) : T.isAny i = U.isAny j :=
  congrArg Outcome.ofBool h.any_isAny

/-- Twins are `unknown` together. -/
theorem Twins.isUnknown_eq (hT : T.Tidy) (hU : U.Tidy) (hoptions : T.options = U.options)
    (h : Twins T U i j) : T.isUnknown i = U.isUnknown j := by
  have hunknown := twins_unknown hT.hasBuiltins hU.hasBuiltins
  rw [isUnknown, isUnknown, hunknown.assignable_eq hT hU hoptions h, h.isAny_eq, h.isNever_eq]

/-- Twins are unions together. -/
theorem Twins.isUnionType_eq (h : Twins T U i j) : T.isUnionType i = U.isUnionType j := by
  obtain ⟨t, u, ht, hu, hm⟩ := h.exists_nodes
  have hc := h.left.canonicalNode ht
  have hc' := h.right.canonicalNode hu
  rw [isUnionType, isUnionType, ht, hu]
  cases hm using Ty.Matches.kinds with
  | union ms ns _ =>
    -- both have two members or more
    have htwo : decide (2 ≤ ms.length) = decide (2 ≤ ns.length) :=
      decide_eq_decide.mpr (iff_of_true hc.two_le hc'.two_le)
    exact congrArg Outcome.ofBool htwo
  | _ => rfl

/-- Twins fix their length together. -/
theorem Twins.fixesLength_eq (h : Twins T U i j) : T.fixesLength i = U.fixesLength j := by
  obtain ⟨t, u, ht, hu, hm⟩ := h.exists_nodes
  rw [fixesLength, fixesLength, ht, hu]
  cases hm using Ty.Matches.kinds with
  | object ps qs hps =>
    refine hps.any_eq fun p _ q _ hpq => ?_
    obtain ⟨a, a', ha, ha', haa'⟩ := hpq.type.exists_nodes
    rw [hpq.name, hpq.optional, ha, ha']
    cases haa' using Ty.Matches.kinds <;> rfl
  | _ => rfl

/-- Twins are tuples as alternatives together. -/
theorem Twins.isTupleAlternative_eq (h : Twins T U i j) :
    T.isTupleAlternative i = U.isTupleAlternative j := by
  obtain ⟨t, u, ht, hu, hm⟩ := h.exists_nodes
  rw [isTupleAlternative, isTupleAlternative, ht, hu]
  cases hm using Ty.Matches.kinds with
  | intersection ms ns hms =>
    have hsequence : ms.any (fun m => (T.get? m).any Ty.isSequence) =
        ns.any fun n => (U.get? n).any Ty.isSequence :=
      hms.any_eq fun m _ n _ hmn =>
        hmn.any_eq fun _ _ hm => by cases hm using Ty.Matches.kinds <;> rfl
    have hlength : ms.any T.fixesLength = ns.any U.fixesLength :=
      hms.any_eq fun m _ n _ hmn => hmn.fixesLength_eq
    show (_ && _) = (_ && _)
    rw [hsequence, hlength]
  | _ => rfl

end TypeTable

/-- The branches that lists of evaluations reach are the same if the evaluations correspond. -/
theorem Outcome.unionAll_eq {α β : Type} {R : α → β → Prop} {xs : List α} {ys : List β}
    {r : α → Outcome} {r' : β → Outcome} (h : SameElements R xs ys)
    (hr : ∀ x ∈ xs, ∀ y ∈ ys, R x y → r x = r' y) :
    unionAll (xs.map r) = unionAll (ys.map r') := by
  have htrue := h.any_eq (p := fun x => (r x).reachesTrue) (q := fun y => (r' y).reachesTrue)
    fun x hx y hy hxy => by rw [hr x hx y hy hxy]
  have hfalse := h.any_eq (p := fun x => (r x).reachesFalse) (q := fun y => (r' y).reachesFalse)
    fun x hx y hy hxy => by rw [hr x hx y hy hxy]
  have hext : ∀ o o' : Outcome, o.reachesTrue = o'.reachesTrue →
      o.reachesFalse = o'.reachesFalse → o = o' := by
    rintro ⟨_, _⟩ ⟨_, _⟩ rfl rfl
    rfl
  apply hext
  · rw [reachesTrue_unionAll, reachesTrue_unionAll, List.any_map, List.any_map]
    exact htrue
  · rw [reachesFalse_unionAll, reachesFalse_unionAll, List.any_map, List.any_map]
    exact hfalse

namespace TypeTable

variable {T U V W : TypeTable} {i j s s' t t' : TypeId}

/-- Twins are tuples together. -/
theorem Twins.isTuple_eq (h : Twins T U i j) : T.isTuple i = U.isTuple j := by
  have hone := h.isTupleAlternative_eq
  obtain ⟨t, u, ht, hu, hm⟩ := h.exists_nodes
  rw [isTuple, isTuple, h.isNever_eq, ht, hu]
  split
  · rfl
  · cases hm using Ty.Matches.kinds with
    | union ms ns hms =>
      exact Outcome.unionAll_eq hms fun m _ n _ hmn => by rw [hmn.isTupleAlternative_eq]
    | _ => exact congrArg Outcome.ofBool hone

/-! ## Directional relations -/

/-- Twins accept everything together. -/
theorem Twins.isTop_eq (h : Twins T U i j) : T.isTop i = U.isTop j :=
  h.any_eq fun _ _ hm => by cases hm using Ty.Matches.kinds <;> rfl

/-- The subjects of twins are twins. -/
theorem Twins.subjects (h : Twins T U i j) :
    SameElements (Twins T U) (T.subjects i) (U.subjects j) := by
  obtain ⟨t, u, ht, hu, hm⟩ := h.exists_nodes
  rw [TypeTable.subjects, TypeTable.subjects, ht, hu]
  cases hm using Ty.Matches.kinds with
  | never => exact .of_forall₂ .nil
  | union ms ns hms => exact hms
  | _ => exact .of_forall₂ (.cons h .nil)

/-- Twins extend twins in the same way. -/
theorem Twins.extendsType_eq (hT : T.Tidy) (hU : U.Tidy) (hoptions : T.options = U.options)
    (hs : Twins T U s s') (ht : Twins T U t t') : T.extendsType s t = U.extendsType s' t' := by
  refine Outcome.unionAll_eq hs.subjects fun m _ n _ hmn => ?_
  rw [extendsAlternative, extendsAlternative, hmn.any_isAny, ht.isTop_eq,
    hmn.assignable_eq hT hU hoptions ht]

/-- Twins are simply equal to twins in the same way. -/
theorem Twins.simpleEqual_eq (hT : T.Tidy) (hU : U.Tidy) (hoptions : T.options = U.options)
    (hs : Twins T U s s') (ht : Twins T U t t') : T.simpleEqual s t = U.simpleEqual s' t' := by
  refine Outcome.unionAll_eq hs.subjects fun m _ n _ hmn => ?_
  rw [simpleEqualAlternative, simpleEqualAlternative, hmn.any_isAny, ht.isTop_eq,
    hmn.assignable_eq hT hU hoptions ht, ht.extendsType_eq hT hU hoptions hmn]

end TypeTable

variable {T U : TypeTable} {i j a a' b b' : TypeId}

/-- Every category holds of twins in the same way. -/
theorem Category.holds_eq_of_twins (c : Category) (hT : T.Tidy) (hU : U.Tidy)
    (hoptions : T.options = U.options) (h : Twins T U i j) : c.holds T i = c.holds U j := by
  cases c with
  | never => exact h.isNever_eq
  | any => exact h.isAny_eq
  | unknown => exact h.isUnknown_eq hT hU hoptions
  | union => exact h.isUnionType_eq
  | tuple => exact h.isTuple_eq

/-! ## Comparisons -/

/-- Questions to the tables that have the same answer. -/
theorem Building.Alike.ask {α : Type} {g g' : TypeTable → α} (h : g T = g' U) :
    Alike (do return g (← get)) T (do return g' (← get)) U fun r r' _ _ => r = r' :=
  ⟨T, U, .refl, .refl, Or.inr ⟨g T, g' U, rfl, rfl, h⟩⟩

/-- Canonical types are their own normal forms, so comparing these compares the types. -/
theorem alike_compareNormal {answer : NormalType → NormalType → Outcome} (hT : T.Tidy) (hU : U.Tidy)
    (ha : T.Canonical a) (ha' : U.Canonical a') (hb : T.Canonical b) (hb' : U.Canonical b')
    (h : answer ⟨a⟩ ⟨b⟩ = answer ⟨a'⟩ ⟨b'⟩) :
    Alike (do return answer (← NormalType.of a) (← NormalType.of b)) T
      (do return answer (← NormalType.of a') (← NormalType.of b')) U fun r r' _ _ => r = r' := by
  have hon : ∀ {V : TypeTable} {x y : TypeId}, V.Tidy → V.Canonical x → V.Canonical y →
      Building.on (do return answer (← NormalType.of x) (← NormalType.of y)) V =
        (.ok (answer ⟨x⟩ ⟨y⟩), V) := by
    intro V x y hV hx hy
    rw [on_bind_ok (on_normalType_ok (on_normalize hV.hasBuiltins hx)),
      on_bind_ok (on_normalType_ok (on_normalize hV.hasBuiltins hy))]
    rfl
  exact ⟨T, U, .refl, .refl, Or.inr ⟨_, _, hon hT ha hb, hon hU ha' hb', h⟩⟩

/-- Whether twins are equal to twins is answered alike. -/
theorem alike_equal (hT : T.Tidy) (hU : U.Tidy) (ha : Twins T U a a') (hb : Twins T U b b') :
    Alike (equal a b) T (equal a' b') U fun r r' _ _ => r = r' := by
  refine alike_compareNormal hT hU ha.left ha.right hb.left hb.right ?_
  simp only [NormalType.mk.injEq, ha.eq_iff hb]

/-- A truth value is its own twin. -/
theorem twins_ofBool (hT : T.HasBuiltins) (hU : U.HasBuiltins) (target : Bool) :
    Twins T U (TypeId.ofBool target) (TypeId.ofBool target) :=
  twins_of_leaf (hT.ofBool target) (hU.ofBool target) rfl (hT.canonical_ofBool target)
    (hU.canonical_ofBool target)

/-- The type `boolean` is its own twin. -/
theorem twins_boolean (hT : T.HasBuiltins) (hU : U.HasBuiltins) :
    Twins T U TypeId.boolean TypeId.boolean := by
  have hget : ∀ {V : TypeTable}, V.HasBuiltins →
      V.get? TypeId.boolean = some (.union [TypeId.yes, TypeId.no]) := fun hV => hV _ _ rfl
  refine (twins_iff (hget hT) (hget hU) hT.canonical_boolean hU.canonical_boolean).mpr ?_
  exact .of_forall₂ (.cons (twins_ofBool hT hU true) (.cons (twins_ofBool hT hU false) .nil))

/-- An outcome is the same type in all tables. -/
theorem twins_toType (hT : T.HasBuiltins) (hU : U.HasBuiltins) (r : Outcome) :
    Twins T U r.toType r.toType := by
  rcases r with ⟨_ | _, _ | _⟩
  · exact twins_never hT hU
  · exact twins_ofBool hT hU false
  · exact twins_ofBool hT hU true
  · exact twins_boolean hT hU

/-- Comparisons give twins the same outcome. -/
theorem alike_compare (c : Comparison) (hT : T.Tidy) (hU : U.Tidy)
    (hoptions : T.options = U.options) (ha : Twins T U a a') (hb : Twins T U b b') :
    Alike (c.compare a b) T (c.compare a' b') U fun r r' _ _ => r = r' := by
  cases c with
  | equal => exact alike_equal hT hU ha hb
  | notEqual =>
    refine alike_compareNormal hT hU ha.left ha.right hb.left hb.right ?_
    simp only [ne_eq, NormalType.mk.injEq, ha.eq_iff hb]
  | simpleEqual => exact .ask (ha.simpleEqual_eq hT hU hoptions hb)
  | extending => exact .ask (ha.extendsType_eq hT hU hoptions hb)

/-! ## Batches -/

namespace TypeTable

variable {m n r : TypeId}

/-- `r` is what the elements of `m` have in common, for a type `m` that is no union. -/
def HasElements (T : TypeTable) (m r : TypeId) : Prop :=
  match T.get? m with
  | some (.tuple es _) => T.IsUnionOf es r
  | some (.array e _) => r = e
  | some .never => r = TypeId.never
  | some .any => r = TypeId.any
  | _ => r = TypeId.unknown

/-- `n` is the union of what the elements of the alternatives of `i` have in common. -/
def IsElementTypeOf (T : TypeTable) (i n : TypeId) : Prop :=
  ∃ rs, List.Forall₂ (fun m r => T.Canonical r ∧ T.HasElements m r) (T.alternatives i) rs ∧
    T.IsUnionOf rs n

/-- The elements of a type stay so in later tables. -/
theorem HasElements.grows {V : TypeTable} (h : T.HasElements m r) (hTV : Grows T V)
    (hm : T.Canonical m) (hr : T.Canonical r) : V.HasElements m r := by
  unfold HasElements at h ⊢
  rw [hTV.get?_eq hm.lt_size]
  split at h
  · rename_i es _ hget
    exact h.grows hTV (fun e he => hm.part hget he) hr.lt_size
  all_goals exact h

/-- The elements of twins are twins. -/
theorem Twins.hasElements (hT : T.HasBuiltins) (hU : U.HasBuiltins) {m' r' : TypeId}
    (h : Twins T U m m') (hr : T.Canonical r) (hr' : U.Canonical r') (hm : T.HasElements m r)
    (hm' : U.HasElements m' r') : Twins T U r r' := by
  obtain ⟨t, u, ht, hu, hmatch⟩ := h.exists_nodes
  unfold HasElements at hm hm'
  rw [ht] at hm
  rw [hu] at hm'
  cases hmatch using Ty.Matches.kinds with
  | tuple es fs _ hes => exact hm.twins hT hU hr hr' hm' (.of_forall₂ hes)
  | array e f _ hef => exact hm ▸ hm' ▸ hef
  | never => exact hm ▸ hm' ▸ twins_never hT hU
  | any => exact hm ▸ hm' ▸ twins_any hT hU
  | _ => exact hm ▸ hm' ▸ twins_unknown hT hU

/-- The elements of twins have a twin type. -/
theorem IsElementTypeOf.twins (hT : T.HasBuiltins) (hU : U.HasBuiltins) {n' : TypeId}
    (h : Twins T U i j) (hn : T.Canonical n) (hn' : U.Canonical n') (hi : T.IsElementTypeOf i n)
    (hj : U.IsElementTypeOf j n') : Twins T U n n' := by
  obtain ⟨rs, hrs, hnrs⟩ := hi
  obtain ⟨rs', hrs', hnrs'⟩ := hj
  refine hnrs.twins hT hU hn hn' hnrs' ⟨fun r hr => ?_, fun r' hr' => ?_⟩
  · obtain ⟨m, hm, hmr⟩ := (SameElements.of_forall₂ hrs).right r hr
    obtain ⟨m', hm', hmm'⟩ := h.alternatives.left m hm
    obtain ⟨r', hr', hmr'⟩ := (SameElements.of_forall₂ hrs').left m' hm'
    exact ⟨r', hr', hmm'.hasElements hT hU hmr.1 hmr'.1 hmr.2 hmr'.2⟩
  · obtain ⟨m', hm', hmr'⟩ := (SameElements.of_forall₂ hrs').right r' hr'
    obtain ⟨m, hm, hmm'⟩ := h.alternatives.right m' hm'
    obtain ⟨r, hr, hmr⟩ := (SameElements.of_forall₂ hrs).left m hm
    exact ⟨r, hr, hmm'.hasElements hT hU hmr.1 hmr'.1 hmr.2 hmr'.2⟩

end TypeTable

variable {m n : TypeId}

/-- What is no union needs one level. -/
theorem yields_elementTypeWithin_of_not_isUnion (depth : Nat) (hb : T.HasBuiltins)
    (hm : T.Canonical m) (hunion : T.isUnion m = false) :
    (elementTypeWithin (depth + 1) m).Yields T fun r U => U.Canonical r ∧ U.HasElements m r := by
  rw [elementTypeWithin]
  refine Interning.Yields.get ?_
  unfold HasElements
  split
  · rename_i es _ hget
    refine (unionOf_isUnionOf hb fun e he => hm.part hget he).mono fun r U hTU hr => ?_
    rw [hTU.get? hget]
    exact hr
  · rename_i e _ hget
    exact .pure ⟨hm.part hget List.mem_cons_self, by rw [hget]⟩
  · rename_i ms hget
    simp [isUnion, hget, Ty.isUnion] at hunion
  · rename_i hget
    exact .pure ⟨hb.canonical_never, by rw [hget]⟩
  · rename_i hget
    exact .pure ⟨hb.canonical_any, by rw [hget]⟩
  · refine .pure ⟨hb.canonical_unknown, ?_⟩
    split <;> simp_all

/-- Each member of a union has the type of its elements. -/
theorem yields_elementsWithin (depth : Nat) (hb : T.HasBuiltins) {ms : List TypeId}
    (hms : ∀ m ∈ ms, T.Canonical m ∧ T.isUnion m = false) :
    (ms.mapM (elementTypeWithin (depth + 1))).Yields T fun rs U =>
      List.Forall₂ (fun m r => U.Canonical m ∧ U.Canonical r ∧ U.HasElements m r) ms rs := by
  refine Interning.yields_mapM
    (Q := fun m r U => U.Canonical m ∧ U.Canonical r ∧ U.HasElements m r)
    (fun m hm U hTU => ?_) fun m r U V hUV hr => ?_
  · obtain ⟨hmc, hnot⟩ := hms m hm
    have hmU := hTU.canonical hmc
    have hnotU : U.isUnion m = false := by
      rw [isUnion, hTU.grows.get?_eq hmc.lt_size]
      exact hnot
    refine (yields_elementTypeWithin_of_not_isUnion depth (hTU.hasBuiltins hb) hmU hnotU).mono
      fun r V hUV hr => ⟨hUV.canonical hmU, hr⟩
  · obtain ⟨hmU, hrU, hhas⟩ := hr
    exact ⟨hUV.canonical hmU, hUV.canonical hrU, hhas.grows hUV.grows hmU hrU⟩

/-- The element type of a canonical type is the union of what its alternatives hold. -/
theorem elementType_isElementTypeOf (hb : T.HasBuiltins) (hi : T.Canonical i) :
    (elementType i).Yields T fun n U => U.Canonical n ∧ U.IsElementTypeOf i n := by
  obtain ⟨depth, hdepth⟩ := T.exists_levelBound_eq
  refine Interning.Yields.get ?_
  rw [hdepth]
  -- a type that is no union has itself as its only alternative
  by_cases hunion : T.isUnion i = false
  · refine (yields_elementTypeWithin_of_not_isUnion (depth + 1) hb hi hunion).mono
      fun r U hTU hr => ⟨hr.1, [r], ?_, hr.1.isUnionOf (hTU.hasBuiltins hb) (by simp)⟩
    rw [hTU.grows.alternatives_eq hi.lt_size, alternatives_of_not_union hunion]
    exact .cons hr .nil
  obtain ⟨ms, hget⟩ := exists_get?_of_isUnion (Bool.eq_true_of_not_eq_false hunion)
  have hms : T.alternatives i = ms := by rw [TypeTable.alternatives, hget]
  have hmem : ∀ m ∈ ms, T.Canonical m ∧ T.isUnion m = false := fun m hm =>
    hi.alternatives (hms ▸ hm)
  rw [elementTypeWithin]
  refine Interning.Yields.get ?_
  rw [hget]
  refine (yields_elementsWithin depth hb hmem).bind fun rs U hTU hrs => ?_
  have hrs' : ∀ r ∈ rs, U.Canonical r := forall_right_of_forall₂ hrs fun _ _ hr => hr.2.1
  refine (unionOf_isUnionOf (hTU.hasBuiltins hb) hrs').mono fun n V hUV hn => ?_
  refine ⟨hn.1, rs, ?_, hn.2⟩
  rw [(hTU.trans hUV).grows.alternatives_eq hi.lt_size, hms]
  exact hrs.imp fun m r hr => ⟨hUV.canonical hr.2.1, hr.2.2.grows hUV.grows hr.1 hr.2.1⟩

/-- The elements of twins have twin types. -/
theorem twinned_elementType (hT : T.HasBuiltins) (hU : U.HasBuiltins) (h : Twins T U i j) :
    Twinned (monadLift (elementType i)) T (monadLift (elementType j)) U := by
  refine .of_gives (elementType_isElementTypeOf hT h.left).gives
    (elementType_isElementTypeOf hU h.right).gives ?_
  rintro m n V W hTV hUW ⟨hm, him⟩ ⟨hn, hjn⟩
  exact him.twins (hTV.hasBuiltins hT) (hUW.hasBuiltins hU) (h.grows hTV.grows hUW.grows) hm hn hjn

/-- Batches give twins the same outcome. -/
theorem alike_foldBatch (target : Bool) (hT : T.Tidy) (hU : U.Tidy) (h : Twins T U i j) :
    Alike (foldBatch i target) T (foldBatch j target) U fun r r' _ _ => r = r' := by
  refine (twinned_elementType hT.hasBuiltins hU.hasBuiltins h).bind
    fun e e' V W hTV hUW hee' => ?_
  have hV := hTV.tidy hT
  have hW := hUW.tidy hU
  refine (alike_equal hV hW hee' (twins_ofBool hV.hasBuiltins hW.hasBuiltins target)).bind
    fun r r' V' W' hVV' hWW' hr => ?_
  have htuple := ((h.grows hTV.grows hUW.grows).grows hVV'.grows hWW'.grows).isTuple_eq
  refine .ask ?_
  rw [hr, htuple]

end TypeAssay
