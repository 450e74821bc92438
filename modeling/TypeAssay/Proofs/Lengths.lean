import TypeAssay.Proofs.Branches
import TypeAssay.Proofs.ElementTypes

/-!
# Sequences of a fixed length

A type is a tuple if some constraint makes it a sequence and some constraint fixes its `length`.
Assignability asks for both in its own way: by the readonly array of anything, and by the shapes
whose `length` is a number literal. A sequence has a `length` for sure, so the shape is met as soon
as some constraint offers the literal, be it as an optional member.

The two agree where no constraint declares `length` as optional (`isTuple_iff_fits`). An array that
an optional `length` is added to fits a shape with that `length`, but is no tuple
(`not_isTuple_measured`): a member that may be absent does not fix anything.
-/

namespace TypeAssay

open TypeTable Building

variable {T U : TypeTable} {o : Options} {d i n r : TypeId} {x : Binary64} {a : Ty} {p : Property}
  {ms : List TypeId}

namespace TypeTable

/-! ## Constraints on sequences -/

/-- Some constraint of a type is a tuple or an array. -/
def HasSequence (T : TypeTable) (i : TypeId) : Prop :=
  ∃ d ∈ T.constraints i, (T.get? d).any Ty.isSequence

/-- Some constraint of a type is a tuple. -/
def HasTuple (T : TypeTable) (i : TypeId) : Prop :=
  ∃ d ∈ T.constraints i, ∃ es readonly, T.get? d = some (.tuple es readonly)

/-- A shape among the constraints of a type declares `length`. -/
def DeclaresLength (T : TypeTable) (i : TypeId) (p : Property) : Prop :=
  ∃ d ∈ T.constraints i, ∃ ps, T.get? d = some (.object ps) ∧ p ∈ ps ∧ p.name = "length"

/-- A type is a tuple by one constraint that makes it a sequence and one that fixes its length. -/
theorem isTupleAlternative_iff :
    T.isTupleAlternative i ↔ T.HasSequence i ∧ ∃ d ∈ T.constraints i, T.fixesLength d := by
  rw [isTupleAlternative, HasSequence, constraints]
  cases hi : T.get? i with
  | none => simp [hi]
  | some t =>
    cases t with
    | intersection ms => simp
    | any | never | unknown | primitive _ | literal _ | union _ | tuple _ _ | array _ _
    | object _ => simp [hi, Ty.isSequence, fixesLength]

/-- Tuples fix their length, and shapes that require it to be a literal. -/
theorem exists_fixesLength_iff
    (hliteral : ∀ p, T.DeclaresLength i p → ∃ x, T.get? p.type = some (.literal (.number x))) :
    (∃ d ∈ T.constraints i, T.fixesLength d) ↔
      T.HasTuple i ∨ ∃ p, T.DeclaresLength i p ∧ p.optional = false := by
  constructor
  · rintro ⟨d, hd, hfixes⟩
    rw [fixesLength] at hfixes
    split at hfixes
    · exact Or.inl ⟨d, hd, _, _, ‹_›⟩
    · rename_i ps hget
      obtain ⟨p, hp, hp'⟩ := List.any_eq_true.mp hfixes
      simp only [Bool.and_eq_true, decide_eq_true_eq, Bool.not_eq_true'] at hp'
      exact Or.inr ⟨p, ⟨d, hd, ps, hget, hp, hp'.1.1⟩, hp'.1.2⟩
    · exact absurd hfixes Bool.false_ne_true
  · rintro (⟨d, hd, es, readonly, hget⟩ | ⟨p, hdeclares, hrequired⟩)
    · exact ⟨d, hd, by rw [fixesLength, hget]⟩
    · obtain ⟨x, hx⟩ := hliteral p hdeclares
      obtain ⟨d, hd, ps, hget, hp, hname⟩ := hdeclares
      refine ⟨d, hd, ?_⟩
      rw [fixesLength, hget]
      exact List.any_eq_true.mpr ⟨p, hp, by simp [hname, hrequired, hx]⟩

/-! ## Below the readonly array of anything -/

/-- A constraint fits the readonly array of anything exactly if it is a sequence. -/
theorem Tidy.assignable_array_unknown_iff (hT : T.Tidy) (hstrict : T.options.strictNullChecks)
    (hd : T.get? d = some a) (ha : a.isConstraint)
    (hr : T.get? r = some (.array TypeId.unknown true)) :
    T.assignable d r ↔ a.isSequence := by
  have halt := Ty.isAlternative_of_isConstraint ha
  have hdescends : ∀ j ∈ a.parts, j < T.size := fun j hj =>
    Nat.lt_trans (hT.descends d a hd j hj) (lt_size_of_get? hd)
  constructor
  · intro h
    rcases hT.isSequence_of_assignable_array hstrict hd halt hr h with h | ⟨ms, rfl⟩
    · exact h
    · exact absurd ha Bool.false_ne_true
  · intro h
    cases a with
    | tuple es readonly =>
      rw [hT.tuple_assignable_array_iff hd hr]
      exact fun e he => hT.assignable_unknown (hdescends e he)
    | array e readonly =>
      rw [hT.array_assignable_array_iff hd hr]
      exact hT.assignable_unknown (hdescends e List.mem_cons_self)
    | any | never | unknown | primitive _ | literal _ | union _ | intersection _ | object _ =>
      exact absurd h Bool.false_ne_true

/-- Nothing is loose under strict null checks. -/
theorem not_loose (hstrict : T.options.strictNullChecks) : ¬ T.Loose d := by
  rintro ⟨a, -, h⟩
  rw [isLooseNull_eq_false hstrict] at h
  exact Bool.false_ne_true h

/-- An alternative fits the readonly array of anything exactly if it has a sequence among its
constraints. -/
theorem Tidy.fits_array_iff_hasSequence (hT : T.Tidy) (hstrict : T.options.strictNullChecks)
    (hi : T.IsAlternative i) (hr : T.get? r = some (.array TypeId.unknown true)) :
    T.assignable i r ↔ T.HasSequence i := by
  have hsequence : (∃ d ∈ T.constraints i, T.assignable d r) ↔ T.HasSequence i := by
    refine exists_congr fun d => and_congr_right fun hd => ?_
    obtain ⟨a, ha, hcon⟩ := hi.constraints hd
    rw [hT.assignable_array_unknown_iff hstrict ha hcon hr, ha, Option.any_some]
  rw [hT.assignable_constraint_iff hi hr rfl, hsequence]
  simp [not_loose hstrict]

/-! ## Below the shapes with a `length` -/

/-- A sequence offers its length. -/
theorem offers_length_of_isSequence (hd : T.get? d = some a) (ha : a.isSequence) :
    ∃ o, T.Offers d o ∧ o.name = "length" ∧ o.optional = false := by
  cases a with
  | tuple es readonly =>
    exact ⟨.lengthOf es.length, ⟨_, by rw [offers?, hd], List.mem_singleton_self _⟩, rfl, rfl⟩
  | array e readonly =>
    exact ⟨.length, ⟨_, by rw [offers?, hd], List.mem_singleton_self _⟩, rfl, rfl⟩
  | any | never | unknown | primitive _ | literal _ | union _ | intersection _ | object _ =>
    exact absurd ha Bool.false_ne_true

/-- A constraint fits an object type exactly if it is that type or has what the type asks for. -/
theorem Tidy.assignable_object_iff {wanted : List Property} (hT : T.Tidy)
    (hstrict : T.options.strictNullChecks) (hd : T.get? d = some a) (ha : a.isConstraint)
    (hr : T.get? r = some (.object wanted)) :
    T.assignable d r ↔ d = r ∨ T.meetsShape T.assignable [d] wanted := by
  rw [hT.assignable_iff hd hr (plain_of_isConstraint ha) (plain_of_isAlternative rfl),
    isLooseNull_eq_false hstrict]
  cases a with
  | primitive _ | literal _ | tuple _ _ | array _ _ | object _ => simp [structuralStep]
  | any | never | unknown | union _ | intersection _ => exact absurd ha Bool.false_ne_true

/-- Next to a sequence every constraint has members. -/
theorem HasSequence.isSome_offers? (h : T.HasSequence i) (hT : T.Tidy) (hi : T.IsAlternative i)
    (hd : d ∈ T.constraints i) : (T.offers? d).isSome := by
  obtain ⟨a, ha, hcon⟩ := hi.constraints hd
  rw [Option.isSome_iff_ne_none]
  intro hnone
  obtain ⟨p, rfl, hp⟩ := exists_nullish_of_offers?_eq_none ha hcon hnone
  obtain rfl := hT.hasBuiltins.eq_id ha
  obtain rfl := hi.eq_of_nullish hT.hasBuiltins hp hd
  obtain ⟨e, he, hsequence⟩ := h
  rw [constraints_of_isConstraint ha rfl] at he
  rw [List.mem_singleton.mp he, ha] at hsequence
  exact Bool.false_ne_true hsequence

/-- A type with a sequence among its constraints fits a shape with a `length` exactly if one of its
constraints offers a `length` whose type fits. That the member is there for sure is the sequence's
part. -/
theorem HasSequence.assignable_length_iff (h : T.HasSequence i) (hT : T.Tidy)
    (hstrict : T.options.strictNullChecks) (hi : T.IsAlternative i)
    (hr : T.get? r = some (.object [{ name := "length", type := n }])) :
    T.assignable i r ↔ ∃ d ∈ T.constraints i, ∃ o, T.Offers d o ∧ o.name = "length" ∧
      T.assignable (T.offerType o) n := by
  have hwanted : ∀ p ∈ [({ name := "length", type := n } : Property)], p.optional = false := by simp
  rw [hT.assignable_constraint_iff hi hr rfl]
  constructor
  · -- either a constraint fits by itself or all of them together have the shape
    rintro (hloose | ⟨d, hd, hfits⟩ | ⟨wanted, hshape, hmeets⟩)
    · exact absurd hloose (not_loose hstrict)
    · obtain ⟨a, ha, hcon⟩ := hi.constraints hd
      rcases (hT.assignable_object_iff hstrict ha hcon hr).mp hfits with rfl | hmeets
      · exact ⟨d, hd, .property { name := "length", type := n },
          ⟨_, by rw [offers?, hr]; rfl, List.mem_singleton_self _⟩, rfl, assignable_self _⟩
      · obtain ⟨-, s, hs, hoffer⟩ := ((meetsShape_iff hwanted).mp hmeets).2 _ List.mem_cons_self
        exact ⟨d, hd, List.mem_singleton.mp hs ▸ hoffer⟩
    · obtain rfl := Ty.object.inj hshape
      exact (((meetsShape_iff hwanted).mp hmeets).2 _ List.mem_cons_self).2
  · rintro hoffer
    refine Or.inr (Or.inr ⟨_, rfl, (meetsShape_iff hwanted).mpr ⟨fun d hd => ?_, fun p hp => ?_⟩⟩)
    · exact h.isSome_offers? hT hi hd
    · obtain rfl := List.mem_singleton.mp hp
      obtain ⟨d, hd, hsequence⟩ := h
      obtain ⟨a, ha, hsequence⟩ := (Option.any_eq_true _ _).mp hsequence
      exact ⟨⟨d, hd, offers_length_of_isSequence ha hsequence⟩, hoffer⟩

/-! ## Lengths that are literals -/

/-- Only tuples offer a count, and they offer their own. -/
theorem exists_tuple_of_offers? {os : List Offer} {count : Nat} (h : T.offers? d = some os)
    (hcount : .lengthOf count ∈ os) :
    ∃ es readonly, T.get? d = some (.tuple es readonly) ∧ count = es.length := by
  rw [offers?] at h
  split at h
  · obtain rfl := Option.some.inj h
    simp at hcount
  · split at h
    · exact absurd h (by simp)
    · obtain rfl := Option.some.inj h
      split at hcount <;> simp at hcount
  · obtain rfl := Option.some.inj h
    simp at hcount
  · obtain rfl := Option.some.inj h
    exact absurd hcount List.not_mem_nil
  · obtain rfl := Option.some.inj h
    simp at hcount
  · rename_i es readonly hget
    obtain rfl := Option.some.inj h
    exact ⟨es, readonly, hget, Offer.lengthOf.inj (List.mem_singleton.mp hcount)⟩
  · exact absurd h (by simp)

/-- What is offered as `length` and fits a literal comes from a tuple, or from a shape that declares
it: any number fits no literal. -/
theorem Tidy.hasTuple_or_declaresLength {l : Literal} {o : Offer} (hT : T.Tidy)
    (hstrict : T.options.strictNullChecks) (hn : T.get? n = some (.literal l))
    (hd : d ∈ T.constraints i) (ho : T.Offers d o) (hname : o.name = "length")
    (hfits : T.assignable (T.offerType o) n) :
    T.HasTuple i ∨ ∃ p, T.DeclaresLength i p := by
  obtain ⟨os, hos, ho⟩ := ho
  cases o with
  | length =>
    have hnumber := hT.hasBuiltins.primitive .number
    rcases (hT.assignable_literal_iff hnumber rfl hn).mp hfits with h | hloose
    · exact absurd ((h ▸ hnumber : T.get? n = _).symm.trans hn) (by simp)
    · rw [isLooseNull_eq_false hstrict] at hloose
      exact absurd hloose Bool.false_ne_true
  | lengthOf count =>
    obtain ⟨es, readonly, hget, -⟩ := exists_tuple_of_offers? hos ho
    exact Or.inl ⟨d, hd, es, readonly, hget⟩
  | property p =>
    obtain ⟨ps, hget, hp⟩ := exists_object_of_offers? hos ho
    exact Or.inr ⟨p, d, hd, ps, hget, hp, hname⟩

/-! ## The two types to fit -/

/-- The shape of the values whose `length` is a number. -/
def lengthShape (x : Binary64) : Building TypeId := do
  objectOf [{ name := "length", type := ← numberLiteral x }]

/-- A type fits the readonly array of anything. -/
def FitsArray (T : TypeTable) (i : TypeId) : Prop :=
  ∃ r U, (arrayOf TypeId.unknown true).run T = (r, U) ∧ U.assignable i r

/-- A type fits the shape of the values with a `length`. -/
def FitsLength (T : TypeTable) (i : TypeId) (x : Binary64) : Prop :=
  ∃ r U, (lengthShape x).on T = (.ok r, U) ∧ U.assignable i r

/-- The object with a length of one literal type is built. -/
theorem gives_objectOf_length {l : Literal} (hn : T.Canonical n)
    (hget : T.get? n = some (.literal l)) :
    (objectOf [{ name := "length", type := n }]).Gives T fun r U =>
      U.get? n = some (.literal l) ∧
        U.get? r = some (.object [{ name := "length", type := n }]) := by
  have hpairwise : ([({ name := "length", type := n } : Property)].map (·.name)).Pairwise (· < ·) :=
    List.pairwise_singleton _ _
  have hparts : ∀ j ∈ (Ty.object [{ name := "length", type := n }]).parts, T.Canonical j :=
    List.forall_mem_singleton.mpr hn
  rw [objectOf_of_pairwise hpairwise]
  exact (Interning.yields_intern (t := .object [{ name := "length", type := n }]) hpairwise hparts
    ⟨get?_intern_of_get? hget _, get?_intern_fst T _⟩).gives

/-- The `length` of the shape has a literal as its type. -/
theorem yields_lengthShape (x : Binary64) :
    (lengthShape x).Yields T fun r U => ∃ n l, U.get? n = some (.literal l) ∧
      U.get? r = some (.object [{ name := "length", type := n }]) :=
  (numberLiteral_yields x).bind fun _ _ _ ⟨hn, _, hget, _⟩ =>
    (gives_objectOf_length hn hget).yields.mono fun _ _ _ ⟨hget, hr⟩ => ⟨_, _, hget, hr⟩

/-- A number that has a literal has a shape, with that literal. -/
theorem gives_lengthShape (hx : (Literal.number x).IsCanonical) :
    (lengthShape x).Gives T fun r U => ∃ n, U.get? n = some (.literal (.number x)) ∧
      U.get? r = some (.object [{ name := "length", type := n }]) := by
  rw [lengthShape, numberLiteral_of_isCanonical hx]
  refine (yields_intern_literal hx).gives.bind fun n U _ ⟨hn, hget⟩ => ?_
  exact (gives_objectOf_length hn hget).mono fun _ _ _ ⟨hget, hr⟩ => ⟨n, hget, hr⟩

/-- What a constraint looks like does not change when the table grows. -/
theorem IsAlternative.exists_constraint_iff {P : Option Ty → Prop} (hi : T.IsAlternative i)
    (hTU : Grows T U) :
    (∃ d ∈ U.constraints i, P (U.get? d)) ↔ ∃ d ∈ T.constraints i, P (T.get? d) := by
  rw [hTU.constraints_eq hi.1.lt_size]
  refine exists_congr fun d => and_congr_right fun hd => ?_
  obtain ⟨a, ha, -⟩ := hi.constraints hd
  rw [hTU.get?_eq (lt_size_of_get? ha)]

/-- The readonly array of anything can always be built. -/
theorem HasBuiltins.exists_array_unknown (hb : T.HasBuiltins) :
    ∃ r U, T.Builds U ∧ U.get? r = some (.array TypeId.unknown true) ∧
      ∀ i, T.FitsArray i ↔ U.assignable i r := by
  rcases hon : (arrayOf TypeId.unknown true).run T with ⟨r, U⟩
  obtain ⟨hbuilds, -⟩ := yields_arrayOf (T := T) true hb.canonical_unknown
  have hr : ((arrayOf TypeId.unknown true).run T).2.get? ((arrayOf TypeId.unknown true).run T).1 =
      some (.array TypeId.unknown true) := get?_intern_fst T _
  rw [hon] at hbuilds hr
  refine ⟨r, U, hbuilds, hr, fun i => ⟨?_, fun h => ⟨r, U, hon, h⟩⟩⟩
  rintro ⟨r', U', hon', h⟩
  obtain ⟨rfl, rfl⟩ := Prod.mk.inj (hon.symm.trans hon')
  exact h

/-- An alternative fits the readonly array of anything exactly if it has a sequence among its
constraints. -/
theorem Tidy.fitsArray_iff (hT : T.Tidy) (hstrict : T.options.strictNullChecks)
    (hi : T.IsAlternative i) : T.FitsArray i ↔ T.HasSequence i := by
  obtain ⟨r, U, hbuilds, hr, hfits⟩ := hT.hasBuiltins.exists_array_unknown
  have hstrict' : U.options.strictNullChecks := by rwa [hbuilds.grows.options_eq]
  rw [hfits, (hbuilds.tidy hT).fits_array_iff_hasSequence hstrict' (hi.builds hbuilds) hr]
  exact hi.exists_constraint_iff (P := fun a => a.any Ty.isSequence) hbuilds.grows

/-- `unknown` is no sequence. -/
theorem Tidy.not_fitsArray_unknown (hT : T.Tidy) : ¬ T.FitsArray TypeId.unknown := by
  obtain ⟨r, U, hbuilds, hr, hfits⟩ := hT.hasBuiltins.exists_array_unknown
  rw [hfits, (hbuilds.tidy hT).not_unknown_assignable hr (by simp) (by simp)]
  exact Bool.false_ne_true

/-- With a sequence among its constraints a type fits a shape with a literal `length` only if one of
them is a tuple or declares `length`. -/
theorem HasSequence.of_fitsLength (h : T.HasSequence i) (hT : T.Tidy)
    (hstrict : T.options.strictNullChecks) (hi : T.IsAlternative i) (hfits : T.FitsLength i x) :
    T.HasTuple i ∨ ∃ p, T.DeclaresLength i p := by
  obtain ⟨r, U, hon, hfits⟩ := hfits
  obtain ⟨hbuilds, hshape⟩ := yields_lengthShape (T := T) x
  rw [hon] at hbuilds hshape
  obtain ⟨n, l, hn, hr⟩ := hshape r rfl
  have hU := hbuilds.tidy hT
  have hstrict' : U.options.strictNullChecks := by rwa [hbuilds.grows.options_eq]
  have hsequence : U.HasSequence i := (hi.exists_constraint_iff
    (P := fun a => a.any Ty.isSequence) hbuilds.grows).mpr h
  obtain ⟨d, hd, o, ho, hname, hfit⟩ :=
    (hsequence.assignable_length_iff hU hstrict' (hi.builds hbuilds) hr).mp hfits
  refine (hU.hasTuple_or_declaresLength hstrict' hn hd ho hname hfit).imp (fun htuple => ?_) ?_
  · exact (hi.exists_constraint_iff (P := fun a => ∃ es readonly, a = some (.tuple es readonly))
      hbuilds.grows).mp htuple
  · exact Exists.imp fun p hp => (hi.exists_constraint_iff
      (P := fun a => ∃ ps, a = some (.object ps) ∧ p ∈ ps ∧ p.name = "length") hbuilds.grows).mp hp

/-- A constraint that offers a literal as its `length` in all later tables makes a type with a
sequence among its constraints fit the shape with that `length`. -/
theorem HasSequence.fitsLength (h : T.HasSequence i) (hT : T.Tidy)
    (hstrict : T.options.strictNullChecks) (hi : T.IsAlternative i)
    (hx : (Literal.number x).IsCanonical) (hd : d ∈ T.constraints i)
    (hoffer : ∀ U n, Grows T U → U.get? n = some (.literal (.number x)) →
      ∃ o, U.Offers d o ∧ o.name = "length" ∧ U.offerType o = n) : T.FitsLength i x := by
  obtain ⟨r, U, hon, hbuilds, n, hn, hr⟩ := gives_lengthShape (T := T) hx
  have hstrict' : U.options.strictNullChecks := by rwa [hbuilds.grows.options_eq]
  have hsequence : U.HasSequence i := (hi.exists_constraint_iff
    (P := fun a => a.any Ty.isSequence) hbuilds.grows).mpr h
  refine ⟨r, U, hon, ?_⟩
  rw [hsequence.assignable_length_iff (hbuilds.tidy hT) hstrict' (hi.builds hbuilds) hr]
  obtain ⟨o, ho, hname, htype⟩ := hoffer U n hbuilds.grows hn
  exact ⟨d, hbuilds.grows.constraints_eq hi.1.lt_size ▸ hd, o, ho, hname,
    htype ▸ assignable_self _⟩

/-- With a sequence among its constraints a type fits some shape with a literal `length` exactly if
one of them is a tuple or declares `length`, where only literals are declared. -/
theorem HasSequence.exists_fitsLength_iff (h : T.HasSequence i) (hT : T.Tidy)
    (hstrict : T.options.strictNullChecks) (hi : T.IsAlternative i)
    (hliteral : ∀ p, T.DeclaresLength i p → ∃ x, T.get? p.type = some (.literal (.number x))) :
    (∃ x, T.FitsLength i x) ↔ T.HasTuple i ∨ ∃ p, T.DeclaresLength i p := by
  refine ⟨fun ⟨x, hx⟩ => h.of_fitsLength hT hstrict hi hx, ?_⟩
  rintro (⟨d, hd, es, readonly, hget⟩ | ⟨p, hdeclares⟩)
  · refine ⟨.ofNat es.length, h.fitsLength hT hstrict hi (isCanonical_ofNat _) hd ?_⟩
    intro U n hTU hn
    refine ⟨.lengthOf es.length, ⟨_, by rw [offers?, hTU.get? hget], List.mem_singleton_self _⟩,
      rfl, ?_⟩
    rw [offerType, countType, lookup_eq_some_iff.mpr hn, Option.getD_some]
  · obtain ⟨x, hx⟩ := hliteral p hdeclares
    obtain ⟨d, hd, ps, hget, hp, hname⟩ := hdeclares
    have hcanonical : (Literal.number x).IsCanonical := hT.canonicalNode p.type _ hx
    refine ⟨x, h.fitsLength hT hstrict hi hcanonical hd fun U n hTU hn => ?_⟩
    exact ⟨.property p, ⟨_, by rw [offers?, hTU.get? hget], List.mem_map_of_mem hp⟩, hname,
      get?_injective (hTU.get? hx) hn⟩

/-! ## Tuples -/

/-- Of a type without alternatives the node decides. -/
theorem HasBuiltins.isTuple_eq (hb : T.HasBuiltins) (hnever : i ≠ TypeId.never)
    (hunion : T.isUnion i = false) : T.isTuple i = .ofBool (T.isTupleAlternative i) := by
  rw [isTuple, if_neg (mt hb.isNever_eq_yes_iff.mp hnever)]
  split
  · rename_i hget
    rw [isUnion, hget] at hunion
    exact absurd hunion (by simp [Ty.isUnion])
  · rfl

/-- A union is a tuple where its alternatives are. -/
theorem Tidy.isTuple_union (hT : T.Tidy) (hi : T.get? i = some (.union ms)) :
    T.isTuple i = .unionAll (ms.map T.isTuple) := by
  have hnever := plain_union.ne_never hT hi
  rw [isTuple, if_neg (mt hT.hasBuiltins.isNever_eq_yes_iff.mp hnever), hi]
  refine congrArg Outcome.unionAll (List.map_congr_left fun m hm => ?_)
  have hms : T.CanonicalUnion ms := hT.canonicalNode i _ hi
  obtain ⟨t, ht, halt⟩ := hms.alternative m hm
  exact (hT.hasBuiltins.isTuple_eq ((plain_of_isAlternative halt).ne_never hT ht)
    (isUnion_of_isAlternative ht halt)).symm

/-- What one alternative fits, and whether it is a tuple. -/
theorem IsAlternative.fits_iff (hi : T.IsAlternative i) (hT : T.Tidy)
    (hstrict : T.options.strictNullChecks)
    (hliteral : ∀ p, T.DeclaresLength i p → ∃ x, T.get? p.type = some (.literal (.number x))) :
    (T.FitsArray i ∧ ∃ x, T.FitsLength i x) ↔ T.isTupleAlternative i ∨
      T.FitsArray i ∧ ∃ p, T.DeclaresLength i p ∧ p.optional := by
  rw [isTupleAlternative_iff, exists_fixesLength_iff hliteral, hT.fitsArray_iff hstrict hi,
    ← and_or_left, or_assoc, ← exists_or]
  refine and_congr_right fun hsequence => ?_
  rw [hsequence.exists_fitsLength_iff hT hstrict hi hliteral]
  refine or_congr_right (exists_congr fun p => ?_)
  cases p.optional <;> simp

end TypeTable

/-- Whether a type is a tuple, and what it fits, under strict null checks. For a type that is
neither `any`, `never` nor a union and whose shapes declare `length`, if at all, as a number
literal: it fits the readonly array of anything and some shape with a literal `length` exactly if it
is a tuple, or fits that array and declares `length` as optional. So where no `length` is optional,
it is a tuple exactly if it fits both. A union is a tuple where its alternatives are. -/
theorem isTuple_iff_fits (hT : Runs (withOptions o) T) (hstrict : T.options.strictNullChecks)
    (i : TypeId) :
    (i < T.size → i ≠ TypeId.any → i ≠ TypeId.never → T.isUnion i = false →
      (∀ p, T.DeclaresLength i p → ∃ x, T.get? p.type = some (.literal (.number x))) →
        ((T.FitsArray i ∧ ∃ x, T.FitsLength i x) ↔
          T.isTuple i = .yes ∨ T.FitsArray i ∧ ∃ p, T.DeclaresLength i p ∧ p.optional) ∧
        ((∀ p, T.DeclaresLength i p → p.optional = false) →
          (T.isTuple i = .yes ↔ T.FitsArray i ∧ ∃ x, T.FitsLength i x))) ∧
      ∀ ms, T.get? i = some (.union ms) → T.isTuple i = .unionAll (ms.map T.isTuple) := by
  have htidy := hT.tidy
  have hb := htidy.hasBuiltins
  refine ⟨fun hi hany hnever hunion hliteral => ?_, fun ms hms => htidy.isTuple_union hms⟩
  have hiff : (T.FitsArray i ∧ ∃ x, T.FitsLength i x) ↔
      T.isTuple i = .yes ∨ T.FitsArray i ∧ ∃ p, T.DeclaresLength i p ∧ p.optional := by
    rw [hb.isTuple_eq hnever hunion, Outcome.ofBool_eq_yes_iff]
    -- `unknown` has no alternatives of its own kind, so it is no case of the lemma
    by_cases hunknown : i = TypeId.unknown
    · subst hunknown
      have halternative : ¬ T.isTupleAlternative TypeId.unknown := by
        rw [isTupleAlternative, hb.unknown]
        exact Bool.false_ne_true
      simp [htidy.not_fitsArray_unknown, halternative]
    · have hmem : i ∈ T.alternatives i := by
        rw [alternatives_of_not_union hunion]
        exact List.mem_singleton_self i
      exact ((htidy.canonical hi).isAlternative_of_mem hb hany hunknown hnever hmem).fits_iff htidy
        hstrict hliteral
  refine ⟨hiff, fun hrequired => ?_⟩
  rw [hiff, or_iff_left]
  rintro ⟨-, p, hp, hoptional⟩
  rw [hrequired p hp] at hoptional
  exact Bool.false_ne_true hoptional

/-! ## Arrays of one element -/

/-- The literal `1`, an array of numbers with it as its `length`, optional or not, the two types to
fit, and the arrays with that `length` or any. -/
def measured : Listing where
  nodes := [.literal (.number (.ofNat 1)),
    .object [{ name := "length", type := 14, optional := true }], .array TypeId.number false,
    .intersection [15, 16], .array TypeId.unknown true, .object [{ name := "length", type := 14 }],
    .intersection [16, 19], .union [16, 20]]
  fresh := by decide
  nodup := by decide

/-- Clients can build the table. -/
theorem runs_measured (count : Nat) : Runs (withOptions {}) (measured.table count) := by
  refine measured.runs (fun k t hk => ?_) count
  have hlt : k < 8 := (List.getElem?_eq_some_iff.mp hk).1
  interval_cases k <;> obtain rfl := Option.some.inj hk
  · exact ⟨isCanonical_ofNat 1, by decide⟩
  · exact ⟨List.pairwise_singleton _ _, by decide⟩
  · exact ⟨trivial, by decide⟩
  · exact ⟨canonicalIntersection_of_get? (by decide) (by decide) (by decide) (by decide)
      (by decide) (by decide), by decide⟩
  · exact ⟨trivial, by decide⟩
  · exact ⟨List.pairwise_singleton _ _, by decide⟩
  · exact ⟨canonicalIntersection_of_get? (by decide) (by decide) (by decide) (by decide)
      (by decide) (by decide), by decide⟩
  · exact ⟨canonicalUnion_of_get? (by decide) (by decide) (by decide) (by decide), by decide⟩

/-- In the whole table the two types are there. -/
theorem fits_measured {i : TypeId} (harray : (measured.table 8).assignable i 18)
    (hlength : (measured.table 8).assignable i 19) :
    (measured.table 8).FitsArray i ∧ (measured.table 8).FitsLength i (.ofNat 1) := by
  have hshape : (lengthShape (.ofNat 1)).on (measured.table 8) = (.ok 19, measured.table 8) := by
    rw [lengthShape, numberLiteral_of_isCanonical (isCanonical_ofNat 1),
      on_bind_ok (on_intern_of_get? (i := 14) rfl),
      objectOf_of_pairwise (List.pairwise_singleton _ _)]
    exact on_intern_of_get? rfl
  refine ⟨⟨18, measured.table 8, ?_, harray⟩, ⟨19, measured.table 8, hshape, hlength⟩⟩
  exact intern_of_lookup (lookup_eq_some_iff.mpr rfl)

/-- Either array with a `length` declares it once. -/
theorem declaresLength_measured {p : Property} :
    ((measured.table 8).DeclaresLength 17 p →
      p = { name := "length", type := 14, optional := true }) ∧
    ((measured.table 8).DeclaresLength 20 p → p = { name := "length", type := 14 }) := by
  have harray : ∀ ps, (measured.table 8).get? 16 ≠ some (.object ps) := by
    intro ps hget
    have hnode : Ty.array TypeId.number false = .object ps := Option.some.inj hget
    exact absurd hnode (by simp)
  constructor
  · rintro ⟨d, hd, ps, hget, hp, -⟩
    rcases List.mem_pair.mp (show d ∈ [15, 16] from hd) with rfl | rfl
    · obtain rfl : [_] = ps := Ty.object.inj (Option.some.inj hget)
      exact List.mem_singleton.mp hp
    · exact absurd hget (harray ps)
  · rintro ⟨d, hd, ps, hget, hp, -⟩
    rcases List.mem_pair.mp (show d ∈ [16, 19] from hd) with rfl | rfl
    · exact absurd hget (harray ps)
    · obtain rfl : [_] = ps := Ty.object.inj (Option.some.inj hget)
      exact List.mem_singleton.mp hp

/-- An array with a required `length` is a tuple, and fits both; a union of it with the array alone
may be one or not. -/
theorem isTuple_iff_fits_measured :
    Runs (withOptions {}) (measured.table 8) ∧ (measured.table 8).options.strictNullChecks ∧
      20 < (measured.table 8).size ∧ 20 ≠ TypeId.any ∧ 20 ≠ TypeId.never ∧
      (measured.table 8).isUnion 20 = false ∧
      (∀ p, (measured.table 8).DeclaresLength 20 p →
        ∃ x, (measured.table 8).get? p.type = some (.literal (.number x))) ∧
      (∀ p, (measured.table 8).DeclaresLength 20 p → p.optional = false) ∧
      (measured.table 8).FitsArray 20 ∧ (∃ x, (measured.table 8).FitsLength 20 x) ∧
      (measured.table 8).isTuple 20 = .yes ∧
      (measured.table 8).get? 21 = some (.union [16, 20]) ∧
      (measured.table 8).isTuple 21 = .both := by
  have hT := runs_measured 8
  have hliteral : ∀ p, (measured.table 8).DeclaresLength 20 p →
      ∃ x, (measured.table 8).get? p.type = some (.literal (.number x)) := by
    rintro p hp
    obtain rfl := declaresLength_measured.2 hp
    exact ⟨.ofNat 1, rfl⟩
  have hrequired : ∀ p, (measured.table 8).DeclaresLength 20 p → p.optional = false := by
    rintro p hp
    obtain rfl := declaresLength_measured.2 hp
    rfl
  obtain ⟨harray, hlength⟩ := fits_measured (i := 20) (by decide) (by decide)
  obtain ⟨-, htuple⟩ :=
    (isTuple_iff_fits hT rfl 20).1 (by decide) (by decide) (by decide) rfl hliteral
  have hunion := (isTuple_iff_fits hT rfl 21).2 [16, 20] rfl
  refine ⟨hT, rfl, by decide, by decide, by decide, rfl, hliteral, hrequired, harray, ⟨_, hlength⟩,
    (htuple hrequired).mpr ⟨harray, _, hlength⟩, rfl, ?_⟩
  rw [hunion]
  decide

/-- An array with an optional `length` fits both, but is no tuple. -/
theorem not_isTuple_measured :
    Runs (withOptions {}) (measured.table 8) ∧ (measured.table 8).options.strictNullChecks ∧
      17 < (measured.table 8).size ∧ 17 ≠ TypeId.any ∧ 17 ≠ TypeId.never ∧
      (measured.table 8).isUnion 17 = false ∧
      (∀ p, (measured.table 8).DeclaresLength 17 p →
        ∃ x, (measured.table 8).get? p.type = some (.literal (.number x))) ∧
      (measured.table 8).FitsArray 17 ∧ (measured.table 8).FitsLength 17 (.ofNat 1) ∧
      (measured.table 8).isTuple 17 = .no := by
  obtain ⟨harray, hlength⟩ := fits_measured (i := 17) (by decide) (by decide)
  refine ⟨runs_measured 8, rfl, by decide, by decide, by decide, rfl, fun p hp => ?_, harray,
    hlength, by decide⟩
  obtain rfl := declaresLength_measured.1 hp
  exact ⟨.ofNat 1, rfl⟩

end TypeAssay
