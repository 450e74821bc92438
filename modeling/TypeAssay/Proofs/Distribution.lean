import Mathlib.Data.List.Sublists
import TypeAssay.Proofs.Branches
import TypeAssay.Settings

/-!
# Distribution

An intersection with a union among its members is the union of what the choices of one alternative
from each member intersect to. `intersectionOf_distributes` says what is built then: where there are
more choices than the options allow, or than a list has room for, nothing is; else the odometer
shows each choice once, each one is intersected in the table that those before it left behind, and
none of them fails.

A document may set a limit that is beyond the room of a list, and `2 ^ 61` choices are within that
limit then, but not visited (`not_distributes_quartersTable`).

Neither the other ids of the table nor ids that name no type disturb that. `Distributing` is the
invariant: while choices are intersected, only intersections are interned, and there is no union
among their members, so no choice is distributed again.
-/

namespace TypeAssay

open TypeTable

/-! ## The limit -/

section

variable {α β ε : Type} {o o' : Options} {setting : Setting} {value : Toml.Value}

/-- What answers has answered at each step. -/
theorem exists_of_bind_ok {x : Except ε α} {f : α → Except ε β} {c : β} (h : x >>= f = .ok c) :
    ∃ b, x = .ok b ∧ f b = .ok c := by
  cases x with
  | error e =>
    have herror : Except.error e = Except.ok c := h
    exact absurd herror (by simp)
  | ok b => exact ⟨b, rfl, h⟩

/-- What each step of a fold keeps, the fold keeps. -/
theorem foldlM_keeps {P : β → Prop} {step : β → α → Except ε β} {xs : List α} {b c : β}
    (hstep : ∀ b x c, step b x = .ok c → P b → P c) (h : xs.foldlM step b = .ok c) (hb : P b) :
    P c := by
  induction xs generalizing b with
  | nil => exact Except.ok.inj h ▸ hb
  | cons x xs ih =>
    rw [List.foldlM_cons] at h
    obtain ⟨b', hx, h⟩ := exists_of_bind_ok h
    exact ih h (hstep b x b' hx hb)

/-- A setting is no larger than the largest number of TOML. -/
theorem maxUnionSize_set (h : setting.set value o = .ok o') (ho : o.maxUnionSize < 2 ^ 63) :
    o'.maxUnionSize < 2 ^ 63 := by
  unfold Setting.set at h
  split at h
  · obtain rfl := Except.ok.inj h
    exact ho
  · rename_i n
    split at h
    · exact absurd h (by simp)
    · obtain rfl := Except.ok.inj h
      have hlt := n.toInt_lt
      show n.toInt.toNat < 2 ^ 63
      omega
  · exact absurd h (by simp)

/-- A limit that is read from entries has 63 bits at most. -/
theorem maxUnionSize_ofEntries {entries : Toml.Entries} (h : Options.ofEntries entries = .ok o) :
    o.maxUnionSize < 2 ^ 63 := by
  refine foldlM_keeps (P := fun o => o.maxUnionSize < 2 ^ 63) ?_ h (by decide)
  rintro o ⟨name, value⟩ o' h ho
  dsimp only at h
  split at h
  · exact maxUnionSize_set h ho
  · exact absurd h (by simp)

/-- A limit that is read from elements has 63 bits at most. -/
theorem maxUnionSize_ofElements {elements : List Toml.Value}
    (h : Options.ofElements elements = .ok o) : o.maxUnionSize < 2 ^ 63 :=
  foldlM_keeps (P := fun o => o.maxUnionSize < 2 ^ 63) (fun _ _ _ h ho => maxUnionSize_set h ho) h
    (by decide)

/-- What is there without its error was an answer. -/
theorem eq_ok_of_toOption {x : Except ε α} {a : α} (h : x.toOption = some a) : x = .ok a := by
  cases x with
  | error e => exact absurd h (by simp [Except.toOption])
  | ok b => exact congrArg Except.ok (Option.some.inj h)

/-- A limit that is read from a document has 63 bits at most. -/
theorem maxUnionSize_ofDocument {document : Toml.Entries}
    (h : Options.ofDocument document = .ok o) : o.maxUnionSize < 2 ^ 63 := by
  unfold Options.ofDocument at h
  split at h
  · rename_i hprobe
    obtain rfl := Except.ok.inj h
    unfold Options.ofProbe? at hprobe
    split at hprobe
    · exact maxUnionSize_ofEntries (eq_ok_of_toOption hprobe)
    · exact maxUnionSize_ofElements (eq_ok_of_toOption hprobe)
    · exact absurd hprobe (by simp)
  · exact maxUnionSize_ofEntries h

/-- A limit that is valid is two at least. -/
theorem two_le_of_validate (h : o.validate = .ok ()) : 2 ≤ o.maxUnionSize := by
  unfold Options.validate at h
  split at h
  · exact absurd h (by simp)
  · omega

/-- A document sets a limit from 2 to the largest number of TOML. -/
theorem maxUnionSize_ofToml {text : String} (h : Options.ofToml text = .ok o) :
    2 ≤ o.maxUnionSize ∧ o.maxUnionSize < 2 ^ 63 := by
  obtain ⟨document, -, h⟩ := exists_of_bind_ok h
  obtain ⟨o', hread, h⟩ := exists_of_bind_ok h
  split at h
  · rename_i hvalid
    obtain rfl := Except.ok.inj h
    exact ⟨two_le_of_validate hvalid, maxUnionSize_ofDocument hread⟩
  · exact absurd h (by simp)

end

/-! ## Tables on the way -/

namespace TypeTable

variable {T U : TypeTable} {a i : TypeId} {ms c : List TypeId}

/-- `U` is what `T` has become while choices are intersected: it has no other unions, and none of
them is a member of an intersection. -/
structure Distributing (T U : TypeTable) : Prop where
  unions : ∀ i, T.isUnion i = false → U.isUnion i = false
  members : ∀ i ms, U.get? i = some (.intersection ms) → ∀ m ∈ ms, T.isUnion m = false

/-- Canonical intersections are distributed over their unions. -/
theorem Tidy.distributing (hT : T.Tidy) : T.Distributing T := by
  refine ⟨fun _ h => h, fun i ms hget m hm => ?_⟩
  have hms : T.CanonicalIntersection ms := hT.canonicalNode i _ hget
  obtain ⟨t, ht, hcon⟩ := hms.constraint m hm
  exact isUnion_of_isAlternative ht (Ty.isAlternative_of_isConstraint hcon)

/-- An intersection may be entered if no member is a union. -/
theorem Distributing.intern (h : T.Distributing U) (hms : ∀ m ∈ ms, T.isUnion m = false) :
    T.Distributing (U.intern (.intersection ms)).2 := by
  constructor
  · intro i hi
    by_contra hunion
    rw [Bool.not_eq_false] at hunion
    obtain ⟨ks, hks⟩ := exists_get?_of_isUnion hunion
    rcases get?_intern_cases hks with hget | ⟨hnew, -, -⟩
    · have hold : U.isUnion i = false := h.unions i hi
      simp [isUnion, hget, Ty.isUnion] at hold
    · exact absurd hnew (by simp)
  · intro i ks hks
    rcases get?_intern_cases hks with hget | ⟨hnew, -, -⟩
    · exact h.members i ks hget
    · obtain rfl := Ty.intersection.inj hnew
      exact hms

/-- Constraints may be reduced if none is a union. -/
theorem Distributing.reduceConstraints (h : T.Distributing U)
    (hms : ∀ m ∈ ms, T.isUnion m = false) :
    T.Distributing ((reduceConstraints ms).run U).2 := by
  rw [run_reduceConstraints]
  split
  · exact h
  rcases hkept : U.reducedConstraints ms with _ | ⟨i, _ | ⟨j, rest⟩⟩
  · exact h
  · exact h
  · refine h.intern fun m hm => hms m ?_
    exact reducedConstraints_sublist.subset (hkept ▸ hm)

/-- Where no union is chosen, opening the choice gives none. -/
theorem Distributing.openedMembers (h : T.Distributing U) (hc : ∀ m ∈ c, T.isUnion m = false)
    (ha : a ∈ U.openedMembers c) : T.isUnion a = false := by
  obtain ⟨m, hm, ham⟩ := List.mem_flatMap.mp (mem_openedMembers.mp ha).1
  unfold constraints at ham
  split at ham
  · rename_i ks hget
    exact h.members m ks hget a ham
  · obtain rfl := List.mem_singleton.mp ham
    exact hc a hm

/-! ## Alternatives of all ids -/

/-- The alternatives of a type are distinct. -/
theorem Tidy.nodup_alternatives (hT : T.Tidy) (i : TypeId) : (T.alternatives i).Nodup := by
  by_cases hi : i < T.size
  · exact (hT.canonical hi).nodup_alternatives
  · rw [alternatives_of_size_le (Nat.not_lt.mp hi)]
    exact List.nodup_singleton i

/-- An alternative is no union. -/
theorem Tidy.isUnion_of_mem_alternatives (hT : T.Tidy) (ha : a ∈ T.alternatives i) :
    T.isUnion a = false := by
  by_cases hi : i < T.size
  · exact ((hT.canonical hi).alternatives ha).2
  · have hnone := get?_eq_none_iff.mpr (Nat.not_lt.mp hi)
    rw [alternatives_of_size_le (Nat.not_lt.mp hi), List.mem_singleton] at ha
    rw [ha, isUnion, hnone]
    rfl

/-- No union is ever chosen. -/
theorem Tidy.isUnion_of_mem_choice (hT : T.Tidy) (hc : c ∈ choices (ms.map T.alternatives)) :
    ∀ a ∈ c, T.isUnion a = false := by
  intro a ha
  obtain ⟨l, hl, hal⟩ := exists_mem_of_mem_choices hc ha
  obtain ⟨m, -, rfl⟩ := List.mem_map.mp hl
  exact hT.isUnion_of_mem_alternatives hal

end TypeTable

/-! ## Choices -/

variable {T U : TypeTable} {o : Options} {ms c : List TypeId} {cs : List (List TypeId)}

/-- A choice without unions is intersected without a second distribution. That never fails. -/
theorem TypeTable.Distributing.on_intersectionStep (h : T.Distributing U)
    (hc : ∀ m ∈ c, T.isUnion m = false) :
    ∃ n V, (∀ meet, (intersectionStep meet c).on U = (.ok n, V)) ∧ T.Distributing V := by
  have hplain : ∀ a ∈ U.openedMembers c, T.isUnion a = false := fun a => h.openedMembers hc
  simp only [TypeAssay.on_intersectionStep]
  split
  · exact ⟨_, _, fun _ => rfl, h⟩
  split
  · exact ⟨_, _, fun _ => rfl, h⟩
  rcases hkept : U.openedMembers c with _ | ⟨i, _ | ⟨j, rest⟩⟩
  · exact ⟨_, _, fun _ => rfl, h⟩
  · exact ⟨_, _, fun _ => rfl, h⟩
  · rw [hkept] at hplain
    have hnone : (i :: j :: rest).any U.isUnion = false := List.any_eq_false.mpr fun a ha => by
      rw [h.unions a (hplain a ha)]
      decide
    refine ⟨((TypeAssay.reduceConstraints (i :: j :: rest)).run U).1, _, fun meet => ?_,
      h.reduceConstraints hplain⟩
    dsimp only
    rw [hnone, if_neg (by decide), Building.on_lift]

/-- So each level intersects the choice as the intersection itself does. -/
theorem TypeTable.Distributing.on_choice (h : T.Distributing U)
    (meet : List TypeId → Building TypeId) (hc : ∀ m ∈ c, T.isUnion m = false) :
    ∃ n V, (intersectionStep meet c).on U = (.ok n, V) ∧ (intersectionOf c).on U = (.ok n, V) ∧
      T.Distributing V := by
  obtain ⟨n, V, hon, hV⟩ := h.on_intersectionStep hc
  obtain ⟨depth, hdepth⟩ := on_intersectionOf U c
  exact ⟨n, V, hon meet, hdepth.trans (hon _), hV⟩

/-- One choice after the other, each in the table that those before it left behind. -/
theorem TypeTable.Distributing.on_choices (h : T.Distributing U)
    (meet : List TypeId → Building TypeId) (hcs : ∀ c ∈ cs, ∀ m ∈ c, T.isUnion m = false) :
    ∃ ns V, (cs.mapM (intersectionStep meet)).on U = (.ok ns, V) ∧
      (cs.mapM intersectionOf).on U = (.ok ns, V) := by
  induction cs generalizing U with
  | nil => exact ⟨[], U, rfl, rfl⟩
  | cons c cs ih =>
    obtain ⟨hc, hcs⟩ := List.forall_mem_cons.mp hcs
    obtain ⟨n, V, hstep, hmeet, hV⟩ := h.on_choice meet hc
    obtain ⟨ns, W, hsteps, hmeets⟩ := ih hV hcs
    refine ⟨n :: ns, W, ?_, ?_⟩
    · rw [List.mapM_cons, Building.on_bind_ok hstep, Building.on_bind_ok hsteps]
      rfl
    · rw [List.mapM_cons, Building.on_bind_ok hmeet, Building.on_bind_ok hmeets]
      rfl

/-! ## The distribution -/

namespace TypeTable

/-- What a distribution chooses from: the alternatives of each member. -/
def choiceLists (T : TypeTable) (ms : List TypeId) : List (List TypeId) :=
  (T.openedMembers ms).map T.alternatives

/-- There is something to choose from every member. -/
theorem Tidy.choiceLists_ne_nil (hT : T.Tidy) : ∀ l ∈ T.choiceLists ms, l ≠ [] := by
  intro l hl
  obtain ⟨m, -, rfl⟩ := List.mem_map.mp hl
  exact hT.alternatives_ne_nil m

/-- The alternatives of each member are distinct. -/
theorem Tidy.nodup_of_mem_choiceLists (hT : T.Tidy) : ∀ l ∈ T.choiceLists ms, l.Nodup := by
  intro l hl
  obtain ⟨m, -, rfl⟩ := List.mem_map.mp hl
  exact hT.nodup_alternatives m

/-- The number that is compared to the limit is the number of choices, as far as 64 bits hold it. -/
theorem Tidy.choiceSize_eq (hT : T.Tidy) :
    T.choiceSize ms = min ((T.choiceLists ms).map List.length).prod (2 ^ 64 - 1) := by
  have hlists : ∀ l ∈ T.choiceLists ms, l ≠ [] := hT.choiceLists_ne_nil
  rw [choiceSize, ← choiceLists, choiceCount_eq hlists]
  split
  · exact (Nat.min_eq_left (Nat.le_pred_of_lt ‹_›)).symm
  · exact (Nat.min_eq_right (Nat.le_trans (Nat.pred_le _) (Nat.not_lt.mp ‹_›))).symm

/-- With few enough choices an intersection is the union of what they intersect to. -/
theorem Distributes.on_intersectionOf (hd : T.Distributes ms) (hT : T.Tidy)
    (hfits : refusal? (T.choiceSize ms) T.options.maxUnionSize = none) :
    ∃ ns U, ((choices (T.choiceLists ms)).mapM intersectionOf).on T = (.ok ns, U) ∧
      (intersectionOf ms).on T = (.ok ((unionOf ns).run U).1, ((unionOf ns).run U).2) := by
  obtain ⟨depth, hdepth⟩ := TypeAssay.on_intersectionOf T ms
  have hplain : ∀ c ∈ choices (T.choiceLists ms), ∀ a ∈ c, T.isUnion a = false := fun _ =>
    hT.isUnion_of_mem_choice
  obtain ⟨ns, U, hsteps, hmeets⟩ := hT.distributing.on_choices (intersectionWithin depth) hplain
  refine ⟨ns, U, hmeets, ?_⟩
  rw [hdepth, hd.on_intersectionStep, on_distribute, ← choiceSize, hfits]
  exact (Building.on_bind_ok hsteps).trans (Building.on_lift _ _)

end TypeTable

/-- Distribution is the product of the alternatives, or nothing. Of more choices than the limit
allows, only the number is reported. For `2 ^ 61` choices or more that the limit allows, there is no
room, so that nothing is answered. Else the odometer shows each choice once, all of them are
intersected, and the answer is the union of the results. All limits that can be configured are small
enough for the number to be exact where it is not reported. -/
theorem intersectionOf_distributes (hT : Runs (withOptions o) T)
    (hlimit : 2 ≤ o.maxUnionSize ∧ o.maxUnionSize < 2 ^ 63) (hd : T.Distributes ms) :
    (∀ text o', Options.ofToml text = .ok o' →
      2 ≤ o'.maxUnionSize ∧ o'.maxUnionSize < 2 ^ 63) ∧
    (o.maxUnionSize < ((T.choiceLists ms).map List.length).prod →
      (intersectionOf ms).on T = (.error (.unionTooComplex
        (min ((T.choiceLists ms).map List.length).prod (2 ^ 64 - 1)) o.maxUnionSize), T)) ∧
    (((T.choiceLists ms).map List.length).prod ≤ o.maxUnionSize →
      2 ^ 61 ≤ ((T.choiceLists ms).map List.length).prod →
      (intersectionOf ms).on T = (.error .capacityOverflow, T)) ∧
    (((T.choiceLists ms).map List.length).prod ≤ o.maxUnionSize →
      ((T.choiceLists ms).map List.length).prod < 2 ^ 61 → ∃ visited ns U,
      Turns (T.choiceLists ms) ((T.choiceLists ms).map fun _ => 0) visited ∧
      (∀ meet : List TypeId → Building TypeId,
        visitChoices (T.choiceLists ms) meet = visited.mapM meet) ∧
      visited.Nodup ∧ visited.length = ((T.choiceLists ms).map List.length).prod ∧
      (∀ c, c ∈ visited ↔ List.Forall₂ (· ∈ ·) c (T.choiceLists ms)) ∧
      (visited.mapM intersectionOf).on T = (.ok ns, U) ∧
      (intersectionOf ms).on T = (.ok ((unionOf ns).run U).1, ((unionOf ns).run U).2)) := by
  have htidy := hT.tidy
  have hoptions : T.options = o :=
    (hT.builds (tidy_withOptions o)).grows.options_eq.trans (options_withOptions o)
  have hsize : T.choiceSize ms = _ := htidy.choiceSize_eq
  have hroom : listCapacity = 2 ^ 61 - 1 := rfl
  refine ⟨fun _ _ h => maxUnionSize_ofToml h, fun hlarge => ?_, fun hsmall hlarge => ?_,
    fun hsmall hfew => ?_⟩
  · -- the limit is less than what stands for a number that 64 bits do not hold
    have hrefused : T.IsRefused ms (.unionTooComplex (T.choiceSize ms) T.options.maxUnionSize) :=
      ⟨hd, refusal?_eq_some_iff.mpr (.inl ⟨by rw [hoptions, hsize]; omega, rfl⟩)⟩
    rw [hrefused.on_intersectionOf, hsize, hoptions]
  · -- within the limit the number is exact
    have hexact : T.choiceSize ms = ((T.choiceLists ms).map List.length).prod := by omega
    have hrefused : T.IsRefused ms .capacityOverflow :=
      ⟨hd, refusal?_eq_some_iff.mpr (.inr ⟨by rw [hoptions, hexact]; omega, by omega, rfl⟩)⟩
    exact hrefused.on_intersectionOf
  · have hexact : T.choiceSize ms = ((T.choiceLists ms).map List.length).prod := by omega
    have hfits : refusal? (T.choiceSize ms) T.options.maxUnionSize = none :=
      refusal?_eq_none_iff.mpr ⟨by rw [hoptions, hexact]; omega, by omega⟩
    obtain ⟨ns, U, hmeets, hon⟩ := hd.on_intersectionOf htidy hfits
    refine ⟨choices (T.choiceLists ms), ns, U, turns_choices htidy.choiceLists_ne_nil,
      visitChoices_eq_mapM _, nodup_choices htidy.nodup_of_mem_choiceLists, ?_,
      fun _ => mem_choices, hmeets, hon⟩
    exact length_choices _

/-! ### Unions of primitives -/

namespace TypeTable

variable {us : List (List TypeId)}

/-- Two or more primitives in the order of their ids. -/
def IsPrimitiveUnion (ms : List TypeId) : Prop :=
  2 ≤ ms.length ∧ ms.Pairwise (· < ·) ∧ ∀ m ∈ ms, m ∈ Primitive.all.map Primitive.id

instance : DecidablePred IsPrimitiveUnion := fun ms =>
  inferInstanceAs (Decidable (2 ≤ ms.length ∧ ms.Pairwise (· < ·) ∧
    ∀ m ∈ ms, m ∈ Primitive.all.map Primitive.id))

/-- A union of primitives in order is canonical. -/
theorem IsPrimitiveUnion.canonicalUnion (h : IsPrimitiveUnion ms) (hb : T.HasBuiltins) :
    T.CanonicalUnion ms := by
  have hprimitive : ∀ m ∈ ms, ∃ p, T.get? m = some (.primitive p) := by
    intro m hm
    obtain ⟨p, -, rfl⟩ := List.mem_map.mp (h.2.2 m hm)
    exact ⟨p, hb.primitive p⟩
  refine ⟨h.1, h.2.1, fun m hm => ?_, fun m hm p hp => ?_⟩
  · obtain ⟨q, hq⟩ := hprimitive m hm
    exact ⟨_, hq, rfl⟩
  · -- a primitive is no literal, so there is nothing to fold
    obtain ⟨q, hq⟩ := hprimitive m hm
    simp [literalBase?, hq, Ty.literal?] at hp

/-- A table with some unions, which have the ids from 14 on. -/
def unionsTable (o : Options) (us : List (List TypeId)) : TypeTable :=
  withNodes o (us.map Ty.union)

/-- Clients can build the unions one after the other. -/
theorem runs_unionsTable (o : Options) (hus : ∀ ms ∈ us, IsPrimitiveUnion ms) :
    Runs (withOptions o) (unionsTable o us) := by
  suffices hfold : ∀ T, Runs (withOptions o) T →
      Runs (withOptions o) ((us.map Ty.union).foldl (fun T t => (T.intern t).2) T) from
    hfold _ .refl
  induction us with
  | nil => exact fun T hT => hT
  | cons ms us ih =>
    intro T hT
    have hms : T.CanonicalUnion ms :=
      (hus ms List.mem_cons_self).canonicalUnion hT.tidy.hasBuiltins
    refine ih (fun ks hks => hus ks (List.mem_cons_of_mem _ hks)) _
      (hT.intern hT.tidy (t := .union ms) hms fun m hm => ?_)
    obtain ⟨t, ht, -⟩ := hms.alternative m hm
    exact lt_size_of_get? ht

/-- A union is none of the types that an intersection opens, absorbs or drops. -/
theorem flatMap_constraints_of_isUnion (hms : ∀ m ∈ ms, T.isUnion m) :
    ms.flatMap T.constraints = ms :=
  flatMap_constraints_eq_self fun m hm ks hks => by
    have hunion := hms m hm
    simp [isUnion, hks, Ty.isUnion] at hunion

/-- Unions are opened to themselves. -/
theorem openedMembers_of_isUnion (hb : T.HasBuiltins) (hms : ∀ m ∈ ms, T.isUnion m) :
    T.openedMembers ms = ascending ms := by
  have hknown : ms.filter (· ≠ TypeId.unknown) = ms := List.filter_eq_self.mpr fun m hm => by
    rw [decide_eq_true_eq]
    rintro rfl
    have hunion := hms _ hm
    simp [isUnion, hb.unknown, Ty.isUnion] at hunion
  rw [openedMembers, flatMap_constraints_of_isUnion hms, hknown]

/-- Several unions are distributed. -/
theorem distributes_of_isUnion (hb : T.HasBuiltins) (hms : ∀ m ∈ ms, T.isUnion m)
    (htwo : 2 ≤ (ascending ms).length) : T.Distributes ms := by
  have hopened := openedMembers_of_isUnion hb hms
  have hopen : ms.flatMap T.constraints = ms := flatMap_constraints_of_isUnion hms
  have hne : ∀ m, T.isUnion m = false → m ∉ ms := fun m hm hmem => by simp [hms m hmem] at hm
  obtain ⟨m, hm⟩ := List.exists_mem_of_length_pos (Nat.lt_of_lt_of_le Nat.zero_lt_two htwo)
  refine ⟨⟨?_, ?_⟩, hopened ▸ htwo, m, hopened ▸ hm, hms m (mem_ascending.mp hm)⟩
  · rw [hopen]
    exact hne _ (by simp [isUnion, hb.never, Ty.isUnion])
  · rw [hopen]
    exact hne _ (by simp [isUnion, hb.any, Ty.isUnion])

/-! #### Two unions -/

/-- A table with the union of `number` and `string`, which has the id 14. -/
def scalarsTable (o : Options) : TypeTable := unionsTable o [[TypeId.number, TypeId.string]]

/-- A type of the table is found at its place. -/
theorem get?_scalarsTable (o : Options) (i : TypeId) :
    (scalarsTable o).get? i = (builtins ++ [.union [TypeId.number, TypeId.string]])[i]? :=
  get?_withNodes (by decide) (by decide) i

/-- Clients can build the table. -/
theorem runs_scalarsTable (o : Options) : Runs (withOptions o) (scalarsTable o) :=
  runs_unionsTable o (by decide)

/-- Both members are unions. -/
theorem isUnion_scalarsTable (o : Options) :
    ∀ m ∈ [14, TypeId.boolean], (scalarsTable o).isUnion m := by
  simp only [isUnion, get?_scalarsTable]
  decide

/-- The alternatives to choose from, in the order of the members. -/
theorem choiceLists_scalarsTable (o : Options) :
    (scalarsTable o).choiceLists [14, TypeId.boolean] =
      [[TypeId.yes, TypeId.no], [TypeId.number, TypeId.string]] := by
  rw [choiceLists, openedMembers_of_isUnion (runs_scalarsTable o).tidy.hasBuiltins
    (isUnion_scalarsTable o)]
  change (ascending _).map (fun i => (scalarsTable o).alternatives i) = _
  simp only [alternatives, get?_scalarsTable]
  rfl

/-- The intersection of both is distributed. -/
theorem distributes_scalarsTable (o : Options) :
    (scalarsTable o).Distributes [14, TypeId.boolean] :=
  distributes_of_isUnion (runs_scalarsTable o).tidy.hasBuiltins (isUnion_scalarsTable o) (by decide)

/-! #### Unions of four primitives each -/

/-- Thirty unions of four primitives. -/
def quarters : List (List TypeId) := ((Primitive.all.map Primitive.id).sublistsLen 4).take 30

/-- The largest limit that a document can set. -/
def unlimited : Options := { maxUnionSize := 2 ^ 63 - 1 }

/-- A table with the thirty unions, whose ids are those from 14 to 43. -/
def quartersTable : TypeTable := unionsTable unlimited quarters

/-- The thirty unions and `boolean`. -/
def quartersMembers : List TypeId := List.range' 13 31

/-- A type of the table is found at its place. -/
theorem get?_quartersTable (i : TypeId) :
    quartersTable.get? i = (builtins ++ quarters.map Ty.union)[i]? :=
  get?_withNodes (by decide) (by decide) i

/-- Clients can build the table. -/
theorem runs_quartersTable : Runs (withOptions unlimited) quartersTable :=
  runs_unionsTable unlimited (by decide)

/-- All members are unions. -/
theorem isUnion_quartersTable : ∀ m ∈ quartersMembers, quartersTable.isUnion m := by
  simp only [isUnion, get?_quartersTable]
  decide

/-- The alternatives to choose from: two once, and four thirty times. -/
theorem choiceLists_quartersTable :
    quartersTable.choiceLists quartersMembers = [TypeId.yes, TypeId.no] :: quarters := by
  rw [choiceLists, openedMembers_of_isUnion runs_quartersTable.tidy.hasBuiltins
    isUnion_quartersTable]
  change (ascending _).map (fun i => quartersTable.alternatives i) = _
  simp only [alternatives, get?_quartersTable]
  rfl

/-- The intersection of all is distributed. -/
theorem distributes_quartersTable : quartersTable.Distributes quartersMembers :=
  distributes_of_isUnion runs_quartersTable.tidy.hasBuiltins isUnion_quartersTable (by decide)

/-- Two choices, thirty times multiplied by four. -/
theorem prod_quartersTable :
    ((quartersTable.choiceLists quartersMembers).map List.length).prod = 2 ^ 61 := by
  rw [choiceLists_quartersTable]
  decide

end TypeTable

/-- Two unions of two types each make four choices, so the smallest limit refuses them and the
default allows them. -/
theorem intersectionOf_distributes_scalarsTable :
    Runs (withOptions { maxUnionSize := 2 }) (scalarsTable { maxUnionSize := 2 }) ∧
    (scalarsTable { maxUnionSize := 2 }).Distributes [14, TypeId.boolean] ∧
    (intersectionOf [14, TypeId.boolean]).on (scalarsTable { maxUnionSize := 2 }) =
      (.error (.unionTooComplex 4 2), scalarsTable { maxUnionSize := 2 }) ∧
    Runs (withOptions {}) (scalarsTable {}) ∧
    (scalarsTable {}).Distributes [14, TypeId.boolean] ∧
    ∃ (visited : List (List TypeId)) (ns : List TypeId) (U : TypeTable),
      visited.length = 4 ∧ visited.Nodup ∧
      (visited.mapM intersectionOf).on (scalarsTable {}) = (.ok ns, U) ∧
      (intersectionOf [14, TypeId.boolean]).on (scalarsTable {}) =
        (.ok ((unionOf ns).run U).1, ((unionOf ns).run U).2) := by
  obtain ⟨-, hrefused, -, -⟩ := intersectionOf_distributes (runs_scalarsTable { maxUnionSize := 2 })
    (by decide) (distributes_scalarsTable _)
  obtain ⟨-, -, -, hallowed⟩ := intersectionOf_distributes (runs_scalarsTable {}) (by decide)
    (distributes_scalarsTable _)
  rw [choiceLists_scalarsTable] at hrefused hallowed
  obtain ⟨visited, ns, U, -, -, hnodup, hlength, -, hmeets, hon⟩ := hallowed (by decide) (by decide)
  exact ⟨runs_scalarsTable _, distributes_scalarsTable _, hrefused (by decide),
    runs_scalarsTable _, distributes_scalarsTable _, visited, ns, U, hlength, hnodup, hmeets, hon⟩

/-- A document allows `2 ^ 61` choices, but none of them is visited: there is no room for as many
results. -/
theorem not_distributes_quartersTable :
    Options.ofToml "max-union-size = 9223372036854775807" = .ok unlimited ∧
    Runs (withOptions unlimited) quartersTable ∧ quartersTable.Distributes quartersMembers ∧
    ((quartersTable.choiceLists quartersMembers).map List.length).prod = 2 ^ 61 ∧
    2 ^ 61 ≤ unlimited.maxUnionSize ∧
    (intersectionOf quartersMembers).on quartersTable =
      (.error .capacityOverflow, quartersTable) := by
  have hoptions : quartersTable.options = unlimited :=
    (grows_withNodes unlimited (quarters.map Ty.union)).options_eq.trans
      (options_withOptions unlimited)
  have hsize : quartersTable.choiceSize quartersMembers = 2 ^ 61 := by
    rw [runs_quartersTable.tidy.choiceSize_eq, prod_quartersTable]
    decide
  have hrefused : quartersTable.IsRefused quartersMembers .capacityOverflow := by
    refine ⟨distributes_quartersTable, ?_⟩
    rw [hsize, hoptions]
    decide
  have hread : (Options.ofToml "max-union-size = 9223372036854775807").toOption =
      some unlimited := by decide +kernel
  exact ⟨eq_ok_of_toOption hread, runs_quartersTable, distributes_quartersTable,
    prod_quartersTable, by decide, hrefused.on_intersectionOf⟩

end TypeAssay
