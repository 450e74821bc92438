import TypeAssay.Checker.Check
import TypeAssay.Proofs.Relations

/-!
# What checking a file builds

Checking a file keeps its state tidy: the table is, and the types of aliases and of expressions are
types of the table. Everything that is interned on the way is canonical, so a table that was tidy
before the file was checked is tidy after it, whatever errors the file has.

* `yields_resolve` : an expression resolves to a type of the table.
* `tidy_checkFile` : checking a file keeps a table tidy.
-/

namespace TypeAssay

open TypeTable Checking

/-! ## State -/

/-- The table is tidy, and it holds the types that the state mentions. -/
structure CheckState.Tidy (s : CheckState) : Prop where
  table : s.table.Tidy
  aliases : ∀ a ∈ s.aliases, s.table.Canonical a.type
  expressions : ∀ e ∈ s.expressions, s.table.Canonical e.2

/-- The state stays tidy when its table is built further. -/
theorem CheckState.Tidy.build {s : CheckState} {U : TypeTable} (h : s.Tidy)
    (hU : s.table.Builds U) : CheckState.Tidy { s with table := U } where
  table := hU.tidy h.table
  aliases a ha := hU.canonical (h.aliases a ha)
  expressions e he := hU.canonical (h.expressions e he)

namespace Checking

variable {α β : Type} {s : CheckState} {m : Checking α} {f : α → Checking β}
  {Q : α → TypeTable → Prop} {R : β → TypeTable → Prop}

/-- `m` builds canonical types, keeps the state tidy, and its answer satisfies `Q`. -/
def Yields (m : Checking α) (s : CheckState) (Q : α → TypeTable → Prop) : Prop :=
  s.table.Builds (m.run s).2.table ∧ (m.run s).2.Tidy ∧ Q (m.run s).1 (m.run s).2.table

/-- A plain answer leaves the state as it is. -/
theorem Yields.pure {a : α} (hs : s.Tidy) (h : Q a s.table) : Yields (Pure.pure a) s Q :=
  ⟨.refl, hs, h⟩

/-- Reading the state changes nothing. -/
theorem Yields.get {f : CheckState → Checking β} (h : (f s).Yields s R) :
    Yields (MonadState.get >>= f) s R := h

/-- What follows starts in the state that is left behind. -/
theorem Yields.bind (h : m.Yields s Q)
    (hf : ∀ a s', s'.Tidy → s.table.Builds s'.table → Q a s'.table → (f a).Yields s' R) :
    Yields (m >>= f) s R := by
  obtain ⟨hb, hs, hQ⟩ := h
  obtain ⟨hb', hs', hR⟩ := hf _ _ hs hb hQ
  exact ⟨hb.trans hb', hs', hR⟩

/-- A report adds an error and nothing else. -/
theorem yields_report {e : CheckError} (hs : s.Tidy) : (report e).Yields s fun _ _ => True :=
  ⟨.refl, ⟨hs.table, hs.aliases, hs.expressions⟩, trivial⟩

/-- Interning changes the table only. -/
theorem yields_interning {m : Interning α} (hs : s.Tidy) (h : m.Yields s.table Q) :
    (interning m).Yields s Q :=
  ⟨h.1, hs.build h.1, h.2⟩

/-- What is done with the answer of building, it is done in the table that building leaves. -/
theorem run_build_bind (m : Building α) (f : Except TypeError α → Checking β) (s : CheckState) :
    (build m >>= f).run s =
      (f (m.on s.table).1).run { s with table := (m.on s.table).2 } := rfl

/-- Building changes the table only, whether it answers or fails. -/
theorem yields_build {m : Building α} (hs : s.Tidy) (h : m.Yields s.table Q) :
    (build m).Yields s fun answer U => ∀ a, answer = .ok a → Q a U :=
  ⟨h.1, hs.build h.1, h.2⟩

/-- What is built stands, and what cannot be built is `any`. -/
theorem yields_buildOrAny {m : Building TypeId} (span : Span) (hs : s.Tidy)
    (h : m.Yields s.table fun n U => U.Canonical n) :
    (buildOrAny m span).Yields s fun n U => U.Canonical n := by
  refine (yields_build hs h).bind fun answer s' hs' _ hanswer => ?_
  split
  · exact .pure hs' (hanswer _ rfl)
  · refine (yields_report hs').bind fun _ s'' hs'' _ _ => ?_
    exact .pure hs'' hs''.table.hasBuiltins.canonical_any

/-- A constraint that is not met is reported, and the check goes on. -/
theorem yields_checkConstraint {m : Building Unit} (span : Span) (hs : s.Tidy)
    (h : m.Yields s.table fun _ _ => True) :
    (checkConstraint m span).Yields s fun _ _ => True := by
  refine (yields_build hs h).bind fun answer s' hs' _ _ => ?_
  split
  · exact .pure hs' trivial
  · exact yields_report hs'

end Checking

/-! ## Relations -/

variable {s : CheckState} {a b : TypeId}

/-- An outcome that a relation gives is a type of the table. -/
theorem yields_toType {m : Building Outcome} (span : Span) (hs : s.Tidy)
    (h : m.Yields s.table fun _ _ => True) :
    (buildOrAny (Outcome.toType <$> m) span).Yields s fun n U => U.Canonical n := by
  refine yields_buildOrAny span hs ?_
  rw [map_eq_pure_bind]
  refine h.bind fun o U hU _ => .pure ?_
  exact (hU.hasBuiltins hs.table.hasBuiltins).canonical_toType o

/-- Evaluating a relation on types of the table gives a type of the table. -/
theorem yields_evaluate (op : Operator) {args : List (TypeId × Span)} (span : Span) (hs : s.Tidy)
    (h : ∀ arg ∈ args, s.table.Canonical arg.1) :
    (evaluate op args span).Yields s fun n U => U.Canonical n := by
  rw [evaluate.eq_def]
  split
  · exact .get (.pure hs (hs.table.hasBuiltins.canonical_toType _))
  · rename_i c a at₁ b at₂
    have ha := h _ List.mem_cons_self
    have hb := h _ (List.mem_cons_of_mem _ List.mem_cons_self)
    exact yields_toType span hs (yields_compare c hs.table ha hb)
  · rename_i target a at'
    have ha := h _ List.mem_cons_self
    refine (yields_checkConstraint at' hs (yields_assertionConstraint target)).bind
      fun _ s' hs' hb' _ => ?_
    exact yields_toType span hs' (yields_equal hs'.table (hb'.canonical ha)
      (hs'.table.hasBuiltins.canonical_ofBool target))
  · rename_i target a at'
    have ha := h _ List.mem_cons_self
    have hconstraint := yields_batchConstraint (i := a) target hs.table.hasBuiltins
    refine (yields_checkConstraint at' hs hconstraint).bind fun _ s' hs' hb' _ => ?_
    exact yields_toType span hs' (yields_foldBatch target hs'.table (hb'.canonical ha))
  · exact .pure hs hs.table.hasBuiltins.canonical_any

/-! ## Names -/

/-- The types that have a name of their own. -/
theorem ofName?_cases {i : TypeId} {name : String} (h : TypeId.ofName? name = some i) :
    (name = "any" ∧ i = TypeId.any) ∨ i = TypeId.never ∨ i = TypeId.unknown ∨
      (∃ b, i = TypeId.ofBool b) ∨ i = TypeId.boolean ∨ ∃ p : Primitive, i = p.id := by
  rw [TypeId.ofName?.eq_def] at h
  split at h
  · exact .inl ⟨rfl, (Option.some.inj h).symm⟩
  · exact .inr (.inl (Option.some.inj h).symm)
  · exact .inr (.inr (.inl (Option.some.inj h).symm))
  · exact .inr (.inr (.inr (.inl ⟨true, (Option.some.inj h).symm⟩)))
  · exact .inr (.inr (.inr (.inl ⟨false, (Option.some.inj h).symm⟩)))
  · exact .inr (.inr (.inr (.inr (.inl (Option.some.inj h).symm))))
  · obtain ⟨p, _, rfl⟩ := Option.map_eq_some_iff.mp h
    exact .inr (.inr (.inr (.inr (.inr ⟨p, rfl⟩))))

/-- A built-in name stands for a canonical type. -/
theorem TypeTable.HasBuiltins.canonical_of_ofName? {T : TypeTable} {i : TypeId} {name : String}
    (hb : T.HasBuiltins) (h : TypeId.ofName? name = some i) : T.Canonical i := by
  obtain ⟨-, rfl⟩ | rfl | rfl | ⟨b, rfl⟩ | rfl | ⟨p, rfl⟩ := ofName?_cases h
  · exact hb.canonical_any
  · exact hb.canonical_never
  · exact hb.canonical_unknown
  · exact hb.canonical_ofBool b
  · exact hb.canonical_boolean
  · exact hb.canonical_primitive p

/-- A name that stands for a type stands for one of the table. -/
theorem CheckState.Tidy.canonical_of_referent? {name : String} {i : TypeId} (hs : s.Tidy)
    (h : s.referent? name = some (.plain i)) : s.table.Canonical i := by
  rw [CheckState.referent?] at h
  split at h
  · rename_i j hname
    obtain rfl : j = i := by simpa using h
    exact hs.table.hasBuiltins.canonical_of_ofName? hname
  · split at h
    · rename_i a halias
      obtain rfl : a.type = i := by simpa using h
      exact hs.aliases a (List.mem_of_find?_eq_some halias)
    · simp at h

/-- What a name stands for, applied to types of the table, is a type of the table. -/
theorem yields_applyReferent (name : String) {args : List (TypeId × Span)} (span : Span)
    {r : Referent} (hs : s.Tidy) (hargs : ∀ arg ∈ args, s.table.Canonical arg.1)
    (hr : ∀ i, r = .plain i → s.table.Canonical i) :
    (applyReferent name args span r).Yields s fun n U => U.Canonical n := by
  -- what cannot be applied is reported and stands for `any`
  have hany : ∀ e, Checking.Yields (do report e; return TypeId.any) s fun n U => U.Canonical n :=
    fun e => (yields_report hs).bind fun _ s' hs' _ _ =>
      .pure hs' hs'.table.hasBuiltins.canonical_any
  cases r with
  | plain i =>
    rw [applyReferent]
    split
    · exact .pure hs (hr i rfl)
    · exact hany _
  | relation d =>
    rw [applyReferent]
    split
    · exact hany _
    · exact yields_evaluate d.operator span hs hargs

/-! ## Expressions -/

mutual

/-- An expression resolves to a type of the table. -/
theorem yields_resolve (e : TypeExpr) (s : CheckState) (hs : s.Tidy) :
    (resolve e).Yields s fun n U => U.Canonical n := by
  cases e with
  | named name args span =>
    rw [resolve]
    refine .get ?_
    split
    · refine (yields_report hs).bind fun _ s' hs' _ _ => ?_
      refine (yields_resolveAll args s' hs').bind fun _ s'' hs'' _ _ => ?_
      exact .pure hs'' hs''.table.hasBuiltins.canonical_any
    · rename_i r hr
      refine (yields_resolveAll args s hs).bind fun types s' hs' hb htypes => ?_
      refine yields_applyReferent name span hs' (fun arg harg => ?_) fun i hi => ?_
      · exact htypes arg.1 (List.of_mem_zip harg).1
      · exact hb.canonical (hs.canonical_of_referent? (hi ▸ hr))
  | number value span =>
    rw [resolve]
    exact yields_buildOrAny span hs ((numberLiteral_yields value).mono fun _ _ _ hn => hn.1)
  | bigint digits span =>
    rw [resolve]
    exact yields_buildOrAny span hs ((bigintLiteral_yields digits).mono fun _ _ _ hn => hn.1)
  | string value span =>
    rw [resolve]
    exact yields_interning hs (stringLiteral_yields value)
  | union members span =>
    rw [resolve]
    refine (yields_resolveAll members s hs).bind fun types s' hs' _ htypes => ?_
    exact yields_interning hs'
      ((unionOf_yields hs'.table.hasBuiltins htypes).mono fun _ _ _ hn => hn.1)
  | intersection members span =>
    rw [resolve]
    refine (yields_resolveAll members s hs).bind fun types s' hs' _ htypes => ?_
    exact yields_buildOrAny span hs'
      ((intersectionOf_yields hs'.table.hasBuiltins htypes).mono fun _ _ _ hn => hn.1)
  | array element readonly span =>
    rw [resolve]
    refine (yields_resolve element s hs).bind fun type s' hs' _ htype => ?_
    exact yields_interning hs' (yields_arrayOf readonly htype)
  | tuple elements readonly span =>
    rw [resolve]
    refine (yields_resolveAll elements s hs).bind fun types s' hs' _ htypes => ?_
    exact yields_interning hs' (yields_tupleOf readonly htypes)
  | object properties span =>
    rw [resolve]
    refine (yields_resolveProperties properties s hs).bind fun ps s' hs' _ hps => ?_
    exact yields_buildOrAny span hs'
      ((objectOf_yields hs'.table.hasBuiltins hps).mono fun _ _ _ hn => hn.1)

/-- Expressions in a row resolve to types of the table. -/
theorem yields_resolveAll (es : List TypeExpr) (s : CheckState) (hs : s.Tidy) :
    (resolveAll es).Yields s fun is U => ∀ i ∈ is, U.Canonical i := by
  cases es with
  | nil =>
    rw [resolveAll]
    exact .pure hs (by simp)
  | cons e rest =>
    rw [resolveAll]
    refine (yields_resolve e s hs).bind fun i s' hs' _ hi => ?_
    refine (yields_resolveAll rest s' hs').bind fun is s'' hs'' hb his => ?_
    exact .pure hs'' (List.forall_mem_cons.mpr ⟨hb.canonical hi, his⟩)

/-- A property keeps all but its type, which resolves. -/
theorem yields_resolveProperty (p : PropertyExpr) (s : CheckState) (hs : s.Tidy) :
    (resolveProperty p).Yields s fun q U => U.Canonical q.type := by
  cases p with
  | mk name type optional readonly span =>
    rw [resolveProperty]
    exact (yields_resolve type s hs).bind fun i s' hs' _ hi => .pure hs' hi

/-- Properties in a row get types of the table. -/
theorem yields_resolveProperties (ps : List PropertyExpr) (s : CheckState) (hs : s.Tidy) :
    (resolveProperties ps).Yields s fun qs U => ∀ q ∈ qs, U.Canonical q.type := by
  cases ps with
  | nil =>
    rw [resolveProperties]
    exact .pure hs (by simp)
  | cons p rest =>
    rw [resolveProperties]
    refine (yields_resolveProperty p s hs).bind fun q s' hs' _ hq => ?_
    refine (yields_resolveProperties rest s' hs').bind fun qs s'' hs'' hb hqs => ?_
    exact .pure hs'' (List.forall_mem_cons.mpr ⟨hb.canonical hq, hqs⟩)

end

/-! ## Items -/

/-- A declaration binds its name to a type of the table, if the name is free. -/
theorem yields_checkAlias (d : AliasDecl) (hs : s.Tidy) :
    (checkAlias d).Yields s fun _ _ => True := by
  rw [checkAlias]
  split
  · refine (yields_report hs).bind fun _ s' hs' _ _ => ?_
    exact (yields_resolve d.value s' hs').bind fun _ s'' hs'' _ _ => .pure hs'' trivial
  · refine (yields_resolve d.value s hs).bind fun type s' hs' _ htype => ?_
    refine .get ?_
    split
    · exact yields_report hs'
    · refine ⟨.refl, ⟨hs'.table, fun a ha => ?_, hs'.expressions⟩, trivial⟩
      -- the new alias is the last one, and its type was built before
      rcases List.mem_append.mp ha with ha | ha
      · exact hs'.aliases a ha
      · obtain rfl := List.mem_singleton.mp ha
        exact htype

/-- An item keeps the state tidy. -/
theorem yields_checkItem (item : Item) (hs : s.Tidy) :
    (checkItem item).Yields s fun _ _ => True := by
  rcases item with d | e
  · exact yields_checkAlias d hs
  · refine (yields_resolve e s hs).bind fun type s' hs' _ htype => ?_
    refine ⟨.refl, ⟨hs'.table, hs'.aliases, fun x hx => ?_⟩, trivial⟩
    rcases List.mem_append.mp hx with hx | hx
    · exact hs'.expressions x hx
    · obtain rfl := List.mem_singleton.mp hx
      exact htype

/-- Items in a row keep the state tidy. -/
theorem yields_checkItems (items : List Item) (hs : s.Tidy) :
    (checkItems items).Yields s fun _ _ => True := by
  induction items generalizing s with
  | nil => exact .pure hs trivial
  | cons item rest ih => exact (yields_checkItem item hs).bind fun _ _ hs' _ _ => ih hs'

/-! ## Files -/

variable {T : TypeTable}

/-- Before anything is checked the state is as tidy as the table. -/
theorem tidy_start (hT : T.Tidy) : CheckState.Tidy { table := T } := ⟨hT, by simp, by simp⟩

/-- Checking a file builds canonical types and keeps the table tidy. -/
theorem tidy_checkFile (file : CaseFile) (hT : T.Tidy) :
    T.Builds (checkFile T file).table ∧ (checkFile T file).Tidy := by
  obtain ⟨hbuilds, htidy, _⟩ := yields_checkItems file.items (tidy_start hT)
  exact ⟨hbuilds, htidy⟩

/-- The same for a text, which need not be a case file. -/
theorem tidy_checkSourceWith (source : String) (hT : T.Tidy) :
    T.Builds (checkSourceWith T source).table ∧ (checkSourceWith T source).Tidy := by
  rw [checkSourceWith]
  split
  · exact tidy_checkFile _ hT
  · exact ⟨.refl, hT, by simp, by simp⟩

end TypeAssay
