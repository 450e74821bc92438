import TypeAssay.Proofs.Records

/-!
# Recoveries are reported

Where checking cannot go on it takes `any`, and it leaves an error behind. Nothing else makes an
`any`: a union or an intersection of types without `any` is one without `any`, and so is what a
relation answers. So `any` is in a result of a file without errors only if the file names it
(`no_any_of_no_errors`).

A type is `Clean` if it is canonical and does not reach `any`. The step lemmas say that the
constructors give clean types for clean parts, `quietly_resolve` that an expression in a state of
clean aliases resolves to a clean type unless it records an error, and the items follow by
induction.
-/

namespace TypeAssay

open TypeTable Checking

namespace TypeTable

variable {T U : TypeTable} {i j n : TypeId} {t : Ty} {ms : List TypeId}

/-! ## Clean types -/

/-- A canonical type that does not reach `any`. -/
structure Clean (T : TypeTable) (i : TypeId) : Prop where
  canonical : T.Canonical i
  no_any : ¬ T.Reaches i TypeId.any

/-- A clean type is not `any`. -/
theorem Clean.ne_any (h : T.Clean i) : i ≠ TypeId.any := by
  rintro rfl
  exact h.no_any .refl

/-- The parts of a clean type are clean. -/
theorem Clean.part (h : T.Clean i) (ht : T.get? i = some t) (hj : j ∈ t.parts) : T.Clean j :=
  ⟨h.canonical.part ht hj, fun hany => h.no_any (.of_part ht hj hany)⟩

/-- A canonical type other than `any` is clean if its parts are. -/
theorem Canonical.clean (hi : T.Canonical i) (hne : i ≠ TypeId.any) (ht : T.get? i = some t)
    (hparts : ∀ j ∈ t.parts, T.Clean j) : T.Clean i := by
  refine ⟨hi, fun hreach => ?_⟩
  rcases hreach.eq_or_part ht with hany | ⟨j, hj, hreach⟩
  · exact hne hany.symm
  · exact (hparts j hj).no_any hreach

/-- A type without parts is clean unless it is `any`. -/
theorem Canonical.clean_of_leaf (hi : T.Canonical i) (hne : i ≠ TypeId.any)
    (ht : T.get? i = some t) (hleaf : t.parts = []) : T.Clean i :=
  hi.clean hne ht fun _ hj => absurd (hleaf ▸ hj) List.not_mem_nil

/-- From a canonical type a later table reaches nothing new. -/
theorem Grows.reaches_of_reaches (h : Grows T U) (hi : T.Canonical i) (hj : U.Reaches i j) :
    T.Reaches i j := by
  induction hi with
  | node ht _ _ ih =>
    rcases hj.eq_or_part (h.get? ht) with rfl | ⟨k, hk, hj⟩
    · exact .refl
    · exact .of_part ht hk (ih k hk hj)

/-- A clean type stays clean. -/
theorem Clean.grows (h : T.Clean i) (hTU : Grows T U) : U.Clean i :=
  ⟨hTU.canonical h.canonical, fun hany => h.no_any (hTU.reaches_of_reaches h.canonical hany)⟩

/-! ### The built-in types -/

/-- The type `never` is clean. -/
theorem HasBuiltins.clean_never (hb : T.HasBuiltins) : T.Clean TypeId.never :=
  hb.canonical_never.clean_of_leaf (by decide) hb.never rfl

/-- The type `unknown` is clean. -/
theorem HasBuiltins.clean_unknown (hb : T.HasBuiltins) : T.Clean TypeId.unknown :=
  hb.canonical_unknown.clean_of_leaf (by decide) hb.unknown rfl

/-- A truth value is clean. -/
theorem HasBuiltins.clean_ofBool (hb : T.HasBuiltins) (b : Bool) : T.Clean (TypeId.ofBool b) :=
  (hb.canonical_ofBool b).clean_of_leaf (by cases b <;> decide) (hb.ofBool b) rfl

/-- A primitive type is clean. -/
theorem HasBuiltins.clean_primitive (hb : T.HasBuiltins) (p : Primitive) : T.Clean p.id :=
  (hb.canonical_primitive p).clean_of_leaf (by cases p <;> decide) (hb.primitive p) rfl

/-- The type `boolean` is clean. -/
theorem HasBuiltins.clean_boolean (hb : T.HasBuiltins) : T.Clean TypeId.boolean := by
  refine hb.canonical_boolean.clean (by decide) (hb _ (.union [TypeId.yes, TypeId.no]) rfl) ?_
  show ∀ j ∈ [TypeId.yes, TypeId.no], T.Clean j
  rw [List.forall_mem_cons, List.forall_mem_singleton]
  exact ⟨hb.clean_ofBool true, hb.clean_ofBool false⟩

/-- What a relation answers is clean. -/
theorem HasBuiltins.clean_toType (hb : T.HasBuiltins) (o : Outcome) : T.Clean o.toType := by
  rcases o with ⟨_ | _, _ | _⟩
  · exact hb.clean_never
  · exact hb.clean_ofBool false
  · exact hb.clean_ofBool true
  · exact hb.clean_boolean

/-- Of the built-in names, only `any` stands for a type that is not clean. -/
theorem HasBuiltins.clean_of_ofName? (hb : T.HasBuiltins) {name : String} (hname : name ≠ "any")
    (h : TypeId.ofName? name = some i) : T.Clean i := by
  obtain ⟨hany, -⟩ | rfl | rfl | ⟨b, rfl⟩ | rfl | ⟨p, rfl⟩ := ofName?_cases h
  · exact absurd hany hname
  · exact hb.clean_never
  · exact hb.clean_unknown
  · exact hb.clean_ofBool b
  · exact hb.clean_boolean
  · exact hb.clean_primitive p

/-! ### Unions and intersections -/

/-- The alternatives of a clean type are clean. -/
theorem Clean.alternatives (h : T.Clean i) (hj : j ∈ T.alternatives i) : T.Clean j := by
  rw [TypeTable.alternatives] at hj
  split at hj
  · rename_i ms hget
    exact h.part hget hj
  · exact List.mem_singleton.mp hj ▸ h

/-- The constraints of a clean type are clean. -/
theorem Clean.constraints (h : T.Clean i) (hj : j ∈ T.constraints i) : T.Clean j := by
  rw [TypeTable.constraints] at hj
  split at hj
  · rename_i ms hget
    exact h.part hget hj
  · exact List.mem_singleton.mp hj ▸ h

/-- A type is as clean as the types that a question about it is put to. -/
theorem Canonical.clean_of_subjects (hi : T.Canonical i) (hb : T.HasBuiltins)
    (h : ∀ j ∈ T.subjects i, T.Clean j) : T.Clean i := by
  rw [subjects] at h
  split at h
  · rename_i hget
    exact get?_injective hb.never hget ▸ hb.clean_never
  · rename_i ms hget
    refine hi.clean ?_ hget h
    rintro rfl
    exact absurd (hb.any.symm.trans hget) (by simp)
  · exact h i List.mem_cons_self

/-- A type is as clean as what it demands of a value. -/
theorem Canonical.clean_of_demands (hi : T.Canonical i) (hb : T.HasBuiltins)
    (h : ∀ j ∈ T.demands i, T.Clean j) : T.Clean i := by
  rw [demands] at h
  split at h
  · rename_i hget
    exact get?_injective hb.unknown hget ▸ hb.clean_unknown
  · rename_i ms hget
    refine hi.clean ?_ hget h
    rintro rfl
    exact absurd (hb.any.symm.trans hget) (by simp)
  · exact h i List.mem_cons_self

/-- A union of clean types is clean. -/
theorem IsUnionOf.clean (h : T.IsUnionOf ms n) (hn : T.Canonical n) (hb : T.HasBuiltins)
    (hms : ∀ m ∈ ms, T.Clean m) : T.Clean n := by
  have hflat : ∀ a ∈ ms.flatMap T.alternatives, T.Clean a := by
    intro a ha
    obtain ⟨m, hm, ha⟩ := List.mem_flatMap.mp ha
    exact (hms m hm).alternatives ha
  rw [IsUnionOf, if_neg fun hany => (hflat _ hany).ne_any rfl] at h
  split at h
  · exact h ▸ hb.clean_unknown
  · refine hn.clean_of_subjects hb fun a ha => hflat a ?_
    exact ((mem_unionMembers hb).mp (h ▸ ha)).1

/-- Clean constraints reduce to a clean type. -/
theorem IsReductionOf.clean (h : T.IsReductionOf ms n) (hn : T.Canonical n) (hb : T.HasBuiltins)
    (hms : ∀ m ∈ ms, T.Clean m) : T.Clean n := by
  rw [IsReductionOf] at h
  split at h
  · exact h ▸ hb.clean_never
  · refine hn.clean_of_demands hb fun a ha => hms a ?_
    exact reducedConstraints_sublist.subset (h ▸ ha)

/-- An intersection of clean types is clean, whether or not it distributes. -/
theorem IsIntersectionOf.clean (h : T.IsIntersectionOf ms n) (hn : T.Canonical n)
    (hb : T.HasBuiltins) (hms : ∀ m ∈ ms, T.Clean m) : T.Clean n := by
  have hopened : ∀ ks : List TypeId, (∀ k ∈ ks, T.Clean k) →
      ∀ a ∈ T.openedMembers ks, T.Clean a := by
    intro ks hks a ha
    obtain ⟨k, hk, ha⟩ := List.mem_flatMap.mp (mem_openedMembers.mp ha).1
    exact (hks k hk).constraints ha
  -- an intersection that contains `any` has a constraint that is `any`
  have hflat : TypeId.any ∉ ms.flatMap T.constraints := by
    intro hany
    obtain ⟨m, hm, ha⟩ := List.mem_flatMap.mp hany
    exact ((hms m hm).constraints ha).ne_any rfl
  rw [IsIntersectionOf, if_neg hflat] at h
  split at h
  · exact h ▸ hb.clean_never
  · obtain ⟨ns, hns, hunion⟩ := h
    -- what a choice takes from each member is an alternative of a clean type
    have hchoice : ∀ c ∈ choices ((T.openedMembers ms).map T.alternatives), ∀ a ∈ c, T.Clean a := by
      intro c hc a ha
      obtain ⟨l, hl, ha⟩ := exists_mem_of_mem_choices hc ha
      obtain ⟨m, hm, rfl⟩ := List.mem_map.mp hl
      exact (hopened ms hms m hm).alternatives ha
    refine hunion.clean hn hb ?_
    exact forall_right_of_forall₂ ((List.forall₂_and_left _ _).mpr ⟨hchoice, hns⟩)
      fun c r hcr => hcr.2.2.clean hcr.2.1 hb (hopened c hcr.1)

end TypeTable

/-! ## Constructors -/

variable {T : TypeTable} {s : CheckState} {is : List TypeId}

/-- A union of clean types is clean. -/
theorem yields_unionOf_clean (hb : T.HasBuiltins) (h : ∀ i ∈ is, T.Clean i) :
    (unionOf is).Yields T fun n U => U.Clean n :=
  (unionOf_isUnionOf hb fun i hi => (h i hi).canonical).mono fun _ _ hTU hn =>
    hn.2.clean hn.1 (hTU.hasBuiltins hb) fun i hi => (h i hi).grows hTU.grows

/-- An intersection of clean types is clean. -/
theorem yields_intersectionOf_clean (hb : T.HasBuiltins) (h : ∀ i ∈ is, T.Clean i) :
    (intersectionOf is).Yields T fun n U => U.Clean n :=
  (intersectionOf_yields_isIntersectionOf hb fun i hi => (h i hi).canonical).mono
    fun _ _ hTU hn => hn.2.clean hn.1 (hTU.hasBuiltins hb) fun i hi => (h i hi).grows hTU.grows

/-- A node other than `any` over clean parts. -/
theorem yields_intern_clean {t : Ty} (hb : T.HasBuiltins) (hne : t ≠ .any) (hc : T.CanonicalNode t)
    (hparts : ∀ j ∈ t.parts, T.Clean j) : (intern t).Yields T fun n U => U.Clean n := by
  have hcanonical : ∀ j ∈ t.parts, T.Canonical j := fun j hj => (hparts j hj).canonical
  refine Interning.yields_intern hc hcanonical ?_
  refine (canonical_intern hc hcanonical).clean (hb.intern_fst_ne_any hne) (get?_intern_fst T t) ?_
  exact fun j hj => (hparts j hj).grows (grows_intern T t)

/-- An object with clean properties is clean. -/
theorem yields_objectOf_clean {ps : List Property} (hb : T.HasBuiltins)
    (h : ∀ p ∈ ps, T.Clean p.type) : (objectOf ps).Yields T fun n U => U.Clean n := by
  rw [objectOf]
  split
  · exact .throw
  · rename_i hunique
    refine (yields_intern_clean hb (by simp) ?_ fun j hj => ?_).lift
    · exact pairwise_name_of_repeatedName? (pairwise_sortByName ps) hunique
    · obtain ⟨p, hp, rfl⟩ := List.mem_map.mp hj
      exact h p ((perm_sortByName ps).subset hp)

/-- The type of a number is clean. -/
theorem yields_numberLiteral_clean (hb : T.HasBuiltins) (x : Binary64) :
    (numberLiteral x).Yields T fun n U => U.Clean n := by
  refine (numberLiteral_yields x).mono fun n U hTU hn => ?_
  obtain ⟨hn, y, hget, -⟩ := hn
  exact hn.clean_of_leaf (ne_any_of_get? (hTU.hasBuiltins hb) hget (by simp)) hget rfl

/-- The type of a bigint is clean. -/
theorem yields_bigintLiteral_clean (hb : T.HasBuiltins) (digits : String) :
    (bigintLiteral digits).Yields T fun n U => U.Clean n := by
  refine (bigintLiteral_yields digits).mono fun n U hTU hn => ?_
  obtain ⟨hn, c, hget, -⟩ := hn
  exact hn.clean_of_leaf (ne_any_of_get? (hTU.hasBuiltins hb) hget (by simp)) hget rfl

/-! ## Resolving -/

namespace CheckState

/-- All aliases and all expressions are clean. -/
structure Clean (s : CheckState) : Prop where
  aliases : ∀ a ∈ s.aliases, s.table.Clean a.type
  expressions : ∀ e ∈ s.expressions, s.table.Clean e.2

/-- What adds no records adds none that are not clean. -/
theorem Clean.continues {s s' : CheckState} (h : s.Clean) (hb : s.table.Builds s'.table)
    (hc : s.Continues s') : s'.Clean where
  aliases a ha := (h.aliases a (hc.aliases ▸ ha)).grows hb.grows
  expressions e he := (h.expressions e (hc.expressions ▸ he)).grows hb.grows

/-- A name other than `any` stands for a clean type, if it stands for a type. -/
theorem Clean.of_referent? {i : TypeId} {name : String} (h : s.Clean) (hs : s.Tidy)
    (hname : name ≠ "any") (hi : s.referent? name = some (.plain i)) : s.table.Clean i := by
  rw [referent?] at hi
  split at hi
  · rename_i j hbuiltin
    obtain rfl : j = i := by simpa using hi
    exact hs.table.hasBuiltins.clean_of_ofName? hname hbuiltin
  · split at hi
    · rename_i a halias
      obtain rfl : a.type = i := by simpa using hi
      exact h.aliases a (List.mem_of_find?_eq_some halias)
    · simp at hi

end CheckState

/-- A type that is built quietly is clean, since `any` does not replace it. -/
theorem quietly_buildOrAny_clean {m : Building TypeId} {span : Span}
    (h : m.Yields s.table fun n U => U.Clean n) :
    (buildOrAny m span).Quietly s fun n s' => s'.table.Clean n :=
  quietly_buildOrAny fun i U hon => by
    have hi := h.2 i (by rw [hon])
    rwa [hon] at hi

/-- A type that is entered is clean. -/
theorem quietly_interning_clean {m : Interning TypeId}
    (h : m.Yields s.table fun n U => U.Clean n) :
    (interning m).Quietly s fun n s' => s'.table.Clean n := fun _ => h.2

/-- An outcome that a relation gives. -/
theorem quietly_toType_clean {m : Building Outcome} {span : Span} (hs : s.Tidy)
    (h : m.Yields s.table fun _ _ => True) :
    (buildOrAny (Outcome.toType <$> m) span).Quietly s fun n s' => s'.table.Clean n := by
  refine quietly_buildOrAny_clean ?_
  rw [map_eq_pure_bind]
  exact h.bind fun o U hU _ => .pure ((hU.hasBuiltins hs.table.hasBuiltins).clean_toType o)

/-- A relation with the right number of arguments answers an outcome, whatever it is asked about. -/
theorem quietly_evaluate_clean {op : Operator} {args : List (TypeId × Span)} {span : Span}
    (hs : s.Tidy) (hargs : ∀ arg ∈ args, s.table.Canonical arg.1)
    (harity : args.length = op.arity) :
    (evaluate op args span).Quietly s fun n s' => s'.table.Clean n := by
  cases op with
  | category c =>
    obtain ⟨⟨a, at'⟩, rfl⟩ := List.length_eq_one_iff.mp harity
    exact .get (.pure (hs.table.hasBuiltins.clean_toType _))
  | comparison c =>
    obtain ⟨⟨a, at₁⟩, ⟨b, at₂⟩, rfl⟩ := List.length_eq_two.mp harity
    have ha := hargs _ List.mem_cons_self
    have hb := hargs _ (List.mem_cons_of_mem _ List.mem_cons_self)
    exact quietly_toType_clean hs (yields_compare c hs.table ha hb)
  -- the constraint need not be clean, since its type is not kept
  | assertion target =>
    obtain ⟨⟨a, at'⟩, rfl⟩ := List.length_eq_one_iff.mp harity
    have ha := hargs _ List.mem_cons_self
    refine .bind (yields_checkConstraint at' hs (yields_assertionConstraint target))
      (continues_checkConstraint _ _) (fun _ => continues_buildOrAny _ _) (Q := fun _ _ => True)
      (fun _ => trivial) fun _ s' hs' hb _ _ _ => ?_
    exact quietly_toType_clean hs' (yields_equal hs'.table (hb.canonical ha)
      (hs'.table.hasBuiltins.canonical_ofBool target))
  | batch target =>
    obtain ⟨⟨a, at'⟩, rfl⟩ := List.length_eq_one_iff.mp harity
    have ha := hargs _ List.mem_cons_self
    have hconstraint := yields_batchConstraint (i := a) target hs.table.hasBuiltins
    refine .bind (yields_checkConstraint at' hs hconstraint) (continues_checkConstraint _ _)
      (fun _ => continues_buildOrAny _ _) (Q := fun _ _ => True) (fun _ => trivial)
      fun _ s' hs' hb _ _ _ => ?_
    exact quietly_toType_clean hs' (yields_foldBatch target hs'.table (hb.canonical ha))

/-- What a name refers to gives a clean type, unless the number of arguments is wrong. -/
theorem quietly_applyReferent_clean {name : String} {args : List (TypeId × Span)} {span : Span}
    {r : Referent} (hs : s.Tidy) (hargs : ∀ arg ∈ args, s.table.Canonical arg.1)
    (hr : ∀ i, r = .plain i → s.table.Clean i) :
    (applyReferent name args span r).Quietly s fun n s' => s'.table.Clean n := by
  cases r with
  | plain i =>
    rw [applyReferent]
    split
    · exact .pure (hr i rfl)
    · exact .report fun _ => continues_pure _
  | relation d =>
    rw [applyReferent]
    split
    · exact .report fun _ => continues_pure _
    · rename_i harity
      exact quietly_evaluate_clean hs hargs (not_not.mp harity)

/-- Expressions that do not name `any`, one after the other. -/
theorem quietly_resolveAll_clean {es : List TypeExpr}
    (h : ∀ e ∈ es, ∀ s : CheckState, s.Tidy → s.Clean → "any" ∉ e.names →
      (resolve e).Quietly s fun n s' => s'.table.Clean n)
    (hs : s.Tidy) (hclean : s.Clean) (hnames : "any" ∉ namesOfAll es) :
    (resolveAll es).Quietly s fun is s' => ∀ i ∈ is, s'.table.Clean i := by
  have hall : (resolveAll es).Quietly s fun is s' =>
      List.Forall₂ (fun _ i => s'.table.Clean i) es is := by
    refine quietly_resolveAll (H := CheckState.Clean) (Q := fun _ i s => s.table.Clean i)
      (fun s s' _ hb hc h => h.continues hb hc) (fun _ _ _ _ hb _ hi => hi.grows hb.grows)
      (fun e he s hs hclean => h e he s hs hclean fun hany => ?_) hs hclean
    exact hnames (mem_namesOfAll.mpr ⟨e, he, hany⟩)
  exact hall.mono fun _ _ his => forall_right_of_forall₂ his fun _ _ hi => hi

/-- Properties are resolved quietly to clean ones. -/
theorem quietly_resolveProperties_clean {ps : List PropertyExpr}
    (h : ∀ p ∈ ps, ∀ s : CheckState, s.Tidy → s.Clean → "any" ∉ p.type.names →
      (resolve p.type).Quietly s fun n s' => s'.table.Clean n)
    (hs : s.Tidy) (hclean : s.Clean) (hnames : "any" ∉ namesOfProperties ps) :
    (resolveProperties ps).Quietly s fun qs s' => ∀ q ∈ qs, s'.table.Clean q.type := by
  have hall : (resolveProperties ps).Quietly s fun qs s' =>
      List.Forall₂ (fun p q => s'.table.Clean q.type ∧ q = p.resolved q.type) ps qs := by
    refine quietly_resolveProperties (H := CheckState.Clean) (Q := fun _ i s => s.table.Clean i)
      (fun s s' _ hb hc h => h.continues hb hc) (fun _ _ _ _ hb _ hi => hi.grows hb.grows)
      (fun p hp s hs hclean => h p hp s hs hclean fun hany => ?_) hs hclean
    exact hnames (mem_namesOfProperties.mpr ⟨p, hp, hany⟩)
  exact hall.mono fun _ _ hqs => forall_right_of_forall₂ hqs fun _ _ hq => hq.1

/-- An expression that does not name `any` resolves to a clean type, or it records an error. -/
theorem quietly_resolve_clean (e : TypeExpr) (s : CheckState) (hs : s.Tidy) (hclean : s.Clean)
    (hnames : "any" ∉ e.names) : (resolve e).Quietly s fun n s' => s'.table.Clean n := by
  have hcontinues : ∀ es, (resolveAll es).Continues := fun es =>
    continues_resolveAll fun e _ => continues_resolve e
  -- by induction on the expression: an error is where `any` would come from, or the word itself
  induction e using TypeExpr.induction generalizing s with
  | named name args span ih =>
    rw [TypeExpr.names, List.mem_cons, not_or] at hnames
    rw [resolve]
    refine .get ?_
    cases hr : s.referent? name with
    | none => exact .report fun _ => (hcontinues args).bind fun _ => continues_pure _
    | some r =>
      refine .bind (yields_resolveAll args s hs) (hcontinues args)
        (fun _ => continues_applyReferent _ _ _ r)
        (quietly_resolveAll_clean ih hs hclean hnames.2) fun types s' hs' hb _ htypes _ => ?_
      refine quietly_applyReferent_clean hs' (fun arg harg => ?_) fun i hi => ?_
      · exact htypes arg.1 (List.of_mem_zip harg).1
      · exact (hclean.of_referent? hs (Ne.symm hnames.1) (hi ▸ hr)).grows hb.grows
  | number value span =>
    exact quietly_buildOrAny_clean (yields_numberLiteral_clean hs.table.hasBuiltins value)
  | bigint digits span =>
    exact quietly_buildOrAny_clean (yields_bigintLiteral_clean hs.table.hasBuiltins digits)
  | string value span =>
    exact quietly_interning_clean
      (yields_intern_clean hs.table.hasBuiltins (by simp) trivial (by simp [Ty.parts]))
  | union members span ih =>
    rw [TypeExpr.names] at hnames
    refine .bind (yields_resolveAll members s hs) (hcontinues members)
      (fun _ => continues_interning _) (quietly_resolveAll_clean ih hs hclean hnames)
      fun types s' hs' _ _ _ htypes => ?_
    exact quietly_interning_clean (yields_unionOf_clean hs'.table.hasBuiltins htypes)
  | intersection members span ih =>
    rw [TypeExpr.names] at hnames
    refine .bind (yields_resolveAll members s hs) (hcontinues members)
      (fun _ => continues_buildOrAny _ _) (quietly_resolveAll_clean ih hs hclean hnames)
      fun types s' hs' _ _ _ htypes => ?_
    exact quietly_buildOrAny_clean (yields_intersectionOf_clean hs'.table.hasBuiltins htypes)
  | array element readonly span ih =>
    rw [TypeExpr.names] at hnames
    refine .bind (yields_resolve element s hs) (continues_resolve element)
      (fun _ => continues_interning _) (ih s hs hclean hnames) fun type s' hs' _ _ _ htype => ?_
    exact quietly_interning_clean (yields_intern_clean hs'.table.hasBuiltins (by simp) trivial
      (by simpa [Ty.parts] using htype))
  | tuple elements readonly span ih =>
    rw [TypeExpr.names] at hnames
    refine .bind (yields_resolveAll elements s hs) (hcontinues elements)
      (fun _ => continues_interning _) (quietly_resolveAll_clean ih hs hclean hnames)
      fun types s' hs' _ _ _ htypes => ?_
    exact quietly_interning_clean
      (yields_intern_clean hs'.table.hasBuiltins (by simp) trivial htypes)
  | object properties span ih =>
    rw [TypeExpr.names] at hnames
    refine .bind (yields_resolveProperties properties s hs)
      (continues_resolveProperties fun p _ => continues_resolve p.type)
      (fun _ => continues_buildOrAny _ _) (quietly_resolveProperties_clean ih hs hclean hnames)
      fun ps s' hs' _ _ _ hps => ?_
    exact quietly_buildOrAny_clean (yields_objectOf_clean hs'.table.hasBuiltins hps)

/-! ## Items and files -/

/-- An item that does not name `any` keeps a clean state clean, or it records an error. -/
theorem quietly_checkItem_clean {item : Item} (hs : s.Tidy) (hclean : s.Clean)
    (hnames : "any" ∉ item.names) : (checkItem item).Quietly s fun _ s' => s'.Clean := by
  intro hquiet
  rcases item with d | e
  · -- an alias that is refused is an error, so only one that is declared is quiet
    obtain ⟨-, -, hrun⟩ | ⟨-, -, hloud⟩ := checkAlias_cases d s
    · have hkept := hclean.continues (yields_resolve d.value s hs).1 (continues_resolve d.value s)
      rw [Quiet, checkItem, hrun] at hquiet
      rw [checkItem, hrun, CheckState.declare, ← (continues_resolve d.value s).aliases]
      refine ⟨fun a ha => ?_, hkept.expressions⟩
      rcases List.mem_append.mp ha with ha | ha
      · exact hkept.aliases a ha
      · obtain rfl := List.mem_singleton.mp ha
        exact quietly_resolve_clean d.value s hs hclean hnames hquiet
    · exact absurd hquiet hloud
  · have hkept := hclean.continues (yields_resolve e s hs).1 (continues_resolve e s)
    rw [Quiet, run_checkItem_expr] at hquiet
    rw [run_checkItem_expr, ← (continues_resolve e s).expressions]
    refine ⟨hkept.aliases, fun x hx => ?_⟩
    rcases List.mem_append.mp hx with hx | hx
    · exact hkept.expressions x hx
    · obtain rfl := List.mem_singleton.mp hx
      exact quietly_resolve_clean e s hs hclean hnames hquiet

/-- Items that do not name `any` keep a clean state clean, or one of them records an error. -/
theorem quietly_checkItems_clean {items : List Item} (hs : s.Tidy) (hclean : s.Clean)
    (hnames : ∀ item ∈ items, "any" ∉ item.names) :
    (checkItems items).Quietly s fun _ s' => s'.Clean := by
  induction items generalizing s with
  | nil => exact .pure hclean
  | cons item rest ih =>
    intro hquiet
    obtain ⟨hnames, hrest⟩ := List.forall_mem_cons.mp hnames
    obtain ⟨hitem, hquiet⟩ := hquiet.of_bind (proceeds_checkItem item s).errors
      (proceeds_checkItems rest _).errors
    exact ih (yields_checkItem item hs).2.1 (quietly_checkItem_clean hs hclean hnames hitem) hrest
      hquiet

/-- At the start nothing is recorded. -/
theorem clean_start (T : TypeTable) : CheckState.Clean { table := T } := ⟨by simp, by simp⟩

/-- Every recovery is reported: if no error is recorded for a file that does not mention the name
`any`, then neither the value of an alias nor the type of a top-level expression reaches `any`. -/
theorem no_any_of_no_errors (o : Options) (file : CaseFile)
    (hnames : ∀ item ∈ file.items, "any" ∉ item.names)
    (h : (checkFile (withOptions o) file).errors = []) :
    (∀ a ∈ (checkFile (withOptions o) file).aliases,
      ¬ (checkFile (withOptions o) file).table.Reaches a.type TypeId.any) ∧
    ∀ e ∈ (checkFile (withOptions o) file).expressions,
      ¬ (checkFile (withOptions o) file).table.Reaches e.2 TypeId.any := by
  have hclean : (checkFile (withOptions o) file).Clean :=
    quietly_checkItems_clean (tidy_start (tidy_withOptions o)) (clean_start _) hnames h
  exact ⟨fun a ha => (hclean.aliases a ha).no_any, fun e he => (hclean.expressions e he).no_any⟩

/-- A file with an alias for a union, an array of it and a question about it. -/
def wordFile : CaseFile where
  items := [
    .alias { name := "Word", nameSpan := default, exported := false, span := default
             value := .union [.named "number" [] default, .string "a" default] default },
    .expr (.array (.named "Word" [] default) true default),
    .expr (.named "IsUnion" [.named "Word" [] default] default)]

/-- The file has no error and mentions no `any`, so nothing in it reaches `any`. -/
theorem no_any_of_no_errors_wordFile :
    (∀ item ∈ wordFile.items, "any" ∉ item.names) ∧
    (checkFile (withOptions {}) wordFile).errors = [] ∧
    (∀ a ∈ (checkFile (withOptions {}) wordFile).aliases,
      ¬ (checkFile (withOptions {}) wordFile).table.Reaches a.type TypeId.any) ∧
    ∀ e ∈ (checkFile (withOptions {}) wordFile).expressions,
      ¬ (checkFile (withOptions {}) wordFile).table.Reaches e.2 TypeId.any := by
  have hnames : ∀ item ∈ wordFile.items, "any" ∉ item.names := by decide
  have hempty : (checkFile (withOptions {}) wordFile).errors.isEmpty := by decide +kernel
  have herrors : (checkFile (withOptions {}) wordFile).errors = [] := List.isEmpty_iff.mp hempty
  exact ⟨hnames, herrors, no_any_of_no_errors {} wordFile hnames herrors⟩

end TypeAssay
