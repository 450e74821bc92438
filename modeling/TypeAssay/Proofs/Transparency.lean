import TypeAssay.Proofs.Denotations
import TypeAssay.Proofs.Records
import TypeAssay.Proofs.Replays

/-!
# Resolving again

An expression that resolves to a type without an error resolves to the same type for the rest of the
file, and builds nothing then, provided that no name in it gets another meaning
(`resolve_transparent`). So where an alias was declared for it, its text and the name stand for each
other.

`m.Settles names s Q` carries this through checking: in a later state where `names` mean the same,
`m` answers what it answered in `s` and leaves the state as it is, if it was quiet in `s`. What was
recorded is recorded a second time otherwise, and a recovery takes `any` again.
-/

namespace TypeAssay

open TypeTable Checking

/-! ## Where checking leads -/

/-- Before anything is checked. -/
def CheckState.start (o : Options) : CheckState := { table := withOptions o }

/-- A new state is tidy. -/
theorem CheckState.tidy_start (o : Options) : (start o).Tidy :=
  TypeAssay.tidy_start (tidy_withOptions o)

/-- Whether an item leaves the meaning of some names alone. -/
def Item.Spares (names : List String) : Item → Prop
  | .alias d => d.name ∉ names
  | .expr _ => True

/-- An item that spares a name does not declare it. -/
theorem Item.Spares.declares?_ne {names : List String} {item : Item} {name : String}
    (h : item.Spares names) (hname : name ∈ names) : item.declares? ≠ some name := by
  intro hdeclares
  obtain ⟨d, rfl, -, rfl⟩ := exists_alias_of_declares? hdeclares
  exact h hname

namespace CheckState

variable {allowed : Item → Prop} {names : List String} {s s' u : CheckState} {name : String}

/-- `u` comes from `s` by checking items that are `allowed`, by resolving expressions and by
recording errors. -/
inductive Leads (allowed : Item → Prop) (s : CheckState) : CheckState → Prop
  | refl : Leads allowed s s
  | item {u : CheckState} (h : Leads allowed s u) (item : Item) (hitem : allowed item) :
      Leads allowed s ((checkItem item).run u).2
  | expression {u : CheckState} (h : Leads allowed s u) (e : TypeExpr) :
      Leads allowed s ((resolve e).run u).2
  | error {u : CheckState} (h : Leads allowed s u) (e : CheckError) :
      Leads allowed s ((report e).run u).2

/-- Checking allowed items in order is one way. -/
theorem Leads.items (h : s.Leads allowed u) {items : List Item} (hitems : ∀ i ∈ items, allowed i) :
    s.Leads allowed ((checkItems items).run u).2 := by
  induction items generalizing u with
  | nil => exact h
  | cons item rest ih =>
    obtain ⟨hitem, hrest⟩ := List.forall_mem_cons.mp hitems
    exact ih (h.item item hitem) hrest

/-- What items lead to is built up from where they started. -/
theorem Leads.yields (h : s.Leads allowed u) (hs : s.Tidy) : u.Tidy ∧ s.table.Builds u.table := by
  induction h with
  | refl => exact ⟨hs, .refl⟩
  | item _ item _ ih =>
    obtain ⟨hb, hu, _⟩ := yields_checkItem item ih.1
    exact ⟨hu, ih.2.trans hb⟩
  | expression _ e ih =>
    obtain ⟨hb, hu, _⟩ := yields_resolve e _ ih.1
    exact ⟨hu, ih.2.trans hb⟩
  | error _ e ih =>
    obtain ⟨hb, hu, _⟩ := yields_report (e := e) ih.1
    exact ⟨hu, ih.2.trans hb⟩

/-- What was found before is still there. -/
theorem Leads.precedes (h : s.Leads allowed u) : s.Precedes u := by
  induction h with
  | refl => exact .refl _
  | item _ item _ ih => exact ih.trans (proceeds_checkItem item _)
  | expression _ e ih => exact ih.trans (continues_resolve e _).precedes
  | error _ e ih => exact ih.trans (continues_report e _).precedes

/-- Where no item declares a name, it keeps its meaning. -/
theorem Leads.alias?_eq (h : s.Leads (Item.Spares names) u) (hname : name ∈ names) :
    u.alias? name = s.alias? name := by
  induction h with
  | refl => rfl
  | item _ item hitem ih =>
    rw [alias?_checkItem (hitem.declares?_ne hname), ih]
  | expression _ e ih => rw [alias?_resolve, ih]
  | error _ e ih => exact ih

/-- What a name was declared for first, it stands for ever after. -/
theorem Precedes.alias?_eq {a : AliasValue} (h : s.Precedes u) (ha : s.alias? name = some a) :
    u.alias? name = some a := by
  obtain ⟨rest, hrest⟩ := h.aliases
  rw [alias?] at ha
  rw [alias?, ← hrest, List.find?_append, ha]
  rfl

/-- `u` is a later state with the same meaning of `names`. -/
structure Later (names : List String) (s u : CheckState) : Prop where
  builds : s.table.Builds u.table
  referent?_eq : ∀ name ∈ names, u.referent? name = s.referent? name

/-- A state that is later than a continuation is later. -/
theorem Later.of_continues (h : s'.Later names u) (hb : s.table.Builds s'.table)
    (hc : s.Continues s') : s.Later names u :=
  ⟨hb.trans h.builds, fun name hname => (h.referent?_eq name hname).trans (hc.referent?_eq name)⟩

/-- A name means what its alias stands for, or what it means without one. -/
theorem referent?_eq_of_alias?_eq (h : u.alias? name = s.alias? name) :
    u.referent? name = s.referent? name := by
  rw [referent?, referent?, h]

/-- Items that spare some names lead to a state where these mean the same. -/
theorem Leads.later (h : s.Leads (Item.Spares names) u) (hs : s.Tidy) : s.Later names u :=
  ⟨(h.yields hs).2, fun _ hname => referent?_eq_of_alias?_eq (h.alias?_eq hname)⟩

end CheckState

/-! ## Computations that settle -/

namespace Checking

variable {α β : Type} {names : List String} {s : CheckState} {m : Checking α} {f : α → Checking β}
  {Q : α → TypeTable → Prop} {R : β → TypeTable → Prop}

/-- `m` keeps the state tidy, its answer satisfies `Q`, it does no more than to build types and to
record errors, and where it records none, it is done with in all later states in which `names` mean
the same. -/
structure Settles (names : List String) (m : Checking α) (s : CheckState)
    (Q : α → TypeTable → Prop) : Prop where
  yields : m.Yields s Q
  continues : s.Continues (m.run s).2
  again : m.Quiet s → ∀ u, (m.run s).2.Later names u → m.run u = ((m.run s).1, u)

theorem Settles.pure {a : α} (hs : s.Tidy) (h : Q a s.table) :
    Settles names (Pure.pure a) s Q :=
  ⟨.pure hs h, .refl s, fun _ _ _ => rfl⟩

theorem Settles.bind (h : m.Settles names s Q)
    (hf : ∀ a s', s'.Tidy → s.table.Builds s'.table → s.Continues s' → Q a s'.table →
      (f a).Settles names s' R) : Settles names (m >>= f) s R := by
  obtain ⟨hb, hs', hQ⟩ := h.yields
  have hf' := hf _ _ hs' hb h.continues hQ
  refine ⟨⟨hb.trans hf'.yields.1, hf'.yields.2⟩, h.continues.trans hf'.continues,
    fun hquiet u hu => ?_⟩
  obtain ⟨hfirst, hsecond⟩ := hquiet.of_bind h.continues.errors hf'.continues.errors
  -- the later state is later than the one between the two computations, too
  have hbetween := hu.of_continues hf'.yields.1 hf'.continues
  show (f (m.run u).1).run (m.run u).2 = _
  rw [h.again hfirst u hbetween]
  exact hf'.again hsecond u hu

/-- A question about the state whose answer stays the same. -/
theorem Settles.get {f : CheckState → Checking β} (hf : ∀ u, s.Later names u → f u = f s)
    (h : (f s).Settles names s R) : Settles names (MonadState.get >>= f) s R := by
  refine ⟨.get h.yields, h.continues, fun hquiet u hu => ?_⟩
  show (f u).run u = _
  rw [hf u (hu.of_continues h.yields.1 h.continues)]
  exact h.again hquiet u hu

/-- What records an error is not quiet. -/
theorem Settles.report {e : CheckError} {f : Unit → Checking β} (hf : (f ()).Continues)
    (h : Yields (report e >>= f) s R) : Settles names (report e >>= f) s R :=
  ⟨h, (continues_report e).bind (fun _ => hf) s, fun hquiet =>
    absurd hquiet (not_quiet_report_bind fun _ => hf)⟩

/-- What settles in the table settles in the state. -/
theorem settles_interning {m : Interning α} (hs : s.Tidy) (h : m.Settles s.table Q) :
    (interning m).Settles names s Q := by
  refine ⟨yields_interning hs h.yields, continues_interning m s, fun _ u hu => ?_⟩
  show ((m.run u.table).1, { u with table := (m.run u.table).2 }) = _
  rw [h.again u.table hu.builds]
  rfl

/-- A type that can be built settles, and one that cannot is reported. -/
theorem settles_buildOrAny {m : Building TypeId} (span : Span) (hs : s.Tidy)
    (h : m.Settles s.table fun n U => U.Canonical n) :
    (buildOrAny m span).Settles names s fun n U => U.Canonical n := by
  refine ⟨yields_buildOrAny span hs h.yields, continues_buildOrAny m span s,
    fun hquiet u hu => ?_⟩
  obtain ⟨i, U, hon, hrun⟩ := hquiet.of_buildOrAny
  rw [hrun] at hu ⊢
  exact run_buildOrAny (h.again i U u.table hon hu.builds) rfl

/-- A constraint that is met settles, and one that is not is reported. -/
theorem settles_checkConstraint {m : Building Unit} (span : Span) (hs : s.Tidy)
    (h : m.Settles s.table fun _ _ => True) :
    (checkConstraint m span).Settles names s fun _ _ => True := by
  refine ⟨yields_checkConstraint span hs h.yields, continues_checkConstraint m span s,
    fun hquiet u hu => ?_⟩
  obtain ⟨U, hon, hrun⟩ := hquiet.of_checkConstraint
  rw [hrun] at hu ⊢
  exact run_checkConstraint (h.again () U u.table hon hu.builds) rfl

end Checking

/-! ## Resolving -/

variable {names : List String} {s : CheckState}

/-- An outcome that a relation gives. -/
theorem settles_toType {m : Building Outcome} (span : Span) (hs : s.Tidy)
    (h : m.Settles s.table fun _ _ => True) :
    (buildOrAny (Outcome.toType <$> m) span).Settles names s fun n U => U.Canonical n := by
  refine settles_buildOrAny span hs ?_
  rw [map_eq_pure_bind]
  exact h.bind fun o U hU _ => .pure ((hU.hasBuiltins hs.table.hasBuiltins).canonical_toType o)

/-- Relations repeat their answers. -/
theorem settles_evaluate (op : Operator) {args : List (TypeId × Span)} (span : Span) (hs : s.Tidy)
    (h : ∀ arg ∈ args, s.table.Canonical arg.1) :
    (evaluate op args span).Settles names s fun n U => U.Canonical n := by
  rw [evaluate.eq_def]
  split
  · rename_i c a at'
    have ha := h _ List.mem_cons_self
    refine .get (fun u hu => ?_) (.pure hs (hs.table.hasBuiltins.canonical_toType _))
    rw [c.holds_eq hu.builds.grows hs.table ha.lt_size]
  · rename_i c a at₁ b at₂
    have ha := h _ List.mem_cons_self
    have hb := h _ (List.mem_cons_of_mem _ List.mem_cons_self)
    exact settles_toType span hs (settles_compare c hs.table ha hb)
  · rename_i target a at'
    have ha := h _ List.mem_cons_self
    have hconstraint := settles_assertionConstraint target hs.table ha
    refine (settles_checkConstraint at' hs hconstraint).bind fun _ s' hs' hb _ _ => ?_
    have hbuiltins := hs'.table.hasBuiltins
    exact settles_toType span hs' (settles_equal hbuiltins (hb.canonical ha)
      (hbuiltins.canonical_ofBool target))
  · rename_i target a at'
    have ha := h _ List.mem_cons_self
    have hconstraint := settles_batchConstraint target hs.table ha
    refine (settles_checkConstraint at' hs hconstraint).bind fun _ s' hs' hb _ _ => ?_
    exact settles_toType span hs' (settles_foldBatch target hs'.table (hb.canonical ha))
  · exact .pure hs hs.table.hasBuiltins.canonical_any

/-- The use of a name settles, if what it means is canonical. -/
theorem settles_applyReferent (name : String) {args : List (TypeId × Span)} (span : Span)
    {r : Referent} (hs : s.Tidy) (hargs : ∀ arg ∈ args, s.table.Canonical arg.1)
    (hr : ∀ i, r = .plain i → s.table.Canonical i) :
    (applyReferent name args span r).Settles names s fun n U => U.Canonical n := by
  have hany : ∀ e, Settles names (do report e; return TypeId.any) s fun n U => U.Canonical n :=
    fun e => .report (continues_pure _) <| (yields_report hs).bind fun _ s' hs' _ _ =>
      .pure hs' hs'.table.hasBuiltins.canonical_any
  cases r with
  | plain i =>
    rw [applyReferent]
    split
    · exact .pure hs (hr i rfl)
    · exact hany _
  | relation d =>
    rw [applyReferent]
    split
    · exact hany _
    · exact settles_evaluate d.operator span hs hargs

/-- Expressions settle one after the other. -/
theorem settles_resolveAll {es : List TypeExpr}
    (h : ∀ e ∈ es, ∀ s : CheckState, s.Tidy → e.names ⊆ names →
      (resolve e).Settles names s fun n U => U.Canonical n)
    (hs : s.Tidy) (hnames : namesOfAll es ⊆ names) :
    (resolveAll es).Settles names s fun is U => ∀ i ∈ is, U.Canonical i := by
  induction es generalizing s with
  | nil => exact .pure hs (by simp)
  | cons e rest ih =>
    obtain ⟨hfirst, hrest⟩ := List.append_subset.mp hnames
    rw [resolveAll]
    refine (h e List.mem_cons_self s hs hfirst).bind fun i s' hs' _ _ hi => ?_
    refine (ih (fun e he => h e (List.mem_cons_of_mem _ he)) hs' hrest).bind
      fun is s'' hs'' hb _ his => ?_
    exact .pure hs'' (List.forall_mem_cons.mpr ⟨hb.canonical hi, his⟩)

/-- Properties settle one after the other. -/
theorem settles_resolveProperties {ps : List PropertyExpr}
    (h : ∀ p ∈ ps, ∀ s : CheckState, s.Tidy → p.type.names ⊆ names →
      (resolve p.type).Settles names s fun n U => U.Canonical n)
    (hs : s.Tidy) (hnames : namesOfProperties ps ⊆ names) :
    (resolveProperties ps).Settles names s fun qs U => ∀ q ∈ qs, U.Canonical q.type := by
  induction ps generalizing s with
  | nil => exact .pure hs (by simp)
  | cons p rest ih =>
    obtain ⟨hfirst, hrest⟩ := List.append_subset.mp hnames
    have hp : (resolveProperty p).Settles names s fun q U => U.Canonical q.type := by
      rw [resolveProperty_eq]
      cases p
      exact (h _ List.mem_cons_self s hs hfirst).bind fun i s' hs' _ _ hi => .pure hs' hi
    rw [resolveProperties]
    refine hp.bind fun q s' hs' _ _ hq => ?_
    refine (ih (fun p hp => h p (List.mem_cons_of_mem _ hp)) hs' hrest).bind
      fun qs s'' hs'' hb _ hqs => ?_
    exact .pure hs'' (List.forall_mem_cons.mpr ⟨hb.canonical hq, hqs⟩)

/-- An expression that was resolved without an error is done with, as long as its names keep their
meaning. -/
theorem settles_resolve (e : TypeExpr) (s : CheckState) (hs : s.Tidy) (hnames : e.names ⊆ names) :
    (resolve e).Settles names s fun n U => U.Canonical n := by
  -- by induction on the expression: its names mean the same later, and its types are found
  induction e using TypeExpr.induction generalizing s with
  | named name args span ih =>
    rw [TypeExpr.names, List.cons_subset] at hnames
    rw [resolve]
    refine .get (fun u hu => by rw [hu.referent?_eq name hnames.1]) ?_
    cases hr : s.referent? name with
    | none =>
      have hargs := continues_resolveAll fun e (_ : e ∈ args) => continues_resolve e
      refine .report (hargs.bind fun _ => continues_pure _) ?_
      refine (yields_report hs).bind fun _ s' hs' _ _ => ?_
      refine (yields_resolveAll args s' hs').bind fun _ s'' hs'' _ _ => ?_
      exact .pure hs'' hs''.table.hasBuiltins.canonical_any
    | some r =>
      refine (settles_resolveAll ih hs hnames.2).bind fun types s' hs' hb _ htypes => ?_
      refine settles_applyReferent name span hs' (fun arg harg => ?_) fun i hi => ?_
      · exact htypes arg.1 (List.of_mem_zip harg).1
      · exact hb.canonical (hs.canonical_of_referent? (hi ▸ hr))
  | number value span => exact settles_buildOrAny span hs (settles_numberLiteral value)
  | bigint digits span => exact settles_buildOrAny span hs (settles_bigintLiteral digits)
  | string value span => exact settles_interning hs (settles_literal (l := .string value) trivial)
  | union members span ih =>
    refine (settles_resolveAll ih hs hnames).bind fun types s' hs' _ _ htypes => ?_
    exact settles_interning hs' (settles_unionOf hs'.table.hasBuiltins htypes)
  | intersection members span ih =>
    refine (settles_resolveAll ih hs hnames).bind fun types s' hs' _ _ htypes => ?_
    exact settles_buildOrAny span hs' (settles_intersectionOf hs'.table.hasBuiltins htypes)
  | array element readonly span ih =>
    refine (ih s hs hnames).bind fun type s' hs' _ _ htype => ?_
    exact settles_interning hs' (settles_intern_canonical (t := .array type readonly) trivial
      (by simpa [Ty.parts] using htype))
  | tuple elements readonly span ih =>
    refine (settles_resolveAll ih hs hnames).bind fun types s' hs' _ _ htypes => ?_
    exact settles_interning hs'
      (settles_intern_canonical (t := .tuple types readonly) trivial htypes)
  | object properties span ih =>
    refine (settles_resolveProperties ih hs hnames).bind fun ps s' hs' _ _ hps => ?_
    exact settles_buildOrAny span hs' (settles_objectOf hps)

/-! ## For the rest of the file -/

/-- The name of an alias stands for its type, and saying so leaves no trace. -/
theorem run_resolve_name {a : AliasValue} {name : String} (span : Span)
    (hname : TypeId.ofName? name = none) (ha : s.alias? name = some a) :
    (resolve (.named name [] span)).run s = (a.type, s) := by
  have hreferent : s.referent? name = some (.plain a.type) := by
    rw [CheckState.referent?, hname, ha]
  simp only [resolve, StateT.run_bind, StateT.run_get, pure_bind, hreferent]
  rfl

/-- Resolving is referentially transparent. In every state that checking reaches from the built-in
types, an expression that resolves to a type without an error resolves to it again, records nothing
and builds nothing, after whatever else is checked, so long as no alias is declared whose name the
expression mentions. So once an alias is declared for it without an error, the text of the
expression and the name resolve to one type for the rest of the file, and neither leaves a trace.
An alias may have the name of a relation; then the expression is taken not to mention it. -/
theorem resolve_transparent (o : Options) {e : TypeExpr}
    (hs : (CheckState.start o).Leads (fun _ => True) s)
    (hquiet : (resolve e).Quiet s) :
    (∀ u, ((resolve e).run s).2.Leads (Item.Spares e.names) u →
      (resolve e).run u = (((resolve e).run s).1, u)) ∧
    ∀ d : AliasDecl, d.value = e → d.name ∉ e.names → (checkItem (.alias d)).Quiet s →
      ∀ u, ((checkItem (.alias d)).run s).2.Leads (Item.Spares e.names) u →
        (resolve e).run u = (((resolve e).run s).1, u) ∧
          ∀ span, (resolve (.named d.name [] span)).run u = (((resolve e).run s).1, u) := by
  have htidy := (hs.yields (CheckState.tidy_start o)).1
  -- without an error the expression settles, and later it is resolved to the same type
  have hsettles : (resolve e).Settles e.names s fun n U => U.Canonical n :=
    settles_resolve e s htidy (List.Subset.refl _)
  refine ⟨fun u hu => hsettles.again hquiet u (hu.later hsettles.yields.2.1), ?_⟩
  rintro d rfl hself hd u hu
  obtain ⟨hname, hnew, -⟩ := hd.of_checkAlias
  have hdeclared : ((checkItem (.alias d)).run s).2.Tidy := (yields_checkItem (.alias d) htidy).2.1
  have hrun : (checkItem (.alias d)).run s = _ := run_checkAlias_of_new hname hnew
  have hlater : ((resolve d.value).run s).2.Later d.value.names u := by
    obtain ⟨hbuilds, hreferent⟩ := hu.later hdeclared
    refine ⟨?_, fun name hmem => (hreferent name hmem).trans ?_⟩
    · rw [hrun] at hbuilds
      exact hbuilds
    · -- the declaration is of another name
      refine CheckState.referent?_eq_of_alias?_eq ?_
      rw [alias?_resolve]
      refine alias?_checkItem (fun hdeclares => ?_) s
      obtain ⟨d', hd', -, rfl⟩ := Item.exists_alias_of_declares? hdeclares
      obtain rfl := Item.alias.inj hd'
      exact hself hmem
  have hfound : ((checkItem (.alias d)).run s).2.alias? d.name =
      some ⟨d.name, ((resolve d.value).run s).1, d.nameSpan⟩ := by
    rw [hrun]
    exact CheckState.alias?_declare_self hnew
  exact ⟨hsettles.again hquiet u hlater, fun span =>
    run_resolve_name span hname (hu.precedes.alias?_eq hfound)⟩

/-! ### Words -/

/-- An array of one word or any number. -/
def wordsExpr : TypeExpr :=
  .array (.union [.string "a" default, .named "number" [] default] default) true default

/-- The alias of the array. -/
def wordsDecl : AliasDecl where
  name := "Words"
  nameSpan := default
  exported := false
  value := wordsExpr
  span := default

/-- What follows: another alias, which mentions the first one, and a question about it. -/
def wordsRest : List Item :=
  let pair : TypeExpr := .tuple [wordsExpr, .named "Words" [] default] false default
  [.alias { wordsDecl with name := "Pair", value := pair },
    .expr (.named "IsTuple" [.named "Pair" [] default] default)]

/-- The array means the same behind what follows, and so does its name. -/
theorem resolve_transparent_words :
    (CheckState.start {}).Leads (fun _ => True) (CheckState.start {}) ∧
    (resolve wordsExpr).Quiet (CheckState.start {}) ∧
    "Words" ∉ wordsExpr.names ∧ (checkItem (.alias wordsDecl)).Quiet (CheckState.start {}) ∧
    (∀ item ∈ wordsRest, item.Spares wordsExpr.names) ∧
    ∀ u, u = ((checkItems wordsRest).run
        ((checkItem (.alias wordsDecl)).run (CheckState.start {})).2).2 →
      (resolve wordsExpr).run u = (((resolve wordsExpr).run (CheckState.start {})).1, u) ∧
      (resolve (.named "Words" [] default)).run u =
        (((resolve wordsExpr).run (CheckState.start {})).1, u) := by
  have hexpr : ((resolve wordsExpr).run (.start {})).2.errors.isEmpty := by decide +kernel
  have hdecl : ((checkItem (.alias wordsDecl)).run (.start {})).2.errors.isEmpty := by
    decide +kernel
  have hquiet : (resolve wordsExpr).Quiet (.start {}) := List.isEmpty_iff.mp hexpr
  have hquiet' : (checkItem (.alias wordsDecl)).Quiet (.start {}) := List.isEmpty_iff.mp hdecl
  have hself : "Words" ∉ wordsExpr.names := by decide
  have hspares : ∀ item ∈ wordsRest, item.Spares wordsExpr.names := by
    unfold wordsRest
    rw [List.forall_mem_cons, List.forall_mem_singleton]
    exact ⟨show "Pair" ∉ wordsExpr.names by decide, trivial⟩
  refine ⟨.refl, hquiet, hself, hquiet', hspares, ?_⟩
  intro u hu
  have hleads : ((checkItem (.alias wordsDecl)).run (.start {})).2.Leads
      (Item.Spares wordsExpr.names) u := by
    rw [hu]
    exact CheckState.Leads.refl.items hspares
  obtain ⟨htext, hname⟩ := (resolve_transparent {} .refl hquiet).2 wordsDecl rfl hself hquiet' u
    hleads
  exact ⟨htext, hname default⟩

end TypeAssay
