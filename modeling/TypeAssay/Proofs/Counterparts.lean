import TypeAssay.Proofs.Records
import TypeAssay.Proofs.TwinAnswers

/-!
# The same expression in two states

Two states of checking that know the same names, each name for twin types, resolve the same text to
twin types, although every id may differ between their tables (`twinned_resolve`). Where the text
stands makes no difference but to the places of errors, so texts are compared without spans.

`m.Alike s m' s' R` follows two computations side by side: each leaves a tidy state behind that adds
types and errors only, and `R` relates the answers in the tables that are left behind.
-/

namespace TypeAssay

open TypeTable Checking

/-! ## Texts without spans -/

mutual

/-- An expression without the places where it and its parts stand. -/
def TypeExpr.bare : TypeExpr → TypeExpr
  | .named name args _ => .named name (bareAll args) default
  | .number value _ => .number value default
  | .bigint digits _ => .bigint digits default
  | .string value _ => .string value default
  | .union members _ => .union (bareAll members) default
  | .intersection members _ => .intersection (bareAll members) default
  | .array element readonly _ => .array element.bare readonly default
  | .tuple elements readonly _ => .tuple (bareAll elements) readonly default
  | .object properties _ => .object (bareProperties properties) default

def bareAll : List TypeExpr → List TypeExpr
  | [] => []
  | e :: rest => e.bare :: bareAll rest

def PropertyExpr.bare : PropertyExpr → PropertyExpr
  | .mk name type optional readonly _ => .mk name type.bare optional readonly default

def bareProperties : List PropertyExpr → List PropertyExpr
  | [] => []
  | p :: rest => p.bare :: bareProperties rest

end

/-- Spans are removed from each expression. -/
theorem bareAll_eq_map (es : List TypeExpr) : bareAll es = es.map TypeExpr.bare := by
  induction es with
  | nil => rfl
  | cons e rest ih => rw [bareAll, ih, List.map_cons]

/-- Spans are removed from each property. -/
theorem bareProperties_eq_map (ps : List PropertyExpr) :
    bareProperties ps = ps.map PropertyExpr.bare := by
  induction ps with
  | nil => rfl
  | cons p rest ih => rw [bareProperties, ih, List.map_cons]

/-- Lists have the same images if their elements do. -/
theorem forall₂_of_map_eq {α β : Type} {f : α → β} {xs ys : List α} (h : xs.map f = ys.map f) :
    List.Forall₂ (fun x y => f x = f y) xs ys := by
  rw [← List.forall₂_eq_eq_eq, List.forall₂_map_left_iff, List.forall₂_map_right_iff] at h
  exact h

/-- Two expressions for a property that differ in where they stand, and in their types. -/
structure PropertyExpr.Matches (P : TypeExpr → TypeExpr → Prop) (p q : PropertyExpr) : Prop where
  name : p.name = q.name
  optional : p.optional = q.optional
  readonly : p.readonly = q.readonly
  type : P p.type q.type

/-- Induction on two expressions with the same text. -/
theorem TypeExpr.bareInduction {P : TypeExpr → TypeExpr → Prop}
    (named : ∀ name args args' span span', List.Forall₂ P args args' →
      P (.named name args span) (.named name args' span'))
    (number : ∀ value span span', P (.number value span) (.number value span'))
    (bigint : ∀ digits span span', P (.bigint digits span) (.bigint digits span'))
    (string : ∀ value span span', P (.string value span) (.string value span'))
    (union : ∀ members members' span span', List.Forall₂ P members members' →
      P (.union members span) (.union members' span'))
    (intersection : ∀ members members' span span', List.Forall₂ P members members' →
      P (.intersection members span) (.intersection members' span'))
    (array : ∀ element element' readonly span span', P element element' →
      P (.array element readonly span) (.array element' readonly span'))
    (tuple : ∀ elements elements' readonly span span', List.Forall₂ P elements elements' →
      P (.tuple elements readonly span) (.tuple elements' readonly span'))
    (object : ∀ properties properties' span span',
      List.Forall₂ (PropertyExpr.Matches P) properties properties' →
      P (.object properties span) (.object properties' span'))
    {e e' : TypeExpr} (h : e.bare = e'.bare) : P e e' := by
  have hall : ∀ {es es' : List TypeExpr}, (∀ e ∈ es, ∀ e', e.bare = e'.bare → P e e') →
      bareAll es = bareAll es' → List.Forall₂ P es es' := by
    intro es es' hes h
    rw [bareAll_eq_map, bareAll_eq_map] at h
    exact forall₂_mono (fun e he e' _ hee' => hes e he e' hee') (forall₂_of_map_eq h)
  -- the forms agree, so the induction on one expression goes through both
  induction e using TypeExpr.induction generalizing e' <;> cases e' <;>
    simp only [TypeExpr.bare, reduceCtorEq, TypeExpr.named.injEq, TypeExpr.number.injEq,
      TypeExpr.bigint.injEq, TypeExpr.string.injEq, TypeExpr.union.injEq,
      TypeExpr.intersection.injEq, TypeExpr.array.injEq, TypeExpr.tuple.injEq,
      TypeExpr.object.injEq, and_true] at h
  case named.named name args span ih name' args' span' =>
    obtain ⟨rfl, h⟩ := h
    exact named name args args' span span' (hall (fun e he _ => ih e he) h)
  case number.number value span value' span' => exact h ▸ number value span span'
  case bigint.bigint digits span digits' span' => exact h ▸ bigint digits span span'
  case string.string value span value' span' => exact h ▸ string value span span'
  case union.union members span ih members' span' =>
    exact union members members' span span' (hall (fun e he _ => ih e he) h)
  case intersection.intersection members span ih members' span' =>
    exact intersection members members' span span' (hall (fun e he _ => ih e he) h)
  case array.array element readonly span ih element' readonly' span' =>
    obtain ⟨h, rfl⟩ := h
    exact array element element' readonly span span' (ih h)
  case tuple.tuple elements readonly span ih elements' readonly' span' =>
    obtain ⟨h, rfl⟩ := h
    exact tuple elements elements' readonly span span' (hall (fun e he _ => ih e he) h)
  case object.object properties span ih properties' span' =>
    rw [bareProperties_eq_map, bareProperties_eq_map] at h
    refine object properties properties' span span' (forall₂_mono (fun p hp q _ hpq => ?_)
      (forall₂_of_map_eq h))
    obtain ⟨name, type, optional, readonly, _⟩ := p
    obtain ⟨name', type', optional', readonly', _⟩ := q
    obtain ⟨rfl, htype, rfl, rfl, -⟩ := PropertyExpr.mk.inj hpq
    exact ⟨rfl, rfl, rfl, ih _ hp htype⟩

/-! ### Their names -/

/-- Names do not depend on spans, if they do not in each expression. -/
theorem namesOfAll_bareAll {es : List TypeExpr} (h : ∀ e ∈ es, e.bare.names = e.names) :
    namesOfAll (bareAll es) = namesOfAll es := by
  induction es with
  | nil => rfl
  | cons e rest ih =>
    obtain ⟨he, hrest⟩ := List.forall_mem_cons.mp h
    rw [bareAll, namesOfAll, namesOfAll, he, ih hrest]

/-- Names do not depend on spans, if they do not in each type. -/
theorem namesOfProperties_bareProperties {ps : List PropertyExpr}
    (h : ∀ p ∈ ps, p.type.bare.names = p.type.names) :
    namesOfProperties (bareProperties ps) = namesOfProperties ps := by
  induction ps with
  | nil => rfl
  | cons p rest ih =>
    obtain ⟨hp, hrest⟩ := List.forall_mem_cons.mp h
    cases p
    rw [bareProperties, namesOfProperties, namesOfProperties, ih hrest]
    exact congrArg (· ++ namesOfProperties rest) hp

/-- Names do not depend on spans. -/
theorem TypeExpr.names_bare (e : TypeExpr) : e.bare.names = e.names := by
  induction e using TypeExpr.induction with
  | named name args span ih => rw [bare, names, names, namesOfAll_bareAll ih]
  | number value span => rfl
  | bigint digits span => rfl
  | string value span => rfl
  | union members span ih => rw [bare, names, names, namesOfAll_bareAll ih]
  | intersection members span ih => rw [bare, names, names, namesOfAll_bareAll ih]
  | array element readonly span ih => rw [bare, names, names, ih]
  | tuple elements readonly span ih => rw [bare, names, names, namesOfAll_bareAll ih]
  | object properties span ih => rw [bare, names, names, namesOfProperties_bareProperties ih]

/-! ## Computations that run alike -/

/-- `u` comes from `s` by building types and by recording errors. -/
structure CheckState.Develops (s u : CheckState) : Prop where
  tidy : u.Tidy
  builds : s.table.Builds u.table
  continues : s.Continues u

/-- What develops further is a development. -/
theorem CheckState.Develops.trans {s u v : CheckState} (h : s.Develops u) (h' : u.Develops v) :
    s.Develops v :=
  ⟨h'.tidy, h.builds.trans h'.builds, h.continues.trans h'.continues⟩

namespace Checking

variable {α β γ δ : Type} {s s' : CheckState} {m : Checking α} {m' : Checking β}
  {f : α → Checking γ} {f' : β → Checking δ} {R : α → β → TypeTable → TypeTable → Prop}
  {S : γ → δ → TypeTable → TypeTable → Prop}

/-- Two computations build types and record errors, and `R` relates their answers. -/
structure Alike (m : Checking α) (s : CheckState) (m' : Checking β) (s' : CheckState)
    (R : α → β → TypeTable → TypeTable → Prop) : Prop where
  left : s.Develops (m.run s).2
  right : s'.Develops (m'.run s').2
  answers : R (m.run s).1 (m'.run s').1 (m.run s).2.table (m'.run s').2.table

/-- Both computations resolve to the same type. -/
abbrev Twinned (m : Checking TypeId) (s : CheckState) (m' : Checking TypeId) (s' : CheckState) :
    Prop :=
  Alike m s m' s' fun i j T U => Twins T U i j

/-- A computation that only adds errors develops the state. -/
theorem Yields.develops {P : α → TypeTable → Prop} (h : m.Yields s P) (hm : m.Continues) :
    s.Develops (m.run s).2 :=
  ⟨h.2.1, h.1, hm s⟩

theorem Alike.pure {a : α} {b : β} (hs : s.Tidy) (hs' : s'.Tidy) (h : R a b s.table s'.table) :
    Alike (Pure.pure a) s (Pure.pure b) s' R :=
  ⟨⟨hs, .refl, .refl s⟩, ⟨hs', .refl, .refl s'⟩, h⟩

/-- What follows may use how the answers before it are related. -/
theorem Alike.bind (h : Alike m s m' s' R)
    (hf : ∀ a b u u', s.Develops u → s'.Develops u' → R a b u.table u'.table →
      Alike (f a) u (f' b) u' S) : Alike (m >>= f) s (m' >>= f') s' S := by
  have hrest := hf _ _ _ _ h.left h.right h.answers
  exact ⟨h.left.trans hrest.left, h.right.trans hrest.right, hrest.answers⟩

/-- What both report may differ, and what follows runs alike. -/
theorem alike_report (e e' : CheckError) (hs : s.Tidy) (hs' : s'.Tidy) :
    Alike (report e) s (report e') s' fun _ _ _ _ => True :=
  ⟨(yields_report hs).develops (continues_report e), (yields_report hs').develops
    (continues_report e'), trivial⟩

/-- What was reported instead of an answer is `any` in both. -/
theorem twinned_reportAny (e e' : CheckError) (hs : s.Tidy) (hs' : s'.Tidy) :
    Twinned (do report e; return TypeId.any) s (do report e'; return TypeId.any) s' :=
  (alike_report e e' hs hs').bind fun _ _ _ _ hu hu' _ =>
    .pure hu.tidy hu'.tidy (twins_any hu.tidy.table.hasBuiltins hu'.tidy.table.hasBuiltins)

/-- A question about the state. -/
theorem Alike.get {f : CheckState → Checking γ} {f' : CheckState → Checking δ}
    (h : Alike (f s) s (f' s') s' S) :
    Alike (MonadState.get >>= f) s (MonadState.get >>= f') s' S :=
  ⟨h.left, h.right, h.answers⟩

/-- What runs alike in the tables runs alike in the states. -/
theorem alike_interning {m : Interning α} {m' : Interning β} (hs : s.Tidy) (hs' : s'.Tidy)
    (h : Building.Alike (monadLift m) s.table (monadLift m') s'.table R) :
    Alike (interning m) s (interning m') s' R := by
  obtain ⟨V, W, hV, hW, ⟨e, he, -⟩ | ⟨a, b, ha, hb, hab⟩⟩ := h
  · rw [Building.on_lift] at he
    exact absurd (Prod.mk.inj he).1 (by simp)
  · rw [Building.on_lift] at ha hb
    obtain ⟨ha', rfl⟩ := Prod.mk.inj ha
    obtain ⟨hb', rfl⟩ := Prod.mk.inj hb
    obtain rfl := Except.ok.inj ha'
    obtain rfl := Except.ok.inj hb'
    exact ⟨⟨hs.build hV, hV, continues_interning m s⟩,
      ⟨hs'.build hW, hW, continues_interning m' s'⟩, hab⟩

/-- To build a type develops the state, also if it fails. -/
theorem develops_build {m : Building α} {r : Except TypeError α} {U : TypeTable} (hs : s.Tidy)
    (hon : m.on s.table = (r, U)) (hU : s.table.Builds U) :
    s.Develops ((build m).run s).2 ∧ ((build m).run s).1 = r ∧ ((build m).run s).2.table = U := by
  have hrun : (build m).run s = (r, { s with table := U }) := by
    show ((m.on s.table).1, { s with table := (m.on s.table).2 }) = _
    rw [hon]
  rw [hrun]
  exact ⟨⟨hs.build hU, hU, rfl, rfl, List.prefix_refl _⟩, rfl, rfl⟩

/-- What fails in one state fails in the other one. -/
theorem alike_build {m : Building α} {m' : Building β} (hs : s.Tidy) (hs' : s'.Tidy)
    (h : Building.Alike m s.table m' s'.table R) :
    Alike (build m) s (build m') s' fun r r' T U =>
      (∃ e, r = .error e ∧ r' = .error e) ∨ ∃ a b, r = .ok a ∧ r' = .ok b ∧ R a b T U := by
  obtain ⟨V, W, hV, hW, ⟨e, he, he'⟩ | ⟨a, b, ha, hb, hab⟩⟩ := h
  · obtain ⟨hleft, hanswer, -⟩ := develops_build hs he hV
    obtain ⟨hright, hanswer', -⟩ := develops_build hs' he' hW
    exact ⟨hleft, hright, Or.inl ⟨e, hanswer, hanswer'⟩⟩
  · obtain ⟨hleft, hanswer, htable⟩ := develops_build hs ha hV
    obtain ⟨hright, hanswer', htable'⟩ := develops_build hs' hb hW
    exact ⟨hleft, hright, Or.inr ⟨a, b, hanswer, hanswer', htable ▸ htable' ▸ hab⟩⟩

/-- Twins are built, or `any` replaces both. -/
theorem twinned_buildOrAny {m m' : Building TypeId} (span span' : Span) (hs : s.Tidy)
    (hs' : s'.Tidy) (h : Building.Twinned m s.table m' s'.table) :
    Twinned (buildOrAny m span) s (buildOrAny m' span') s' := by
  refine (alike_build hs hs' h).bind fun r r' u u' hu hu' hr => ?_
  rcases hr with ⟨e, rfl, rfl⟩ | ⟨i, j, rfl, rfl, hij⟩
  · exact twinned_reportAny _ _ hu.tidy hu'.tidy
  · exact .pure hu.tidy hu'.tidy hij

/-- Constraints that may be violated in one state only. -/
theorem alike_checkConstraint {m m' : Building Unit} (span span' : Span) (hs : s.Tidy)
    (hs' : s'.Tidy) (h : m.Yields s.table fun _ _ => True)
    (h' : m'.Yields s'.table fun _ _ => True) :
    Alike (checkConstraint m span) s (checkConstraint m' span') s' fun _ _ _ _ => True :=
  ⟨(yields_checkConstraint span hs h).develops (continues_checkConstraint m span),
    (yields_checkConstraint span' hs' h').develops (continues_checkConstraint m' span'), trivial⟩

end Checking

/-! ## Relations -/

variable {s s' : CheckState}

/-- Outcomes that are the same are the same type. -/
theorem twinned_toType {m m' : Building Outcome} (span span' : Span) (hs : s.Tidy) (hs' : s'.Tidy)
    (h : Building.Alike m s.table m' s'.table fun r r' _ _ => r = r') :
    Twinned (buildOrAny (Outcome.toType <$> m) span) s
      (buildOrAny (Outcome.toType <$> m') span') s' := by
  refine twinned_buildOrAny span span' hs hs' ?_
  rw [map_eq_pure_bind, map_eq_pure_bind]
  refine h.bind fun r r' V W hV hW hr => .pure ?_
  obtain rfl := hr
  exact twins_toType (hV.hasBuiltins hs.table.hasBuiltins) (hW.hasBuiltins hs'.table.hasBuiltins) r

/-- Relations give twins twin answers, wherever they are evaluated. -/
theorem twinned_evaluate (op : Operator) {args args' : List (TypeId × Span)} (span span' : Span)
    (hs : s.Tidy) (hs' : s'.Tidy) (hoptions : s.table.options = s'.table.options)
    (h : List.Forall₂ (fun arg arg' => Twins s.table s'.table arg.1 arg'.1) args args') :
    Twinned (evaluate op args span) s (evaluate op args' span') s' := by
  have hany : Twinned (pure TypeId.any) s (pure TypeId.any) s' :=
    .pure hs hs' (twins_any hs.table.hasBuiltins hs'.table.hasBuiltins)
  -- with the wrong number of arguments every operator answers `any`
  obtain _ | ⟨ha, _ | ⟨hb, _ | _⟩⟩ := h
  · cases op <;> exact hany
  · rename_i arg arg'
    obtain ⟨a, at₁⟩ := arg
    obtain ⟨a', at₂⟩ := arg'
    cases op with
    | comparison c => exact hany
    | category c =>
      refine Alike.get (.pure hs hs' ?_)
      rw [c.holds_eq_of_twins hs.table hs'.table hoptions ha]
      exact twins_toType hs.table.hasBuiltins hs'.table.hasBuiltins _
    | assertion target =>
      refine (alike_checkConstraint at₁ at₂ hs hs' (yields_assertionConstraint target)
        (yields_assertionConstraint target)).bind
        fun _ _ u u' hu hu' _ => twinned_toType span span' hu.tidy hu'.tidy ?_
      have hbuiltins := hu.tidy.table.hasBuiltins
      have hbuiltins' := hu'.tidy.table.hasBuiltins
      exact alike_equal hu.tidy.table hu'.tidy.table (ha.grows hu.builds.grows hu'.builds.grows)
        (twins_ofBool hbuiltins hbuiltins' target)
    | batch target =>
      refine (alike_checkConstraint at₁ at₂ hs hs'
        (yields_batchConstraint target hs.table.hasBuiltins)
        (yields_batchConstraint target hs'.table.hasBuiltins)).bind
        fun _ _ u u' hu hu' _ => twinned_toType span span' hu.tidy hu'.tidy ?_
      exact alike_foldBatch target hu.tidy.table hu'.tidy.table
        (ha.grows hu.builds.grows hu'.builds.grows)
  · cases op with
    | comparison c =>
      exact twinned_toType span span' hs hs' (alike_compare c hs.table hs'.table hoptions ha hb)
    | _ => exact hany
  · cases op <;> exact hany

/-! ## Names -/

/-- Names that stand for twin types, or for the same relation. -/
inductive Referent.Twins (T U : TypeTable) : Referent → Referent → Prop
  | plain {i j : TypeId} (h : TypeTable.Twins T U i j) : Referent.Twins T U (.plain i) (.plain j)
  | relation (d : Declaration) : Referent.Twins T U (.relation d) (.relation d)

/-- What names mean stays twinned. -/
theorem Referent.Twins.grows {T U V W : TypeTable} {r r' : Referent} (h : r.Twins T U r')
    (hTV : Grows T V) (hUW : Grows U W) : r.Twins V W r' := by
  cases h with
  | plain hij => exact .plain (hij.grows hTV hUW)
  | relation d => exact .relation d

namespace CheckState

variable {names : List String} {u u' : CheckState}

/-- Two states in which each of the names stands for twins, or for nothing at all. -/
structure Counterparts (names : List String) (s s' : CheckState) : Prop where
  left : s.Tidy
  right : s'.Tidy
  options : s.table.options = s'.table.options
  names : ∀ name ∈ names,
    Option.Rel (Referent.Twins s.table s'.table) (s.referent? name) (s'.referent? name)

/-- States that correspond do so after they have developed. -/
theorem Counterparts.develops (h : s.Counterparts names s') (hu : s.Develops u)
    (hu' : s'.Develops u') : u.Counterparts names u' where
  left := hu.tidy
  right := hu'.tidy
  options := by rw [hu.builds.grows.options_eq, hu'.builds.grows.options_eq, h.options]
  names name hname := by
    rw [hu.continues.referent?_eq, hu'.continues.referent?_eq]
    exact rel_imp (h.names name hname) fun r _ r' _ hr =>
      hr.grows hu.builds.grows hu'.builds.grows

end CheckState

/-- Names that mean twins are used alike. -/
theorem twinned_applyReferent (name : String) {args args' : List (TypeId × Span)}
    (span span' : Span) {r r' : Referent} (hs : s.Tidy) (hs' : s'.Tidy)
    (hoptions : s.table.options = s'.table.options)
    (hargs : List.Forall₂ (fun arg arg' => Twins s.table s'.table arg.1 arg'.1) args args')
    (hr : r.Twins s.table s'.table r') :
    Twinned (applyReferent name args span r) s (applyReferent name args' span' r') s' := by
  have hlength := hargs.length_eq
  cases hr with
  | plain hij =>
    have hempty : args.isEmpty = args'.isEmpty := by cases hargs <;> rfl
    rw [applyReferent, applyReferent, hempty]
    split
    · exact .pure hs hs' hij
    · exact twinned_reportAny _ _ hs hs'
  | relation d =>
    rw [applyReferent, applyReferent, hlength]
    split
    · exact twinned_reportAny _ _ hs hs'
    · exact twinned_evaluate d.operator span span' hs hs' hoptions hargs

/-! ## Expressions -/

variable {names : List String}

/-- Two expressions resolve to twins in any two states in which the names stand for twins. -/
def ResolveAlike (names : List String) (e e' : TypeExpr) : Prop :=
  ∀ s s' : CheckState, e.names ⊆ names → s.Counterparts names s' →
    Twinned (resolve e) s (resolve e') s'

/-- Expressions without spans in common are resolved alike, one by one. -/
theorem alike_resolveAll {es es' : List TypeExpr} (h : List.Forall₂ (ResolveAlike names) es es')
    (hnames : namesOfAll es ⊆ names) (hs : s.Counterparts names s') :
    Alike (resolveAll es) s (resolveAll es') s' fun is js T U =>
      List.Forall₂ (Twins T U) is js := by
  induction h generalizing s s' with
  | nil => exact .pure hs.left hs.right .nil
  | @cons e e' es es' he _ ih =>
    obtain ⟨hfirst, hrest⟩ := List.append_subset.mp hnames
    rw [resolveAll, resolveAll]
    refine (he s s' hfirst hs).bind fun i j u u' hu hu' hij => ?_
    refine (ih hrest (hs.develops hu hu')).bind fun is js v v' hv hv' hisjs => ?_
    exact .pure hv.tidy hv'.tidy (.cons (hij.grows hv.builds.grows hv'.builds.grows) hisjs)

/-- Properties without spans in common are resolved alike, one by one. -/
theorem alike_resolveProperties {ps ps' : List PropertyExpr}
    (h : List.Forall₂ (PropertyExpr.Matches (ResolveAlike names)) ps ps')
    (hnames : namesOfProperties ps ⊆ names) (hs : s.Counterparts names s') :
    Alike (resolveProperties ps) s (resolveProperties ps') s' fun qs qs' T U =>
      List.Forall₂ (Property.Matches (Twins T U)) qs qs' := by
  induction h generalizing s s' with
  | nil => exact .pure hs.left hs.right .nil
  | @cons p p' ps ps' hp _ ih =>
    obtain ⟨hfirst, hrest⟩ := List.append_subset.mp hnames
    have hproperty : Alike (resolveProperty p) s (resolveProperty p') s' fun q q' T U =>
        q.Matches (Twins T U) q' := by
      rw [resolveProperty_eq, resolveProperty_eq]
      cases p
      refine (hp.type s s' hfirst hs).bind fun i j u u' hu hu' hij => ?_
      exact .pure hu.tidy hu'.tidy ⟨hp.name, hp.optional, hp.readonly, hij⟩
    rw [resolveProperties, resolveProperties]
    refine hproperty.bind fun q q' u u' hu hu' hq => ?_
    refine (ih hrest (hs.develops hu hu')).bind fun qs qs' v v' hv hv' hqs => ?_
    refine .pure hv.tidy hv'.tidy (.cons ⟨hq.name, hq.optional, hq.readonly, ?_⟩ hqs)
    exact hq.type.grows hv.builds.grows hv'.builds.grows

/-- The same text resolves to twins where its names stand for twins. -/
theorem twinned_resolve {e e' : TypeExpr} (h : e.bare = e'.bare) : ResolveAlike names e e' := by
  -- form by form: names mean twins, and each constructor makes twins of twins
  apply TypeExpr.bareInduction (P := ResolveAlike names) (h := h)
  case named =>
    intro name args args' span span' hargs s s' hnames hs
    rw [TypeExpr.names, List.cons_subset] at hnames
    have hresolve : ∀ {u u' : CheckState}, u.Counterparts names u' →
        Alike (resolveAll args) u (resolveAll args') u' fun is js T U =>
          List.Forall₂ (Twins T U) is js := fun hu => alike_resolveAll hargs hnames.2 hu
    rw [resolve, resolve]
    refine .get ?_
    -- in both states the name stands for nothing, or what it stands for are twins
    have hrel := hs.names name hnames.1
    revert hrel
    generalize s.referent? name = r, s'.referent? name = r'
    rintro (hr | _)
    · refine (hresolve hs).bind fun is js u u' hu hu' hisjs => ?_
      have hspans : List.Forall₂ (fun _ _ => True) (args.map TypeExpr.span)
          (args'.map TypeExpr.span) := by
        rw [List.forall₂_map_left_iff, List.forall₂_map_right_iff]
        exact hargs.imp fun _ _ _ => trivial
      refine twinned_applyReferent name span span' hu.tidy hu'.tidy (hs.develops hu hu').options
        ((forall₂_zip_zip hisjs hspans).imp fun _ _ h => h.1) ?_
      exact hr.grows hu.builds.grows hu'.builds.grows
    · refine (alike_report _ _ hs.left hs.right).bind fun _ _ u u' hu hu' _ => ?_
      refine (hresolve (hs.develops hu hu')).bind fun _ _ v v' hv hv' _ => ?_
      exact .pure hv.tidy hv'.tidy
        (twins_any hv.tidy.table.hasBuiltins hv'.tidy.table.hasBuiltins)
  case number =>
    intro value span span' s s' _ hs
    exact twinned_buildOrAny span span' hs.left hs.right (twinned_numberLiteral value)
  case bigint =>
    intro digits span span' s s' _ hs
    exact twinned_buildOrAny span span' hs.left hs.right (twinned_bigintLiteral digits)
  case string =>
    intro value span span' s s' _ hs
    exact alike_interning hs.left hs.right (twinned_literal (l := .string value) trivial)
  case union =>
    intro members members' span span' hmembers s s' hnames hs
    refine (alike_resolveAll hmembers hnames hs).bind fun is js u u' hu hu' hisjs => ?_
    exact alike_interning hu.tidy hu'.tidy (twinned_unionOf hu.tidy.table.hasBuiltins
      hu'.tidy.table.hasBuiltins (.of_forall₂ hisjs))
  case intersection =>
    intro members members' span span' hmembers s s' hnames hs
    refine (alike_resolveAll hmembers hnames hs).bind fun is js u u' hu hu' hisjs => ?_
    exact twinned_buildOrAny span span' hu.tidy hu'.tidy (twinned_intersectionOf
      hu.tidy.table.hasBuiltins hu'.tidy.table.hasBuiltins (hs.develops hu hu').options
      (.of_forall₂ hisjs))
  case array =>
    intro element element' readonly span span' helement s s' hnames hs
    refine (helement s s' hnames hs).bind fun i j u u' hu hu' hij => ?_
    exact alike_interning hu.tidy hu'.tidy (twinned_intern (t := .array i readonly)
      (u := .array j readonly) trivial (by simpa [Ty.parts] using hij.left) trivial
      (by simpa [Ty.parts] using hij.right) ⟨hij, rfl⟩)
  case tuple =>
    intro elements elements' readonly span span' helements s s' hnames hs
    refine (alike_resolveAll helements hnames hs).bind fun is js u u' hu hu' hisjs => ?_
    obtain ⟨his, hjs⟩ := canonical_of_same (.of_forall₂ hisjs)
    exact alike_interning hu.tidy hu'.tidy (twinned_intern (t := .tuple is readonly)
      (u := .tuple js readonly) trivial his trivial hjs ⟨hisjs, rfl⟩)
  case object =>
    intro properties properties' span span' hproperties s s' hnames hs
    refine (alike_resolveProperties hproperties hnames hs).bind fun ps qs u u' hu hu' hps => ?_
    exact twinned_buildOrAny span span' hu.tidy hu'.tidy (twinned_objectOf hps)

end TypeAssay
