import TypeAssay.Proofs.Checking

/-!
# What checking records

Checking only ever adds to what it has found: an error that is recorded stays recorded, an alias
stays declared, and resolving an expression touches neither aliases nor expressions. So a sequence
of steps is quiet, that is, records no error, only if each of its steps is (`Quiet.of_bind`), and
what a quiet computation answers can be told from its parts alone (`Quietly.bind`).

* `continues_resolve` : resolving changes the table and adds errors, nothing else.
* `checkAlias_cases` : a declaration declares a new name, or it is refused with an error.
* `proceeds_checkItems` : checking items adds aliases, expressions and errors.
* `alias?_checkItem` : an item that does not declare a name leaves its meaning alone.
-/

namespace TypeAssay

open TypeTable Checking

/-! ## Expressions -/

namespace TypeExpr

/-- Induction on expressions: what holds of an expression if it holds of its parts. -/
@[elab_as_elim]
theorem induction {P : TypeExpr → Prop}
    (named : ∀ name args span, (∀ a ∈ args, P a) → P (.named name args span))
    (number : ∀ value span, P (.number value span))
    (bigint : ∀ digits span, P (.bigint digits span))
    (string : ∀ value span, P (.string value span))
    (union : ∀ members span, (∀ m ∈ members, P m) → P (.union members span))
    (intersection : ∀ members span, (∀ m ∈ members, P m) → P (.intersection members span))
    (array : ∀ element readonly span, P element → P (.array element readonly span))
    (tuple : ∀ elements readonly span, (∀ e ∈ elements, P e) → P (.tuple elements readonly span))
    (object : ∀ properties span, (∀ p ∈ properties, P p.type) → P (.object properties span))
    (e : TypeExpr) : P e :=
  @TypeExpr.rec P (fun p => P p.type) (fun es => ∀ e ∈ es, P e) (fun ps => ∀ p ∈ ps, P p.type)
    named number bigint string union intersection array tuple object
    (fun _ _ _ _ _ h => h)
    (fun _ h => absurd h List.not_mem_nil)
    (fun _ _ he hes => List.forall_mem_cons.mpr ⟨he, hes⟩)
    (fun _ h => absurd h List.not_mem_nil)
    (fun _ _ hp hps => List.forall_mem_cons.mpr ⟨hp, hps⟩)
    e

end TypeExpr

mutual

/-- The names that an expression mentions. -/
def TypeExpr.names : TypeExpr → List String
  | .named name args _ => name :: namesOfAll args
  | .number _ _ | .bigint _ _ | .string _ _ => []
  | .union members _ | .intersection members _ => namesOfAll members
  | .array element _ _ => element.names
  | .tuple elements _ _ => namesOfAll elements
  | .object properties _ => namesOfProperties properties

/-- The names that some expressions mention. -/
def namesOfAll : List TypeExpr → List String
  | [] => []
  | e :: rest => e.names ++ namesOfAll rest

def PropertyExpr.names : PropertyExpr → List String
  | .mk _ type _ _ _ => type.names

/-- The names that the types of some properties mention. -/
def namesOfProperties : List PropertyExpr → List String
  | [] => []
  | p :: rest => p.names ++ namesOfProperties rest

end

/-- The names of expressions are those of each of them. -/
theorem mem_namesOfAll {name : String} {es : List TypeExpr} :
    name ∈ namesOfAll es ↔ ∃ e ∈ es, name ∈ e.names := by
  induction es with
  | nil => simp [namesOfAll]
  | cons e rest ih => simp [namesOfAll, ih]

/-- The names of properties are those of their types. -/
theorem mem_namesOfProperties {name : String} {ps : List PropertyExpr} :
    name ∈ namesOfProperties ps ↔ ∃ p ∈ ps, name ∈ p.type.names := by
  induction ps with
  | nil => simp [namesOfProperties]
  | cons p rest ih =>
    cases p
    simp [namesOfProperties, PropertyExpr.names, PropertyExpr.type, ih]

/-- The names that an item mentions. An alias does not mention the name that it declares. -/
def Item.names : Item → List String
  | .alias d => d.value.names
  | .expr e => e.names

namespace Item

/-- The name that an item declares. The name of a built-in type is refused. -/
def declares? : Item → Option String
  | .alias d => if (TypeId.ofName? d.name).isSome then none else some d.name
  | .expr _ => none

/-- An alias with a name that is free declares it. -/
theorem declares?_alias {d : AliasDecl} (h : TypeId.ofName? d.name = none) :
    (Item.alias d).declares? = some d.name := by
  rw [declares?, h]
  rfl

/-- Only an alias with a free name declares one. -/
theorem exists_alias_of_declares? {item : Item} {name : String} (h : item.declares? = some name) :
    ∃ d, item = .alias d ∧ TypeId.ofName? d.name = none ∧ d.name = name := by
  rcases item with d | e
  · rw [declares?] at h
    split at h
    · exact absurd h (by simp)
    · rename_i hbuiltin
      exact ⟨d, rfl, Option.not_isSome_iff_eq_none.mp hbuiltin, Option.some.inj h⟩
  · exact absurd h (by simp [declares?])

end Item

/-! ## States that come later -/

namespace CheckState

variable {s s' s'' : CheckState} {name : String}

/-- `s'` has the aliases and the expressions of `s`, and its errors and maybe more. -/
structure Continues (s s' : CheckState) : Prop where
  aliases : s'.aliases = s.aliases
  expressions : s'.expressions = s.expressions
  errors : s.errors <+: s'.errors

theorem Continues.refl (s : CheckState) : s.Continues s := ⟨rfl, rfl, List.prefix_refl _⟩

theorem Continues.trans (h : s.Continues s') (h' : s'.Continues s'') : s.Continues s'' :=
  ⟨h'.aliases.trans h.aliases, h'.expressions.trans h.expressions, h.errors.trans h'.errors⟩

/-- A name means the same in both states. -/
theorem Continues.referent?_eq (h : s.Continues s') (name : String) :
    s'.referent? name = s.referent? name := by
  unfold referent? alias?
  rw [h.aliases]

/-- `s'` has what was found in `s`, and maybe more. -/
structure Precedes (s s' : CheckState) : Prop where
  aliases : s.aliases <+: s'.aliases
  expressions : s.expressions <+: s'.expressions
  errors : s.errors <+: s'.errors

theorem Precedes.refl (s : CheckState) : s.Precedes s :=
  ⟨List.prefix_refl _, List.prefix_refl _, List.prefix_refl _⟩

theorem Precedes.trans (h : s.Precedes s') (h' : s'.Precedes s'') : s.Precedes s'' :=
  ⟨h.aliases.trans h'.aliases, h.expressions.trans h'.expressions, h.errors.trans h'.errors⟩

theorem Continues.precedes (h : s.Continues s') : s.Precedes s' where
  aliases := h.aliases ▸ List.prefix_refl _
  expressions := h.expressions ▸ List.prefix_refl _
  errors := h.errors

end CheckState

namespace Checking

variable {α β : Type} {s s' : CheckState} {m : Checking α} {f : α → Checking β}

/-! ## Computations that only add errors -/

/-- `m` may build types and record errors; it changes nothing else. -/
def Continues (m : Checking α) : Prop := ∀ s : CheckState, s.Continues (m.run s).2

theorem continues_pure (a : α) : (pure a : Checking α).Continues := fun s => .refl s

theorem continues_get : (get : Checking CheckState).Continues := fun s => .refl s

theorem Continues.bind (hm : m.Continues) (hf : ∀ a, (f a).Continues) : (m >>= f).Continues :=
  fun s => (hm s).trans (hf _ _)

/-- To report an error adds it. -/
theorem continues_report (e : CheckError) : (report e).Continues :=
  fun s => ⟨rfl, rfl, List.prefix_append s.errors [e]⟩

/-- To build a type leaves the records as they are. -/
theorem continues_build (m : Building α) : (build m).Continues :=
  fun _ => ⟨rfl, rfl, List.prefix_refl _⟩

/-- To enter a type leaves the records as they are. -/
theorem continues_interning (m : Interning α) : (interning m).Continues :=
  fun _ => ⟨rfl, rfl, List.prefix_refl _⟩

/-- The answer after an error does not matter. -/
theorem continues_reportAnd (e : CheckError) (a : α) :
    Continues (do report e; return a) :=
  (continues_report e).bind fun _ => continues_pure a

/-- A type that cannot be built adds an error. -/
theorem continues_buildOrAny (m : Building TypeId) (span : Span) :
    (buildOrAny m span).Continues := by
  unfold buildOrAny
  refine (continues_build m).bind fun answer => ?_
  cases answer with
  | ok i => exact continues_pure i
  | error e => exact continues_reportAnd _ _

/-- A constraint that is not met adds an error. -/
theorem continues_checkConstraint (m : Building Unit) (span : Span) :
    (checkConstraint m span).Continues := by
  unfold checkConstraint
  refine (continues_build m).bind fun answer => ?_
  cases answer with
  | ok _ => exact continues_pure ()
  | error e => exact continues_report _

/-! ## Computations that only add to what was found -/

/-- `m` keeps what was found. -/
def Proceeds (m : Checking α) : Prop := ∀ s : CheckState, s.Precedes (m.run s).2

/-- What only adds errors keeps what was found. -/
theorem Continues.proceeds (h : m.Continues) : m.Proceeds := fun s => (h s).precedes

theorem Proceeds.bind (hm : m.Proceeds) (hf : ∀ a, (f a).Proceeds) : (m >>= f).Proceeds :=
  fun s => (hm s).trans (hf _ _)

/-! ## Quiet computations -/

/-- `m` records no error in the state `s`. -/
def Quiet (m : Checking α) (s : CheckState) : Prop := (m.run s).2.errors = s.errors

/-- Two computations in a row are quiet only if both are: what the first records stays. -/
theorem Quiet.of_bind (hfirst : s.errors <+: (m.run s).2.errors)
    (hsecond : (m.run s).2.errors <+: ((f (m.run s).1).run (m.run s).2).2.errors)
    (h : (m >>= f).Quiet s) : m.Quiet s ∧ (f (m.run s).1).Quiet (m.run s).2 := by
  have hend : ((f (m.run s).1).run (m.run s).2).2.errors = s.errors := h
  have hmid : (m.run s).2.errors = s.errors :=
    -- the errors at the end are those at the start, and those between lie between
    (hend ▸ hsecond).eq_of_length_le hfirst.length_le
  exact ⟨hmid, hend.trans hmid.symm⟩

/-- To report an error is not quiet. -/
theorem not_quiet_report (e : CheckError) : ¬ (report e).Quiet s := by
  intro h
  have hlength : (s.errors ++ [e]).length = s.errors.length := congrArg List.length h
  rw [List.length_append, List.length_singleton] at hlength
  omega

/-- What records an error first is not quiet, whatever follows. -/
theorem not_quiet_report_bind {e : CheckError} {f : Unit → Checking β}
    (hf : ∀ u, (f u).Continues) : ¬ Quiet (report e >>= f) s := fun h =>
  not_quiet_report e (h.of_bind (continues_report e s).errors (hf _ _).errors).1

/-- Where building is quiet, and failing would not be, there is something that was built. -/
theorem Quiet.of_build {m : Building α} {f : Except TypeError α → Checking β}
    (hf : ∀ e s, ¬ (f (.error e)).Quiet s) (h : (build m >>= f).Quiet s) :
    ∃ a U, m.on s.table = (.ok a, U) ∧
      (build m >>= f).run s = (f (.ok a)).run { s with table := U } := by
  rcases hm : m.on s.table with ⟨answer, U⟩
  have hrun : (build m >>= f).run s = (f answer).run { s with table := U } := by
    rw [run_build_bind, hm]
  cases answer with
  | ok a => exact ⟨a, U, rfl, hrun⟩
  | error e =>
    rw [Quiet, hrun] at h
    exact absurd h (hf e { s with table := U })

/-- Where `any` would be a replacement, being quiet means that none was needed. -/
theorem Quiet.of_buildOrAny {m : Building TypeId} {span : Span}
    (h : (buildOrAny m span).Quiet s) :
    ∃ i U, m.on s.table = (.ok i, U) ∧ (buildOrAny m span).run s = (i, { s with table := U }) :=
  Quiet.of_build (fun _ _ => not_quiet_report_bind fun _ => continues_pure _) h

/-- Where a constraint is quiet, it is met. -/
theorem Quiet.of_checkConstraint {m : Building Unit} {span : Span}
    (h : (checkConstraint m span).Quiet s) :
    ∃ U, m.on s.table = (.ok (), U) ∧
      (checkConstraint m span).run s = ((), { s with table := U }) := by
  obtain ⟨_, U, hon, hrun⟩ := Quiet.of_build (fun _ _ => not_quiet_report _) h
  exact ⟨U, hon, hrun⟩

/-! ### Their answers -/

/-- If `m` is quiet, its answer and the state that it leaves satisfy `Q`. -/
def Quietly (m : Checking α) (s : CheckState) (Q : α → CheckState → Prop) : Prop :=
  m.Quiet s → Q (m.run s).1 (m.run s).2

variable {P : α → TypeTable → Prop} {Q Q' : α → CheckState → Prop} {R : β → CheckState → Prop}

theorem Quietly.pure {a : α} (h : Q a s) : Quietly (Pure.pure a) s Q := fun _ => h

theorem Quietly.get {f : CheckState → Checking β} (h : (f s).Quietly s R) :
    Quietly (MonadState.get >>= f) s R := h

/-- A weaker condition holds as well. -/
theorem Quietly.mono (h : m.Quietly s Q) (hQ : ∀ a s', Q a s' → Q' a s') : m.Quietly s Q' :=
  fun hquiet => hQ _ _ (h hquiet)

/-- The first computation is quiet, too, and what it yields is known in any case. -/
theorem Quietly.bind (hyields : m.Yields s P) (hm : m.Continues) (hf : ∀ a, (f a).Continues)
    (h : m.Quietly s Q)
    (h' : ∀ a s', s'.Tidy → s.table.Builds s'.table → s.Continues s' → P a s'.table → Q a s' →
      (f a).Quietly s' R) : Quietly (m >>= f) s R := by
  intro hquiet
  obtain ⟨hquietm, hquietf⟩ := hquiet.of_bind (hm s).errors (hf _ _).errors
  obtain ⟨hbuilds, htidy, hP⟩ := hyields
  exact h' _ _ htidy hbuilds (hm s) hP (h hquietm) hquietf

/-- What reports an error is not quiet. -/
theorem Quietly.report {e : CheckError} {f : Unit → Checking β} (hf : ∀ u, (f u).Continues) :
    Quietly (report e >>= f) s R := fun h => absurd h (not_quiet_report_bind hf)

/-- Of a quiet computation only the type that was built matters. -/
theorem quietly_buildOrAny {m : Building TypeId} {span : Span} {Q : TypeId → CheckState → Prop}
    (h : ∀ i U, m.on s.table = (.ok i, U) → Q i { s with table := U }) :
    (buildOrAny m span).Quietly s Q := by
  intro hquiet
  obtain ⟨i, U, hon, hrun⟩ := hquiet.of_buildOrAny
  rw [hrun]
  exact h i U hon

end Checking

/-! ## Resolving -/

/-- Operators only add errors. -/
theorem continues_evaluate (op : Operator) (args : List (TypeId × Span)) (span : Span) :
    (evaluate op args span).Continues := by
  rw [evaluate.eq_def]
  split
  · exact continues_get.bind fun _ => continues_pure _
  · exact continues_buildOrAny _ _
  · exact (continues_checkConstraint _ _).bind fun _ => continues_buildOrAny _ _
  · exact (continues_checkConstraint _ _).bind fun _ => continues_buildOrAny _ _
  · exact continues_pure _

/-- Whatever a name means, its use only adds errors. -/
theorem continues_applyReferent (name : String) (args : List (TypeId × Span)) (span : Span)
    (r : Referent) : (applyReferent name args span r).Continues := by
  cases r with
  | plain i =>
    rw [applyReferent]
    split
    · exact continues_pure i
    · exact continues_reportAnd _ _
  | relation d =>
    rw [applyReferent]
    split
    · exact continues_reportAnd _ _
    · exact continues_evaluate _ _ _

/-- Expressions only add errors if each of them does. -/
theorem continues_resolveAll {es : List TypeExpr} (h : ∀ e ∈ es, (resolve e).Continues) :
    (resolveAll es).Continues := by
  induction es with
  | nil => exact continues_pure []
  | cons e rest ih =>
    rw [resolveAll]
    refine (h e List.mem_cons_self).bind fun _ => ?_
    exact (ih fun e he => h e (List.mem_cons_of_mem _ he)).bind fun _ => continues_pure _

/-- A property only adds errors if its type does. -/
theorem continues_resolveProperty {p : PropertyExpr} (h : (resolve p.type).Continues) :
    (resolveProperty p).Continues := by
  cases p
  exact h.bind fun _ => continues_pure _

/-- Properties only add errors if their types do. -/
theorem continues_resolveProperties {ps : List PropertyExpr}
    (h : ∀ p ∈ ps, (resolve p.type).Continues) : (resolveProperties ps).Continues := by
  induction ps with
  | nil => exact continues_pure []
  | cons p rest ih =>
    rw [resolveProperties]
    refine (continues_resolveProperty (h p List.mem_cons_self)).bind fun _ => ?_
    exact (ih fun p hp => h p (List.mem_cons_of_mem _ hp)).bind fun _ => continues_pure _

/-- Resolving an expression changes the table and adds errors, nothing else. -/
theorem continues_resolve (e : TypeExpr) : (resolve e).Continues := by
  -- by induction on the expression; a name that means nothing is reported, and its arguments are
  -- still resolved
  induction e using TypeExpr.induction with
  | named name args span ih =>
    have hargs := continues_resolveAll ih
    rw [resolve]
    refine continues_get.bind fun s => ?_
    cases s.referent? name with
    | none =>
      exact (continues_report _).bind fun _ => hargs.bind fun _ => continues_pure _
    | some r => exact hargs.bind fun _ => continues_applyReferent _ _ _ r
  | number value span => exact continues_buildOrAny _ _
  | bigint digits span => exact continues_buildOrAny _ _
  | string value span => exact continues_interning _
  | union members span ih => exact (continues_resolveAll ih).bind fun _ => continues_interning _
  | intersection members span ih =>
    exact (continues_resolveAll ih).bind fun _ => continues_buildOrAny _ _
  | array element readonly span ih => exact ih.bind fun _ => continues_interning _
  | tuple elements readonly span ih =>
    exact (continues_resolveAll ih).bind fun _ => continues_interning _
  | object properties span ih =>
    exact (continues_resolveProperties ih).bind fun _ => continues_buildOrAny _ _

/-! ### Quietly -/

section

variable {s : CheckState} {H : CheckState → Prop} {Q : TypeExpr → TypeId → CheckState → Prop}

/-- What quiet expressions resolve to, one after the other. What is assumed of the state (`H`) must
survive resolving, and what is known of an answer (`Q`) must stay true while the others resolve. -/
theorem quietly_resolveAll {es : List TypeExpr}
    (hH : ∀ s s', s.Tidy → s.table.Builds s'.table → s.Continues s' → H s → H s')
    (hQ : ∀ e i s s', s.table.Builds s'.table → s.Continues s' → Q e i s → Q e i s')
    (h : ∀ e ∈ es, ∀ s, s.Tidy → H s → (resolve e).Quietly s (Q e)) (hs : s.Tidy) (hHs : H s) :
    (resolveAll es).Quietly s fun is s' => List.Forall₂ (fun e i => Q e i s') es is := by
  induction es generalizing s with
  | nil => exact .pure .nil
  | cons e rest ih =>
    rw [resolveAll]
    have hrest : (resolveAll rest).Continues := continues_resolveAll fun e _ => continues_resolve e
    refine .bind (yields_resolve e s hs) (continues_resolve e)
      (fun _ => hrest.bind fun _ => continues_pure _) (h e List.mem_cons_self s hs hHs)
      fun i s' hs' hb hc _ hi => ?_
    refine .bind (yields_resolveAll rest s' hs') hrest (fun _ => continues_pure _)
      (ih (fun e he => h e (List.mem_cons_of_mem _ he)) hs' (hH s s' hs hb hc hHs))
      fun is s'' _ hb' hc' _ his => ?_
    exact .pure (.cons (hQ e i s' s'' hb' hc' hi) his)

/-- The property that an expression for one resolves to, if its type resolves to `i`. -/
def PropertyExpr.resolved (p : PropertyExpr) (i : TypeId) : Property :=
  { name := p.name, type := i, optional := p.optional, readonly := p.readonly }

/-- A property is resolved by resolving its type. -/
theorem resolveProperty_eq (p : PropertyExpr) :
    resolveProperty p = do return p.resolved (← resolve p.type) := by
  cases p
  rfl

/-- The same for properties. -/
theorem quietly_resolveProperties {ps : List PropertyExpr}
    (hH : ∀ s s', s.Tidy → s.table.Builds s'.table → s.Continues s' → H s → H s')
    (hQ : ∀ e i s s', s.table.Builds s'.table → s.Continues s' → Q e i s → Q e i s')
    (h : ∀ p ∈ ps, ∀ s, s.Tidy → H s → (resolve p.type).Quietly s (Q p.type)) (hs : s.Tidy)
    (hHs : H s) :
    (resolveProperties ps).Quietly s fun qs s' =>
      List.Forall₂ (fun p q => Q p.type q.type s' ∧ q = p.resolved q.type) ps qs := by
  -- by induction on the properties, each of which starts in the state that the last has left
  induction ps generalizing s with
  | nil => exact .pure .nil
  | cons p rest ih =>
    rw [resolveProperties]
    have hrest : (resolveProperties rest).Continues :=
      continues_resolveProperties fun p _ => continues_resolve p.type
    have hp : (resolveProperty p).Quietly s fun q s' =>
        Q p.type q.type s' ∧ q = p.resolved q.type := by
      rw [resolveProperty_eq]
      refine .bind (yields_resolve p.type s hs) (continues_resolve p.type)
        (fun _ => continues_pure _) (h p List.mem_cons_self s hs hHs) fun i s' _ _ _ _ hi => ?_
      exact .pure ⟨hi, rfl⟩
    refine .bind (yields_resolveProperty p s hs) (continues_resolveProperty (continues_resolve _))
      (fun _ => hrest.bind fun _ => continues_pure _) hp fun q s' hs' hb hc _ hq => ?_
    refine .bind (yields_resolveProperties rest s' hs') hrest (fun _ => continues_pure _)
      (ih (fun p hp => h p (List.mem_cons_of_mem _ hp)) hs' (hH s s' hs hb hc hHs))
      fun qs s'' _ hb' hc' _ hqs => ?_
    exact .pure (.cons ⟨hQ _ _ s' s'' hb' hc' hq.1, hq.2⟩ hqs)

end

/-! ## Items -/

section

variable {d : AliasDecl} {s : CheckState} {name : String}

/-- To resolve an expression declares nothing. -/
theorem alias?_resolve (e : TypeExpr) (s : CheckState) (name : String) :
    ((resolve e).run s).2.alias? name = s.alias? name := by
  rw [CheckState.alias?, (continues_resolve e s).aliases, CheckState.alias?]

/-- A name that no built-in type has is checked once its value is resolved. -/
theorem run_checkAlias (hname : TypeId.ofName? d.name = none) :
    (checkAlias d).run s =
      StateT.run (match s.alias? d.name with
        | some first => report ⟨.duplicateAlias d.name first.nameSpan, d.nameSpan⟩
        | none => modify fun s' => { s' with
            aliases := s'.aliases ++ [⟨d.name, ((resolve d.value).run s).1, d.nameSpan⟩] })
        ((resolve d.value).run s).2 := by
  rw [checkAlias, hname, Option.isSome_none, if_neg (by decide), StateT.run_bind,
    ← alias?_resolve d.value s]
  rfl

/-- The state in which a new name is declared. -/
def CheckState.declare (d : AliasDecl) (s : CheckState) : CheckState :=
  { ((resolve d.value).run s).2 with
    aliases := s.aliases ++ [⟨d.name, ((resolve d.value).run s).1, d.nameSpan⟩] }

/-- The new name stands for what its value resolves to. -/
theorem CheckState.alias?_declare_self (hnew : s.alias? d.name = none) :
    (s.declare d).alias? d.name = some ⟨d.name, ((resolve d.value).run s).1, d.nameSpan⟩ := by
  rw [alias?] at hnew
  simp [declare, alias?, List.find?_append, hnew]

/-- A declaration does not concern other names. -/
theorem CheckState.alias?_declare_of_ne (hne : d.name ≠ name) :
    (s.declare d).alias? name = s.alias? name := by
  have hlast : (d.name == name) = false := by simpa using hne
  simp [declare, alias?, List.find?_append, hlast]

/-- A new name that no built-in type has is declared. -/
theorem run_checkAlias_of_new (hname : TypeId.ofName? d.name = none)
    (hnew : s.alias? d.name = none) : (checkAlias d).run s = ((), s.declare d) := by
  rw [run_checkAlias hname, hnew, CheckState.declare, ← (continues_resolve d.value s).aliases]
  rfl

/-- A declaration that is refused declares nothing and records an error. -/
theorem checkAlias_of_refused
    (h : TypeId.ofName? d.name ≠ none ∨ s.alias? d.name ≠ none) :
    s.Continues ((checkAlias d).run s).2 ∧ ¬ (checkAlias d).Quiet s := by
  have hvalue := continues_resolve d.value
  -- a name that is taken is an error of its own, before or after the value
  cases hname : TypeId.ofName? d.name with
  | some i =>
    have hrest : ∀ u : Unit, Continues (do let _ ← resolve d.value) := fun _ =>
      hvalue.bind fun _ => continues_pure ()
    rw [checkAlias, hname, Option.isSome_some, if_pos rfl]
    exact ⟨(continues_report _).bind hrest s, not_quiet_report_bind hrest⟩
  | none =>
    obtain ⟨first, hfirst⟩ := Option.ne_none_iff_exists'.mp (h.resolve_left (not_not_intro hname))
    rw [Quiet, run_checkAlias hname, hfirst]
    refine ⟨(hvalue s).trans (continues_report _ _), fun hquiet => ?_⟩
    have hle := (hvalue s).errors.length_le
    have hlength : (((resolve d.value).run s).2.errors ++ [_]).length = s.errors.length :=
      congrArg List.length hquiet
    rw [List.length_append, List.length_singleton] at hlength
    omega

/-- All that checking a declaration can do: it declares a new name, or it refuses the name. -/
theorem checkAlias_cases (d : AliasDecl) (s : CheckState) :
    (TypeId.ofName? d.name = none ∧ s.alias? d.name = none ∧
      (checkAlias d).run s = ((), s.declare d)) ∨
    ((TypeId.ofName? d.name ≠ none ∨ s.alias? d.name ≠ none) ∧
      s.Continues ((checkAlias d).run s).2 ∧ ¬ (checkAlias d).Quiet s) := by
  by_cases hrefused : TypeId.ofName? d.name ≠ none ∨ s.alias? d.name ≠ none
  · exact .inr ⟨hrefused, checkAlias_of_refused hrefused⟩
  · rw [not_or, not_not, not_not] at hrefused
    exact .inl ⟨hrefused.1, hrefused.2, run_checkAlias_of_new hrefused.1 hrefused.2⟩

/-- A declaration that records no error declares a new name. -/
theorem Checking.Quiet.of_checkAlias (h : (checkAlias d).Quiet s) :
    TypeId.ofName? d.name = none ∧ s.alias? d.name = none ∧ (resolve d.value).Quiet s := by
  obtain ⟨hname, hnew, hrun⟩ | ⟨-, -, hloud⟩ := checkAlias_cases d s
  · rw [Quiet, hrun] at h
    exact ⟨hname, hnew, h⟩
  · exact absurd h hloud

/-- An expression of the file is recorded with its span. -/
theorem run_checkItem_expr (e : TypeExpr) (s : CheckState) :
    (checkItem (.expr e)).run s = ((), { ((resolve e).run s).2 with
      expressions := s.expressions ++ [(e.span, ((resolve e).run s).1)] }) := by
  rw [checkItem, StateT.run_bind, ← (continues_resolve e s).expressions]
  rfl

/-- An alias keeps what was found. -/
theorem proceeds_checkAlias (d : AliasDecl) : (checkAlias d).Proceeds := by
  intro s
  obtain ⟨-, -, hrun⟩ | ⟨-, hcontinues, -⟩ := checkAlias_cases d s
  · rw [hrun]
    have hcontinues := continues_resolve d.value s
    exact ⟨List.prefix_append _ _, hcontinues.precedes.expressions, hcontinues.errors⟩
  · exact hcontinues.precedes

/-- An item keeps what was found. -/
theorem proceeds_checkItem (item : Item) : (checkItem item).Proceeds := by
  rcases item with d | e
  · exact proceeds_checkAlias d
  · intro s
    rw [run_checkItem_expr]
    have hcontinues := continues_resolve e s
    exact ⟨hcontinues.precedes.aliases, List.prefix_append _ _, hcontinues.errors⟩

/-- Checking items adds to what was found. -/
theorem proceeds_checkItems (items : List Item) : (checkItems items).Proceeds := by
  induction items with
  | nil => exact (continues_pure ()).proceeds
  | cons item rest ih => exact (proceeds_checkItem item).bind fun _ => ih

/-- An item that does not declare a name leaves its meaning alone. -/
theorem alias?_checkItem {item : Item} (h : item.declares? ≠ some name) (s : CheckState) :
    ((checkItem item).run s).2.alias? name = s.alias? name := by
  rcases item with d | e
  · show ((checkAlias d).run s).2.alias? name = _
    obtain ⟨hname, -, hrun⟩ | ⟨-, hcontinues, -⟩ := checkAlias_cases d s
    · rw [hrun]
      refine CheckState.alias?_declare_of_ne fun hd => h ?_
      rw [Item.declares?_alias hname, hd]
    · rw [CheckState.alias?, hcontinues.aliases]
      rfl
  · rw [run_checkItem_expr, CheckState.alias?, (continues_resolve e s).aliases]
    rfl

end

end TypeAssay
