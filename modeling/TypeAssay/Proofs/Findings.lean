import TypeAssay.Proofs.Constituents
import TypeAssay.Proofs.Equality

/-!
# What checking finds in an expression

Each error that resolving an expression records is about one expression in it. `e.Blames err` says
which errors an expression can have of its own, and `e.Finds errors` in which order the errors of an
expression come: those of its parts one after the other, and its own one, of which there is one at
most, before or behind them (`adds_resolve`).

Relations find nothing but arguments that do not meet a constraint. Their answers are there whatever
the arguments are, for the types of a tidy table are normal forms already (`evaluate_answers`).
-/

namespace TypeAssay

open TypeTable Checking

/-! ## Relations always answer -/

section

variable {T : TypeTable} {a b i : TypeId}

/-- Canonical types have a normal form, themselves. -/
theorem gives_normalType (hb : T.HasBuiltins) (hi : T.Canonical i) :
    (NormalType.of i).Gives T fun n _ => n = ⟨i⟩ :=
  ⟨⟨i⟩, T, on_normalType_ok (on_normalize hb hi), .refl, rfl⟩

/-- Canonical types can be compared by their normal forms. -/
theorem gives_compareNormal {answer : NormalType → NormalType → Outcome} (hT : T.HasBuiltins)
    (ha : T.Canonical a) (hb : T.Canonical b) :
    Building.Gives (do return answer (← NormalType.of a) (← NormalType.of b)) T
      fun _ _ => True := by
  refine (gives_normalType hT ha).bind fun _ U hTU _ => ?_
  exact (gives_normalType (hTU.hasBuiltins hT) (hTU.canonical hb)).bind fun _ _ _ _ => .pure trivial

/-- Every comparison of canonical types answers. -/
theorem gives_compare (c : Comparison) (hT : T.HasBuiltins) (ha : T.Canonical a)
    (hb : T.Canonical b) : (c.compare a b).Gives T fun _ _ => True := by
  cases c with
  | equal | notEqual => exact gives_compareNormal hT ha hb
  | simpleEqual | extending => exact ⟨_, T, rfl, .refl, trivial⟩

/-- The elements of a canonical type can be compared with a truth value. -/
theorem gives_foldBatch (target : Bool) (hT : T.HasBuiltins) (hi : T.Canonical i) :
    (foldBatch i target).Gives T fun _ _ => True := by
  refine (yields_elementType hT hi).gives.bind fun e U hTU he => ?_
  have hU := hTU.hasBuiltins hT
  have hequal : (equal e (TypeId.ofBool target)).Gives U fun _ _ => True :=
    gives_compareNormal hU he (hU.canonical_ofBool target)
  exact hequal.bind fun matching V _ _ => ⟨_, V, rfl, .refl, trivial⟩

end

/-! ## Why types cannot be built -/

/-- If `m` fails, its error satisfies `F`. -/
def Building.FailsOnly {α : Type} (m : Building α) (T : TypeTable) (F : TypeError → Prop) : Prop :=
  ∀ e, (m.on T).1 = .error e → F e

namespace Building

variable {α : Type} {m : Building α} {T : TypeTable} {F : TypeError → Prop} {e : TypeError}

/-- What fails in an allowed way. -/
theorem FailsOnly.throw (h : F e) : FailsOnly (throw e : Building α) T F := by
  intro e' he'
  obtain rfl : e = e' := Except.error.inj he'
  exact h

/-- What only enters types does not fail. -/
theorem FailsOnly.lift (m : Interning α) : FailsOnly (monadLift m) T F := by
  intro e he
  exact absurd he (by simp [on_lift])

/-- Only what is not a number is refused as one. -/
theorem failsOnly_numberLiteral (value : Binary64) :
    (numberLiteral value).FailsOnly T fun e =>
      value.isNaN ∧ ∃ reason, e = .invalidLiteral reason := by
  rw [numberLiteral]
  split
  · exact .throw ⟨‹_›, _, rfl⟩
  · exact .lift _

/-- Only what does not spell an integer is refused as one. -/
theorem failsOnly_bigintLiteral (digits : String) :
    (bigintLiteral digits).FailsOnly T fun e =>
      canonicalBigint? digits = none ∧ ∃ reason, e = .invalidLiteral reason := by
  rw [bigintLiteral]
  split
  · exact .throw ⟨‹_›, _, rfl⟩
  · exact .lift _

/-- A name that comes twice in a row comes twice. -/
theorem two_le_count_of_repeatedName? {ps : List Property} {name : String}
    (h : repeatedName? ps = some name) : 2 ≤ (ps.map Property.name).count name := by
  fun_induction repeatedName? ps with
  | case1 p q rest hname =>
    obtain rfl := Option.some.inj h
    simp [hname]
  | case2 p q rest hname ih =>
    rw [List.map_cons]
    exact (ih h).trans (List.count_le_count_cons)
  | case3 => exact absurd h (by simp)

/-- Only an object that repeats a name is refused. -/
theorem failsOnly_objectOf (ps : List Property) :
    (objectOf ps).FailsOnly T fun e =>
      ∃ name, 2 ≤ (ps.map Property.name).count name ∧ e = .duplicateProperty name := by
  rw [objectOf]
  split
  · rename_i name hname
    have hsorted := two_le_count_of_repeatedName? hname
    rw [((perm_sortByName ps).map _).count_eq] at hsorted
    exact .throw ⟨name, hsorted, rfl⟩
  · exact .lift _

/-- Only an intersection with too many choices is refused. -/
theorem failsOnly_intersectionOf {ms : List TypeId} (hb : T.HasBuiltins)
    (h : ∀ m ∈ ms, T.Canonical m) :
    (intersectionOf ms).FailsOnly T fun e =>
      ∃ size, refusal? size T.options.maxUnionSize = some e := by
  intro e he
  by_cases hrefused : ∃ e, T.IsRefused ms e
  · obtain ⟨e', hrefused⟩ := hrefused
    rw [hrefused.on_intersectionOf] at he
    obtain rfl := Except.error.inj he
    exact ⟨_, hrefused.2⟩
  · obtain ⟨n, U, hon, -⟩ := intersectionOf_isIntersectionOf hb h hrefused
    rw [hon] at he
    exact absurd he (by simp)

/-- An assertion fails with the types that it has found. -/
theorem failsOnly_assertionConstraint {i : TypeId} (target : Bool) :
    FailsOnly (do ExceptT.mk (return (← get).assertionConstraint i target)) T fun e =>
      ∃ expected actual, e = .assertionFailed expected actual := by
  intro e he
  change T.assertionConstraint i target = .error e at he
  rw [assertionConstraint] at he
  split at he
  · exact absurd he (by simp)
  · exact ⟨_, _, (Except.error.inj he).symm⟩

/-- A batch fails with the types that it has found. -/
theorem failsOnly_batchConstraint {i : TypeId} (target : Bool) :
    (batchConstraint i target).FailsOnly T fun e =>
      ∃ expected actual, e = .batchFailed expected actual := by
  intro e he
  rw [batchConstraint, on_bind_ok (on_lift _ T), on_get_bind] at he
  split at he
  · exact absurd he (by simp [Building.on])
  · exact ⟨_, _, (Except.error.inj he).symm⟩

end Building

/-! ## Errors that are added -/

namespace Checking

variable {α β : Type} {s : CheckState} {m : Checking α} {f : α → Checking β}
  {P : α → TypeTable → Prop} {E E' R : List CheckError → Prop}

/-- The errors that `m` records in the state `s` satisfy `E`. -/
def Adds (m : Checking α) (s : CheckState) (E : List CheckError → Prop) : Prop :=
  ∃ errors, (m.run s).2.errors = s.errors ++ errors ∧ E errors

theorem Adds.pure {a : α} (h : E []) : Adds (Pure.pure a) s E :=
  ⟨[], (List.append_nil _).symm, h⟩

theorem Adds.get {f : CheckState → Checking β} (h : (f s).Adds s E) :
    Adds (MonadState.get >>= f) s E := h

theorem Adds.mono (h : m.Adds s E) (hE : ∀ errors, E errors → E' errors) : m.Adds s E' :=
  h.imp fun _ h => ⟨h.1, hE _ h.2⟩

/-- What is recorded first stands first. -/
theorem Adds.bind (hyields : m.Yields s P) (h : m.Adds s E)
    (hf : ∀ a s' errors, s'.Tidy → s.table.Builds s'.table → P a s'.table → E errors →
      (f a).Adds s' fun more => R (errors ++ more)) : Adds (m >>= f) s R := by
  obtain ⟨hbuilds, htidy, hP⟩ := hyields
  obtain ⟨errors, hfirst, hE⟩ := h
  obtain ⟨more, hsecond, hR⟩ := hf _ _ errors htidy hbuilds hP hE
  refine ⟨errors ++ more, ?_, hR⟩
  rw [← List.append_assoc, ← hfirst]
  exact hsecond

/-- To report an error adds this error. -/
theorem adds_report (e : CheckError) : (report e).Adds s (· = [e]) := ⟨[e], rfl, rfl⟩

/-- To enter a type adds no error. -/
theorem adds_interning (m : Interning α) : (interning m).Adds s (· = []) :=
  ⟨[], (List.append_nil _).symm, rfl⟩

/-- Building records nothing itself. -/
theorem Adds.build {m : Building α} {f : Except TypeError α → Checking β}
    (h : ∀ answer, (m.on s.table).1 = answer →
      (f answer).Adds { s with table := (m.on s.table).2 } E) :
    Adds (Checking.build m >>= f) s E := h _ rfl

/-- Building may fail in the ways that are known, and then that is the error. -/
theorem adds_buildOrAny {m : Building TypeId} {F : TypeError → Prop} (span : Span)
    (h : m.FailsOnly s.table F) :
    (buildOrAny m span).Adds s fun errors =>
      errors = [] ∨ ∃ e, F e ∧ errors = [.ofTypeError e span] := by
  apply Adds.build
  intro answer hanswer
  cases answer with
  | ok i => exact .pure (.inl rfl)
  | error e => exact ⟨_, rfl, .inr ⟨e, h e hanswer, rfl⟩⟩

/-- A constraint adds an error at its place if it is not met. -/
theorem adds_checkConstraint {m : Building Unit} {F : TypeError → Prop} (span : Span)
    (h : m.FailsOnly s.table F) :
    (checkConstraint m span).Adds s fun errors =>
      errors = [] ∨ ∃ e, F e ∧ errors = [.ofTypeError e span] := by
  apply Adds.build
  intro answer hanswer
  cases answer with
  | ok _ => exact .pure (.inl rfl)
  | error e => exact ⟨_, rfl, .inr ⟨e, h e hanswer, rfl⟩⟩

/-- The outcome of a relation that answers is the type that stands for it, and nothing is
recorded. -/
theorem run_toType {m : Building Outcome} {Q : Outcome → TypeTable → Prop} (span : Span)
    (h : m.Gives s.table Q) : ∃ (r : Outcome) (U : TypeTable),
      (buildOrAny (Outcome.toType <$> m) span).run s = (r.toType, { s with table := U }) := by
  obtain ⟨r, U, hon, -⟩ := h
  have htype : Building.on (Outcome.toType <$> m) s.table = (.ok r.toType, U) := by
    rw [map_eq_pure_bind, Building.on_bind_ok hon]
    rfl
  refine ⟨r, U, ?_⟩
  unfold buildOrAny
  rw [run_build_bind, htype]
  rfl

end Checking

/-! ## What relations find -/

/-- The error that the argument of a relation does not meet the constraint. -/
inductive Operator.Refuses : Operator → Span → CheckError → Prop
  | assertion (target : Bool) (span : Span) (expected actual : String) :
      Refuses (.assertion target) span ⟨.assertion expected actual, span⟩
  | batch (target : Bool) (span : Span) (expected actual : String) :
      Refuses (.batch target) span ⟨.batch expected actual, span⟩

/-- The errors that evaluating a relation may record. -/
def Operator.Finds (op : Operator) (args : List (TypeId × Span)) (errors : List CheckError) :
    Prop :=
  errors = [] ∨ ∃ a at' err, args = [(a, at')] ∧ op.Refuses at' err ∧ errors = [err]

section

variable {s : CheckState} {T : TypeTable}

/-- A constraint and then an outcome that is there. -/
theorem constraint_answers {m : Building Unit} {m' : Building Outcome} {F : TypeError → Prop}
    (at' span : Span) (hs : s.Tidy) (hyields : m.Yields s.table fun _ _ => True)
    (hfails : m.FailsOnly s.table F)
    (hgives : ∀ U, s.table.Builds U → U.HasBuiltins → m'.Gives U fun _ _ => True) :
    let answer : Checking TypeId := do
      checkConstraint m at'
      buildOrAny (Outcome.toType <$> m') span
    (∃ r : Outcome, (answer.run s).1 = r.toType) ∧ answer.Adds s fun errors =>
      errors = [] ∨ ∃ e, F e ∧ errors = [.ofTypeError e at'] := by
  intro answer
  obtain ⟨hbuilds, htidy, -⟩ := yields_checkConstraint at' hs hyields
  obtain ⟨r, U, hrun⟩ := run_toType span (hgives _ hbuilds htidy.table.hasBuiltins)
  obtain ⟨errors, herrors, hcause⟩ := adds_checkConstraint at' hfails
  have hanswer : answer.run s = (buildOrAny (Outcome.toType <$> m') span).run
      ((checkConstraint m at').run s).2 := rfl
  rw [Adds, hanswer, hrun]
  exact ⟨⟨r, rfl⟩, errors, herrors, hcause⟩

/-- A relation that has as many arguments as it takes, all of them types of the table, answers with
an outcome. The only error that it may record is that its argument does not meet a constraint. -/
theorem evaluate_answers (op : Operator) {args : List (TypeId × Span)} (span : Span) (hs : s.Tidy)
    (h : ∀ arg ∈ args, s.table.Canonical arg.1) (hlength : args.length = op.arity) :
    (∃ r : Outcome, ((evaluate op args span).run s).1 = r.toType) ∧
      (evaluate op args span).Adds s (op.Finds args) := by
  cases op with
  | category c =>
    obtain ⟨⟨a, at'⟩, rfl⟩ := List.length_eq_one_iff.mp hlength
    exact ⟨⟨c.holds s.table a, rfl⟩, .pure (.inl rfl)⟩
  | comparison c =>
    obtain ⟨⟨a, at₁⟩, ⟨b, at₂⟩, rfl⟩ := List.length_eq_two.mp hlength
    have ha : s.table.Canonical a := h _ List.mem_cons_self
    have hb : s.table.Canonical b := h _ (List.mem_cons_of_mem _ List.mem_cons_self)
    obtain ⟨r, U, hrun⟩ := run_toType span (gives_compare c hs.table.hasBuiltins ha hb)
    rw [Adds]
    -- the comparison answers, so its error is not recorded
    simp only [evaluate]
    rw [hrun]
    exact ⟨⟨r, rfl⟩, [], (List.append_nil _).symm, .inl rfl⟩
  | assertion target =>
    obtain ⟨⟨a, at'⟩, rfl⟩ := List.length_eq_one_iff.mp hlength
    have ha : s.table.Canonical a := h _ List.mem_cons_self
    obtain ⟨hanswer, hadds⟩ := constraint_answers at' span hs
      (yields_assertionConstraint (i := a) target) (Building.failsOnly_assertionConstraint target)
      fun U hU hb => gives_compareNormal hb (hU.canonical ha) (hb.canonical_ofBool target)
    refine ⟨hanswer, hadds.mono fun errors herrors => ?_⟩
    rcases herrors with rfl | ⟨_, ⟨expected, actual, rfl⟩, rfl⟩
    · exact .inl rfl
    · exact .inr ⟨a, at', _, rfl, .assertion target at' expected actual, rfl⟩
  | batch target =>
    obtain ⟨⟨a, at'⟩, rfl⟩ := List.length_eq_one_iff.mp hlength
    have ha : s.table.Canonical a := h _ List.mem_cons_self
    obtain ⟨hanswer, hadds⟩ := constraint_answers at' span hs
      (yields_batchConstraint (i := a) target hs.table.hasBuiltins)
      (Building.failsOnly_batchConstraint target)
      fun U hU hb => gives_foldBatch target hb (hU.canonical ha)
    refine ⟨hanswer, hadds.mono fun errors herrors => ?_⟩
    rcases herrors with rfl | ⟨_, ⟨expected, actual, rfl⟩, rfl⟩
    · exact .inl rfl
    · exact .inr ⟨a, at', _, rfl, .batch target at' expected actual, rfl⟩

end

/-! ## What expressions find -/

/-- The errors that an expression can have of its own, apart from those of its parts. -/
inductive TypeExpr.Blames : TypeExpr → CheckError → Prop
  | undefinedName (name : String) (args : List TypeExpr) (span : Span) :
      Blames (.named name args span) ⟨.undefinedName name, span⟩
  | plain {name : String} {args : List TypeExpr} {span : Span} (hargs : args ≠ []) :
      Blames (.named name args span) ⟨.arity name 0 args.length, span⟩
  | arity {name : String} {args : List TypeExpr} {span : Span} {d : Declaration}
      (hd : declaration? name = some d) (hargs : args.length ≠ d.operator.arity) :
      Blames (.named name args span) ⟨.arity name d.operator.arity args.length, span⟩
  | argument {name : String} {arg : TypeExpr} {span : Span} {d : Declaration} {err : CheckError}
      (hd : declaration? name = some d) (h : d.operator.Refuses arg.span err) :
      Blames (.named name [arg] span) err
  | number {value : Binary64} {span : Span} (reason : String) (h : value.isNaN) :
      Blames (.number value span) ⟨.type (.invalidLiteral reason), span⟩
  | bigint {digits : String} {span : Span} (reason : String) (h : canonicalBigint? digits = none) :
      Blames (.bigint digits span) ⟨.type (.invalidLiteral reason), span⟩
  | tooComplex {members : List TypeExpr} {span : Span} {size limit : Nat} (h : limit < size) :
      Blames (.intersection members span) ⟨.type (.unionTooComplex size limit), span⟩
  | capacityOverflow {members : List TypeExpr} {span : Span} {size limit : Nat}
      (hallowed : size ≤ limit) (h : listCapacity < size) :
      Blames (.intersection members span) ⟨.capacityOverflow, span⟩
  | duplicateProperty {properties : List PropertyExpr} {span : Span} {name : String}
      (h : 2 ≤ (properties.map PropertyExpr.name).count name) :
      Blames (.object properties span) ⟨.type (.duplicateProperty name), span⟩

/-- Whether the fault is that a name is not defined. -/
def CheckFault.isUndefinedName : CheckFault → Bool
  | undefinedName _ => true
  | _ => false

/-- The errors come from an expression: those of its parts one after the other, and at most one of
its own. That a name is not defined is found before the parts are looked at, everything else behind
them. -/
inductive TypeExpr.Finds : TypeExpr → List CheckError → Prop
  | parts {e : TypeExpr} {found : List (TypeExpr × List CheckError)}
      (hparts : e.parts = found.map Prod.fst) (h : ∀ q ∈ found, Finds q.1 q.2) :
      Finds e (found.flatMap Prod.snd)
  | first {e : TypeExpr} {found : List (TypeExpr × List CheckError)} {err : CheckError}
      (hparts : e.parts = found.map Prod.fst) (h : ∀ q ∈ found, Finds q.1 q.2)
      (hown : e.Blames err) (hname : err.fault.isUndefinedName) :
      Finds e (err :: found.flatMap Prod.snd)
  | last {e : TypeExpr} {found : List (TypeExpr × List CheckError)} {err : CheckError}
      (hparts : e.parts = found.map Prod.fst) (h : ∀ q ∈ found, Finds q.1 q.2)
      (hown : e.Blames err) (hname : err.fault.isUndefinedName = false) :
      Finds e (found.flatMap Prod.snd ++ [err])

/-- The errors come from some expressions, one after the other. -/
def FindsAll (es : List TypeExpr) (errors : List CheckError) : Prop :=
  ∃ found : List (TypeExpr × List CheckError), es = found.map Prod.fst ∧
    errors = found.flatMap Prod.snd ∧ ∀ q ∈ found, q.1.Finds q.2

section

variable {e : TypeExpr} {es : List TypeExpr} {errors more : List CheckError} {err : CheckError}

/-- Nothing is found in no expressions. -/
theorem findsAll_nil : FindsAll [] [] := ⟨[], rfl, rfl, by simp⟩

/-- What is found in the first expression comes first. -/
theorem FindsAll.cons (h : e.Finds errors) (hes : FindsAll es more) :
    FindsAll (e :: es) (errors ++ more) := by
  obtain ⟨found, rfl, rfl, hfound⟩ := hes
  exact ⟨(e, errors) :: found, rfl, rfl, List.forall_mem_cons.mpr ⟨h, hfound⟩⟩

/-- What is found in one expression. -/
theorem findsAll_singleton (h : e.Finds errors) : FindsAll [e] errors := by
  have hcons := FindsAll.cons h findsAll_nil
  rwa [List.append_nil] at hcons

/-- What is found in the parts of an expression is found in it. -/
theorem FindsAll.parts (h : FindsAll e.parts errors) : e.Finds errors := by
  obtain ⟨found, hparts, rfl, hfound⟩ := h
  exact .parts hparts hfound

/-- A name that means nothing is found before what its arguments hold. -/
theorem FindsAll.first (h : FindsAll e.parts errors) (hown : e.Blames err)
    (hname : err.fault.isUndefinedName) : e.Finds (err :: errors) := by
  obtain ⟨found, hparts, rfl, hfound⟩ := h
  exact .first hparts hfound hown hname

/-- What is found behind the parts, if anything is. -/
theorem FindsAll.last (h : FindsAll e.parts errors)
    (hmore : more = [] ∨ ∃ err, more = [err] ∧ e.Blames err ∧
      err.fault.isUndefinedName = false) : e.Finds (errors ++ more) := by
  rcases hmore with rfl | ⟨err, rfl, hown, hname⟩
  · rw [List.append_nil]
    exact h.parts
  · obtain ⟨found, hparts, rfl, hfound⟩ := h
    exact .last hparts hfound hown hname

/-- Every error is one that an expression in the whole can have of its own. -/
theorem TypeExpr.Finds.exists_blames (h : e.Finds errors) (herr : err ∈ errors) :
    ∃ x, e.Holds x ∧ x.Blames err := by
  have hpart : ∀ {e : TypeExpr} {found : List (TypeExpr × List CheckError)},
      e.parts = found.map Prod.fst → (∀ q ∈ found, err ∈ q.2 → ∃ x, q.1.Holds x ∧ x.Blames err) →
      err ∈ found.flatMap Prod.snd → ∃ x, e.Holds x ∧ x.Blames err := by
    intro e found hparts ih herr
    obtain ⟨q, hq, herr⟩ := List.mem_flatMap.mp herr
    obtain ⟨x, hx, hblames⟩ := ih q hq herr
    exact ⟨x, .part (hparts ▸ List.mem_map_of_mem hq) hx, hblames⟩
  -- by induction on what is found: an error of its own, or one of a part
  induction h with
  | parts hparts _ ih => exact hpart hparts ih herr
  | @first e _ _ hparts _ hown _ ih =>
    rcases List.mem_cons.mp herr with rfl | herr
    · exact ⟨e, .self e, hown⟩
    · exact hpart hparts ih herr
  | @last e _ _ hparts _ hown _ ih =>
    rcases List.mem_append.mp herr with herr | herr
    · exact hpart hparts ih herr
    · obtain rfl := List.mem_singleton.mp herr
      exact ⟨e, .self e, hown⟩

end

/-! ## Resolving -/

variable {s : CheckState}

/-- There is a type for each expression. -/
theorem length_resolveAll (es : List TypeExpr) (s : CheckState) :
    ((resolveAll es).run s).1.length = es.length := by
  induction es generalizing s with
  | nil => rfl
  | cons e rest ih => exact congrArg (· + 1) (ih _)

/-- Some expressions resolve to as many types of the table. -/
theorem yields_resolveAll_length (es : List TypeExpr) (hs : s.Tidy) :
    (resolveAll es).Yields s fun is U => is.length = es.length ∧ ∀ i ∈ is, U.Canonical i := by
  obtain ⟨hbuilds, htidy, hcanonical⟩ := yields_resolveAll es s hs
  exact ⟨hbuilds, htidy, length_resolveAll es s, hcanonical⟩

/-- Properties keep their names. -/
theorem names_resolveProperties (ps : List PropertyExpr) (s : CheckState) :
    ((resolveProperties ps).run s).1.map Property.name = ps.map PropertyExpr.name := by
  induction ps generalizing s with
  | nil => rfl
  | cons p rest ih =>
    cases p
    exact congrArg (_ :: ·) (ih _)

/-- Some properties keep their names. -/
theorem yields_resolveProperties_names (ps : List PropertyExpr) (hs : s.Tidy) :
    (resolveProperties ps).Yields s fun qs _ =>
      qs.map Property.name = ps.map PropertyExpr.name := by
  obtain ⟨hbuilds, htidy, -⟩ := yields_resolveProperties ps s hs
  exact ⟨hbuilds, htidy, names_resolveProperties ps s⟩

/-- What an operator refuses is no name. -/
theorem Operator.Refuses.isUndefinedName {op : Operator} {span : Span} {err : CheckError}
    (h : op.Refuses span err) : err.fault.isUndefinedName = false := by
  cases h <;> rfl

/-- What a relation finds is at its argument. -/
theorem Operator.Finds.of_zip {op : Operator} {types : List TypeId} {args : List TypeExpr}
    {errors : List CheckError} (h : op.Finds (types.zip (args.map TypeExpr.span)) errors)
    (hlength : types.length = args.length) :
    errors = [] ∨ ∃ arg err, args = [arg] ∧ op.Refuses arg.span err ∧ errors = [err] := by
  rcases h with rfl | ⟨a, at', err, hone, hrefuses, rfl⟩
  · exact .inl rfl
  · have hspans : args.map TypeExpr.span = [at'] := by
      have hsnd := congrArg (·.map Prod.snd) hone
      rwa [List.map_snd_zip (by rw [List.length_map, hlength])] at hsnd
    obtain ⟨arg, rest, rfl, rfl, hrest⟩ := List.map_eq_cons_iff.mp hspans
    obtain rfl := List.map_eq_nil_iff.mp hrest
    exact .inr ⟨arg, err, rfl, hrefuses, rfl⟩

/-- What is found when a name is applied to arguments. -/
theorem adds_applyReferent (name : String) {types : List TypeId} {args : List TypeExpr}
    (span : Span) {r : Referent} (hs : s.Tidy) (hlength : types.length = args.length)
    (htypes : ∀ i ∈ types, s.table.Canonical i)
    (hr : ∀ d, r = .relation d → declaration? name = some d) :
    (applyReferent name (types.zip (args.map TypeExpr.span)) span r).Adds s fun errors =>
      errors = [] ∨ ∃ err, errors = [err] ∧ (TypeExpr.named name args span).Blames err ∧
        err.fault.isUndefinedName = false := by
  have hzip : (types.zip (args.map TypeExpr.span)).length = args.length := by
    rw [List.length_zip, List.length_map, hlength, Nat.min_self]
  have hreport : ∀ err, (TypeExpr.named name args span).Blames err →
      err.fault.isUndefinedName = false →
      Adds (do report err; return TypeId.any) s fun errors => errors = [] ∨
        ∃ err, errors = [err] ∧ (TypeExpr.named name args span).Blames err ∧
          err.fault.isUndefinedName = false := fun err hblames hname =>
    ⟨[err], rfl, .inr ⟨err, rfl, hblames, hname⟩⟩
  cases r with
  | plain i =>
    rw [applyReferent, hzip]
    split
    · exact .pure (.inl rfl)
    · rename_i hargs
      refine hreport _ (.plain fun hnil => hargs ?_) rfl
      rw [hnil, List.map_nil, List.zip_nil_right, List.isEmpty_nil]
  | relation d =>
    have hd := hr d rfl
    rw [applyReferent, hzip]
    split
    · exact hreport _ (.arity hd ‹_›) rfl
    · rename_i harity
      have hcanonical : ∀ arg ∈ types.zip (args.map TypeExpr.span), s.table.Canonical arg.1 :=
        fun arg harg => htypes arg.1 (List.of_mem_zip harg).1
      have hanswers := evaluate_answers d.operator span hs hcanonical
        (hzip.trans (not_not.mp harity))
      -- what the operator refuses is an argument, whose place is that of its expression
      refine hanswers.2.mono fun errors herrors => ?_
      rcases herrors.of_zip hlength with rfl | ⟨arg, err, rfl, hrefuses, rfl⟩
      · exact .inl rfl
      · exact .inr ⟨err, rfl, .argument hd hrefuses, hrefuses.isUndefinedName⟩

/-- Only the name of a relation means one. -/
theorem relation_of_referent? {name : String} {d : Declaration}
    (h : s.referent? name = some (.relation d)) : declaration? name = some d := by
  rw [CheckState.referent?] at h
  split at h
  · exact absurd h (by simp)
  · split at h
    · exact absurd h (by simp)
    · obtain ⟨d', hd', hsame⟩ := Option.map_eq_some_iff.mp h
      rwa [← Referent.relation.inj hsame]

/-- Expressions add their errors one after the other. -/
theorem adds_resolveAll {es : List TypeExpr}
    (h : ∀ e ∈ es, ∀ s : CheckState, s.Tidy → (resolve e).Adds s e.Finds) (hs : s.Tidy) :
    (resolveAll es).Adds s (FindsAll es) := by
  induction es generalizing s with
  | nil => exact .pure findsAll_nil
  | cons e rest ih =>
    rw [resolveAll]
    refine .bind (yields_resolve e s hs) (h e List.mem_cons_self s hs)
      fun i s' errors hs' _ _ hfinds => ?_
    refine .bind (yields_resolveAll rest s' hs')
      (ih (fun e he => h e (List.mem_cons_of_mem _ he)) hs') fun is s'' more hs'' _ _ hmore => ?_
    exact .pure (by simpa using FindsAll.cons hfinds hmore)

/-- Properties add the errors of their types. -/
theorem adds_resolveProperties {ps : List PropertyExpr}
    (h : ∀ p ∈ ps, ∀ s : CheckState, s.Tidy → (resolve p.type).Adds s p.type.Finds)
    (hs : s.Tidy) :
    (resolveProperties ps).Adds s (FindsAll (ps.map PropertyExpr.type)) := by
  induction ps generalizing s with
  | nil => exact .pure findsAll_nil
  | cons p rest ih =>
    have hp : (resolveProperty p).Adds s p.type.Finds := by
      rw [resolveProperty_eq]
      refine .bind (yields_resolve p.type s hs) (h p List.mem_cons_self s hs)
        fun i s' errors _ _ _ hfinds => ?_
      exact .pure (by rwa [List.append_nil])
    rw [resolveProperties]
    refine .bind (yields_resolveProperty p s hs) hp fun q s' errors hs' _ _ hfinds => ?_
    refine .bind (yields_resolveProperties rest s' hs')
      (ih (fun p hp => h p (List.mem_cons_of_mem _ hp)) hs') fun qs s'' more _ _ _ hmore => ?_
    exact .pure (by simpa using FindsAll.cons hfinds hmore)

/-- What cannot be built is no name. -/
theorem isUndefinedName_ofTypeError (cause : TypeError) (span : Span) :
    (CheckError.ofTypeError cause span).fault.isUndefinedName = false := by
  cases cause <;> rfl

/-- A distribution is refused by the intersection that it is for. -/
theorem blames_of_refusal? {members : List TypeExpr} {span : Span} {size limit : Nat}
    {cause : TypeError} (h : refusal? size limit = some cause) :
    (TypeExpr.intersection members span).Blames (.ofTypeError cause span) := by
  rcases refusal?_eq_some_iff.mp h with ⟨hlarge, rfl⟩ | ⟨hallowed, hlarge, rfl⟩
  · exact .tooComplex hlarge
  · exact .capacityOverflow hallowed hlarge

/-- What is interned behind the parts adds nothing to what they find. -/
theorem FindsAll.adds_interning {e : TypeExpr} {errors : List CheckError}
    (h : FindsAll e.parts errors) (m : Interning TypeId) :
    (interning m).Adds s fun more => e.Finds (errors ++ more) := by
  refine (Checking.adds_interning m).mono ?_
  rintro _ rfl
  rw [List.append_nil]
  exact h.parts

/-- What cannot be built behind the parts is an error of the whole. -/
theorem FindsAll.adds_buildOrAny {e : TypeExpr} {errors : List CheckError} {m : Building TypeId}
    {F : TypeError → Prop} {span : Span} (h : FindsAll e.parts errors)
    (hfails : m.FailsOnly s.table F)
    (hblames : ∀ cause, F cause → e.Blames (.ofTypeError cause span)) :
    (buildOrAny m span).Adds s fun more => e.Finds (errors ++ more) := by
  refine (Checking.adds_buildOrAny span hfails).mono fun more hmore => h.last ?_
  refine hmore.imp_right ?_
  rintro ⟨cause, hcause, rfl⟩
  exact ⟨_, rfl, hblames cause hcause, isUndefinedName_ofTypeError cause span⟩

/-- The errors that resolving an expression records come from it. -/
theorem adds_resolve (e : TypeExpr) (s : CheckState) (hs : s.Tidy) :
    (resolve e).Adds s e.Finds := by
  -- by induction on the expression: its parts come first, save where its name means nothing
  induction e using TypeExpr.induction generalizing s with
  | named name args span ih =>
    rw [resolve]
    refine .get ?_
    cases hr : s.referent? name with
    | none =>
      refine .bind (yields_report hs) (adds_report _) fun _ s' _ hs' _ _ hreport => ?_
      refine .bind (yields_resolveAll args s' hs') (adds_resolveAll ih hs')
        fun _ s'' errors _ _ _ hfinds => .pure ?_
      rw [hreport, List.append_nil]
      exact FindsAll.first (e := .named name args span) hfinds (.undefinedName name args span)
        rfl
    | some r =>
      refine .bind (yields_resolveAll_length args hs) (adds_resolveAll ih hs)
        fun types s' errors hs' _ htypes hfinds => ?_
      refine (adds_applyReferent name span hs' htypes.1 htypes.2 fun d hd => ?_).mono
        fun more hmore => FindsAll.last (e := .named name args span) hfinds hmore
      exact relation_of_referent? (hd ▸ hr)
  | number value span =>
    refine FindsAll.adds_buildOrAny (e := .number value span) findsAll_nil
      (Building.failsOnly_numberLiteral value) ?_
    rintro _ ⟨hnan, reason, rfl⟩
    exact .number reason hnan
  | bigint digits span =>
    refine FindsAll.adds_buildOrAny (e := .bigint digits span) findsAll_nil
      (Building.failsOnly_bigintLiteral digits) ?_
    rintro _ ⟨hdigits, reason, rfl⟩
    exact .bigint reason hdigits
  | string value span => exact FindsAll.adds_interning (e := .string value span) findsAll_nil _
  | union members span ih =>
    exact .bind (yields_resolveAll members s hs) (adds_resolveAll ih hs)
      fun types s' errors _ _ _ hfinds =>
        FindsAll.adds_interning (e := .union members span) hfinds _
  | intersection members span ih =>
    refine .bind (yields_resolveAll members s hs) (adds_resolveAll ih hs)
      fun types s' errors hs' _ htypes hfinds => ?_
    refine FindsAll.adds_buildOrAny (e := .intersection members span) hfinds
      (Building.failsOnly_intersectionOf hs'.table.hasBuiltins htypes) ?_
    rintro _ ⟨size, hrefusal⟩
    exact blames_of_refusal? hrefusal
  | array element readonly span ih =>
    exact .bind (yields_resolve element s hs) (ih s hs) fun type s' errors _ _ _ hfinds =>
      FindsAll.adds_interning (e := .array element readonly span) (findsAll_singleton hfinds) _
  | tuple elements readonly span ih =>
    exact .bind (yields_resolveAll elements s hs) (adds_resolveAll ih hs)
      fun types s' errors _ _ _ hfinds =>
        FindsAll.adds_interning (e := .tuple elements readonly span) hfinds _
  | object properties span ih =>
    refine .bind (yields_resolveProperties_names properties hs) (adds_resolveProperties ih hs)
      fun ps s' errors _ _ hnames hfinds => ?_
    refine FindsAll.adds_buildOrAny (e := .object properties span) hfinds
      (Building.failsOnly_objectOf ps) ?_
    rintro _ ⟨name, htwice, rfl⟩
    exact .duplicateProperty (hnames ▸ htwice)

/-! ## Items -/

/-- The errors come from an item: those of its expression, and what is wrong with the name of an
alias. A name that is refused is found before the value is checked, and one that is `declared`
already, at the place that it is declared at, behind it. -/
inductive Item.Finds (declared : String → Option Span) : Item → List CheckError → Prop
  | expression {e : TypeExpr} {errors : List CheckError} (h : e.Finds errors) :
      Finds declared (.expr e) errors
  | reserved {d : AliasDecl} {errors : List CheckError} (hname : TypeId.ofName? d.name ≠ none)
      (h : d.value.Finds errors) :
      Finds declared (.alias d) (⟨.reservedName d.name, d.nameSpan⟩ :: errors)
  | new {d : AliasDecl} {errors : List CheckError} (hname : TypeId.ofName? d.name = none)
      (hnew : declared d.name = none) (h : d.value.Finds errors) :
      Finds declared (.alias d) errors
  | duplicate {d : AliasDecl} {errors : List CheckError} {first : Span}
      (hname : TypeId.ofName? d.name = none) (hfirst : declared d.name = some first)
      (h : d.value.Finds errors) :
      Finds declared (.alias d) (errors ++ [⟨.duplicateAlias d.name first, d.nameSpan⟩])

/-- The place that a name is declared at. -/
def CheckState.declaredAt? (s : CheckState) (name : String) : Option Span :=
  (s.alias? name).map AliasValue.nameSpan

/-- An alias adds what is found in it. -/
theorem adds_checkAlias (d : AliasDecl) (hs : s.Tidy) :
    (checkAlias d).Adds s ((Item.alias d).Finds s.declaredAt?) := by
  -- a name of a built-in type is reported before its value, a repeated one behind it
  cases hname : TypeId.ofName? d.name with
  | some i =>
    rw [checkAlias, hname, Option.isSome_some, if_pos rfl]
    refine .bind (yields_report hs) (adds_report _) fun _ s' _ hs' _ _ hreport => ?_
    refine .bind (yields_resolve d.value s' hs') (adds_resolve d.value s' hs')
      fun _ s'' errors _ _ _ hfinds => .pure ?_
    rw [hreport, List.append_nil]
    exact .reserved (by simp [hname]) hfinds
  | none =>
    obtain ⟨errors, herrors, hfinds⟩ := adds_resolve d.value s hs
    rw [Adds, run_checkAlias hname]
    cases halias : s.alias? d.name with
    | some first =>
      refine ⟨errors ++ [⟨.duplicateAlias d.name first.nameSpan, d.nameSpan⟩], ?_,
        .duplicate hname (by rw [CheckState.declaredAt?, halias]; rfl) hfinds⟩
      rw [← List.append_assoc, ← herrors]
      rfl
    | none =>
      exact ⟨errors, herrors, .new hname (by rw [CheckState.declaredAt?, halias]; rfl) hfinds⟩

/-- The errors that checking an item records come from it. -/
theorem adds_checkItem (item : Item) (hs : s.Tidy) :
    (checkItem item).Adds s (item.Finds s.declaredAt?) := by
  rcases item with d | e
  · exact adds_checkAlias d hs
  · obtain ⟨errors, herrors, hfinds⟩ := adds_resolve e s hs
    rw [Adds, run_checkItem_expr]
    exact ⟨errors, herrors, .expression hfinds⟩

/-- The errors come from some items, one after the other. -/
def FindsItems (items : List Item) (errors : List CheckError) : Prop :=
  ∃ found : List (Item × List CheckError), items = found.map Prod.fst ∧
    errors = found.flatMap Prod.snd ∧ ∀ q ∈ found, ∃ declared, q.1.Finds declared q.2

/-- Items add what is found in them. -/
theorem adds_checkItems (items : List Item) (hs : s.Tidy) :
    (checkItems items).Adds s (FindsItems items) := by
  induction items generalizing s with
  | nil => exact .pure ⟨[], rfl, rfl, by simp⟩
  | cons item rest ih =>
    refine .bind (yields_checkItem item hs) (adds_checkItem item hs)
      fun _ s' errors hs' _ _ hfinds => (ih hs').mono fun more hmore => ?_
    obtain ⟨found, rfl, rfl, hfound⟩ := hmore
    exact ⟨(item, errors) :: found, rfl, rfl, List.forall_mem_cons.mpr ⟨⟨_, hfinds⟩, hfound⟩⟩

/-- The errors of a file come from its items. -/
theorem findsItems_checkFile {T : TypeTable} (hT : T.Tidy) (file : CaseFile) :
    FindsItems file.items (checkFile T file).errors := by
  obtain ⟨errors, herrors, hfinds⟩ := adds_checkItems file.items (tidy_start hT)
  have hall : (checkFile T file).errors = errors := herrors
  rwa [hall]

end TypeAssay
