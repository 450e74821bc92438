import TypeAssay.Proofs.Checking

/-!
# Tables that clients can reach

A client of a table never interns a node as it is. It calls the constructors, normalizes types, asks
relations and has files checked, and all ids that it passes are ids of the table. `Call` lists what
it can call, and `Runs T U` says that some calls, one after the other, turn `T` into `U`.

Each call keeps a tidy table tidy (`Call.yields`), so every table that comes from a new one is tidy
(`Runs.tidy`), and what that means is written out in `runs_invariant`.
-/

namespace TypeAssay

open TypeTable

/-! ## Calls -/

/-- What a client can call. -/
inductive Call where
  | primitive (p : Primitive)
  | number (value : Binary64)
  | string (value : String)
  | bigint (digits : String)
  | union (members : List TypeId)
  | intersection (members : List TypeId)
  | tuple (elements : List TypeId) (readonly : Bool)
  | array (element : TypeId) (readonly : Bool)
  | object (properties : List Property)
  | normalize (type : TypeId)
  | compare (c : Comparison) (a b : TypeId)
  | expect (type : TypeId) (target : Bool)
  | constrainBatch (cases : TypeId) (target : Bool)
  | foldBatch (cases : TypeId) (target : Bool)
  | expectBatch (cases : TypeId) (target : Bool)
  | expectBatchOf (outcomes : List Outcome) (target : Bool)
  | checkFile (file : CaseFile)
  | checkSource (source : String)

/-- The types that the result of checking a file mentions. -/
def CheckState.types (s : CheckState) : List TypeId :=
  s.aliases.map (·.type) ++ s.expressions.map (·.2)

namespace Call

/-- The ids that are passed. -/
def arguments : Call → List TypeId
  | union ids | intersection ids | tuple ids _ => ids
  | array i _ | normalize i | expect i _ => [i]
  | constrainBatch i _ | foldBatch i _ | expectBatch i _ => [i]
  | object ps => ps.map (·.type)
  | compare _ a b => [a, b]
  | primitive _ | number _ | string _ | bigint _ => []
  | expectBatchOf .. | checkFile _ | checkSource _ => []

/-- Makes the call. The answer is the list of the ids that it gives out. -/
def run : Call → Building (List TypeId)
  | primitive p => do return [← intern (.primitive p)]
  | number value => do return [← numberLiteral value]
  | string value => do return [← stringLiteral value]
  | bigint digits => do return [← bigintLiteral digits]
  | union ms => do return [← unionOf ms]
  | intersection ms => do return [← intersectionOf ms]
  | tuple es readonly => do return [← tupleOf es readonly]
  | array e readonly => do return [← arrayOf e readonly]
  | object ps => do return [← objectOf ps]
  | normalize i => do return [← TypeAssay.normalize i]
  | compare c a b => do
    let _ ← c.compare a b
    return []
  | expect i target => do
    let _ ← expectLiteral i target
    return []
  | constrainBatch i target => do
    batchConstraint i target
    return []
  | foldBatch i target => do
    let _ ← TypeAssay.foldBatch i target
    return []
  | expectBatch i target => do
    let _ ← TypeAssay.expectBatch i target
    return []
  | expectBatchOf outcomes target => do
    let _ ← TypeAssay.expectBatchOf outcomes target
    return []
  | checkFile file => do
    let s := TypeAssay.checkFile (← get) file
    set s.table
    return s.types
  | checkSource source => do
    let s := checkSourceWith (← get) source
    set s.table
    return s.types

end Call

/-! ## One call -/

variable {T U V : TypeTable} {o : Options} {i : TypeId}

/-- A call that builds one type gives out its id. -/
theorem yields_single {m : Building TypeId} (h : m.Yields T fun n U => U.Canonical n) :
    Building.Yields (do return [← m]) T fun is U => ∀ i ∈ is, U.Canonical i :=
  h.bind fun _ _ _ hn => .pure (by simpa using hn)

/-- A call that answers a question gives out no id. -/
theorem yields_none {α : Type} {m : Building α} (h : m.Yields T fun _ _ => True) :
    Building.Yields (do let _ ← m; return []) T fun is U => ∀ i ∈ is, U.Canonical i :=
  h.bind fun _ _ _ _ => .pure (by simp)

/-- The types of a tidy state belong to its table. -/
theorem CheckState.Tidy.canonical_of_mem_types {s : CheckState} (hs : s.Tidy) (hi : i ∈ s.types) :
    s.table.Canonical i := by
  rcases List.mem_append.mp hi with hi | hi
  · obtain ⟨a, ha, rfl⟩ := List.mem_map.mp hi
    exact hs.aliases a ha
  · obtain ⟨e, he, rfl⟩ := List.mem_map.mp hi
    exact hs.expressions e he

/-- A call on types of a tidy table builds canonical types only, whether it answers or fails, and
gives out ids of the table. -/
theorem Call.yields (c : Call) (hT : T.Tidy) (h : ∀ i ∈ c.arguments, T.Canonical i) :
    c.run.Yields T fun is U => ∀ i ∈ is, U.Canonical i := by
  have hb := hT.hasBuiltins
  -- one case for each kind of call: the ids that it gives out are those of canonical types
  cases c with
  | primitive p =>
    have hparts : ∀ j ∈ (Ty.primitive p).parts, T.Canonical j := fun _ hj =>
      absurd hj List.not_mem_nil
    exact yields_single (Interning.yields_intern (t := .primitive p) trivial hparts
      (canonical_intern (t := .primitive p) trivial hparts)).lift
  | number value => exact yields_single ((numberLiteral_yields value).mono fun _ _ _ hn => hn.1)
  | string value => exact yields_single (stringLiteral_yields value).lift
  | bigint digits => exact yields_single ((bigintLiteral_yields digits).mono fun _ _ _ hn => hn.1)
  | union ms => exact yields_single ((unionOf_yields hb h).mono fun _ _ _ hn => hn.1).lift
  | intersection ms =>
    exact yields_single ((intersectionOf_yields hb h).mono fun _ _ _ hn => hn.1)
  | tuple es readonly => exact yields_single (yields_tupleOf readonly h).lift
  | array e readonly =>
    exact yields_single (yields_arrayOf readonly (h e (by simp [arguments]))).lift
  | object ps =>
    have hps : ∀ p ∈ ps, T.Canonical p.type := fun p hp => h _ (List.mem_map_of_mem hp)
    exact yields_single ((objectOf_yields hb hps).mono fun _ _ _ hn => hn.1)
  | normalize i => exact yields_single (yields_normalize hT (h i (by simp [arguments])))
  | compare c a b =>
    exact yields_none (yields_compare c hT (h a (by simp [arguments])) (h b (by simp [arguments])))
  | expect i target =>
    exact yields_none (yields_expectLiteral target hT (h i (by simp [arguments])))
  | constrainBatch i target => exact yields_none (yields_batchConstraint target hb)
  | foldBatch i target => exact yields_none (yields_foldBatch target hT (h i (by simp [arguments])))
  | expectBatch i target =>
    exact yields_none (yields_expectBatch target hT (h i (by simp [arguments])))
  | expectBatchOf outcomes target => exact yields_none (yields_expectBatchOf outcomes target hT)
  | checkFile file =>
    obtain ⟨hbuilds, htidy⟩ := tidy_checkFile file hT
    refine ⟨hbuilds, fun is his i hi => ?_⟩
    obtain rfl := Except.ok.inj his
    exact htidy.canonical_of_mem_types hi
  | checkSource source =>
    obtain ⟨hbuilds, htidy⟩ := tidy_checkSourceWith source hT
    refine ⟨hbuilds, fun is his i hi => ?_⟩
    obtain rfl := Except.ok.inj his
    exact htidy.canonical_of_mem_types hi

/-! ## Runs -/

namespace TypeTable

/-- `U` is what becomes of `T` by some calls, each on ids that the table has at that time. Calls
that fail count, too. -/
inductive Runs (T : TypeTable) : TypeTable → Prop
  | refl : Runs T T
  | call {U : TypeTable} (h : Runs T U) (c : Call) (ids : ∀ i ∈ c.arguments, i < U.size) :
      Runs T (c.run.on U).2

/-- What becomes of a tidy table by calls is built up from it. -/
theorem Runs.builds (h : Runs T U) (hT : T.Tidy) : T.Builds U := by
  -- by induction on the calls; each finds a tidy table and leaves one
  induction h with
  | refl => exact .refl
  | call _ c hids ih =>
    have hU := ih.tidy hT
    exact ih.trans (c.yields hU fun i hi => hU.canonical (hids i hi)).1

/-- Every table that comes from a new one by calls is tidy. -/
theorem Runs.tidy (h : Runs (withOptions o) T) : T.Tidy :=
  (h.builds (tidy_withOptions o)).tidy (tidy_withOptions o)

/-- The two directions of a table agree, its built-in types are in place, its compound types refer
to smaller ids, and its nodes are canonical. -/
structure Invariant (T : TypeTable) : Prop where
  inverse : ∀ i t, T.get? i = some t ↔ T.lookup t = some i
  injective : ∀ i j t, T.get? i = some t → T.get? j = some t → i = j
  builtin : ∀ i t, builtins[i]? = some t → T.get? i = some t
  smaller : ∀ i t, T.get? i = some t → ∀ j ∈ t.parts, j < i
  canonical : ∀ i t, T.get? i = some t → T.CanonicalNode t

/-- The invariant holds of every table that clients reach; the calls that come after change no type;
and the ids that a call gives out are ids of the table. -/
theorem runs_invariant (hT : Runs (withOptions o) T) (hU : Runs T U) :
    T.Invariant ∧ (∀ i t, T.get? i = some t → U.get? i = some t) ∧
      ∀ c : Call, (∀ i ∈ c.arguments, i < T.size) → ∀ is V, c.run.on T = (.ok is, V) →
        ∀ i ∈ is, i < V.size := by
  have htidy := hT.tidy
  refine ⟨⟨fun i t => lookup_eq_some_iff.symm, fun i j t => get?_injective, htidy.hasBuiltins,
    htidy.descends, htidy.canonicalNode⟩, fun i t ht => (hU.builds htidy).get? ht, ?_⟩
  intro c hids is V hrun i hi
  have hyields := (c.yields htidy fun i hi => htidy.canonical (hids i hi)).2
  rw [hrun] at hyields
  exact (hyields is rfl i hi).lt_size

/-! ### A pair -/

/-- A new table after one call, which builds a tuple type. -/
def pairTable : TypeTable :=
  ((Call.tuple [TypeId.number, TypeId.string] false).run.on (withOptions {})).2

/-- A tuple type is entered as it is. -/
theorem on_run_tuple (T : TypeTable) (es : List TypeId) (readonly : Bool) :
    ((Call.tuple es readonly).run.on T).2 = (T.intern (.tuple es readonly)).2 := rfl

/-- The first type behind the built-in ones is the pair. -/
theorem get?_pairTable :
    pairTable.get? 14 = some (.tuple [TypeId.number, TypeId.string] false) := by
  rw [pairTable, on_run_tuple]
  exact get?_intern_withOptions (by decide)

/-- The tuple type is there after a file is checked, and more can be built from it. -/
theorem runs_invariant_pairTable :
    Runs (withOptions {}) pairTable ∧
      Runs pairTable ((Call.checkSource "type A = [1, 'a'] & A;").run.on pairTable).2 ∧
      pairTable.Invariant ∧
      ((Call.checkSource "type A = [1, 'a'] & A;").run.on pairTable).2.get? 14 =
        some (.tuple [TypeId.number, TypeId.string] false) ∧
      ∀ is V, (Call.array 14 true).run.on pairTable = (.ok is, V) → ∀ i ∈ is, i < V.size := by
  have hpair : Runs (withOptions {}) pairTable := .call .refl (.tuple _ false) <| by
    rw [size_withOptions]
    decide
  have hchecked : Runs pairTable ((Call.checkSource "type A = [1, 'a'] & A;").run.on pairTable).2 :=
    .call .refl (.checkSource _) fun _ hi => absurd hi List.not_mem_nil
  obtain ⟨hinvariant, hkept, hgiven⟩ := runs_invariant hpair hchecked
  refine ⟨hpair, hchecked, hinvariant, hkept 14 _ get?_pairTable, hgiven (.array 14 true) ?_⟩
  simpa [Call.arguments] using lt_size_of_get? get?_pairTable

end TypeTable

end TypeAssay
