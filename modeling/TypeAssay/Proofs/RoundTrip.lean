import Mathlib.Data.List.MinMax
import TypeAssay.Proofs.Spelling

/-!
# Displayed types read back as themselves

The text of a type is read back as one type expression, which denotes the same type
(`display_reads_back`). The grammar bounds how deep expressions nest, so the text must not nest too
deep (`TypeTable.nesting`).

There is one exception: the element of an array is put in parentheses if it is a union or an
intersection, but not if it is a readonly array or a readonly tuple, and `readonly` applies to the
whole operand behind it. So an array of readonly sequences has the text of a readonly array
(`not_reads_back_readonlyElements`), and the theorem is about types that reach no such array.

What is read at each kind of surroundings is said by `ReadsBack`; there is one lemma for each kind
of node.
-/

namespace TypeAssay

open TypeTable

/-! ## Nesting -/

/-- The largest number of a list, or zero. -/
def deepest (ns : List Nat) : Nat := ns.foldr max 0

/-- The deepest is at least as deep as each. -/
theorem le_deepest {α : Type} (f : α → Nat) {x : α} {xs : List α} (hx : x ∈ xs) :
    f x ≤ deepest (xs.map f) :=
  List.le_max_of_le (List.mem_map_of_mem hx) (Nat.le_refl (f x))

/-- A bound on each is one on the deepest. -/
theorem deepest_map_le {α : Type} {f : α → Nat} {xs : List α} {k : Nat} (h : ∀ x ∈ xs, f x ≤ k) :
    deepest (xs.map f) ≤ k := by
  refine List.max_le_of_forall_le _ k fun n hn => ?_
  obtain ⟨x, hx, rfl⟩ := List.mem_map.mp hn
  exact h x hx

namespace TypeTable

/-- How deep the text of a written member of a union nests. -/
def nestingMember (part : TypeId → Binding → Nat) : Option TypeId → Nat
  | none => 0
  | some i => part i .member

/-- How deep the text of a node nests; `part` says it of the types it refers to. A level is a pair
of parentheses, the element of a tuple, the property of an object, or what stands behind
`readonly`. -/
def nestingStep (part : TypeId → Binding → Nat) (t : Ty) (b : Binding) : Nat :=
  match t with
  | .union ms =>
    (if b ≠ .loose then 1 else 0) + deepest ((writtenMembers ms).map (nestingMember part))
  | .intersection ms => (if b = .postfixed then 1 else 0) + deepest (ms.map (part · .postfixed))
  | .array e readonly => (if readonly then 1 else 0) + part e .postfixed
  | .tuple es readonly => (if readonly then 1 else 0) + deepest (es.map (part · .loose + 1))
  | .object ps => deepest (ps.map (part ·.type .loose + 1))
  | _ => 0

/-- How deep the text of a type nests, with a bound on how deep types nest. -/
def nestingWithin (T : TypeTable) : Nat → TypeId → Binding → Nat
  | 0, _, _ => 0
  | depth + 1, i, b =>
    match T.get? i with
    | none => 0
    | some t => nestingStep (T.nestingWithin depth) t b

/-- How deep the text of a type nests. -/
def nesting (T : TypeTable) (i : TypeId) : Nat := T.nestingWithin (T.size + 1) i .loose

/-- A node adds two nestings to its parts at most. -/
theorem nestingStep_le {part : TypeId → Binding → Nat} {k : Nat} (h : ∀ j b, part j b ≤ k) (t : Ty)
    (b : Binding) : nestingStep part t b ≤ k + 2 := by
  -- parentheses and the keyword are one nesting more, if they are there
  have hbit : ∀ p : Prop, [Decidable p] → (if p then 1 else 0) ≤ 1 := fun p _ => by split <;> omega
  cases t with
  | union ms =>
    have hms : deepest ((writtenMembers ms).map (nestingMember part)) ≤ k :=
      deepest_map_le fun w _ => by
        cases w with
        | none => exact Nat.zero_le k
        | some m => exact h m .member
    have := hbit (b ≠ .loose)
    rw [nestingStep]
    omega
  | intersection ms =>
    have hms : deepest (ms.map (part · .postfixed)) ≤ k :=
      deepest_map_le fun m _ => h m .postfixed
    have := hbit (b = .postfixed)
    rw [nestingStep]
    omega
  | array e readonly =>
    have he := h e .postfixed
    have := hbit (readonly = true)
    rw [nestingStep]
    omega
  | tuple es readonly =>
    have hes : deepest (es.map (part · .loose + 1)) ≤ k + 1 :=
      deepest_map_le fun e _ => Nat.succ_le_succ (h e .loose)
    have := hbit (readonly = true)
    rw [nestingStep]
    omega
  | object ps =>
    have hps : deepest (ps.map (part ·.type .loose + 1)) ≤ k + 1 :=
      deepest_map_le fun p _ => Nat.succ_le_succ (h p.type .loose)
    rw [nestingStep]
    omega
  | any | never | unknown | primitive _ | literal _ => exact Nat.zero_le _

/-- A text nests twice as deep as its type at most. -/
theorem nestingWithin_le (T : TypeTable) (depth : Nat) (i : TypeId) (b : Binding) :
    T.nestingWithin depth i b ≤ 2 * depth := by
  induction depth generalizing i b with
  | zero => exact Nat.le_refl 0
  | succ depth ih =>
    rw [nestingWithin]
    split
    · exact Nat.zero_le _
    · exact nestingStep_le ih _ b

/-- Where there are few types, no text nests too deep. -/
theorem nesting_lt_maxDepth {T : TypeTable} (h : T.size < 31) (i : TypeId) :
    T.nesting i < maxDepth := by
  have hle := T.nestingWithin_le (T.size + 1) i .loose
  rw [nesting, maxDepth]
  omega

/-- Whether an id names a readonly array or a readonly tuple. -/
def isReadonlySequence (T : TypeTable) (i : TypeId) : Bool :=
  match T.get? i with
  | some (.array _ readonly) | some (.tuple _ readonly) => readonly
  | _ => false

/-- No array that the type reaches has readonly sequences as its elements. -/
def PlainElements (T : TypeTable) (i : TypeId) : Prop :=
  ∀ j e readonly, T.Reaches i j → T.get? j = some (.array e readonly) →
    T.isReadonlySequence e = false

end TypeTable

/-! ## Reading in surroundings -/

/-- In surroundings that bind so tightly, the tokens are read as an expression for the type; where
they are an operand, `[]` may follow them unless they start with `readonly`. -/
structure ReadsBack (T : TypeTable) (n : Nat) (b : Binding) (ts : List Token) (i : TypeId) :
    Prop where
  starts : StartsOperand ts
  reads : Reads n b ts (Denotes T i)
  heads : b = .postfixed → T.isReadonlySequence i = false → Heads n ts (Denotes T i)

variable {T : TypeTable} {o : Options} {n : Nat} {b : Binding} {ts : List Token} {i j : TypeId}
  {t : Ty}

theorem Reads.mono {Q Q' : TypeExpr → Prop} (h : Reads n b ts Q) (hQ : ∀ e, Q e → Q' e) :
    Reads n b ts Q' :=
  fun u after hu => (h u after hu).mono hQ

/-- A weaker condition on the expression holds as well. -/
theorem Heads.mono {Q Q' : TypeExpr → Prop} (h : Heads n ts Q) (hQ : ∀ e, Q e → Q' e) :
    Heads n ts Q' := by
  intro u after hu c hc
  obtain ⟨e, k, c', hon, hc', hk, he⟩ := h u after hu c hc
  exact ⟨e, k, c', hon, hc', hk, hQ e he⟩

/-- What is read in tight surroundings is read in any. -/
theorem Reads.loosen {Q : TypeExpr → Prop} (h : Reads n .postfixed ts Q)
    (hstart : StartsOperand ts) (b : Binding) : Reads n b ts Q := by
  cases b with
  | loose => exact h.member.loose hstart
  | member => exact h.member
  | postfixed => exact h

/-- What `[]` may follow can stand anywhere. -/
theorem ReadsBack.of_heads (hstart : StartsOperand ts) (h : Heads n ts (Denotes T i))
    (b : Binding) : ReadsBack T n b ts i :=
  ⟨hstart, h.reads.loosen hstart b, fun _ _ => h⟩

/-- A `readonly` sequence can stand anywhere, but no `[]` may follow it. -/
theorem ReadsBack.of_readonly (hstart : StartsOperand ts) (hi : T.isReadonlySequence i)
    (h : Reads n .postfixed ts (Denotes T i)) (b : Binding) : ReadsBack T n b ts i :=
  ⟨hstart, h.loosen hstart b, fun _ hplain => absurd hplain (by simp [hi])⟩

/-- Parentheses make an operand of any expression. -/
theorem ReadsBack.parenthesized (h : Reads n .loose ts (Denotes T i)) (b : Binding) :
    ReadsBack T (n + 1) b (.punctuation .leftParen :: ts ++ [.punctuation .rightParen]) i := by
  refine .of_heads ⟨_, _, rfl, rfl⟩ ((heads_parenthesized h).mono ?_) b
  rintro _ ⟨e, span, rfl, he⟩
  exact he.withSpan span

/-! ## One node at a time -/

/-- A name is read back. -/
theorem heads_identifier {name : String} (h : TypeId.ofName? name = some i) :
    Heads n [.identifier name] (Denotes T i) := by
  refine (heads_of_primary fun u after hu => accepts_named hu).mono ?_
  rintro _ ⟨span, rfl⟩
  exact denotes_named h

/-- A value is read back. -/
theorem heads_value {t : Token} {e : Span → TypeExpr} (ht : t.value? = some e)
    (he : ∀ span, Denotes T i (e span)) : Heads n [t] (Denotes T i) := by
  refine (heads_of_primary fun u after _ => accepts_value ht).mono ?_
  rintro _ ⟨span, rfl⟩
  exact he span

/-- A negative numeral is read back. -/
theorem heads_negated {t : Token} {e : Span → TypeExpr} (ht : t.negated? = some e)
    (he : ∀ span, Denotes T i (e span)) : Heads n [.punctuation .minus, t] (Denotes T i) := by
  refine (heads_of_primary fun u after _ => accepts_negated ht).mono ?_
  rintro _ ⟨span, rfl⟩
  exact he span

/-- A number is read back, with its sign. -/
theorem heads_number {x : Binary64} (ht : T.get? i = some (.literal (.number x)))
    (hx : (Literal.number x).IsCanonical) :
    Heads n (Literal.number x).tokens (Denotes T i) := by
  rw [Literal.tokens]
  split
  · refine heads_negated rfl fun span => ?_
    rw [Binary64.neg_neg]
    exact denotes_number ht hx
  · exact heads_value rfl fun span => denotes_number ht hx

/-- A bigint is read back, with its sign. -/
theorem heads_bigint {digits : String} (ht : T.get? i = some (.literal (.bigint digits)))
    (h : IsCanonicalBigint digits) : Heads n (Literal.bigint digits).tokens (Denotes T i) := by
  rw [Literal.tokens]
  rcases hsplit : splitSign digits.toList with ⟨_ | _, ds⟩
  · exact heads_value rfl fun span => denotes_bigint ht h
  · refine heads_negated rfl fun span => ?_
    have hdigits : digits.toList = '-' :: ds := toList_of_splitSign hsplit
    have hjoin : "-" ++ String.ofList ds = digits := by
      rw [← String.toList_inj]
      simp [hdigits]
    rw [hjoin]
    exact denotes_bigint ht h

/-- A literal starts an operand. -/
theorem startsOperand_tokens (l : Literal) : StartsOperand l.tokens := by
  cases l with
  | number x =>
    rw [Literal.tokens]
    split
    · exact ⟨_, _, rfl, rfl⟩
    · exact ⟨_, _, rfl, rfl⟩
  | bigint digits =>
    rw [Literal.tokens]
    split
    · exact ⟨_, _, rfl, rfl⟩
    · exact ⟨_, _, rfl, rfl⟩
  | string _ | boolean _ => exact ⟨_, _, rfl, rfl⟩

/-- A literal is read back. -/
theorem heads_literal {l : Literal} (hb : T.HasBuiltins) (ht : T.get? i = some (.literal l))
    (hl : l.IsCanonical) : Heads n l.tokens (Denotes T i) := by
  cases l with
  | number x => exact heads_number ht hl
  | string value => exact heads_value rfl fun span => denotes_string ht
  | bigint digits => exact heads_bigint ht hl
  | boolean b =>
    obtain rfl := get?_injective ht (hb.ofBool b)
    cases b with
    | true => exact heads_identifier rfl
    | false => exact heads_identifier rfl

/-- What follows does not change how tokens start. -/
theorem StartsOperand.append (h : StartsOperand ts) (us : List Token) :
    StartsOperand (ts ++ us) := by
  obtain ⟨t, rest, rfl, ht⟩ := h
  exact ⟨t, rest ++ us, rfl, ht⟩

/-- Operands with marks between them start as the first one does. -/
theorem startsOperand_between {β : Type} {spell : β → List Token} {p : Punctuation} {xs : List β}
    (hne : xs ≠ []) (hxs : ∀ x ∈ xs, StartsOperand (spell x)) :
    StartsOperand (p.between (xs.map spell)) := by
  obtain ⟨x, xs, rfl⟩ := List.exists_cons_of_ne_nil hne
  rw [List.map_cons, Punctuation.between_cons]
  exact (hxs x List.mem_cons_self).append _

/-- An expression that gets parentheses in some surroundings only. -/
theorem ReadsBack.parenthesizedIf {needed : Bool} {k : Nat}
    (hn : (if needed then 1 else 0) + k ≤ n) (hstart : StartsOperand ts)
    (hloose : ∀ m, k ≤ m → Reads m .loose ts (Denotes T i))
    (hfree : needed = false → b ≠ .postfixed ∧ Reads n b ts (Denotes T i)) :
    ReadsBack T n b (TypeAssay.parenthesizedIf needed ts) i := by
  cases needed with
  | true =>
    obtain ⟨n, rfl⟩ : ∃ m, n = m + 1 := Nat.exists_eq_add_one.mpr (by simp at hn; omega)
    exact .parenthesized (hloose n (by simp at hn; omega)) b
  | false =>
    obtain ⟨hb, hreads⟩ := hfree rfl
    exact ⟨hstart, hreads, fun hpostfixed => absurd hpostfixed hb⟩

/-- The types are read back in any surroundings, where they nest no deeper than `depth` says. -/
def PartsReadBack (T : TypeTable) (part : TypeId → Binding → List Token)
    (depth : TypeId → Binding → Nat) (js : List TypeId) : Prop :=
  ∀ j ∈ js, ∀ b m, depth j b ≤ m → ReadsBack T m b (part j b) j

section

variable {part : TypeId → Binding → List Token} {depth : TypeId → Binding → Nat}

/-- A written member of a union is read back. -/
theorem reads_spellMember {ms : List TypeId} {w : Option TypeId} (hw : w ∈ writtenMembers ms)
    (hpart : PartsReadBack T part depth ms)
    (hn : deepest ((writtenMembers ms).map (nestingMember depth)) ≤ n) :
    StartsOperand (spellMember part w) ∧
      Reads n .member (spellMember part w) (Denotes T (writtenId w)) := by
  have hle := Nat.le_trans (le_deepest (nestingMember depth) hw) hn
  cases w with
  | none => exact ⟨⟨_, _, rfl, rfl⟩, (heads_identifier rfl).reads.member⟩
  | some m =>
    have hm := hpart m (mem_of_some_mem_writtenMembers hw) .member n hle
    exact ⟨hm.starts, hm.reads⟩

/-- The written members of a union, with `|` between them, are read as that union. -/
theorem reads_writtenMembers {ms : List TypeId} (hb : T.HasBuiltins)
    (ht : T.get? i = some (.union ms)) (hms : T.CanonicalUnion ms)
    (hpart : PartsReadBack T part depth ms)
    (hn : deepest ((writtenMembers ms).map (nestingMember depth)) ≤ n) :
    StartsOperand (Punctuation.between .pipe ((writtenMembers ms).map (spellMember part))) ∧
      Reads n .loose (Punctuation.between .pipe ((writtenMembers ms).map (spellMember part)))
        (Denotes T i) := by
  have hmember := fun w hw => reads_spellMember (w := w) hw hpart hn
  have hne := writtenMembers_ne_nil hms
  have hstart := startsOperand_between (p := .pipe) hne fun w hw => (hmember w hw).1
  refine ⟨hstart, ?_⟩
  by_cases htwo : 2 ≤ (writtenMembers ms).length
  · refine (reads_union htwo (fun w hw => (hmember w hw).2) hstart).mono ?_
    rintro _ ⟨es, span, rfl, hes⟩
    exact denotes_union (List.forall₂_map_left_iff.mpr hes) (run_unionOf_writtenMembers hms hb ht)
  · -- a single written member is `boolean`, which is read as a name
    have hone : (writtenMembers ms).length = 1 := by
      have := List.length_pos_iff.mpr hne
      omega
    obtain ⟨w, hw⟩ := List.length_eq_one_iff.mp hone
    obtain ⟨rfl, rfl⟩ := eq_boolean_of_writtenMembers hms hb ht hw
    rw [hw]
    exact (heads_identifier rfl).reads.loosen ⟨_, _, rfl, rfl⟩ .loose

/-- A union is read back. -/
theorem readsBack_union {ms : List TypeId} (hb : T.HasBuiltins)
    (ht : T.get? i = some (.union ms)) (hms : T.CanonicalUnion ms)
    (hpart : PartsReadBack T part depth ms) (hn : nestingStep depth (.union ms) b ≤ n) :
    ReadsBack T n b (spellStep part (.union ms) b) i := by
  have hreads := fun m hm => reads_writtenMembers (n := m) hb ht hms hpart hm
  refine .parenthesizedIf (by simpa [nestingStep] using hn) (hreads _ (Nat.le_refl _)).1
    (fun m hm => (hreads m hm).2) fun hneeded => ?_
  obtain rfl : b = .loose := by simpa using hneeded
  exact ⟨by simp, (hreads n (by simpa [nestingStep] using hn)).2⟩

/-- An intersection is read back. -/
theorem readsBack_intersection {ms : List TypeId} (hb : T.HasBuiltins)
    (ht : T.get? i = some (.intersection ms)) (hms : T.CanonicalIntersection ms)
    (hpart : PartsReadBack T part depth ms) (hn : nestingStep depth (.intersection ms) b ≤ n) :
    ReadsBack T n b (spellStep part (.intersection ms) b) i := by
  have hmember : ∀ a ∈ ms, ∀ m, deepest (ms.map (depth · .postfixed)) ≤ m →
      ReadsBack T m .postfixed (part a .postfixed) a := fun a ha m hm =>
    hpart a ha .postfixed m (Nat.le_trans (le_deepest (depth · .postfixed) ha) hm)
  have hne : ms ≠ [] := List.ne_nil_of_length_pos (Nat.lt_of_lt_of_le Nat.two_pos hms.two_le)
  have hstart := startsOperand_between (p := .amp) hne fun a ha =>
    (hmember a ha _ (Nat.le_refl _)).starts
  have hreads : ∀ m, deepest (ms.map (depth · .postfixed)) ≤ m →
      Reads m .member (Punctuation.between .amp (ms.map (part · .postfixed)))
        (Denotes T i) := by
    intro m hm
    refine (reads_intersection hms.two_le fun a ha => (hmember a ha m hm).reads).mono ?_
    rintro _ ⟨es, span, rfl, hes⟩
    refine denotes_intersection hes ?_
    rw [hms.on_intersectionOf hb, on_intern_of_get? ht]
  -- the parentheses are there exactly in front of `[]`, where an intersection needs them
  refine .parenthesizedIf (by simpa [nestingStep] using hn) hstart
    (fun m hm => (hreads m hm).loose hstart) fun hneeded => ?_
  have hpostfixed : b ≠ .postfixed := by simpa using hneeded
  have hm : deepest (ms.map (depth · .postfixed)) ≤ n := by
    simpa [nestingStep, hpostfixed] using hn
  refine ⟨hpostfixed, ?_⟩
  cases b with
  | loose => exact (hreads n hm).loose hstart
  | member => exact hreads n hm
  | postfixed => exact absurd rfl hpostfixed

/-- A sequence, once what follows its keyword is the beginning of an operand. -/
theorem readsBack_sequence {readonly : Bool} {k : Nat}
    (hi : readonly = true → T.isReadonlySequence i = true)
    (hn : (if readonly then 1 else 0) + k ≤ n) (hstart : StartsOperand ts)
    (hheads : ∀ m, k ≤ m →
      Heads m ts (if readonly then IsMutableOf (Denotes T i) else Denotes T i)) :
    ReadsBack T n b (readonlyTokens readonly ++ ts) i := by
  cases readonly with
  | true =>
    obtain ⟨n, rfl⟩ : ∃ m, n = m + 1 := Nat.exists_eq_add_one.mpr (by simp at hn; omega)
    exact .of_readonly ⟨_, _, rfl, rfl⟩ (hi rfl) (hheads n (by simp at hn; omega)).readonly b
  | false => exact .of_heads hstart (hheads n (by simpa using hn)) b

/-- An array is read back, unless its elements are readonly sequences. -/
theorem readsBack_array {readonly : Bool} (ht : T.get? i = some (.array j readonly))
    (hplain : T.isReadonlySequence j = false) (hpart : PartsReadBack T part depth [j])
    (hn : nestingStep depth (.array j readonly) b ≤ n) :
    ReadsBack T n b (spellStep part (.array j readonly) b) i := by
  have hj := hpart j List.mem_cons_self .postfixed
  have hstart := (hj _ (Nat.le_refl _)).starts
  refine readsBack_sequence (fun h => by simp [TypeTable.isReadonlySequence, ht, h]) hn
    (hstart.append _) fun m hm => ?_
  refine ((hj m hm).heads rfl hplain).array.mono ?_
  rintro _ ⟨e, span, rfl, he⟩
  cases readonly with
  | true => exact .inl ⟨e, span, rfl, fun span' => denotes_array he ht⟩
  | false => exact denotes_array he ht

/-- A tuple is read back. -/
theorem readsBack_tuple {es : List TypeId} {readonly : Bool}
    (ht : T.get? i = some (.tuple es readonly)) (hpart : PartsReadBack T part depth es)
    (hn : nestingStep depth (.tuple es readonly) b ≤ n) :
    ReadsBack T n b (spellStep part (.tuple es readonly) b) i := by
  refine readsBack_sequence (fun h => by simp [TypeTable.isReadonlySequence, ht, h]) hn
    ⟨_, _, rfl, rfl⟩ fun m hm => ?_
  have helement : ∀ e ∈ es, ∃ l, m = l + 1 ∧ ReadsBack T l .loose (part e .loose) e := by
    intro e he
    have hle := Nat.le_trans (le_deepest (depth · .loose + 1) he) hm
    obtain ⟨l, rfl⟩ : ∃ l, m = l + 1 := Nat.exists_eq_add_one.mpr (by omega)
    exact ⟨l, rfl, hpart e he .loose l (by omega)⟩
  refine (heads_tuple (Q := Denotes T) (fun e he => ?_) fun e he => ?_).mono ?_
  · obtain ⟨l, _, he⟩ := helement e he
    exact he.starts
  · obtain ⟨l, hl, he⟩ := helement e he
    exact ⟨l, hl, he.reads⟩
  · rintro _ ⟨xs, span, rfl, hxs⟩
    cases readonly with
    | true => exact .inr ⟨xs, span, rfl, fun span' => denotes_tuple hxs ht⟩
    | false => exact denotes_tuple hxs ht

/-- An object is read back. -/
theorem readsBack_object {ps : List Property} (ht : T.get? i = some (.object ps))
    (hc : T.CanonicalNode (.object ps)) (hpart : PartsReadBack T part depth (ps.map (·.type)))
    (hn : nestingStep depth (.object ps) b ≤ n) :
    ReadsBack T n b (spellStep part (.object ps) b) i := by
  have hproperty : ∀ p ∈ ps, ∃ l, n = l + 1 ∧
      ReadsBack T l .loose (part p.type .loose) p.type := by
    intro p hp
    have hle := Nat.le_trans (le_deepest (depth ·.type .loose + 1) hp) hn
    obtain ⟨l, rfl⟩ : ∃ l, n = l + 1 := Nat.exists_eq_add_one.mpr (by omega)
    exact ⟨l, rfl, hpart p.type (List.mem_map_of_mem hp) .loose l (by omega)⟩
  refine .of_heads ⟨_, _, rfl, rfl⟩ ?_ b
  refine (heads_object (Q := fun p => Denotes T p.type) (fun p hp => ?_) fun p hp => ?_).mono ?_
  · obtain ⟨l, _, hp⟩ := hproperty p hp
    exact hp.starts
  · obtain ⟨l, hl, hp⟩ := hproperty p hp
    exact ⟨l, hl, hp.reads⟩
  · rintro _ ⟨xs, span, rfl, hxs⟩
    exact denotes_object hxs ht hc

/-- What one node preserves: if its parts are read back, so is it. -/
theorem readsBack_step (hT : T.HasBuiltins) (ht : T.get? i = some t) (hc : T.CanonicalNode t)
    (hplain : ∀ j readonly, t = .array j readonly → T.isReadonlySequence j = false)
    (hpart : PartsReadBack T part depth t.parts) (hn : nestingStep depth t b ≤ n) :
    ReadsBack T n b (spellStep part t b) i := by
  have hname : ∀ name : String, TypeId.ofName? name = some i →
      ReadsBack T n b [.identifier name] i := fun name h =>
    .of_heads ⟨_, _, rfl, rfl⟩ (heads_identifier h) b
  cases t with
  | any => exact hname "any" (get?_injective ht hT.any ▸ rfl)
  | never => exact hname "never" (get?_injective ht hT.never ▸ rfl)
  | unknown => exact hname "unknown" (get?_injective ht hT.unknown ▸ rfl)
  | primitive p =>
    refine hname p.keyword ?_
    rw [hT.eq_id ht]
    cases p <;> rfl
  | literal l => exact .of_heads (startsOperand_tokens l) (heads_literal hT ht hc) b
  | union ms => exact readsBack_union hT ht hc hpart hn
  | intersection ms => exact readsBack_intersection hT ht hc hpart hn
  | array j readonly => exact readsBack_array ht (hplain j readonly rfl) hpart hn
  | tuple es readonly => exact readsBack_tuple ht hpart hn
  | object ps => exact readsBack_object ht hc hpart hn

end

/-! ## Reading whole texts -/

/-- The whole text is cut into tokens, and they are one type expression. -/
def ReadsTo (text : String) (e : TypeExpr) : Prop :=
  ∃ tokens c, tokenize text = .ok tokens ∧
    typeExpr.run.run (Cursor.ofTokens tokens) = (.ok e, c) ∧ c.atEnd

/-- A text is read as one expression. -/
theorem ReadsTo.unique {text : String} {e e' : TypeExpr} (h : ReadsTo text e)
    (h' : ReadsTo text e') : e = e' := by
  obtain ⟨tokens, c, htokens, hon, _⟩ := h
  obtain ⟨tokens', c', htokens', hon', _⟩ := h'
  obtain rfl := Except.ok.inj (htokens.symm.trans htokens')
  exact Except.ok.inj (Prod.mk.inj (hon.symm.trans hon')).1

/-- Tokens that are an expression are read from a text that spells them. -/
theorem exists_readsTo {text : String} {Q : TypeExpr → Prop} (hspells : Spells text ts)
    (hn : n < maxDepth) (h : ∀ m, n ≤ m → Reads m .loose ts Q) : ∃ e, ReadsTo text e ∧ Q e := by
  obtain ⟨located, hlocated, htokens⟩ := tokenize_of_spells hspells
  have hcursor : (Cursor.ofTokens located).tokens = ts ++ [.eof] := by
    cases hts : ts ++ [Token.eof] with
    | nil => simp at hts
    | cons t rest => exact Cursor.tokens_ofTokens (htokens.trans hts)
  obtain ⟨e, c, hon, hc, he⟩ := h 63 (Nat.le_of_lt_succ hn) .eof [] rfl _ hcursor
  refine ⟨e, ⟨located, c, hlocated, hon, ?_⟩, he⟩
  simp [Cursor.atEnd, Cursor.token_of_tokens hc]

namespace TypeTable

/-- The condition on elements holds of the parts of a type. -/
theorem PlainElements.part (h : T.PlainElements i) (ht : T.get? i = some t) (hj : j ∈ t.parts) :
    T.PlainElements j :=
  fun k e readonly hk => h k e readonly (.head ⟨t, ht, hj⟩ hk)

/-- The tokens of a type are read back in any surroundings. -/
theorem readsBack_spellWithin (hT : T.Tidy) {depth : Nat} (hdepth : i < depth) (hi : i < T.size)
    (hplain : T.PlainElements i) (hn : T.nestingWithin depth i b ≤ n) :
    ReadsBack T n b (T.spellWithin depth i b) i := by
  induction depth generalizing i b n with
  | zero => exact absurd hdepth (Nat.not_lt_zero i)
  | succ depth ih =>
    obtain ⟨t, ht⟩ := exists_get?_of_lt_size hi
    rw [nestingWithin, ht] at hn
    rw [spellWithin, ht]
    refine readsBack_step hT.hasBuiltins ht (hT.canonicalNode i t ht) ?_ (fun j hj b m hm => ?_) hn
    · rintro j readonly rfl
      exact hplain i j readonly .refl ht
    · have hlt : j < i := hT.descends i t ht j hj
      exact ih (Nat.lt_of_lt_of_le hlt (Nat.le_of_lt_succ hdepth)) (Nat.lt_trans hlt hi)
        (hplain.part ht hj) hm

/-- The text of a type is read as an expression for it. -/
theorem exists_readsTo_display (hT : T.Tidy) (hi : i < T.size) (hlegible : T.Legible i)
    (hplain : T.PlainElements i) (hn : T.nesting i < maxDepth) :
    ∃ e, ReadsTo (T.display i) e ∧ Denotes T i e :=
  exists_readsTo (spells_display hT hi hlegible) hn fun _ hm =>
    (readsBack_spellWithin hT (Nat.lt_succ_of_lt hi) hi hplain hm).reads

end TypeTable

/-- The text of a type, read as one type expression and resolved in the table that the type belongs
to, gives that type again. -/
theorem display_reads_back (hT : Runs (withOptions o) T) (hi : i < T.size)
    (hlegible : T.Legible i) (hplain : T.PlainElements i) (hn : T.nesting i < maxDepth) :
    ∃ e, ReadsTo (T.display i) e ∧
      ∀ s : CheckState, s.table = T → (resolve e).run s = (i, s) := by
  obtain ⟨e, hreads, he⟩ := exists_readsTo_display hT.tidy hi hlegible hplain hn
  exact ⟨e, hreads, fun s hs => he.run hs⟩

/-! ## Arrays of readonly arrays -/

namespace TypeTable

/-- An array of readonly arrays and a readonly array of arrays have the same text. -/
theorem display_readonlyElements {e i' e' k : TypeId} (hi : T.get? i = some (.array e false))
    (he : T.get? e = some (.array k true)) (hi' : T.get? i' = some (.array e' true))
    (he' : T.get? e' = some (.array k false)) (hsize : 2 ≤ T.size) :
    T.display i = T.display i' := by
  obtain ⟨n, hn⟩ : ∃ n, T.size + 1 = n + 3 := ⟨T.size - 2, by omega⟩
  rw [display, display, hn]
  simp only [displayWithin, displayStep, hi, he, hi', he', Ty.readonlyKeyword, if_true,
    Bool.false_eq_true, if_false, String.empty_append, String.append_assoc]

/-- Arrays of truth values and what they are made into: the readonly array 15 of arrays, the object
18 that has all of them, and the array 20 of readonly arrays. -/
def flagNodes : List Ty :=
  [.array TypeId.boolean false, .array 14 true, .literal (.string "it's"),
    .literal (.number ⟨0xBFF8000000000000⟩),
    .object [{ name := "flags", type := 15, optional := true }, { name := "offset", type := 17 },
      { name := "readonly", type := 16, readonly := true }],
    .array TypeId.boolean true, .array 19 false]

def flagTable : TypeTable := withNodes {} flagNodes

/-- A type of the table is found at its place. -/
theorem get?_flagTable (i : TypeId) : flagTable.get? i = (builtins ++ flagNodes)[i]? :=
  get?_withNodes (by decide) (by decide) i

/-- The size of the table. -/
theorem size_flagTable : flagTable.size = 21 := by
  rw [flagTable, size, types_withNodes (by decide) (by decide)]
  rfl

/-- Clients can build the table. -/
theorem runs_flagTable : Runs (withOptions {}) flagTable := by
  refine runs_withNodes (by decide) (by decide) (fun t ht T => ?_) fun k t hk => ?_
  · simp only [flagNodes, List.mem_cons, List.not_mem_nil, or_false] at ht
    rcases ht with rfl | rfl | rfl | rfl | rfl | rfl | rfl
    · trivial
    · trivial
    · trivial
    · refine ⟨?_, ?_⟩ <;> decide
    · show List.Pairwise _ _
      decide
    · trivial
    · trivial
  · have hparts : ∀ k < flagNodes.length, ∀ t ∈ flagNodes[k]?, ∀ j ∈ t.parts,
        j < builtins.length + k := by decide
    exact hparts k (List.getElem?_eq_some_iff.mp hk).1 t hk

/-- All types of the table are legible. -/
theorem legible_flagTable (i : TypeId) : flagTable.Legible i := by
  intro j t _ ht
  have hnodes : ∀ t ∈ builtins ++ flagNodes, LegibleNode t := by decide +kernel
  rw [get?_flagTable] at ht
  exact hnodes t (List.mem_of_getElem? ht)

/-- No array of the table has readonly elements, but for the last ones. -/
theorem plainElements_flagTable {i : TypeId} (hi : i < 19) : flagTable.PlainElements i := by
  intro j e readonly hj hget
  have hlt : j < 19 := Nat.lt_of_le_of_lt (runs_flagTable.tidy.descends.le_of_reaches hj) hi
  have helements : ∀ j < 19, ∀ t ∈ (builtins ++ flagNodes)[j]?, t.isSequence →
      ∀ e ∈ t.parts, e = TypeId.boolean ∨ e = 14 := by decide
  rw [get?_flagTable] at hget
  rcases helements j hlt _ hget rfl e List.mem_cons_self with rfl | rfl
  · rw [isReadonlySequence, get?_flagTable]
    rfl
  · rw [isReadonlySequence, get?_flagTable]
    rfl

end TypeTable

/-- The object type is read back from its text, in which a name is a keyword, a property is
optional, a number is negative and a string has a quote in it. -/
theorem display_reads_back_flagTable :
    Runs (withOptions {}) flagTable ∧ 18 < flagTable.size ∧ flagTable.Legible 18 ∧
      flagTable.PlainElements 18 ∧ flagTable.nesting 18 < maxDepth ∧
      ∃ e, ReadsTo (flagTable.display 18) e ∧
        ∀ s : CheckState, s.table = flagTable → (resolve e).run s = (18, s) := by
  have hsize : 18 < flagTable.size := by
    rw [size_flagTable]
    decide
  have hplain : flagTable.PlainElements 18 := plainElements_flagTable (by decide)
  have hnesting : flagTable.nesting 18 < maxDepth :=
    nesting_lt_maxDepth (by rw [size_flagTable]; decide) 18
  exact ⟨runs_flagTable, hsize, legible_flagTable 18, hplain, hnesting,
    display_reads_back runs_flagTable hsize (legible_flagTable 18) hplain hnesting⟩

/-- The text of the array of readonly arrays does not read back as that type: it is the text of the
readonly array of arrays, and reads back as that one. -/
theorem not_reads_back_flagTable :
    Runs (withOptions {}) flagTable ∧ 20 < flagTable.size ∧ flagTable.Legible 20 ∧
      flagTable.nesting 20 < maxDepth ∧
      ¬ ∃ e, ReadsTo (flagTable.display 20) e ∧
        ∀ s : CheckState, s.table = flagTable → (resolve e).run s = (20, s) := by
  have hsize : 20 < flagTable.size := by
    rw [size_flagTable]
    decide
  have hnesting : ∀ i, flagTable.nesting i < maxDepth :=
    nesting_lt_maxDepth (by rw [size_flagTable]; decide)
  refine ⟨runs_flagTable, hsize, legible_flagTable 20, hnesting 20, ?_⟩
  rintro ⟨e, hreads, he⟩
  have htext : flagTable.display 20 = flagTable.display 15 :=
    display_readonlyElements (get?_flagTable 20) (get?_flagTable 19) (get?_flagTable 15)
      (get?_flagTable 14) (by rw [size_flagTable]; decide)
  obtain ⟨e', hreads', he'⟩ := exists_readsTo_display runs_flagTable.tidy
    (Nat.lt_of_lt_of_le (by decide) (Nat.le_of_lt hsize)) (legible_flagTable 15)
    (plainElements_flagTable (by decide)) (hnesting 15)
  obtain rfl := (htext ▸ hreads).unique hreads'
  have hfirst : (20, ({ table := flagTable } : CheckState)) = (15, { table := flagTable }) :=
    (he { table := flagTable } rfl).symm.trans (he'.run rfl)
  exact absurd (Prod.mk.inj hfirst).1 (by decide)

end TypeAssay
