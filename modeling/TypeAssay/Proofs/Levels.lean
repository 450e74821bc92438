import TypeAssay.Proofs.Items

/-!
# How deep expressions nest

The depth limit counts expressions and operands of `readonly` in each other, and each of them
contributes a union, an intersection and a primary expression at most. The arrays that `[]` behind
an operand makes are not counted: they are nested by a loop, and there is no limit to it.

* `levels_le_of_parseCaseFile` : the bound, where mutable arrays do not count.
* `parse_arrayText` : arrays nest without bound.
-/

namespace TypeAssay

open Reader

/-! ## Levels -/

mutual

/-- How many expressions are in each other, where a mutable array counts as `w`. -/
def TypeExpr.levels (w : Nat) : TypeExpr → Nat
  | .named _ args _ => 1 + mostLevels w args
  | .number _ _ | .bigint _ _ | .string _ _ => 1
  | .union members _ | .intersection members _ => 1 + mostLevels w members
  | .array element readonly _ => (if readonly then 1 else w) + element.levels w
  | .tuple elements _ _ => 1 + mostLevels w elements
  | .object properties _ => 1 + mostPropertyLevels w properties

/-- The most levels that one of some expressions has. -/
def mostLevels (w : Nat) : List TypeExpr → Nat
  | [] => 0
  | e :: es => max (e.levels w) (mostLevels w es)

def PropertyExpr.levels (w : Nat) : PropertyExpr → Nat
  | .mk _ type _ _ _ => type.levels w

/-- The most levels that the type of one of some properties has. -/
def mostPropertyLevels (w : Nat) : List PropertyExpr → Nat
  | [] => 0
  | p :: ps => max (p.levels w) (mostPropertyLevels w ps)

end

section

variable {w b : Nat} {e e' : TypeExpr} {s : Span} {t : Token} {f : Span → TypeExpr}

/-- A bound on the levels of expressions is one on each of them. -/
theorem mostLevels_le_iff {parts : List (Part TypeExpr)} :
    mostLevels w (parts.map Prod.snd) ≤ b ↔ ∀ q ∈ parts, q.2.levels w ≤ b := by
  induction parts with
  | nil => simp [mostLevels]
  | cons q parts ih => rw [List.map_cons, mostLevels, Nat.max_le, ih, List.forall_mem_cons]

/-- A bound on the levels of properties is one on each of them. -/
theorem mostPropertyLevels_le_iff {parts : List (Part PropertyExpr)} :
    mostPropertyLevels w (parts.map Prod.snd) ≤ b ↔ ∀ q ∈ parts, q.2.levels w ≤ b := by
  induction parts with
  | nil => simp [mostPropertyLevels]
  | cons q parts ih => rw [List.map_cons, mostPropertyLevels, Nat.max_le, ih, List.forall_mem_cons]

/-- A value has one level. -/
theorem levels_of_value? (h : t.value? = some f) : (f s).levels w = 1 := by
  cases t <;> simp only [Token.value?, Option.some.injEq, reduceCtorEq] at h <;> subst h <;> rfl

/-- A negative numeral has one level. -/
theorem levels_of_negated? (h : t.negated? = some f) : (f s).levels w = 1 := by
  cases t <;> simp only [Token.negated?, Option.some.injEq, reduceCtorEq] at h <;> subst h <;> rfl

/-- The span does not count. -/
@[simp]
theorem TypeExpr.levels_withSpan : (e.withSpan s).levels w = e.levels w := by
  cases e <;> simp [withSpan, levels]

/-- A mark before an expression does not count. -/
@[simp]
theorem TypeExpr.levels_ledBy {pipe : Option LocatedToken} :
    (e.ledBy pipe).levels w = e.levels w := by
  cases pipe with
  | none => rfl
  | some t => exact levels_withSpan

/-- A sequence that becomes readonly gains one level at most. -/
theorem TypeExpr.levels_asReadonly? (h : e.asReadonly? s = some e') :
    e'.levels 0 ≤ e.levels 0 + 1 := by
  cases e with
  | array element readonly _ =>
    obtain rfl := Option.some.inj h
    simp only [levels, if_true]
    omega
  | tuple elements readonly _ =>
    obtain rfl := Option.some.inj h
    simp [levels]
  | _ => exact absurd h (by simp [asReadonly?])

end

/-! ## The bound -/

/-- The levels of a phrase whose parts nest at most `n` deep are within the bound for its form. -/
def Phrase.IsBounded (n : Nat) : Phrase → Prop
  | .primary e | .suffixed e | .operand e => e.levels 0 ≤ 3 * n + 1
  | .intersection e => e.levels 0 ≤ 3 * n + 2
  | .expression e => e.levels 0 ≤ 3 * n
  | .property p => p.levels 0 ≤ 3 * n

/-- A derived phrase is within the bound for its form. -/
theorem Derives.isBounded {n : Nat} {ts : List LocatedToken} {p : Phrase}
    (h : Derives .accepted n ts p) : p.IsBounded n := by
  -- by induction on the derivation: only the forms that use up a nesting add to the bound
  induction h with
  | value ht =>
    simp only [Phrase.IsBounded, levels_of_value? ht]
    omega
  | negated _ ht =>
    simp only [Phrase.IsBounded, levels_of_negated? ht]
    omega
  | name _ => simp [Phrase.IsBounded, TypeExpr.levels, mostLevels]
  | call _ _ _ _ _ ih | tuple _ _ _ _ ih =>
    have := mostLevels_le_iff.mpr ih
    simp only [Phrase.IsBounded, TypeExpr.levels]
    omega
  | object _ _ _ _ ih =>
    have := mostPropertyLevels_le_iff.mpr ih
    simp only [Phrase.IsBounded, TypeExpr.levels]
    omega
  | parentheses _ _ _ ih =>
    simp only [Phrase.IsBounded, TypeExpr.levels_withSpan] at ih ⊢
    omega
  | plain _ ih | operand _ ih => exact ih
  | array _ _ _ ih => simpa [Phrase.IsBounded, TypeExpr.levels] using ih
  | readonly _ _ he ih =>
    have := TypeExpr.levels_asReadonly? he
    simp only [Phrase.IsBounded, Grammar.accepted] at ih ⊢
    omega
  | single _ ih =>
    simp only [Phrase.IsBounded] at ih ⊢
    omega
  | intersection _ _ ih | union _ _ _ ih =>
    have := mostLevels_le_iff.mpr ih
    simp only [Phrase.IsBounded, TypeExpr.levels]
    omega
  | alone _ _ ih =>
    simp only [Phrase.IsBounded, TypeExpr.levels_ledBy] at ih ⊢
    omega
  | property _ _ _ _ _ ih => exact ih

variable {source : String} {f : CaseFile}

/-- The items of a file are those that are read from its tokens. -/
theorem parseCaseFile_eq (h : parseCaseFile source = .ok f) :
    ∃ tokens, tokenize source = .ok tokens ∧
      f.items = (itemsFrom (tokens.length + 1) (Cursor.ofTokens tokens)).1 := by
  rw [parseCaseFile] at h
  split at h
  · exact absurd h (by simp)
  · rename_i tokens htokens
    refine ⟨tokens, htokens, ?_⟩
    rw [parseTokens] at h
    split at h
    · rename_i items hitems
      rw [hitems, ← Except.ok.inj h]
    · exact absurd h (by simp)

/-- The expressions of a file have at most three levels for each nesting that is allowed, if mutable
arrays are not counted. -/
theorem levels_le_of_parseCaseFile (h : parseCaseFile source = .ok f) :
    ∀ i ∈ f.items, i.value.levels 0 ≤ 3 * maxDepth := by
  obtain ⟨tokens, htokens, hitems⟩ := parseCaseFile_eq h
  intro i hi
  rw [hitems] at hi
  obtain ⟨ts, hderives⟩ := itemsFrom_derived (tokenize_terminated htokens) i hi
  exact hderives.isBounded

/-- The tokens of `[A|B][]`. -/
def pairsTokens : List LocatedToken :=
  [⟨.punctuation .leftBracket, ⟨0, 1, 1, 1⟩⟩, ⟨.identifier "A", ⟨1, 2, 1, 2⟩⟩,
    ⟨.punctuation .pipe, ⟨2, 3, 1, 3⟩⟩, ⟨.identifier "B", ⟨3, 4, 1, 4⟩⟩,
    ⟨.punctuation .rightBracket, ⟨4, 5, 1, 5⟩⟩, ⟨.punctuation .leftBracket, ⟨5, 6, 1, 6⟩⟩,
    ⟨.punctuation .rightBracket, ⟨6, 7, 1, 7⟩⟩, ⟨.eof, ⟨7, 7, 1, 8⟩⟩]

/-- The array of tuples of unions that `[A|B][]` is. -/
def pairsExpr : TypeExpr :=
  .array (.tuple [.union [.named "A" [] ⟨1, 2, 1, 2⟩, .named "B" [] ⟨3, 4, 1, 4⟩] ⟨1, 4, 1, 2⟩]
    false ⟨0, 5, 1, 1⟩) false ⟨0, 7, 1, 1⟩

/-- The file `[A|B][]` has four levels, one of which is an array. -/
theorem levels_le_of_parseCaseFile_pairs :
    parseCaseFile "[A|B][]" = .ok ⟨[.expr pairsExpr]⟩ ∧ pairsExpr.levels 1 = 4 ∧
      pairsExpr.levels 0 = 3 ∧ pairsExpr.levels 0 ≤ 3 * maxDepth := by
  have htokens : tokenize "[A|B][]" = .ok pairsTokens := by decide +kernel
  have hparse : parseCaseFile "[A|B][]" = .ok ⟨[.expr pairsExpr]⟩ := by
    rw [parseCaseFile, htokens]
    rfl
  exact ⟨hparse, by decide, by decide,
    levels_le_of_parseCaseFile hparse (.expr pairsExpr) List.mem_cons_self⟩

/-! ## Arrays of arrays -/

/-- The text of an array of arrays of numbers, so deep. -/
def arrayText : Nat → String
  | 0 => "number"
  | n + 1 => arrayText n ++ "[]"

def arrayTokens : Nat → List Token
  | 0 => [.identifier "number"]
  | n + 1 => arrayTokens n ++ [.punctuation .leftBracket, .punctuation .rightBracket]

/-- The text of an array of arrays spells its tokens. -/
theorem spells_arrayText (n : Nat) : Spells (arrayText n) (arrayTokens n) := by
  induction n with
  | zero => exact spells_word (by decide)
  | succ n ih =>
    have hsuffix : Closed "[]" [.punctuation .leftBracket, .punctuation .rightBracket] :=
      closed_of_marks (by decide) rfl
    exact ih.append hsuffix.spells (by decide)

/-- Each `[]` is one more level, at any nesting. -/
theorem heads_arrayTokens (m n : Nat) :
    Heads m (arrayTokens n) fun e => e.levels 1 = n + 1 := by
  induction n with
  | zero =>
    refine heads_of_primary fun u after hu => (accepts_named hu).mono ?_
    rintro _ ⟨span, rfl⟩
    rfl
  | succ n ih =>
    intro u after hu c hc
    obtain ⟨x, k, c', hon, hc', hk, e, span, rfl, he⟩ := ih.array u after hu c hc
    refine ⟨_, k, c', hon, hc', hk, ?_⟩
    simp only [TypeExpr.levels, Bool.false_eq_true, if_false, he]
    omega

/-- An array of arrays starts with the name of its elements. -/
theorem startsOperand_arrayTokens (n : Nat) : StartsOperand (arrayTokens n) := by
  -- the suffixes are at the end, so the first token is that of the element
  induction n with
  | zero => exact ⟨_, _, rfl, rfl⟩
  | succ n ih =>
    obtain ⟨t, ts, hts, ht⟩ := ih
    exact ⟨t, ts ++ _, by rw [arrayTokens, hts, List.cons_append], ht⟩

/-- Tokens that are one expression are the file of that expression. -/
theorem itemsFrom_expr {c c' : Cursor} {t : Token} {ts : List Token} {e : TypeExpr} {fuel : Nat}
    (hc : c.tokens = t :: ts) (ht : startsOperand t) (hon : typeExpr.on c = (.ok e, c'))
    (hend : c'.atEnd) : itemsFrom (fuel + 1) c = ([.expr e], []) := by
  have htoken := Cursor.token_of_tokens hc
  have halias : startsAlias c.token = false := by
    rw [htoken, startsAlias, decide_eq_false (ne_of_kind ht rfl),
      decide_eq_false (ne_of_kind ht rfl)]
    rfl
  have hstart : c.atEnd = false := by
    rw [Cursor.atEnd, htoken, decide_eq_false (ne_of_kind ht rfl)]
  have hstop : endOfItem.on c' = (.ok (), c') := by
    have heof : c'.token = .eof := by simpa [Cursor.atEnd] using hend
    rw [endOfItem, on_get_bind, Cursor.sees, heof, hend]
    simp
    rfl
  have hpass : pass c = (.ok (.expr e), c') := by
    have hitem : item.on c = (.ok (.expr e), c') := by
      rw [item_eq, on_get_bind, halias, if_neg Bool.false_ne_true, on_bind_ok hon, on_bind_ok hstop]
      rfl
    rw [pass, hitem]
  rw [itemsFrom_succ_ok hstart hpass, itemsFrom_of_atEnd hend]

/-- The text is read as an array so deep, however deep it is. -/
theorem parse_arrayText (n : Nat) :
    ∃ e, parseCaseFile (arrayText n) = .ok ⟨[.expr e]⟩ ∧ e.levels 1 = n + 1 := by
  obtain ⟨located, hlocated, htokens⟩ := tokenize_of_spells (spells_arrayText n)
  obtain ⟨t, ts, hts, ht⟩ := startsOperand_arrayTokens n
  have hcursor : (Cursor.ofTokens located).tokens = arrayTokens n ++ [.eof] := by
    rw [hts] at htokens ⊢
    exact Cursor.tokens_ofTokens htokens
  have hreads := (heads_arrayTokens 63 n).reads.member.loose (startsOperand_arrayTokens n)
  obtain ⟨e, c, hon, hc, he⟩ := hreads .eof [] rfl _ hcursor
  have hend : c.atEnd := by simp [Cursor.atEnd, Cursor.token_of_tokens hc]
  rw [hts] at hcursor
  refine ⟨e, ?_, he⟩
  rw [parseCaseFile, hlocated]
  simp only [parseTokens, itemsFrom_expr hcursor ht hon hend]

/-- Two hundred arrays in each other are a file, with more levels than the bound. -/
theorem levels_arrayText : ∃ f, parseCaseFile (arrayText 200) = .ok f ∧
    ∃ i ∈ f.items, 3 * maxDepth < i.value.levels 1 := by
  obtain ⟨e, hparse, he⟩ := parse_arrayText 200
  refine ⟨_, hparse, _, List.mem_singleton_self _, ?_⟩
  rw [Item.value, he]
  decide

end TypeAssay
