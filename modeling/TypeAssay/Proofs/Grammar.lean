import TypeAssay.Lattice.Display
import TypeAssay.Proofs.Lexing
import TypeAssay.Proofs.Phrases

/-!
# What the grammar reads

For each kind of surroundings there is a reader of the expressions that need no parentheses there
(`Binding.reader`), and there are tokens that end such an expression (`Binding.ends`). `Reads` says
that some tokens are an expression in such surroundings. An operand may be longer than the tokens at
hand, since `[]` may follow: `Heads` says that some tokens are an operand or the beginning of one.

There is one lemma for each form of expression.
-/

namespace TypeAssay

open Reader

/-! ## Levels -/

/-- Whether a token ends an expression in surroundings that bind so tightly. -/
def Binding.ends (b : Binding) : Token → Bool
  | .eof => true
  | .punctuation .rightParen | .punctuation .rightBracket | .punctuation .rightBrace => true
  | .punctuation .comma | .punctuation .semicolon => true
  | .punctuation .pipe => b ≠ .loose
  | .punctuation .amp => b = .postfixed
  | _ => false

/-- The reader of expressions whose parts nest `n` deep, in surroundings that bind so tightly. -/
def Binding.reader (b : Binding) (n : Nat) : Reader TypeExpr :=
  match b with
  | .loose => unionExpr (operandAt n)
  | .member => intersectionExpr (operandAt n)
  | .postfixed => operandAt n

/-- The tokens are an expression in such surroundings, and the expression satisfies `Q`. -/
def Reads (n : Nat) (b : Binding) (ts : List Token) (Q : TypeExpr → Prop) : Prop :=
  ∀ u after, b.ends u → (b.reader n).Accepts ts (u :: after) Q

/-- The tokens are an operand unless `[]` follows: behind them, its arrays are read. -/
def Heads (n : Nat) (ts : List Token) (Q : TypeExpr → Prop) : Prop :=
  ∀ u after, u ≠ .punctuation .less → ∀ c : Cursor, c.tokens = ts ++ u :: after →
    ∃ e k c', (operandAt n).on c = (arraySuffixes e k).on c' ∧ c'.tokens = u :: after ∧
      after.length < k ∧ Q e

/-- Whether an operand can start with a token. -/
def startsOperand : Token → Bool
  | .identifier _ | .number _ | .bigint _ | .string _ | .keyword .readonly => true
  | .punctuation .minus | .punctuation .leftParen => true
  | .punctuation .leftBracket | .punctuation .leftBrace => true
  | _ => false

/-- The first token is one that an operand can start with. -/
def StartsOperand (ts : List Token) : Prop := ∃ t rest, ts = t :: rest ∧ startsOperand t

variable {n : Nat} {b : Binding} {ts after : List Token} {u : Token} {Q : TypeExpr → Prop}

/-- What ends an expression also ends one in tighter surroundings. -/
theorem Binding.ends_tighter {b' : Binding} (h : b.ends u)
    (hb : (b ≠ .loose → b' ≠ .loose) ∧ (b = .postfixed → b' = .postfixed)) : b'.ends u := by
  cases u with
  | punctuation p =>
    cases p with
    | pipe => exact decide_eq_true (hb.1 (of_decide_eq_true h))
    | amp => exact decide_eq_true (hb.2 (of_decide_eq_true h))
    | rightParen | rightBracket | rightBrace | comma | semicolon => rfl
    | _ => exact absurd h Bool.false_ne_true
  | eof => rfl
  | _ => exact absurd h Bool.false_ne_true

/-- Tokens of two kinds differ. -/
theorem ne_of_kind {kind : Token → Bool} {v : Token} (hu : kind u) (hv : kind v = false) : u ≠ v :=
  ne_of_apply_ne kind (by rw [hu, hv]; decide)

/-! ## From tighter to looser surroundings -/

/-- An operand is an intersection of one. -/
theorem Reads.member (h : Reads n .postfixed ts Q) : Reads n .member ts Q := by
  intro u after hu
  have hne : u ≠ .punctuation .amp := ne_of_kind hu rfl
  have hone := accepts_separated_one (h u after (Binding.ends_tighter hu (by simp))) hne
  refine accepts_get fun c _ => ?_
  refine hone.bind_nil ?_
  rintro _ ⟨e, rfl, he⟩
  exact .pure he

/-- An intersection is a union of one. -/
theorem Reads.loose (h : Reads n .member ts Q) (hstart : StartsOperand ts) :
    Reads n .loose ts Q := by
  intro u after hu
  have hne : u ≠ .punctuation .pipe := ne_of_kind hu rfl
  obtain ⟨t, rest, rfl, ht⟩ := hstart
  have hone := accepts_separated_one (h u after (Binding.ends_tighter hu (by simp))) hne
  refine accepts_get fun c _ => ?_
  refine Accepts.bind (s := []) (accepts_eat_not (ne_of_kind ht rfl)) ?_
  rintro _ rfl
  refine hone.bind_nil ?_
  rintro _ ⟨e, rfl, he⟩
  exact .pure he

section

variable {β : Type} {spell : β → List Token} {Q : β → TypeExpr → Prop} {xs : List β}

/-- Two or more operands with `&` between them. -/
theorem reads_intersection (htwo : 2 ≤ xs.length)
    (hxs : ∀ x ∈ xs, Reads n .postfixed (spell x) (Q x)) :
    Reads n .member (Punctuation.between .amp (xs.map spell)) fun e =>
      ∃ es span, e = .intersection es span ∧ List.Forall₂ Q xs es := by
  intro u after hu
  have hne : u ≠ .punctuation .amp := ne_of_kind hu rfl
  match xs, htwo with
  | x :: y :: ys, _ =>
    have hmembers : (separated .amp (operandAt n)).Accepts
        (Punctuation.between .amp ((x :: y :: ys).map spell)) (u :: after)
        (List.Forall₂ Q (x :: y :: ys)) :=
      accepts_separated (S := (Binding.postfixed.ends ·)) hxs rfl
        (Binding.ends_tighter hu (by simp)) hne
    refine accepts_get fun c _ => ?_
    refine hmembers.bind_nil fun es hes => ?_
    match es, hes with
    | e :: e' :: es, hes =>
      refine accepts_get fun c' _ => ?_
      exact .pure ⟨_, _, rfl, hes⟩

/-- Two or more intersections with `|` between them. -/
theorem reads_union (htwo : 2 ≤ xs.length) (hxs : ∀ x ∈ xs, Reads n .member (spell x) (Q x))
    (hstart : StartsOperand (Punctuation.between .pipe (xs.map spell))) :
    Reads n .loose (Punctuation.between .pipe (xs.map spell)) fun e =>
      ∃ es span, e = .union es span ∧ List.Forall₂ Q xs es := by
  intro u after hu
  have hne : u ≠ .punctuation .pipe := ne_of_kind hu rfl
  obtain ⟨t, rest, hts, ht⟩ := hstart
  have hbar : (eat .pipe).Accepts [] (Punctuation.between .pipe (xs.map spell) ++ u :: after)
      (· = false) := by
    rw [hts]
    exact accepts_eat_not (ne_of_kind ht rfl)
  match xs, htwo with
  | x :: y :: ys, _ =>
    have hmembers : (separated .pipe (intersectionExpr (operandAt n))).Accepts
        (Punctuation.between .pipe ((x :: y :: ys).map spell)) (u :: after)
        (List.Forall₂ Q (x :: y :: ys)) :=
      accepts_separated (S := (Binding.member.ends ·)) hxs rfl
        (Binding.ends_tighter hu (by simp)) hne
    refine accepts_get fun c _ => ?_
    refine Accepts.bind (s := []) hbar ?_
    rintro _ rfl
    refine hmembers.bind_nil fun es hes => ?_
    match es, hes with
    | e :: e' :: es, hes =>
      refine accepts_get fun c' _ => ?_
      exact .pure ⟨_, _, rfl, hes⟩

end

/-! ## Operands and the arrays behind them -/

/-- One pair of brackets makes an array of what was read before. -/
theorem on_arraySuffixes_succ (c : Cursor) (e : TypeExpr) (k : Nat) :
    (arraySuffixes e (k + 1)).on c =
      if c.sees .leftBracket && c.next? = some (.punctuation .rightBracket) then
        (arraySuffixes (.array e false (e.span.merge c.advance.span)) k).on c.advance.advance
      else (.ok e, c) := by
  change Reader.on (if c.sees .leftBracket && c.next? = some (.punctuation .rightBracket) then _
    else _) c = _
  split <;> rfl

/-- Where no bracket follows, no array is made. -/
theorem on_arraySuffixes {c : Cursor} {e : TypeExpr} {k : Nat} (hc : c.tokens = u :: after)
    (hu : u ≠ .punctuation .leftBracket) : (arraySuffixes e k).on c = (.ok e, c) := by
  cases k with
  | zero => rfl
  | succ k =>
    have hsees : c.sees .leftBracket = false := by
      rw [Cursor.sees_of_tokens hc]
      exact decide_eq_false hu
    rw [on_arraySuffixes_succ, hsees]
    rfl

/-- What no `[]` follows is an operand. -/
theorem Heads.reads (h : Heads n ts Q) : Reads n .postfixed ts Q := by
  intro u after hu c hc
  have hless : u ≠ .punctuation .less := ne_of_kind hu rfl
  have hbracket : u ≠ .punctuation .leftBracket := ne_of_kind hu rfl
  obtain ⟨e, k, c', hon, hc', _, he⟩ := h u after hless c hc
  exact ⟨e, c', hon.trans (on_arraySuffixes hc' hbracket), hc', he⟩

/-- The beginning of an operand and `[]` are the beginning of an operand. -/
theorem Heads.array (h : Heads n ts Q) :
    Heads n (ts ++ [.punctuation .leftBracket, .punctuation .rightBracket]) fun x =>
      ∃ e span, x = .array e false span ∧ Q e := by
  intro u after hless c hc
  rw [List.append_assoc] at hc
  obtain ⟨e, k, c', hon, hc', hk, he⟩ :=
    h (.punctuation .leftBracket) (.punctuation .rightBracket :: u :: after) (by decide) c hc
  obtain ⟨k, rfl⟩ : ∃ j, k = j + 1 := Nat.exists_eq_add_one.mpr (by omega)
  have hsees : c'.sees .leftBracket = true := by rw [Cursor.sees_of_tokens hc']; rfl
  have hnext : c'.next? = some (.punctuation .rightBracket) := Cursor.next?_of_tokens hc'
  have hc₁ := Cursor.tokens_advance hc'
  have hstep : (arraySuffixes e (k + 1)).on c' =
      (arraySuffixes (.array e false (e.span.merge c'.advance.span)) k).on c'.advance.advance := by
    rw [on_arraySuffixes_succ, hsees, hnext]
    rfl
  refine ⟨_, k, _, hon.trans hstep, Cursor.tokens_advance hc₁, ?_, _, _, rfl, he⟩
  simp only [List.length_cons] at hk
  omega

/-- The reader of what stands behind `readonly` in an operand whose parts nest `n` deep. -/
def operandBelow : Nat → Reader TypeExpr
  | 0 => nestedTooDeep
  | n + 1 => operandAt n

/-- An operand is read by the one rule at every depth. -/
theorem operandAt_eq (n : Nat) : operandAt n = operandExpr (typeAt n) (operandBelow n) := by
  cases n <;> rfl

/-- A primary expression is the beginning of an operand. -/
theorem heads_of_primary (h : ∀ u after, u ≠ .punctuation .less →
      (primaryExpr (typeAt n) (operandBelow n)).Accepts ts (u :: after) Q) : Heads n ts Q := by
  intro u after hless c hc
  obtain ⟨e, c', hon, hc', he⟩ := h u after hless c hc
  refine ⟨e, c'.rest.length + 1, c', ?_, hc', ?_, he⟩
  · rw [operandAt_eq, operandExpr, on_bind_ok hon]
    rfl
  · rw [Cursor.length_rest_of_tokens hc', List.length_cons]
    exact Nat.lt_succ_self _

/-! ## Primary expressions -/

/-- The expression that a single token is, but for its place. -/
def Token.value? : Token → Option (Span → TypeExpr)
  | .number value => some (.number value)
  | .bigint digits => some (.bigint digits)
  | .string value => some (.string value)
  | _ => none

/-- The expression that a token behind a minus sign is, but for its place. -/
def Token.negated? : Token → Option (Span → TypeExpr)
  | .number value => some (.number value.neg)
  | .bigint digits => some (.bigint ("-" ++ digits))
  | _ => none

section

variable {type operand : Reader TypeExpr}

/-- A name without arguments stands for itself. -/
theorem accepts_named {name : String} (hu : u ≠ .punctuation .less) :
    (primaryExpr type operand).Accepts [.identifier name] (u :: after) fun x =>
      ∃ span, x = .named name [] span := by
  refine accepts_get fun c hc => ?_
  rw [Cursor.token_of_tokens hc]
  refine accepts_get fun c' _ => ?_
  refine (accepts_advance _ (by simp)).bind_nil fun _ _ => ?_
  refine accepts_get fun c'' hc'' => ?_
  rw [Cursor.sees_of_tokens hc'', if_neg (by simpa using hu)]
  refine Accepts.bind (s := []) (.pure rfl) ?_
  rintro _ rfl
  exact accepts_get fun _ _ => .pure ⟨_, rfl⟩

/-- A literal is read from its token. -/
theorem accepts_value {t : Token} {e : Span → TypeExpr} (ht : t.value? = some e) :
    (primaryExpr type operand).Accepts [t] (u :: after) fun x => ∃ span, x = e span := by
  refine accepts_get fun c hc => ?_
  rw [Cursor.token_of_tokens hc]
  cases t with
  | number _ | bigint _ | string _ =>
    obtain rfl := Option.some.inj ht
    exact (accepts_advance _ (by simp)).bind_nil fun _ _ => .pure ⟨_, rfl⟩
  | keyword _ | identifier _ | punctuation _ | eof => exact absurd ht (by simp [Token.value?])

/-- A number behind a minus sign is read with the sign. -/
theorem accepts_negated {t : Token} {e : Span → TypeExpr} (ht : t.negated? = some e) :
    (primaryExpr type operand).Accepts [.punctuation .minus, t] (u :: after) fun x =>
      ∃ span, x = e span := by
  refine accepts_get fun c hc => ?_
  rw [Cursor.token_of_tokens hc]
  refine accepts_get fun c' _ => ?_
  refine Accepts.bind (s := [.punctuation .minus]) (accepts_advance _ (by simp)) fun _ _ => ?_
  refine accepts_get fun c'' hc'' => ?_
  rw [Cursor.token_of_tokens hc'']
  cases t with
  | number _ | bigint _ =>
    obtain rfl := Option.some.inj ht
    exact (accepts_advance _ (by simp)).bind_nil fun _ _ => .pure ⟨_, rfl⟩
  | keyword _ | identifier _ | string _ | punctuation _ | eof =>
    exact absurd ht (by simp [Token.negated?])

end

/-- An expression in parentheses is that expression at another place. -/
theorem heads_parenthesized (h : Reads n .loose ts Q) :
    Heads (n + 1) (.punctuation .leftParen :: ts ++ [.punctuation .rightParen]) fun x =>
      ∃ e span, x = e.withSpan span ∧ Q e := by
  refine heads_of_primary fun u after _ => ?_
  refine accepts_get fun c hc => ?_
  rw [Cursor.token_of_tokens hc]
  refine Accepts.bind (s := [.punctuation .leftParen]) (accepts_expect (by simp)) fun _ _ => ?_
  refine (h (.punctuation .rightParen) (u :: after) rfl).bind fun e he => ?_
  exact (accepts_expect (by simp)).bind_nil fun _ _ => .pure ⟨e, _, rfl, he⟩

section

variable {β : Type} {spell : β → List Token} {Q : β → TypeExpr → Prop} {xs : List β}

/-- Elements with commas between them, in brackets, are a tuple. -/
theorem accepts_tupleExpr (hafter : after ≠ []) (hstart : ∀ x ∈ xs, StartsOperand (spell x))
    (hxs : ∀ x ∈ xs, ∃ m, n = m + 1 ∧ Reads m .loose (spell x) (Q x)) :
    (tupleExpr (typeAt n)).Accepts ([.punctuation .leftBracket] ++
        (Punctuation.between .comma (xs.map spell) ++ [.punctuation .rightBracket])) after fun x =>
      ∃ (start : Span) (es : List TypeExpr) (stop : Span),
        x = .tuple es false (start.merge stop) ∧ List.Forall₂ Q xs es := by
  rw [tupleExpr]
  refine accepts_enclosed (S := (Binding.loose.ends ·))
    (f := fun (start : Span) es stop => TypeExpr.tuple es false (start.merge stop)) hafter
    (fun rest h => accepts_eat h) (accepts_eat_not (by simp)) (fun x hx => ?_)
    (fun x hx v rest hv => ?_) rfl rfl
  · obtain ⟨t, ts, hts, ht⟩ := hstart x hx
    exact ⟨t, ts, hts, ne_of_kind ht rfl⟩
  · obtain ⟨m, rfl, hm⟩ := hxs x hx
    exact hm v rest hv

/-- A tuple. Its elements nest one level less deep. -/
theorem heads_tuple (hstart : ∀ x ∈ xs, StartsOperand (spell x))
    (hxs : ∀ x ∈ xs, ∃ m, n = m + 1 ∧ Reads m .loose (spell x) (Q x)) :
    Heads n ([.punctuation .leftBracket] ++
        (Punctuation.between .comma (xs.map spell) ++ [.punctuation .rightBracket])) fun x =>
      ∃ es span, x = .tuple es false span ∧ List.Forall₂ Q xs es := by
  refine heads_of_primary fun u after _ => accepts_get fun c hc => ?_
  rw [Cursor.token_of_tokens hc]
  refine (accepts_tupleExpr (by simp) hstart hxs).mono ?_
  rintro _ ⟨start, es, stop, rfl, hes⟩
  exact ⟨es, _, rfl, hes⟩

end

/-! ## Properties -/

/-- The tokens of a property before the colon. -/
def Property.labelTokens (p : Property) : List Token :=
  (if p.readonly then [.keyword .readonly] else []) ++
    (wordToken p.name :: if p.optional then [.punctuation .question] else [])

/-- Every word may name a property, keywords, too. -/
theorem propertyName?_wordToken (name : String) : propertyName? (wordToken name) = some name := by
  rw [wordToken]
  split
  · rename_i k hk
    have hspelling : k.spelling = name := by simpa using List.find?_some hk
    rw [propertyName?, hspelling]
  · rfl

/-- No word is a mark. -/
theorem wordToken_ne_punctuation (name : String) (p : Punctuation) :
    wordToken name ≠ .punctuation p := by
  rw [wordToken]
  split <;> simp

/-- A word after `readonly` makes it a modifier; a colon or a question mark makes it a name. -/
theorem readonlyIsModifier_of_tokens {c : Cursor} {p : Property}
    (hc : c.tokens = p.labelTokens ++ (.punctuation .colon :: after)) :
    readonlyIsModifier c = p.readonly := by
  rw [Property.labelTokens] at hc
  cases hreadonly : p.readonly with
  | true =>
    rw [hreadonly] at hc
    have htoken : c.token = .keyword .readonly := Cursor.token_of_tokens hc
    have hnext : c.next? = some (wordToken p.name) := Cursor.next?_of_tokens hc
    simp [readonlyIsModifier, htoken, hnext, wordToken_ne_punctuation]
  | false =>
    rw [hreadonly] at hc
    have hnext : c.next? = some (.punctuation (if p.optional then .question else .colon)) := by
      rw [Cursor.next?_of_tokens hc]
      cases p.optional <;> rfl
    rw [readonlyIsModifier, hnext]
    cases p.optional <;> simp

/-- The expression of a property, when `Q` holds of the expression of its type. -/
def IsPropertyExpr (Q : Property → TypeExpr → Prop) (p : Property) (x : PropertyExpr) : Prop :=
  ∃ e span, x = .mk p.name e p.optional p.readonly span ∧ Q p e

section

variable {type : Reader TypeExpr} {p : Property} {Q : Property → TypeExpr → Prop}

/-- What is read of a property behind its modifier. -/
theorem accepts_propertyBody (hts : ts ≠ []) (h : type.Accepts ts after (Q p)) (start : Span) :
    Accepts (do
        match propertyName? (← get).token with
        | none => fail .propertyName
        | some name =>
          advance
          let optional ← eat .question
          let _ ← expect .colon
          let value ← type
          return .mk name value optional p.readonly (start.merge value.span) : Reader PropertyExpr)
      ([wordToken p.name] ++ ((if p.optional then [.punctuation .question] else []) ++
        ([.punctuation .colon] ++ ts))) after (IsPropertyExpr Q p) := by
  have hquestion : (eat .question).Accepts
      (if p.optional then [.punctuation .question] else [])
      ([.punctuation .colon] ++ ts ++ after) (· = p.optional) := by
    cases p.optional with
    | true => exact accepts_eat (by simp)
    | false => exact accepts_eat_not (by simp)
  refine accepts_get fun c hc => ?_
  rw [Cursor.token_of_tokens hc, propertyName?_wordToken]
  refine (accepts_advance _ (by simp)).bind fun _ _ => ?_
  refine hquestion.bind ?_
  rintro _ rfl
  refine (accepts_expect (by simp [hts])).bind fun _ _ => ?_
  exact h.bind_nil fun e he => .pure ⟨e, _, rfl, he⟩

/-- A property is read from its label and its type. -/
theorem accepts_propertyExpr (hts : ts ≠ []) (h : type.Accepts ts after (Q p)) :
    (propertyExpr type).Accepts (p.labelTokens ++ (.punctuation .colon :: ts)) after
      (IsPropertyExpr Q p) := by
  have htokens : p.labelTokens ++ (.punctuation .colon :: ts) =
      (if p.readonly then [.keyword .readonly] else []) ++ ([wordToken p.name] ++
        ((if p.optional then [.punctuation .question] else []) ++
          ([.punctuation .colon] ++ ts))) := by
    simp [Property.labelTokens]
  rw [propertyExpr]
  refine accepts_get fun c hc => ?_
  rw [List.append_assoc] at hc
  rw [readonlyIsModifier_of_tokens hc, htokens]
  have hbody := accepts_propertyBody hts h c.span
  cases hreadonly : p.readonly with
  | true =>
    rw [hreadonly] at hbody
    exact Accepts.bind (s := [.keyword .readonly]) (accepts_advance _ (by simp)) fun _ _ => hbody
  | false =>
    rw [hreadonly] at hbody
    exact hbody

end

/-- A semicolon separates properties. -/
theorem accepts_eatPropertySeparator (hafter : after ≠ []) :
    eatPropertySeparator.Accepts [.punctuation .semicolon] after (· = true) := by
  refine Accepts.bind (s := []) (accepts_eat_not (by simp)) ?_
  rintro _ rfl
  exact accepts_eat hafter

/-- A closing brace does not. -/
theorem accepts_eatPropertySeparator_not :
    eatPropertySeparator.Accepts [] (.punctuation .rightBrace :: after) (· = false) := by
  refine Accepts.bind (s := []) (accepts_eat_not (by simp)) ?_
  rintro _ rfl
  exact accepts_eat_not (by simp)

section

variable {spell : Property → List Token} {Q : Property → TypeExpr → Prop} {ps : List Property}

/-- Properties with semicolons between them, in braces, are an object type. -/
theorem accepts_objectExpr (hafter : after ≠ []) (hstart : ∀ p ∈ ps, StartsOperand (spell p))
    (hps : ∀ p ∈ ps, ∃ m, n = m + 1 ∧ Reads m .loose (spell p) (Q p)) :
    (objectExpr (typeAt n)).Accepts ([.punctuation .leftBrace] ++
        (Punctuation.between .semicolon
          (ps.map fun p => p.labelTokens ++ (.punctuation .colon :: spell p)) ++
            [.punctuation .rightBrace])) after fun x =>
      ∃ (start : Span) (es : List PropertyExpr) (stop : Span),
        x = .object es (start.merge stop) ∧ List.Forall₂ (IsPropertyExpr Q) ps es := by
  rw [objectExpr]
  refine accepts_enclosed (S := (Binding.loose.ends ·))
    (f := fun (start : Span) es stop => TypeExpr.object es (start.merge stop)) hafter
    (fun rest h => accepts_eatPropertySeparator h) accepts_eatPropertySeparator_not
    (fun p _ => ?_) (fun p hp v rest hv => ?_) rfl rfl
  · rw [Property.labelTokens]
    cases p.readonly with
    | true => exact ⟨_, _, rfl, by simp⟩
    | false => exact ⟨_, _, rfl, wordToken_ne_punctuation _ _⟩
  · obtain ⟨t, ts, hts, _⟩ := hstart p hp
    obtain ⟨m, rfl, hm⟩ := hps p hp
    exact accepts_propertyExpr (by simp [hts]) (hm v rest hv)

/-- An object. The types of its properties nest one level less deep. -/
theorem heads_object (hstart : ∀ p ∈ ps, StartsOperand (spell p))
    (hps : ∀ p ∈ ps, ∃ m, n = m + 1 ∧ Reads m .loose (spell p) (Q p)) :
    Heads n ([.punctuation .leftBrace] ++
        (Punctuation.between .semicolon
          (ps.map fun p => p.labelTokens ++ (.punctuation .colon :: spell p)) ++
            [.punctuation .rightBrace])) fun x =>
      ∃ es span, x = .object es span ∧ List.Forall₂ (IsPropertyExpr Q) ps es := by
  refine heads_of_primary fun u after _ => accepts_get fun c hc => ?_
  rw [Cursor.token_of_tokens hc]
  refine (accepts_objectExpr (by simp) hstart hps).mono ?_
  rintro _ ⟨start, es, stop, rfl, hes⟩
  exact ⟨es, _, rfl, hes⟩

end

/-! ## Readonly sequences -/

/-- The sequence is `R` once it is readonly. -/
def IsMutableOf (R : TypeExpr → Prop) (x : TypeExpr) : Prop :=
  (∃ e span, x = .array e false span ∧ ∀ span', R (.array e true span')) ∨
    ∃ es span, x = .tuple es false span ∧ ∀ span', R (.tuple es true span')

/-- A sequence after `readonly` is an operand. It is no beginning of one: `[]` behind it would
belong to what `readonly` applies to. -/
theorem Heads.readonly (h : Heads n ts (IsMutableOf Q)) :
    Reads (n + 1) .postfixed ([.keyword .readonly] ++ ts) Q := by
  intro u after hu
  have hinner := h.reads u after hu
  have hprimary : (primaryExpr (typeAt (n + 1)) (operandAt n)).Accepts
      ([.keyword .readonly] ++ ts) (u :: after) Q := by
    refine accepts_get fun c hc => ?_
    rw [Cursor.token_of_tokens hc]
    refine (accepts_expectKeyword (by simp)).bind fun _ _ => ?_
    refine hinner.bind_nil ?_
    rintro _ (⟨e, span, rfl, hR⟩ | ⟨es, span, rfl, hR⟩)
    · exact .pure (hR _)
    · exact .pure (hR _)
  have hbracket : u ≠ .punctuation .leftBracket := ne_of_kind hu rfl
  refine hprimary.bind_nil fun e he => ?_
  refine Accepts.bind (s := []) accepts_ahead ?_
  rintro k rfl c hc
  exact ⟨e, c, on_arraySuffixes hc hbracket, hc, he⟩

end TypeAssay
