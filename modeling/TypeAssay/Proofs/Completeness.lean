import TypeAssay.Proofs.Derivations

/-!
# Everything derived is read

A phrase is read by the reader of its form, so long as what comes next does not go on with it
(`Phrase.IsRead`). The induction is on the derivation: the readers of its parts stop where the parts
stop, since the mark behind a part ends it, and a loop goes on exactly over the parts that are
there.

* `typeExpr_exact` : a type expression is read exactly where the accepted grammar derives one.
-/

namespace TypeAssay

open Reader

/-! ## What ends a phrase -/

namespace Cursor

/-- What comes next does not go on with an operand. -/
structure EndsOperand (c : Cursor) : Prop where
  less : c.sees .less = false
  array : c.arrayAhead = false

/-- What comes next does not go on with an intersection. -/
structure EndsIntersection (c : Cursor) : Prop extends EndsOperand c where
  amp : c.sees .amp = false

/-- What comes next does not go on with an expression: it is neither `|`, `&` nor `<`, nor is it a
`[` with a `]` directly behind it. -/
structure EndsExpression (c : Cursor) : Prop extends EndsIntersection c where
  pipe : c.sees .pipe = false

variable {c : Cursor} {p q : Punctuation}

/-- One mark is not another. -/
theorem sees_eq_false (h : c.current.token = .punctuation p) (hne : p ≠ q) : c.sees q = false := by
  rw [sees, Cursor.token, h]
  simpa using hne

/-- Most marks do not go on with an operand. -/
theorem endsOperand_of_mark (h : c.current.token = .punctuation p) (hless : p ≠ .less)
    (hbracket : p ≠ .leftBracket) : c.EndsOperand where
  less := sees_eq_false h hless
  array := by rw [arrayAhead, sees_eq_false h hbracket, Bool.false_and]

/-- Most marks do not go on with an intersection. -/
theorem endsIntersection_of_mark (h : c.current.token = .punctuation p) (hless : p ≠ .less)
    (hbracket : p ≠ .leftBracket) (hamp : p ≠ .amp) : c.EndsIntersection where
  toEndsOperand := endsOperand_of_mark h hless hbracket
  amp := sees_eq_false h hamp

/-- Most marks do not go on with an expression. -/
theorem endsExpression_of_mark (h : c.current.token = .punctuation p) (hless : p ≠ .less)
    (hbracket : p ≠ .leftBracket) (hamp : p ≠ .amp) (hpipe : p ≠ .pipe) : c.EndsExpression where
  toEndsIntersection := endsIntersection_of_mark h hless hbracket hamp
  pipe := sees_eq_false h hpipe

/-- Where there is a token ahead, it comes next. -/
theorem next?_eq (h : c.rest ≠ []) : c.next? = some c.advance.token := by
  obtain ⟨t, rest, hrest⟩ := List.exists_cons_of_ne_nil h
  rw [advance_eq hrest, next?, hrest]
  rfl

end Cursor

open Cursor

/-- Wherever its tokens stand, the phrase is read from them, unless what comes next goes on with
it. -/
def Phrase.IsRead (n : Nat) (ts : List LocatedToken) : Phrase → Prop
  | .primary e => ∀ c c' : Cursor, c.Moves ts c' → c'.sees .less = false →
      (primaryExpr (typeAt n) (operandBelow n)).on c = (.ok e, c')
  | .suffixed e => ∀ c c' : Cursor, c.Moves ts c' → c'.sees .less = false →
      ∃ k, c'.rest.length < k ∧ (operandAt n).on c = (arraySuffixes e k).on c'
  | .operand e => ∀ c c' : Cursor, c.Moves ts c' → c'.EndsOperand →
      (operandAt n).on c = (.ok e, c')
  | .intersection e => ∀ c c' : Cursor, c.Moves ts c' → c'.EndsIntersection →
      (intersectionExpr (operandAt n)).on c = (.ok e, c')
  | .expression e => ∀ c c' : Cursor, c.Moves ts c' → c'.EndsExpression →
      (typeAt n).on c = (.ok e, c')
  | .property p => ∀ c c' : Cursor, c.Moves ts c' → c'.EndsExpression →
      (propertyExpr (typeAt n)).on c = (.ok p, c')

/-! ## One lemma for each form -/

section

variable {n : Nat} {c c' : Cursor} {ts us : List LocatedToken} {t left right : LocatedToken}
  {name : String} {e : TypeExpr} {type operand : Reader TypeExpr}

/-- A token that is a value by itself is read. -/
theorem on_primaryExpr_value {f : Span → TypeExpr} (hf : t.token.value? = some f)
    (hmoves : c.Moves [t] c') : (primaryExpr type operand).on c = (.ok (f t.span), c') := by
  obtain ⟨rfl, rfl⟩ := hmoves.of_one
  rw [primaryExpr, on_get_bind]
  cases htoken : c.current.token with
  | number _ | bigint _ | string _ =>
    rw [htoken] at hf
    obtain rfl := Option.some.inj hf
    rw [Cursor.token, htoken]
    rfl
  | keyword _ | identifier _ | punctuation _ | eof => simp [htoken, Token.value?] at hf

/-- A numeral with a minus sign is read. -/
theorem on_primaryExpr_negated {minus : LocatedToken} {f : Span → TypeExpr}
    (hminus : minus.token = .punctuation .minus) (hf : t.token.negated? = some f)
    (hmoves : c.Moves [minus, t] c') :
    (primaryExpr type operand).on c = (.ok (f (minus.span.merge t.span)), c') := by
  obtain ⟨rfl, -, hmoves⟩ := Moves.cons_iff.mp hmoves
  obtain ⟨rfl, rfl⟩ := hmoves.of_one
  have hnegative : (primaryExpr type operand).on c = negativeExpr.on c := by
    rw [primaryExpr, on_get_bind, Cursor.token, hminus]
  rw [hnegative, negativeExpr, on_get_bind, on_bind_ok on_advance, on_get_bind]
  cases htoken : c.advance.current.token with
  | number _ | bigint _ =>
    rw [htoken] at hf
    obtain rfl := Option.some.inj hf
    rw [Cursor.token, htoken]
    rfl
  | keyword _ | identifier _ | string _ | punctuation _ | eof => simp [htoken, Token.negated?] at hf

/-- What starts with an identifier is read as a name. -/
theorem on_primaryExpr_identifier (ht : c.current.token = .identifier name) :
    (primaryExpr type operand).on c = (namedExpr type name).on c := by
  rw [primaryExpr, on_get_bind, Cursor.token, ht]

/-- A name without arguments is read, if no `<` follows it. -/
theorem on_primaryExpr_name (ht : t.token = .identifier name) (hmoves : c.Moves [t] c')
    (hless : c'.sees .less = false) :
    (primaryExpr type operand).on c = (.ok (.named name [] (cover [t])), c') := by
  have hcover := hmoves.merge_previous (List.cons_ne_nil _ _)
  obtain ⟨rfl, rfl⟩ := hmoves.of_one
  rw [on_primaryExpr_identifier ht, namedExpr, on_get_bind, on_bind_ok on_advance, on_get_bind,
    hless, ← hcover]
  rfl

/-- The parts of a list are expressions, which do not start with the mark behind the list. -/
theorem starts_expression {closing : Punctuation} {parts : List (Part TypeExpr)}
    (hparts : ∀ q ∈ parts, Derives .accepted n q.1 (.expression q.2))
    (hclosing : startsOperand (.punctuation closing) = false) (hpipe : closing ≠ .pipe) :
    ∀ q ∈ parts, ∃ t us, q.1 = t :: us ∧ t.token ≠ .punctuation closing := by
  intro q hq
  obtain ⟨t, us, hts, ht⟩ := (hparts q hq).starts
  refine ⟨t, us, hts, ?_⟩
  rcases ht with ht | ht
  · exact ne_of_kind ht hclosing
  · rw [ht]
    simpa using hpipe.symm

/-- A comma goes on with a list of expressions. -/
theorem comma_goes_on (c : Cursor) (h : c.current.token = .punctuation .comma) :
    c.EndsExpression ∧ (eat .comma).on c = (.ok true, c.advance) :=
  ⟨endsExpression_of_mark h (by decide) (by decide) (by decide) (by decide),
    on_eat (sees_iff.mpr h)⟩

/-- A closing mark ends a list of expressions. -/
theorem closing_ends {closing : Punctuation} (h : c.sees closing)
    (hclosing : closing = .rightBracket ∨ closing = .greater) :
    c.EndsExpression ∧ (eat .comma).on c = (.ok false, c) := by
  have htoken := sees_iff.mp h
  rcases hclosing with rfl | rfl
  all_goals
    exact ⟨endsExpression_of_mark htoken (by decide) (by decide) (by decide) (by decide),
      on_eat_not (sees_eq_false htoken (by decide))⟩

/-- A list of expressions in angle brackets is read as type arguments. -/
theorem on_typeArguments {arg : Part TypeExpr} {args : List (Part TypeExpr)}
    (hleft : left.token = .punctuation .less) (hright : right.token = .punctuation .greater)
    (hargs : ∀ q ∈ arg :: args, Derives .accepted n q.1 (.expression q.2))
    (hread : ∀ q ∈ arg :: args, Phrase.IsRead n q.1 (.expression q.2))
    (hts : Listed (· = .punctuation .comma) (arg :: args) ts)
    (hmoves : c.Moves (left :: (ts ++ [right])) c') :
    (typeArguments (typeAt n)).on c = (.ok ((arg :: args).map Prod.snd), c') := by
  obtain ⟨hless, -, hmoves⟩ := mark_of_moves hleft hmoves
  obtain ⟨d, hd, hmoves⟩ := Moves.append_iff.mp hmoves
  obtain ⟨hgreater, -, hmoves⟩ := mark_of_moves hright hmoves
  obtain rfl := hmoves.eq_of_nil
  have hend := closing_ends hgreater (.inr rfl)
  have hfirst := hread arg List.mem_cons_self
  rw [typeArguments, on_bind_ok (on_expect hless)]
  -- the first argument is read before the loop, which only a comma starts
  cases hts with
  | last _ =>
    rw [on_bind_ok (hfirst _ d hd hend.1), on_bind_ok hend.2]
    change on (expect .greater >>= _) d = _
    rw [on_bind_ok (on_expect hgreater)]
    rfl
  | cons ht hts =>
    obtain ⟨d', hd', hmoves⟩ := Moves.append_iff.mp hd
    obtain ⟨hends, hcomma⟩ := comma_goes_on d' (by rw [hmoves.current_eq]; exact ht)
    obtain ⟨-, -, hmoves⟩ := mark_of_moves ht hmoves
    have hstarts : ∀ q ∈ args, ∃ t us, q.1 = t :: us ∧ t.token ≠ .punctuation .greater :=
      starts_expression (fun q hq => hargs q (List.mem_cons_of_mem _ hq)) rfl (by decide)
    have hrest := on_upTo (S := EndsExpression) hstarts
      (fun q hq => hread q (List.mem_cons_of_mem _ hq)) comma_goes_on hts hmoves hgreater hend
      hmoves.length_le
    rw [on_bind_ok (hfirst _ d' hd' hends), on_bind_ok hcomma, if_pos rfl, on_bind_ok on_ahead,
      on_bind_ok hrest, on_bind_ok (on_expect hgreater)]
    rfl

/-- A name with arguments is read. -/
theorem on_primaryExpr_call {arg : Part TypeExpr} {args : List (Part TypeExpr)}
    (ht : t.token = .identifier name)
    (hleft : left.token = .punctuation .less) (hright : right.token = .punctuation .greater)
    (hargs : ∀ q ∈ arg :: args, Derives .accepted n q.1 (.expression q.2))
    (hread : ∀ q ∈ arg :: args, Phrase.IsRead n q.1 (.expression q.2))
    (hts : Listed (· = .punctuation .comma) (arg :: args) ts)
    (hmoves : c.Moves (t :: left :: (ts ++ [right])) c') :
    (primaryExpr (typeAt n) operand).on c = (.ok (.named name ((arg :: args).map Prod.snd)
      (cover (t :: left :: (ts ++ [right])))), c') := by
  have hcover := hmoves.merge_previous (List.cons_ne_nil _ _)
  obtain ⟨rfl, -, hmoves⟩ := Moves.cons_iff.mp hmoves
  have hless := (mark_of_moves hleft hmoves).1
  have harguments := on_typeArguments hleft hright hargs hread hts hmoves
  rw [on_primaryExpr_identifier ht, namedExpr, on_get_bind, on_bind_ok on_advance, on_get_bind,
    if_pos hless, on_bind_ok harguments, ← hcover]
  rfl

/-- A tuple is read. -/
theorem on_primaryExpr_tuple {elements : List (Part TypeExpr)}
    (hleft : left.token = .punctuation .leftBracket)
    (hright : right.token = .punctuation .rightBracket)
    (helements : ∀ q ∈ elements, Derives .accepted n q.1 (.expression q.2))
    (hread : ∀ q ∈ elements, Phrase.IsRead n q.1 (.expression q.2))
    (hts : Listed (· = .punctuation .comma) elements ts)
    (hmoves : c.Moves (left :: (ts ++ [right])) c') :
    (primaryExpr (typeAt n) operand).on c =
      (.ok (.tuple (elements.map Prod.snd) false (left.span.merge right.span)), c') := by
  obtain ⟨hopening, hspan, hmoves⟩ := mark_of_moves hleft hmoves
  obtain ⟨d, hd, hmoves⟩ := Moves.append_iff.mp hmoves
  obtain ⟨hclosing, hspan', hmoves⟩ := mark_of_moves hright hmoves
  obtain rfl := hmoves.eq_of_nil
  have htuple : (primaryExpr (typeAt n) operand).on c = (tupleExpr (typeAt n)).on c := by
    rw [primaryExpr, on_get_bind, Cursor.token, sees_iff.mp hopening]
  have hlist := on_upTo (S := EndsExpression) (starts_expression helements rfl (by decide)) hread
    comma_goes_on hts hd hclosing (closing_ends hclosing (.inl rfl)) hd.length_le
  rw [htuple, tupleExpr, on_bind_ok (on_expect hopening), on_bind_ok on_ahead, on_bind_ok hlist,
    on_bind_ok (on_expect hclosing), hspan, hspan']
  rfl

/-- An expression in parentheses is read. -/
theorem on_primaryExpr_parentheses (hleft : left.token = .punctuation .leftParen)
    (hright : right.token = .punctuation .rightParen)
    (hread : Phrase.IsRead n ts (.expression e)) (hmoves : c.Moves (left :: (ts ++ [right])) c') :
    (primaryExpr (typeAt n) operand).on c =
      (.ok (e.withSpan (left.span.merge right.span)), c') := by
  obtain ⟨hopening, hspan, hmoves⟩ := mark_of_moves hleft hmoves
  obtain ⟨d, hd, hmoves⟩ := Moves.append_iff.mp hmoves
  obtain ⟨hclosing, hspan', hmoves⟩ := mark_of_moves hright hmoves
  obtain rfl := hmoves.eq_of_nil
  have hparenthesized :
      (primaryExpr (typeAt n) operand).on c = (parenthesized (typeAt n)).on c := by
    rw [primaryExpr, on_get_bind, Cursor.token, sees_iff.mp hopening]
  have hend := endsExpression_of_mark (sees_iff.mp hclosing) (by decide) (by decide) (by decide)
    (by decide)
  rw [hparenthesized, parenthesized, on_bind_ok (on_expect hopening),
    on_bind_ok (hread _ d hd hend), on_bind_ok (on_expect hclosing), hspan, hspan']
  rfl

/-- A comma or a semicolon goes on with a list of properties. -/
theorem separator_goes_on (c : Cursor) (h : IsPropertySeparator c.current.token) :
    c.EndsExpression ∧ eatPropertySeparator.on c = (.ok true, c.advance) := by
  rcases h with h | h
  · refine ⟨(comma_goes_on c h).1, ?_⟩
    rw [eatPropertySeparator, on_bind_ok (on_eat (sees_iff.mpr h))]
    rfl
  · refine ⟨endsExpression_of_mark h (by decide) (by decide) (by decide) (by decide), ?_⟩
    rw [eatPropertySeparator, on_bind_ok (on_eat_not (sees_eq_false h (by decide)))]
    exact on_eat (sees_iff.mpr h)

/-- A closing brace ends a list of properties. -/
theorem brace_ends (h : c.sees .rightBrace) :
    c.EndsExpression ∧ eatPropertySeparator.on c = (.ok false, c) := by
  have htoken := sees_iff.mp h
  refine ⟨endsExpression_of_mark htoken (by decide) (by decide) (by decide) (by decide), ?_⟩
  rw [eatPropertySeparator, on_bind_ok (on_eat_not (sees_eq_false htoken (by decide)))]
  exact on_eat_not (sees_eq_false htoken (by decide))

/-- Properties do not start with the brace behind them. -/
theorem starts_property {parts : List (Part PropertyExpr)}
    (hparts : ∀ q ∈ parts, Derives .accepted n q.1 (.property q.2)) :
    ∀ q ∈ parts, ∃ t us, q.1 = t :: us ∧ t.token ≠ .punctuation .rightBrace := by
  intro q hq
  obtain ⟨t, us, hts, ht⟩ := (hparts q hq).starts
  refine ⟨t, us, hts, fun h => ?_⟩
  rw [h] at ht
  exact absurd ht (by simp [Phrase.startsWith, propertyName?])

/-- An object is read. -/
theorem on_primaryExpr_object {properties : List (Part PropertyExpr)}
    (hleft : left.token = .punctuation .leftBrace)
    (hright : right.token = .punctuation .rightBrace)
    (hproperties : ∀ q ∈ properties, Derives .accepted n q.1 (.property q.2))
    (hread : ∀ q ∈ properties, Phrase.IsRead n q.1 (.property q.2))
    (hts : Listed IsPropertySeparator properties ts)
    (hmoves : c.Moves (left :: (ts ++ [right])) c') :
    (primaryExpr (typeAt n) operand).on c =
      (.ok (.object (properties.map Prod.snd) (left.span.merge right.span)), c') := by
  obtain ⟨hopening, hspan, hmoves⟩ := mark_of_moves hleft hmoves
  obtain ⟨d, hd, hmoves⟩ := Moves.append_iff.mp hmoves
  obtain ⟨hclosing, hspan', hmoves⟩ := mark_of_moves hright hmoves
  obtain rfl := hmoves.eq_of_nil
  have hobject : (primaryExpr (typeAt n) operand).on c = (objectExpr (typeAt n)).on c := by
    rw [primaryExpr, on_get_bind, Cursor.token, sees_iff.mp hopening]
  have hlist := on_upTo (S := EndsExpression) (starts_property hproperties) hread
    separator_goes_on hts hd hclosing (brace_ends hclosing) hd.length_le
  rw [hobject, objectExpr, on_bind_ok (on_expect hopening), on_bind_ok on_ahead, on_bind_ok hlist,
    on_bind_ok (on_expect hclosing), hspan, hspan']
  rfl

/-- What stands behind the modifier of a property is read. -/
theorem on_propertyBody {mark : Option LocatedToken} {colon : LocatedToken} {readonly : Bool}
    {start : Span} (hname : propertyName? t.token = some name)
    (hmark : ∀ u ∈ mark, u.token = .punctuation .question)
    (hcolon : colon.token = .punctuation .colon) (hread : Phrase.IsRead n ts (.expression e))
    (hmoves : c.Moves (t :: (mark.toList ++ colon :: ts)) c') (hend : c'.EndsExpression) :
    (propertyBody (typeAt n) readonly start).on c =
      (.ok (.mk name e mark.isSome readonly (start.merge e.span)), c') := by
  obtain ⟨rfl, -, hmoves⟩ := Moves.cons_iff.mp hmoves
  obtain ⟨d, hd, hmoves⟩ := Moves.append_iff.mp hmoves
  obtain ⟨hsees, -, hmoves⟩ := mark_of_moves hcolon hmoves
  -- the mark may be missing, and then the colon comes directly behind the name
  have heat : (eat .question).on c.advance = (.ok mark.isSome, d) := by
    cases mark with
    | none =>
      obtain rfl := hd.eq_of_nil
      exact on_eat_not (sees_eq_false (sees_iff.mp hsees) (by decide))
    | some u =>
      obtain ⟨hu, -, hd⟩ := mark_of_moves (hmark u rfl) hd
      rw [← hd.eq_of_nil]
      exact on_eat hu
  have hbody : (propertyBody (typeAt n) readonly start).on c = on (do
      advance
      let optional ← eat .question
      let _ ← expect .colon
      let value ← typeAt n
      return .mk name value optional readonly (start.merge value.span)) c := by
    rw [propertyBody, on_get_bind, Cursor.token, hname]
  rw [hbody, on_bind_ok on_advance, on_bind_ok heat, on_bind_ok (on_expect hsees),
    on_bind_ok (hread _ c' hmoves hend)]
  rfl

/-- A `readonly` is the modifier exactly when a name comes behind it. -/
theorem readonlyIsModifier_eq {modifier mark : Option LocatedToken} {colon : LocatedToken}
    (hmodifier : ∀ u ∈ modifier, u.token = .keyword .readonly)
    (hname : propertyName? t.token = some name)
    (hmark : ∀ u ∈ mark, u.token = .punctuation .question)
    (hcolon : colon.token = .punctuation .colon)
    (hmoves : c.Moves (modifier.toList ++ t :: (mark.toList ++ colon :: ts)) c') :
    readonlyIsModifier c = modifier.isSome := by
  cases modifier with
  | some u =>
    obtain ⟨hu, hrest, hmoves⟩ := Moves.cons_iff.mp hmoves
    have htoken : c.token = .keyword .readonly := by
      rw [Cursor.token, hu]
      exact hmodifier u rfl
    have hnext : c.next? = some t.token := by rw [next?_eq hrest, Cursor.token, hmoves.current_eq]
    -- a name is no mark, so the `readonly` before it is not a name itself
    have hne : ∀ p, t.token ≠ .punctuation p := by
      intro p hp
      simp [hp, propertyName?] at hname
    simp [readonlyIsModifier, htoken, hnext, hne]
  | none =>
    obtain ⟨-, hrest, hmoves⟩ := Moves.cons_iff.mp hmoves
    have hnext : c.next? = some (.punctuation (if mark.isSome then .question else .colon)) := by
      rw [next?_eq hrest, Cursor.token]
      cases mark with
      | none => rw [hmoves.current_eq, hcolon]; rfl
      | some u => rw [hmoves.current_eq, hmark u rfl]; rfl
    rw [readonlyIsModifier, hnext]
    cases mark <;> simp

/-- A property is read with its modifier. -/
theorem isRead_property {modifier mark : Option LocatedToken} {colon : LocatedToken}
    (hmodifier : ∀ u ∈ modifier, u.token = .keyword .readonly)
    (hname : propertyName? t.token = some name)
    (hmark : ∀ u ∈ mark, u.token = .punctuation .question)
    (hcolon : colon.token = .punctuation .colon) (hread : Phrase.IsRead n ts (.expression e)) :
    Phrase.IsRead n (modifier.toList ++ t :: (mark.toList ++ colon :: ts)) (.property
      (.mk name e mark.isSome modifier.isSome ((modifier.getD t).span.merge e.span))) := by
  intro c c' hmoves hend
  rw [on_propertyExpr, readonlyIsModifier_eq hmodifier hname hmark hcolon hmoves]
  cases modifier with
  | none =>
    have hspan : c.span = t.span := by rw [Cursor.span, hmoves.current_eq]
    rw [hspan]
    exact on_propertyBody hname hmark hcolon hread hmoves hend
  | some u =>
    obtain ⟨rfl, -, hmoves⟩ := Moves.cons_iff.mp hmoves
    exact on_propertyBody hname hmark hcolon hread hmoves hend

/-! ## Operands -/

/-- A primary expression is read, and the suffixes behind it are left. -/
theorem isRead_plain (hread : Phrase.IsRead n ts (.primary e)) :
    Phrase.IsRead n ts (.suffixed e) := by
  intro c c' hmoves hless
  refine ⟨c'.rest.length + 1, Nat.lt_succ_self _, ?_⟩
  rw [operandAt_eq, operandExpr, on_bind_ok (hread c c' hmoves hless), on_bind_ok on_ahead]

/-- One suffix more is read. -/
theorem isRead_array (hread : Phrase.IsRead n ts (.suffixed e))
    (hleft : left.token = .punctuation .leftBracket)
    (hright : right.token = .punctuation .rightBracket) :
    Phrase.IsRead n (ts ++ [left, right])
      (.suffixed (.array e false (e.span.merge right.span))) := by
  intro c c' hmoves _
  obtain ⟨d, hd, hmoves⟩ := Moves.append_iff.mp hmoves
  have hlength := hmoves.length_eq
  obtain ⟨rfl, hrest, hmoves⟩ := Moves.cons_iff.mp hmoves
  obtain ⟨rfl, rfl⟩ := hmoves.of_one
  -- the suffix takes one of the rounds that are left
  obtain ⟨k, hk, hon⟩ := hread c d hd (sees_eq_false hleft (by decide))
  obtain ⟨k, rfl⟩ : ∃ j, k = j + 1 := Nat.exists_eq_add_one.mpr (by omega)
  have hahead : (d.sees .leftBracket && d.next? = some (.punctuation .rightBracket)) = true := by
    rw [sees_iff.mpr hleft, next?_eq hrest, Cursor.token, hright]
    rfl
  refine ⟨k, ?_, ?_⟩
  · simp only [List.length_cons, List.length_nil] at hlength
    omega
  · rw [hon, on_arraySuffixes_succ, if_pos hahead]
    rfl

/-- What no `[]` follows is an operand. -/
theorem isRead_operand (hread : Phrase.IsRead n ts (.suffixed e)) :
    Phrase.IsRead n ts (.operand e) := by
  intro c c' hmoves hend
  obtain ⟨k, -, hon⟩ := hread c c' hmoves hend.less
  rw [hon, on_arraySuffixes_of_not_arrayAhead hend.array]

/-- A `readonly` sequence is read as an operand. -/
theorem isRead_readonly {e' : TypeExpr} (ht : t.token = .keyword .readonly)
    (he : e.asReadonly? (t.span.merge e.span) = some e')
    (hread : Phrase.IsRead n ts (.operand e)) :
    Phrase.IsRead (n + 1) (t :: ts) (.operand e') := by
  intro c c' hmoves hend
  obtain ⟨rfl, -, hmoves⟩ := Moves.cons_iff.mp hmoves
  have hprimary : (primaryExpr (typeAt (n + 1)) (operandAt n)).on c = (.ok e', c') := by
    have hreadonly : (primaryExpr (typeAt (n + 1)) (operandAt n)).on c =
        (readonlyExpr (operandAt n)).on c := by
      rw [primaryExpr, on_get_bind, Cursor.token, ht]
    have hparts : on (do
        let start ← expectKeyword .readonly
        let inner ← operandAt n
        return (inner, start.merge inner.span)) c = (.ok (e, c.span.merge e.span), c') := by
      rw [on_bind_ok (on_expectKeyword ht), on_bind_ok (hread _ c' hmoves hend)]
      rfl
    rw [hreadonly, readonlyExpr_eq, on_bind_ok hparts]
    simp only [show c.span = c.current.span from rfl, he]
    rfl
  rw [operandAt_eq, operandExpr]
  -- the sequence is read whole, and the loop over the suffixes finds none
  change on (primaryExpr (typeAt (n + 1)) (operandAt n) >>= _) c = _
  rw [on_bind_ok hprimary, on_bind_ok on_ahead, on_arraySuffixes_of_not_arrayAhead hend.array]

/-! ## Intersections and unions -/

/-- A single operand is an intersection. -/
theorem isRead_single (hread : Phrase.IsRead n ts (.operand e)) :
    Phrase.IsRead n ts (.intersection e) := by
  intro c c' hmoves hend
  have hseparated : (separated .amp (operandAt n)).on c = (.ok [e], c') :=
    on_separated (S := EndsOperand) (q := (ts, e)) (List.forall_mem_singleton.mpr hread)
      (fun c h => endsOperand_of_mark (sees_iff.mp h) (by decide) (by decide)) .nil
      (by simpa using hmoves) hend.toEndsOperand hend.amp
  rw [intersectionExpr, on_get_bind, on_bind_ok hseparated]
  rfl

/-- Operands between `&` are read as an intersection. -/
theorem isRead_intersection {x y : Part TypeExpr} {parts : List (Part TypeExpr)} (hx : x.1 ≠ [])
    (hread : ∀ q ∈ x :: y :: parts, Phrase.IsRead n q.1 (.operand q.2))
    (hts : Chain (· = .punctuation .amp) (y :: parts) ts) :
    Phrase.IsRead n (x.1 ++ ts) (.intersection
      (.intersection ((x :: y :: parts).map Prod.snd) (cover (x.1 ++ ts)))) := by
  intro c c' hmoves hend
  have hcover := hmoves.merge_previous (List.append_ne_nil_of_left_ne_nil hx ts)
  have hseparated := on_separated (S := EndsOperand) hread
    (fun c h => endsOperand_of_mark (sees_iff.mp h) (by decide) (by decide)) hts hmoves
    hend.toEndsOperand hend.amp
  rw [intersectionExpr, on_get_bind, on_bind_ok hseparated, ← hcover]
  rfl

/-- A mark before the first member is read, if there is one. -/
theorem on_eat_pipe {pipe : Option LocatedToken} (hpipe : ∀ t ∈ pipe, t.token = .punctuation .pipe)
    (hts : ∃ t us, ts = t :: us ∧ startsOperand t.token) (hmoves : c.Moves (pipe.toList ++ ts) c') :
    ∃ d, (eat .pipe).on c = (.ok pipe.isSome, d) ∧ d.Moves ts c' := by
  cases pipe with
  | none =>
    obtain ⟨t, us, rfl, ht⟩ := hts
    have hne : t.token ≠ .punctuation .pipe := ne_of_kind ht rfl
    refine ⟨c, on_eat_not ?_, hmoves⟩
    rw [← Bool.not_eq_true, sees_iff, hmoves.current_eq]
    exact hne
  | some t =>
    obtain ⟨hsees, -, hmoves⟩ := mark_of_moves (hpipe t rfl) hmoves
    exact ⟨c.advance, on_eat hsees, hmoves⟩

/-- A `|` does not go on with an intersection. -/
theorem endsIntersection_of_pipe (c : Cursor) (h : c.sees .pipe) : c.EndsIntersection :=
  endsIntersection_of_mark (sees_iff.mp h) (by decide) (by decide) (by decide)

/-- A single intersection is an expression, with a `|` before it or without. -/
theorem isRead_alone {pipe : Option LocatedToken} (hpipe : ∀ t ∈ pipe, t.token = .punctuation .pipe)
    (hts : ∃ t us, ts = t :: us ∧ startsOperand t.token)
    (hread : Phrase.IsRead n ts (.intersection e)) :
    Phrase.IsRead (n + 1) (pipe.toList ++ ts) (.expression (e.ledBy pipe)) := by
  intro c c' hmoves hend
  obtain ⟨d, heat, hd⟩ := on_eat_pipe hpipe hts hmoves
  have hseparated : (separated .pipe (intersectionExpr (operandAt n))).on d = (.ok [e], c') :=
    on_separated (S := EndsIntersection) (q := (ts, e)) (List.forall_mem_singleton.mpr hread)
      endsIntersection_of_pipe .nil (by simpa using hd) hend.toEndsIntersection hend.pipe
  rw [typeAt, unionExpr, on_get_bind, on_bind_ok heat, on_bind_ok hseparated]
  -- the mark is in the span of the expression
  cases pipe with
  | none => rfl
  | some t =>
    have hspan : c.span = t.span := by rw [Cursor.span, hmoves.current_eq]
    rw [TypeExpr.ledBy, ← hspan]
    rfl

/-- Intersections between `|` are read as a union. -/
theorem isRead_union {pipe : Option LocatedToken} {x y : Part TypeExpr}
    {parts : List (Part TypeExpr)} (hpipe : ∀ t ∈ pipe, t.token = .punctuation .pipe)
    (hx : ∃ t us, x.1 = t :: us ∧ startsOperand t.token)
    (hread : ∀ q ∈ x :: y :: parts, Phrase.IsRead n q.1 (.intersection q.2))
    (hts : Chain (· = .punctuation .pipe) (y :: parts) ts) :
    Phrase.IsRead (n + 1) (pipe.toList ++ (x.1 ++ ts)) (.expression
      (.union ((x :: y :: parts).map Prod.snd) (cover (pipe.toList ++ (x.1 ++ ts))))) := by
  intro c c' hmoves hend
  have hstarts : ∃ t us, x.1 ++ ts = t :: us ∧ startsOperand t.token := by
    obtain ⟨t, us, hus, ht⟩ := hx
    exact ⟨t, us ++ ts, by rw [hus]; rfl, ht⟩
  have hcover := hmoves.merge_previous (by obtain ⟨t, us, hus, -⟩ := hstarts; simp [hus])
  obtain ⟨d, heat, hd⟩ := on_eat_pipe hpipe hstarts hmoves
  have hseparated := on_separated (S := EndsIntersection) hread endsIntersection_of_pipe hts hd
    hend.toEndsIntersection hend.pipe
  rw [typeAt, unionExpr, on_get_bind, on_bind_ok heat, on_bind_ok hseparated, ← hcover]
  rfl

end

/-! ## Every derivation -/

/-- A derived phrase is read. -/
theorem Derives.isRead {n : Nat} {ts : List LocatedToken} {p : Phrase}
    (h : Derives .accepted n ts p) : p.IsRead n ts := by
  -- by induction on the derivation, with one lemma for each form
  induction h with
  | value ht => exact fun c c' hmoves _ => on_primaryExpr_value ht hmoves
  | negated hminus ht => exact fun c c' hmoves _ => on_primaryExpr_negated hminus ht hmoves
  | name ht => exact fun c c' hmoves hless => on_primaryExpr_name ht hmoves hless
  | call ht hleft hright hargs hts ih =>
    exact fun c c' hmoves _ => on_primaryExpr_call ht hleft hright hargs ih hts hmoves
  | tuple hleft hright helements hts ih =>
    exact fun c c' hmoves _ => on_primaryExpr_tuple hleft hright helements ih hts hmoves
  | object hleft hright hproperties hts ih =>
    exact fun c c' hmoves _ => on_primaryExpr_object hleft hright hproperties ih hts hmoves
  | parentheses hleft hright _ ih =>
    exact fun c c' hmoves _ => on_primaryExpr_parentheses hleft hright ih hmoves
  | plain _ ih => exact isRead_plain ih
  | array _ hleft hright ih => exact isRead_array ih hleft hright
  | operand _ ih => exact isRead_operand ih
  | readonly ht _ he ih => exact isRead_readonly ht he ih
  | single _ ih => exact isRead_single ih
  | intersection hparts hts ih =>
    exact isRead_intersection (hparts _ List.mem_cons_self).ne_nil ih hts
  | alone hpipe h ih => exact isRead_alone hpipe h.starts ih
  | union hpipe hparts hts ih =>
    exact isRead_union hpipe (hparts _ List.mem_cons_self).starts ih hts
  | property hmodifier hname hmark hcolon _ ih =>
    exact isRead_property hmodifier hname hmark hcolon ih

section

variable {G : Grammar} {n : Nat} {ts us : List LocatedToken} {e : TypeExpr} {p : Phrase}

/-- A number stands behind a minus sign at the start. -/
def NumberAfterMinus (ts : List LocatedToken) : Prop :=
  ∀ minus us, ts = minus :: us → minus.token = .punctuation .minus →
    ∃ t vs v, us = t :: vs ∧ t.token = .number v

/-- What follows does not change what stands behind the minus sign. -/
theorem NumberAfterMinus.append (h : NumberAfterMinus ts) (hts : ts ≠ []) :
    NumberAfterMinus (ts ++ us) := by
  obtain ⟨t, ts, rfl⟩ := List.exists_cons_of_ne_nil hts
  rintro _ _ ⟨⟩ hminus
  obtain ⟨t, vs, v, rfl, ht⟩ := h _ _ rfl hminus
  exact ⟨t, vs ++ us, v, rfl, ht⟩

/-- What starts otherwise is no sign. -/
theorem numberAfterMinus_cons {t : LocatedToken} (ht : t.token ≠ .punctuation .minus) :
    NumberAfterMinus (t :: ts) := by
  rintro _ _ ⟨⟩ hminus
  exact absurd hminus ht

/-- In the documented grammar only numbers have a sign. -/
theorem Derives.numberAfterMinus (h : Derives .documented n ts p) : NumberAfterMinus ts := by
  -- by induction on the derivation: a phrase has a sign in front if its first part has
  induction h with
  | value ht => exact numberAfterMinus_cons fun hminus => by simp [hminus, Token.value?] at ht
  | @negated _ _ t _ _ ht =>
    rintro _ _ ⟨⟩ _
    cases htoken : t.token with
    | number v => exact ⟨t, [], v, rfl, htoken⟩
    | _ => simp [htoken, Grammar.documented] at ht
  | name ht | call ht _ _ _ _ _ | readonly ht _ _ _ =>
    exact numberAfterMinus_cons (by simp [ht])
  | tuple hleft _ _ _ _ | object hleft _ _ _ _ | parentheses hleft _ _ _ =>
    exact numberAfterMinus_cons (by simp [hleft])
  | plain _ ih | operand _ ih | single _ ih => exact ih
  | array h _ _ ih => exact ih.append h.ne_nil
  | intersection hparts _ ih =>
    exact (ih _ List.mem_cons_self).append (hparts _ List.mem_cons_self).ne_nil
  | @alone _ pipe _ _ hpipe _ ih =>
    cases pipe with
    | none => exact ih
    | some t => exact numberAfterMinus_cons (by simp [hpipe t rfl])
  | @union _ pipe _ _ _ _ hpipe hparts _ ih =>
    cases pipe with
    | none => exact (ih _ List.mem_cons_self).append (hparts _ List.mem_cons_self).ne_nil
    | some t => exact numberAfterMinus_cons (by simp [hpipe t rfl])
  | @property _ modifier _ _ _ _ _ _ hmodifier hname _ _ _ _ =>
    cases modifier with
    | none => exact numberAfterMinus_cons fun hminus => by simp [hminus, propertyName?] at hname
    | some t => exact numberAfterMinus_cons (by simp [hmodifier t rfl])

end

/-! ## Type expressions -/

/-- A type expression is read exactly where the accepted grammar derives one, with at most
`maxDepth` expressions and operands of `readonly` in each other: what was read is derived, and what
is derived is read unless what comes next goes on with it. -/
theorem typeExpr_exact {c : Cursor} (hc : c.Terminated) :
    (∀ e c', typeExpr.on c = (.ok e, c') →
      ∃ ts, c.Moves ts c' ∧ Derives .accepted maxDepth ts (.expression e)) ∧
    ∀ ts c' e, Derives .accepted maxDepth ts (.expression e) → c.Moves ts c' →
      c'.EndsExpression → typeExpr.on c = (.ok e, c') := by
  constructor
  · intro e c' hon
    obtain ⟨ts, d, hmoves, ⟨e', hon', he'⟩ | ⟨x, hon', -⟩⟩ := typeAt_consumes maxDepth c hc
    · obtain ⟨he, rfl⟩ := Prod.mk.inj (hon.symm.trans hon')
      obtain rfl := Except.ok.inj he
      exact ⟨ts, hmoves, he'⟩
    · exact absurd (congrArg Prod.fst (hon.symm.trans hon')) (by simp)
  · intro ts c' e h hmoves hend
    exact h.isRead c c' hmoves hend

/-- The tokens of `readonly number[][]`. -/
def readonlyMatrix : List LocatedToken :=
  [⟨.keyword .readonly, ⟨0, 8, 1, 1⟩⟩, ⟨.identifier "number", ⟨9, 15, 1, 10⟩⟩,
    ⟨.punctuation .leftBracket, ⟨15, 16, 1, 16⟩⟩, ⟨.punctuation .rightBracket, ⟨16, 17, 1, 17⟩⟩,
    ⟨.punctuation .leftBracket, ⟨17, 18, 1, 18⟩⟩, ⟨.punctuation .rightBracket, ⟨18, 19, 1, 19⟩⟩,
    ⟨.eof, ⟨19, 19, 1, 20⟩⟩]

example : tokenize "readonly number[][]" = .ok readonlyMatrix := by decide +kernel

/-- The place behind the tokens of `readonly number[][]`. -/
def readonlyMatrixEnd : Cursor := ⟨⟨18, 19, 1, 19⟩, ⟨.eof, ⟨19, 19, 1, 20⟩⟩, []⟩

/-- What is read from `readonly number[][]`: the matrix is readonly, not its rows. -/
def readonlyMatrixExpr : TypeExpr :=
  .array (.array (.named "number" [] ⟨9, 15, 1, 10⟩) false ⟨9, 17, 1, 10⟩) true ⟨0, 19, 1, 1⟩

/-- All tokens of `readonly number[][]` but the last are ahead at the start. -/
theorem moves_readonlyMatrix :
    (ofTokens readonlyMatrix).Moves readonlyMatrix.dropLast readonlyMatrixEnd :=
  .step (by decide) (.step (by decide) (.step (by decide) (.step (by decide) (.step (by decide)
    (.step (by decide) (.refl _))))))

/-- Nothing goes on with an expression at the end of the text. -/
theorem endsExpression_readonlyMatrixEnd : readonlyMatrixEnd.EndsExpression where
  less := rfl
  array := rfl
  amp := rfl
  pipe := rfl

/-- In the accepted grammar both `[]` belong to the operand of `readonly`. -/
theorem derives_readonlyMatrix :
    Derives .accepted maxDepth readonlyMatrix.dropLast (.expression readonlyMatrixExpr) := by
  have hrow : Derives .accepted 62 [⟨.identifier "number", ⟨9, 15, 1, 10⟩⟩,
      ⟨.punctuation .leftBracket, ⟨15, 16, 1, 16⟩⟩, ⟨.punctuation .rightBracket, ⟨16, 17, 1, 17⟩⟩]
      (.suffixed (.array (.named "number" [] ⟨9, 15, 1, 10⟩) false ⟨9, 17, 1, 10⟩)) :=
    .array (.plain (.name rfl)) rfl rfl
  exact Derives.expression (.single (.readonly rfl (.operand (.array hrow rfl rfl)) rfl))

/-- `readonly number[][]` is read and derived, each following from the other. -/
theorem typeExpr_exact_readonlyMatrix :
    (ofTokens readonlyMatrix).Terminated ∧
    typeExpr.on (ofTokens readonlyMatrix) = (.ok readonlyMatrixExpr, readonlyMatrixEnd) ∧
    ∃ ts, (ofTokens readonlyMatrix).Moves ts readonlyMatrixEnd ∧
      Derives .accepted maxDepth ts (.expression readonlyMatrixExpr) := by
  have hc : (ofTokens readonlyMatrix).Terminated := rfl
  have hon := (typeExpr_exact hc).2 _ _ _ derives_readonlyMatrix moves_readonlyMatrix
    endsExpression_readonlyMatrixEnd
  exact ⟨hc, hon, (typeExpr_exact hc).1 _ _ hon⟩

/-- The tokens of `-5n`. -/
def signedBigint : List LocatedToken :=
  [⟨.punctuation .minus, ⟨0, 1, 1, 1⟩⟩, ⟨.bigint "5", ⟨1, 3, 1, 2⟩⟩, ⟨.eof, ⟨3, 3, 1, 4⟩⟩]

example : tokenize "-5n" = .ok signedBigint := by decide +kernel

/-- In the documented grammar, the rows may be readonly and the matrix not. -/
theorem derives_readonlyRows : Derives .documented maxDepth readonlyMatrix.dropLast (.expression
    (.array (.array (.named "number" [] ⟨9, 15, 1, 10⟩) true ⟨0, 17, 1, 1⟩) false
      ⟨0, 19, 1, 1⟩)) := by
  have hrow : Derives .documented 63 [⟨.keyword .readonly, ⟨0, 8, 1, 1⟩⟩,
      ⟨.identifier "number", ⟨9, 15, 1, 10⟩⟩, ⟨.punctuation .leftBracket, ⟨15, 16, 1, 16⟩⟩,
      ⟨.punctuation .rightBracket, ⟨16, 17, 1, 17⟩⟩]
      (.primary (.array (.named "number" [] ⟨9, 15, 1, 10⟩) true ⟨0, 17, 1, 1⟩)) :=
    .readonly rfl (.operand (.array (.plain (.name rfl)) rfl rfl)) rfl
  exact Derives.expression (.single (.operand (.array (.plain hrow) rfl rfl)))

/-- The documented grammar is not the one that is read. A signed bigint is read and not derived, and
of the two expressions that are derived from `readonly number[][]` only one is read. -/
theorem typeExpr_not_documented :
    ((ofTokens signedBigint).Terminated ∧
      typeExpr.on (ofTokens signedBigint) =
        (.ok (.bigint "-5" ⟨0, 3, 1, 1⟩), ⟨⟨1, 3, 1, 2⟩, ⟨.eof, ⟨3, 3, 1, 4⟩⟩, []⟩) ∧
      ¬ ∃ ts, (ofTokens signedBigint).Moves ts ⟨⟨1, 3, 1, 2⟩, ⟨.eof, ⟨3, 3, 1, 4⟩⟩, []⟩ ∧
        Derives .documented maxDepth ts (.expression (.bigint "-5" ⟨0, 3, 1, 1⟩))) ∧
    (ofTokens readonlyMatrix).Terminated ∧
      Derives .documented maxDepth readonlyMatrix.dropLast (.expression
        (.array (.array (.named "number" [] ⟨9, 15, 1, 10⟩) true ⟨0, 17, 1, 1⟩) false
          ⟨0, 19, 1, 1⟩)) ∧
      (ofTokens readonlyMatrix).Moves readonlyMatrix.dropLast readonlyMatrixEnd ∧
      readonlyMatrixEnd.EndsExpression ∧
      typeExpr.on (ofTokens readonlyMatrix) ≠ (.ok
        (.array (.array (.named "number" [] ⟨9, 15, 1, 10⟩) true ⟨0, 17, 1, 1⟩) false
          ⟨0, 19, 1, 1⟩), readonlyMatrixEnd) := by
  refine ⟨⟨rfl, rfl, ?_⟩, rfl, derives_readonlyRows, moves_readonlyMatrix,
    endsExpression_readonlyMatrixEnd, ?_⟩
  · rintro ⟨ts, hmoves, h⟩
    -- what is consumed between two places is determined by them
    have hts : ts = signedBigint.dropLast := List.append_cancel_right hmoves.ahead_eq.symm
    obtain ⟨t, vs, v, ht, hv⟩ := h.numberAfterMinus _ _ hts rfl
    obtain ⟨rfl, -⟩ := List.cons.inj ht
    exact absurd hv (by simp)
  · rw [typeExpr,
      derives_readonlyMatrix.isRead _ _ moves_readonlyMatrix endsExpression_readonlyMatrixEnd]
    simp [readonlyMatrixExpr]

end TypeAssay
