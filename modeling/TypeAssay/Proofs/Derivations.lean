import TypeAssay.Proofs.Consumption
import TypeAssay.Proofs.Grammar

/-!
# The grammar of type expressions

`Derives G n ts p` says that the tokens `ts` are the phrase `p` of the grammar `G`, and that no more
than `n` expressions and operands of `readonly` are nested in each other. A grammar is not fixed in
two places: in what may stand behind a minus sign, and in where `[]` behind a `readonly` sequence
belongs. The documented grammar is ambiguous there, the accepted one is not.

* `typeAt_consumes` : the tokens that an expression was read from derive it in the accepted grammar.
-/

namespace TypeAssay

open Reader

/-! ## Derivations -/

/-- A part of a type expression, by where it may stand. -/
inductive Phrase where
  /-- What no `[]` at its end belongs to. -/
  | primary (e : TypeExpr)
  /-- A primary expression and the `[]` behind it. -/
  | suffixed (e : TypeExpr)
  /-- What stands between `&`. -/
  | operand (e : TypeExpr)
  /-- What stands between `|`. -/
  | intersection (e : TypeExpr)
  | expression (e : TypeExpr)
  | property (p : PropertyExpr)

/-- Whether a phrase can start with a token. -/
def Phrase.startsWith (t : Token) : Phrase → Prop
  | .primary _ | .suffixed _ | .operand _ | .intersection _ => startsOperand t
  | .expression _ => startsOperand t ∨ t = .punctuation .pipe
  | .property _ => (propertyName? t).isSome

/-- What is open in the grammar. -/
structure Grammar where
  /-- The expression that a token behind a minus sign is, but for its place. -/
  negated? : Token → Option (Span → TypeExpr)
  /-- The phrase that a sequence with `readonly` before it is. -/
  readonlySequence : TypeExpr → Phrase
  startsWith_readonly : ∀ e, (readonlySequence e).startsWith (.keyword .readonly)

/-- The grammar as it is written down: only numbers have a sign, and a `readonly` sequence is a
primary expression. -/
def Grammar.documented : Grammar where
  negated?
    | .number value => some (.number value.neg)
    | _ => none
  readonlySequence := .primary
  startsWith_readonly _ := rfl

/-- The grammar that is read: bigints have a sign too, and a `readonly` sequence is an operand, so
that no `[]` can follow it. -/
def Grammar.accepted : Grammar where
  negated? := Token.negated?
  readonlySequence := .operand
  startsWith_readonly _ := rfl

/-- An array or a tuple with `readonly` before it. -/
def TypeExpr.asReadonly? (span : Span) : TypeExpr → Option TypeExpr
  | .array element _ _ => some (.array element true span)
  | .tuple elements _ _ => some (.tuple elements true span)
  | _ => none

/-- An expression with a mark before it, which is in its span. -/
def TypeExpr.ledBy : Option LocatedToken → TypeExpr → TypeExpr
  | none, e => e
  | some t, e => e.withSpan (t.span.merge e.span)

/-- What stands between properties. -/
def IsPropertySeparator (t : Token) : Prop := t = .punctuation .comma ∨ t = .punctuation .semicolon

/-- The tokens are a phrase whose parts nest at most so deep. -/
inductive Derives (G : Grammar) : Nat → List LocatedToken → Phrase → Prop where
  | value {n : Nat} {t : LocatedToken} {e : Span → TypeExpr} (ht : t.token.value? = some e) :
      Derives G n [t] (.primary (e t.span))
  | negated {n : Nat} {minus t : LocatedToken} {e : Span → TypeExpr}
      (hminus : minus.token = .punctuation .minus) (ht : G.negated? t.token = some e) :
      Derives G n [minus, t] (.primary (e (minus.span.merge t.span)))
  | name {n : Nat} {t : LocatedToken} {s : String} (ht : t.token = .identifier s) :
      Derives G n [t] (.primary (.named s [] (cover [t])))
  | call {n : Nat} {t left right : LocatedToken} {s : String} {arg : Part TypeExpr}
      {args : List (Part TypeExpr)} {ts : List LocatedToken} (ht : t.token = .identifier s)
      (hleft : left.token = .punctuation .less) (hright : right.token = .punctuation .greater)
      (hargs : ∀ q ∈ arg :: args, Derives G n q.1 (.expression q.2))
      (hts : Listed (· = .punctuation .comma) (arg :: args) ts) :
      Derives G n (t :: left :: (ts ++ [right])) (.primary
        (.named s ((arg :: args).map Prod.snd) (cover (t :: left :: (ts ++ [right])))))
  | tuple {n : Nat} {left right : LocatedToken} {elements : List (Part TypeExpr)}
      {ts : List LocatedToken} (hleft : left.token = .punctuation .leftBracket)
      (hright : right.token = .punctuation .rightBracket)
      (helements : ∀ q ∈ elements, Derives G n q.1 (.expression q.2))
      (hts : Listed (· = .punctuation .comma) elements ts) :
      Derives G n (left :: (ts ++ [right]))
        (.primary (.tuple (elements.map Prod.snd) false (left.span.merge right.span)))
  | object {n : Nat} {left right : LocatedToken} {properties : List (Part PropertyExpr)}
      {ts : List LocatedToken} (hleft : left.token = .punctuation .leftBrace)
      (hright : right.token = .punctuation .rightBrace)
      (hproperties : ∀ q ∈ properties, Derives G n q.1 (.property q.2))
      (hts : Listed IsPropertySeparator properties ts) :
      Derives G n (left :: (ts ++ [right]))
        (.primary (.object (properties.map Prod.snd) (left.span.merge right.span)))
  | parentheses {n : Nat} {left right : LocatedToken} {e : TypeExpr} {ts : List LocatedToken}
      (hleft : left.token = .punctuation .leftParen)
      (hright : right.token = .punctuation .rightParen) (h : Derives G n ts (.expression e)) :
      Derives G n (left :: (ts ++ [right])) (.primary (e.withSpan (left.span.merge right.span)))
  | plain {n : Nat} {e : TypeExpr} {ts : List LocatedToken} (h : Derives G n ts (.primary e)) :
      Derives G n ts (.suffixed e)
  | array {n : Nat} {left right : LocatedToken} {e : TypeExpr} {ts : List LocatedToken}
      (h : Derives G n ts (.suffixed e)) (hleft : left.token = .punctuation .leftBracket)
      (hright : right.token = .punctuation .rightBracket) :
      Derives G n (ts ++ [left, right]) (.suffixed (.array e false (e.span.merge right.span)))
  | operand {n : Nat} {e : TypeExpr} {ts : List LocatedToken} (h : Derives G n ts (.suffixed e)) :
      Derives G n ts (.operand e)
  | readonly {n : Nat} {t : LocatedToken} {e e' : TypeExpr} {ts : List LocatedToken}
      (ht : t.token = .keyword .readonly) (h : Derives G n ts (.operand e))
      (he : e.asReadonly? (t.span.merge e.span) = some e') :
      Derives G (n + 1) (t :: ts) (G.readonlySequence e')
  | single {n : Nat} {e : TypeExpr} {ts : List LocatedToken} (h : Derives G n ts (.operand e)) :
      Derives G n ts (.intersection e)
  | intersection {n : Nat} {x y : Part TypeExpr} {parts : List (Part TypeExpr)}
      {ts : List LocatedToken} (hparts : ∀ q ∈ x :: y :: parts, Derives G n q.1 (.operand q.2))
      (hts : Chain (· = .punctuation .amp) (y :: parts) ts) :
      Derives G n (x.1 ++ ts)
        (.intersection (.intersection ((x :: y :: parts).map Prod.snd) (cover (x.1 ++ ts))))
  | alone {n : Nat} {pipe : Option LocatedToken} {e : TypeExpr} {ts : List LocatedToken}
      (hpipe : ∀ t ∈ pipe, t.token = .punctuation .pipe) (h : Derives G n ts (.intersection e)) :
      Derives G (n + 1) (pipe.toList ++ ts) (.expression (e.ledBy pipe))
  | union {n : Nat} {pipe : Option LocatedToken} {x y : Part TypeExpr}
      {parts : List (Part TypeExpr)} {ts : List LocatedToken}
      (hpipe : ∀ t ∈ pipe, t.token = .punctuation .pipe)
      (hparts : ∀ q ∈ x :: y :: parts, Derives G n q.1 (.intersection q.2))
      (hts : Chain (· = .punctuation .pipe) (y :: parts) ts) :
      Derives G (n + 1) (pipe.toList ++ (x.1 ++ ts)) (.expression
        (.union ((x :: y :: parts).map Prod.snd) (cover (pipe.toList ++ (x.1 ++ ts)))))
  | property {n : Nat} {modifier mark : Option LocatedToken} {name colon : LocatedToken}
      {s : String} {e : TypeExpr} {ts : List LocatedToken}
      (hmodifier : ∀ t ∈ modifier, t.token = .keyword .readonly)
      (hname : propertyName? name.token = some s)
      (hmark : ∀ t ∈ mark, t.token = .punctuation .question)
      (hcolon : colon.token = .punctuation .colon) (h : Derives G n ts (.expression e)) :
      Derives G n (modifier.toList ++ name :: (mark.toList ++ colon :: ts))
        (.property (.mk s e mark.isSome modifier.isSome ((modifier.getD name).span.merge e.span)))

/-! ## Where phrases start -/

/-- The expression that a phrase is, if it is one. -/
def Phrase.expr? : Phrase → Option TypeExpr
  | .primary e | .suffixed e | .operand e | .intersection e | .expression e => some e
  | .property _ => none

section

variable {G : Grammar} {n : Nat} {ts : List LocatedToken} {p : Phrase} {e : TypeExpr} {t : Token}
  {f : Span → TypeExpr}

/-- A token that is a value by itself starts an operand. -/
theorem startsOperand_of_value? (h : t.value? = some f) : startsOperand t := by
  cases t <;> first | rfl | simp [Token.value?] at h

/-- The tokens of a phrase start with one that its form can start with. -/
theorem Derives.starts (h : Derives G n ts p) :
    ∃ t us, ts = t :: us ∧ p.startsWith t.token := by
  -- by induction on the derivation: a phrase starts where its first part does
  induction h with
  | value ht => exact ⟨_, _, rfl, startsOperand_of_value? ht⟩
  | negated hminus _ => exact ⟨_, _, rfl, by rw [hminus]; rfl⟩
  | name ht => exact ⟨_, _, rfl, by rw [ht]; rfl⟩
  | call ht _ _ _ _ _ => exact ⟨_, _, rfl, by rw [ht]; rfl⟩
  | tuple hleft _ _ _ _ => exact ⟨_, _, rfl, by rw [hleft]; rfl⟩
  | object hleft _ _ _ _ => exact ⟨_, _, rfl, by rw [hleft]; rfl⟩
  | parentheses hleft _ _ _ => exact ⟨_, _, rfl, by rw [hleft]; rfl⟩
  | plain _ ih | operand _ ih | single _ ih => exact ih
  | array _ _ _ ih =>
    obtain ⟨t, us, rfl, ht⟩ := ih
    exact ⟨_, _, rfl, ht⟩
  | readonly ht _ _ _ => exact ⟨_, _, rfl, by rw [ht]; exact G.startsWith_readonly _⟩
  | intersection _ _ ih =>
    obtain ⟨t, us, hts, ht⟩ := ih _ List.mem_cons_self
    exact ⟨t, us ++ _, by rw [hts]; rfl, ht⟩
  -- the mark before the first member is the start if it is there
  | @alone _ pipe _ _ hpipe _ ih =>
    cases pipe with
    | none => exact ih.imp fun t ⟨us, hts, ht⟩ => ⟨us, hts, .inl ht⟩
    | some t => exact ⟨t, _, rfl, .inr (hpipe t rfl)⟩
  | @union _ pipe _ _ _ ts hpipe _ _ ih =>
    cases pipe with
    | none =>
      obtain ⟨t, us, hts, ht⟩ := ih _ List.mem_cons_self
      exact ⟨t, us ++ ts, by rw [hts]; rfl, .inl ht⟩
    | some t => exact ⟨t, _, rfl, .inr (hpipe t rfl)⟩
  | @property _ modifier _ _ _ _ _ _ hmodifier hname _ _ _ _ =>
    cases modifier with
    | none => exact ⟨_, _, rfl, by simp [Phrase.startsWith, hname]⟩
    | some t => exact ⟨t, _, rfl, by simp [Phrase.startsWith, hmodifier t rfl, propertyName?]⟩

/-- A phrase has a token at least. -/
theorem Derives.ne_nil (h : Derives G n ts p) : ts ≠ [] := by
  obtain ⟨t, us, rfl, -⟩ := h.starts
  exact List.cons_ne_nil t us

/-- The expression that a token is has the span it is given. -/
theorem span_of_value? (h : t.value? = some f) (s : Span) : (f s).span = s := by
  cases t <;> simp only [Token.value?, Option.some.injEq, reduceCtorEq] at h <;> subst h <;> rfl

/-- The expression behind a minus sign has the span it is given. -/
theorem span_of_negated? (h : t.negated? = some f) (s : Span) : (f s).span = s := by
  cases t <;> simp only [Token.negated?, Option.some.injEq, reduceCtorEq] at h <;> subst h <;> rfl

/-- A sequence that becomes readonly has the span it is given. -/
theorem TypeExpr.span_asReadonly? {e' : TypeExpr} {s : Span} (h : e.asReadonly? s = some e') :
    e'.span = s := by
  cases e <;> simp only [asReadonly?, Option.some.injEq, reduceCtorEq] at h <;> subst h <;> rfl

/-- An expression starts where one of its tokens starts, and it stops where one of them stops. -/
theorem Derives.isAmong (h : Derives .accepted n ts p) :
    ∀ e ∈ p.expr?, e.span.IsAmong ts := by
  -- the parts of a phrase are among its tokens, and so are the ends of its span
  induction h with
  | value ht =>
    rintro _ ⟨⟩
    rw [span_of_value? ht]
    exact .of_mem List.mem_cons_self
  | negated _ ht =>
    rintro _ ⟨⟩
    rw [span_of_negated? ht]
    exact (Span.IsAmong.of_mem (by simp)).merge (.of_mem (by simp))
  | name _ | call _ _ _ _ _ _ =>
    rintro _ ⟨⟩
    exact .cover (List.cons_ne_nil _ _)
  | tuple _ _ _ _ _ | object _ _ _ _ _ =>
    rintro _ ⟨⟩
    exact (Span.IsAmong.of_mem (by simp)).merge (.of_mem (by simp))
  | parentheses _ _ _ _ =>
    rintro _ ⟨⟩
    rw [TypeExpr.span_withSpan]
    exact (Span.IsAmong.of_mem (by simp)).merge (.of_mem (by simp))
  | plain _ ih | operand _ ih | single _ ih => exact ih
  | array _ _ _ ih =>
    rintro _ ⟨⟩
    exact ((ih _ rfl).mono (List.subset_append_left _ _)).merge (.of_mem (by simp))
  | readonly _ _ he ih =>
    rintro _ ⟨⟩
    rw [TypeExpr.span_asReadonly? he]
    exact (Span.IsAmong.of_mem List.mem_cons_self).merge
      ((ih _ rfl).mono (List.subset_cons_self _ _))
  | intersection hparts _ _ =>
    rintro _ ⟨⟩
    exact .cover (List.append_ne_nil_of_left_ne_nil (hparts _ List.mem_cons_self).ne_nil _)
  | @alone _ pipe _ _ _ _ ih =>
    rintro _ ⟨⟩
    cases pipe with
    | none => exact ih _ rfl
    | some t =>
      rw [TypeExpr.ledBy, TypeExpr.span_withSpan]
      exact (Span.IsAmong.of_mem List.mem_cons_self).merge
        ((ih _ rfl).mono (List.subset_cons_self _ _))
  | union _ hparts _ _ =>
    rintro _ ⟨⟩
    exact .cover (List.append_ne_nil_of_right_ne_nil _
      (List.append_ne_nil_of_left_ne_nil (hparts _ List.mem_cons_self).ne_nil _))
  | property _ _ _ _ _ _ => simp [Phrase.expr?]

end

/-! ## Phrases as expressions -/

/-- How deep a phrase nests where it is taken for an expression of its own. -/
def Phrase.level (n : Nat) : Phrase → Nat
  | .expression _ | .property _ => n
  | .primary _ | .suffixed _ | .operand _ | .intersection _ => n + 1

section

variable {G : Grammar} {n m : Nat} {ts : List LocatedToken} {p : Phrase} {e : TypeExpr}

/-- More nesting may be allowed. -/
theorem Derives.mono (h : Derives G n ts p) (hn : n ≤ m) : Derives G m ts p := by
  induction h generalizing m with
  | value ht => exact .value ht
  | negated hminus ht => exact .negated hminus ht
  | name ht => exact .name ht
  | call ht hleft hright _ hts ih =>
    exact .call ht hleft hright (fun q hq => ih q hq hn) hts
  | tuple hleft hright _ hts ih => exact .tuple hleft hright (fun q hq => ih q hq hn) hts
  | object hleft hright _ hts ih => exact .object hleft hright (fun q hq => ih q hq hn) hts
  | parentheses hleft hright _ ih => exact .parentheses hleft hright (ih hn)
  | plain _ ih => exact .plain (ih hn)
  | array _ hleft hright ih => exact .array (ih hn) hleft hright
  | operand _ ih => exact .operand (ih hn)
  | readonly ht _ he ih =>
    obtain ⟨m, rfl⟩ := Nat.exists_eq_add_of_lt hn
    exact .readonly ht (ih (by omega)) he
  | single _ ih => exact .single (ih hn)
  | intersection _ hts ih => exact .intersection (fun q hq => ih q hq hn) hts
  | alone hpipe _ ih =>
    obtain ⟨m, rfl⟩ := Nat.exists_eq_add_of_lt hn
    exact .alone hpipe (ih (by omega))
  | union hpipe _ hts ih =>
    obtain ⟨m, rfl⟩ := Nat.exists_eq_add_of_lt hn
    exact .union hpipe (fun q hq => ih q hq (by omega)) hts
  | property hmodifier hname hmark hcolon _ ih =>
    exact .property hmodifier hname hmark hcolon (ih hn)

/-- What stands between `|` is an expression alone. -/
theorem Derives.expression (h : Derives G n ts (.intersection e)) :
    Derives G (n + 1) ts (.expression e) :=
  @Derives.alone G n none e ts (by simp) h

/-- A phrase that is an expression can stand alone. -/
theorem Derives.isExpression (h : Derives G n ts p) (he : p.expr? = some e) :
    Derives G (p.level n) ts (.expression e) := by
  cases p with
  | primary _ =>
    obtain rfl := Option.some.inj he
    exact h.plain.operand.single.expression
  | suffixed _ =>
    obtain rfl := Option.some.inj he
    exact h.operand.single.expression
  | operand _ =>
    obtain rfl := Option.some.inj he
    exact h.single.expression
  | intersection _ =>
    obtain rfl := Option.some.inj he
    exact h.expression
  | expression _ =>
    obtain rfl := Option.some.inj he
    exact h
  | property _ => exact absurd he (by simp [Phrase.expr?])

end

/-! ## What is read derives what is answered -/

/-- Whether `[]` comes next. -/
def Cursor.arrayAhead (c : Cursor) : Bool :=
  c.sees .leftBracket && c.next? = some (.punctuation .rightBracket)

/-- The token one step on is the one that comes next. -/
theorem Cursor.token_advance {c : Cursor} {t : Token} (h : c.next? = some t) :
    c.advance.token = t := by
  cases hrest : c.rest with
  | nil => simp [next?, hrest] at h
  | cons u rest =>
    rw [advance_eq hrest]
    simpa [next?, hrest, token] using h

/-- Behind the last suffix nothing more is read. -/
theorem on_arraySuffixes_of_not_arrayAhead {c : Cursor} (h : c.arrayAhead = false) (e : TypeExpr)
    (k : Nat) : (arraySuffixes e k).on c = (.ok e, c) := by
  cases k with
  | zero => rfl
  | succ k =>
    rw [on_arraySuffixes_succ]
    exact if_neg (by simpa [Cursor.arrayAhead] using h)

/-- The tokens are type arguments in angle brackets. -/
def IsArguments (n : Nat) (ts : List LocatedToken) (es : List TypeExpr) : Prop :=
  ∃ (left right : LocatedToken) (arg : Part TypeExpr) (args : List (Part TypeExpr))
    (us : List LocatedToken), ts = left :: (us ++ [right]) ∧ es = (arg :: args).map Prod.snd ∧
    left.token = .punctuation .less ∧ right.token = .punctuation .greater ∧
    (∀ q ∈ arg :: args, Derives .accepted n q.1 (.expression q.2)) ∧
    Listed (· = .punctuation .comma) (arg :: args) us

section

-- The parts are read by `type`, and what stands behind `readonly` by `operand`.
variable {type operand : Reader TypeExpr} {n fuel : Nat} {c : Cursor} {e : TypeExpr}
  {ts : List LocatedToken} {name : String}

/-- Type arguments are read from a list of expressions in angle brackets. -/
theorem consumes_typeArguments
    (htype : ∀ c, type.Consumes c fun ts e _ => Derives .accepted n ts (.expression e)) :
    (typeArguments type).Consumes c fun ts es _ => IsArguments n ts es := by
  refine consumes_expect.bind ?_
  rintro _ _ c₁ - ⟨left, rfl, hleft, -⟩
  refine (htype c₁).bind fun ts e c₂ _ he => ?_
  have hright : ∀ c₃ us (args : List (Part TypeExpr)),
      (∀ q ∈ args, Derives .accepted n q.1 (.expression q.2)) →
      Listed (· = .punctuation .comma) ((ts, e) :: args) (ts ++ us) →
      Consumes (do let _ ← expect .greater; return e :: args.map Prod.snd) c₃ fun vs es _ =>
        IsArguments n ([left] ++ (ts ++ (us ++ vs))) es := by
    intro c₃ us args hargs hlisted
    refine consumes_expect.bind ?_
    rintro _ _ _ - ⟨right, rfl, hright, -⟩
    exact .pure ⟨left, right, (ts, e), args, ts ++ us, by simp, rfl, hleft, hright,
      List.forall_mem_cons.mpr ⟨he, hargs⟩, hlisted⟩
  -- behind a comma there may be no argument
  refine consumes_eat.bind ?_
  rintro _ _ c₃ - ⟨_ | comma, rfl, rfl, hcomma⟩
  · exact hright c₃ [] [] (by simp) (by simpa using Listed.last (ts, e))
  · refine consumes_ahead.bind ?_
    rintro _ _ _ - ⟨rfl, rfl, -⟩
    refine (consumes_upTo (E := fun q => Derives .accepted n q.1 (.expression q.2)) htype
      fun _ => consumes_eat).bind ?_
    rintro us _ c₄ - ⟨args, rfl, hargs, hlisted⟩
    have := hright c₄ (comma :: us) args hargs (Listed.cons (q := (ts, e)) (hcomma _ rfl) hlisted)
    simpa using this

/-- A name is read with the type arguments behind it, if there are any. -/
theorem consumes_namedExpr (htoken : c.current.token = .identifier name)
    (htype : ∀ c, type.Consumes c fun ts e _ => Derives .accepted n ts (.expression e)) :
    (namedExpr type name).Consumes c fun ts e _ => Derives .accepted n ts (.primary e) := by
  refine consumes_get ((consumes_advance (by simp [Cursor.token, htoken])).bind ?_)
  rintro _ _ c₁ hmoves ⟨rfl, -⟩
  refine consumes_get ?_
  split
  · refine (consumes_typeArguments htype).bind ?_
    rintro _ _ c₂ hmoves' ⟨left, right, arg, args, us, rfl, rfl, hleft, hright, hargs, hlisted⟩
    refine consumes_get (.pure ?_)
    rw [(hmoves.trans hmoves').merge_previous (by simp), List.append_nil]
    exact .call htoken hleft hright hargs hlisted
  · refine consumes_get (.pure ?_)
    rw [hmoves.merge_previous (by simp)]
    exact .name htoken

/-- A minus sign is read with the numeral behind it. -/
theorem consumes_negativeExpr (htoken : c.current.token = .punctuation .minus) :
    negativeExpr.Consumes c fun ts e _ => Derives .accepted n ts (.primary e) := by
  refine consumes_get ((consumes_advance (by simp [Cursor.token, htoken])).bind ?_)
  rintro _ _ c₁ - ⟨rfl, -⟩
  refine consumes_get ?_
  split
  · rename_i value hvalue
    refine (consumes_advance (by simp [hvalue])).bind ?_
    rintro _ _ _ - ⟨rfl, -⟩
    have hnegated : Token.negated? c₁.current.token = some (.number value.neg) := by
      rw [show c₁.current.token = _ from hvalue]
      rfl
    exact .pure (.negated htoken hnegated)
  · rename_i digits hdigits
    refine (consumes_advance (by simp [hdigits])).bind ?_
    rintro _ _ _ - ⟨rfl, -⟩
    -- a bigint keeps its sign in its digits
    have hnegated : Token.negated? c₁.current.token = some (.bigint ("-" ++ digits)) := by
      rw [show c₁.current.token = _ from hdigits]
      rfl
    exact .pure (.negated htoken hnegated)
  · exact consumes_fail

/-- What is read behind `readonly` is first read and then checked. -/
theorem readonlyExpr_eq : readonlyExpr operand = (do
      let start ← expectKeyword .readonly
      let inner ← operand
      return (inner, start.merge inner.span)) >>= fun (inner, span) =>
    match inner.asReadonly? span with
    | some e => pure e
    | none => throw ⟨.readonlyOperand, span⟩ := by
  simp only [readonlyExpr, bind_assoc, pure_bind]
  refine congrArg _ (funext fun start => congrArg _ (funext fun inner => ?_))
  cases inner <;> rfl

/-- Behind `readonly` an operand is read, which uses up one nesting. -/
theorem consumes_readonlyExpr (hoperand : ∀ c, operand.Consumes c fun ts e c' =>
      ∃ m, n = m + 1 ∧ Derives .accepted m ts (.operand e) ∧ c'.arrayAhead = false) :
    (readonlyExpr operand).Consumes c fun ts e c' =>
      Derives .accepted n ts (.operand e) ∧ c'.arrayAhead = false := by
  rw [readonlyExpr_eq]
  have hparts : Reader.Consumes (do
        let start ← expectKeyword .readonly
        let inner ← operand
        return (inner, start.merge inner.span)) c fun ts q c' => ∃ t us m, ts = t :: us ∧
      t.token = .keyword .readonly ∧ n = m + 1 ∧ Derives .accepted m us (.operand q.1) ∧
      q.2 = t.span.merge q.1.span ∧ c'.arrayAhead = false := by
    refine consumes_expectKeyword.bind ?_
    rintro _ _ c₁ - ⟨t, rfl, ht, rfl⟩
    refine (hoperand c₁).bind ?_
    rintro us inner c₂ - ⟨m, rfl, hinner, hahead⟩
    exact .pure ⟨t, us, m, by simp, ht, rfl, hinner, rfl, hahead⟩
  -- what has been read need not be a sequence, and the error then spans all of it
  refine hparts.bind_check ?_
  rintro _ ⟨inner, span⟩ c₁ - ⟨t, us, m, rfl, ht, rfl, hinner, hspan, hahead⟩
  obtain rfl : span = t.span.merge inner.span := hspan
  cases hreadonly : inner.asReadonly? (t.span.merge inner.span) with
  | some e => exact .inl ⟨e, by simp only [hreadonly], .readonly ht hinner hreadonly, hahead⟩
  | none =>
    refine .inr ⟨⟨.readonlyOperand, t.span.merge inner.span⟩, by simp only [hreadonly], ?_⟩
    exact (Span.IsAmong.of_mem List.mem_cons_self).merge
      ((hinner.isAmong inner rfl).mono (List.subset_cons_self _ _))

/-- A tuple is read from a list of expressions in square brackets. -/
theorem consumes_tupleExpr
    (htype : ∀ c, type.Consumes c fun ts e _ => Derives .accepted n ts (.expression e)) :
    (tupleExpr type).Consumes c fun ts e _ => Derives .accepted n ts (.primary e) := by
  refine consumes_expect.bind ?_
  rintro _ _ _ - ⟨left, rfl, hleft, rfl⟩
  refine consumes_ahead.bind ?_
  rintro _ _ _ - ⟨rfl, rfl, -⟩
  refine (consumes_upTo (E := fun q => Derives .accepted n q.1 (.expression q.2)) htype
    fun _ => consumes_eat).bind ?_
  rintro ts _ _ - ⟨elements, rfl, helements, hlisted⟩
  refine consumes_expect.bind ?_
  rintro _ _ _ - ⟨right, rfl, hright, rfl⟩
  simpa using Consumes.pure (.tuple hleft hright helements hlisted)

/-- An expression in parentheses is read with them. -/
theorem consumes_parenthesized
    (htype : ∀ c, type.Consumes c fun ts e _ => Derives .accepted n ts (.expression e)) :
    (parenthesized type).Consumes c fun ts e _ => Derives .accepted n ts (.primary e) := by
  refine consumes_expect.bind ?_
  rintro _ _ c₁ - ⟨left, rfl, hleft, rfl⟩
  refine (htype c₁).bind fun ts e _ _ he => consumes_expect.bind ?_
  rintro _ _ _ - ⟨right, rfl, hright, rfl⟩
  simpa using Consumes.pure (.parentheses hleft hright he)

/-- Between properties at most one mark is read. -/
theorem consumes_eatPropertySeparator :
    eatPropertySeparator.Consumes c fun ts b _ => IsOptional IsPropertySeparator ts b := by
  refine consumes_eat.bind ?_
  rintro _ _ _ - ⟨_ | t, rfl, rfl, ht⟩
  · refine consumes_eat.mono ?_
    rintro _ _ _ ⟨mark, rfl, rfl, hmark⟩
    exact ⟨mark, rfl, rfl, fun t ht => .inr (hmark t ht)⟩
  · exact .pure ⟨some t, rfl, rfl, fun u hu => .inl (ht u hu)⟩

/-- What is read of a property behind its modifier. -/
def propertyBody (type : Reader TypeExpr) (readonly : Bool) (start : Span) :
    Reader PropertyExpr := do
  match propertyName? (← get).token with
  | none => fail .propertyName
  | some name =>
    advance
    let optional ← eat .question
    let _ ← expect .colon
    let value ← type
    return .mk name value optional readonly (start.merge value.span)

/-- A property is its modifier, if it has one, and its body. -/
theorem on_propertyExpr (type : Reader TypeExpr) (c : Cursor) : (propertyExpr type).on c =
    if readonlyIsModifier c then (propertyBody type true c.span).on c.advance
    else (propertyBody type false c.span).on c := by
  rw [propertyExpr]
  change on (if readonlyIsModifier c then _ else _) c = _
  cases readonlyIsModifier c <;> rfl

/-- Behind its modifier a property is a name, a mark perhaps, and a type. -/
theorem consumes_propertyBody (modifier : Option LocatedToken) {start : Span}
    (hmodifier : ∀ t ∈ modifier, t.token = .keyword .readonly)
    (hstart : (modifier.getD c.current).span = start)
    (htype : ∀ c, type.Consumes c fun ts e _ => Derives .accepted n ts (.expression e)) :
    (propertyBody type modifier.isSome start).Consumes c fun ts p _ =>
      Derives .accepted n (modifier.toList ++ ts) (.property p) := by
  refine consumes_get ?_
  cases hname : propertyName? c.token with
  | none => exact consumes_fail
  | some name =>
    have htoken : c.token ≠ .eof := by
      rintro heof
      simp [heof, propertyName?] at hname
    refine (consumes_advance htoken).bind ?_
    rintro _ _ _ - ⟨rfl, -⟩
    refine consumes_eat.bind ?_
    rintro _ _ _ - ⟨mark, rfl, rfl, hmark⟩
    refine consumes_expect.bind ?_
    rintro _ _ c₃ - ⟨colon, rfl, hcolon, -⟩
    refine (htype c₃).bind fun ts e _ _ he => ?_
    subst hstart
    have hproperty := Derives.property hmodifier hname hmark hcolon he
    exact .pure (by simpa using hproperty)

/-- A property is read from the tokens that derive it. -/
theorem consumes_propertyExpr
    (htype : ∀ c, type.Consumes c fun ts e _ => Derives .accepted n ts (.expression e)) :
    (propertyExpr type).Consumes c fun ts p _ => Derives .accepted n ts (.property p) := by
  refine consumes_get ?_
  cases hmodifier : readonlyIsModifier c with
  | false =>
    exact consumes_propertyBody none (by simp) rfl htype
  | true =>
    have htoken : c.token = .keyword .readonly := by
      simp only [readonlyIsModifier, Bool.and_eq_true, decide_eq_true_eq] at hmodifier
      exact hmodifier.1
    refine (consumes_advance (by simp [htoken])).bind ?_
    rintro _ _ _ - ⟨rfl, -⟩
    exact consumes_propertyBody (some c.current) (by simpa [Cursor.token] using htoken) rfl htype

/-- An object is read from a list of properties in braces. -/
theorem consumes_objectExpr
    (htype : ∀ c, type.Consumes c fun ts e _ => Derives .accepted n ts (.expression e)) :
    (objectExpr type).Consumes c fun ts e _ => Derives .accepted n ts (.primary e) := by
  refine consumes_expect.bind ?_
  rintro _ _ _ - ⟨left, rfl, hleft, rfl⟩
  refine consumes_ahead.bind ?_
  rintro _ _ _ - ⟨rfl, rfl, -⟩
  refine (consumes_upTo (E := fun q => Derives .accepted n q.1 (.property q.2))
    (fun _ => consumes_propertyExpr htype) fun _ => consumes_eatPropertySeparator).bind ?_
  rintro ts _ _ - ⟨properties, rfl, hproperties, hlisted⟩
  refine consumes_expect.bind ?_
  rintro _ _ _ - ⟨right, rfl, hright, rfl⟩
  simpa using Consumes.pure (.object hleft hright hproperties hlisted)

/-- A token that is a value by itself is read alone. -/
theorem consumes_value {f : Span → TypeExpr} (hvalue : c.token.value? = some f) :
    Reader.Consumes (do advance; return f c.span) c fun ts e _ =>
      Derives .accepted n ts (.primary e) := by
  have htoken : c.token ≠ .eof := by
    rintro heof
    simp [heof, Token.value?] at hvalue
  refine (consumes_advance htoken).bind ?_
  rintro _ _ _ - ⟨rfl, -⟩
  exact .pure (.value hvalue)

/-- A primary expression is read from tokens that derive it. If it starts with `readonly` they
derive an operand, and no `[]` follows. -/
theorem consumes_primaryExpr
    (htype : ∀ c, type.Consumes c fun ts e _ => Derives .accepted n ts (.expression e))
    (hoperand : ∀ c, operand.Consumes c fun ts e c' =>
      ∃ m, n = m + 1 ∧ Derives .accepted m ts (.operand e) ∧ c'.arrayAhead = false) :
    (primaryExpr type operand).Consumes c fun ts e c' => Derives .accepted n ts (.primary e) ∨
      Derives .accepted n ts (.operand e) ∧ c'.arrayAhead = false := by
  have hprimary : ∀ {m : Reader TypeExpr},
      (m.Consumes c fun ts e _ => Derives .accepted n ts (.primary e)) →
      m.Consumes c fun ts e c' => Derives .accepted n ts (.primary e) ∨
        Derives .accepted n ts (.operand e) ∧ c'.arrayAhead = false :=
    fun h => h.mono fun _ _ _ => .inl
  refine consumes_get ?_
  split
  case h_1 name htoken => exact hprimary (consumes_namedExpr htoken htype)
  case h_2 value htoken => exact hprimary (consumes_value (by rw [htoken]; rfl))
  case h_3 digits htoken => exact hprimary (consumes_value (by rw [htoken]; rfl))
  case h_4 value htoken => exact hprimary (consumes_value (by rw [htoken]; rfl))
  case h_5 htoken => exact hprimary (consumes_negativeExpr htoken)
  case h_6 => exact (consumes_readonlyExpr hoperand).mono fun _ _ _ => .inr
  case h_7 => exact hprimary (consumes_tupleExpr htype)
  case h_8 => exact hprimary (consumes_objectExpr htype)
  case h_9 => exact hprimary (consumes_parenthesized htype)
  case h_10 => exact consumes_fail

/-- Each `[]` ahead makes an array of what has been read. -/
theorem consumes_arraySuffixes (h : Derives .accepted n ts (.suffixed e))
    (hfuel : c.rest.length < fuel) :
    (arraySuffixes e fuel).Consumes c fun us e' c' =>
      Derives .accepted n (ts ++ us) (.suffixed e') ∧ c'.arrayAhead = false := by
  -- the expression grows with each suffix, so it is part of the induction
  induction fuel generalizing c e ts with
  | zero => exact absurd hfuel (Nat.not_lt_zero _)
  | succ fuel ih =>
    refine consumes_get ?_
    split
    · rename_i hahead
      rw [Bool.and_eq_true, decide_eq_true_eq] at hahead
      obtain ⟨hleft, hnext⟩ := hahead
      have hleft := sees_iff.mp hleft
      have hright := Cursor.token_advance hnext
      refine (consumes_advance (by simp [Cursor.token, hleft])).bind ?_
      rintro _ _ _ hmoves ⟨rfl, rfl⟩
      refine consumes_get ((consumes_advance (by simp [hright])).bind ?_)
      rintro _ _ _ hmoves' ⟨rfl, rfl⟩
      have hlength := (hmoves.trans hmoves').length_eq
      refine (ih (h.array hleft hright) ?_).mono fun us e' c' he => ?_
      · simp only [List.length_append, List.length_singleton] at hlength
        omega
      · simpa using he
    · rename_i hahead
      exact .pure ⟨by rwa [List.append_nil], Bool.not_eq_true _ ▸ hahead⟩

/-- An operand is read with all `[]` behind it. -/
theorem consumes_operandExpr
    (htype : ∀ c, type.Consumes c fun ts e _ => Derives .accepted n ts (.expression e))
    (hoperand : ∀ c, operand.Consumes c fun ts e c' =>
      ∃ m, n = m + 1 ∧ Derives .accepted m ts (.operand e) ∧ c'.arrayAhead = false) :
    (operandExpr type operand).Consumes c fun ts e c' =>
      Derives .accepted n ts (.operand e) ∧ c'.arrayAhead = false := by
  refine (consumes_primaryExpr htype hoperand).bind fun ts e c₁ _ he => consumes_ahead.bind ?_
  rintro _ k c₂ - ⟨rfl, rfl, rfl⟩
  rcases he with he | ⟨he, hahead⟩
  · refine (consumes_arraySuffixes he.plain (Nat.lt_succ_self _)).mono fun us e' c' he' => ?_
    -- behind a `readonly` sequence there is no `[]` left, and the loop stops at once
    exact ⟨.operand he'.1, he'.2⟩
  · have hon := on_arraySuffixes_of_not_arrayAhead hahead e (c₂.rest.length + 1)
    exact fun _ => ⟨[], c₂, .refl c₂, .inl ⟨e, hon, by simpa using he, hahead⟩⟩

/-- An intersection is read from the operands between `&`. -/
theorem consumes_intersectionExpr
    (h : ∀ c, operand.Consumes c fun ts e _ => Derives .accepted n ts (.operand e)) :
    (intersectionExpr operand).Consumes c
      fun ts e _ => Derives .accepted n ts (.intersection e) := by
  refine consumes_get ?_
  refine (consumes_separated (E := fun q => Derives .accepted n q.1 (.operand q.2)) h).bind ?_
  rintro _ _ c₁ hmoves ⟨x, parts, us, rfl, hparts, hchain, rfl⟩
  cases hchain with
  | nil => exact .pure (by simpa using (hparts x List.mem_cons_self).single)
  | cons ht hchain =>
    refine consumes_get (.pure ?_)
    rw [hmoves.merge_previous (by simp), List.append_nil]
    exact .intersection hparts (.cons ht hchain)

/-- A union is read from the intersections between `|`, and nests one level deeper. -/
theorem consumes_unionExpr
    (h : ∀ c, operand.Consumes c fun ts e _ => Derives .accepted n ts (.operand e)) :
    (unionExpr operand).Consumes c fun ts e _ =>
      Derives .accepted (n + 1) ts (.expression e) := by
  refine consumes_get (consumes_eat.bind ?_)
  rintro _ _ c₁ hmoves ⟨pipe, rfl, rfl, hpipe⟩
  refine (consumes_separated (E := fun q => Derives .accepted n q.1 (.intersection q.2))
    fun _ => consumes_intersectionExpr h).bind ?_
  rintro _ _ c₂ hmoves' ⟨x, parts, us, rfl, hparts, hchain, rfl⟩
  cases hchain with
  | nil =>
    have halone := Derives.alone hpipe (hparts x List.mem_cons_self)
    cases pipe with
    | none => exact .pure (by simpa [TypeExpr.ledBy] using halone)
    | some t =>
      have ht : c.span = t.span := by rw [Cursor.span, hmoves.current_eq]
      refine .pure ?_
      rw [ht]
      simpa [TypeExpr.ledBy] using halone
  | cons ht hchain =>
    refine consumes_get (.pure ?_)
    rw [(hmoves.trans hmoves').merge_previous (by simp), List.append_nil]
    exact .union hpipe hparts (.cons ht hchain)

end

/-- Where too much is open nothing is read. -/
theorem consumes_nestedTooDeep {c : Cursor} {P : List LocatedToken → TypeExpr → Cursor → Prop} :
    nestedTooDeep.Consumes c P := consumes_get (consumes_throw rfl)

/-- The tokens that an operand was read from derive it, and no `[]` follows. -/
theorem operandAt_consumes (n : Nat) (c : Cursor) :
    (operandAt n).Consumes c fun ts e c' =>
      Derives .accepted n ts (.operand e) ∧ c'.arrayAhead = false := by
  -- by induction on the nesting that is left
  induction n generalizing c with
  | zero =>
    exact consumes_operandExpr (fun _ => consumes_nestedTooDeep) fun _ => consumes_nestedTooDeep
  | succ n ih =>
    refine consumes_operandExpr
      (fun c => consumes_unionExpr fun c => (ih c).mono fun _ _ _ => And.left)
      fun c => (ih c).mono fun _ _ _ h => ⟨n, rfl, h⟩

/-- The tokens that an expression was read from derive it. -/
theorem typeAt_consumes (n : Nat) (c : Cursor) :
    (typeAt n).Consumes c fun ts e _ => Derives .accepted n ts (.expression e) := by
  cases n with
  | zero => exact consumes_nestedTooDeep
  | succ n =>
    exact consumes_unionExpr fun c => (operandAt_consumes n c).mono fun _ _ _ => And.left

end TypeAssay
