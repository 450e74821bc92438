import TypeAssay.Proofs.Findings
import TypeAssay.Proofs.Transparency

/-!
# Errors that no text causes

The constructors of literals refuse values that the lexer never makes: a number literal is a number,
and the digits of a bigint literal are digits and not none (`Token.HasValue`). What a text says is a
number or a bigint therefore has a type (`Derives.hasValue`). The only types that cannot be built
are objects that name a property twice and intersections that are too complex, and a relation that
gets the arguments that it takes always has an outcome (`checkSource_type_errors`).
-/

namespace TypeAssay

open TypeTable Checking

/-! ## Numbers -/

namespace Binary64

/-- Parts that are in range make a number. -/
theorem isNaN_ofParts {negative : Bool} {m : Nat} (hm : m ≤ infinite) :
    (ofParts negative m).isNaN = false := by
  have hlt : m < twoTo 63 := lt_of_le_of_lt hm (by decide)
  rw [isNaN, magnitude_ofParts hlt]
  exact decide_eq_false (Nat.not_lt.mpr hm)

/-- A number is none with the other sign only if it is none. -/
theorem isNaN_neg (x : Binary64) : x.neg.isNaN = x.isNaN := by
  rw [isNaN, neg, magnitude_ofParts x.magnitude_lt, isNaN]

/-- A ratio is rounded to a number. -/
theorem isNaN_ofRatio (num den : Nat) : (ofRatio num den).isNaN = false := by
  apply isNaN_ofParts
  unfold roundedMagnitude
  split
  · exact Nat.zero_le _
  · exact Nat.min_le_right _ _

/-- A decimal is rounded to a number. -/
theorem isNaN_ofDecimal (n : Nat) (e : Int) : (ofDecimal n e).isNaN = false := by
  have hzero : zero.isNaN = false := isNaN_ofParts (Nat.zero_le _)
  unfold ofDecimal
  dsimp only
  split_ifs
  · exact hzero
  · exact isNaN_ofParts (Nat.le_refl _)
  · exact hzero
  · exact isNaN_ofRatio _ _

/-- Digits denote a number. -/
theorem isNaN_of_unsignedOfChars? {cs : List Char} {x : Binary64}
    (h : unsignedOfChars? cs = some x) : x.isNaN = false := by
  simp only [unsignedOfChars?, Option.ite_none_left_eq_some, Option.map_eq_some_iff] at h
  obtain ⟨-, e, -, rfl⟩ := h
  exact isNaN_ofDecimal _ _

end Binary64

/-! ## Tokens -/

/-- A number token is a number, and a bigint token has digits. -/
def Token.HasValue : Token → Prop
  | .number value => value.isNaN = false
  | .bigint digits => digits.toList ≠ [] ∧ ∀ d ∈ digits.toList, d.isDigit
  | _ => True

/-- If a number literal is a token, it has a value. -/
def Numeral.HasValue (n : Numeral) : Prop :=
  ∀ text t, numeralLexeme text n = .token t → t.HasValue

/-- A number has a value. -/
theorem hasValue_number {value : Binary64} (h : value.isNaN = false) :
    (Numeral.number value).HasValue := by
  rintro text _ ⟨⟩
  exact h

/-- Digits have a value. -/
theorem hasValue_bigint {ds : List Char} (hne : ds ≠ []) (hds : ∀ d ∈ ds, d.isDigit) :
    (Numeral.bigint (String.ofList ds)).HasValue := by
  rintro text _ ⟨⟩
  rw [Token.HasValue, String.toList_ofList]
  exact ⟨hne, hds⟩

/-- A decimal numeral has a value. -/
theorem hasValue_decimalValue (cs : List Char) : (decimalValue cs).HasValue := by
  apply hasValue_number
  cases h : Binary64.unsignedOfChars? (withoutSeparators cs) with
  | none => exact Binary64.isNaN_ofParts (Nat.zero_le _)
  | some x => exact Binary64.isNaN_of_unsignedOfChars? h

/-- A hexadecimal numeral has a value. -/
theorem hasValue_hexValue (ds : List Char) : (hexValue ds).HasValue := by
  unfold hexValue
  dsimp only
  split
  · exact hasValue_number (Binary64.isNaN_ofRatio _ _)
  · rintro text t ⟨⟩

/-- A fraction without a whole part has a value. -/
theorem hasValue_scanFraction (cs : List Char) : (scanFraction cs).1.HasValue :=
  hasValue_decimalValue _

/-- The whole part of a literal has digits and separators only. -/
theorem isDigit_of_mem_take_scanWhole {state : SeparatorState} {cs : List Char} {c : Char}
    (h : c ∈ cs.take (scanWhole state cs).1) : c.isDigit ∨ c = '_' := by
  induction cs generalizing state with
  | nil => simp at h
  | cons d cs ih =>
    cases hnext : state.next? d with
    | none => simp [scanWhole, hnext] at h
    | some state' =>
      simp only [scanWhole, hnext, List.take_succ_cons] at h
      rcases List.mem_cons.mp h with rfl | h
      -- the scan stops in front of any other character
      · by_contra hc
        rw [not_or] at hc
        exact absurd hnext (by simp [SeparatorState.next?, hc])
      · exact ih h

/-- The separators apart, a digit and what follows it in the whole part are digits. -/
theorem withoutSeparators_whole {c : Char} (rest : List Char) (hc : c.isDigit) :
    let ds := withoutSeparators ((c :: rest).take (scanWhole .digits (c :: rest)).1)
    ds ≠ [] ∧ ∀ d ∈ ds, d.isDigit := by
  intro ds
  have hnext : SeparatorState.digits.next? c = some .digits := by
    simp [SeparatorState.next?, hc]
  have hseparator : c ≠ '_' := by
    rintro rfl
    exact absurd hc (by decide)
  have hmem : c ∈ ds := by
    simp [ds, withoutSeparators, scanWhole, hnext, hseparator]
  refine ⟨List.ne_nil_of_mem hmem, fun d hd => ?_⟩
  obtain ⟨hd, hne⟩ := List.mem_filter.mp hd
  exact (isDigit_of_mem_take_scanWhole hd).resolve_right (of_decide_eq_true hne)

/-- Every number literal has a value, and digits in front of an `n` are not missing. -/
theorem hasValue_scanNumeral {c : Char} {rest : List Char} (hc : c.isDigit) :
    (scanNumeral (c :: rest)).1.HasValue := by
  unfold scanNumeral
  split
  · exact hasValue_hexValue _
  · dsimp only
    split_ifs
    -- separators at the end make a decimal literal, whether an `n` follows or not
    · exact hasValue_decimalValue _
    · obtain ⟨hne, hds⟩ := withoutSeparators_whole rest hc
      exact hasValue_bigint hne hds
    · exact hasValue_decimalValue _

/-- A word has nothing that could lack a value. -/
theorem hasValue_wordToken (word : String) : (wordToken word).HasValue := by
  unfold wordToken
  split
  · trivial
  · trivial

/-- What is scanned has a value, if it is a token. -/
theorem hasValue_of_scan (c : Char) (rest : List Char) :
    ∀ t, (scan c rest).1 = .token t → t.HasValue := by
  intro t ht
  unfold scan at ht
  -- rule by rule, in the order in which the scan tries them
  split at ht
  · exact absurd ht (by simp)
  split at ht
  · exact absurd ht (by simp)
  split at ht
  · exact absurd ht (by simp)
  split at ht
  · obtain rfl := Lexeme.token.inj ht
    exact hasValue_wordToken _
  split at ht
  · exact hasValue_scanNumeral ‹_› _ _ ht
  split at ht
  · exact hasValue_scanFraction (c :: rest)
      ((c :: rest).take (scanFraction (c :: rest)).2) t ht
  split at ht
  · split at ht
    · obtain rfl := Lexeme.token.inj ht
      trivial
    · exact absurd ht (by simp)
  split at ht
  · obtain rfl := Lexeme.token.inj ht
    trivial
  · exact absurd ht (by simp)

/-- The tokens of a text have values. -/
theorem hasValue_of_tokenize {source : String} {tokens : List LocatedToken}
    (h : tokenize source = .ok tokens) : ∀ t ∈ tokens, t.token.HasValue := by
  rw [tokenize_eq h]
  intro t ht
  rcases List.mem_append.mp ht with ht | ht
  · obtain ⟨p, hp, hlexeme⟩ := exists_piece_of_token ht
    exact lexeme_of_mem_pieces (P := fun l => ∀ t, l = .token t → t.HasValue) hasValue_of_scan hp
      _ hlexeme
  · obtain rfl := List.mem_singleton.mp ht
    trivial

/-! ## Expressions -/

/-- A number in an expression is a number, and a bigint has a written form. -/
def TypeExpr.HasValue : TypeExpr → Prop
  | .number value _ => value.isNaN = false
  | .bigint digits _ => ∃ canonical, canonicalBigint? digits = some canonical
  | _ => True

section

variable {t : Token} {f : Span → TypeExpr} {e e' x : TypeExpr} {s : Span}

/-- The span does not matter. -/
theorem TypeExpr.hasValue_withSpan (h : e.HasValue) : (e.withSpan s).HasValue := by
  cases e <;> exact h

/-- Sequences have nothing that could lack a value. -/
theorem TypeExpr.hasValue_asReadonly? (h : e.asReadonly? s = some e') : e'.HasValue := by
  cases e with
  | array _ _ _ | tuple _ _ _ =>
    obtain rfl := Option.some.inj h
    trivial
  | _ => exact absurd h (by simp [asReadonly?])

/-- The expression of a token has a value if the token has one. -/
theorem hasValue_of_value? (ht : t.HasValue) (h : t.value? = some f) : (f s).HasValue := by
  cases t with
  | number value =>
    obtain rfl := Option.some.inj h
    exact ht
  | bigint digits =>
    obtain rfl := Option.some.inj h
    exact exists_canonicalBigint? ht.1 ht.2 (.inl rfl)
  | string value =>
    obtain rfl := Option.some.inj h
    trivial
  | _ => exact absurd h (by simp [Token.value?])

/-- A sign does not take the value away. -/
theorem hasValue_of_negated? (ht : t.HasValue) (h : t.negated? = some f) : (f s).HasValue := by
  cases t with
  | number value =>
    obtain rfl := Option.some.inj h
    exact (Binary64.isNaN_neg value).trans ht
  | bigint digits =>
    obtain rfl := Option.some.inj h
    exact exists_canonicalBigint? ht.1 ht.2 (.inr (by simp))
  | _ => exact absurd h (by simp [Token.negated?])

/-- An expression has a value if its tokens do. -/
theorem Derives.hasValue {n : Nat} {ts : List LocatedToken} {p : Phrase}
    (h : Derives .accepted n ts p) :
    (∀ t ∈ ts, t.token.HasValue) → ∀ e ∈ p.expr?, e.HasValue := by
  -- by induction on the derivation: only numerals could lack a value, and they are tokens
  induction h with
  | @value _ t _ ht =>
    rintro hts _ ⟨⟩
    exact hasValue_of_value? (hts t List.mem_cons_self) ht
  | @negated _ minus t _ _ ht =>
    rintro hts _ ⟨⟩
    exact hasValue_of_negated? (hts t (by simp)) ht
  | name _ | call _ _ _ _ _ _ | tuple _ _ _ _ _ | object _ _ _ _ _ | array _ _ _ _
  | intersection _ _ _ | union _ _ _ _ =>
    rintro - _ ⟨⟩
    trivial
  | parentheses _ _ _ ih =>
    rintro hts _ ⟨⟩
    exact TypeExpr.hasValue_withSpan (ih (fun t ht => hts t (by simp [ht])) _ rfl)
  | plain _ ih | operand _ ih | single _ ih => exact ih
  | readonly _ _ he _ =>
    rintro - _ ⟨⟩
    exact TypeExpr.hasValue_asReadonly? he
  | @alone _ pipe e ts _ _ ih =>
    rintro hts _ ⟨⟩
    have he := ih (fun t ht => hts t (List.mem_append_right _ ht)) e rfl
    cases pipe with
    | none => exact he
    | some t => exact TypeExpr.hasValue_withSpan he
  | property _ _ _ _ _ _ => simp [Phrase.expr?]

/-- All that a text says to be a number or a bigint has a value. -/
theorem hasValue_of_parseCaseFile {source : String} {f : CaseFile} {i : Item}
    (h : parseCaseFile source = .ok f) (hi : i ∈ f.items) (hx : i.value.Holds x) :
    x.HasValue := by
  obtain ⟨tokens, ts, htokens, hts, hderives⟩ := exists_derivesItem h hi
  obtain ⟨us, hus, hx⟩ := hderives.within.of_holds hx
  have hsubset := (hus.trans (hts.trans (List.dropLast_prefix tokens).isInfix)).subset
  exact hx.hasValue (fun t ht => hasValue_of_tokenize htokens t (hsubset ht)) x rfl

end

/-! ## Expressions that are no types -/

/-- Why an expression is no type, although its parts are. -/
inductive TypeExpr.Fails : TypeExpr → TypeError → Prop
  | duplicateProperty {properties : List PropertyExpr} {span : Span} {name : String}
      (h : 2 ≤ (properties.map PropertyExpr.name).count name) :
      Fails (.object properties span) (.duplicateProperty name)
  | tooComplex {members : List TypeExpr} {span : Span} {size limit : Nat} (h : limit < size) :
      Fails (.intersection members span) (.unionTooComplex size limit)

/-- Whether a fault is about an expression: not about the text, nor about the name of an alias. -/
def CheckFault.isOfExpression : CheckFault → Bool
  | malformed _ | reservedName _ | duplicateAlias _ _ => false
  | _ => true

section

variable {x : TypeExpr} {i : Item} {err : CheckError} {errors : List CheckError} {s : CheckState}

/-- What an operator refuses is neither a type nor a number of arguments. -/
theorem Operator.Refuses.ne {op : Operator} {span : Span} (h : op.Refuses span err) :
    (∀ cause, err.fault ≠ .type cause) ∧
      ∀ name expected actual, err.fault ≠ .arity name expected actual := by
  cases h <;> simp

/-- Where literals have values, only objects and intersections are no types. -/
theorem TypeExpr.Blames.fails {cause : TypeError} (h : x.Blames err) (hx : x.HasValue)
    (hcause : err.fault = .type cause) : x.span = err.span ∧ x.Fails cause := by
  cases h with
  | undefinedName _ _ _ | plain _ | arity _ _ | capacityOverflow _ _ =>
    exact absurd hcause (by simp)
  | argument _ hrefuses => exact absurd hcause (hrefuses.ne.1 cause)
  | number _ hnan => exact absurd (hnan.symm.trans hx) (by simp)
  | bigint _ hnone =>
    obtain ⟨canonical, hsome⟩ := hx
    exact absurd (hnone.symm.trans hsome) (by simp)
  | tooComplex hlarge =>
    obtain rfl := CheckFault.type.inj hcause
    exact ⟨rfl, .tooComplex hlarge⟩
  | duplicateProperty htwice =>
    obtain rfl := CheckFault.type.inj hcause
    exact ⟨rfl, .duplicateProperty htwice⟩

/-- A wrong number of arguments is that of a name, which takes none or is a relation. -/
theorem TypeExpr.Blames.arity_eq {name : String} {expected actual : Nat} (h : x.Blames err)
    (hfault : err.fault = .arity name expected actual) :
    ∃ args, x = .named name args err.span ∧ args.length = actual ∧ actual ≠ expected ∧
      (expected = 0 ∨ ∃ d, declaration? name = some d ∧ d.operator.arity = expected) := by
  cases h with
  | @plain name' args _ hargs =>
    obtain ⟨rfl, rfl, rfl⟩ : name' = name ∧ 0 = expected ∧ args.length = actual := by
      simpa using hfault
    exact ⟨args, rfl, rfl, fun hnil => hargs (List.eq_nil_of_length_eq_zero hnil), .inl rfl⟩
  | @arity name' args _ d hd hargs =>
    obtain ⟨rfl, rfl, rfl⟩ :
        name' = name ∧ d.operator.arity = expected ∧ args.length = actual := by
      simpa using hfault
    exact ⟨args, rfl, rfl, hargs, .inr ⟨d, hd, rfl⟩⟩
  | argument _ hrefuses => exact absurd hfault (hrefuses.ne.2 _ _ _)
  | _ => exact absurd hfault (by simp)

/-- For an error of an expression some expression of the item is to blame. -/
theorem Item.Finds.exists_blames {declared : String → Option Span} (h : i.Finds declared errors)
    (herr : err ∈ errors) (hfault : err.fault.isOfExpression) :
    ∃ x, i.value.Holds x ∧ x.Blames err := by
  cases h with
  | expression h | new _ _ h => exact h.exists_blames herr
  | reserved _ h =>
    rcases List.mem_cons.mp herr with rfl | herr
    · exact absurd hfault (by simp [CheckFault.isOfExpression])
    · exact h.exists_blames herr
  | duplicate _ _ h =>
    rcases List.mem_append.mp herr with herr | herr
    · exact h.exists_blames herr
    · obtain rfl := List.mem_singleton.mp herr
      exact absurd hfault (by simp [CheckFault.isOfExpression])

/-- An error that is about an expression is about one in the file. -/
theorem exists_blames_of_mem_errors {o : Options} {source : String}
    (herr : err ∈ (checkSource o source).errors) (hfault : err.fault.isOfExpression) :
    ∃ f, parseCaseFile source = .ok f ∧ ∃ i ∈ f.items, ∃ x, i.value.Holds x ∧ x.Blames err := by
  unfold checkSource checkSourceWith at herr
  cases hparse : parseCaseFile source with
  | error errors =>
    rw [hparse] at herr
    obtain ⟨e, -, rfl⟩ := List.mem_map.mp herr
    exact absurd hfault (by simp [CheckError.ofSyntaxError, CheckFault.isOfExpression])
  | ok f =>
    rw [hparse] at herr
    obtain ⟨found, hitems, herrors, hfound⟩ := findsItems_checkFile (tidy_withOptions o) f
    obtain ⟨q, hq, herr⟩ := List.mem_flatMap.mp (herrors ▸ herr)
    obtain ⟨declared, hfinds⟩ := hfound q hq
    obtain ⟨x, hx, hblames⟩ := hfinds.exists_blames herr hfault
    exact ⟨f, rfl, q.1, hitems ▸ List.mem_map_of_mem hq, x, hx, hblames⟩

/-! ## Relations -/

/-- The arguments of a name, as types with their places. -/
def CheckState.arguments (s : CheckState) (args : List TypeExpr) : List (TypeId × Span) :=
  ((resolveAll args).run s).1.zip (args.map TypeExpr.span)

/-- There is an argument for each expression. -/
theorem length_arguments (s : CheckState) (args : List TypeExpr) :
    (s.arguments args).length = args.length := by
  rw [CheckState.arguments, List.length_zip, List.length_map, length_resolveAll, Nat.min_self]

/-- A relation with as many arguments as it takes is evaluated behind them. -/
theorem run_resolve_relation {name : String} {args : List TypeExpr} {d : Declaration} (span : Span)
    (hd : s.referent? name = some (.relation d)) (hargs : args.length = d.operator.arity) :
    (resolve (.named name args span)).run s =
      (evaluate d.operator (s.arguments args) span).run ((resolveAll args).run s).2 := by
  have harity := (length_arguments s args).trans hargs
  simp only [resolve, StateT.run_bind, StateT.run_get, pure_bind, hd]
  exact congrArg (StateT.run · _) (if_neg (not_not.mpr harity))

/-- A relation with as many arguments as it takes has an outcome. Besides the errors of its
arguments, it records at most that its argument does not meet a constraint. -/
theorem resolve_relation {name : String} {args : List TypeExpr} {d : Declaration} (span : Span)
    (hs : s.Tidy) (hd : s.referent? name = some (.relation d))
    (hargs : args.length = d.operator.arity) :
    (∃ r : Outcome, ((resolve (.named name args span)).run s).1 = r.toType) ∧
      (resolve (.named name args span)).Adds s fun errors => ∃ found own,
        errors = found ++ own ∧ FindsAll args found ∧
        (own = [] ∨ ∃ arg err, args = [arg] ∧ d.operator.Refuses arg.span err ∧ own = [err]) := by
  obtain ⟨-, htidy, hlength, htypes⟩ := yields_resolveAll_length args hs
  have hcanonical : ∀ arg ∈ s.arguments args,
      ((resolveAll args).run s).2.table.Canonical arg.1 :=
    fun arg harg => htypes arg.1 (List.of_mem_zip harg).1
  have hfinds : (resolveAll args).Adds s (FindsAll args) :=
    adds_resolveAll (fun e _ s hs => adds_resolve e s hs) hs
  obtain ⟨found, hfirst, hfound⟩ := hfinds
  obtain ⟨hanswer, own, hsecond, hown⟩ := evaluate_answers d.operator span htidy hcanonical
    ((length_arguments s args).trans hargs)
  rw [Adds, run_resolve_relation span hd hargs]
  exact ⟨hanswer, found ++ own, by rw [hsecond, hfirst, List.append_assoc],
    found, own, rfl, hfound, hown.of_zip hlength⟩

/-- A text has no errors that it cannot cause. That a type cannot be built is found only at an
object that names a property twice and at an intersection that is too complex, and a wrong number of
arguments only at a name with arguments that it does not take. In every state that checking reaches,
a relation with as many arguments as it takes has an outcome, and its evaluation does not fail: the
only error of its own is that its argument does not meet a constraint. -/
theorem checkSource_type_errors (o : Options) (source : String) :
    (∀ err ∈ (checkSource o source).errors, ∀ cause, err.fault = .type cause →
      ∃ f, parseCaseFile source = .ok f ∧ ∃ i ∈ f.items, ∃ x, i.value.Holds x ∧
        x.span = err.span ∧ x.Fails cause) ∧
    (∀ err ∈ (checkSource o source).errors, ∀ name expected actual,
      err.fault = .arity name expected actual →
      ∃ f, parseCaseFile source = .ok f ∧ ∃ i ∈ f.items, ∃ args,
        i.value.Holds (.named name args err.span) ∧ args.length = actual ∧ actual ≠ expected ∧
        (expected = 0 ∨ ∃ d, declaration? name = some d ∧ d.operator.arity = expected)) ∧
    ∀ s, (CheckState.start o).Leads (fun _ => True) s → ∀ name args span d,
      s.referent? name = some (.relation d) → args.length = d.operator.arity →
      (∃ r : Outcome, ((resolve (.named name args span)).run s).1 = r.toType) ∧
        (resolve (.named name args span)).Adds s fun errors => ∃ found own,
          errors = found ++ own ∧ FindsAll args found ∧
          (own = [] ∨ ∃ arg err, args = [arg] ∧ d.operator.Refuses arg.span err ∧ own = [err]) := by
  refine ⟨fun err herr cause hcause => ?_, fun err herr name expected actual hfault => ?_,
    fun s hs name args span d hd hargs => ?_⟩
  · obtain ⟨f, hparse, i, hi, x, hx, hblames⟩ :=
      exists_blames_of_mem_errors herr (by rw [hcause]; rfl)
    have hfails := hblames.fails (hasValue_of_parseCaseFile hparse hi hx) hcause
    exact ⟨f, hparse, i, hi, x, hx, hfails⟩
  · obtain ⟨f, hparse, i, hi, x, hx, hblames⟩ :=
      exists_blames_of_mem_errors herr (by rw [hfault]; rfl)
    obtain ⟨args, rfl, hargs⟩ := hblames.arity_eq hfault
    exact ⟨f, hparse, i, hi, args, hx, hargs⟩
  · exact resolve_relation span (hs.yields (CheckState.tidy_start o)).1 hd hargs

/-- The digits `1_0_` with an `n` are a bigint, and so is their negation. The object is no type. -/
example : (checkSource {} "\x7b a: -1_0_n, a: 2 \x7d").errors =
    [⟨.type (.duplicateProperty "a"), ⟨0, 19, 1, 1⟩⟩] := by decide +kernel

end

end TypeAssay
