import TypeAssay.Proofs.Computation
import TypeAssay.Proofs.Literals

/-!
# Bigint literals

Decimal digits with a minus sign or none spell an integer (`SpellsInteger`), in as many ways as
there are numbers of leading zeros. A text that spells one has a literal type, and no other text
has. Two such types of one table are the same exactly if the texts spell the same integer
(`bigintLiteral_identifies`): what is interned is the one written form of the integer.
-/

namespace TypeAssay

open TypeTable

variable {digits digits' c c' : String} {n : Int} {T U V W : TypeTable} {i j : TypeId}

/-! ## Integers by their digits -/

/-- One decimal digit or more, with one minus sign in front or none, spells the integer. -/
inductive SpellsInteger : String → Int → Prop
  | plain {ds : List Char} (hne : ds ≠ []) (hds : ∀ d ∈ ds, d.isDigit) :
      SpellsInteger (String.ofList ds) (Nat.ofDigits 10 (ds.map Binary64.digitValue).reverse : Nat)
  | minus {ds : List Char} (hne : ds ≠ []) (hds : ∀ d ∈ ds, d.isDigit) :
      SpellsInteger (String.ofList ('-' :: ds))
        (-(Nat.ofDigits 10 (ds.map Binary64.digitValue).reverse : Nat))

/-- The value that is read off the digits is the integer that they spell. -/
theorem bigintValue?_eq_some_iff : bigintValue? digits = some n ↔ SpellsInteger digits n := by
  constructor
  · intro h
    rw [bigintValue?] at h
    rcases hsplit : splitSign digits.toList with ⟨negative, ds⟩
    simp only [hsplit] at h
    split at h
    · exact absurd h (by simp)
    · rename_i hgood
      simp only [Bool.or_eq_true, List.isEmpty_iff, Bool.not_eq_true', not_or,
        Bool.not_eq_false, List.all_eq_true] at hgood
      have hdigits := toList_of_splitSign hsplit
      rw [← String.ofList_toList (s := digits), hdigits, ← Option.some.inj h,
        Binary64.natOfDigits_eq_ofDigits]
      -- the sign says which of the two forms the text has
      cases negative with
      | false => exact .plain hgood.1 hgood.2
      | true => exact .minus hgood.1 hgood.2
  · intro h
    cases h with
    | plain hne hds =>
      obtain ⟨d, ds, rfl⟩ := List.exists_cons_of_ne_nil hne
      rw [bigintValue?_ofList hds, Binary64.natOfDigits_eq_ofDigits]
    | minus hne hds =>
      obtain ⟨d, ds, rfl⟩ := List.exists_cons_of_ne_nil hne
      rw [bigintValue?_ofList_minus hds, Binary64.natOfDigits_eq_ofDigits]

/-! ## Written forms -/

/-- Texts that spell an integer have a written form, and no others have. -/
theorem exists_canonicalBigint?_iff :
    (∃ c, canonicalBigint? digits = some c) ↔ ∃ n, SpellsInteger digits n := by
  constructor
  · rintro ⟨c, hc⟩
    obtain ⟨hcanonical, hvalue⟩ := canonicalBigint?_spec hc
    obtain ⟨n, hn, -⟩ := hcanonical.exists_eq_bigintText
    exact ⟨n, bigintValue?_eq_some_iff.mp (hvalue.symm.trans hn)⟩
  · rintro ⟨n, hn⟩
    cases hn with
    | plain hne hds => exact exists_canonicalBigint? hne hds (Or.inl String.toList_ofList)
    | minus hne hds => exact exists_canonicalBigint? hne hds (Or.inr String.toList_ofList)

/-- Texts have the same written form exactly if they spell the same integer. -/
theorem canonicalBigint?_eq_iff (h : canonicalBigint? digits = some c)
    (h' : canonicalBigint? digits' = some c') :
    c = c' ↔ ∃ n, SpellsInteger digits n ∧ SpellsInteger digits' n := by
  obtain ⟨hcanonical, hvalue⟩ := canonicalBigint?_spec h
  obtain ⟨hcanonical', hvalue'⟩ := canonicalBigint?_spec h'
  simp only [← bigintValue?_eq_some_iff, ← hvalue, ← hvalue']
  constructor
  · rintro rfl
    obtain ⟨n, hn, -⟩ := hcanonical.exists_eq_bigintText
    exact ⟨n, hn, hn⟩
  · rintro ⟨n, hn, hn'⟩
    exact hcanonical.eq_of_value hcanonical' (hn.trans hn'.symm)

/-! ## Literal types -/

/-- What is interned is the written form. -/
theorem on_bigintLiteral_of_some (h : canonicalBigint? digits = some c) (T : TypeTable) :
    (bigintLiteral digits).on T =
      (.ok (T.intern (.literal (.bigint c))).1, (T.intern (.literal (.bigint c))).2) := by
  rw [bigintLiteral, h]
  rfl

/-- A text without a written form is refused, and the table stays as it is. -/
theorem on_bigintLiteral_of_none (h : canonicalBigint? digits = none) (T : TypeTable) :
    (bigintLiteral digits).on T =
      (.error (.invalidLiteral s!"'{digits}' is not a bigint literal"), T) := by
  rw [bigintLiteral, h]
  rfl

/-- What an answer comes from, and the literal that it names. -/
theorem exists_of_on_bigintLiteral (h : (bigintLiteral digits).on T = (.ok i, U)) :
    ∃ c, canonicalBigint? digits = some c ∧ T.Grows U ∧
      U.get? i = some (.literal (.bigint c)) := by
  cases hc : canonicalBigint? digits with
  | none =>
    rw [on_bigintLiteral_of_none hc] at h
    exact absurd (Prod.mk.inj h).1 (by simp)
  | some c =>
    rw [on_bigintLiteral_of_some hc] at h
    obtain ⟨hi, rfl⟩ := Prod.mk.inj h
    obtain rfl := Except.ok.inj hi
    exact ⟨c, rfl, grows_intern T _, get?_intern_fst T _⟩

/-- A text has a literal type exactly if it spells an integer; else it is refused, and the table
stays as it is. Texts that are looked up in one table, whatever it interns in between, have the same
type exactly if they spell the same integer. -/
theorem bigintLiteral_identifies (T : TypeTable) (digits : String) :
    ((∃ i U, (bigintLiteral digits).on T = (.ok i, U)) ↔ ∃ n, SpellsInteger digits n) ∧
    ((¬ ∃ n, SpellsInteger digits n) → (bigintLiteral digits).on T =
      (.error (.invalidLiteral s!"'{digits}' is not a bigint literal"), T)) ∧
    ∀ digits' i U V j W, (bigintLiteral digits).on T = (.ok i, U) → U.Grows V →
      (bigintLiteral digits').on V = (.ok j, W) →
      (i = j ↔ ∃ n, SpellsInteger digits n ∧ SpellsInteger digits' n) := by
  refine ⟨?_, fun hnone => ?_, fun digits' i U V j W hi hUV hj => ?_⟩
  · rw [← exists_canonicalBigint?_iff]
    constructor
    · rintro ⟨i, U, h⟩
      obtain ⟨c, hc, -⟩ := exists_of_on_bigintLiteral h
      exact ⟨c, hc⟩
    · rintro ⟨c, hc⟩
      exact ⟨_, _, on_bigintLiteral_of_some hc T⟩
  · rw [← exists_canonicalBigint?_iff, not_exists] at hnone
    exact on_bigintLiteral_of_none (Option.eq_none_iff_forall_ne_some.mpr hnone) T
  · obtain ⟨c, hc, -, hget⟩ := exists_of_on_bigintLiteral hi
    obtain ⟨c', hc', hVW, hget'⟩ := exists_of_on_bigintLiteral hj
    -- both literals are in the last table, which holds no node twice
    have hget := (hUV.trans hVW).get? hget
    rw [← canonicalBigint?_eq_iff hc hc']
    constructor
    · rintro rfl
      have hsame := Option.some.inj (hget.symm.trans hget')
      simpa using hsame
    · rintro rfl
      exact get?_injective hget hget'

/-- A number below zero with zeros in front and without, in a table that interned a string in
between; and a number with two signs. -/
theorem bigintLiteral_identifies_sevens :
    (∃ i U V j W, (bigintLiteral "-007").on (withOptions {}) = (.ok i, U) ∧ U.Grows V ∧
      (bigintLiteral "-7").on V = (.ok j, W) ∧ i = j) ∧
    (¬ ∃ n, SpellsInteger "--7" n) ∧ (bigintLiteral "--7").on (withOptions {}) =
      (.error (.invalidLiteral "'--7' is not a bigint literal"), withOptions {}) := by
  have hpadded : canonicalBigint? "-007" = some "-7" := by decide
  have hplain : canonicalBigint? "-7" = some "-7" := by decide
  have hvalues : SpellsInteger "-007" (-7) ∧ SpellsInteger "-7" (-7) :=
    ⟨bigintValue?_eq_some_iff.mp (by decide), bigintValue?_eq_some_iff.mp (by decide)⟩
  have hsigns : ¬ ∃ n, SpellsInteger "--7" n := by
    have hnone : canonicalBigint? "--7" = none := by decide
    rw [← exists_canonicalBigint?_iff, hnone]
    simp
  have hfirst := on_bigintLiteral_of_some hpadded (withOptions {})
  have hgrows := grows_intern ((withOptions {}).intern (.literal (.bigint "-7"))).2
    (.literal (.string "7"))
  have hsecond := on_bigintLiteral_of_some hplain
    (((withOptions {}).intern (.literal (.bigint "-7"))).2.intern (.literal (.string "7"))).2
  refine ⟨⟨_, _, _, _, _, hfirst, hgrows, hsecond, ?_⟩, hsigns, ?_⟩
  · exact ((bigintLiteral_identifies _ _).2.2 _ _ _ _ _ _ hfirst hgrows hsecond).mpr ⟨-7, hvalues⟩
  · exact (bigintLiteral_identifies _ _).2.1 hsigns

end TypeAssay
