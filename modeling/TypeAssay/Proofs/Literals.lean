import Mathlib.Data.Nat.Digits.Lemmas
import TypeAssay.Proofs.Meaning

/-!
# Canonical literals

The constructors of literals give the one written form of each value, so two canonical literals with
a value in common are the same literal.

* `canonicalBigint?_spec` : the canonical digits denote the same integer.
* `isLiteral_unique` : no core is two canonical literals.
-/

namespace TypeAssay

open TypeTable

/-! ## Decimal digits -/

namespace Binary64

/-- The digits are the characters from 48 to 57. -/
theorem toNat_of_isDigit {c : Char} (h : c.isDigit) : 48 ≤ c.toNat ∧ c.toNat ≤ 57 := by
  simp only [Char.isDigit, Bool.and_eq_true, decide_eq_true_eq, ge_iff_le,
    UInt32.le_iff_toNat_le] at h
  exact h

/-- A digit stands for less than ten. -/
theorem digitValue_lt {c : Char} (h : c.isDigit) : digitValue c < 10 := by
  have := toNat_of_isDigit h
  have hzero : '0'.toNat = 48 := rfl
  rw [digitValue]
  omega

/-- A digit is written back as itself. -/
theorem digitChar_digitValue {c : Char} (h : c.isDigit) : Nat.digitChar (digitValue c) = c := by
  obtain ⟨hge, hle⟩ := toNat_of_isDigit h
  rw [← Char.ofNat_toNat c]
  generalize c.toNat = n at hge hle
  interval_cases n <;> rfl

/-- The number that digits spell, first digit first, in terms of the library's function for them. -/
theorem natOfDigits_eq_ofDigits (ds : List Char) :
    natOfDigits ds = Nat.ofDigits 10 (ds.map digitValue).reverse := by
  rw [Nat.ofDigits_eq_foldr, List.foldr_reverse, List.foldl_map, natOfDigits]
  simp only [Nat.cast_id, Nat.add_comm]

/-- Leading zeros do not count. -/
theorem natOfDigits_dropWhile (ds : List Char) :
    natOfDigits (ds.dropWhile (· = '0')) = natOfDigits ds := by
  induction ds with
  | nil => rfl
  | cons d ds ih =>
    rw [List.dropWhile_cons]
    split
    · rename_i hd
      obtain rfl : d = '0' := of_decide_eq_true hd
      rw [ih]
      rfl
    · rfl

/-- Digits without leading zeros are the digits of the number that they spell. -/
theorem digits_natOfDigits {d : Char} {ds : List Char} (hd : d ≠ '0')
    (h : ∀ c ∈ d :: ds, c.isDigit) :
    Nat.digits 10 (natOfDigits (d :: ds)) = ((d :: ds).map digitValue).reverse := by
  rw [natOfDigits_eq_ofDigits, Nat.digits_ofDigits 10 (by omega)]
  · intro l hl
    obtain ⟨c, hc, rfl⟩ := List.mem_map.mp (List.mem_reverse.mp hl)
    exact digitValue_lt (h c hc)
  · -- the last of the digits in the library's order is the first one written, which is not zero
    intro hne
    simp only [List.map_cons, List.getLast_reverse, List.head_cons]
    intro hzero
    apply hd
    rw [← digitChar_digitValue (h d List.mem_cons_self), hzero]
    rfl

/-- The digits of a number, written in order, are the spelling without leading zeros. -/
theorem map_digitChar_digits {d : Char} {ds : List Char} (hd : d ≠ '0')
    (h : ∀ c ∈ d :: ds, c.isDigit) :
    (Nat.digits 10 (natOfDigits (d :: ds))).reverse.map Nat.digitChar = d :: ds := by
  rw [digits_natOfDigits hd h, List.reverse_reverse, List.map_map]
  calc (d :: ds).map (Nat.digitChar ∘ digitValue)
      = (d :: ds).map id := List.map_congr_left fun c hc => digitChar_digitValue (h c hc)
    _ = d :: ds := List.map_id _

/-- Digits that do not start with zero spell a positive number. -/
theorem natOfDigits_pos {d : Char} {ds : List Char} (hd : d ≠ '0')
    (h : ∀ c ∈ d :: ds, c.isDigit) : 0 < natOfDigits (d :: ds) := by
  by_contra hzero
  have := digits_natOfDigits hd h
  rw [Nat.eq_zero_of_not_pos hzero] at this
  simp at this

end Binary64

/-! ## Bigints -/

/-- Digits have no sign in front of them. -/
theorem splitSign_of_digits {ds : List Char} (h : ∀ d ∈ ds, d.isDigit) :
    splitSign ds = (false, ds) := by
  cases ds with
  | nil => rfl
  | cons d ds =>
    have hminus : d ≠ '-' := by
      rintro rfl
      exact absurd (h '-' List.mem_cons_self) (by decide)
    simp [splitSign, hminus]

/-- The sign and the rest put together are what was split. -/
theorem toList_of_splitSign {cs ds : List Char} {negative : Bool}
    (h : splitSign cs = (negative, ds)) : cs = if negative then '-' :: ds else ds := by
  rw [splitSign.eq_def] at h
  split at h
  all_goals
    obtain ⟨rfl, rfl⟩ := Prod.mk.inj h
    rfl

/-- Digits without a sign denote the number that they spell. -/
theorem bigintValue?_ofList {d : Char} {ds : List Char} (h : ∀ c ∈ d :: ds, c.isDigit) :
    bigintValue? (String.ofList (d :: ds)) = some (Binary64.natOfDigits (d :: ds) : Int) := by
  have hall : (d :: ds).all Char.isDigit := List.all_eq_true.mpr h
  simp only [bigintValue?, String.toList_ofList, splitSign_of_digits h, hall]
  simp

/-- Digits behind a minus sign denote the number below zero. -/
theorem bigintValue?_ofList_minus {d : Char} {ds : List Char} (h : ∀ c ∈ d :: ds, c.isDigit) :
    bigintValue? (String.ofList ('-' :: d :: ds)) =
      some (-(Binary64.natOfDigits (d :: ds) : Int)) := by
  have hall : (d :: ds).all Char.isDigit := List.all_eq_true.mpr h
  simp only [bigintValue?, String.toList_ofList, splitSign, hall]
  simp

/-- The canonical digits are canonical, and denote the same integer. -/
theorem canonicalBigint?_spec {digits c : String} (h : canonicalBigint? digits = some c) :
    IsCanonicalBigint c ∧ bigintValue? c = bigintValue? digits := by
  rw [canonicalBigint?] at h
  rw [bigintValue?.eq_def digits]
  rcases hsplit : splitSign digits.toList with ⟨negative, ds⟩
  simp only [hsplit] at h ⊢
  split at h
  · exact absurd h (by simp)
  · rename_i hds
    have hds' : ∀ c ∈ ds, c.isDigit := by
      simp only [Bool.or_eq_true, Bool.not_eq_true', not_or, Bool.not_eq_false] at hds
      exact List.all_eq_true.mp hds.2
    rw [if_neg hds, ← Binary64.natOfDigits_dropWhile ds]
    split at h
    · -- zeros only
      rename_i hdrop
      obtain rfl := Option.some.inj h
      rw [hdrop]
      exact ⟨Or.inl rfl, by cases negative <;> rfl⟩
    · rename_i hdrop
      rcases hs : ds.dropWhile (· = '0') with _ | ⟨e, es⟩
      · exact absurd hs hdrop
      · have hmem : ∀ c ∈ e :: es, c.isDigit := fun c hc =>
          hds' c ((List.dropWhile_sublist _).subset (hs ▸ hc))
        have he : e ≠ '0' := by
          have := List.head?_dropWhile_not (· = '0') ds
          rw [hs] at this
          simpa using this
        rw [hs] at h
        obtain rfl := Option.some.inj h
        have hall : (e :: es).all Char.isDigit := List.all_eq_true.mpr hmem
        cases negative with
        | false =>
          exact ⟨Or.inr ⟨e, es, he, hall, Or.inl rfl⟩, bigintValue?_ofList hmem⟩
        | true =>
          exact ⟨Or.inr ⟨e, es, he, hall, Or.inr rfl⟩, bigintValue?_ofList_minus hmem⟩

/-- Digits with a minus sign or none have a canonical form. -/
theorem exists_canonicalBigint? {ds : List Char} {digits : String} (hne : ds ≠ [])
    (hds : ∀ d ∈ ds, d.isDigit) (h : digits.toList = ds ∨ digits.toList = '-' :: ds) :
    ∃ canonical, canonicalBigint? digits = some canonical := by
  have hdigits : ¬ (ds.isEmpty || !ds.all Char.isDigit) := by
    rw [List.all_eq_true.mpr hds]
    simpa using hne
  obtain ⟨negative, hsplit⟩ : ∃ negative, splitSign digits.toList = (negative, ds) := by
    rcases h with h | h
    · exact ⟨false, by rw [h, splitSign_of_digits hds]⟩
    · exact ⟨true, by rw [h, splitSign]⟩
  simp only [canonicalBigint?, hsplit]
  rw [if_neg hdigits]
  split
  · exact ⟨_, rfl⟩
  · exact ⟨_, rfl⟩

/-- The canonical written form of an integer. -/
def bigintText (n : Int) : String :=
  let ds := (Nat.digits 10 n.natAbs).reverse.map Nat.digitChar
  if n = 0 then "0" else String.ofList (if n < 0 then '-' :: ds else ds)

/-- Canonical digits are the canonical written form of the integer that they denote. -/
theorem IsCanonicalBigint.exists_eq_bigintText {digits : String} (h : IsCanonicalBigint digits) :
    ∃ n, bigintValue? digits = some n ∧ digits = bigintText n := by
  rcases h with rfl | ⟨d, ds, hd, hds, rfl | rfl⟩
  · exact ⟨0, by decide, by simp [bigintText]⟩
  · have hall := List.all_eq_true.mp hds
    have hpos := Binary64.natOfDigits_pos hd hall
    refine ⟨_, bigintValue?_ofList hall, ?_⟩
    rw [bigintText, if_neg (by omega), if_neg (by omega), Int.natAbs_natCast,
      Binary64.map_digitChar_digits hd hall]
  · have hall := List.all_eq_true.mp hds
    have hpos := Binary64.natOfDigits_pos hd hall
    refine ⟨_, bigintValue?_ofList_minus hall, ?_⟩
    rw [bigintText, if_neg (by omega), if_pos (by omega), Int.natAbs_neg, Int.natAbs_natCast,
      Binary64.map_digitChar_digits hd hall]

/-- An integer has one canonical written form. -/
theorem IsCanonicalBigint.eq_of_value {a b : String} (ha : IsCanonicalBigint a)
    (hb : IsCanonicalBigint b) (h : bigintValue? a = bigintValue? b) : a = b := by
  obtain ⟨n, hn, rfl⟩ := ha.exists_eq_bigintText
  obtain ⟨m, hm, rfl⟩ := hb.exists_eq_bigintText
  rw [hn, hm] at h
  rw [Option.some.inj h]

/-! ## Numbers -/

namespace Binary64

/-- Numbers are the same if they are equal or both zero. -/
theorem same_iff {x y : Binary64} : x.same y ↔ x = y ∨ (x.isZero ∧ y.isZero) := by
  simp [same]

/-- The one form of a number that is a literal: both zeros are the positive one. -/
theorem same_foldZero (w x : Binary64) : w.same (if x.isZero then zero else x) = w.same x := by
  have hzero : zero.isZero := by decide
  rw [Bool.eq_iff_iff, same_iff, same_iff]
  by_cases hx : x.isZero
  · rw [if_pos hx]
    constructor
    · rintro (rfl | ⟨hw, -⟩)
      · exact Or.inr ⟨hzero, hx⟩
      · exact Or.inr ⟨hw, hx⟩
    · rintro (rfl | ⟨hw, -⟩)
      · exact Or.inr ⟨hx, hzero⟩
      · exact Or.inr ⟨hw, hzero⟩
  · rw [if_neg hx]

/-- A number is at most one literal with a single zero. -/
theorem eq_of_same {w x y : Binary64} (hx : x.isZero → x = zero) (hy : y.isZero → y = zero)
    (hwx : w.same x) (hwy : w.same y) : x = y := by
  -- both numbers are equal to the first, or zeros, of which only one is allowed
  rcases same_iff.mp hwx with rfl | ⟨hw, hx'⟩ <;> rcases same_iff.mp hwy with rfl | ⟨hw', hy'⟩
  · rfl
  · rw [hx hw', hy hy']
  · rw [hx hx', hy hw]
  · rw [hx hx', hy hy']

end Binary64

/-! ## Literals in general -/

variable {c : Core Value} {l : Literal}

/-- A literal is part of the primitive that it widens to, and of no other. -/
theorem Core.mem_primitives_of_isLiteral (h : c.isLiteral l) (p : Primitive) :
    p ∈ c.primitives ↔ l.base? = some p := by
  cases l <;> cases c <;> simp only [Core.isLiteral, Bool.false_eq_true] at h <;>
    simp [Core.primitives, Literal.base?, eq_comm]

/-- No core is two canonical literals. -/
theorem isLiteral_unique {l' : Literal} (hl : l.IsCanonical) (hl' : l'.IsCanonical)
    (h : c.isLiteral l) (h' : c.isLiteral l') : l = l' := by
  cases l with
  | number x =>
    cases c <;> cases l' <;> simp only [Core.isLiteral, Bool.false_eq_true] at h h'
    rw [Binary64.eq_of_same hl.2 hl'.2 h h']
  | bigint a =>
    cases c <;> cases l' <;> simp only [Core.isLiteral, Bool.false_eq_true] at h h'
    rw [hl.eq_of_value hl' ((of_decide_eq_true h).trans (of_decide_eq_true h').symm)]
  | string s =>
    cases c <;> cases l' <;> simp_all [Core.isLiteral]
  | boolean b =>
    cases c <;> cases l' <;> simp_all [Core.isLiteral]

/-! ## The constructors -/

variable {T : TypeTable}

/-- What interning a canonical literal gives. -/
theorem yields_intern_literal (h : l.IsCanonical) :
    (intern (.literal l)).Yields T fun n U =>
      U.Canonical n ∧ U.get? n = some (.literal l) := by
  have hparts : ∀ j ∈ (Ty.literal l).parts, T.Canonical j := fun j hj => absurd hj List.not_mem_nil
  refine Interning.yields_intern (t := .literal l) h hparts ⟨canonical_intern h hparts, ?_⟩
  exact get?_intern_fst T (.literal l)

/-- Both zeros have one literal. -/
theorem isCanonical_foldZero {x : Binary64} (h : x.isNaN = false) :
    (Literal.number (if x.isZero then .zero else x)).IsCanonical := by
  by_cases hx : x.isZero
  · rw [if_pos hx]
    exact ⟨by decide, fun _ => rfl⟩
  · rw [if_neg hx]
    exact ⟨h, fun h => absurd h hx⟩

/-- A number literal is canonical and has the values of the number that it was made from. -/
theorem numberLiteral_yields (x : Binary64) :
    (numberLiteral x).Yields T fun n U => U.Canonical n ∧ ∃ y : Binary64,
      U.get? n = some (.literal (.number y)) ∧ ∀ w : Binary64, w.same y = w.same x := by
  rw [numberLiteral]
  split
  · exact Building.Yields.throw
  · rename_i hnan
    have hcanonical := isCanonical_foldZero (Bool.eq_false_iff.mpr hnan)
    refine (yields_intern_literal hcanonical).lift.mono ?_
    rintro n U - ⟨hn, hget⟩
    exact ⟨hn, _, hget, fun w => w.same_foldZero x⟩

/-- A bigint literal is canonical and denotes the integer of the digits that it was made from. -/
theorem bigintLiteral_yields (digits : String) :
    (bigintLiteral digits).Yields T fun n U => U.Canonical n ∧ ∃ c,
      U.get? n = some (.literal (.bigint c)) ∧ bigintValue? c = bigintValue? digits := by
  rw [bigintLiteral]
  split
  · exact Building.Yields.throw
  · rename_i c hc
    obtain ⟨hcanonical, hvalue⟩ := canonicalBigint?_spec hc
    refine (yields_intern_literal (l := .bigint c) hcanonical).lift.mono ?_
    rintro n U - ⟨hn, hget⟩
    exact ⟨hn, c, hget, hvalue⟩

/-- A string literal is canonical. -/
theorem stringLiteral_yields (s : String) :
    (stringLiteral s).Yields T fun n U => U.Canonical n :=
  (yields_intern_literal (l := .string s) trivial).mono fun _ _ _ h => h.1

end TypeAssay
