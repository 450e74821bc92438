import TypeAssay.CaseFile.Scan
import TypeAssay.Proofs.Literals

/-!
# Texts of numbers

A finite number is written positionally: a sign or none, digits, and a point and more digits or
nothing. Such digits are one number literal, which ends where the next character is no part of an
identifier and no point.

* `exists_positional` : the form of the text of a finite number.
* `scanNumeral_of_isPositional`, `scanNumeral_bigint` : how far a number literal goes.
-/

namespace TypeAssay

/-! ## Signs -/

namespace Binary64

/-- A number that is put together has the sign that it was given. -/
theorem negative_ofParts {negative : Bool} {m : Nat} (hm : m < twoTo 63) :
    (ofParts negative m).negative = negative := by
  have h63 : twoTo 63 = 9223372036854775808 := rfl
  simp only [Binary64.negative, ofParts, h63, UInt64.toNat_ofNat'] at hm ⊢
  cases negative <;> simp only [cond_true, cond_false, beq_eq_false_iff_ne, beq_iff_eq] <;> omega

/-- A number that is put together has the magnitude that it was given. -/
theorem magnitude_ofParts {negative : Bool} {m : Nat} (hm : m < twoTo 63) :
    (ofParts negative m).magnitude = m := by
  have h63 : twoTo 63 = 9223372036854775808 := rfl
  simp only [magnitude, ofParts, h63, UInt64.toNat_ofNat'] at hm ⊢
  cases negative <;> simp only [cond_true, cond_false] <;> omega

/-- A magnitude takes 63 bits. -/
theorem magnitude_lt (x : Binary64) : x.magnitude < twoTo 63 := Nat.mod_lt _ (by decide)

/-- A value is its sign and its magnitude. -/
theorem ofParts_negative_magnitude (x : Binary64) : ofParts x.negative x.magnitude = x := by
  have h63 : twoTo 63 = 9223372036854775808 := rfl
  have hlt := x.bits.toNat_lt
  have hbits : cond x.negative (twoTo 63) 0 + x.magnitude = x.bits.toNat := by
    rw [negative, magnitude, h63]
    by_cases hsign : x.bits.toNat / 9223372036854775808 = 1
    · simp only [hsign, beq_self_eq_true, cond_true]
      omega
    · have hfalse : (x.bits.toNat / 9223372036854775808 == 1) = false := by simpa using hsign
      simp only [hfalse, cond_false]
      omega
  rw [ofParts, hbits]
  simp

/-- Changing the sign twice changes nothing. -/
theorem neg_neg (x : Binary64) : x.neg.neg = x := by
  have hlt := x.magnitude_lt
  rw [neg, neg, negative_ofParts hlt, magnitude_ofParts hlt, Bool.not_not,
    ofParts_negative_magnitude]

end Binary64

/-! ## Positional texts -/

/-- Digits, and a point and more digits or nothing. -/
inductive IsPositional : List Char → Prop
  | whole {ds : List Char} (hne : ds ≠ []) (hds : ∀ d ∈ ds, d.isDigit) : IsPositional ds
  | point {ds fs : List Char} (hne : ds ≠ []) (hds : ∀ d ∈ ds, d.isDigit) (hne' : fs ≠ [])
      (hfs : ∀ f ∈ fs, f.isDigit) : IsPositional (ds ++ '.' :: fs)

/-- A natural number is written with digits. -/
theorem isDigit_of_mem_toDigits {n : Nat} {c : Char} (h : c ∈ Nat.toDigits 10 n) : c.isDigit :=
  Nat.isDigit_of_mem_toDigits (by decide) (by decide) h

/-- Digits and a power of ten are written positionally. -/
theorem isPositional_positional (digits : Nat) (k : Int) :
    IsPositional (Binary64.positional digits k).toList := by
  rw [Binary64.positional]
  have hlength : 0 < (Nat.toDigits 10 digits).length := Nat.length_toDigits_pos
  -- without a negative power zeros are added behind the digits
  split
  · rw [String.toList_ofList]
    refine .whole (by simp) fun d hd => ?_
    rcases List.mem_append.mp hd with hd | hd
    · exact isDigit_of_mem_toDigits hd
    · rw [List.eq_of_mem_replicate hd]
      decide
  · rename_i hk
    dsimp only
    rw [String.toList_ofList]
    generalize hpadded : List.replicate ((-k).toNat + 1 - (Nat.toDigits 10 digits).length) '0' ++
      Nat.toDigits 10 digits = padded
    have hdigits : ∀ d ∈ padded, d.isDigit := by
      intro d hd
      rcases List.mem_append.mp (hpadded ▸ hd) with hd | hd
      · rw [List.eq_of_mem_replicate hd]
        decide
      · exact isDigit_of_mem_toDigits hd
    -- zeros in front leave one digit at least before the point
    have hpadded : (-k).toNat + 1 ≤ padded.length := by
      rw [← hpadded, List.length_append, List.length_replicate]
      omega
    refine .point ?_ (fun d hd => hdigits d (List.mem_of_mem_take hd)) ?_
      fun d hd => hdigits d (List.mem_of_mem_drop hd)
    · apply List.ne_nil_of_length_pos
      rw [List.length_take]
      omega
    · apply List.ne_nil_of_length_pos
      rw [List.length_drop]
      omega

/-- The text of a finite number: the sign and digits. -/
theorem exists_positional {x : Binary64} (hnan : x.isNaN = false) (hinf : x.isInfinite = false) :
    ∃ ps, IsPositional ps ∧ x.text.toList = (if x.negative then ['-'] else []) ++ ps := by
  have hsign : (if x.negative then "-" else "").toList = if x.negative then ['-'] else [] := by
    split <;> rfl
  rw [Binary64.text, hnan, hinf, if_neg Bool.false_ne_true, if_neg Bool.false_ne_true]
  split
  · refine ⟨['0'], .whole (by simp) (by simp), ?_⟩
    rw [String.toList_append, hsign]
    rfl
  · refine ⟨_, isPositional_positional x.roundingInterval.shortest.1
      x.roundingInterval.shortest.2, ?_⟩
    rw [String.toList_append, hsign]

/-- A positional text has digits and a point only. -/
theorem isDigit_or_point_of_mem {ps : List Char} (h : IsPositional ps) {c : Char} (hc : c ∈ ps) :
    c.isDigit ∨ c = '.' := by
  cases h with
  | whole _ hds => exact .inl (hds c hc)
  | point _ hds _ hfs =>
    rcases List.mem_append.mp hc with hc | hc
    · exact .inl (hds c hc)
    · rcases List.mem_cons.mp hc with rfl | hc
      · exact .inr rfl
      · exact .inl (hfs c hc)

/-- A positional text starts with a digit. -/
theorem exists_digit_cons {ps : List Char} (h : IsPositional ps) :
    ∃ d ds, ps = d :: ds ∧ d.isDigit := by
  cases h with
  | @whole ds hne hds =>
    obtain ⟨d, ds, rfl⟩ := List.exists_cons_of_ne_nil hne
    exact ⟨d, ds, rfl, hds d List.mem_cons_self⟩
  | @point ds fs hne hds _ _ =>
    obtain ⟨d, ds, rfl⟩ := List.exists_cons_of_ne_nil hne
    exact ⟨d, ds ++ '.' :: fs, rfl, hds d List.mem_cons_self⟩

/-! ## Reading -/

/-- A property of the ten digits. -/
theorem forall_isDigit {p : Char → Prop} (h : ∀ n < 10, p (Nat.digitChar n)) {c : Char}
    (hc : c.isDigit) : p c := by
  rw [← Binary64.digitChar_digitValue hc]
  exact h _ (Binary64.digitValue_lt hc)

/-- A positional text is none of the named numbers. -/
theorem namedOfChars?_of_isPositional {ps : List Char} (h : IsPositional ps) :
    Binary64.namedOfChars? ps = none := by
  obtain ⟨d, ds, rfl, hd⟩ := exists_digit_cons h
  have hlower : d.toLower ≠ 'i' ∧ d.toLower ≠ 'n' :=
    forall_isDigit (p := fun c => c.toLower ≠ 'i' ∧ c.toLower ≠ 'n') (by decide) hd
  simp [Binary64.namedOfChars?, hlower]

/-- Behind its sign, a text that reads back as a number denotes the number without its sign. -/
theorem unsignedOfChars?_of_ofText? {x : Binary64} {ps : List Char} (hps : IsPositional ps)
    (htext : x.text.toList = (if x.negative then ['-'] else []) ++ ps)
    (h : Binary64.ofText? x.text = some x) :
    Binary64.unsignedOfChars? ps = some (if x.negative then x.neg else x) := by
  have hnamed := namedOfChars?_of_isPositional hps
  rw [Binary64.ofText?, htext] at h
  -- the sign decides how the text starts: with a minus sign or with the first digit
  cases hsign : x.negative with
  | true =>
    simp only [hsign, if_true, List.cons_append, List.nil_append, hnamed] at h ⊢
    obtain ⟨y, hy, hneg⟩ := Option.map_eq_some_iff.mp h
    change Binary64.unsignedOfChars? ps = some y at hy
    rw [hy, ← hneg, Binary64.neg_neg]
  | false =>
    obtain ⟨d, ds, rfl, hd⟩ := exists_digit_cons hps
    have hplain : d ≠ '-' ∧ d ≠ '+' :=
      forall_isDigit (p := fun c => c ≠ '-' ∧ c ≠ '+') (by decide) hd
    simpa [hsign, hplain, hnamed] using h

/-! ## Scanning -/

/-- Nothing follows, or a character that no number literal goes on with. -/
def EndsNumeral (rest : List Char) : Prop := ∀ c ∈ rest.head?, isIdentifierPart c = false ∧ c ≠ '.'

/-- Nothing follows, or a character that is no digit and no separator and does not make a
hexadecimal literal of a zero in front of it. -/
def EndsDigits (rest : List Char) : Prop :=
  ∀ c ∈ rest.head?, c.isDigit = false ∧ c ≠ '_' ∧ c ≠ 'x' ∧ c ≠ 'X'

/-- What ends a number literal is no part of an identifier. -/
theorem EndsNumeral.ne {rest : List Char} (h : EndsNumeral rest) {c d : Char}
    (hc : c ∈ rest.head?) (hd : isIdentifierPart d) : c ≠ d := by
  rintro rfl
  exact absurd hd (by simp [h c hc])

/-- What ends a number literal ends its digits. -/
theorem EndsNumeral.endsDigits {rest : List Char} (h : EndsNumeral rest) : EndsDigits rest := by
  intro c hc
  refine ⟨?_, h.ne hc (by decide), h.ne hc (by decide), h.ne hc (by decide)⟩
  have := (h c hc).1
  simp only [isIdentifierPart, Bool.or_eq_false_iff] at this
  exact this.2

/-- Only the first character counts. -/
theorem endsDigits_cons {c : Char} (rest : List Char)
    (h : c.isDigit = false ∧ c ≠ '_' ∧ c ≠ 'x' ∧ c ≠ 'X') :
    EndsDigits (c :: rest) := by
  rintro d ⟨rfl⟩
  exact h

section

variable {ds ps rest : List Char}

/-- Digits are taken as far as they go. -/
theorem scanWhole_of_digits (hds : ∀ d ∈ ds, d.isDigit) (hrest : EndsDigits rest) :
    scanWhole .digits (ds ++ rest) = (ds.length, .digits) := by
  induction ds with
  | nil =>
    cases rest with
    | nil => rfl
    | cons c rest =>
      obtain ⟨hdigit, hseparator, _⟩ := hrest c rfl
      simp [scanWhole, SeparatorState.next?, hdigit, hseparator]
  | cons d ds ih =>
    have hd : d.isDigit := hds d List.mem_cons_self
    simp [scanWhole, SeparatorState.next?, hd, ih fun e he => hds e (List.mem_cons_of_mem d he)]

/-- Digits of a fraction are taken as far as they go. -/
theorem separatedLength_of_digits (hds : ∀ d ∈ ds, d.isDigit) (hrest : EndsDigits rest) :
    separatedLength Char.isDigit (ds ++ rest) = ds.length := by
  induction ds with
  | nil =>
    cases rest with
    | nil => rfl
    | cons c rest =>
      obtain ⟨hdigit, hseparator, _⟩ := hrest c rfl
      cases rest <;> simp [separatedLength, hdigit, hseparator]
  | cons d ds ih =>
    have hd : d.isDigit := hds d List.mem_cons_self
    have ih := ih fun e he => hds e (List.mem_cons_of_mem d he)
    cases htail : ds ++ rest with
    | nil =>
      rw [List.append_eq_nil_iff] at htail
      simp [separatedLength, hd, htail]
    | cons e tail =>
      rw [htail] at ih
      rw [List.cons_append, htail, separatedLength, if_pos hd, ih, List.length_cons]

/-- Digits are no hexadecimal literal unless `x` follows. -/
theorem hexLength?_of_digits (hne : ds ≠ []) (hds : ∀ d ∈ ds, d.isDigit)
    (hrest : EndsDigits rest) : hexLength? (ds ++ rest) = none := by
  obtain ⟨d, ds, rfl⟩ := List.exists_cons_of_ne_nil hne
  -- the second character is a digit, or the one behind all of them
  have hsecond : ∀ c ∈ (ds ++ rest).head?, c ≠ 'x' ∧ c ≠ 'X' := by
    cases ds with
    | nil => exact fun c hc => (hrest c hc).2.2
    | cons e ds =>
      have he : e.isDigit := hds e (by simp)
      rintro c ⟨rfl⟩
      refine ⟨?_, ?_⟩ <;> (rintro rfl; exact absurd he (by decide))
  rw [List.cons_append, hexLength?.eq_def]
  split
  · rename_i x _ heq
    obtain ⟨-, htail⟩ := List.cons.inj heq
    obtain ⟨hx, hX⟩ := hsecond x (by rw [htail]; rfl)
    simp [hx, hX]
  · rfl

/-- Where a literal ends, there is no exponent. -/
theorem exponentLength_of_endsNumeral (hrest : EndsNumeral rest) : exponentLength rest = 0 := by
  cases rest with
  | nil => rfl
  | cons c rest =>
    have he : c ≠ 'e' := hrest.ne rfl (by decide)
    have hE : c ≠ 'E' := hrest.ne rfl (by decide)
    simp [exponentLength, he, hE]

/-- Where a literal ends, there is no fraction. -/
theorem fractionLength_of_endsNumeral (hrest : EndsNumeral rest) : fractionLength rest = 0 := by
  rw [fractionLength.eq_def]
  split
  · exact absurd rfl (hrest '.' rfl).2
  · rfl

/-- What a literal that starts with digits only is. -/
theorem scanNumeral_of_digits (hne : ds ≠ []) (hds : ∀ d ∈ ds, d.isDigit)
    (hrest : EndsDigits rest) : scanNumeral (ds ++ rest) =
      if rest.head? = some 'n' then
        (.bigint (String.ofList (withoutSeparators ds)), ds.length + 1)
      else
        let length := ds.length + fractionLength rest +
          exponentLength (rest.drop (fractionLength rest))
        (decimalValue ((ds ++ rest).take length), length) := by
  rw [scanNumeral, hexLength?_of_digits hne hds hrest]
  simp only [scanWhole_of_digits hds hrest, List.drop_left, List.take_left, reduceCtorEq, if_false]

/-- Without separators nothing is taken out. -/
theorem withoutSeparators_eq_self (h : '_' ∉ ds) : withoutSeparators ds = ds :=
  List.filter_eq_self.mpr fun _ hd => decide_eq_true fun he => h (he ▸ hd)

/-- Positional digits denote the number that reading them gives. -/
theorem decimalValue_of_isPositional {y : Binary64} (hps : IsPositional ps)
    (hy : Binary64.unsignedOfChars? ps = some y) : decimalValue ps = .number y := by
  have hseparator : '_' ∉ ps := by
    intro h
    rcases isDigit_or_point_of_mem hps h with hc | hc
    · exact absurd hc (by decide)
    · exact absurd hc (by decide)
  rw [decimalValue, withoutSeparators_eq_self hseparator, hy]
  rfl

/-- Positional digits are one number literal. -/
theorem scanNumeral_of_isPositional (hps : IsPositional ps) (hrest : EndsNumeral rest) :
    scanNumeral (ps ++ rest) = (decimalValue ps, ps.length) := by
  cases hps with
  | whole hne hds =>
    have hn : rest.head? ≠ some 'n' := fun h => hrest.ne h (by decide) rfl
    rw [scanNumeral_of_digits hne hds hrest.endsDigits, if_neg hn]
    simp [fractionLength_of_endsNumeral hrest, exponentLength_of_endsNumeral hrest]
  | @point ds fs hne hds hne' hfs =>
    have hfraction : fractionLength ('.' :: (fs ++ rest)) = fs.length + 1 := by
      obtain ⟨f, fs, rfl⟩ := List.exists_cons_of_ne_nil hne'
      have hf : (f :: fs ++ rest).head?.any Char.isDigit := hfs f List.mem_cons_self
      rw [fractionLength, if_pos hf, separatedLength_of_digits hfs hrest.endsDigits]
    have hsplit : ds ++ '.' :: fs ++ rest = ds ++ '.' :: (fs ++ rest) := by simp
    rw [hsplit, scanNumeral_of_digits hne hds (endsDigits_cons _ (by decide)), if_neg (by simp)]
    simp only [hfraction, List.drop_succ_cons, List.drop_left,
      exponentLength_of_endsNumeral hrest, Nat.add_zero, ← hsplit]
    have hlength : ds.length + (fs.length + 1) = (ds ++ '.' :: fs).length := by simp
    rw [hlength, List.take_left]

/-- Digits and an `n` are one bigint literal. -/
theorem scanNumeral_bigint (hne : ds ≠ []) (hds : ∀ d ∈ ds, d.isDigit) :
    scanNumeral (ds ++ 'n' :: rest) = (.bigint (String.ofList ds), ds.length + 1) := by
  have hseparator : '_' ∉ ds := fun h => absurd (hds '_' h) (by decide)
  rw [scanNumeral_of_digits hne hds (endsDigits_cons _ (by decide)), List.head?_cons, if_pos rfl,
    withoutSeparators_eq_self hseparator]

end

end TypeAssay
