import TypeAssay.Proofs.Positions

/-!
# Texts that are cut off

Scanning does not look past what it takes: if a text is cut off behind a piece, what comes before
the cut is still cut into the same pieces (`scan_take`, `pieces_flatMap_text`). Each function that
measures how much of the characters ahead it takes is looked at once: it answers the same for any
beginning that has at least so many characters.
-/

namespace TypeAssay

/-! ## The character at the cut -/

section

variable {p : Char → Bool} {c : Char} {cs : List Char} {k : Nat}

/-- The cut is behind the characters that are taken. -/
theorem takeWhile_take (h : (cs.takeWhile p).length ≤ k) :
    (cs.take k).takeWhile p = cs.takeWhile p := by
  rw [← List.take_takeWhile, List.take_of_length_le h]

/-- The character at the cut is the same, or there is none. -/
theorem any_head?_take (h : cs.head?.any p = false) : (cs.take k).head?.any p = false := by
  rw [List.head?_take]
  split
  · rfl
  · exact h

/-- What does not come next does not come next before the cut. -/
theorem head?_take_ne (h : cs.head? ≠ some c) : (cs.take k).head? ≠ some c := by
  rw [List.head?_take]
  split
  · simp
  · exact h

/-- Before the cut the same character comes next. -/
theorem head?_take_of_pos (h : 0 < k) : (cs.take k).head? = cs.head? := by
  rw [List.head?_take, if_neg (Nat.ne_of_gt h)]

/-! ## Number literals -/

/-- The digits up to the cut are those of the whole text. -/
theorem separatedLength_take (h : separatedLength p cs ≤ k) :
    separatedLength p (cs.take k) = separatedLength p cs := by
  -- by induction on the text; the cut moves with it
  induction cs generalizing k with
  | nil => rw [List.take_nil]
  | cons c cs ih =>
    rw [separatedLength_cons] at h ⊢
    cases k with
    | zero =>
      split at h
      · exact absurd h (Nat.not_succ_le_zero _)
      · rename_i hstop
        rw [if_neg hstop]
        rfl
    | succ k =>
      rw [List.take_succ_cons, separatedLength_cons]
      by_cases hdigit : p c
      · simp only [hdigit, Bool.true_or, if_true] at h ⊢
        rw [ih (Nat.le_of_succ_le_succ h)]
      · by_cases hnext : cs.head?.any p
        · -- the digit behind the separator is before the cut
          by_cases hc : c = '_'
          · simp only [hc, hnext, decide_true, Bool.and_self, Bool.or_true, if_true] at h ⊢
            have hpos := separatedLength_pos hnext
            rw [head?_take_of_pos (hpos.trans_le (Nat.le_of_succ_le_succ h)), hnext,
              ih (Nat.le_of_succ_le_succ h)]
            simp
          · simp [hdigit, hc]
        · simp [hdigit, hnext, any_head?_take (Bool.not_eq_true _ ▸ hnext)]

/-- The whole part up to the cut is that of the whole text. -/
theorem scanWhole_take (state : SeparatorState) (h : (scanWhole state cs).1 ≤ k) :
    scanWhole state (cs.take k) = scanWhole state cs := by
  induction cs generalizing k state with
  | nil => rw [List.take_nil]
  | cons c cs ih =>
    rw [scanWhole] at h ⊢
    cases hstate : state.next? c with
    | none =>
      cases k with
      | zero => rfl
      | succ k => rw [List.take_succ_cons, scanWhole, hstate]
    | some state' =>
      simp only [hstate] at h ⊢
      obtain ⟨k, rfl⟩ : ∃ j, k = j + 1 := Nat.exists_eq_add_one.mpr (Nat.lt_of_lt_of_le
        (Nat.succ_pos _) h)
      rw [List.take_succ_cons, scanWhole, hstate]
      simp only [ih state' (Nat.le_of_succ_le_succ h)]

/-- The fraction up to the cut is that of the whole text. -/
theorem fractionLength_take (h : fractionLength cs ≤ k) :
    fractionLength (cs.take k) = fractionLength cs := by
  cases k with
  | zero =>
    rw [Nat.le_zero.mp h]
    rfl
  | succ k =>
    cases cs with
    | nil => rw [List.take_nil]
    | cons c cs =>
      rw [List.take_succ_cons]
      by_cases hc : c = '.'
      · subst hc
        rw [fractionLength_point] at h ⊢
        rw [fractionLength_point]
        by_cases hdigit : cs.head?.any Char.isDigit
        · -- digits follow the point, and the first of them is before the cut
          rw [if_pos hdigit] at h ⊢
          have hlength := Nat.le_of_succ_le_succ h
          have hpos := (separatedLength_pos hdigit).trans_le hlength
          rw [head?_take_of_pos hpos, if_pos hdigit, separatedLength_take hlength]
        · rw [any_head?_take (Bool.not_eq_true _ ▸ hdigit)]
          simp [hdigit]
      · simp [fractionLength, hc]

/-- An exponent is more than a letter. -/
theorem exponentOver_eq_zero {signLength : Nat} (h : exponentOver signLength cs ≤ 1) :
    exponentOver signLength cs = 0 := by
  rw [exponentOver] at h ⊢
  split at h
  · rename_i hdigits
    rw [if_pos hdigits]
  · omega

/-- The digits of an exponent up to the cut are those of the whole text. -/
theorem exponentOver_take {signLength : Nat} (h : exponentOver signLength cs ≤ 1 + signLength + k) :
    exponentOver signLength (cs.take k) = exponentOver signLength cs := by
  have hdigits : (cs.takeWhile Char.isDigit).length ≤ k := by
    rw [exponentOver] at h
    split at h <;> omega
  rw [exponentOver, exponentOver, takeWhile_take hdigits]

/-- The exponent up to the cut is that of the whole text. -/
theorem exponentLength_take (h : exponentLength cs ≤ k) :
    exponentLength (cs.take k) = exponentLength cs := by
  cases k with
  | zero =>
    rw [Nat.le_zero.mp h]
    rfl
  | succ k =>
    rcases cs with _ | ⟨c, cs⟩
    · rw [List.take_nil]
    rw [List.take_succ_cons]
    rw [exponentLength_cons] at h ⊢
    rw [exponentLength_cons]
    by_cases hc : c = 'e' ∨ c = 'E'
    · simp only [if_pos hc] at h ⊢
      by_cases hsign : cs.head? = some '+' ∨ cs.head? = some '-'
      · rw [if_pos hsign] at h ⊢
        cases k with
        | zero =>
          -- the cut is before the sign, so the exponent has no digits
          rw [exponentOver_eq_zero h]
          rfl
        | succ k =>
          rw [head?_take_of_pos (Nat.succ_pos k), if_pos hsign]
          rcases cs with _ | ⟨d, ds⟩
          · rfl
          · rw [List.take_succ_cons, List.tail_cons, List.tail_cons, exponentOver_take (by
              rw [List.tail_cons] at h
              omega)]
      · have hsign' : ¬ ((cs.take k).head? = some '+' ∨ (cs.take k).head? = some '-') := by
          rw [not_or] at hsign ⊢
          exact hsign.imp head?_take_ne head?_take_ne
        rw [if_neg hsign] at h ⊢
        rw [if_neg hsign', exponentOver_take (by omega)]
    · simp only [if_neg hc]

/-- A hexadecimal literal up to the cut is that of the whole text. -/
theorem hexLength?_take {n : Nat} (h : hexLength? cs = some n) (hk : n + 2 ≤ k) :
    hexLength? (cs.take k) = some n := by
  rw [hexLength?.eq_def] at h
  split at h
  · rename_i x rest
    obtain ⟨k, rfl⟩ : ∃ j, k = j + 2 := ⟨k - 2, by omega⟩
    split at h
    · rename_i hx
      obtain rfl := Option.some.inj h
      rw [Bool.and_eq_true] at hx
      have hlength := Nat.add_le_add_iff_right.mp hk
      have hpos := (separatedLength_pos hx.2).trans_le hlength
      rw [List.take_succ_cons, List.take_succ_cons, hexLength?, head?_take_of_pos hpos,
        if_pos (by simp [hx]), separatedLength_take hlength]
    · exact absurd h (by simp)
  · exact absurd h (by simp)

/-- Where there is no hexadecimal literal, there is none up to a cut. -/
theorem hexLength?_take_none (h : hexLength? cs = none) : hexLength? (cs.take k) = none := by
  rw [hexLength?.eq_def]
  split
  · rename_i x rest heq
    -- what is found before the cut is found in the whole text
    obtain ⟨after, hafter⟩ := List.take_prefix k cs
    rw [heq] at hafter
    subst hafter
    rw [List.cons_append, List.cons_append, hexLength?] at h
    split at h
    · exact absurd h (by simp)
    · rename_i hx
      refine if_neg fun hx' => hx ?_
      rw [Bool.and_eq_true] at hx' ⊢
      refine ⟨hx'.1, ?_⟩
      cases rest with
      | nil => exact absurd hx'.2 (by simp)
      | cons d rest => exact hx'.2
  · rfl

/-- A numeral up to the cut is read as it is in the whole text. -/
theorem scanNumeral_take (h : (scanNumeral cs).2 ≤ k) :
    scanNumeral (cs.take k) = scanNumeral cs := by
  rw [scanNumeral] at h ⊢
  rw [scanNumeral]
  cases hhex : hexLength? cs with
  | some n =>
    simp only [hhex] at h ⊢
    rw [hexLength?_take hhex h]
    simp only [List.drop_take, List.take_take, Nat.min_eq_left (Nat.le_sub_of_add_le h)]
  | none =>
    simp only [hhex, hexLength?_take_none hhex] at h ⊢
    rcases hwhole : scanWhole .digits cs with ⟨whole, state⟩
    simp only [hwhole] at h
    -- the whole part is the first of what is read, so it is before the cut as well
    have hle : whole ≤ k := by
      split at h
      · exact h
      · split at h
        · exact Nat.le_of_succ_le h
        · simp only at h
          omega
    have hwhole' : scanWhole .digits (cs.take k) = (whole, state) := by
      rw [scanWhole_take .digits (by rwa [hwhole]), hwhole]
    simp only [hwhole', List.drop_take, List.take_take, Nat.min_eq_left hle]
    split
    · rfl
    · rename_i hstate
      rw [if_neg hstate] at h
      split at h
      · rename_i hn
        have hpos : 0 < k - whole := Nat.sub_pos_of_lt h
        rw [head?_take_of_pos hpos, if_pos hn, if_pos hn]
      · rename_i hn
        rw [if_neg (head?_take_ne hn), if_neg hn]
        simp only at h
        rw [fractionLength_take (by omega), exponentLength_take (by omega), Nat.min_eq_left h]

/-- A fraction without a whole part up to the cut is read as in the whole text. -/
theorem scanFraction_take (h : (scanFraction cs).2 ≤ k) :
    scanFraction (cs.take k) = scanFraction cs := by
  simp only [scanFraction] at h ⊢
  rw [fractionLength_take (Nat.le_of_add_right_le h), List.drop_take,
    exponentLength_take (Nat.le_sub_of_add_le' h), List.take_take, Nat.min_eq_left h]

/-- A point and a digit at least. -/
theorem two_le_scanFraction (h : cs.head?.any Char.isDigit) : 2 ≤ (scanFraction ('.' :: cs)).2 := by
  have hpos := separatedLength_pos h
  simp only [scanFraction, fractionLength_point, if_pos h]
  omega

/-! ## Comments and strings -/

/-- A block comment up to the cut is that of the whole text. -/
theorem blockLength_take (h : blockLength cs ≤ k) : blockLength (cs.take k) = blockLength cs := by
  fun_induction blockLength cs generalizing k with
  | case1 rest =>
    obtain ⟨k, rfl⟩ : ∃ j, k = j + 2 := ⟨k - 2, by omega⟩
    rfl
  | case2 c rest hopen ih =>
    obtain ⟨k, rfl⟩ : ∃ j, k = j + 1 := ⟨k - 1, by omega⟩
    rw [List.take_succ_cons, blockLength, ih (Nat.le_of_succ_le_succ h)]
    intro rest' hc hrest
    obtain ⟨after, hafter⟩ := List.take_prefix k rest
    rw [hrest] at hafter
    exact hopen _ hc hafter.symm
  | case3 => rw [List.take_nil]; rfl

/-- A quote ends the body at once. -/
theorem stringBody_quote (quote : Char) (cs : List Char) :
    stringBody quote (quote :: cs) = ([], true) := by
  cases cs <;> simp [stringBody]

/-- A line break ends the body without a quote. -/
theorem stringBody_newline {quote : Char} (h : '\n' ≠ quote) (cs : List Char) :
    stringBody quote ('\n' :: cs) = ([], false) := by
  cases cs <;> simp [stringBody, h]

/-- The body of a string up to the cut is that of the whole text. -/
theorem stringBody_take {quote : Char}
    (h : (stringBody quote cs).1.length + (stringBody quote cs).2.toNat ≤ k) :
    stringBody quote (cs.take k) = stringBody quote cs := by
  -- by the cases of the scan: a quote or a line break stops it, and a backslash takes two
  fun_induction stringBody quote cs generalizing k with
  | case1 => rw [List.take_nil, stringBody]
  | case2 =>
    rw [List.take_of_length_le h, stringBody_quote]
  | case3 c hquote hstop =>
    cases k with
    | zero => rfl
    | succ k => rw [List.take_of_length_le (by simp), stringBody, if_neg hquote, if_pos hstop]
  | case4 c hquote hstop =>
    rw [List.take_of_length_le h, stringBody, if_neg hquote, if_neg hstop]
  | case5 d rest =>
    obtain ⟨k, rfl⟩ : ∃ j, k = j + 1 := Nat.exists_eq_add_one.mpr h
    rw [List.take_succ_cons, stringBody_quote]
  | case6 d rest hquote =>
    cases k with
    | zero => rfl
    | succ k => rw [List.take_succ_cons, stringBody_newline hquote]
  | case7 rest hquote hline =>
    rcases k with _ | _ | k
    · rfl
    · simp [stringBody, hquote]
    · simp [stringBody, hquote]
  | case8 d rest hd body closed hbody hquote hline ih =>
    rw [hbody] at ih
    simp only [List.length_cons] at h
    obtain ⟨k, rfl⟩ : ∃ j, k = j + 2 := ⟨k - 2, by omega⟩
    rw [List.take_succ_cons, List.take_succ_cons, stringBody, if_neg hquote, if_neg hline,
      if_pos rfl, if_neg hd, ih (by simp only; omega)]
  | case9 c d rest hquote hline hslash body closed hbody ih =>
    rw [hbody] at ih
    simp only [List.length_cons] at h
    obtain ⟨k, rfl⟩ : ∃ j, k = j + 1 := ⟨k - 1, by omega⟩
    rw [List.take_succ_cons, stringBody_cons hquote hline hslash, ih (by simp only; omega)]

/-! ## Scanning -/

/-- What a piece is, and how long, does not depend on what stands behind it. -/
theorem scan_take (c : Char) (h : (scan c cs).2 ≤ k) : scan c (cs.take k) = scan c cs := by
  rw [scan] at h ⊢
  rw [scan]
  -- rule by rule, in the order in which the scan tries them
  by_cases hblank : isBlank c
  · simp only [if_pos hblank] at h ⊢
    rw [takeWhile_take h]
  by_cases hline : (c = '/' && cs.head? = some '/') = true
  · simp only [if_neg hblank, if_pos hline] at h ⊢
    rw [Bool.and_eq_true, decide_eq_true_eq, decide_eq_true_eq] at hline
    obtain ⟨ds, rfl⟩ := List.head?_eq_some_iff.mp hline.2
    have hpos : 0 < k := by
      rw [List.takeWhile_cons_of_pos (by decide)] at h
      exact Nat.lt_of_lt_of_le (Nat.succ_pos _) h
    rw [head?_take_of_pos hpos, if_pos (by simp [hline]), takeWhile_take h]
  by_cases hblock : (c = '/' && cs.head? = some '*') = true
  · simp only [if_neg hblank, if_neg hline, if_pos hblock] at h ⊢
    obtain ⟨k, rfl⟩ : ∃ j, k = j + 1 := ⟨k - 1, by omega⟩
    have htail : (cs.take (k + 1)).tail = cs.tail.take k := by cases cs <;> simp
    rw [head?_take_of_pos k.succ_pos, if_neg hline, if_pos hblock, htail,
      blockLength_take (Nat.le_of_succ_le_succ h)]
  have hslash : ∀ d, ¬ (c = '/' && cs.head? = some d) = true →
      ¬ (c = '/' && (cs.take k).head? = some d) = true := by
    intro d hd
    simp only [Bool.and_eq_true, decide_eq_true_eq, not_and] at hd ⊢
    exact fun hc => head?_take_ne (hd hc)
  simp only [if_neg hblank, if_neg hline, if_neg hblock, if_neg (hslash _ hline),
    if_neg (hslash _ hblock)] at h ⊢
  by_cases hword : isIdentifierStart c
  · simp only [if_pos hword] at h ⊢
    rw [takeWhile_take h]
  simp only [if_neg hword] at h ⊢
  by_cases hdigit : c.isDigit
  · simp only [if_pos hdigit] at h ⊢
    have hlength := Nat.le_add_of_sub_le h
    rw [← List.take_succ_cons, scanNumeral_take hlength, List.take_take, Nat.min_eq_left hlength]
  simp only [if_neg hdigit] at h ⊢
  by_cases hpoint : (c = '.' && cs.head?.any Char.isDigit) = true
  · simp only [if_pos hpoint] at h ⊢
    have hlength := Nat.le_add_of_sub_le h
    have hpos : 0 < k := by
      rw [Bool.and_eq_true, decide_eq_true_eq] at hpoint
      obtain ⟨rfl, hahead⟩ := hpoint
      exact Nat.le_of_succ_le_succ ((two_le_scanFraction hahead).trans hlength)
    rw [head?_take_of_pos hpos, if_pos hpoint, ← List.take_succ_cons, scanFraction_take hlength,
      List.take_take, Nat.min_eq_left hlength]
  -- a rule that does not apply to the whole text does not apply to its beginning
  have hpoint' : ¬ (c = '.' && (cs.take k).head?.any Char.isDigit) = true := by
    simp only [Bool.and_eq_true, decide_eq_true_eq, not_and, Bool.not_eq_true] at hpoint ⊢
    exact fun hc => any_head?_take (hpoint hc)
  simp only [if_neg hpoint, if_neg hpoint'] at h ⊢
  by_cases hquote : (c = '"' || c = '\'') = true
  · simp only [if_pos hquote] at h ⊢
    have hbody : (stringBody c cs).1.length + (stringBody c cs).2.toNat ≤ k := by
      rcases hbody : stringBody c cs with ⟨body, _ | _⟩ <;> rwa [hbody] at h
    rw [stringBody_take hbody]
  · simp only [if_neg hquote]

end

/-! ## Pieces -/

section

variable {cs : List Char} {before mid after : List Piece}

/-- Behind a piece the cutting starts anew. -/
theorem pieces_of_suffix (h : pieces cs = before ++ after) :
    pieces (after.flatMap Piece.text) = after := by
  induction before generalizing cs with
  | nil => rw [← List.nil_append after, ← h, flatMap_text_pieces, h]
  | cons q before ih =>
    cases cs with
    | nil => simp [pieces] at h
    | cons c cs =>
      rw [pieces_cons] at h
      exact ih (List.cons.inj h).2

/-- Before a cut behind a piece, the text is cut into the same pieces. -/
theorem pieces_of_prefix (h : pieces cs = mid ++ after) :
    pieces (mid.flatMap Piece.text) = mid := by
  induction mid generalizing cs with
  | nil => simp [pieces]
  | cons q mid ih =>
    cases cs with
    | nil => simp [pieces] at h
    | cons c cs =>
      rw [pieces_cons, List.cons_append] at h
      obtain ⟨rfl, hrest⟩ := List.cons.inj h
      have hbehind : (cs.drop (scan c cs).2).take (mid.flatMap Piece.text).length =
          mid.flatMap Piece.text := by
        rw [← flatMap_text_pieces (cs.drop _), hrest, List.flatMap_append, List.take_left]
      have hcut : c :: cs.take (scan c cs).2 ++ mid.flatMap Piece.text =
          c :: cs.take ((scan c cs).2 + (mid.flatMap Piece.text).length) := by
        rw [List.take_add, hbehind, List.cons_append]
      rw [List.flatMap_cons, hcut, pieces_cons, scan_take c (Nat.le_add_right _ _), List.take_take,
        Nat.min_eq_left (Nat.le_add_right _ _), List.drop_take, Nat.add_sub_cancel_left, hbehind,
        ih hrest]

/-- A text that is cut out before a piece and behind one is cut into the pieces between. -/
theorem pieces_flatMap_text (h : pieces cs = before ++ (mid ++ after)) :
    pieces (mid.flatMap Piece.text) = mid :=
  pieces_of_prefix (pieces_of_suffix h)

end

end TypeAssay
