import Mathlib.Data.List.TakeWhile
import TypeAssay.Proofs.Lexing

/-!
# The rules of the lexer

What a piece of a text is depends on its characters, and where it stops on what follows it.
`IsLexed text lexeme after` says so rule by rule, and no rule mentions a scan: white space, comments
and words go as far as they can, a number literal has a whole part, a fraction and an exponent
(`IsNumeral`), a string stands between two quotes of one kind (`IsStringBody`), and a character is
unexpected if no rule applies to it (`StartsNothing`).

* `isNumeral_of_scanNumeral`, `isNumeral_of_scanFraction` : number literals follow their grammar.
* `isLexed_of_scan` : everything that is scanned follows the rules.
-/

namespace TypeAssay

/-! ## What is skipped -/

/-- What is skipped in front of `after`: white space, a comment to the end of its line, or a comment
to its first `*/`, without which it goes to the end of the text. -/
inductive IsSkipped : List Char → List Char → Prop where
  | space {text after : List Char} (h : ∀ c ∈ text, isBlank c)
      (hafter : ∀ c ∈ after.head?, isBlank c = false) : IsSkipped text after
  | line {body after : List Char} (h : '\n' ∉ body) (hafter : ∀ c ∈ after.head?, c = '\n') :
      IsSkipped ('/' :: '/' :: body) after
  | block {body after : List Char} (h : ¬ ['*', '/'] <:+: body ++ ['*']) :
      IsSkipped ('/' :: '*' :: (body ++ ['*', '/'])) after
  | unclosed {body : List Char} (h : ¬ ['*', '/'] <:+: body) : IsSkipped ('/' :: '*' :: body) []

section

/-- The two characters end no comment if they come from two texts. -/
theorem not_infix_cons {d : Char} {cs : List Char} (h : ¬ ['*', '/'] <:+: cs)
    (hd : d = '*' → cs.head? ≠ some '/') : ¬ ['*', '/'] <:+: d :: cs := by
  rw [List.infix_cons_iff]
  rintro (⟨ds, hds⟩ | hinfix)
  · obtain ⟨hstar, hcs⟩ := List.cons.inj hds
    exact hd hstar.symm (by rw [← hcs]; rfl)
  · exact h hinfix

/-- A comment goes to its first `*/`, or to the end of the text. -/
theorem blockLength_spec (cs : List Char) :
    (∃ body after, cs = body ++ '*' :: '/' :: after ∧ blockLength cs = body.length + 2 ∧
      ¬ ['*', '/'] <:+: body ++ ['*']) ∨
    (blockLength cs = cs.length ∧ ¬ ['*', '/'] <:+: cs) := by
  fun_induction blockLength cs with
  | case1 after =>
    refine .inl ⟨[], after, rfl, rfl, fun h => ?_⟩
    exact absurd h.length_le (by decide)
  | case2 c rest hclose ih =>
    -- the end of the comment is behind the first character, and does not begin with it
    obtain ⟨body, after, rfl, hlength, hbody⟩ | ⟨hlength, hrest⟩ := ih
    · refine .inl ⟨c :: body, after, rfl, by rw [hlength, List.length_cons], ?_⟩
      refine not_infix_cons hbody fun hc hhead => ?_
      cases body with
      | nil => exact absurd hhead (by decide)
      | cons d body =>
        obtain rfl : d = '/' := by simpa using hhead
        exact hclose (body ++ '*' :: '/' :: after) hc rfl
    · refine .inr ⟨by rw [hlength, List.length_cons], not_infix_cons hrest fun hc hhead => ?_⟩
      obtain ⟨tail, rfl⟩ := List.head?_eq_some_iff.mp hhead
      exact hclose tail hc rfl
  | case3 => exact .inr ⟨rfl, fun h => absurd h.length_le (by decide)⟩

end

/-! ## Digits -/

section

variable {p : Char → Bool} {c : Char} {cs ds after : List Char}

/-- Digits with single underscores between them. -/
inductive IsSeparated (p : Char → Bool) : List Char → Prop
  | single {c : Char} (h : p c) : IsSeparated p [c]
  | digit {c : Char} {ds : List Char} (h : p c) (hds : IsSeparated p ds) : IsSeparated p (c :: ds)
  | separator {c : Char} {ds : List Char} (h : p c) (hds : IsSeparated p ds) :
      IsSeparated p (c :: '_' :: ds)

/-- Neither a digit follows nor an underscore with a digit behind it. -/
def EndsSeparated (p : Char → Bool) (after : List Char) : Prop :=
  after.head?.any p = false ∧ ∀ rest, after = '_' :: rest → rest.head?.any p = false

/-- A digit is taken, and so is an underscore in front of one. -/
theorem separatedLength_cons (p : Char → Bool) (c : Char) (cs : List Char) :
    separatedLength p (c :: cs) =
      if p c || (c = '_' && cs.head?.any p) then separatedLength p cs + 1 else 0 := by
  cases cs with
  | nil => by_cases hc : p c <;> simp [separatedLength, hc]
  | cons d cs =>
    by_cases hc : p c
    · simp [separatedLength, hc]
    · simp [separatedLength, hc]

/-- A digit is taken. -/
theorem separatedLength_pos (h : cs.head?.any p) : 0 < separatedLength p cs := by
  cases cs with
  | nil => simp at h
  | cons c cs =>
    have hc : p c := h
    rw [separatedLength_cons, if_pos (by simp [hc])]
    exact Nat.succ_pos _

/-- Behind a digit, digits are taken as far as they go. -/
theorem isSeparated_take : ∀ {cs : List Char}, cs.head?.any p →
    IsSeparated p (cs.take (separatedLength p cs)) ∧
      EndsSeparated p (cs.drop (separatedLength p cs))
  | [], h => absurd h (by simp)
  | [c], h => by
    have hc : p c := h
    simp only [separatedLength, hc, if_true]
    exact ⟨.single hc, rfl, by simp⟩
  | c :: d :: cs, h => by
    have hc : p c := h
    rw [separatedLength_cons, if_pos (by simp [hc]), List.take_succ_cons, List.drop_succ_cons]
    by_cases hd : p d
    · have hhead : (d :: cs).head?.any p := hd
      have ih := isSeparated_take hhead
      exact ⟨.digit hc ih.1, ih.2⟩
    by_cases hsep : d = '_' ∧ cs.head?.any p
    · obtain ⟨rfl, hcs⟩ := hsep
      have ih := isSeparated_take hcs
      rw [separatedLength_cons, if_pos (by simp [hcs]), List.take_succ_cons, List.drop_succ_cons]
      exact ⟨.separator hc ih.1, ih.2⟩
    · -- a separator with no digit behind it is not taken
      have hstop : ¬ (p d || (d = '_' && cs.head?.any p)) = true := by simpa [hd] using hsep
      rw [separatedLength_cons, if_neg hstop, List.take_zero, List.drop_zero]
      refine ⟨.single hc, by simpa using hd, ?_⟩
      rintro rest hrest
      obtain ⟨rfl, rfl⟩ := List.cons.inj hrest
      simpa using hsep

/-- A scan over the whole part stops in the state that its characters lead to, in front of a
character that leads nowhere. -/
theorem foldlM_take_scanWhole (state : SeparatorState) (cs : List Char) :
    (cs.take (scanWhole state cs).1).foldlM SeparatorState.next? state =
        some (scanWhole state cs).2 ∧
      ∀ c ∈ (cs.drop (scanWhole state cs).1).head?, (scanWhole state cs).2.next? c = none := by
  induction cs generalizing state with
  | nil => exact ⟨rfl, by simp⟩
  | cons c cs ih =>
    rw [scanWhole]
    cases hnext : state.next? c with
    -- the characters go on to another state, where the scan goes on
    | none =>
      refine ⟨rfl, ?_⟩
      rintro d ⟨rfl⟩
      exact hnext
    | some state' =>
      obtain ⟨hrun, hends⟩ := ih state'
      refine ⟨?_, hends⟩
      simp only [List.take_succ_cons, List.foldlM_cons, hnext]
      exact hrun

end

/-! ## Number literals -/

/-- The characters that a hexadecimal literal starts with. -/
def StartsHex (cs : List Char) : Prop :=
  ∃ x ds, cs = '0' :: x :: ds ∧ (x = 'x' ∨ x = 'X') ∧ ds.head?.any isHexDigit

/-- The whole part of a decimal literal, whose digits and underscores lead to `state`, in front of
`after`, where the next character leads nowhere. -/
structure IsWhole (whole : List Char) (state : SeparatorState) (after : List Char) : Prop where
  digit : whole.head?.any Char.isDigit
  decimal : ¬ StartsHex (whole ++ after)
  run : whole.foldlM SeparatorState.next? .digits = some state
  ends : ∀ c ∈ after.head?, state.next? c = none

/-- A point with digits behind it, or nothing where there are none. -/
inductive IsFraction : List Char → List Char → Prop
  | none {after : List Char} (h : ∀ ds, after = '.' :: ds → ds.head?.any Char.isDigit = false) :
      IsFraction [] after
  | some {ds after : List Char} (hds : IsSeparated Char.isDigit ds)
      (hafter : EndsSeparated Char.isDigit after) : IsFraction ('.' :: ds) after

/-- The signs of an exponent, of which there may be none. -/
def IsSign (sign : List Char) : Prop := sign = [] ∨ sign = ['+'] ∨ sign = ['-']

/-- The characters that an exponent starts with. -/
def StartsExponent (cs : List Char) : Prop :=
  ∃ e sign ds, cs = e :: (sign ++ ds) ∧ (e = 'e' ∨ e = 'E') ∧ IsSign sign ∧
    ds.head?.any Char.isDigit

/-- An `e`, a sign or none, and digits, or nothing where no exponent starts. -/
inductive IsExponent : List Char → List Char → Prop
  | none {after : List Char} (h : ¬ StartsExponent after) : IsExponent [] after
  | some {e : Char} {sign ds after : List Char} (he : e = 'e' ∨ e = 'E') (hsign : IsSign sign)
      (hne : ds ≠ []) (hds : ∀ d ∈ ds, d.isDigit) (hafter : after.head?.any Char.isDigit = false) :
      IsExponent (e :: (sign ++ ds)) after

/-- A number literal in front of `after`, and what it is: a hexadecimal literal, a decimal literal
that ends with its separators, a bigint, a decimal literal, or one that starts with a point. -/
inductive IsNumeral : List Char → Numeral → List Char → Prop
  | hexadecimal {x : Char} {ds after : List Char} (hx : x = 'x' ∨ x = 'X')
      (hds : IsSeparated isHexDigit ds) (hafter : EndsSeparated isHexDigit after) :
      IsNumeral ('0' :: x :: ds) (hexValue ds) after
  | closing {whole after : List Char} (hwhole : IsWhole whole .closing after) :
      IsNumeral whole (decimalValue whole) after
  | bigint {whole after : List Char} {state : SeparatorState} (hstate : state ≠ .closing)
      (hwhole : IsWhole whole state ('n' :: after)) :
      IsNumeral (whole ++ ['n']) (.bigint (String.ofList (withoutSeparators whole))) after
  | decimal {whole fraction exponent after : List Char} {state : SeparatorState}
      (hstate : state ≠ .closing) (hwhole : IsWhole whole state (fraction ++ (exponent ++ after)))
      (hn : (fraction ++ (exponent ++ after)).head? ≠ some 'n')
      (hfraction : IsFraction fraction (exponent ++ after))
      (hexponent : IsExponent exponent after) :
      IsNumeral (whole ++ (fraction ++ exponent)) (decimalValue (whole ++ (fraction ++ exponent)))
        after
  | point {fraction exponent after : List Char} (hne : fraction ≠ [])
      (hfraction : IsFraction fraction (exponent ++ after))
      (hexponent : IsExponent exponent after) :
      IsNumeral (fraction ++ exponent) (decimalValue (fraction ++ exponent)) after

section

variable {cs text after : List Char} {e : Char} {n : Numeral}

/-- What starts a hexadecimal literal, and how many digits follow. -/
theorem hexLength?_eq_some {n : Nat} (h : hexLength? cs = some n) :
    ∃ x ds, cs = '0' :: x :: ds ∧ (x = 'x' ∨ x = 'X') ∧ ds.head?.any isHexDigit ∧
      n = separatedLength isHexDigit ds := by
  rw [hexLength?.eq_def] at h
  split at h
  · rename_i x ds
    split at h
    · rename_i hx
      rw [Bool.and_eq_true, Bool.or_eq_true, decide_eq_true_eq, decide_eq_true_eq] at hx
      exact ⟨x, ds, rfl, hx.1, hx.2, (Option.some.inj h).symm⟩
    · exact absurd h (by simp)
  · exact absurd h (by simp)

/-- Where no hexadecimal literal is found, none starts. -/
theorem not_startsHex_of_hexLength? (h : hexLength? cs = none) : ¬ StartsHex cs := by
  rintro ⟨x, ds, rfl, hx, hds⟩
  rw [hexLength?, if_pos (by simp [hx, hds])] at h
  exact absurd h (by simp)

/-- A point is taken with the digits behind it. -/
theorem fractionLength_point (cs : List Char) : fractionLength ('.' :: cs) =
    if cs.head?.any Char.isDigit then separatedLength Char.isDigit cs + 1 else 0 := rfl

/-- The fraction that is scanned. -/
theorem isFraction_take (cs : List Char) :
    IsFraction (cs.take (fractionLength cs)) (cs.drop (fractionLength cs)) := by
  by_cases h : ∃ ds, cs = '.' :: ds ∧ ds.head?.any Char.isDigit
  · obtain ⟨ds, rfl, hds⟩ := h
    obtain ⟨hseparated, hends⟩ := isSeparated_take hds
    rw [fractionLength_point, if_pos hds, List.take_succ_cons, List.drop_succ_cons]
    exact .some hseparated hends
  · have hnone : ∀ ds, cs = '.' :: ds → ds.head?.any Char.isDigit = false := fun ds hds =>
      Bool.eq_false_iff.mpr fun hdigit => h ⟨ds, hds, hdigit⟩
    have hzero : fractionLength cs = 0 := by
      rw [fractionLength.eq_def]
      split
      · exact if_neg (Bool.eq_false_iff.mp (hnone _ rfl))
      · rfl
    rw [hzero]
    exact .none hnone

/-- The length of an exponent with a sign of that length, where its digits are ahead. -/
def exponentOver (signLength : Nat) (ds : List Char) : Nat :=
  if (ds.takeWhile Char.isDigit).length = 0 then 0
  else 1 + signLength + (ds.takeWhile Char.isDigit).length

/-- An exponent is taken with its sign, if digits follow. -/
theorem exponentLength_cons (c : Char) (cs : List Char) : exponentLength (c :: cs) =
    if c = 'e' ∨ c = 'E' then
      if cs.head? = some '+' ∨ cs.head? = some '-' then exponentOver 1 cs.tail
      else exponentOver 0 cs
    else 0 := by
  by_cases hc : c = 'e' ∨ c = 'E'
  · rw [if_pos hc, exponentLength.eq_def]
    simp only [Bool.or_eq_true, decide_eq_true_eq, if_pos hc]
    -- a sign is there or not; then the digits behind it decide
    rcases cs with _ | ⟨d, ds⟩
    · rfl
    by_cases hsign : d = '+' ∨ d = '-'
    · rw [if_pos (by simpa using hsign), List.tail_cons, exponentOver]
      cases hdigits : (ds.takeWhile Char.isDigit).length with
      | zero => rcases hsign with rfl | rfl <;> simp only [hdigits, if_true]
      | succ n => rcases hsign with rfl | rfl <;> simp only [hdigits, Nat.succ_ne_zero, if_false]
    · rw [if_neg (by simpa using hsign), exponentOver]
      rw [not_or] at hsign
      cases hdigits : ((d :: ds).takeWhile Char.isDigit).length with
      | zero =>
        simp only [List.cons.injEq, hsign.1, hsign.2, false_and, imp_self, implies_true, hdigits,
          if_true]
      | succ n =>
        simp only [List.cons.injEq, hsign.1, hsign.2, false_and, imp_self, implies_true, hdigits,
          Nat.succ_ne_zero, if_false]
  · rw [if_neg hc, exponentLength.eq_def]
    simp [hc]

/-- An exponent is taken behind its sign, if digits stand there. -/
theorem isExponent_take_of_sign {sign : List Char} (ds : List Char) (he : e = 'e' ∨ e = 'E')
    (hsign : IsSign sign)
    (hnone : ds.head?.any Char.isDigit = false → ¬ StartsExponent (e :: (sign ++ ds))) :
    IsExponent ((e :: (sign ++ ds)).take (exponentOver sign.length ds))
      ((e :: (sign ++ ds)).drop (exponentOver sign.length ds)) := by
  rw [exponentOver]
  split
  · rename_i hzero
    refine .none (hnone ?_)
    cases ds with
    | nil => rfl
    -- a digit would have been taken
    | cons d ds =>
      by_contra hd
      rw [List.takeWhile_cons_of_pos (by simpa using hd)] at hzero
      exact absurd hzero (by simp)
  · rename_i hpos
    have hlength : 1 + sign.length + (ds.takeWhile Char.isDigit).length =
        (sign.length + (ds.takeWhile Char.isDigit).length) + 1 := by omega
    rw [hlength, List.take_succ_cons, List.drop_succ_cons, List.take_length_add_append,
      List.drop_length_add_append, take_length_takeWhile, drop_length_takeWhile]
    exact .some he hsign (List.ne_nil_of_length_pos (Nat.pos_of_ne_zero hpos))
      (fun d hd => List.mem_takeWhile_imp hd) (any_head?_dropWhile _ _)

/-- The exponent that is scanned. -/
theorem isExponent_take (cs : List Char) :
    IsExponent (cs.take (exponentLength cs)) (cs.drop (exponentLength cs)) := by
  rcases cs with _ | ⟨e, cs⟩
  · exact .none fun ⟨_, _, _, h, _⟩ => absurd h (by simp)
  rw [exponentLength_cons]
  by_cases he : e = 'e' ∨ e = 'E'
  · rw [if_pos he]
    have hdigit : ∀ c : Char, c = '+' ∨ c = '-' → c.isDigit = false := by
      rintro c (rfl | rfl) <;> rfl
    by_cases hsign : cs.head? = some '+' ∨ cs.head? = some '-'
    · -- a sign that is there is no digit, so it is that of every exponent that starts here
      rw [if_pos hsign]
      obtain ⟨s, ds, rfl, hs⟩ : ∃ s ds, cs = s :: ds ∧ (s = '+' ∨ s = '-') := by
        cases cs with
        | nil => simp at hsign
        | cons s ds => exact ⟨s, ds, rfl, by simpa using hsign⟩
      have hsign : IsSign [s] := .inr (by simpa using hs)
      refine isExponent_take_of_sign ds he hsign fun hds => ?_
      rintro ⟨e', sign', ds', hcs, -, hsign', hds'⟩
      obtain ⟨-, hcs⟩ := List.cons.inj hcs
      -- without a sign it starts with a digit, which is not there
      rcases hsign' with rfl | hsign'
      · rw [List.nil_append] at hcs
        rw [← hcs] at hds'
        exact absurd hds' (by simp [hdigit s hs])
      · obtain ⟨s', rfl⟩ : ∃ s', sign' = [s'] := by
          rcases hsign' with rfl | rfl <;> exact ⟨_, rfl⟩
        obtain ⟨-, rfl⟩ := List.cons.inj hcs
        exact absurd hds' (by simp [hds])
    · rw [if_neg hsign]
      have hnoSign : IsSign [] := .inl rfl
      refine isExponent_take_of_sign cs he hnoSign fun hds => ?_
      rintro ⟨e', sign', ds', hcs, -, hsign', hds'⟩
      obtain ⟨-, hcs⟩ := List.cons.inj hcs
      rw [List.nil_append] at hcs
      rcases hsign' with rfl | rfl | rfl
      · rw [List.nil_append] at hcs
        exact absurd (hcs ▸ hds') (by simp [hds])
      · exact hsign (.inl (hcs ▸ rfl))
      · exact hsign (.inr (hcs ▸ rfl))
  · rw [if_neg he]
    exact .none fun ⟨_, _, _, h, he', _⟩ => he ((List.cons.inj h).1 ▸ he')

/-- The whole part that is scanned. -/
theorem isWhole_take (hdigit : cs.head?.any Char.isDigit) (hhex : hexLength? cs = none) :
    IsWhole (cs.take (scanWhole .digits cs).1) (scanWhole .digits cs).2
      (cs.drop (scanWhole .digits cs).1) := by
  obtain ⟨hrun, hends⟩ := foldlM_take_scanWhole .digits cs
  refine ⟨?_, ?_, hrun, hends⟩
  · -- the first character is a digit, so the scan takes it
    cases cs with
    | nil => exact absurd hdigit (by simp)
    | cons c cs =>
      have hc : c.isDigit := hdigit
      have hnext : SeparatorState.digits.next? c = some .digits := by
        simp [SeparatorState.next?, hc]
      simp [scanWhole, hnext, hc]
  · rw [List.take_append_drop]
    exact not_startsHex_of_hexLength? hhex

/-- A literal that starts with a digit. -/
theorem isNumeral_of_scanNumeral (h : cs.head?.any Char.isDigit) :
    IsNumeral (cs.take (scanNumeral cs).2) (scanNumeral cs).1 (cs.drop (scanNumeral cs).2) := by
  rw [scanNumeral]
  cases hhex : hexLength? cs with
  | some n =>
    obtain ⟨x, ds, rfl, hx, hds, rfl⟩ := hexLength?_eq_some hhex
    obtain ⟨hseparated, hends⟩ := isSeparated_take hds
    exact .hexadecimal hx hseparated hends
  | none =>
    have hwhole := isWhole_take h hhex
    generalize scanWhole .digits cs = scanned at hwhole ⊢
    obtain ⟨n, state⟩ := scanned
    dsimp only at hwhole ⊢
    split
    · rename_i hstate
      subst hstate
      exact .closing hwhole
    rename_i hstate
    split
    · -- an `n` behind the whole part makes a bigint of it
      rename_i hn
      obtain ⟨after, hafter⟩ := List.head?_eq_some_iff.mp hn
      rw [hafter] at hwhole
      have htake : cs.take (n + 1) = cs.take n ++ ['n'] := by
        rw [List.take_add, hafter]
        rfl
      have hdrop : cs.drop (n + 1) = after := by
        rw [← List.drop_drop, hafter]
        rfl
      dsimp only
      rw [htake, hdrop]
      exact .bigint hstate hwhole
    · rename_i hn
      -- what is behind the whole part is a fraction, an exponent and the rest
      have hfraction := isFraction_take (cs.drop n)
      have hexponent := isExponent_take ((cs.drop n).drop (fractionLength (cs.drop n)))
      have hsplit : cs.drop n = (cs.drop n).take (fractionLength (cs.drop n)) ++
          (((cs.drop n).drop (fractionLength (cs.drop n))).take
            (exponentLength ((cs.drop n).drop (fractionLength (cs.drop n)))) ++
          ((cs.drop n).drop (fractionLength (cs.drop n))).drop
            (exponentLength ((cs.drop n).drop (fractionLength (cs.drop n))))) := by
        rw [List.take_append_drop, List.take_append_drop]
      dsimp only
      rw [Nat.add_assoc, List.take_add, List.take_add, ← List.drop_drop, ← List.drop_drop]
      refine .decimal hstate (hsplit ▸ hwhole) (hsplit ▸ hn) ?_ hexponent
      rwa [List.take_append_drop]

/-- A number literal has a character at least. -/
theorem IsNumeral.ne_nil (h : IsNumeral text n after) : text ≠ [] := by
  have hwhole : ∀ {whole after state}, IsWhole whole state after → whole ≠ [] := by
    rintro _ _ _ hwhole rfl
    exact absurd hwhole.digit (by simp)
  cases h with
  | hexadecimal => exact List.cons_ne_nil _ _
  | closing h => exact hwhole h
  | bigint => exact List.append_ne_nil_of_right_ne_nil _ (List.cons_ne_nil _ _)
  | decimal _ h => exact List.append_ne_nil_of_left_ne_nil (hwhole h) _
  | point hne => exact List.append_ne_nil_of_left_ne_nil hne _

/-- A literal that starts with a point. -/
theorem isNumeral_of_scanFraction (h : cs.head?.any Char.isDigit) :
    IsNumeral (('.' :: cs).take (scanFraction ('.' :: cs)).2) (scanFraction ('.' :: cs)).1
      (('.' :: cs).drop (scanFraction ('.' :: cs)).2) := by
  have hfraction := isFraction_take ('.' :: cs)
  have hexponent := isExponent_take (('.' :: cs).drop (fractionLength ('.' :: cs)))
  have hne : ('.' :: cs).take (fractionLength ('.' :: cs)) ≠ [] := by
    rw [fractionLength_point, if_pos h]
    simp
  rw [scanFraction]
  dsimp only
  rw [List.take_add, ← List.drop_drop]
  refine .point hne ?_ hexponent
  rwa [List.take_append_drop]

end

/-! ## Strings -/

/-- What may stand between quotes: no newline, and a quote only with a backslash in front of it,
which takes any other character with it, too. -/
inductive IsStringBody (quote : Char) : List Char → Prop
  | nil : IsStringBody quote []
  | char {c : Char} {cs : List Char} (hquote : c ≠ quote) (hslash : c ≠ '\\') (hline : c ≠ '\n')
      (h : IsStringBody quote cs) : IsStringBody quote (c :: cs)
  | pair {c : Char} {cs : List Char} (hline : c ≠ '\n') (h : IsStringBody quote cs) :
      IsStringBody quote ('\\' :: c :: cs)

/-- No string goes on here: at a newline, at the end of the text, and at a backslash in front of
either. -/
def EndsUnclosed (after : List Char) : Prop :=
  after = [] ∨ after.head? = some '\n' ∨ after = ['\\'] ∨ ∃ rest, after = '\\' :: '\n' :: rest

section

variable {quote : Char} {cs : List Char}

/-- What is read of a string is a body, and behind it stands the closing quote, or the string goes
no further. -/
theorem isStringBody_or_unclosed (quote : Char) (cs : List Char) :
    IsStringBody quote (stringBody quote cs).1 ∧
      (((stringBody quote cs).2 = true ∧ ∃ rest, cs = (stringBody quote cs).1 ++ quote :: rest) ∨
        ((stringBody quote cs).2 = false ∧
          ∃ after, cs = (stringBody quote cs).1 ++ after ∧ EndsUnclosed after)) := by
  fun_induction stringBody quote cs with
  | case1 => exact ⟨.nil, .inr ⟨rfl, [], rfl, .inl rfl⟩⟩
  | case2 => exact ⟨.nil, .inl ⟨rfl, [], rfl⟩⟩
  | case3 c hquote hstop =>
    rw [Bool.or_eq_true, decide_eq_true_eq, decide_eq_true_eq] at hstop
    refine ⟨.nil, .inr ⟨rfl, [c], rfl, ?_⟩⟩
    rcases hstop with rfl | rfl
    · exact .inr (.inl rfl)
    · exact .inr (.inr (.inl rfl))
  | case4 c hquote hstop =>
    rw [Bool.or_eq_true, decide_eq_true_eq, decide_eq_true_eq, not_or] at hstop
    exact ⟨.char hquote hstop.2 hstop.1 .nil, .inr ⟨rfl, [], rfl, .inl rfl⟩⟩
  | case5 d ds => exact ⟨.nil, .inl ⟨rfl, d :: ds, rfl⟩⟩
  | case6 d ds hquote => exact ⟨.nil, .inr ⟨rfl, _, rfl, .inr (.inl rfl)⟩⟩
  | case7 ds hquote hline => exact ⟨.nil, .inr ⟨rfl, _, rfl, .inr (.inr (.inr ⟨ds, rfl⟩))⟩⟩
  | case8 d ds hd body closed hbody hquote hline ih =>
    rw [hbody] at ih
    refine ⟨.pair hd ih.1, ?_⟩
    rcases ih.2 with ⟨hclosed, rest, hrest⟩ | ⟨hclosed, after, hafter, hends⟩
    · exact .inl ⟨hclosed, rest, congrArg ('\\' :: d :: ·) hrest⟩
    · exact .inr ⟨hclosed, after, congrArg ('\\' :: d :: ·) hafter, hends⟩
  | case9 c d ds hquote hline hslash body closed hbody ih =>
    rw [hbody] at ih
    refine ⟨.char hquote hslash hline ih.1, ?_⟩
    rcases ih.2 with ⟨hclosed, rest, hrest⟩ | ⟨hclosed, after, hafter, hends⟩
    · exact .inl ⟨hclosed, rest, congrArg (c :: ·) hrest⟩
    · exact .inr ⟨hclosed, after, congrArg (c :: ·) hafter, hends⟩

/-- Behind a string that ends stands its quote. -/
theorem isStringBody_of_stringBody (h : (stringBody quote cs).2 = true) :
    IsStringBody quote (stringBody quote cs).1 ∧
      ∃ rest, cs = (stringBody quote cs).1 ++ quote :: rest := by
  obtain ⟨hbody, ⟨-, hrest⟩ | ⟨hunclosed, -⟩⟩ := isStringBody_or_unclosed quote cs
  · exact ⟨hbody, hrest⟩
  · exact absurd (h.symm.trans hunclosed) (by decide)

end

/-! ## The rules -/

/-- No token and nothing that is skipped starts with the character in front of `after`. -/
structure StartsNothing (c : Char) (after : List Char) : Prop where
  blank : isBlank c = false
  comment : c = '/' → after.head? ≠ some '/' ∧ after.head? ≠ some '*'
  word : isIdentifierStart c = false
  digit : c.isDigit = false
  point : c = '.' → after.head?.any Char.isDigit = false
  quote : c ≠ '"' ∧ c ≠ '\''
  mark : ∀ p : Punctuation, p.char ≠ c

/-- What a piece of a text is, in front of `after`. -/
inductive IsLexed : List Char → Lexeme → List Char → Prop
  | skipped {text after : List Char} (h : IsSkipped text after) : IsLexed text .blank after
  | word {c : Char} {cs after : List Char} (hc : isIdentifierStart c)
      (hcs : ∀ d ∈ cs, isIdentifierPart d) (hafter : after.head?.any isIdentifierPart = false) :
      IsLexed (c :: cs) (.token (wordToken (String.ofList (c :: cs)))) after
  | numeral {text after : List Char} {n : Numeral} (h : IsNumeral text n after) :
      IsLexed text (numeralLexeme text n) after
  | string {quote : Char} {body after : List Char} (hquote : quote = '"' ∨ quote = '\'')
      (hbody : IsStringBody quote body) :
      IsLexed (quote :: (body ++ [quote])) (.token (.string (String.ofList (unescape body)))) after
  | unclosed {quote : Char} {body after : List Char} (hquote : quote = '"' ∨ quote = '\'')
      (hbody : IsStringBody quote body) (hafter : EndsUnclosed after) :
      IsLexed (quote :: body) (.fault .unterminatedString) after
  | mark (p : Punctuation) (after : List Char) : IsLexed [p.char] (.token (.punctuation p)) after
  | unexpected {c : Char} {after : List Char} (h : StartsNothing c after) :
      IsLexed [c] (.fault (.unexpectedCharacter c)) after

section

variable {c : Char} {rest text after : List Char}

/-- Only what is skipped is blank. -/
theorem IsLexed.isSkipped (h : IsLexed text .blank after) : IsSkipped text after := by
  generalize hblank : Lexeme.blank = lexeme at h
  cases h with
  | skipped h => exact h
  | @numeral _ _ n _ => cases n <;> exact absurd hblank (by simp [numeralLexeme])
  | _ => exact absurd hblank (by simp)

/-- White space is skipped as far as it goes. -/
theorem isSkipped_space (hc : isBlank c) : IsSkipped (c :: rest.takeWhile isBlank)
    (rest.dropWhile isBlank) := by
  refine .space (List.forall_mem_cons.mpr ⟨hc, fun d hd => List.mem_takeWhile_imp hd⟩) ?_
  intro d hd
  have hnot := List.head?_dropWhile_not isBlank rest
  rwa [hd] at hnot

/-- A line comment goes to the end of its line. -/
theorem isSkipped_line (h : rest.head? = some '/') :
    IsSkipped ('/' :: rest.takeWhile (· ≠ '\n')) (rest.dropWhile (· ≠ '\n')) := by
  obtain ⟨tail, rfl⟩ := List.head?_eq_some_iff.mp h
  rw [List.takeWhile_cons_of_pos (by decide), List.dropWhile_cons_of_pos (by decide)]
  refine .line (fun hline => ?_) fun d hd => ?_
  · exact absurd (List.mem_takeWhile_imp hline) (by decide)
  · have hnot := List.head?_dropWhile_not (· ≠ '\n') tail
    rw [hd] at hnot
    simpa using hnot

/-- A block comment goes to its end, or to that of the text. -/
theorem isSkipped_block (h : rest.head? = some '*') :
    IsSkipped ('/' :: rest.take (blockLength rest.tail + 1))
      (rest.drop (blockLength rest.tail + 1)) := by
  obtain ⟨tail, rfl⟩ := List.head?_eq_some_iff.mp h
  rw [List.tail_cons, List.take_succ_cons, List.drop_succ_cons]
  obtain ⟨body, after, rfl, hlength, hbody⟩ | ⟨hlength, hbody⟩ := blockLength_spec tail
  · have hsplit : body ++ '*' :: '/' :: after = (body ++ ['*', '/']) ++ after := by simp
    have hlength' : blockLength (body ++ '*' :: '/' :: after) = (body ++ ['*', '/']).length := by
      rw [hlength, List.length_append]
      rfl
    rw [hlength', hsplit, List.take_left, List.drop_left]
    exact .block hbody
  · rw [hlength, List.take_length, List.drop_length]
    exact .unclosed hbody

/-- A quote starts a string, or one without an end. -/
theorem isLexed_string (rest : List Char) (hquote : c = '"' ∨ c = '\'') :
    IsLexed (c :: rest.take ((stringBody c rest).1.length + (stringBody c rest).2.toNat))
      (if (stringBody c rest).2 then
        .token (.string (String.ofList (unescape (stringBody c rest).1)))
      else .fault .unterminatedString)
      (rest.drop ((stringBody c rest).1.length + (stringBody c rest).2.toNat)) := by
  obtain ⟨hbody, ⟨hclosed, after, hafter⟩ | ⟨hclosed, after, hafter, hends⟩⟩ :=
    isStringBody_or_unclosed c rest
  · -- the string ends: the closing quote belongs to it
    generalize (stringBody c rest).1 = body at hbody hafter ⊢
    have hsplit : rest = (body ++ [c]) ++ after := by rw [hafter]; simp
    have hlength : body.length + true.toNat = (body ++ [c]).length := by simp
    rw [hclosed, hlength, hsplit, List.take_left, List.drop_left]
    exact .string hquote hbody
  · generalize (stringBody c rest).1 = body at hbody hafter ⊢
    rw [hclosed, Bool.toNat_false, Nat.add_zero, hafter, List.take_left, List.drop_left]
    exact .unclosed hquote hbody hends

/-- A number literal that takes its first character and what its length says of the others. -/
theorem isLexed_numeral {k : Nat} {n : Numeral}
    (h : IsNumeral ((c :: rest).take k) n ((c :: rest).drop k)) :
    -- the first character is taken in any case
    IsLexed (c :: rest.take (k - 1)) (numeralLexeme ((c :: rest).take k) n)
      (rest.drop (k - 1)) := by
  cases k with
  | zero => exact absurd rfl h.ne_nil
  | succ k => exact .numeral h

/-- Where no rule applies and no mark stands, nothing starts. -/
theorem startsNothing_of_ofChar? (hblank : ¬ isBlank c)
    (hline : ¬ (c = '/' && rest.head? = some '/') = true)
    (hblock : ¬ (c = '/' && rest.head? = some '*') = true) (hword : ¬ isIdentifierStart c)
    (hdigit : ¬ c.isDigit) (hpoint : ¬ (c = '.' && rest.head?.any Char.isDigit) = true)
    (hquote : ¬ (c = '"' || c = '\'') = true) (hmark : Punctuation.ofChar? c = none) :
    StartsNothing c rest where
  blank := by simpa using hblank
  comment := fun hc => ⟨by simpa [hc] using hline, by simpa [hc] using hblock⟩
  word := by simpa using hword
  digit := by simpa using hdigit
  point := fun hc => by simpa [hc] using hpoint
  quote := by simpa using hquote
  mark := by
    rintro p rfl
    exact absurd hmark (by simp [Punctuation.ofChar?_char])

/-- What is scanned follows the rules. -/
theorem isLexed_of_scan (c : Char) (rest : List Char) :
    -- rule by rule, in the order in which the scan tries them
    IsLexed (c :: rest.take (scan c rest).2) (scan c rest).1 (rest.drop (scan c rest).2) := by
  rw [scan]
  by_cases hblank : isBlank c
  · simp only [if_pos hblank, take_length_takeWhile, drop_length_takeWhile]
    exact .skipped (isSkipped_space hblank)
  by_cases hline : (c = '/' && rest.head? = some '/') = true
  · simp only [if_neg hblank, if_pos hline, take_length_takeWhile, drop_length_takeWhile]
    rw [Bool.and_eq_true, decide_eq_true_eq, decide_eq_true_eq] at hline
    exact hline.1 ▸ .skipped (isSkipped_line hline.2)
  by_cases hblock : (c = '/' && rest.head? = some '*') = true
  · simp only [if_neg hblank, if_neg hline, if_pos hblock]
    rw [Bool.and_eq_true, decide_eq_true_eq, decide_eq_true_eq] at hblock
    exact hblock.1 ▸ .skipped (isSkipped_block hblock.2)
  simp only [if_neg hblank, if_neg hline, if_neg hblock]
  by_cases hword : isIdentifierStart c
  · simp only [if_pos hword, take_length_takeWhile, drop_length_takeWhile]
    exact .word hword (fun d hd => List.mem_takeWhile_imp hd) (any_head?_dropWhile _ _)
  simp only [if_neg hword]
  by_cases hdigit : c.isDigit
  · have hhead : (c :: rest).head?.any Char.isDigit := hdigit
    simp only [if_pos hdigit]
    exact isLexed_numeral (isNumeral_of_scanNumeral hhead)
  by_cases hpoint : (c = '.' && rest.head?.any Char.isDigit) = true
  · simp only [if_neg hdigit, if_pos hpoint]
    rw [Bool.and_eq_true, decide_eq_true_eq] at hpoint
    obtain ⟨rfl, hahead⟩ := hpoint
    exact isLexed_numeral (isNumeral_of_scanFraction hahead)
  simp only [if_neg hdigit, if_neg hpoint]
  by_cases hquote : (c = '"' || c = '\'') = true
  · simp only [if_pos hquote]
    have hstring := isLexed_string rest (by simpa using hquote)
    rcases hbody : stringBody c rest with ⟨body, _ | _⟩ <;> rw [hbody] at hstring <;> exact hstring
  · simp only [if_neg hquote]
    cases hmark : Punctuation.ofChar? c with
    | some p => exact char_of_ofChar? hmark ▸ .mark p rest
    | none =>
      exact .unexpected
        (startsNothing_of_ofChar? hblank hline hblock hword hdigit hpoint hquote hmark)

end

end TypeAssay
