import TypeAssay.Proofs.Escapes
import TypeAssay.Proofs.Excerpts

/-!
# Displayed strings

A string literal is displayed between single quotes, with a backslash in front of each quote in it.
Nothing else is escaped, though the text between quotes cannot hold a newline and a backslash in it
means something else. So the text is one token, the string itself, exactly if the string means
itself there (`tokenize_string_iff`): it has no newline, and a backslash only where it opens a
Unicode escape that names no character. The string of one backslash is displayed as a string that
does not end (`tokenize_backslash`).

A string that does not mean itself is told by its length. What stands between the quotes never means
more characters than the string has, and each backslash that is lost makes it mean less
(`meansAtMost`).
-/

namespace TypeAssay

/-! ## Unicode escapes -/

/-- What an escape names is one character; what names none is kept as it is written. -/
theorem unicodeMeaning_cases (hex : List Char) :
    unicodeMeaning hex = '\\' :: 'u' :: hex ∨ ∃ c, unicodeMeaning hex = [c] := by
  rw [unicodeMeaning.eq_def]
  split
  · exact Or.inr ⟨_, rfl⟩
  · exact Or.inl rfl

/-- An escape is kept as it is written, or means less than is written. -/
theorem unescape_unicode_cases (cs : List Char) :
    (cs.head? ≠ some '{' ∧
      unicodeMeaning (unicodeDigits cs).1 = '\\' :: 'u' :: (unicodeDigits cs).1 ∧
      unescape ('\\' :: 'u' :: cs) = '\\' :: 'u' :: unescape cs) ∨
    (unescape ('\\' :: 'u' :: cs)).length < (unescape cs).length + 2 := by
  obtain ⟨braces, hex, rest, rfl, hhex, hfits⟩ := exists_around cs
  have hwritten : unescape (braces.around hex ++ rest) = braces.around hex ++ unescape rest :=
    unescape_append (backslash_not_mem_around hhex) rest
  rw [unicodeDigits_around hhex hfits, unescape_around hhex hfits, hwritten]
  rcases unicodeMeaning_cases hex with hnone | ⟨c, hc⟩
  · rw [hnone]
    cases braces with
    | none => exact Or.inl ⟨hfits.head?_ne hhex, rfl, rfl⟩
    | opened | closed =>
      right
      simp only [Braces.around, List.length_append, List.length_cons]
      omega
  · right
    rw [hc, List.length_append, List.length_append, List.length_singleton]
    omega

/-! ## What a displayed string means -/

/-- What is read behind the opening quote of a displayed string, up to the closing one, and whether
that is there. -/
def displayedBody (cs : List Char) : List Char × Bool :=
  stringBody '\'' (Literal.escapeQuotes cs ++ ['\''])

section

variable {c d : Char}

/-- A quote is displayed behind a backslash, and does not end the string. -/
theorem displayedBody_quote (cs : List Char) :
    displayedBody ('\'' :: cs) = ('\\' :: '\'' :: (displayedBody cs).1, (displayedBody cs).2) :=
  stringBody_pair (by decide) (by decide) _

/-- Most characters are displayed as they are. -/
theorem displayedBody_char (hquote : c ≠ '\'') (hslash : c ≠ '\\') (hline : c ≠ '\n')
    (cs : List Char) :
    displayedBody (c :: cs) = (c :: (displayedBody cs).1, (displayedBody cs).2) := by
  rw [displayedBody, escapeQuotes_cons, if_neg hquote]
  exact stringBody_cons hquote hline hslash _

/-- A backslash takes the one in front of a quote with it, so that the quote ends the string. -/
theorem displayedBody_backslash_quote (cs : List Char) :
    displayedBody ('\\' :: '\'' :: cs) = (['\\', '\\'], true) := by
  have hpair : stringBody '\'' ('\\' :: '\\' :: '\'' :: (Literal.escapeQuotes cs ++ ['\''])) = _ :=
    stringBody_pair (by decide) (by decide) _
  rwa [stringBody_quote] at hpair

/-- A backslash takes any other character with it, unless that is a newline. -/
theorem displayedBody_backslash (hquote : d ≠ '\'') (hline : d ≠ '\n') (cs : List Char) :
    displayedBody ('\\' :: d :: cs) =
      ('\\' :: d :: (displayedBody cs).1, (displayedBody cs).2) := by
  rw [displayedBody, escapeQuotes_cons, if_neg (by decide), escapeQuotes_cons, if_neg hquote]
  exact stringBody_pair (by decide) hline _

/-- No string goes on behind a newline, with or without a backslash in front of it. -/
theorem displayedBody_newline (cs : List Char) :
    (displayedBody ('\n' :: cs)).2 = false ∧ (displayedBody ('\\' :: '\n' :: cs)).2 = false := by
  have hline : displayedBody ('\n' :: cs) = ([], false) := stringBody_newline (by decide) _
  have hslash : displayedBody ('\\' :: '\n' :: cs) = ([], false) := by
    simp [displayedBody, escapeQuotes_cons, stringBody]
  exact ⟨congrArg Prod.snd hline, congrArg Prod.snd hslash⟩

/-- A string that means itself is read up to its closing quote. -/
theorem MeansItself.displayedBody_eq {cs : List Char} (h : MeansItself cs) :
    displayedBody cs = (Literal.escapeQuotes cs, true) :=
  h.stringBody_eq []

/-- A displayed string that ends means nothing longer than the string, and the string only if that
means itself. -/
def MeansAtMost (cs : List Char) : Prop :=
  (displayedBody cs).2 = true →
    (unescape (displayedBody cs).1).length ≤ cs.length ∧
      (unescape (displayedBody cs).1 = cs → MeansItself cs)

/-- What means less than a string has characters does not mean the string. -/
theorem meansAtMost_of_length_lt {cs : List Char}
    (h : (displayedBody cs).2 = true → (unescape (displayedBody cs).1).length < cs.length) :
    MeansAtMost cs :=
  fun hclosed => ⟨Nat.le_of_lt (h hclosed), fun heq =>
    absurd (congrArg List.length heq) (Nat.ne_of_lt (h hclosed))⟩

/-- A character in front means itself. -/
theorem meansAtMost_char {cs : List Char} (hslash : c ≠ '\\') (ih : MeansAtMost cs) :
    MeansAtMost (c :: cs) := by
  intro hclosed
  by_cases hline : c = '\n'
  · subst hline
    exact absurd ((displayedBody_newline cs).1.symm.trans hclosed) Bool.false_ne_true
  have hbody : (displayedBody (c :: cs)).2 = (displayedBody cs).2 ∧
      unescape (displayedBody (c :: cs)).1 = c :: unescape (displayedBody cs).1 := by
    by_cases hquote : c = '\''
    · subst hquote
      rw [displayedBody_quote]
      simp [unescape, escapedChar]
    · rw [displayedBody_char hquote hslash hline]
      exact ⟨rfl, unescape_cons hslash _⟩
  rw [hbody.1] at hclosed
  obtain ⟨hle, hself⟩ := ih hclosed
  rw [hbody.2]
  exact ⟨Nat.succ_le_succ hle, fun h => .char hslash hline (hself (List.cons.inj h).2)⟩

/-- A backslash in front of a character is kept if the two open an escape that is kept; else it is
lost. -/
theorem meansAtMost_backslash {cs : List Char} (ih : MeansAtMost cs) :
    MeansAtMost ('\\' :: d :: cs) := by
  by_cases hquote : d = '\''
  · subst hquote
    refine meansAtMost_of_length_lt fun _ => ?_
    have hmeaning : unescape ['\\', '\\'] = ['\\'] := by simp [unescape, escapedChar]
    rw [displayedBody_backslash_quote, hmeaning]
    simp
  by_cases hline : d = '\n'
  · subst hline
    intro hclosed
    exact absurd ((displayedBody_newline cs).2.symm.trans hclosed) Bool.false_ne_true
  have hbody := displayedBody_backslash hquote hline cs
  by_cases hunicode : d = 'u'
  · subst hunicode
    rcases unescape_unicode_cases (displayedBody cs).1 with ⟨hbrace, hnone, hkept⟩ | hlt
    · rw [MeansAtMost, hbody, hkept]
      intro hclosed
      obtain ⟨hle, hself⟩ := ih hclosed
      refine ⟨Nat.succ_le_succ (Nat.succ_le_succ hle), fun h => ?_⟩
      have hcs := hself (List.cons.inj (List.cons.inj h).2).2
      -- so the characters behind the escape are read as they are displayed
      rw [hcs.displayedBody_eq] at hbrace hnone
      have hbrace := mt head?_escapeQuotes_eq_iff.mpr hbrace
      rw [unicodeDigits_escapeQuotes hbrace] at hnone
      exact .escape hbrace hnone hcs
    · refine meansAtMost_of_length_lt fun hclosed => ?_
      rw [hbody] at hclosed ⊢
      exact Nat.lt_of_lt_of_le hlt (Nat.add_le_add_right (ih hclosed).1 2)
  · refine meansAtMost_of_length_lt fun hclosed => ?_
    have hmeaning : unescape ('\\' :: d :: (displayedBody cs).1) =
        escapedChar d :: unescape (displayedBody cs).1 := by simp [unescape]
    rw [hbody] at hclosed ⊢
    rw [hmeaning]
    exact Nat.succ_le_succ (Nat.succ_le_succ (ih hclosed).1)

/-- No displayed string means more than the string. -/
theorem meansAtMost : ∀ cs : List Char, MeansAtMost cs
  | [] => by
    have hbody : displayedBody [] = ([], true) := by decide
    rw [MeansAtMost, hbody, unescape]
    exact fun _ => ⟨Nat.le_refl 0, fun _ => .nil⟩
  | c :: cs => by
    by_cases hslash : c = '\\'
    · subst hslash
      match cs with
      | [] =>
        -- the backslash takes the closing quote with it
        have hbody : (displayedBody ['\\']).2 = false := by decide
        exact fun hclosed => absurd (hbody.symm.trans hclosed) Bool.false_ne_true
      | d :: cs => exact meansAtMost_backslash (meansAtMost cs)
    · exact meansAtMost_char hslash (meansAtMost cs)

end

/-! ## The tokens of a displayed string -/

/-- The lexemes of a text with tokens are these tokens, but the last. -/
theorem lexemes_of_tokenize {source : String} {tokens : List LocatedToken}
    (h : tokenize source = .ok tokens) :
    lexemes source.toList = (tokens.dropLast.map LocatedToken.token).map .token := by
  rw [tokenize_eq h, List.dropLast_concat, ← lexemes_of_located (error?_of_tokenize h),
    map_piece_locatedPieces]
  rfl

/-- The text of a string is one string and what is left behind its end. -/
theorem lexemes_stringText (s : String) : lexemes (Literal.string s).text.toList =
    if (displayedBody s.toList).2 then
      .token (.string (String.ofList (unescape (displayedBody s.toList).1))) ::
        lexemes ((Literal.escapeQuotes s.toList ++ ['\'']).drop
          ((displayedBody s.toList).1.length + 1))
    else
      .fault .unterminatedString :: lexemes ((Literal.escapeQuotes s.toList ++ ['\'']).drop
          (displayedBody s.toList).1.length) := by
  have htext : (Literal.string s).text.toList =
      '\'' :: (Literal.escapeQuotes s.toList ++ ['\'']) := by
    simp [Literal.text]
  have hscan := scan_of_quote (c := '\'') (Or.inr rfl) (Literal.escapeQuotes s.toList ++ ['\''])
  rw [← displayedBody] at hscan
  rw [htext, lexemes, pieces_cons, hscan]
  split <;> rfl

/-- A displayed string is one token with the string as its contents exactly if the string means
itself. -/
theorem tokenize_string_iff (s : String) :
    (∃ p q, tokenize (Literal.string s).text = .ok [⟨.string s, p⟩, ⟨.eof, q⟩]) ↔
      MeansItself s.toList := by
  constructor
  · rintro ⟨p, q, htokens⟩
    have hlexemes := lexemes_of_tokenize htokens
    rw [lexemes_stringText] at hlexemes
    split at hlexemes
    · rename_i hclosed
      have hhead := (List.cons.inj hlexemes).1
      have hs : String.ofList (unescape (displayedBody s.toList).1) = s :=
        Token.string.inj (Lexeme.token.inj hhead)
      have hchars := congrArg String.toList hs
      rw [String.toList_ofList] at hchars
      exact (meansAtMost s.toList hclosed).2 hchars
    · exact absurd (List.cons.inj hlexemes).1 (by simp)
  · intro h
    obtain ⟨located, hlocated, hsame⟩ := tokenize_of_spells (spells_string h)
    obtain ⟨t, rest, rfl, ht, hrest⟩ := List.map_eq_cons_iff.mp hsame
    obtain ⟨u, rfl, hu⟩ := List.map_eq_singleton_iff.mp hrest
    exact ⟨t.span, u.span, by rw [← ht, ← hu]; exact hlocated⟩

/-- The backslash of a string takes the closing quote with it, so that the string does not end. -/
theorem tokenize_backslash :
    tokenize (Literal.string "\\").text = .error [⟨.unterminatedString, ⟨0, 3, 1, 1⟩⟩] ∧
      ¬ ∃ p q, tokenize (Literal.string "\\").text = .ok [⟨.string "\\", p⟩, ⟨.eof, q⟩] := by
  have herror : tokenize (Literal.string "\\").text =
      .error [⟨.unterminatedString, ⟨0, 3, 1, 1⟩⟩] := by decide +kernel
  refine ⟨herror, ?_⟩
  rintro ⟨p, q, htokens⟩
  rw [herror] at htokens
  exact absurd htokens (by simp)

end TypeAssay
