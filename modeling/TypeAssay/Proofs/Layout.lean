import TypeAssay.Proofs.Escapes
import TypeAssay.Proofs.Excerpts

/-!
# Layout

White space and comments between tokens do not matter, however much there is of them
(`tokenize_respaced`). What a token takes of the characters ahead never goes on with a blank or a
slash (`scan_append_le`), and no scan depends on what it does not take. So a token that is cut out
of a text is that token alone, and in front of any layout (`lexemes_append_of_pieces`).
-/

namespace TypeAssay

/-! ## What stands behind a token -/

/-- The characters that white space and comments start with. -/
def layoutStarts : List Char := [' ', '\t', '\r', '\n', '\x0c', '/']

/-- Nothing follows, or layout. -/
def Loose (rest : List Char) : Prop := ∀ c ∈ rest.head?, c ∈ layoutStarts

/-- Layout can start with a blank. -/
theorem mem_layoutStarts_of_isBlank {c : Char} (h : isBlank c) : c ∈ layoutStarts := by
  simp only [isBlank, Bool.or_eq_true, decide_eq_true_eq] at h
  rcases h with (((rfl | rfl) | rfl) | rfl) | rfl <;> decide

section

variable {rest cs : List Char} {p : Char → Bool} {c d : Char} {n : Nat}

/-- What is nowhere at the start of layout does not follow. -/
theorem Loose.any_head? (h : Loose rest) (hp : layoutStarts.any p = false) :
    rest.head?.any p = false := by
  cases rest with
  | nil => rfl
  | cons c rest => exact Bool.eq_false_iff.mpr (List.any_eq_false.mp hp c (h c rfl))

/-- A character that starts no layout does not follow. -/
theorem Loose.head?_ne (h : Loose rest) (hd : d ∉ layoutStarts) : rest.head? ≠ some d :=
  fun hc => hd (h d hc)

/-! ## What a number literal takes -/

/-- Nothing is taken of what follows if its first character is not. -/
theorem length_takeWhile_append_le (hp : rest.head?.any p = false) :
    ((cs ++ rest).takeWhile p).length ≤ cs.length := by
  induction cs with
  | nil =>
    cases rest with
    | nil => exact Nat.le_refl 0
    | cons c rest =>
      have hc : p c = false := hp
      simp [hc]
  | cons c cs ih =>
    rw [List.cons_append, List.takeWhile_cons]
    split
    · exact Nat.succ_le_succ ih
    · exact Nat.zero_le _

/-- Digits do not go on in the layout behind them. -/
theorem separatedLength_append_le (hp : rest.head?.any p = false) (hsep : rest.head? ≠ some '_') :
    separatedLength p (cs ++ rest) ≤ cs.length := by
  induction cs with
  | nil =>
    cases rest with
    | nil => exact Nat.le_refl 0
    | cons c rest =>
      have hc : p c = false := hp
      have hc' : c ≠ '_' := fun h => hsep (h ▸ rfl)
      simp [separatedLength_cons, hc, hc']
  | cons c cs ih =>
    rw [List.cons_append, separatedLength_cons]
    split
    · exact Nat.succ_le_succ ih
    · exact Nat.zero_le _

/-- A whole part does not go on in the layout behind it. -/
theorem scanWhole_append_le (h : Loose rest) (state : SeparatorState) :
    (scanWhole state (cs ++ rest)).1 ≤ cs.length := by
  induction cs generalizing state with
  | nil =>
    cases rest with
    | nil => exact Nat.le_refl 0
    | cons c rest =>
      have hc : c.isDigit = false := h.any_head? (p := Char.isDigit) (by decide)
      have hc' : c ≠ '_' := fun hc => h.head?_ne (d := '_') (by decide) (hc ▸ rfl)
      simp [scanWhole, SeparatorState.next?, hc, hc']
  | cons c cs ih =>
    rw [List.cons_append, scanWhole]
    cases state.next? c with
    | none => exact Nat.zero_le _
    | some state' => exact Nat.succ_le_succ (ih state')

/-- A fraction does not go on in the layout behind it. -/
theorem fractionLength_append_le (h : Loose rest) : fractionLength (cs ++ rest) ≤ cs.length := by
  cases cs with
  | nil =>
    rw [List.nil_append, fractionLength.eq_def]
    split
    · exact absurd rfl (h.head?_ne (d := '.') (by decide))
    · exact Nat.le_refl 0
  | cons c cs =>
    rw [List.cons_append]
    by_cases hc : c = '.'
    · rw [hc, fractionLength_point]
      split
      · exact Nat.succ_le_succ
          (separatedLength_append_le (h.any_head? (by decide)) (h.head?_ne (by decide)))
      · exact Nat.zero_le _
    · simp [fractionLength, hc]

/-- The digits of an exponent do not go on in the layout behind them. -/
theorem exponentOver_append_le (h : Loose rest) (signLength : Nat) (cs : List Char) :
    exponentOver signLength (cs ++ rest) ≤ 1 + signLength + cs.length := by
  have hdigits : ((cs ++ rest).takeWhile Char.isDigit).length ≤ cs.length :=
    length_takeWhile_append_le (h.any_head? (by decide))
  rw [exponentOver]
  split <;> omega

/-- An exponent does not go on in the layout behind it. -/
theorem exponentLength_append_le (h : Loose rest) : exponentLength (cs ++ rest) ≤ cs.length := by
  cases cs with
  | nil =>
    cases rest with
    | nil => exact Nat.le_refl 0
    | cons c rest =>
      have hc : c ≠ 'e' := fun hc => h.head?_ne (d := 'e') (by decide) (hc ▸ rfl)
      have hc' : c ≠ 'E' := fun hc => h.head?_ne (d := 'E') (by decide) (hc ▸ rfl)
      rw [List.nil_append, exponentLength_cons, if_neg (by simp [hc, hc'])]
      exact Nat.le_refl 0
  | cons c cs =>
    rw [List.cons_append, exponentLength_cons, List.length_cons]
    split
    · split
      · rename_i hsign
        cases cs with
        | nil =>
          -- layout starts with no sign
          exact absurd hsign (not_or.mpr ⟨h.head?_ne (by decide), h.head?_ne (by decide)⟩)
        | cons d cs =>
          have hle := exponentOver_append_le h 1 cs
          rw [List.cons_append, List.tail_cons, List.length_cons]
          omega
      · have hle := exponentOver_append_le h 0 cs
        omega
    · exact Nat.zero_le _

/-- A hexadecimal literal does not go on in the layout behind it. -/
theorem hexLength?_append_le (h : Loose rest) (hn : hexLength? (cs ++ rest) = some n) :
    n + 2 ≤ cs.length := by
  rw [hexLength?.eq_def] at hn
  split at hn
  · rename_i x tail heq
    split at hn
    · rename_i hx
      obtain rfl := Option.some.inj hn
      rw [Bool.and_eq_true, Bool.or_eq_true, decide_eq_true_eq, decide_eq_true_eq] at hx
      -- neither the zero nor the `x` behind it is layout
      cases cs with
      | nil =>
        have hrest : rest = '0' :: x :: tail := heq
        exact absurd (hrest ▸ rfl) (h.head?_ne (d := '0') (by decide))
      | cons zero cs =>
        have heq : cs ++ rest = x :: tail := (List.cons.inj heq).2
        cases cs with
        | nil =>
          have hrest : rest = x :: tail := heq
          rcases hx.1 with rfl | rfl
          · exact absurd (hrest ▸ rfl) (h.head?_ne (d := 'x') (by decide))
          · exact absurd (hrest ▸ rfl) (h.head?_ne (d := 'X') (by decide))
        | cons y cs =>
          obtain ⟨-, rfl⟩ := List.cons.inj heq
          exact Nat.add_le_add_right
            (separatedLength_append_le (h.any_head? (by decide)) (h.head?_ne (by decide))) 2
    · exact absurd hn (by simp)
  · exact absurd hn (by simp)

/-- A fraction and an exponent, each of which may be missing. -/
theorem fraction_exponent_append_le (h : Loose rest) (cs : List Char) :
    fractionLength (cs ++ rest) +
      exponentLength ((cs ++ rest).drop (fractionLength (cs ++ rest))) ≤ cs.length := by
  have hfraction : fractionLength (cs ++ rest) ≤ cs.length := fractionLength_append_le h
  have hexponent : exponentLength (cs.drop (fractionLength (cs ++ rest)) ++ rest) ≤ _ :=
    exponentLength_append_le h
  rw [List.drop_append_of_le_length hfraction]
  rw [List.length_drop] at hexponent
  omega

/-- A numeral does not go on in the layout behind it. -/
theorem scanNumeral_append_le (h : Loose rest) (cs : List Char) :
    (scanNumeral (cs ++ rest)).2 ≤ cs.length := by
  rw [scanNumeral]
  cases hhex : hexLength? (cs ++ rest) with
  | some n => exact hexLength?_append_le h hhex
  | none =>
    have hwhole : (scanWhole .digits (cs ++ rest)).1 ≤ cs.length := scanWhole_append_le h .digits
    rcases hscan : scanWhole .digits (cs ++ rest) with ⟨whole, state⟩
    rw [hscan] at hwhole
    simp only [List.drop_append_of_le_length hwhole]
    split
    · exact hwhole
    split
    · rename_i hn
      refine Nat.lt_of_le_of_ne hwhole fun hall => ?_
      -- no `n` follows, since layout does
      rw [hall, List.drop_length, List.nil_append] at hn
      exact h.head?_ne (by decide) hn
    · have hmore := fraction_exponent_append_le h (cs.drop whole)
      rw [List.length_drop] at hmore
      simp only
      omega

/-- A fraction without a whole part does not go on in the layout behind it. -/
theorem scanFraction_append_le (h : Loose rest) (cs : List Char) :
    (scanFraction (cs ++ rest)).2 ≤ cs.length :=
  fraction_exponent_append_le h cs

/-! ## What a token takes -/

/-- A slash starts a comment or nothing. -/
theorem scan_slash_ne_token (rest : List Char) (t : Token) : (scan '/' rest).1 ≠ .token t := by
  have hslash : isBlank '/' = false ∧ isIdentifierStart '/' = false ∧ '/'.isDigit = false ∧
      Punctuation.ofChar? '/' = none := by decide
  by_cases hline : rest.head? = some '/'
  · simp [scan, hslash, hline]
  · by_cases hblock : rest.head? = some '*'
    · simp [scan, hslash, hblock]
    · simp [scan, hslash, hline, hblock]

/-- A token takes nothing of the layout behind it. -/
theorem scan_append_le {t : Token} (h : (scan c cs).1 = .token t) (hrest : Loose rest) :
    (scan c (cs ++ rest)).2 ≤ cs.length := by
  -- rule by rule; a text that starts a token starts the same one with layout behind it
  by_cases hblank : isBlank c
  · simp [scan, hblank] at h
  by_cases hslash : c = '/'
  · exact absurd h (hslash ▸ scan_slash_ne_token cs t)
  by_cases hword : isIdentifierStart c
  · rw [scan_of_isIdentifierStart hword]
    exact length_takeWhile_append_le (hrest.any_head? (by decide))
  by_cases hdigit : c.isDigit
  · rw [scan_of_isDigit hdigit]
    exact Nat.sub_le_of_le_add (scanNumeral_append_le hrest (c :: cs))
  by_cases hquote : c = '"' ∨ c = '\''
  · have hclosed : (stringBody c cs).2 = true := by
      rw [scan_of_quote hquote] at h
      by_contra hopen
      simp [hopen] at h
    obtain ⟨hbody, after, hcs⟩ := isStringBody_of_stringBody hclosed
    have hsame : stringBody c (cs ++ rest) = stringBody c cs := by
      nth_rewrite 1 [hcs]
      rw [List.append_assoc, List.cons_append, hbody.stringBody_eq (backslash_ne_of_quote hquote)]
      exact Prod.ext rfl hclosed.symm
    have hlength := congrArg List.length hcs
    rw [List.length_append, List.length_cons] at hlength
    rw [scan_of_quote hquote, hsame, if_pos hclosed]
    omega
  -- what is left is a fraction or a mark
  simp only [scan, hblank, hslash, hword, hdigit, hquote, Bool.false_eq_true, if_false,
    decide_false, Bool.false_and, Bool.or_eq_true, decide_eq_true_eq]
  split
  · exact Nat.sub_le_of_le_add (scanFraction_append_le hrest (c :: cs))
  · split <;> exact Nat.zero_le _

/-- A token is the same in front of layout. -/
theorem scan_append {t : Token} (h : (scan c cs).1 = .token t) (hrest : Loose rest) :
    scan c (cs ++ rest) = scan c cs := by
  have htake := scan_take c (scan_append_le h hrest)
  rwa [List.take_left, eq_comm] at htake

/-- A text that is one token is that token in front of layout, too. -/
theorem lexemes_append_of_pieces {t : Token} (h : pieces cs = [⟨cs, .token t⟩])
    (hrest : Loose rest) : lexemes (cs ++ rest) = .token t :: lexemes rest := by
  cases cs with
  | nil => simp [pieces] at h
  | cons c cs =>
    rw [pieces_cons] at h
    obtain ⟨hpiece, -⟩ := List.cons.inj h
    obtain ⟨htext, htoken⟩ := Piece.mk.inj hpiece
    have hall : cs.take (scan c cs).2 = cs := (List.cons.inj htext).2
    have hscan : scan c (cs ++ rest) = (.token t, (scan c cs).2) := by
      rw [scan_append htoken hrest, ← htoken]
    have hlength : (scan c cs).2 = cs.length := by
      have hshort := scan_append_le htoken hrest
      have hlong := congrArg List.length hall
      rw [scan_append htoken hrest] at hshort
      rw [List.length_take] at hlong
      omega
    rw [List.cons_append, lexemes_of_scan hscan, hlength, List.drop_left]

end

/-! ## Layout -/

/-- Blanks and comments that end, at least one of them. A comment to the end of its line ends with
the line. -/
inductive IsLayout : List Char → Prop
  | blank {c : Char} (h : isBlank c) : IsLayout [c]
  | line {body : List Char} (h : '\n' ∉ body) : IsLayout ('/' :: '/' :: (body ++ ['\n']))
  | block {body : List Char} (h : ¬ ['*', '/'] <:+: body ++ ['*']) :
      IsLayout ('/' :: '*' :: (body ++ ['*', '/']))
  | append {g h : List Char} (left : IsLayout g) (right : IsLayout h) : IsLayout (g ++ h)

section

variable {rest body gap : List Char} {c : Char}

/-- Layout starts as layout does. -/
theorem IsLayout.loose (h : IsLayout gap) (rest : List Char) : Loose (gap ++ rest) := by
  -- by induction on the layout: all of it starts as its first piece does
  induction h generalizing rest with
  | blank h =>
    rintro d ⟨rfl⟩
    exact mem_layoutStarts_of_isBlank h
  | line _ | block _ =>
    rintro d ⟨rfl⟩
    decide
  | append _ _ ih _ =>
    rw [List.append_assoc]
    exact ih _

/-- A blank leaves no lexeme. -/
theorem lexemes_of_scan_blank {n : Nat} (h : scan c rest = (.blank, n)) :
    lexemes (c :: rest) = lexemes (rest.drop n) := by
  simp [lexemes, pieces_cons, h]

/-- A comment to the end of its line leaves no lexeme. -/
theorem lexemes_line (h : '\n' ∉ body) (hrest : ∀ c ∈ rest.head?, c = '\n') :
    lexemes ('/' :: '/' :: (body ++ rest)) = lexemes rest := by
  have hscan : scan '/' ('/' :: (body ++ rest)) = (.blank, body.length + 1) := by
    have hbody : (body ++ rest).takeWhile (· ≠ '\n') = body := by
      have hall : ∀ c ∈ body, decide (c ≠ '\n') = true := fun c hc =>
        decide_eq_true fun hline => h (hline ▸ hc)
      rw [List.takeWhile_append_of_pos hall]
      cases rest with
      | nil => simp
      | cons c rest =>
        obtain rfl := hrest c rfl
        simp
    have hslash : isBlank '/' = false := by decide
    simp only [scan, hslash, List.head?_cons, decide_true, Bool.and_self, if_true,
      Bool.false_eq_true, if_false]
    rw [List.takeWhile_cons_of_pos (by decide), hbody, List.length_cons]
  rw [lexemes_of_scan_blank hscan, List.drop_succ_cons, List.drop_left]

/-- A block comment goes to its first end. -/
theorem blockLength_append (h : ¬ ['*', '/'] <:+: body ++ ['*']) (rest : List Char) :
    blockLength (body ++ '*' :: '/' :: rest) = body.length + 2 := by
  induction body with
  | nil => rfl
  | cons c body ih =>
    rw [List.cons_append, List.infix_cons_iff, not_or] at h
    rw [List.cons_append, blockLength, ih h.2, List.length_cons]
    -- the comment does not end at `c`
    intro tail hc htail
    apply h.1
    cases body with
    | nil => exact absurd htail (by simp)
    | cons d body =>
      obtain ⟨rfl, -⟩ := List.cons.inj htail
      exact ⟨body ++ ['*'], by rw [hc]; rfl⟩

/-- A comment to its first `*/` leaves no lexeme. -/
theorem lexemes_block (h : ¬ ['*', '/'] <:+: body ++ ['*']) (rest : List Char) :
    lexemes ('/' :: '*' :: (body ++ '*' :: '/' :: rest)) = lexemes rest := by
  have hscan : scan '/' ('*' :: (body ++ '*' :: '/' :: rest)) = (.blank, body.length + 3) := by
    have hslash : isBlank '/' = false := by decide
    simp [scan, hslash, blockLength_append h rest]
  have hsplit : body ++ '*' :: '/' :: rest = (body ++ ['*', '/']) ++ rest := by simp
  have hlength : body.length + 2 = (body ++ ['*', '/']).length := by simp
  rw [lexemes_of_scan_blank hscan, List.drop_succ_cons, hsplit, hlength, List.drop_left]

/-- Layout leaves no lexeme. -/
theorem IsLayout.lexemes_append (h : IsLayout gap) (rest : List Char) :
    lexemes (gap ++ rest) = lexemes rest := by
  induction h generalizing rest with
  | blank h => exact lexemes_of_isBlank h rest
  | @line body h =>
    have hline : ∀ c ∈ ('\n' :: rest).head?, c = '\n' := fun c hc => (Option.some.inj hc).symm
    rw [List.cons_append, List.cons_append, List.append_assoc, List.singleton_append,
      lexemes_line h hline]
    exact lexemes_of_isBlank (by decide) rest
  | @block body h =>
    rw [List.cons_append, List.cons_append, List.append_assoc]
    exact lexemes_block h rest
  | append _ _ ihl ihr => rw [List.append_assoc, ihl, ihr]

end

/-! ## Texts with other layout -/

/-- A text with the texts of some tokens of a source, in order, with layout in front of the first
one, between any two and behind the last one. The last layout may end with a comment to the end of
the text. -/
inductive Respaced (source : String) : List LocatedToken → List Char → Prop
  | last {gap : List Char} (layout : IsLayout gap) : Respaced source [] gap
  | comment {gap body : List Char} (layout : gap = [] ∨ IsLayout gap) (line : '\n' ∉ body) :
      Respaced source [] (gap ++ '/' :: '/' :: body)
  | token {gap text : List Char} {t : LocatedToken} {ts : List LocatedToken}
      (layout : IsLayout gap) (rest : Respaced source ts text) :
      Respaced source (t :: ts) (gap ++ ((t.span.slice source).toList ++ text))

section

variable {source : String} {tokens ts : List LocatedToken} {text : List Char} {t : LocatedToken}

/-- The text under a token is that token, alone. -/
theorem pieces_slice (h : tokenize source = .ok tokens) (ht : t ∈ tokens.dropLast) :
    pieces (t.span.slice source).toList = [⟨(t.span.slice source).toList, .token t.token⟩] := by
  rw [tokenize_eq h, List.dropLast_concat] at ht
  obtain ⟨x, hx, htoken⟩ := List.mem_filterMap.mp ht
  obtain ⟨before, after, hsplit⟩ := List.append_of_mem hx
  have hlexeme : x.piece.lexeme = .token t.token := by
    rw [LocatedPiece.token?] at htoken
    split at htoken
    · rename_i u hu
      rw [hu, ← Option.some.inj htoken]
    · exact absurd htoken (by simp)
  have hslice : t.span.slice source = String.ofList x.piece.text := by
    rw [token?_span htoken, span_of_locatedPieces hsplit]
    exact slice_behind (toList_of_locatedPieces hsplit)
  have hpieces := map_piece_locatedPieces source
  rw [hsplit, List.map_append, List.map_cons] at hpieces
  have hone : pieces ([x.piece].flatMap Piece.text) = [x.piece] :=
    pieces_flatMap_text hpieces.symm
  rw [List.flatMap_singleton] at hone
  rw [hslice, String.toList_ofList, hone, ← hlexeme]

/-- What is laid out anew starts with layout or has no token. -/
theorem Respaced.loose (h : Respaced source ts text) : Loose text := by
  cases h with
  | last layout => exact List.append_nil text ▸ layout.loose []
  | @comment gap body layout _ =>
    rcases layout with rfl | hgap
    · rintro c ⟨rfl⟩
      decide
    · exact hgap.loose _
  | token layout _ => exact layout.loose _

/-- What is laid out anew has the same lexemes. -/
theorem Respaced.lexemes_eq (h : Respaced source ts text)
    (hts : ∀ t ∈ ts, pieces (t.span.slice source).toList =
      [⟨(t.span.slice source).toList, .token t.token⟩]) :
    lexemes text = (ts.map LocatedToken.token).map .token := by
  induction h with
  | @last gap layout =>
    rw [← List.append_nil gap, layout.lexemes_append, lexemes_nil]
    rfl
  | @comment gap body layout line =>
    have hcomment : lexemes ('/' :: '/' :: body) = [] := by
      rw [← List.append_nil body, lexemes_line line (by simp), lexemes_nil]
    rcases layout with rfl | hgap
    · exact hcomment
    · rw [hgap.lexemes_append, hcomment]
      rfl
  | token layout rest ih =>
    obtain ⟨ht, hts⟩ := List.forall_mem_cons.mp hts
    rw [layout.lexemes_append, lexemes_append_of_pieces ht rest.loose, ih hts]
    rfl

/-- Layout between tokens does not matter. Any other layout in front of the tokens of a source,
between any two and behind the last gives the same tokens at other places, and each token is what
its own text is. -/
theorem tokenize_respaced (h : tokenize source = .ok tokens) :
    (∀ text : String, Respaced source tokens.dropLast text.toList → ∃ tokens',
      tokenize text = .ok tokens' ∧
        tokens'.map LocatedToken.token = tokens.map LocatedToken.token) ∧
    ∀ t ∈ tokens.dropLast, ∃ tokens', tokenize (t.span.slice source) = .ok tokens' ∧
      tokens'.map LocatedToken.token = [t.token, .eof] := by
  constructor
  · intro text htext
    obtain ⟨tokens', htokens', hsame⟩ :=
      tokenize_of_lexemes (htext.lexemes_eq fun t ht => pieces_slice h ht)
    refine ⟨tokens', htokens', ?_⟩
    rw [hsame, tokenize_eq h, List.dropLast_concat, List.map_append]
    rfl
  · intro t ht
    have halone : lexemes (t.span.slice source).toList = [t.token].map .token := by
      rw [lexemes, pieces_slice h ht]
      rfl
    exact tokenize_of_lexemes halone

/-- A number with a separator at its end, a name, a fraction and a string, with nothing between. -/
def crowded : String := "1_n.5'a'"

def crowdedTokens : List LocatedToken :=
  [⟨.number ⟨0x3FF0000000000000⟩, ⟨0, 2, 1, 1⟩⟩, ⟨.identifier "n", ⟨2, 3, 1, 3⟩⟩,
    ⟨.number ⟨0x3FE0000000000000⟩, ⟨3, 5, 1, 4⟩⟩, ⟨.string "a", ⟨5, 8, 1, 6⟩⟩,
    ⟨.eof, ⟨8, 8, 1, 9⟩⟩]

/-- The crowded text with comments and blanks between its tokens. -/
theorem respaced_crowded :
    Respaced crowded crowdedTokens.dropLast "//\n1_ /***/n\t.5\r'a'\n// end".toList := by
  have hline : IsLayout ('/' :: '/' :: ([] ++ ['\n'])) := .line (by simp)
  have hblock : IsLayout ([' '] ++ '/' :: '*' :: (['*'] ++ ['*', '/'])) :=
    .append (.blank (by decide)) (.block (by decide))
  have hend : Respaced crowded [] (['\n'] ++ '/' :: '/' :: " end".toList) :=
    .comment (.inr (.blank (by decide))) (by decide)
  have htext : Respaced crowded crowdedTokens.dropLast _ :=
    .token hline <| .token hblock <| .token (.blank (c := '\t') (by decide)) <|
      .token (.blank (c := '\r') (by decide)) hend
  convert htext using 1
  decide +kernel

/-- The separator stays with the number, and the name behind it makes no bigint of the number. -/
theorem tokenize_respaced_crowded :
    tokenize crowded = .ok crowdedTokens ∧
      Respaced crowded crowdedTokens.dropLast "//\n1_ /***/n\t.5\r'a'\n// end".toList ∧
      (∃ tokens', tokenize "//\n1_ /***/n\t.5\r'a'\n// end" = .ok tokens' ∧
        tokens'.map LocatedToken.token = crowdedTokens.map LocatedToken.token) ∧
      ∀ t ∈ crowdedTokens.dropLast, ∃ tokens', tokenize (t.span.slice crowded) = .ok tokens' ∧
        tokens'.map LocatedToken.token = [t.token, .eof] := by
  have htokens : tokenize crowded = .ok crowdedTokens := by decide +kernel
  obtain ⟨hspaced, halone⟩ := tokenize_respaced htokens
  exact ⟨htokens, respaced_crowded, hspaced _ respaced_crowded, halone⟩

end

end TypeAssay
