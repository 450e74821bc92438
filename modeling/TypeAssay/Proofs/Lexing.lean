import TypeAssay.Proofs.Numerals

/-!
# Texts that spell tokens

`Spells text ts` says that a text is cut into the tokens `ts`, whatever follows it, so long as that
cannot go on with a word or a number. Texts that are put together spell the tokens of their parts
(`LexesTo.append`), so each kind of token is looked at once: marks, words, strings and numbers.

* `tokenize_of_spells` : the tokens of a text that spells some.
-/

namespace TypeAssay

/-! ## Lexemes -/

/-- What the pieces of a text are, without the blank ones. -/
def lexemes (cs : List Char) : List Lexeme :=
  ((pieces cs).map Piece.lexeme).filter (· ≠ .blank)

/-- An empty text has no lexeme. -/
@[simp]
theorem lexemes_nil : lexemes [] = [] := by simp [lexemes, pieces]

/-- A token that is scanned comes first, and what is behind it follows. -/
theorem lexemes_of_scan {c : Char} {rest : List Char} {t : Token} {n : Nat}
    (h : scan c rest = (.token t, n)) :
    lexemes (c :: rest) = .token t :: lexemes (rest.drop n) := by
  simp [lexemes, pieces_cons, h]

/-- As many elements as are taken are those taken. -/
theorem take_length_takeWhile {α : Type} (p : α → Bool) (xs : List α) :
    xs.take (xs.takeWhile p).length = xs.takeWhile p :=
  (List.prefix_iff_eq_take.mp (List.takeWhile_prefix p)).symm

/-- Behind as many elements as are taken the others are left. -/
theorem drop_length_takeWhile {α : Type} (p : α → Bool) (xs : List α) :
    xs.drop (xs.takeWhile p).length = xs.dropWhile p := by
  have hsplit : xs.takeWhile p ++ xs.dropWhile p = xs := List.takeWhile_append_dropWhile
  calc xs.drop (xs.takeWhile p).length
      = (xs.takeWhile p ++ xs.dropWhile p).drop (xs.takeWhile p).length := by rw [hsplit]
    _ = xs.dropWhile p := List.drop_left

/-- What is taken from a text ends where the next character is not taken. -/
theorem takeWhile_append_of_head? {α : Type} {p : α → Bool} {xs ys : List α}
    (hxs : ∀ x ∈ xs, p x) (hys : ys.head?.any p = false) : (xs ++ ys).takeWhile p = xs := by
  rw [List.takeWhile_append_of_pos hxs]
  cases ys with
  | nil => simp
  | cons y ys =>
    have hy : ¬ p y := by simpa using hys
    rw [List.takeWhile_cons_of_neg hy, List.append_nil]

/-- What is left starts with an element that is not taken. -/
theorem any_head?_dropWhile {α : Type} (p : α → Bool) (xs : List α) :
    (xs.dropWhile p).head?.any p = false := by
  have hstop := List.head?_dropWhile_not p xs
  cases h : (xs.dropWhile p).head? with
  | none => rfl
  | some x => simpa [h] using hstop

/-- White space in front of a text leaves no lexeme. -/
theorem lexemes_dropWhile_isBlank (cs : List Char) :
    lexemes (cs.dropWhile isBlank) = lexemes cs := by
  cases cs with
  | nil => rfl
  | cons c rest =>
    by_cases hc : isBlank c
    · simp [lexemes, pieces_cons, scan, hc, drop_length_takeWhile]
    · rw [List.dropWhile_cons_of_neg hc]

/-- White space leaves no lexeme. -/
theorem lexemes_of_isBlank {c : Char} (hc : isBlank c) (rest : List Char) :
    lexemes (c :: rest) = lexemes rest := by
  rw [← lexemes_dropWhile_isBlank, List.dropWhile_cons_of_pos hc, lexemes_dropWhile_isBlank]

/-! ## Spelling -/

/-- Before characters that satisfy `P`, the text is cut into the tokens, and the cutting goes on
behind it. -/
def LexesTo (P : List Char → Prop) (text : String) (ts : List Token) : Prop :=
  ∀ rest, P rest → lexemes (text.toList ++ rest) = ts.map .token ++ lexemes rest

/-- Whether a character ends a word or a number in front of it. -/
def isDelimiter (c : Char) : Bool := isBlank c || (Punctuation.ofChar? c).isSome

/-- Nothing follows, or a character that ends a word or a number. -/
def Delimited (rest : List Char) : Prop := ∀ c ∈ rest.head?, isDelimiter c

/-- The text is cut into the tokens, whatever follows its words and numbers. -/
abbrev Spells : String → List Token → Prop := LexesTo Delimited

/-- The text is cut into the tokens, whatever follows it. -/
abbrev Closed : String → List Token → Prop := LexesTo fun _ => True

variable {P Q : List Char → Prop} {a b text : String} {s t ts : List Token}

/-- Texts in a row, where the second one is what the first one needs to follow. -/
theorem LexesTo.append (ha : LexesTo P a s) (hb : LexesTo Q b t)
    (h : ∀ rest, Q rest → P (b.toList ++ rest)) : LexesTo Q (a ++ b) (s ++ t) := by
  intro rest hrest
  rw [String.toList_append, List.append_assoc, ha _ (h rest hrest), hb rest hrest, List.map_append,
    List.append_assoc]

/-- A text that may be followed by more may be followed by less. -/
theorem LexesTo.mono (ha : LexesTo P a s) (h : ∀ rest, Q rest → P rest) : LexesTo Q a s :=
  fun rest hrest => ha rest (h rest hrest)

/-- A text that anything may follow spells its tokens. -/
theorem Closed.spells (ha : Closed a s) : Spells a s := ha.mono fun _ _ => trivial

/-- Anything may follow a closed text. -/
theorem Closed.append (ha : Closed a s) (hb : LexesTo Q b t) : LexesTo Q (a ++ b) (s ++ t) :=
  LexesTo.append ha hb fun _ _ => trivial

/-- A text that starts with a delimiter may follow any other. -/
theorem Spells.append (ha : Spells a s) (hb : LexesTo Q b t)
    (hdelimiter : b.toList.head?.any isDelimiter) : LexesTo Q (a ++ b) (s ++ t) := by
  refine LexesTo.append ha hb fun rest _ => ?_
  cases hcs : b.toList with
  | nil => simp [hcs] at hdelimiter
  | cons c cs => simpa [Delimited, hcs] using hdelimiter

/-! ## Marks -/

/-- A mark is found by its own character. -/
theorem char_of_ofChar? {c : Char} {p : Punctuation} (h : Punctuation.ofChar? c = some p) :
    p.char = c := by
  simpa using List.find?_some h

/-- A mark is a token of one character. -/
theorem scan_char (p : Punctuation) (rest : List Char) :
    scan p.char rest = (.token (.punctuation p), 0) := by
  cases p <;> rfl

/-- Whether a character is a blank or a mark. -/
def isMark (c : Char) : Bool := isBlank c || (Punctuation.ofChar? c).isSome

/-- Spaces and single marks are tokens of their own, whatever follows them. -/
theorem closed_of_marks (hmarks : text.toList.all isMark)
    (hts : text.toList.filterMap (Punctuation.ofChar? · |>.map Token.punctuation) = ts) :
    Closed text ts := by
  intro rest _
  rw [← hts]
  generalize text.toList = cs at hmarks
  -- by induction on the characters, each of which is a mark or a blank
  induction cs with
  | nil => rfl
  | cons c cs ih =>
    rw [List.all_cons, Bool.and_eq_true, isMark, Bool.or_eq_true] at hmarks
    have hcs := ih hmarks.2
    cases hp : Punctuation.ofChar? c with
    | some p =>
      obtain rfl := char_of_ofChar? hp
      simp [lexemes_of_scan (scan_char p (cs ++ rest)), hp, hcs]
    | none =>
      have hc : isBlank c := hmarks.1.resolve_right (by simp [hp])
      simp [lexemes_of_isBlank hc, hp, hcs]

/-! ## Words -/

/-- A delimiter is no part of an identifier. -/
theorem not_isIdentifierPart_of_isDelimiter {c : Char} (h : isDelimiter c) :
    isIdentifierPart c = false := by
  rcases Bool.or_eq_true_iff.mp h with hblank | hmark
  · simp only [isBlank, Bool.or_eq_true, decide_eq_true_eq] at hblank
    rcases hblank with (((rfl | rfl) | rfl) | rfl) | rfl <;> decide
  · obtain ⟨p, hp⟩ := Option.isSome_iff_exists.mp hmark
    obtain rfl := char_of_ofChar? hp
    cases p <;> decide

/-- Whether a text is an identifier or a keyword. -/
def isWord (text : String) : Bool :=
  match text.toList with
  | [] => false
  | c :: cs => isIdentifierStart c && cs.all isIdentifierPart

/-- What goes on up to delimiters ends in front of one. -/
theorem takeWhile_append_of_delimited {p : Char → Bool} {cs rest : List Char}
    (hcs : ∀ c ∈ cs, p c) (hp : ∀ c, isDelimiter c → p c = false) (hrest : Delimited rest) :
    (cs ++ rest).takeWhile p = cs := by
  refine takeWhile_append_of_head? hcs ?_
  cases rest with
  | nil => rfl
  | cons d rest => exact hp d (hrest d rfl)

/-- A letter starts a word, which goes on as far as it can. -/
theorem scan_of_isIdentifierStart {c : Char} (hc : isIdentifierStart c) (rest : List Char) :
    scan c rest =
      (.token (wordToken (String.ofList (c :: rest.takeWhile isIdentifierPart))),
        (rest.takeWhile isIdentifierPart).length) := by
  have hblank : isBlank c = false := by
    by_contra hblank
    simp only [isBlank, Bool.not_eq_false, Bool.or_eq_true, decide_eq_true_eq] at hblank
    rcases hblank with (((rfl | rfl) | rfl) | rfl) | rfl <;> exact absurd hc (by decide)
  have hslash : c ≠ '/' := by
    rintro rfl
    exact absurd hc (by decide)
  simp [scan, hblank, hslash, hc]

/-- A word is one token. -/
theorem spells_word (h : isWord text) : Spells text [wordToken text] := by
  intro rest hrest
  rw [isWord] at h
  cases htext : text.toList with
  | nil => simp [htext] at h
  | cons c cs =>
    simp only [htext, Bool.and_eq_true] at h
    have hword : (cs ++ rest).takeWhile isIdentifierPart = cs :=
      takeWhile_append_of_delimited (List.all_eq_true.mp h.2)
        (fun c => not_isIdentifierPart_of_isDelimiter) hrest
    have hofList : String.ofList (c :: cs) = text := by rw [← htext, String.ofList_toList]
    rw [List.cons_append, lexemes_of_scan (scan_of_isIdentifierStart h.1 (cs ++ rest)), hword,
      hofList, List.drop_left]
    rfl

/-! ## Strings -/

/-- Escaping goes character by character. -/
theorem escapeQuotes_cons (c : Char) (cs : List Char) :
    Literal.escapeQuotes (c :: cs) =
      (if c = '\'' then ['\\', c] else [c]) ++ Literal.escapeQuotes cs :=
  List.flatMap_cons

/-- A plain character belongs to the body. -/
theorem stringBody_cons {quote c : Char} (hquote : c ≠ quote) (hline : c ≠ '\n') (hslash : c ≠ '\\')
    (cs : List Char) :
    stringBody quote (c :: cs) = (c :: (stringBody quote cs).1, (stringBody quote cs).2) := by
  cases cs <;> simp [stringBody, hquote, hline, hslash]

/-- A backslash takes the next character with it. -/
theorem stringBody_pair {quote d : Char} (hquote : '\\' ≠ quote) (hline : d ≠ '\n')
    (cs : List Char) :
    stringBody quote ('\\' :: d :: cs) =
      ('\\' :: d :: (stringBody quote cs).1, (stringBody quote cs).2) := by
  simp [stringBody, hquote, hline]

/-- A character other than a backslash means itself. -/
theorem unescape_cons {c : Char} (hc : c ≠ '\\') (cs : List Char) :
    unescape (c :: cs) = c :: unescape cs := by
  simp [unescape, hc]

/-- What has no backslash means itself, whatever follows. -/
theorem unescape_append {ps : List Char} (hps : '\\' ∉ ps) (cs : List Char) :
    unescape (ps ++ cs) = ps ++ unescape cs := by
  induction ps with
  | nil => rfl
  | cons c ps ih =>
    rw [List.mem_cons, not_or] at hps
    rw [List.cons_append, unescape_cons (Ne.symm hps.1), ih hps.2, List.cons_append]

/-- A Unicode escape means what its digits mean. -/
theorem unescape_unicode (cs : List Char) :
    unescape ('\\' :: 'u' :: cs) =
      unicodeMeaning (unicodeDigits cs).1 ++ unescape (cs.drop (unicodeDigits cs).2) := by
  rw [unescape]

/-- Without braces an escape takes its digits and nothing else. -/
theorem unicodeDigits_of_head?_ne {cs : List Char} (h : cs.head? ≠ some '{') :
    unicodeDigits cs = ((cs.takeWhile isHexDigit).take 4,
      ((cs.takeWhile isHexDigit).take 4).length) := by
  rw [unicodeDigits.eq_def]
  split
  · exact absurd rfl h
  · rfl

/-- There is no backslash among hexadecimal digits. -/
theorem backslash_not_mem_takeWhile (cs : List Char) : '\\' ∉ cs.takeWhile isHexDigit :=
  fun h => absurd (List.all_eq_true.mp List.all_takeWhile _ h) (by decide)

/-- An escape that names no character is kept as it is written, unless it has braces. -/
theorem unescape_unicode_eq_self {cs : List Char} (hbrace : cs.head? ≠ some '{')
    (hnone : unicodeMeaning (unicodeDigits cs).1 = '\\' :: 'u' :: (unicodeDigits cs).1) :
    unescape ('\\' :: 'u' :: cs) = '\\' :: 'u' :: unescape cs := by
  have hprefix : (cs.takeWhile isHexDigit).take 4 <+: cs :=
    (List.take_prefix _ _).trans (List.takeWhile_prefix _)
  have hdigits : '\\' ∉ (cs.takeWhile isHexDigit).take 4 := fun h =>
    backslash_not_mem_takeWhile cs (List.mem_of_mem_take h)
  rw [unescape_unicode, hnone, unicodeDigits_of_head?_ne hbrace]
  -- what is kept are the digits, and they have no backslash, so they mean themselves
  generalize (cs.takeWhile isHexDigit).take 4 = hex at hprefix hdigits ⊢
  obtain ⟨after, rfl⟩ := hprefix
  rw [List.drop_left, unescape_append hdigits]
  rfl

/-! ### Strings that mean themselves -/

/-- Characters that mean themselves between single quotes, once the quotes among them are escaped:
no newline, and no backslash but that of a Unicode escape without braces that names no
character. -/
inductive MeansItself : List Char → Prop
  | nil : MeansItself []
  | char {c : Char} {cs : List Char} (hslash : c ≠ '\\') (hline : c ≠ '\n') (h : MeansItself cs) :
      MeansItself (c :: cs)
  | escape {cs : List Char} (hbrace : cs.head? ≠ some '{')
      (hnone : unicodeMeaning (unicodeDigits cs).1 = '\\' :: 'u' :: (unicodeDigits cs).1)
      (h : MeansItself cs) : MeansItself ('\\' :: 'u' :: cs)

/-- Characters without backslashes and newlines mean themselves. -/
theorem meansItself_of_not_mem {cs : List Char} (hslash : '\\' ∉ cs) (hline : '\n' ∉ cs) :
    MeansItself cs := by
  induction cs with
  | nil => exact .nil
  | cons c cs ih =>
    rw [List.mem_cons, not_or] at hslash hline
    exact .char (Ne.symm hslash.1) (Ne.symm hline.1) (ih hslash.2 hline.2)

/-- Escaping quotes changes nothing about a brace in front. -/
theorem head?_escapeQuotes_eq_iff {cs : List Char} :
    (Literal.escapeQuotes cs).head? = some '{' ↔ cs.head? = some '{' := by
  cases cs with
  | nil => rfl
  | cons c cs =>
    rw [escapeQuotes_cons]
    split
    · rename_i hc
      subst hc
      exact iff_of_false (by simp) (by simp)
    · rfl

/-- Escaping quotes changes nothing about digits in front. -/
theorem takeWhile_isHexDigit_escapeQuotes (cs : List Char) :
    (Literal.escapeQuotes cs).takeWhile isHexDigit = cs.takeWhile isHexDigit := by
  induction cs with
  | nil => rfl
  | cons c cs ih =>
    rw [escapeQuotes_cons]
    split
    · rename_i hc
      subst hc
      rw [List.cons_append, List.takeWhile_cons_of_neg (by decide),
        List.takeWhile_cons_of_neg (by decide)]
    · rw [List.singleton_append, List.takeWhile_cons, List.takeWhile_cons, ih]

/-- Escaping quotes does not change the digits of an escape in front of them. -/
theorem unicodeDigits_escapeQuotes {cs : List Char} (h : cs.head? ≠ some '{') :
    unicodeDigits (Literal.escapeQuotes cs) = unicodeDigits cs := by
  rw [unicodeDigits_of_head?_ne (mt head?_escapeQuotes_eq_iff.mp h), unicodeDigits_of_head?_ne h,
    takeWhile_isHexDigit_escapeQuotes]

/-- The body goes up to the quote at the end. -/
theorem MeansItself.stringBody_eq {cs : List Char} (h : MeansItself cs) (rest : List Char) :
    stringBody '\'' (Literal.escapeQuotes cs ++ '\'' :: rest) =
      (Literal.escapeQuotes cs, true) := by
  -- an escape in front of the quotes stays, since they are not among its digits
  induction h with
  | nil => cases rest <;> simp [Literal.escapeQuotes, stringBody]
  | @char c cs hslash hline _ ih =>
    rw [escapeQuotes_cons]
    split
    · rename_i hc
      subst hc
      simp [stringBody, ih]
    · rename_i hc
      rw [List.append_assoc, List.singleton_append, stringBody_cons hc hline hslash, ih]
      rfl
  | @escape cs _ _ _ ih =>
    have htext : Literal.escapeQuotes ('\\' :: 'u' :: cs) =
        '\\' :: 'u' :: Literal.escapeQuotes cs := rfl
    rw [htext, List.cons_append, List.cons_append, stringBody_pair (by decide) (by decide), ih]

/-- Between the quotes stands what is meant. -/
theorem MeansItself.unescape_eq {cs : List Char} (h : MeansItself cs) :
    unescape (Literal.escapeQuotes cs) = cs := by
  induction h with
  | nil => simp [Literal.escapeQuotes, unescape]
  | @char c cs hslash _ _ ih =>
    rw [escapeQuotes_cons]
    split
    · rename_i hc
      subst hc
      simp [unescape, escapedChar, ih]
    · rw [List.singleton_append, unescape_cons hslash, ih]
  | @escape cs hbrace hnone _ ih =>
    have htext : Literal.escapeQuotes ('\\' :: 'u' :: cs) =
        '\\' :: 'u' :: Literal.escapeQuotes cs := rfl
    rw [htext, unescape_unicode_eq_self (mt head?_escapeQuotes_eq_iff.mp hbrace) ?_, ih]
    rw [unicodeDigits_escapeQuotes hbrace, hnone]

/-- No quote is a backslash. -/
theorem backslash_ne_of_quote {c : Char} (hc : c = '"' ∨ c = '\'') : '\\' ≠ c := by
  rcases hc with rfl | rfl <;> decide

/-- A quote starts a string, which is one token if it has an end. -/
theorem scan_of_quote {c : Char} (hc : c = '"' ∨ c = '\'') (rest : List Char) :
    scan c rest = if (stringBody c rest).2 then
        (.token (.string (String.ofList (unescape (stringBody c rest).1))),
          (stringBody c rest).1.length + 1)
      else (.fault .unterminatedString, (stringBody c rest).1.length) := by
  have hplain : isBlank c = false ∧ c ≠ '/' ∧ isIdentifierStart c = false ∧ c.isDigit = false ∧
      c ≠ '.' := by
    rcases hc with rfl | rfl <;> decide
  rcases hbody : stringBody c rest with ⟨body, _ | _⟩ <;> simp [scan, hplain, hc, hbody]

/-- A string that means itself is one token. -/
theorem spells_string {value : String} (h : MeansItself value.toList) :
    Spells (Literal.string value).text [.string value] := by
  intro rest _
  have hscan : scan '\'' (Literal.escapeQuotes value.toList ++ '\'' :: rest) =
      (.token (.string value), (Literal.escapeQuotes value.toList).length + 1) := by
    rw [scan_of_quote (Or.inr rfl), h.stringBody_eq, if_pos rfl, h.unescape_eq,
      String.ofList_toList]
  have htext : (Literal.string value).text.toList ++ rest =
      '\'' :: (Literal.escapeQuotes value.toList ++ '\'' :: rest) := by
    simp [Literal.text]
  rw [htext, lexemes_of_scan hscan]
  simp

/-! ## Numbers -/

/-- A delimiter ends a number literal. -/
theorem Delimited.endsNumeral {rest : List Char} (h : Delimited rest) : EndsNumeral rest := by
  intro c hc
  refine ⟨not_isIdentifierPart_of_isDelimiter (h c hc), ?_⟩
  rintro rfl
  exact absurd (h '.' hc) (by decide)

/-- A digit starts a number literal. -/
theorem scan_of_isDigit {c : Char} (hc : c.isDigit) (rest : List Char) :
    scan c rest = (numeralLexeme ((c :: rest).take (scanNumeral (c :: rest)).2)
      (scanNumeral (c :: rest)).1, (scanNumeral (c :: rest)).2 - 1) := by
  have hplain : isBlank c = false ∧ c ≠ '/' ∧ isIdentifierStart c = false :=
    forall_isDigit (p := fun c => isBlank c = false ∧ c ≠ '/' ∧ isIdentifierStart c = false)
      (by decide) hc
  simp [scan, hplain, hc]

/-- Digits that are scanned as a whole are one token. -/
theorem lexemes_of_scanNumeral {ds rest : List Char} {numeral : Numeral} {t : Token}
    (hds : ∃ d ds', ds = d :: ds' ∧ d.isDigit)
    (hnumeral : scanNumeral (ds ++ rest) = (numeral, ds.length))
    (ht : ∀ cs, numeralLexeme cs numeral = .token t) :
    lexemes (ds ++ rest) = .token t :: lexemes rest := by
  obtain ⟨d, ds, rfl, hd⟩ := hds
  rw [List.cons_append] at hnumeral ⊢
  have hscan : scan d (ds ++ rest) = (.token t, ds.length) := by
    rw [scan_of_isDigit hd, hnumeral, ht, List.length_cons, Nat.add_sub_cancel]
  rw [lexemes_of_scan hscan, List.drop_left]

/-- Positional digits are one token. -/
theorem spells_positional {ps : List Char} {y : Binary64} (hps : IsPositional ps)
    (hy : Binary64.unsignedOfChars? ps = some y) : Spells (String.ofList ps) [.number y] := by
  intro rest hrest
  have hnumeral : scanNumeral (ps ++ rest) = (.number y, ps.length) := by
    rw [scanNumeral_of_isPositional hps hrest.endsNumeral, decimalValue_of_isPositional hps hy]
  rw [String.toList_ofList]
  exact lexemes_of_scanNumeral (exists_digit_cons hps) hnumeral fun _ => rfl

/-- Digits and an `n` are one token. -/
theorem closed_bigint {d : Char} {ds : List Char} (hds : ∀ c ∈ d :: ds, c.isDigit) :
    Closed (String.ofList (d :: ds) ++ "n") [.bigint (String.ofList (d :: ds))] := by
  intro rest _
  have htext : (String.ofList (d :: ds) ++ "n").toList = (d :: ds) ++ ['n'] := by simp
  have hnumeral : scanNumeral (d :: ds ++ ['n'] ++ rest) =
      (.bigint (String.ofList (d :: ds)), (d :: ds ++ ['n']).length) := by
    rw [List.append_assoc, List.singleton_append, scanNumeral_bigint (by simp) hds,
      List.length_append, List.length_singleton]
  rw [htext]
  exact lexemes_of_scanNumeral ⟨d, ds ++ ['n'], rfl, hds d List.mem_cons_self⟩ hnumeral
    fun _ => rfl

/-- A minus sign is a token, whatever follows. -/
theorem closed_minus : Closed "-" [.punctuation .minus] := closed_of_marks (by decide) rfl

/-! ## Literals -/

/-- The tokens of a literal. Numbers and bigints below zero are two tokens. -/
def Literal.tokens : Literal → List Token
  | number x => if x.negative then [.punctuation .minus, .number x.neg] else [.number x]
  | string value => [.string value]
  | bigint digits =>
    match splitSign digits.toList with
    | (true, ds) => [.punctuation .minus, .bigint (String.ofList ds)]
    | (false, _) => [.bigint digits]
  | boolean b => [.identifier (if b then "true" else "false")]

/-- A finite number that its text denotes is spelled by it. -/
theorem spells_number {x : Binary64} (hnan : x.isNaN = false) (hinf : x.isInfinite = false)
    (h : Binary64.ofText? x.text = some x) :
    Spells (Literal.number x).text (Literal.number x).tokens := by
  obtain ⟨ps, hps, htext⟩ := exists_positional hnan hinf
  have hspells := spells_positional hps (unsignedOfChars?_of_ofText? hps htext h)
  have hofList : x.text = (if x.negative then "-" else "") ++ String.ofList ps := by
    rw [← String.toList_inj, htext, String.toList_append, String.toList_ofList]
    split <;> rfl
  rw [Literal.text, Literal.tokens, hofList]
  cases hsign : x.negative with
  | true => simpa [hsign] using closed_minus.append hspells
  | false => simpa [hsign] using hspells

/-- A bigint in its one written form is spelled by it. -/
theorem closed_bigintLiteral {digits : String} (h : IsCanonicalBigint digits) :
    Closed (Literal.bigint digits).text (Literal.bigint digits).tokens := by
  rcases h with rfl | ⟨d, ds, _, hds, rfl | rfl⟩
  · have hzero : ∀ c ∈ ['0'], c.isDigit := by simp
    exact closed_bigint hzero
  · have hds := List.all_eq_true.mp hds
    have hsplit := splitSign_of_digits hds
    simpa [Literal.text, Literal.tokens, hsplit] using closed_bigint hds
  · have hds := List.all_eq_true.mp hds
    have hofList : String.ofList ('-' :: d :: ds) = "-" ++ String.ofList (d :: ds) := by
      simp
    have hclosed := closed_minus.append (closed_bigint hds)
    rw [Literal.text, Literal.tokens, String.toList_ofList, splitSign, hofList,
      String.append_assoc]
    exact hclosed

/-! ## Tokens -/

/-- Locating pieces does not change them. -/
theorem map_piece_locate (p : Position) (ps : List Piece) :
    (locate p ps).map LocatedPiece.piece = ps := by
  induction ps generalizing p with
  | nil => rfl
  | cons piece ps ih => simp [locate, ih]

/-- Pieces whose lexemes are tokens have no errors, and those tokens. -/
theorem token?_of_lexemes {located : List LocatedPiece}
    (h : ((located.map LocatedPiece.piece).map Piece.lexeme).filter (· ≠ .blank) =
      ts.map .token) :
    located.filterMap LocatedPiece.error? = [] ∧
      (located.filterMap LocatedPiece.token?).map LocatedToken.token = ts := by
  -- by induction on the pieces: a blank adds nothing, a token adds itself
  induction located generalizing ts with
  | nil =>
    obtain rfl : ts = [] := by simpa using h
    exact ⟨rfl, rfl⟩
  | cons p located ih =>
    rw [List.map_cons, List.map_cons] at h
    cases hp : p.piece.lexeme with
    | blank =>
      have h' := ih (by simpa [hp] using h)
      simpa [LocatedPiece.error?, LocatedPiece.token?, hp] using h'
    | token t =>
      cases ts with
      | nil => simp [hp] at h
      | cons u ts =>
        simp only [hp, List.map_cons, ne_eq, reduceCtorEq, not_false_eq_true, decide_true,
          List.filter_cons_of_pos, List.cons.injEq, Lexeme.token.injEq] at h
        have h' := ih h.2
        simpa [LocatedPiece.error?, LocatedPiece.token?, hp, h.1] using h'
    | fault f => cases ts <;> simp [hp] at h

/-- The tokens of a text that is cut into some, and the end behind them. -/
theorem tokenize_of_lexemes (h : lexemes text.toList = ts.map .token) :
    ∃ located, tokenize text = .ok located ∧
      located.map LocatedToken.token = ts ++ [.eof] := by
  have hpieces : (((locatedPieces text).map LocatedPiece.piece).map Piece.lexeme).filter
      (· ≠ .blank) = ts.map .token := by
    rw [locatedPieces, map_piece_locate]
    exact h
  have hlocated := token?_of_lexemes hpieces
  refine ⟨(locatedPieces text).filterMap LocatedPiece.token? ++ [⟨.eof, endSpan text⟩], ?_, ?_⟩
  · rw [tokenize, hlocated.1]
  · rw [List.map_append, hlocated.2]
    rfl

/-- The tokens of a text that spells some, and the end behind them. -/
theorem tokenize_of_spells (h : Spells text ts) :
    ∃ located, tokenize text = .ok located ∧
      located.map LocatedToken.token = ts ++ [.eof] :=
  tokenize_of_lexemes (by simpa using h [] (by simp [Delimited]))

end TypeAssay
