import TypeAssay.Proofs.Constituents
import TypeAssay.Report.Source

/-!
# Places in a text

A span that comes with a token, an expression or an error has both its ends between two characters
of the text, and its line and column are those of its start (`Span.IsIn`): the pieces of a text are
like that, and merging keeps it. A source file that is asked for the place of an offset cuts the
text into lines and looks for the one with the offset. It finds the line and the column that are
counted from the start of the text (`SourceFile.location_eq`).
-/

namespace TypeAssay

/-! ## Spans with their ends in a text -/

/-- Both ends of the span are between characters of the text, or at its ends, and its line and its
column are those of its start. -/
structure Span.IsIn (s : Span) (cs : List Char) : Prop where
  start : ∃ before, before <+: cs ∧ (⟨s.start, s.line, s.column⟩ : Position) = .behind before
  stop : ∃ upto, upto <+: cs ∧ s.stop = byteLength upto

namespace Span.IsIn

variable {s t : Span} {cs before text : List Char} {ts : List LocatedToken}

/-- What stands in a text spans a part of it. -/
theorem behind (h : before ++ text <+: cs) : (Span.behind before text).IsIn cs where
  start := ⟨before, (List.prefix_append _ _).trans h, rfl⟩
  stop := ⟨before ++ text, h, (byteLength_append _ _).symm⟩

/-- A span that starts and stops where others do has its ends in their text. -/
theorem of_isAmong (h : s.IsAmong ts) (hts : ∀ t ∈ ts, t.span.IsIn cs) : s.IsIn cs := by
  constructor
  · obtain ⟨t, ht, hstart, hline, hcolumn⟩ := h.start
    rw [hstart, hline, hcolumn]
    exact (hts t ht).start
  · obtain ⟨t, ht, hstop⟩ := h.stop
    rw [hstop]
    exact (hts t ht).stop

end Span.IsIn

section

variable {source : String} {tokens : List LocatedToken}

/-- The pieces of a text stand in it. -/
theorem isIn_of_locatedPieces {x : LocatedPiece} (hx : x ∈ locatedPieces source) :
    x.span.IsIn source.toList := by
  obtain ⟨before, after, hsplit⟩ := List.append_of_mem hx
  rw [span_of_locatedPieces hsplit, toList_of_locatedPieces hsplit, ← List.append_assoc]
  exact .behind (List.prefix_append _ _)

/-- The tokens of a text stand in it, also the one that marks its end. -/
theorem isIn_of_tokenize (h : tokenize source = .ok tokens) :
    ∀ t ∈ tokens, t.span.IsIn source.toList := by
  rw [tokenize_eq h]
  refine List.forall_mem_append.mpr ⟨fun t ht => ?_, List.forall_mem_singleton.mpr ?_⟩
  · obtain ⟨x, hx, htoken⟩ := List.mem_filterMap.mp ht
    rw [token?_span htoken]
    exact isIn_of_locatedPieces hx
  · rw [endSpan_eq]
    exact .behind (List.append_nil _ ▸ List.prefix_refl _)

/-- What is read from tokens of a text stands in it. -/
theorem DerivesWithin.isIn {e : TypeExpr} (h : DerivesWithin tokens e)
    (htokens : tokenize source = .ok tokens) : e.span.IsIn source.toList := by
  obtain ⟨ts, hts, hderives⟩ := h
  exact .of_isAmong ((hderives.isAmong e rfl).mono hts.subset) (isIn_of_tokenize htokens)

end

/-! ## Lines of a file -/

section

variable {before after line rest : List Char} {start offset : Nat} {l l' : SourceLine}
  {ls : List SourceLine}

/-- A text without the character is not split. -/
theorem splitOnChar_of_notMem {c : Char} {cs : List Char} (h : c ∉ cs) :
    splitOnChar c cs = [cs] := by
  induction cs with
  | nil => rfl
  | cons d cs ih =>
    obtain ⟨hne, hcs⟩ := List.ne_and_not_mem_of_not_mem_cons h
    rw [splitOnChar, if_neg hne.symm, ih hcs]

/-- The first part goes up to the character. -/
theorem splitOnChar_append {c : Char} (h : c ∉ line) :
    splitOnChar c (line ++ c :: rest) = line :: splitOnChar c rest := by
  induction line with
  | nil => rw [List.nil_append, splitOnChar, if_pos rfl]
  | cons d line ih =>
    obtain ⟨hne, hline⟩ := List.ne_and_not_mem_of_not_mem_cons h
    rw [List.cons_append, splitOnChar, if_neg hne.symm, ih hline]

/-- There is always a line, and the first one starts where the lines start. -/
theorem exists_linesFrom (start : Nat) (c : Char) (cs : List Char) :
    ∃ l ls, linesFrom start (splitOnChar c cs) = l :: ls ∧ l.start = start := by
  have hne : splitOnChar c cs ≠ [] := by
    cases cs with
    | nil => simp [splitOnChar]
    | cons d cs =>
      rw [splitOnChar]
      split
      · simp
      · split <;> simp
  obtain ⟨line, lines, hlines⟩ := List.exists_cons_of_ne_nil hne
  rw [hlines]
  cases lines with
  | nil => exact ⟨_, _, rfl, rfl⟩
  | cons line' lines => exact ⟨_, _, rfl, rfl⟩

/-- The first line ends with the line break. -/
theorem linesFrom_append (start : Nat) (h : '\n' ∉ line) :
    linesFrom start (splitOnChar '\n' (line ++ '\n' :: rest)) =
      ⟨start, line ++ ['\n']⟩ ::
        linesFrom (start + byteLength line + 1) (splitOnChar '\n' rest) := by
  rw [splitOnChar_append h]
  obtain ⟨_, _, hrest, -⟩ := exists_linesFrom (start + byteLength line + 1) '\n' rest
  cases hsplit : splitOnChar '\n' rest with
  | nil => simp [hsplit, linesFrom] at hrest
  | cons line' lines => rfl

/-- Characters without a newline are in the first line, and the next one starts behind them. -/
theorem exists_firstLine (start : Nat) (after : List Char) (h : '\n' ∉ before) : ∃ text ls,
    linesFrom start (splitOnChar '\n' (before ++ after)) = ⟨start, before ++ text⟩ :: ls ∧
      ∀ l ∈ ls.head?, start + byteLength before < l.start := by
  by_cases hafter : '\n' ∈ after
  · obtain ⟨line, rest, rfl, hline⟩ := List.eq_append_cons_of_mem hafter
    have hfirst : '\n' ∉ before ++ line := by simp [h, hline]
    obtain ⟨l, ls, hlines, hl⟩ :=
      exists_linesFrom (start + byteLength (before ++ line) + 1) '\n' rest
    rw [← List.append_assoc, linesFrom_append start hfirst, hlines, List.append_assoc]
    refine ⟨_, _, rfl, fun l' hl' => ?_⟩
    obtain rfl := Option.some.inj hl'
    rw [hl, byteLength_append]
    omega
  · rw [splitOnChar_of_notMem (by simp [h, hafter])]
    exact ⟨after, [], rfl, by simp⟩

/-- Up to the end of the first part there are its characters. -/
theorem charsWithin_append (cs ds : List Char) : charsWithin (cs ++ ds) (byteLength cs) =
    cs.length := by
  induction cs with
  | nil =>
    cases ds with
    | nil => rfl
    | cons d ds =>
      have hpos := d.utf8Size_pos
      rw [List.nil_append, charsWithin, if_neg (by rw [byteLength_nil]; omega)]
      rfl
  | cons c cs ih =>
    rw [List.cons_append, charsWithin, byteLength_cons, if_pos (Nat.le_add_right _ _),
      Nat.add_sub_cancel_left, ih, List.length_cons]

/-- An offset before the second line is on the first one. -/
theorem locationIn_first (hstart : l.start ≤ offset) (hnext : ∀ l' ∈ ls.head?, offset < l'.start) :
    locationIn (l :: ls) offset = ⟨1, charsWithin l.text (offset - l.start) + 1⟩ := by
  have hindex : lineIndex (l :: ls) offset = 0 := by
    rw [lineIndex, List.takeWhile_cons_of_pos (by simpa using hstart)]
    cases ls with
    | nil => rfl
    | cons l' ls => rw [List.takeWhile_cons_of_neg (by simpa using hnext l' rfl)]; rfl
  simp [locationIn, hindex, lineAt]

/-- An offset behind the start of the second line is found among the lines from there on. -/
theorem locationIn_later (hstart : l.start ≤ offset) (hnext : l'.start ≤ offset) :
    locationIn (l :: l' :: ls) offset =
      { locationIn (l' :: ls) offset with line := (locationIn (l' :: ls) offset).line + 1 } := by
  have hindex : lineIndex (l :: l' :: ls) offset = lineIndex (l' :: ls) offset + 1 := by
    rw [lineIndex, lineIndex, List.takeWhile_cons_of_pos (by simpa using hstart),
      List.takeWhile_cons_of_pos (by simpa using hnext)]
    rfl
  simp [locationIn, hindex, lineAt]

/-- Behind a newline the columns are counted from there. -/
theorem Position.behind_nextLine (before : List Char) (h : '\n' ∉ line) :
    (behind (line ++ '\n' :: before)).line = (behind before).line + 1 ∧
      (behind (line ++ '\n' :: before)).column = (behind before).column := by
  constructor
  · simp [behind, List.count_eq_zero.mpr h]
  · simp only [behind, List.reverse_append, List.reverse_cons, List.append_assoc,
      List.takeWhile_append]
    split <;> simp_all

/-- The place of a point of a text is its line and its column. -/
theorem locationIn_behind (start : Nat) (before after : List Char) :
    locationIn (linesFrom start (splitOnChar '\n' (before ++ after))) (start + byteLength before) =
      ⟨(Position.behind before).line, (Position.behind before).column⟩ := by
  -- by induction on the text before the point, which gets shorter with each line
  induction hlength : before.length using Nat.strong_induction_on generalizing start before with
  | _ n ih =>
    subst hlength
    by_cases hbefore : '\n' ∈ before
    · -- the first line ends before the point: the search goes on behind it
      obtain ⟨line, before, rfl, hline⟩ := List.eq_append_cons_of_mem hbefore
      have hshorter : before.length < (line ++ '\n' :: before).length := by
        simp only [List.length_append, List.length_cons]
        omega
      have hrest := ih _ hshorter (start + byteLength line + 1) before rfl
      obtain ⟨l, ls, hlines, hl⟩ :=
        exists_linesFrom (start + byteLength line + 1) '\n' (before ++ after)
      have hoffset : start + byteLength (line ++ '\n' :: before) =
          start + byteLength line + 1 + byteLength before := by
        rw [byteLength_append, byteLength_cons, show '\n'.utf8Size = 1 from rfl]
        omega
      obtain ⟨hcount, hcolumn⟩ := Position.behind_nextLine before hline
      rw [List.append_assoc, List.cons_append, linesFrom_append start hline, hlines, hoffset,
        locationIn_later (by simp only; omega) (by omega), ← hlines, hrest, hcount, hcolumn]
    · -- the first line goes on at least to the point
      obtain ⟨text, ls, hlines, hnext⟩ := exists_firstLine start after hbefore
      rw [hlines, locationIn_first (Nat.le_add_right _ _) hnext]
      simp only [Nat.add_sub_cancel_left, charsWithin_append]
      rw [Position.behind, List.count_eq_zero.mpr hbefore, List.takeWhile_eq_self_iff.mpr,
        List.length_reverse]
      intro c hc
      have hne : c ≠ '\n' := ne_of_mem_of_not_mem (List.mem_reverse.mp hc) hbefore
      simpa using hne

end

/-- Where an offset of a file is, in lines and columns. -/
theorem SourceFile.location_eq (name : String) {source : String} {before : List Char}
    (h : before <+: source.toList) :
    (SourceFile.mk name source).location (byteLength before) =
      ⟨(Position.behind before).line, (Position.behind before).column⟩ := by
  obtain ⟨after, hafter⟩ := h
  have hlocation := locationIn_behind 0 before after
  rw [hafter, Nat.zero_add] at hlocation
  exact hlocation

end TypeAssay
