import Mathlib.Data.List.GetD
import TypeAssay.Text.Bisect
import TypeAssay.Proofs.Lexemes
import TypeAssay.Proofs.Progress

/-!
# Where the pieces of a text stand

The pieces of a text are its tokens, its faults and what is skipped between them. Each of them
stands at the characters that it was cut from. The line of a place is counted by the newlines before
it and its column by the characters behind the last of these, which is also what a search among the
line starts gives (`Position.find_behind`).

* `isLexed_of_pieces` : each piece follows the rules of the lexer.
* `tokenize_exact` : the pieces of a text, their places, and the answer for the text.
-/

namespace TypeAssay

/-! ## Points of a text -/

namespace Position

/-- The point behind some characters. Its line is one more than their newlines, its column one more
than the characters behind the last newline. -/
def behind (cs : List Char) : Position :=
  { offset := byteLength cs
    line := cs.count '\n' + 1
    column := (cs.reverse.takeWhile (· ≠ '\n')).length + 1 }

/-- One step from the point behind a text. -/
theorem step_behind (cs : List Char) (c : Char) : (behind cs).step c = behind (cs ++ [c]) := by
  by_cases hc : c = '\n'
  · simp [behind, step, hc]
  · simp [behind, step, hc]

/-- All steps from the point behind a text. -/
theorem advance_behind (cs ds : List Char) : (behind cs).advance ds = behind (cs ++ ds) := by
  induction ds generalizing cs with
  | nil => simp
  | cons d ds ih =>
    show ((behind cs).step d).advance ds = _
    rw [step_behind, ih, List.append_assoc, List.singleton_append]

end Position

/-! ## Searching for the line -/

section

variable {α : Type} {cmp : α → Ordering}

/-- Where the greater elements come last, an element is greater if it is not among the others. -/
theorem cmp_getD_append_eq_gt {lows highs : List α} {k : Nat} (x : α)
    (hlow : ∀ x ∈ lows, cmp x ≠ .gt) (hhigh : ∀ x ∈ highs, cmp x = .gt)
    (hk : k < (lows ++ highs).length) :
    cmp ((lows ++ highs).getD k x) = .gt ↔ lows.length ≤ k := by
  rw [List.getD_eq_getElem _ _ hk]
  rcases Nat.lt_or_ge k lows.length with hlt | hge
  · rw [List.getElem_append_left hlt]
    have hmiddle := hlow _ (List.getElem_mem hlt)
    exact ⟨fun h => absurd h hmiddle, fun h => absurd hlt (Nat.not_lt.mpr h)⟩
  · rw [List.getElem_append_right hge]
    exact ⟨fun _ => hge, fun _ => hhigh _ (List.getElem_mem _)⟩

/-- In a list where the greater elements come last, the search ends at the last of the others. -/
theorem bisectFrom_append (base : Nat) {lows highs : List α} (hne : lows ≠ [])
    (hlow : ∀ x ∈ lows, cmp x ≠ .gt) (hhigh : ∀ x ∈ highs, cmp x = .gt) :
    ∃ o, bisectFrom cmp base (lows ++ highs) = some (base + (lows.length - 1), o) ∧ o ≠ .gt := by
  generalize hxs : lows ++ highs = xs
  -- by the recursion of the search: both halves are split into low and high elements again
  fun_induction bisectFrom cmp base xs generalizing lows highs with
  | case1 => exact absurd (List.append_eq_nil_iff.mp hxs).1 hne
  | case2 base x =>
    obtain ⟨rfl, rfl⟩ : lows = [x] ∧ highs = [] := by
      simpa [List.append_eq_singleton_iff, hne] using hxs
    exact ⟨cmp x, rfl, hlow x List.mem_cons_self⟩
  | case3 base x y rest half hgt =>
    rename_i ih
    have hlength : (lows ++ highs).length = rest.length + 2 := by
      rw [hxs]
      rfl
    -- the element in the middle is greater: the search goes on in front of it
    have hhalf : lows.length ≤ half := by
      rw [← hxs] at hgt
      exact (cmp_getD_append_eq_gt x hlow hhigh (by omega)).mp hgt
    have htake : lows ++ highs.take (rest.length + 2 - half - lows.length) =
        (x :: y :: rest).take (rest.length + 2 - half) := by
      have hlows : lows.take (rest.length + 2 - half) = lows := List.take_of_length_le (by omega)
      rw [← hxs, List.take_append, hlows]
    exact ih hne hlow (fun z hz => hhigh z (List.mem_of_mem_take hz)) htake
  | case4 base x y rest half hle =>
    rename_i ih
    have hlength : (lows ++ highs).length = rest.length + 2 := by
      rw [hxs]
      rfl
    -- it is not: the search goes on from it
    have hhalf : half < lows.length := by
      rw [← hxs, cmp_getD_append_eq_gt x hlow hhigh (by omega)] at hle
      exact Nat.not_le.mp hle
    have hdrop : lows.drop half ++ highs = (x :: y :: rest).drop half := by
      rw [← hxs, List.drop_append_of_le_length (Nat.le_of_lt hhalf)]
    have hne' : lows.drop half ≠ [] := by
      rw [ne_eq, List.drop_eq_nil_iff]
      omega
    obtain ⟨o, hon, ho⟩ := ih hne' (fun z hz => hlow z (List.mem_of_mem_drop hz)) hhigh hdrop
    have hindex : base + half + ((lows.drop half).length - 1) = base + (lows.length - 1) := by
      rw [List.length_drop]
      omega
    exact ⟨o, by rw [hon, hindex], ho⟩

end

/-- The offsets of the lines that start behind the newlines of a text, from an offset on. -/
def laterLineStarts (offset : Nat) : List Char → List Nat
  | [] => []
  | c :: cs =>
    let next := offset + c.utf8Size
    if c = '\n' then next :: laterLineStarts next cs else laterLineStarts next cs

/-- The offsets at which the lines of a text start. -/
def lineStarts (cs : List Char) : List Nat := 0 :: laterLineStarts 0 cs

/-- The index of the last line that does not start behind an offset. -/
def lineOfOffset (starts : List Nat) (offset : Nat) : Nat :=
  match bisectFrom (compare · offset) 0 starts with
  | some (i, .gt) => i - 1
  | some (i, _) => i
  | none => 0

/-- The point of a text at an offset, by a search for its line. -/
def Position.find (cs : List Char) (offset : Nat) : Position :=
  let starts := lineStarts cs
  let index := lineOfOffset starts offset
  let start := starts.getD index 0
  { offset
    line := index + 1
    column := (takeBytes (dropBytes cs start) (offset - start)).length + 1 }

section

variable {offset : Nat} {cs ds : List Char}

/-- The lines of the first part start first. -/
theorem laterLineStarts_append (offset : Nat) (cs ds : List Char) :
    laterLineStarts offset (cs ++ ds) =
      laterLineStarts offset cs ++ laterLineStarts (offset + byteLength cs) ds := by
  induction cs generalizing offset with
  | nil => simp [laterLineStarts]
  | cons c cs ih =>
    simp only [List.cons_append, laterLineStarts, ih, byteLength_cons, Nat.add_assoc]
    split <;> rfl

/-- There is a line for each line break. -/
theorem length_laterLineStarts (offset : Nat) (cs : List Char) :
    (laterLineStarts offset cs).length = cs.count '\n' := by
  induction cs generalizing offset with
  | nil => rfl
  | cons c cs ih =>
    simp only [laterLineStarts]
    split
    · rename_i hc
      rw [List.length_cons, ih, hc, List.count_cons_self]
    · rename_i hc
      rw [ih, List.count_cons_of_ne hc]

/-- A later line starts within the text, behind its start. -/
theorem lt_of_mem_laterLineStarts {start : Nat} (h : start ∈ laterLineStarts offset cs) :
    offset < start ∧ start ≤ offset + byteLength cs := by
  induction cs generalizing offset with
  | nil => exact absurd h List.not_mem_nil
  | cons c cs ih =>
    have hpos := c.utf8Size_pos
    rw [byteLength_cons]
    simp only [laterLineStarts] at h
    split at h
    · rcases List.mem_cons.mp h with rfl | h
      · omega
      · have := ih h
        omega
    · have := ih h
      omega

/-- The line of a point is found among the starts of the lines. -/
theorem lineOfOffset_lineStarts (cs ds : List Char) :
    lineOfOffset (lineStarts (cs ++ ds)) (byteLength cs) = cs.count '\n' := by
  -- the lines up to the place start no later than it does, the others start behind it
  have hlow : ∀ start ∈ lineStarts cs, compare start (byteLength cs) ≠ .gt := by
    intro start hstart
    rw [Nat.compare_ne_gt]
    rcases List.mem_cons.mp hstart with rfl | hstart
    · exact Nat.zero_le _
    · have := lt_of_mem_laterLineStarts hstart
      omega
  have hhigh : ∀ start ∈ laterLineStarts (0 + byteLength cs) ds,
      compare start (byteLength cs) = .gt := by
    intro start hstart
    rw [Nat.compare_eq_gt]
    have := lt_of_mem_laterLineStarts hstart
    omega
  obtain ⟨o, hon, ho⟩ := bisectFrom_append 0 (List.cons_ne_nil 0 (laterLineStarts 0 cs)) hlow hhigh
  have hstarts : lineStarts (cs ++ ds) =
      lineStarts cs ++ laterLineStarts (0 + byteLength cs) ds := by
    rw [lineStarts, laterLineStarts_append]
    rfl
  rw [lineOfOffset, hstarts]
  rw [lineStarts, hon, List.length_cons, length_laterLineStarts]
  cases o with
  | gt => exact absurd rfl ho
  | lt | eq => simp

/-- A text is what ends with its last newline, and the rest of it, where the last line starts. -/
theorem exists_lastLine (cs : List Char) : ∃ front last, cs = front ++ last ∧
    last.length = (cs.reverse.takeWhile (· ≠ '\n')).length ∧
    (lineStarts cs).getD (cs.count '\n') 0 = byteLength front := by
  -- by induction from the end, since the last character decides where the last line starts
  induction cs using List.reverseRecOn with
  | nil => exact ⟨[], [], rfl, rfl, rfl⟩
  | append_singleton cs c ih =>
    obtain ⟨front, last, hcs, hlast, hstart⟩ := ih
    have hlength : (lineStarts cs).length = cs.count '\n' + 1 := by
      rw [lineStarts, List.length_cons, length_laterLineStarts]
    have hstarts : lineStarts (cs ++ [c]) =
        lineStarts cs ++ laterLineStarts (0 + byteLength cs) [c] := by
      rw [lineStarts, laterLineStarts_append]
      rfl
    -- a line break starts an empty line, any other character goes on with the last one
    by_cases hc : c = '\n'
    · refine ⟨cs ++ [c], [], (List.append_nil _).symm, by simp [hc], ?_⟩
      have hcount : (cs ++ [c]).count '\n' = cs.count '\n' + 1 := by simp [hc]
      rw [hstarts, hcount, List.getD_append_right _ _ _ _ (by omega), hlength]
      simp [laterLineStarts, hc]
    · refine ⟨front, last ++ [c], by rw [hcs, List.append_assoc], by simp [hc, hlast], ?_⟩
      have hcount : (cs ++ [c]).count '\n' = cs.count '\n' := by simp [hc]
      rw [hstarts, hcount, List.getD_append _ _ _ _ (by omega), hstart]

/-- The search finds the point behind the characters in front of the offset. -/
theorem Position.find_behind (cs ds : List Char) :
    Position.find (cs ++ ds) (byteLength cs) = Position.behind cs := by
  obtain ⟨front, last, hcs, hlast, hstart⟩ := exists_lastLine cs
  have hstart' : (lineStarts (cs ++ ds)).getD (cs.count '\n') 0 = byteLength front := by
    rw [lineStarts, laterLineStarts_append, ← List.cons_append,
      List.getD_append _ _ _ _ (by rw [List.length_cons, length_laterLineStarts]; omega)]
    exact hstart
  have htext : takeBytes (dropBytes (cs ++ ds) (byteLength front))
      (byteLength cs - byteLength front) = last := by
    rw [hcs, List.append_assoc, dropBytes_append, byteLength_append, Nat.add_sub_cancel_left,
      takeBytes_append]
  rw [find, behind]
  simp only [lineOfOffset_lineStarts, hstart', htext, hlast]

end

/-! ## Pieces -/

/-- Each piece of a text follows the rules of the lexer, in front of those behind it. -/
theorem isLexed_of_pieces {cs : List Char} {before after : List Piece} {p : Piece}
    (h : pieces cs = before ++ p :: after) :
    IsLexed p.text p.lexeme (after.flatMap Piece.text) := by
  induction before generalizing cs with
  | nil =>
    cases cs with
    | nil => simp [pieces] at h
    | cons c rest =>
      rw [pieces_cons] at h
      obtain ⟨rfl, rfl⟩ := List.cons.inj h
      rw [flatMap_text_pieces]
      exact isLexed_of_scan c rest
  | cons q before ih =>
    cases cs with
    | nil => simp [pieces] at h
    | cons c rest =>
      rw [pieces_cons] at h
      exact ih (List.cons.inj h).2

/-! ## Places -/

/-- The span of some characters that stand behind others. -/
def Span.behind (before text : List Char) : Span :=
  { start := byteLength before
    stop := byteLength before + byteLength text
    line := before.count '\n' + 1
    column := (before.reverse.takeWhile (· ≠ '\n')).length + 1 }

section

variable {before after : List LocatedPiece} {x : LocatedPiece} {source : String}

/-- What is taken behind a text spans its own place. -/
theorem spanOver_behind (cs text : List Char) :
    (Position.behind cs).spanOver text = Span.behind cs text := by
  rw [Position.spanOver, Position.offset_advance]
  rfl

/-- The pieces of some located pieces, put together again. -/
def textOf (xs : List LocatedPiece) : List Char := xs.flatMap fun x => x.piece.text

/-- A piece stands behind those in front of it. -/
theorem span_of_locate {cs : List Char} {ps : List Piece}
    (h : locate (.behind cs) ps = before ++ x :: after) :
    x.span = .behind (cs ++ textOf before) x.piece.text := by
  -- by induction on the pieces before, each of which moves the place on
  induction before generalizing cs ps with
  | nil =>
    cases ps with
    | nil => simp [locate] at h
    | cons p ps =>
      obtain ⟨rfl, -⟩ := List.cons.inj h
      rw [textOf, List.flatMap_nil, List.append_nil]
      exact spanOver_behind cs p.text
  | cons y before ih =>
    cases ps with
    | nil => simp [locate] at h
    | cons p ps =>
      rw [locate, Position.advance_behind] at h
      obtain ⟨rfl, htail⟩ := List.cons.inj h
      rw [ih htail, List.append_assoc]
      rfl

/-- The pieces are those of the text. -/
theorem map_piece_locatedPieces (source : String) :
    (locatedPieces source).map LocatedPiece.piece = pieces source.toList :=
  map_piece_locate _ _

/-- All pieces together are the text. -/
theorem textOf_locatedPieces (source : String) : textOf (locatedPieces source) = source.toList := by
  rw [← flatMap_text_pieces source.toList, ← map_piece_locatedPieces, List.flatMap_map]
  rfl

/-- A piece spans its place in the text. -/
theorem span_of_locatedPieces (h : locatedPieces source = before ++ x :: after) :
    x.span = .behind (textOf before) x.piece.text := by
  have hlocate : locate (.behind []) (pieces source.toList) = before ++ x :: after := h
  exact span_of_locate hlocate

/-- A text is what stands in front of a piece, the piece, and what stands behind it. -/
theorem toList_of_locatedPieces (h : locatedPieces source = before ++ x :: after) :
    source.toList = textOf before ++ (x.piece.text ++ textOf after) := by
  rw [← textOf_locatedPieces, h, textOf, List.flatMap_append, List.flatMap_cons]
  rfl

/-- No piece is empty. -/
theorem text_ne_nil_of_mem_locatedPieces (hx : x ∈ locatedPieces source) : x.piece.text ≠ [] := by
  have hpiece := List.mem_map_of_mem (f := LocatedPiece.piece) hx
  rw [map_piece_locatedPieces] at hpiece
  exact text_ne_nil_of_mem_pieces hpiece

/-- Pieces do not overlap. -/
theorem pairwise_locatedPieces (source : String) :
    (locatedPieces source).Pairwise fun x y => x.span.stop ≤ y.span.start := by
  suffices h : ∀ cs ps, (locate (.behind cs) ps).Pairwise fun x y => x.span.stop ≤ y.span.start from
    h [] _
  intro cs ps
  induction ps generalizing cs with
  | nil => exact .nil
  | cons p ps ih =>
    rw [locate, Position.advance_behind]
    refine List.pairwise_cons.mpr ⟨fun y hy => ?_, ih (cs ++ p.text)⟩
    obtain ⟨before, after, hsplit⟩ := List.append_of_mem hy
    rw [span_of_locate hsplit, spanOver_behind]
    simp only [Span.behind, byteLength_append]
    omega

/-- The end of the text is the place behind all of it. -/
theorem endSpan_eq (source : String) : endSpan source = .behind source.toList [] := by
  have hstart : Position.advance {} source.toList = .behind source.toList :=
    Position.advance_behind [] source.toList
  rw [endSpan, hstart, spanOver_behind]

/-- Scanning a text cuts it into pieces, none of which is empty, and loses nothing: each piece is
what the rules of the lexer say of its characters and of what follows them, and what is neither a
token nor a fault is white space or a comment. Each piece stands behind those in front of it, on
the line and in the column that its start has, which is where a search among the starts of the lines
finds it. So the places of tokens and faults are within the text, and they do not overlap. The
answer is the faults, if there are any, and the tokens with one mark of the end behind them
otherwise. -/
theorem tokenize_exact (source : String) :
    textOf (locatedPieces source) = source.toList ∧
    (∀ before x after, locatedPieces source = before ++ x :: after →
      x.piece.text ≠ [] ∧ x.span = .behind (textOf before) x.piece.text ∧
      x.piece.lexeme ≠ .token .eof ∧
      (x.piece.lexeme = .blank → IsSkipped x.piece.text (textOf after)) ∧
      IsLexed x.piece.text x.piece.lexeme (textOf after)) ∧
    ((locatedPieces source).Pairwise fun x y => x.span.stop ≤ y.span.start) ∧
    (∀ x ∈ locatedPieces source, x.span.start < x.span.stop ∧
      x.span.stop ≤ byteLength source.toList ∧
      Position.find source.toList x.span.start = ⟨x.span.start, x.span.line, x.span.column⟩) ∧
    tokenize source =
      if (locatedPieces source).filterMap LocatedPiece.error? = [] then
        .ok ((locatedPieces source).filterMap LocatedPiece.token? ++
          [⟨.eof, .behind source.toList []⟩])
      else .error ((locatedPieces source).filterMap LocatedPiece.error?) := by
  refine ⟨textOf_locatedPieces source, fun before x after h => ?_, pairwise_locatedPieces source,
    fun x hx => ?_, ?_⟩
  · have hpieces : pieces source.toList = before.map LocatedPiece.piece ++
        x.piece :: after.map LocatedPiece.piece := by
      rw [← map_piece_locatedPieces, h, List.map_append, List.map_cons]
    have hmem : x.piece ∈ pieces source.toList := by simp [hpieces]
    -- the pieces are those of the text without their places, and they are lexed there
    have hlexed : IsLexed x.piece.text x.piece.lexeme (textOf after) := by
      have hlexed := isLexed_of_pieces hpieces
      rwa [List.flatMap_map] at hlexed
    exact ⟨text_ne_nil_of_mem_pieces hmem, span_of_locatedPieces h,
      lexeme_ne_eof_of_mem_pieces hmem, fun hblank => (hblank ▸ hlexed).isSkipped, hlexed⟩
  · obtain ⟨before, after, h⟩ := List.append_of_mem hx
    have htext := toList_of_locatedPieces h
    obtain ⟨c, cs, hc⟩ := List.exists_cons_of_ne_nil (text_ne_nil_of_mem_locatedPieces hx)
    have hpos : 0 < byteLength x.piece.text := by
      rw [hc, byteLength_cons]
      exact Nat.add_pos_left c.utf8Size_pos _
    have hlength := congrArg byteLength htext
    rw [byteLength_append, byteLength_append] at hlength
    rw [span_of_locatedPieces h]
    refine ⟨?_, ?_, ?_⟩
    · simp only [Span.behind]
      omega
    · simp only [Span.behind]
      omega
    · rw [htext]
      exact Position.find_behind _ _
  · rw [tokenize, endSpan_eq]
    cases (locatedPieces source).filterMap LocatedPiece.error? with
    | nil => rfl
    | cons e errors => rfl

end

end TypeAssay
