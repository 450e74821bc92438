import TypeAssay.Proofs.Refinement

/-!
# Parsing makes progress

The machine comes to the end of every text without leaving its tokens: each pass of its loop over
the items goes on by a token at least, and a type expression closes all that it opens, whether it is
read or not. The errors of a text come one behind the other.

* `parser_progresses` : all of it, for every text.
-/

namespace TypeAssay

/-! ## The end of the text -/

section

variable {c : Char} {rest : List Char} {source : String} {tokens : List LocatedToken}

/-- No piece of a text is the mark of its end. -/
theorem scan_ne_eof : (scan c rest).1 ≠ .token .eof := by
  have hnumeral : ∀ text numeral, numeralLexeme text numeral ≠ .token .eof := by
    intro text numeral
    cases numeral <;> simp [numeralLexeme]
  have hword : ∀ word, wordToken word ≠ .eof := by
    intro word
    rw [wordToken]
    split <;> simp
  rw [scan]
  repeat' split
  all_goals simp [hnumeral, hword]

/-- What holds of everything that is scanned holds of the pieces of a text. -/
theorem lexeme_of_mem_pieces {P : Lexeme → Prop} (hscan : ∀ c rest, P (scan c rest).1)
    {cs : List Char} {p : Piece} (h : p ∈ pieces cs) : P p.lexeme := by
  fun_induction pieces cs with
  | case1 => simp at h
  | case2 c rest lexeme n hc ih =>
    rcases List.mem_cons.mp h with rfl | h
    · have hlexeme : lexeme = (scan c rest).1 := by rw [hc]
      exact hlexeme ▸ hscan c rest
    · exact ih h

/-- No piece of a text is the mark of its end. -/
theorem lexeme_ne_eof_of_mem_pieces {cs : List Char} {p : Piece} (h : p ∈ pieces cs) :
    p.lexeme ≠ .token .eof :=
  lexeme_of_mem_pieces (P := (· ≠ .token .eof)) (fun _ _ => scan_ne_eof) h

/-- The tokens of a text are pieces of it. -/
theorem exists_piece_of_token {t : LocatedToken}
    (h : t ∈ (locatedPieces source).filterMap LocatedPiece.token?) :
    ∃ p ∈ pieces source.toList, p.lexeme = .token t.token := by
  obtain ⟨q, hq, ht⟩ := List.mem_filterMap.mp h
  refine ⟨q.piece, ?_, ?_⟩
  · rw [← map_piece_locate {} (pieces source.toList)]
    exact List.mem_map_of_mem hq
  · rw [LocatedPiece.token?] at ht
    split at ht
    · rename_i u hu
      obtain rfl := Option.some.inj ht
      exact hu
    · exact absurd ht (by simp)

/-- The end of a text is marked by its last token, and by no other one. -/
theorem tokenize_eof (h : tokenize source = .ok tokens) : ∃ located last,
    tokens = located ++ [last] ∧ last.token = .eof ∧ ∀ t ∈ located, t.token ≠ .eof := by
  refine ⟨_, _, tokenize_eq h, rfl, fun t ht heof => ?_⟩
  obtain ⟨p, hp, hlexeme⟩ := exists_piece_of_token ht
  exact lexeme_ne_eof_of_mem_pieces hp (by rw [hlexeme, heof])

end

/-! ## The loop -/

/-- The items and the errors that passes have found. -/
def itemsAndErrors (found : List (Except SyntaxError Item)) : List Item × List SyntaxError :=
  found.foldr (fun
    | .ok i, (items, errors) => (i :: items, errors)
    | .error e, (items, errors) => (items, e :: errors)) ([], [])

/-- The file of the items, unless there are errors. -/
def fileOf : List Item × List SyntaxError → Except (List SyntaxError) CaseFile
  | (items, []) => .ok ⟨items⟩
  | (_, errors) => .error errors

namespace Machine

variable {s : Machine} {c : Cursor} {fuel fuel' : Nat}

/-- A pass of the loop goes on by a token at least. -/
theorem run_pass_of_not_atEnd (hs : s.IsAt c) (hdepth : s.depth = 0) (hend : c.atEnd = false) :
    ∃ s', pass.run.run s = some (.ok (TypeAssay.pass c).1, s') ∧ s'.IsAt (TypeAssay.pass c).2 ∧
      s.Precedes s' ∧ s.position < s'.position := by
  obtain ⟨s', hrun, hs', hle⟩ := run_pass hs hdepth
  refine ⟨s', hrun, hs', hle, ?_⟩
  obtain ⟨ts, c', hts, hmoves, hpass⟩ := pass_moves hs.terminated hend
  have hc' : (TypeAssay.pass c).2 = c' := by
    rcases hpass with ⟨i, h, -⟩ | ⟨e, _, _, h, -⟩ <;> rw [h]
  rw [hc'] at hs'
  have hlength := hmoves.length_eq
  have hpos : 0 < ts.length := List.length_pos_of_ne_nil hts
  have h := hs.length_eq
  have h' := hs'.length_eq
  rw [hle.tokens] at h'
  omega

/-- The loop comes to the end of the text and finds its items and errors. -/
theorem run_passes (hs : s.IsAt c) (hdepth : s.depth = 0) (hfuel : c.rest.length < fuel)
    (hfuel' : c.rest.length < fuel') :
    ∃ found s' c', (passes fuel).run.run s = some (.ok found, s') ∧ s'.IsAt c' ∧ c'.atEnd ∧
      s.Precedes s' ∧ itemsFrom fuel' c = itemsAndErrors found := by
  -- by induction on the passes; each moves on, so there is room for as many as there are tokens
  induction fuel generalizing s c fuel' with
  | zero => exact absurd hfuel (Nat.not_lt_zero _)
  | succ fuel ih =>
    obtain ⟨fuel', rfl⟩ : ∃ k, fuel' = k + 1 := Nat.exists_eq_add_one.mpr (by omega)
    rw [passes, run_bind_ok (run_look hs)]
    cases hend : c.atEnd with
    | true =>
      refine ⟨[], s, c, rfl, hs, hend, .refl s, ?_⟩
      rw [itemsFrom_of_atEnd hend]
      rfl
    | false =>
      obtain ⟨s₁, hrun, hs₁, hle, hlt⟩ := run_pass_of_not_atEnd hs hdepth hend
      have hlength := hs.length_eq
      have hlength₁ := hs₁.length_eq
      rw [hle.tokens] at hlength₁
      obtain ⟨found, s₂, c₂, hrun₂, hs₂, hend₂, hle₂, hitems⟩ :=
        @ih s₁ (TypeAssay.pass c).2 fuel' hs₁ (hle.depth.trans hdepth) (by omega) (by omega)
      refine ⟨(TypeAssay.pass c).1 :: found, s₂, c₂, ?_, hs₂, hend₂, hle.trans hle₂, ?_⟩
      · rw [if_neg Bool.false_ne_true, run_bind_ok hrun, run_bind_ok hrun₂]
        rfl
      · cases hpass : TypeAssay.pass c with
        | mk r c' =>
          rw [hpass] at hitems
          cases r with
          | ok i => rw [itemsFrom_succ_ok hend hpass, hitems]; rfl
          | error e => rw [itemsFrom_succ_error hend hpass, hitems]; rfl

/-- A type expression answers what the reader answers with the nesting that is left. -/
theorem run_typeExpr (hs : s.IsAt c) :
    ∃ s', typeExpr.run.run s = some (((typeAt (maxDepth - s.depth)).on c).1, s') ∧
      s'.IsAt ((typeAt (maxDepth - s.depth)).on c).2 ∧ s.Precedes s' ∧
      ∀ e, ((typeAt (maxDepth - s.depth)).on c).1 = .ok e → s.position < s'.position := by
  obtain ⟨s', hrun, hs', hle⟩ := typeExpr_follows s.depth s c rfl hs
  refine ⟨s', hrun, hs', hle, fun e he => ?_⟩
  obtain ⟨ts, c', hmoves, ⟨e', hon, hderives⟩ | ⟨e', hon, -⟩⟩ :=
    typeAt_consumes (maxDepth - s.depth) c hs.terminated
  · rw [hon] at hs'
    have hat : s'.IsAt c' := hs'
    have hlength := hmoves.length_eq
    have hpos : 0 < ts.length := List.length_pos_of_ne_nil hderives.ne_nil
    have h := hs.length_eq
    have h' := hat.length_eq
    rw [hle.tokens] at h'
    omega
  · rw [hon] at he
    exact absurd he (by simp)

end Machine

section

open Machine

variable {source : String} {tokens : List LocatedToken}

/-- The machine of a text is at the end exactly when it is at the last token. -/
theorem atEnd_iff {s : Machine} {c : Cursor} (h : tokenize source = .ok tokens)
    (htokens : s.tokens = tokens) (hs : s.IsAt c) : c.atEnd ↔ s.position + 1 = tokens.length := by
  obtain ⟨located, last, rfl, hlast, hlocated⟩ := tokenize_eof h
  have hlt := hs.lt
  obtain ⟨t, u, ht, -, rfl⟩ := view?_eq_some_iff.mp hs.view
  rw [htokens] at ht hlt
  rw [List.length_append, List.length_singleton] at hlt ⊢
  refine Iff.trans decide_eq_true_iff ⟨?_, ?_⟩
  · intro heof
    by_contra hne
    rw [List.getElem?_append_left (by omega)] at ht
    exact hlocated t (List.mem_of_getElem? ht) heof
  · intro hposition
    rw [List.getElem?_append_right (by omega),
      show s.position - located.length = 0 by omega] at ht
    obtain rfl : last = t := Option.some.inj ht
    exact hlast

/-- The loop over the items of a text comes to its end, without leaving the tokens, and its errors
come one behind the other. Wherever it is before the end, a pass goes on by a token at least. And
wherever the parser is and however many expressions are open, a type expression does not go back,
consumes a token at least if it is read, and leaves as many expressions open. -/
theorem parser_progresses (h : tokenize source = .ok tokens) :
    (∃ found s, (passes (tokens.length + 1)).run.run (start tokens) = some (.ok found, s) ∧
      s.position + 1 = tokens.length ∧ parseTokens tokens = fileOf (itemsAndErrors found) ∧
      (itemsAndErrors found).2.Pairwise fun e e' => e.span.start < e'.span.start) ∧
    (∀ s : Machine, s.tokens = tokens → s.position + 1 < tokens.length → s.depth = 0 →
      ∃ r s', Machine.pass.run.run s = some (.ok r, s') ∧ s'.tokens = tokens ∧
        s.position < s'.position ∧ s'.position < tokens.length ∧ s'.depth = 0) ∧
    ∀ s : Machine, s.tokens = tokens → s.position < tokens.length →
      ∃ c answer s', s.view? = some c ∧ Machine.typeExpr.run.run s = some (answer, s') ∧
        answer = ((typeAt (maxDepth - s.depth)).on c).1 ∧ s'.tokens = tokens ∧
        s.position ≤ s'.position ∧ s'.position < tokens.length ∧ s'.depth = s.depth ∧
        ∀ e, answer = .ok e → s.position < s'.position := by
  obtain ⟨located, last, htokens, hlast, -⟩ := tokenize_eof h
  have hne : tokens ≠ [] := by simp [htokens]
  refine ⟨?_, fun s hs hposition hdepth => ?_, fun s hs hposition => ?_⟩
  · have hat := isAt_start (tokenize_terminated h) hne
    have hlength : tokens.length = 0 + 1 + (Cursor.ofTokens tokens).rest.length := hat.length_eq
    have hfuel : (Cursor.ofTokens tokens).rest.length < tokens.length + 1 := by omega
    obtain ⟨found, s', c', hrun, hs', hend, hle, hitems⟩ := run_passes hat rfl hfuel hfuel
    -- the places of errors ascend with the tokens
    have hascending : (Cursor.ofTokens tokens).faultsAhead.Pairwise
        fun t u => t.span.start < u.span.start := by
      obtain ⟨t, rest, rfl⟩ := List.exists_cons_of_ne_nil hne
      exact (tokenize_ascending h).sublist (faultPlaces_suffix _ _).sublist
    refine ⟨found, s', hrun, (atEnd_iff h hle.tokens hs').mp hend, ?_, ?_⟩
    · rw [parseTokens, hitems]
      rfl
    · rw [← hitems]
      exact (itemsFrom_errors hat.terminated hascending).1
  · -- such a machine stands at a token, and not at the last one
    obtain ⟨c, hat⟩ := exists_isAt (hs.trans htokens) hlast (by rw [hs]; omega)
    have hend : c.atEnd = false := by
      rw [← Bool.not_eq_true, atEnd_iff h hs hat]
      omega
    obtain ⟨s', hrun, hs', hle, hlt⟩ := run_pass_of_not_atEnd hat hdepth hend
    have htokens' := hle.tokens.trans hs
    exact ⟨_, s', hrun, htokens', hlt, htokens' ▸ hs'.lt, hle.depth.trans hdepth⟩
  · obtain ⟨c, hat⟩ := exists_isAt (hs.trans htokens) hlast (by rwa [hs])
    obtain ⟨s', hrun, hs', hle, hlt⟩ := run_typeExpr hat
    have htokens' := hle.tokens.trans hs
    exact ⟨c, _, s', hat.view, hrun, rfl, htokens', hle.position, htokens' ▸ hs'.lt, hle.depth, hlt⟩

/-- The tokens of `= A`, where a type is missing. -/
def missingType : List LocatedToken :=
  [⟨.punctuation .equal, ⟨0, 1, 1, 1⟩⟩, ⟨.identifier "A", ⟨2, 3, 1, 3⟩⟩, ⟨.eof, ⟨3, 3, 1, 4⟩⟩]

/-- The text `= A` is an error, and the pass over it goes on although nothing is read: no type
expression starts there, however many are open. -/
theorem parser_progresses_missingType :
    tokenize "= A" = .ok missingType ∧
    (∃ found s, (passes 4).run.run (start missingType) = some (.ok found, s) ∧ s.position = 2 ∧
      parseTokens missingType = fileOf (itemsAndErrors found)) ∧
    (∃ r s', Machine.pass.run.run (start missingType) = some (.ok r, s') ∧ 0 < s'.position) ∧
    ∃ answer s', Machine.typeExpr.run.run ⟨missingType, 1, 63⟩ = some (answer, s') ∧
      1 ≤ s'.position ∧ s'.depth = 63 := by
  have h : tokenize "= A" = .ok missingType := by decide +kernel
  obtain ⟨⟨found, s, hrun, hposition, hparse, -⟩, hpass, htype⟩ := parser_progresses h
  obtain ⟨r, s', hrun', -, hlt, -⟩ := hpass (start missingType) rfl (by decide) rfl
  obtain ⟨-, answer, s'', -, hrun'', -, -, hle, -, hdepth, -⟩ :=
    htype ⟨missingType, 1, 63⟩ rfl (by decide)
  exact ⟨h, ⟨found, s, hrun, Nat.succ.inj hposition, hparse⟩, ⟨r, s', hrun', hlt⟩,
    answer, s'', hrun'', hle, hdepth⟩

end

end TypeAssay
