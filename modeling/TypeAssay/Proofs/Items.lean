import TypeAssay.Proofs.Derivations

/-!
# The items of a text

The tokens of a text start one behind the other and end with the mark of the end. An item consumes
tokens or fails at one of those it has reached, and what is skipped behind an error ends where an
item can start. So each pass over an item, also over one with an error, moves on.

* `tokenize_ascending`, `tokenize_terminated` : the tokens of a text.
* `item_consumes` : what an item consumes.
* `itemsFrom_parts` : the items of a file and the tokens that they are read from.
-/

namespace TypeAssay

open Reader Cursor

/-! ## The tokens of a text -/

section

variable {p : Position} {ps : List Piece} {source : String} {tokens : List LocatedToken}

/-- The pieces start one behind the other, between the point they start from and the point behind
them. -/
theorem locate_ascending (hps : ∀ q ∈ ps, q.text ≠ []) :
    (locate p ps).Pairwise (fun x y => x.span.start < y.span.start) ∧
      ∀ x ∈ locate p ps, p.offset ≤ x.span.start ∧
        x.span.start < (p.advance (ps.flatMap Piece.text)).offset := by
  -- the spans are laid out from the left, so each bound is that of the pieces before
  induction ps generalizing p with
  | nil => simp [locate]
  | cons q ps ih =>
    obtain ⟨hq, hps⟩ := List.forall_mem_cons.mp hps
    obtain ⟨hpairwise, hbounds⟩ := ih (p := p.advance q.text) hps
    have hpos : 0 < byteLength q.text := by
      obtain ⟨c, cs, hcs⟩ := List.exists_cons_of_ne_nil hq
      rw [hcs, byteLength_cons]
      exact Nat.add_pos_left c.utf8Size_pos _
    rw [locate, List.flatMap_cons, Position.advance_append]
    have hstart : (p.spanOver q.text).start = p.offset := rfl
    simp only [Position.offset_advance] at hbounds ⊢
    refine ⟨List.pairwise_cons.mpr ⟨fun x hx => ?_, hpairwise⟩,
      List.forall_mem_cons.mpr ⟨?_, fun x hx => ?_⟩⟩
    · have := (hbounds x hx).1
      simp only [hstart]
      omega
    · simp only [hstart]
      omega
    · have := hbounds x hx
      omega

/-- A token has the span of its piece. -/
theorem token?_span {q : LocatedPiece} {t : LocatedToken} (h : q.token? = some t) :
    t.span = q.span := by
  rw [LocatedPiece.token?] at h
  split at h
  · obtain rfl := Option.some.inj h
    rfl
  · exact absurd h (by simp)

/-- The tokens of a text are those of its pieces and the mark of the end. -/
theorem tokenize_eq (h : tokenize source = .ok tokens) :
    tokens = (locatedPieces source).filterMap LocatedPiece.token? ++ [⟨.eof, endSpan source⟩] := by
  rw [tokenize] at h
  split at h
  · exact (Except.ok.inj h).symm
  · exact absurd h (by simp)

/-- The tokens of a text start one behind the other. -/
theorem tokenize_ascending (h : tokenize source = .ok tokens) :
    tokens.Pairwise fun t u => t.span.start < u.span.start := by
  obtain ⟨hpairwise, hbounds⟩ := @locate_ascending {} (pieces source.toList)
    fun q hq => text_ne_nil_of_mem_pieces hq
  rw [flatMap_text_pieces] at hbounds
  rw [tokenize_eq h, List.pairwise_append]
  refine ⟨List.pairwise_filterMap.mpr (hpairwise.imp fun {x y} hxy t ht u hu => ?_),
    List.pairwise_singleton _ _, fun t ht u hu => ?_⟩
  · rwa [token?_span ht, token?_span hu]
  · obtain ⟨q, hq, ht⟩ := List.mem_filterMap.mp ht
    obtain rfl := List.mem_singleton.mp hu
    rw [token?_span ht]
    exact (hbounds q hq).2

/-- The last token of a text is the mark of its end. -/
theorem tokenize_terminated (h : tokenize source = .ok tokens) :
    (ofTokens tokens).Terminated := by
  rw [tokenize_eq h]
  exact terminated_ofTokens ⟨_, _, rfl, rfl⟩

end

/-! ## Items -/

/-- The expression of an item. -/
def Item.value : Item → TypeExpr
  | .alias d => d.value
  | .expr e => e

/-- The tokens are an item, but for its end. -/
inductive DerivesItem : List LocatedToken → Item → Prop where
  | declaration {mark : Option LocatedToken} {keyword name equal : LocatedToken} {s : String}
      {e : TypeExpr} {ts : List LocatedToken}
      (hmark : ∀ t ∈ mark, t.token = .keyword .exported)
      (hkeyword : keyword.token = .keyword .type) (hname : name.token = .identifier s)
      (hequal : equal.token = .punctuation .equal)
      (h : Derives .accepted maxDepth ts (.expression e)) :
      DerivesItem (mark.toList ++ keyword :: name :: equal :: ts)
        (.alias ⟨s, name.span, mark.isSome, e, (mark.getD keyword).span.merge e.span⟩)
  | expression {e : TypeExpr} {ts : List LocatedToken}
      (h : Derives .accepted maxDepth ts (.expression e)) : DerivesItem ts (.expr e)

/-- Some tokens derive the expression of an item. -/
def Item.IsDerived (i : Item) : Prop :=
  ∃ ts, Derives .accepted maxDepth ts (.expression i.value)

/-- An item has a token at least. -/
theorem DerivesItem.ne_nil {ts : List LocatedToken} {i : Item} (h : DerivesItem ts i) :
    ts ≠ [] := by
  cases h with
  | declaration _ _ _ _ _ => simp
  | expression h => exact h.ne_nil

/-- The expression of an item is derived. -/
theorem DerivesItem.isDerived {ts : List LocatedToken} {i : Item} (h : DerivesItem ts i) :
    i.IsDerived := by
  cases h with
  | declaration _ _ _ _ h => exact ⟨_, h⟩
  | expression h => exact ⟨_, h⟩

/-- What is read of an alias behind the keyword `type`. -/
def aliasBody (start : Span) (exported : Bool) : Reader AliasDecl := do
  let nameCursor ← get
  match nameCursor.token with
  | .identifier name =>
    advance
    if (← get).sees .less then throw ⟨.aliasParameters name, (← get).span⟩
    let _ ← expect .equal
    let value ← typeExpr
    return { name, nameSpan := nameCursor.span, exported, value, span := start.merge value.span }
  | _ => fail .aliasName

/-- What is read of an alias behind its first token. -/
def aliasTail (start : Span) (exported : Bool) : Reader AliasDecl :=
  if exported then do
    let _ ← expectKeyword .type
    aliasBody start true
  else aliasBody start false

section

variable {c c' d : Cursor} {fuel : Nat} {α β : Type} {m m' : Reader α} {f : α → Reader β}

/-- Two readers with the same outcome go on in the same way. -/
theorem on_bind_congr (h : m.on c = m'.on c') : on (m >>= f) c = on (m' >>= f) c' := by
  cases hon : m.on c with
  | mk answer d =>
    rw [hon] at h
    cases answer with
    | ok a => rw [on_bind_ok hon, on_bind_ok h.symm]
    | error e => rw [on_bind_error hon, on_bind_error h.symm]

/-- An alias starts with one of two keywords. -/
theorem token_of_startsAlias {t : Token} (h : startsAlias t) :
    t = .keyword .type ∨ t = .keyword .exported := by
  simpa [startsAlias] using h

/-- Behind its first token an alias is read by `aliasTail`. -/
theorem on_aliasDecl (h : startsAlias c.token) :
    aliasDecl.on c = (aliasTail c.span (c.token = .keyword .exported)).on c.advance := by
  rw [aliasDecl, on_get_bind]
  rcases token_of_startsAlias h with h | h
  · simp only [h]
    change on (expectKeyword .type >>= _) c = _
    rw [on_bind_ok (on_expectKeyword h)]
    rfl
  · simp only [h, decide_true]
    rfl

/-- Behind the keyword a name, an equal sign and an expression are read. -/
theorem consumes_aliasBody (mark : Option LocatedToken) {keyword : LocatedToken}
    (hmark : ∀ t ∈ mark, t.token = .keyword .exported)
    (hkeyword : keyword.token = .keyword .type) :
    (aliasBody (mark.getD keyword).span mark.isSome).Consumes c fun ts d _ =>
      DerivesItem (mark.toList ++ keyword :: ts) (.alias d) := by
  refine consumes_get ?_
  split
  · rename_i name hname
    refine (consumes_advance (by simp [hname])).bind ?_
    rintro _ _ c₁ - ⟨rfl, -⟩
    refine consumes_get ?_
    split
    · refine consumes_get ?_
      exact (consumes_throw (P := fun _ _ _ => False) rfl).bind fun _ _ _ _ h => h.elim
    · refine consumes_expect.bind ?_
      rintro _ _ c₂ - ⟨equal, rfl, hequal, -⟩
      refine (typeAt_consumes maxDepth c₂).bind fun ts e _ _ he => .pure ?_
      have hderives := DerivesItem.declaration hmark hkeyword hname hequal he
      simpa [Cursor.span] using hderives
  · exact consumes_fail

/-- Behind the first token of an alias the others are read. -/
theorem consumes_aliasTail (h : startsAlias c.token) :
    (aliasTail c.span (c.token = .keyword .exported)).Consumes d fun ts a _ =>
      DerivesItem (c.current :: ts) (.alias a) := by
  rcases token_of_startsAlias h with h | h
  · simp only [h]
    exact consumes_aliasBody none (by simp) h
  · simp only [h, decide_true]
    refine consumes_expectKeyword.bind ?_
    rintro _ _ c₁ - ⟨keyword, rfl, hkeyword, -⟩
    exact consumes_aliasBody (some c.current) (by simpa [Cursor.token] using h) hkeyword

/-- The end of an item is read from any tokens. -/
theorem consumes_endOfItem : endOfItem.Consumes c fun _ _ _ => True := by
  refine consumes_get ?_
  split
  · rename_i hsees
    have htoken := sees_iff.mp hsees
    exact (consumes_advance (by simp [Cursor.token, htoken])).mono fun _ _ _ _ => trivial
  · split
    · exact .pure trivial
    · exact consumes_fail

/-- An item is an alias or an expression, each with an end behind it. -/
theorem item_eq : item = get >>= fun c =>
    if startsAlias c.token then aliasDecl >>= fun d => endOfItem >>= fun _ => pure (.alias d)
    else typeExpr >>= fun e => endOfItem >>= fun _ => pure (.expr e) := by
  refine congrArg _ (funext fun c => ?_)
  cases startsAlias c.token with
  | true => simp only [if_true, map_eq_pure_bind, bind_assoc, pure_bind]
  | false =>
    simp only [Bool.false_eq_true, if_false, map_eq_pure_bind, bind_assoc, pure_bind]

/-- The tokens at which an item that starts at a token can fail. The first token of an alias is not
one of them. -/
def faultPlaces (t : Token) (ts : List LocatedToken) : List LocatedToken :=
  if startsAlias t then ts.tail else ts

/-- What is consumed later adds its tokens to the places. -/
theorem faultPlaces_append {t : Token} {ts us : List LocatedToken} (hts : ts ≠ []) :
    faultPlaces t (ts ++ us) = faultPlaces t ts ++ us := by
  rw [faultPlaces, faultPlaces]
  split
  · exact List.tail_append_of_ne_nil hts
  · rfl

/-- The places are some last tokens. -/
theorem faultPlaces_suffix (t : Token) (ts : List LocatedToken) : faultPlaces t ts <:+ ts := by
  rw [faultPlaces]
  split
  · exact List.tail_suffix ts
  · exact List.suffix_rfl

/-- The places among fewer tokens are places among more. -/
theorem faultPlaces_subset {t : Token} {ts us : List LocatedToken} (h : ts <+: us) :
    faultPlaces t ts ⊆ faultPlaces t us := by
  obtain ⟨vs, rfl⟩ := h
  by_cases hts : ts = []
  · have hnil : faultPlaces t [] = [] := List.suffix_nil.mp (faultPlaces_suffix t [])
    simp [hts, hnil]
  · rw [faultPlaces_append hts]
    exact List.subset_append_left _ _

/-- An item is derived by the first of the tokens that it consumes; or it fails. -/
theorem item_consumes (hc : c.Terminated) (hend : c.atEnd = false) :
    ∃ ts c', c.Moves ts c' ∧
      ((∃ i, item.on c = (.ok i, c') ∧ ∃ us, us <+: ts ∧ DerivesItem us i) ∨
      ∃ e, item.on c = (.error e, c') ∧
        e.span.IsAmong (faultPlaces c.token (ts ++ [c'.current]))) := by
  rw [item_eq, on_get_bind]
  -- an alias fails at its second token at the earliest
  by_cases halias : startsAlias c.token
  · have hplaces : ∀ us, faultPlaces c.token us = us.tail := fun us => if_pos halias
    have hrest : c.rest ≠ [] := hc.rest_ne_nil (by simpa [atEnd] using hend)
    simp only [hplaces]
    rw [if_pos halias, on_bind_congr (on_aliasDecl halias)]
    have htail : Consumes (aliasTail c.span (c.token = .keyword .exported) >>= fun d =>
        endOfItem >>= fun _ => pure (Item.alias d)) c.advance fun ts i _ =>
          ∃ us, us <+: c.current :: ts ∧ DerivesItem us i :=
      (consumes_aliasTail halias).bind fun us _ _ _ hd => consumes_endOfItem.bind
        fun vs _ _ _ _ => .pure ⟨c.current :: us, by simp, hd⟩
    obtain ⟨ts, c', hmoves, h⟩ := htail hc.advance
    exact ⟨c.current :: ts, c', .step hrest hmoves, h⟩
  · have hplaces : ∀ us, faultPlaces c.token us = us := fun us => if_neg halias
    simp only [hplaces]
    rw [if_neg halias]
    have hexpr : Consumes (typeExpr >>= fun e => endOfItem >>= fun _ => pure (Item.expr e)) c
        fun ts i _ => ∃ us, us <+: ts ∧ DerivesItem us i :=
      (typeAt_consumes maxDepth c).bind fun us _ _ _ he => consumes_endOfItem.bind
        fun vs _ _ _ _ => .pure ⟨us, List.prefix_append _ _, .expression he⟩
    exact hexpr hc

/-! ## Skipping -/

/-- What is skipped behind an error ends at the end of the text or at an alias, unless it is a
token at least. -/
theorem skipToItem_moves (hc : c.Terminated) (hfuel : c.rest.length < fuel) :
    ∃ ts, c.Moves ts (skipToItem fuel c) ∧ (ts = [] →
      (skipToItem fuel c).atEnd ∨ startsAlias (skipToItem fuel c).token) := by
  -- by induction on the tokens ahead, which become fewer
  induction fuel generalizing c with
  | zero => exact absurd hfuel (Nat.not_lt_zero _)
  | succ fuel ih =>
    rw [skipToItem]
    by_cases hstop : c.atEnd || startsAlias c.token
    · rw [if_pos hstop]
      exact ⟨[], .refl c, fun _ => by simpa using hstop⟩
    · have hend : c.atEnd = false := by
        rw [Bool.not_eq_true, Bool.or_eq_false_iff] at hstop
        exact hstop.1
      have hone : c.Moves [c.current] c.advance :=
        .one (hc.rest_ne_nil (by simpa [atEnd] using hend))
      have hlength := hone.length_eq
      rw [if_neg hstop]
      split
      · exact ⟨_, hone, by simp⟩
      · obtain ⟨ts, hmoves, -⟩ := ih hc.advance (by rw [List.length_singleton] at hlength; omega)
        exact ⟨_, hone.trans hmoves, by simp⟩

/-! ## Passes -/

/-- One pass of the loop over the items: what it finds, and where the next one starts. -/
def pass (c : Cursor) : Except SyntaxError Item × Cursor :=
  match item.on c with
  | (.ok i, c') => (.ok i, c')
  | (.error e, c') => (.error e, skipToItem (c'.rest.length + 1) c')

/-- At the end of the text there are no items. -/
theorem itemsFrom_of_atEnd (hend : c.atEnd) : itemsFrom fuel c = ([], []) := by
  cases fuel with
  | zero => rfl
  | succ fuel => rw [itemsFrom, if_pos hend]

/-- An item is put before those of later passes. -/
theorem itemsFrom_succ_ok {i : Item} (hend : c.atEnd = false) (h : pass c = (.ok i, c')) :
    itemsFrom (fuel + 1) c = (i :: (itemsFrom fuel c').1, (itemsFrom fuel c').2) := by
  rw [itemsFrom, if_neg (by simp [hend])]
  rw [pass] at h
  split at h
  · rename_i hon
    obtain ⟨hi, rfl⟩ := Prod.mk.inj h
    obtain rfl := Except.ok.inj hi
    rw [show item.run.run c = _ from hon]
  · exact absurd (Prod.mk.inj h).1 (by simp)

/-- An error is put before those of later passes. -/
theorem itemsFrom_succ_error {e : SyntaxError} (hend : c.atEnd = false)
    (h : pass c = (.error e, c')) :
    itemsFrom (fuel + 1) c = ((itemsFrom fuel c').1, e :: (itemsFrom fuel c').2) := by
  rw [itemsFrom, if_neg (by simp [hend])]
  rw [pass] at h
  split at h
  · exact absurd (Prod.mk.inj h).1 (by simp)
  · rename_i hon
    obtain ⟨he, rfl⟩ := Prod.mk.inj h
    obtain rfl := Except.error.inj he
    rw [show item.run.run c = _ from hon]

/-- The places where this pass and later ones can fail. -/
def Cursor.faultsAhead (c : Cursor) : List LocatedToken :=
  faultPlaces c.token (c.current :: c.rest)

/-- A pass moves on, also over an error, and also when the item has consumed nothing. The error is
at a place before all those where later passes can fail. -/
theorem pass_moves (hc : c.Terminated) (hend : c.atEnd = false) :
    ∃ ts c', ts ≠ [] ∧ c.Moves ts c' ∧
      ((∃ i, pass c = (.ok i, c') ∧ ∃ us, us <+: ts ∧ DerivesItem us i) ∨
      ∃ e us vs, pass c = (.error e, c') ∧ e.span.IsAmong us ∧ us ++ vs = c.faultsAhead ∧
        (c'.atEnd ∨ c'.faultsAhead = vs)) := by
  obtain ⟨ts, d, hmoves, ⟨i, hon, us, hus, hi⟩ | ⟨e, hon, he⟩⟩ := item_consumes hc hend
  · exact ⟨ts, d, fun hts => hi.ne_nil (List.prefix_nil.mp (hts ▸ hus)), hmoves,
      .inl ⟨i, by rw [pass, hon], us, hus, hi⟩⟩
  · obtain ⟨us, hskip, hstop⟩ :=
      skipToItem_moves (hmoves.terminated hc) (Nat.lt_succ_self d.rest.length)
    have hpass : pass c = (.error e, skipToItem (d.rest.length + 1) d) := by rw [pass, hon]
    generalize skipToItem (d.rest.length + 1) d = c' at hskip hstop hpass
    -- an error at a token that starts no alias is skipped with that token
    have hmoved : ts ++ us ≠ [] := by
      intro hnil
      obtain ⟨rfl, rfl⟩ := List.append_eq_nil_iff.mp hnil
      obtain rfl := hmoves.eq_of_nil
      obtain rfl := hskip.eq_of_nil
      rcases hstop rfl with h | h
      · exact absurd h (by simp [hend])
      · obtain ⟨t, ht, -⟩ := he.start
        simp [faultPlaces, h] at ht
    have hahead : c.current :: c.rest = ts ++ us ++ c'.current :: c'.rest :=
      (hmoves.trans hskip).ahead_eq
    refine ⟨ts ++ us, c', hmoved, hmoves.trans hskip, .inr ?_⟩
    by_cases hend' : c'.atEnd
    · have hprefix : ts ++ [d.current] <+: c.current :: c.rest := by
        rw [hmoves.ahead_eq, List.prefix_append_right_inj]
        exact List.cons_prefix_cons.mpr ⟨rfl, List.nil_prefix⟩
      exact ⟨e, c.faultsAhead, [], hpass, he.mono (faultPlaces_subset hprefix), List.append_nil _,
        .inl hend'⟩
    · by_cases halias : startsAlias c'.token
      -- the first token of an alias is no place for an error of its own
      · have hprefix : ts ++ [d.current] <+: ts ++ us ++ [c'.current] := by
          rw [List.append_assoc, List.prefix_append_right_inj]
          cases us with
          | nil => rw [hskip.eq_of_nil, List.nil_append]
          | cons u us =>
            rw [hskip.current_eq]
            exact List.cons_prefix_cons.mpr ⟨rfl, List.nil_prefix⟩
        refine ⟨e, faultPlaces c.token (ts ++ us ++ [c'.current]), c'.rest, hpass,
          he.mono (faultPlaces_subset hprefix), ?_, .inr (if_pos halias)⟩
        rw [← faultPlaces_append (by simp), faultsAhead, hahead]
        simp
      · -- a token was skipped at least, and the error lies before the next one
        obtain ⟨u, us, rfl⟩ := List.exists_cons_of_ne_nil
          (fun hus : us = [] => (hstop hus).elim hend' halias)
        have hprefix : ts ++ [d.current] <+: ts ++ u :: us := by
          rw [List.prefix_append_right_inj, hskip.current_eq]
          exact List.cons_prefix_cons.mpr ⟨rfl, List.nil_prefix⟩
        refine ⟨e, faultPlaces c.token (ts ++ u :: us), c'.current :: c'.rest, hpass,
          he.mono (faultPlaces_subset hprefix), ?_, .inr (if_neg halias)⟩
        rw [← faultPlaces_append hmoved, faultsAhead, hahead]

/-! ## The loop -/

/-- The items that are read are derived by tokens ahead, one behind the other, before the last. -/
theorem itemsFrom_parts (hc : c.Terminated) : ∃ parts : List (Part Item),
    (itemsFrom fuel c).1 = parts.map Prod.snd ∧
      InTurn parts (c.current :: c.rest).dropLast ∧
      ∀ q ∈ parts, DerivesItem q.1 q.2 := by
  -- by induction on the passes; each cuts its tokens off the front
  induction fuel generalizing c with
  | zero => exact ⟨[], rfl, .nil _, by simp⟩
  | succ fuel ih =>
    cases hend : c.atEnd with
    | true => exact ⟨[], by rw [itemsFrom_of_atEnd hend]; rfl, .nil _, by simp⟩
    | false =>
      obtain ⟨ts, c', -, hmoves, hpass⟩ := pass_moves hc hend
      obtain ⟨parts, hitems, htokens, hparts⟩ := ih (hmoves.terminated hc)
      rw [hmoves.ahead_eq, List.dropLast_append_cons]
      obtain ⟨i, hpass, us, ⟨vs, rfl⟩, hi⟩ | ⟨e, _, _, hpass, -⟩ := hpass
      · rw [itemsFrom_succ_ok hend hpass, hitems, List.append_assoc]
        exact ⟨(us, i) :: parts, rfl, .part (us, i) (htokens.append_left vs),
          List.forall_mem_cons.mpr ⟨hi, hparts⟩⟩
      · rw [itemsFrom_succ_error hend hpass, hitems]
        exact ⟨parts, rfl, htokens.append_left ts, hparts⟩

/-- The items that are read are derived. -/
theorem itemsFrom_derived (hc : c.Terminated) : ∀ i ∈ (itemsFrom fuel c).1, i.IsDerived := by
  obtain ⟨parts, hitems, -, hparts⟩ := @itemsFrom_parts c fuel hc
  intro i hi
  rw [hitems] at hi
  obtain ⟨q, hq, rfl⟩ := List.mem_map.mp hi
  exact (hparts q hq).isDerived

/-- The places where later passes can fail are such places now. -/
theorem faultsAhead_suffix {ts : List LocatedToken} (hmoves : c.Moves ts c') (hts : ts ≠ []) :
    c'.faultsAhead <:+ c.faultsAhead := by
  rw [faultsAhead, faultsAhead, hmoves.ahead_eq, faultPlaces_append hts]
  exact (faultPlaces_suffix _ _).trans (List.suffix_append _ _)

/-- The errors of a file come one behind the other. -/
theorem itemsFrom_errors (hc : c.Terminated)
    (hascending : c.faultsAhead.Pairwise fun t u => t.span.start < u.span.start) :
    ((itemsFrom fuel c).2.Pairwise fun e e' => e.span.start < e'.span.start) ∧
      ∀ e ∈ (itemsFrom fuel c).2, e.span.IsAmong c.faultsAhead := by
  induction fuel generalizing c with
  | zero => simp [itemsFrom]
  | succ fuel ih =>
    cases hend : c.atEnd with
    | true => simp [itemsFrom_of_atEnd hend]
    | false =>
      obtain ⟨ts, c', hts, hmoves, hpass⟩ := pass_moves hc hend
      have hsuffix := faultsAhead_suffix hmoves hts
      obtain ⟨hpairwise, hamong⟩ := ih (hmoves.terminated hc) (hascending.sublist hsuffix.sublist)
      obtain ⟨i, hpass, -⟩ | ⟨e, us, vs, hpass, he, hsplit, hlater⟩ := hpass
      · rw [itemsFrom_succ_ok hend hpass]
        exact ⟨hpairwise, fun e he => (hamong e he).mono hsuffix.subset⟩
      · rw [itemsFrom_succ_error hend hpass]
        rw [← hsplit] at hascending ⊢
        refine ⟨List.pairwise_cons.mpr ⟨fun e' he' => ?_, hpairwise⟩,
          List.forall_mem_cons.mpr ⟨he.mono (List.subset_append_left _ _), fun e' he' =>
            (hamong e' he').mono (hsplit ▸ hsuffix.subset)⟩⟩
        -- this error is before the tokens at which later passes can fail
        rcases hlater with hend' | rfl
        · simp [itemsFrom_of_atEnd hend'] at he'
        · obtain ⟨t, ht, hspan, -⟩ := he.start
          obtain ⟨u, hu, hspan', -⟩ := (hamong e' he').start
          rw [hspan, hspan']
          exact (List.pairwise_append.mp hascending).2.2 t ht u hu

end

end TypeAssay
