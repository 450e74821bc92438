import TypeAssay.Proofs.Findings

/-!
# The order of errors

Syntax errors come in the order of the text. The errors of checking do not: an expression is looked
at again when its parts have been checked, and so is the name of an alias behind its value. What is
found then stands behind the errors of the parts, although its place is before theirs. Nothing else
is out of order: of two errors the second one starts before the first one only if it encloses it
(`checkSource_errors_ordered`).
-/

namespace TypeAssay

open TypeTable Checking

/-! ## Errors and what they enclose -/

/-- Whether an error is found behind the parts of the expression that it is about. -/
def CheckFault.isLate : CheckFault → Bool
  | arity .. | assertion .. | batch .. | type _ | capacityOverflow => true
  | _ => false

/-- The error is about a whole, and the span is in a part of it: in the expression at the place of
the error, or in the value of the alias whose name the error is about. -/
inductive CheckError.Encloses (items : List Item) : CheckError → Span → Prop
  | expression {err : CheckError} {span : Span} (hlate : err.fault.isLate)
      (h : err.span.Covers span) : Encloses items err span
  | declaration {d : AliasDecl} {first span : Span} (hd : Item.alias d ∈ items)
      (h : d.value.span.Covers span) :
      Encloses items ⟨.duplicateAlias d.name first, d.nameSpan⟩ span

/-- The first error starts before the second one, or the second one encloses it. -/
def Follows (items : List Item) (err err' : CheckError) : Prop :=
  err.span.start ≤ err'.span.start ∨ err'.Encloses items err.span

/-! ## Expressions -/

section

variable {items : List Item} {e x : TypeExpr} {err : CheckError} {errors : List CheckError}

/-- What an expression holds stands within it. -/
theorem TypeExpr.Holds.covers (h : e.Holds x) (hplaced : ∀ y, e.Holds y → y.IsPlaced) :
    e.span.Covers x.span := by
  induction h with
  | self e => exact Span.covers_self (hplaced e (.self e)).forward
  | @part e p x hp _ ih =>
    have hpart := (hplaced e (.self e)).covers p hp
    exact hpart.trans (ih fun y hy => hplaced y (.part hp hy))

/-- What an operator refuses is reported where it is written. -/
theorem Operator.Refuses.span_eq {op : Operator} {span : Span} (h : op.Refuses span err) :
    err.span = span := by
  cases h <;> rfl

/-- What an operator refuses is found behind its arguments. -/
theorem Operator.Refuses.isLate {op : Operator} {span : Span} (h : op.Refuses span err) :
    err.fault.isLate := by
  cases h <;> rfl

/-- An error that an expression has of its own is at its place or at that of its argument. -/
theorem TypeExpr.Blames.span_cases (h : e.Blames err) :
    err.span = e.span ∨ ∃ arg, e.parts = [arg] ∧ err.span = arg.span := by
  cases h with
  | argument _ hrefuses => exact .inr ⟨_, rfl, hrefuses.span_eq⟩
  | _ => exact .inl rfl

/-- A name that means nothing is reported at its expression. -/
theorem TypeExpr.Blames.span_eq (h : e.Blames err) (hname : err.fault.isUndefinedName) :
    err.span = e.span := by
  cases h with
  | argument _ hrefuses => exact absurd hname (by simp [hrefuses.isUndefinedName])
  | _ => rfl

/-- What else an expression is to blame for is found behind its parts. -/
theorem TypeExpr.Blames.isLate (h : e.Blames err) (hname : err.fault.isUndefinedName = false) :
    err.fault.isLate := by
  cases h with
  | undefinedName _ _ _ => exact absurd hname (by simp [CheckFault.isUndefinedName])
  | argument _ hrefuses => exact hrefuses.isLate
  | _ => rfl

/-- An error is within the expression that is to blame. -/
theorem TypeExpr.Blames.covers (h : e.Blames err) (he : e.IsPlaced) : e.span.Covers err.span := by
  rcases h.span_cases with hspan | ⟨arg, hparts, hspan⟩
  · rw [hspan]
    exact Span.covers_self he.forward
  · rw [hspan]
    exact he.covers arg (by simp [hparts])

/-- The errors of an expression are within it. -/
theorem TypeExpr.Finds.covers (h : e.Finds errors) (hplaced : ∀ y, e.Holds y → y.IsPlaced) :
    ∀ err ∈ errors, e.span.Covers err.span := by
  intro err herr
  obtain ⟨x, hx, hblames⟩ := h.exists_blames herr
  exact (hx.covers hplaced).trans (hblames.covers (hplaced x hx))

/-- The errors of the parts of an expression, one after the other. -/
theorem pairwise_flatMap_found {found : List (TypeExpr × List CheckError)}
    (hplaced : ∀ y, e.Holds y → y.IsPlaced) (hparts : e.parts = found.map Prod.fst)
    (hfound : ∀ q ∈ found, q.1.Finds q.2)
    (ih : ∀ q ∈ found, q.2.Pairwise (Follows items)) :
    (found.flatMap Prod.snd).Pairwise (Follows items) ∧
      ∀ err ∈ found.flatMap Prod.snd, ∃ p ∈ e.parts, p.span.Covers err.span := by
  have hcovers : ∀ q ∈ found, ∀ err ∈ q.2, q.1.span.Covers err.span := fun q hq =>
    (hfound q hq).covers fun y hy => hplaced y (.part (hparts ▸ List.mem_map_of_mem hq) hy)
  have hapart := (hplaced e (.self e)).apart
  rw [hparts, List.pairwise_map] at hapart
  refine ⟨List.pairwise_flatMap.mpr ⟨ih, hapart.imp_of_mem ?_⟩, fun err herr => ?_⟩
  · intro q q' hq hq' hbehind err herr err' herr'
    have hleft := hcovers q hq err herr
    have hright := hcovers q' hq' err' herr'
    exact .inl (hleft.forward.trans (hleft.stop_le.trans (hbehind.trans hright.start_le)))
  · obtain ⟨q, hq, herr⟩ := List.mem_flatMap.mp herr
    exact ⟨q.1, hparts ▸ List.mem_map_of_mem hq, hcovers q hq err herr⟩

/-- Among the errors of an expression, an error starts before an earlier one only if it encloses
it. -/
theorem TypeExpr.Finds.pairwise (h : e.Finds errors) (hplaced : ∀ y, e.Holds y → y.IsPlaced) :
    errors.Pairwise (Follows items) := by
  -- by induction on what is found; the parts lie in the expression, one behind the other
  induction h with
  | @parts e found hparts hfound ih =>
    have ih' := fun q hq => ih q hq fun y hy =>
      hplaced y (.part (hparts ▸ List.mem_map_of_mem hq) hy)
    exact (pairwise_flatMap_found hplaced hparts hfound ih').1
  | @first e found err hparts hfound hown hname ih =>
    have ih' := fun q hq => ih q hq fun y hy =>
      hplaced y (.part (hparts ▸ List.mem_map_of_mem hq) hy)
    obtain ⟨hpairwise, hcovers⟩ := pairwise_flatMap_found hplaced hparts hfound ih'
    refine List.pairwise_cons.mpr ⟨fun err' herr' => ?_, hpairwise⟩
    obtain ⟨p, hp, hpart⟩ := hcovers err' herr'
    have hwhole := ((hplaced e (.self e)).covers p hp).trans hpart
    exact .inl (hown.span_eq hname ▸ hwhole.start_le)
  | @last e found err hparts hfound hown hname ih =>
    have ih' := fun q hq => ih q hq fun y hy =>
      hplaced y (.part (hparts ▸ List.mem_map_of_mem hq) hy)
    obtain ⟨hpairwise, hcovers⟩ := pairwise_flatMap_found hplaced hparts hfound ih'
    refine List.pairwise_append.mpr ⟨hpairwise, List.pairwise_singleton _ _, ?_⟩
    intro err' herr' _ hlast
    obtain rfl := List.mem_singleton.mp hlast
    obtain ⟨p, hp, hpart⟩ := hcovers err' herr'
    refine .inr (.expression (hown.isLate hname) ?_)
    rcases hown.span_cases with hspan | ⟨arg, hone, hspan⟩
    · rw [hspan]
      exact ((hplaced e (.self e)).covers p hp).trans hpart
    · obtain rfl : p = arg := by simpa [hone] using hp
      rwa [hspan]

end

/-! ## Items -/

section

variable {items : List Item} {ts : List LocatedToken} {item : Item} {errors : List CheckError}
  {declared : String → Option Span}

/-- The errors of an item are within its tokens, and they are in order but for those that enclose
earlier ones. -/
theorem Item.Finds.ordered (h : item.Finds declared errors) (hderives : DerivesItem ts item)
    (hts : InOrder ts) (hitem : item ∈ items) :
    errors.Pairwise (Follows items) ∧ ∀ err ∈ errors, (cover ts).Covers err.span := by
  have hplaced : ∀ y, item.value.Holds y → y.IsPlaced := fun y hy =>
    (hderives.within.of_holds hy).isPlaced hts
  have hvalue : (cover ts).Covers item.value.span := hderives.within.covers hts
  cases h with
  | expression h | new _ _ h =>
    exact ⟨h.pairwise hplaced, fun err herr => hvalue.trans (h.covers hplaced err herr)⟩
  | reserved _ h =>
    obtain ⟨hname, hbefore⟩ := hderives.name_le hts
    refine ⟨List.pairwise_cons.mpr ⟨fun err herr => ?_, h.pairwise hplaced⟩,
      List.forall_mem_cons.mpr ⟨hname, fun err herr => hvalue.trans (h.covers hplaced err herr)⟩⟩
    exact .inl (hbefore.trans (h.covers hplaced err herr).start_le)
  | duplicate _ _ h =>
    obtain ⟨hname, -⟩ := hderives.name_le hts
    refine ⟨List.pairwise_append.mpr ⟨h.pairwise hplaced, List.pairwise_singleton _ _, ?_⟩,
      List.forall_mem_append.mpr
        ⟨fun err herr => hvalue.trans (h.covers hplaced err herr), by simpa using hname⟩⟩
    intro err herr _ hlast
    obtain rfl := List.mem_singleton.mp hlast
    exact .inr (.declaration hitem (h.covers hplaced err herr))

/-- The errors of items with tokens of their own, one behind the other. -/
theorem pairwise_of_parts {parts : List (Part Item)} {found : List (Item × List CheckError)}
    (hsame : found.map Prod.fst = parts.map Prod.snd) (hts : InOrder (parts.flatMap Prod.fst))
    (hderives : ∀ q ∈ parts, DerivesItem q.1 q.2) (hitems : ∀ q ∈ parts, q.2 ∈ items)
    (hfound : ∀ q ∈ found, ∃ declared, q.1.Finds declared q.2) :
    (found.flatMap Prod.snd).Pairwise (Follows items) ∧
      ∀ err ∈ found.flatMap Prod.snd, ∃ q ∈ parts, (cover q.1).Covers err.span := by
  -- by induction on the items, whose tokens lie one behind the other
  induction parts generalizing found with
  | nil =>
    obtain rfl := List.map_eq_nil_iff.mp hsame
    simp
  | cons q parts ih =>
    obtain ⟨x, found, rfl⟩ : ∃ x rest, found = x :: rest :=
      List.exists_cons_of_ne_nil fun hnil => by simp [hnil] at hsame
    obtain ⟨hx, hsame⟩ := List.cons.inj hsame
    obtain ⟨hq, hderives⟩ := List.forall_mem_cons.mp hderives
    obtain ⟨hitem, hitems⟩ := List.forall_mem_cons.mp hitems
    obtain ⟨⟨declared, hfinds⟩, hfound⟩ := List.forall_mem_cons.mp hfound
    rw [List.flatMap_cons] at hts
    have hleft := hts.sublist (List.sublist_append_left _ _)
    have hright := hts.sublist (List.sublist_append_right _ _)
    obtain ⟨hpairwise, hcovers⟩ := hfinds.ordered (hx ▸ hq) hleft (hx ▸ hitem)
    obtain ⟨hpairwise', hcovers'⟩ := ih hsame hright hderives hitems hfound
    rw [List.flatMap_cons]
    refine ⟨List.pairwise_append.mpr ⟨hpairwise, hpairwise', fun err herr err' herr' => ?_⟩,
      List.forall_mem_append.mpr ⟨fun err herr => ⟨q, List.mem_cons_self, hcovers err herr⟩,
        fun err herr => ?_⟩⟩
    · -- the tokens of the two items do not mix
      obtain ⟨q', hq', hcovers'⟩ := hcovers' err' herr'
      have hsub := sublist_of_mem_parts hq'
      have hapart := (List.pairwise_append.mp hts.apart).2.2
      have hstop := hleft.cover_stop_le (hright.sublist hsub) hq.ne_nil (hderives q' hq').ne_nil
        fun t ht u hu => hapart t ht u (hsub.subset hu)
      have hbefore := hcovers err herr
      exact .inl (hbefore.forward.trans (hbefore.stop_le.trans (hstop.trans hcovers'.start_le)))
    · obtain ⟨q', hq', hcovers'⟩ := hcovers' err herr
      exact ⟨q', List.mem_cons_of_mem _ hq', hcovers'⟩

end

/-! ## Texts -/

section

variable {source : String} {errors : List SyntaxError}

/-- An error of the lexer is at its piece. -/
theorem error?_span {x : LocatedPiece} {e : LexError} (h : x.error? = some e) :
    e.span = x.span := by
  rw [LocatedPiece.error?] at h
  split at h
  · obtain rfl := Option.some.inj h
    rfl
  · exact absurd h (by simp)

/-- The errors among the tokens of a text come one behind the other, each at some of them. -/
theorem parseTokens_errors {tokens : List LocatedToken} (htokens : tokenize source = .ok tokens)
    (h : parseTokens tokens = .error errors) :
    (errors.Pairwise fun e e' => e.span.start < e'.span.start) ∧
      ∀ e ∈ errors, e.span.IsAmong tokens := by
  obtain ⟨t, rest, rfl⟩ : ∃ t rest, tokens = t :: rest := by
    obtain ⟨located, last, rfl, -⟩ := tokenize_eof htokens
    exact List.exists_cons_of_ne_nil (by simp)
  have hplaces : (Cursor.ofTokens (t :: rest)).faultsAhead <:+ t :: rest := faultPlaces_suffix _ _
  have hascending := (tokenize_ascending htokens).sublist hplaces.sublist
  have herrors := @itemsFrom_errors _ ((t :: rest).length + 1) (tokenize_terminated htokens)
    hascending
  rw [parseTokens] at h
  split at h
  · exact absurd h (by simp)
  · rename_i hitems
    obtain rfl := Except.error.inj h
    rw [hitems] at herrors
    exact ⟨herrors.1, fun e he => (herrors.2 e he).mono hplaces.subset⟩

/-- The errors in the text of a file come one behind the other. -/
theorem pairwise_of_parseCaseFile (h : parseCaseFile source = .error errors) :
    errors.Pairwise fun e e' => e.span.start < e'.span.start := by
  rw [parseCaseFile] at h
  split at h
  · rename_i faults hfaults
    obtain rfl := Except.error.inj h
    rw [List.pairwise_map]
    have hascending := (@locate_ascending {} (pieces source.toList)
      fun q hq => text_ne_nil_of_mem_pieces hq).1
    rw [tokenize] at hfaults
    split at hfaults
    · exact absurd hfaults (by simp)
    · rename_i hall
      obtain rfl := Except.error.inj hfaults
      refine List.pairwise_filterMap.mpr (hascending.imp fun {x y} hxy e he e' he' => ?_)
      rwa [SyntaxError.ofLexError, SyntaxError.ofLexError, error?_span he, error?_span he']
  · -- the errors of the lexer end the reading before any of the parser
    rename_i tokens htokens
    exact (parseTokens_errors htokens h).1

end

/-- The errors of a text are in the order of the text, but for what is found behind the parts of an
expression or behind the value of an alias: of two errors the second one starts before the first one
only if it encloses it. That is when a name gets the wrong number of arguments, an argument does not
meet a constraint or a type cannot be built, and there is an error in the expression, or when an
alias is declared again with an error in its value. Syntax errors are in order without exception. -/
theorem checkSource_errors_ordered (o : Options) (source : String) :
    (∀ errors, parseCaseFile source = .error errors →
      (checkSource o source).errors.Pairwise fun e e' => e.span.start < e'.span.start) ∧
    ∀ f, parseCaseFile source = .ok f →
      (checkSource o source).errors.Pairwise (Follows f.items) := by
  refine ⟨fun errors hparse => ?_, fun f hparse => ?_⟩
  · rw [checkSource, checkSourceWith, hparse]
    exact List.pairwise_map.mpr (pairwise_of_parseCaseFile hparse)
  · rw [checkSource, checkSourceWith, hparse]
    obtain ⟨tokens, parts, htokens, hitems, hturn, hderives⟩ := parseCaseFile_parts hparse
    have hts := (inOrder_of_tokenize htokens).sublist
      (hturn.sublist.trans (List.dropLast_sublist tokens))
    obtain ⟨found, hsame, herrors, hfound⟩ := findsItems_checkFile (tidy_withOptions o) f
    have hmem : ∀ q ∈ parts, q.2 ∈ f.items := fun q hq => hitems ▸ List.mem_map_of_mem hq
    show (checkFile (withOptions o) f).errors.Pairwise _
    rw [herrors]
    exact (pairwise_of_parts (hsame.symm.trans hitems) hts hderives hmem hfound).1

/-- The name of an alias that is declared again stands before an error in its value, which is
recorded first. -/
theorem checkSource_errors_unordered :
    ¬ ((checkSource {} "type A = 1; type A = B;").errors.Pairwise
      fun e e' => e.span.start ≤ e'.span.start) := by
  have herrors : (checkSource {} "type A = 1; type A = B;").errors =
      [⟨.undefinedName "B", ⟨21, 22, 1, 22⟩⟩,
        ⟨.duplicateAlias "A" ⟨5, 6, 1, 6⟩, ⟨17, 18, 1, 18⟩⟩] := by decide +kernel
  rw [herrors]
  decide

end TypeAssay
