import TypeAssay.Proofs.Completeness
import TypeAssay.Proofs.Copies
import TypeAssay.Proofs.Cuts
import TypeAssay.Proofs.Places
import TypeAssay.Proofs.RoundTrip
import TypeAssay.Proofs.SourceOrder

/-!
# Expressions and their texts

The span of an expression in a case file says where it stands, and its text can be cut out there:
read alone, it is the same expression (`parseCaseFile_isFaithful`). The text is a row of pieces,
from the first token of the expression to the last, and it is cut into these again
(`exists_excerpt`), so the tokens are the same but for their places. What derives the expression
from the tokens in the file derives it from those, and what is derived is read.
-/

namespace TypeAssay

open Reader Cursor

/-! ## Texts of tokens -/

/-- Answers in a row come from elements in a row, the first and the last of which give the first and
the last answer. -/
theorem exists_row_of_filterMap {α β : Type} {f : α → Option β} {xs : List α} {us : List β}
    (h : us <:+: xs.filterMap f) (hne : us ≠ []) :
    ∃ before mid after, xs = before ++ (mid ++ after) ∧ mid.filterMap f = us ∧
      (∃ x rest, mid = x :: rest ∧ f x = some (us.head hne)) ∧
      ∃ front y, mid = front ++ [y] ∧ f y = some (us.getLast hne) := by
  -- the row starts at its first element, so what is found before it is cut off
  obtain ⟨left, right, hsplit⟩ := h
  rw [List.append_assoc] at hsplit
  obtain ⟨xs₁, xs₂, rfl, -, hxs₂⟩ := List.filterMap_eq_append_iff.mp hsplit.symm
  rw [← List.dropLast_append_getLast hne, List.append_assoc] at hxs₂
  obtain ⟨xs₃, xs₄, rfl, hxs₃, hxs₄⟩ := List.filterMap_eq_append_iff.mp hxs₂
  obtain ⟨xs₅, y, xs₆, rfl, hxs₅, hy, -⟩ := List.filterMap_eq_cons_iff.mp hxs₄
  -- up to `y` nothing else is found, and the first one found there is the first of the row
  have hfound : (xs₃ ++ (xs₅ ++ [y])).filterMap f = us := by
    rw [List.filterMap_append, List.filterMap_append, hxs₃, List.filterMap_eq_nil_iff.mpr hxs₅,
      List.filterMap_cons_some hy]
    exact List.dropLast_append_getLast hne
  obtain ⟨u, us, rfl⟩ := List.exists_cons_of_ne_nil hne
  obtain ⟨blanks, x, rest, hmid, -, hx, hrest⟩ := List.filterMap_eq_cons_iff.mp hfound
  obtain ⟨front, hfront⟩ : ∃ front, x :: rest = front ++ [y] := by
    have hlast := congrArg List.getLast? hmid
    rw [List.getLast?_append_cons, List.getLast?_append_of_ne_nil _ (by simp)] at hlast
    exact List.getLast?_eq_some_iff.mp (hlast.symm.trans (by simp))
  refine ⟨xs₁ ++ blanks, x :: rest, xs₆, ?_, ?_, ⟨x, rest, rfl, hx⟩, ?_⟩
  · rw [List.append_assoc, ← List.append_assoc blanks, ← hmid]
    simp
  · rw [List.filterMap_cons_some hx, hrest]
  · exact ⟨front, y, hfront, hy⟩

section

variable {source : String} {tokens us : List LocatedToken} {before mid after : List LocatedPiece}

/-- A text with tokens has no faults. -/
theorem error?_of_tokenize (h : tokenize source = .ok tokens) :
    (locatedPieces source).filterMap LocatedPiece.error? = [] := by
  rw [tokenize] at h
  split at h
  · assumption
  · exact absurd h (by simp)

/-- What is no blank among the pieces of a text without errors is a token. -/
theorem lexemes_of_located {located : List LocatedPiece}
    (h : located.filterMap LocatedPiece.error? = []) :
    ((located.map LocatedPiece.piece).map Piece.lexeme).filter (· ≠ .blank) =
      ((located.filterMap LocatedPiece.token?).map LocatedToken.token).map .token := by
  induction located with
  | nil => rfl
  | cons x located ih =>
    cases hx : x.piece.lexeme with
    | blank =>
      have h' : located.filterMap LocatedPiece.error? = [] := by
        simpa [LocatedPiece.error?, hx] using h
      simpa [LocatedPiece.token?, hx] using ih h'
    | token t =>
      have h' : located.filterMap LocatedPiece.error? = [] := by
        simpa [LocatedPiece.error?, hx] using h
      simpa [LocatedPiece.token?, hx] using ih h'
    | fault f => simp [LocatedPiece.error?, hx] at h

/-- The span over a row of pieces, from the first to the last. -/
theorem cover_of_located (hus : InOrder us) (hne : us ≠ [])
    (hsplit : locatedPieces source = before ++ (mid ++ after))
    (hfirst : ∃ x rest, mid = x :: rest ∧ x.token? = some (us.head hne))
    (hlast : ∃ front y, mid = front ++ [y] ∧ y.token? = some (us.getLast hne)) :
    cover us = .behind (textOf before) (textOf mid) := by
  obtain ⟨x, rest, rfl, hx⟩ := hfirst
  obtain ⟨front, y, hfront, hy⟩ := hlast
  obtain ⟨u, us, rfl⟩ := List.exists_cons_of_ne_nil hne
  have hxspan := (token?_span hx).trans (span_of_locatedPieces hsplit)
  have hsplit' : locatedPieces source = before ++ front ++ y :: after := by
    rw [hsplit, hfront]
    simp
  have hyspan := (token?_span hy).trans (span_of_locatedPieces hsplit')
  rw [List.head_cons] at hxspan
  rw [hus.cover_cons, hxspan, hyspan, hfront]
  simp only [Span.behind, textOf, List.flatMap_append, List.flatMap_singleton, byteLength_append,
    Nat.add_assoc]

/-- The text from a token to a later one stands at their span, and alone it is cut into the same
tokens. -/
theorem exists_excerpt (htokens : tokenize source = .ok tokens) (hus : us <:+: tokens.dropLast)
    (hne : us ≠ []) : ∃ (before text after : List Char) (vs : List LocatedToken)
      (last : LocatedToken), source.toList = before ++ (text ++ after) ∧
      cover us = .behind before text ∧ tokenize (String.ofList text) = .ok (vs ++ [last]) ∧
      Copies vs us ∧ last.token = .eof := by
  have hinorder := inOrder_of_row htokens hus
  rw [tokenize_eq htokens, List.dropLast_concat] at hus
  obtain ⟨before, mid, after, hsplit, hmid, hfirst, hlast⟩ := exists_row_of_filterMap hus hne
  have hcover := cover_of_located hinorder hne hsplit hfirst hlast
  have herrors : mid.filterMap LocatedPiece.error? = [] := by
    have hall := error?_of_tokenize htokens
    rw [hsplit, List.filterMap_append, List.append_eq_nil_iff, List.filterMap_append,
      List.append_eq_nil_iff] at hall
    exact hall.2.1
  -- the pieces of an excerpt are those of the text that lie in it
  have hpieces : pieces (textOf mid) = mid.map LocatedPiece.piece := by
    have hall := map_piece_locatedPieces source
    rw [hsplit, List.map_append, List.map_append] at hall
    have := pieces_flatMap_text hall.symm
    rwa [List.flatMap_map] at this
  have hlexemes : lexemes (String.ofList (textOf mid)).toList =
      (us.map LocatedToken.token).map .token := by
    rw [String.toList_ofList, lexemes, hpieces, lexemes_of_located herrors, hmid]
  obtain ⟨located, hlocated, hsame⟩ := tokenize_of_lexemes hlexemes
  obtain ⟨vs, ws, rfl, hvs, hws⟩ := List.map_eq_append_iff.mp hsame
  obtain ⟨last, rfl, hlast⟩ := List.map_eq_singleton_iff.mp hws
  refine ⟨textOf before, textOf mid, textOf after, vs, last, ?_, hcover, hlocated, hvs, hlast⟩
  rw [← textOf_locatedPieces, hsplit]
  simp [textOf]

end

/-! ## Reading an expression alone -/

/-- The end of the text goes on with nothing. -/
theorem Cursor.endsExpression_of_eof {c : Cursor} (h : c.current.token = .eof) :
    c.EndsExpression where
  less := by simp [sees, Cursor.token, h]
  array := by simp [arrayAhead, sees, Cursor.token, h]
  amp := by simp [sees, Cursor.token, h]
  pipe := by simp [sees, Cursor.token, h]

section

variable {source : String} {tokens ts us : List LocatedToken} {e : TypeExpr} {n : Nat}

/-- The tokens of an expression, at other places and with the end behind them, are read as it. -/
theorem Derives.exists_on_copies (h : Derives .accepted maxDepth ts (.expression e))
    (hus : Copies us ts) {last : LocatedToken} (hlast : last.token = .eof) :
    ∃ e' c, typeExpr.on (ofTokens (us ++ [last])) = (.ok e', c) ∧ c.atEnd ∧ e'.bare = e.bare := by
  obtain ⟨e', hsame, hderives⟩ := h.isCopied us hus
  obtain ⟨u, rest, htokens⟩ : ∃ u rest, us ++ [last] = u :: rest :=
    List.exists_cons_of_ne_nil (by simp)
  have hahead : (ofTokens (us ++ [last])).current :: (ofTokens (us ++ [last])).rest =
      us ++ last :: [] := by
    rw [htokens]
    rfl
  obtain ⟨c, hmoves, hcurrent, -⟩ := Moves.exists_of_ahead_eq hahead
  have heof : c.current.token = .eof := hcurrent ▸ hlast
  refine ⟨e', c, hderives.isRead _ c hmoves (endsExpression_of_eof heof), ?_, hsame⟩
  simp [atEnd, Cursor.token, heof]

/-- What is cut out of a text is what stands there. -/
theorem slice_behind {before text after : List Char}
    (h : source.toList = before ++ (text ++ after)) :
    (Span.behind before text).slice source = String.ofList text := by
  have hlength : (Span.behind before text).length = byteLength text := Nat.add_sub_cancel_left _ _
  rw [Span.slice, hlength, h]
  simp only [Span.behind, dropBytes_append, takeBytes_append]

/-- The text under an expression is read as the expression. -/
theorem DerivesWithin.readsTo_slice (h : DerivesWithin tokens.dropLast e)
    (htokens : tokenize source = .ok tokens) :
    ∃ e', ReadsTo (e.span.slice source) e' ∧ e'.bare = e.bare := by
  obtain ⟨us, hus, hderives⟩ := h
  have horder := inOrder_of_row htokens hus
  obtain ⟨before, text, after, vs, last, hsource, hcover, htext, hvs, hlast⟩ :=
    exists_excerpt htokens hus hderives.ne_nil
  obtain ⟨e', c, hon, hend, hsame⟩ := hderives.exists_on_copies hvs hlast
  rw [hderives.span_eq_cover horder e rfl, hcover, slice_behind hsource]
  exact ⟨e', ⟨vs ++ [last], c, htext, hon, hend⟩, hsame⟩

end

/-! ## Properties and aliases -/

/-- The properties that an expression lists. -/
def TypeExpr.properties : TypeExpr → List PropertyExpr
  | .object properties _ => properties
  | _ => []

namespace TypeExpr

variable {e e' : TypeExpr} {s : Span}

/-- The properties do not depend on the span. -/
@[simp]
theorem properties_withSpan : (e.withSpan s).properties = e.properties := by cases e <;> rfl

/-- A mark before an expression is no property of it. -/
@[simp]
theorem properties_ledBy {pipe : Option LocatedToken} :
    (e.ledBy pipe).properties = e.properties := by
  cases pipe with
  | none => rfl
  | some t => exact properties_withSpan

/-- A sequence has no properties. -/
theorem properties_asReadonly? (h : e.asReadonly? s = some e') : e'.properties = [] := by
  cases e with
  | array _ _ _ | tuple _ _ _ =>
    obtain rfl := Option.some.inj h
    rfl
  | _ => exact absurd h (by simp [asReadonly?])

/-- An expression without parts has no properties. -/
theorem properties_of_parts (h : e.parts = []) : e.properties = [] := by
  cases e with
  | object properties _ => exact List.map_eq_nil_iff.mp h
  | _ => rfl

end TypeExpr

section

variable {n : Nat} {ts tokens : List LocatedToken} {p : Phrase} {q : PropertyExpr} {e : TypeExpr}

/-- The properties of an expression have tokens of their own. -/
theorem Derives.exists_property (h : Derives .accepted n ts p) : ∀ e ∈ p.expr?, ∀ q ∈ e.properties,
    ∃ us m, us <:+: ts ∧ Derives .accepted m us (.property q) := by
  -- by induction on the derivation: only objects have properties, and other forms pass them on
  induction h with
  | value ht =>
    rintro _ ⟨⟩
    simp [TypeExpr.properties_of_parts (TypeExpr.parts_of_value? ht)]
  | negated _ ht =>
    rintro _ ⟨⟩
    simp [TypeExpr.properties_of_parts (TypeExpr.parts_of_negated? ht)]
  | @object n left right properties ts _ _ hproperties hts _ =>
    rintro _ ⟨⟩ q hq
    obtain ⟨part, hpart, rfl⟩ := List.mem_map.mp hq
    have hinfix := hts.inTurn.infix_of_mem hpart
    exact ⟨part.1, n, hinfix.trans (List.infix_append' [left] ts [right]), hproperties part hpart⟩
  | @parentheses _ left right _ ts _ _ _ ih =>
    rintro _ ⟨⟩
    rw [TypeExpr.properties_withSpan]
    intro q hq
    obtain ⟨us, m, hus, hderives⟩ := ih _ rfl q hq
    exact ⟨us, m, hus.trans (List.infix_append' [left] ts [right]), hderives⟩
  | plain _ ih | operand _ ih | single _ ih => exact ih
  | readonly _ _ he _ =>
    rintro _ ⟨⟩
    simp [TypeExpr.properties_asReadonly? he]
  | alone _ _ ih =>
    rintro _ ⟨⟩
    rw [TypeExpr.properties_ledBy]
    intro q hq
    obtain ⟨us, m, hus, hderives⟩ := ih _ rfl q hq
    exact ⟨us, m, hus.trans (List.suffix_append _ _).isInfix, hderives⟩
  | name _ | call _ _ _ _ _ _ | tuple _ _ _ _ _ | array _ _ _ _ | intersection _ _ _
  | union _ _ _ _ =>
    rintro _ ⟨⟩
    simp [TypeExpr.properties]
  | property _ _ _ _ _ _ => simp [Phrase.expr?]

/-- From a token to the end of those behind it. -/
theorem InOrder.merge_cover_of_suffix {t : LocatedToken} {us : List LocatedToken}
    (h : InOrder (t :: ts)) (hus : us <:+ ts) (hne : us ≠ []) :
    t.span.merge (cover us) = cover (t :: ts) := by
  obtain ⟨between, rfl⟩ := hus
  rw [← cover_singleton]
  exact @InOrder.merge_cover [t] between us h (List.cons_ne_nil _ _) hne

/-- The span of a property goes from its first token to its last one, which is that of its type. -/
theorem Derives.span_property (h : Derives .accepted n ts (.property q)) (hts : InOrder ts) :
    q.span = cover ts := by
  cases h with
  | @property _ modifier mark name colon s e us _ _ _ _ h =>
    have hsuffix : us <:+ mark.toList ++ colon :: us := ⟨mark.toList ++ [colon], by simp⟩
    have hinner : us <:+ modifier.toList ++ name :: (mark.toList ++ colon :: us) :=
      ⟨modifier.toList ++ name :: (mark.toList ++ [colon]), by simp⟩
    have hspan := h.span_eq_cover (hts.sublist hinner.sublist) e rfl
    cases modifier with
    | none =>
      show name.span.merge e.span = _
      rw [hspan]
      exact hts.merge_cover_of_suffix hsuffix h.ne_nil
    | some t =>
      show t.span.merge e.span = _
      rw [hspan]
      exact hts.merge_cover_of_suffix (hsuffix.trans (List.suffix_cons name _)) h.ne_nil

/-- The properties of an expression stand within it, and their types within them. -/
theorem DerivesWithin.covers_properties (h : DerivesWithin ts e) (hts : InOrder ts) :
    ∀ q ∈ e.properties, e.span.Covers q.span ∧ q.span.Covers q.type.span := by
  intro q hq
  obtain ⟨us, hus, hderives⟩ := h
  have hexpr := hts.sublist hus.sublist
  obtain ⟨vs, m, hvs, hproperty⟩ := hderives.exists_property e rfl q hq
  have hinner := hexpr.sublist hvs.sublist
  obtain ⟨ws, hws, htype⟩ := hproperty.exists_type
  have htypespan := htype.span_eq_cover (hinner.sublist hws.sublist) _ rfl
  rw [hderives.span_eq_cover hexpr e rfl, hproperty.span_property hinner, htypespan]
  exact ⟨hexpr.covers_of_sublist hproperty.ne_nil hvs.sublist,
    hinner.covers_of_sublist htype.ne_nil hws.sublist⟩

/-- A merged span covers the second one. -/
theorem Span.merge_covers {s t : Span} (h : t.start ≤ t.stop) : (s.merge t).Covers t :=
  ⟨Nat.min_le_right _ _, h, Nat.le_max_right _ _⟩

/-- The value of an alias stands within the alias. -/
theorem DerivesItem.covers_value {d : AliasDecl} (h : DerivesItem ts (.alias d))
    (hts : InOrder ts) : d.span.Covers d.value.span := by
  have hforward := (h.within.isPlaced hts).forward
  cases h with
  | declaration => exact Span.merge_covers hforward

end

/-! ## Faithful spans -/

/-- The span of an expression says where it stands in a text: both ends are between characters, the
line and the column are those of the start, all that is in the expression stands within it, each
property with its type, and the text there, read alone, is the same expression but for its spans. -/
structure TypeExpr.IsFaithful (source : String) (e : TypeExpr) : Prop where
  stands : e.span.IsIn source.toList
  covers : ∀ x, e.Holds x → e.span.Covers x.span
  properties : ∀ q ∈ e.properties, e.span.Covers q.span ∧ q.span.Covers q.type.span
  reads : ∃ e', ReadsTo (e.span.slice source) e' ∧ e'.bare = e.bare

section

variable {source : String} {f : CaseFile} {tokens : List LocatedToken} {e : TypeExpr}

/-- What is derived within the tokens of a text is read again from its slice. -/
theorem DerivesWithin.isFaithful (h : DerivesWithin tokens.dropLast e)
    (htokens : tokenize source = .ok tokens) : e.IsFaithful source where
  stands := (h.mono (List.dropLast_prefix tokens).isInfix).isIn htokens
  covers _ hx := hx.covers fun _ hy =>
    (h.of_holds hy).isPlaced (inOrder_of_row htokens List.infix_rfl)
  properties := h.covers_properties (inOrder_of_row htokens List.infix_rfl)
  reads := h.readsTo_slice htokens

/-- The spans in a case file are faithful: those of all expressions in it, at any depth, and those
of aliases, which are around their values. -/
theorem parseCaseFile_isFaithful (h : parseCaseFile source = .ok f) :
    (∀ i ∈ f.items, ∀ e, i.value.Holds e → e.IsFaithful source) ∧
      ∀ d, Item.alias d ∈ f.items → d.span.Covers d.value.span := by
  constructor
  · intro i hi e he
    obtain ⟨tokens, ts, htokens, hts, hderives⟩ := exists_derivesItem h hi
    exact ((hderives.within.mono hts).of_holds he).isFaithful htokens
  · intro d hd
    obtain ⟨tokens, ts, htokens, hts, hderives⟩ := exists_derivesItem h hd
    exact hderives.covers_value (inOrder_of_row htokens hts)

/-- An alias with a property, whose type is a name with a pipe before it in parentheses. -/
def widened : String := "type A = \x7bb: (/* ü */ | C)\x7d"

def widenedTokens : List LocatedToken :=
  [⟨.keyword .type, ⟨0, 4, 1, 1⟩⟩, ⟨.identifier "A", ⟨5, 6, 1, 6⟩⟩,
    ⟨.punctuation .equal, ⟨7, 8, 1, 8⟩⟩, ⟨.punctuation .leftBrace, ⟨9, 10, 1, 10⟩⟩,
    ⟨.identifier "b", ⟨10, 11, 1, 11⟩⟩, ⟨.punctuation .colon, ⟨11, 12, 1, 12⟩⟩,
    ⟨.punctuation .leftParen, ⟨13, 14, 1, 14⟩⟩, ⟨.punctuation .pipe, ⟨23, 24, 1, 23⟩⟩,
    ⟨.identifier "C", ⟨25, 26, 1, 25⟩⟩, ⟨.punctuation .rightParen, ⟨26, 27, 1, 26⟩⟩,
    ⟨.punctuation .rightBrace, ⟨27, 28, 1, 27⟩⟩, ⟨.eof, ⟨28, 28, 1, 28⟩⟩]

/-- The name in `widened`, with the parentheses and what is in them. -/
def widenedName : TypeExpr := .named "C" [] ⟨13, 27, 1, 14⟩

def widenedAlias : AliasDecl where
  name := "A"
  nameSpan := ⟨5, 6, 1, 6⟩
  exported := false
  value := .object [.mk "b" widenedName false false ⟨10, 27, 1, 11⟩] ⟨9, 28, 1, 10⟩
  span := ⟨0, 28, 1, 1⟩

/-- The text of the name has the parentheses, and it is read as the name. -/
theorem parseCaseFile_isFaithful_widened :
    parseCaseFile widened = .ok ⟨[.alias widenedAlias]⟩ ∧
      widenedName.span.slice widened = "(/* ü */ | C)" ∧ widenedName.IsFaithful widened ∧
      widenedAlias.span.Covers widenedAlias.value.span := by
  have htokens : tokenize widened = .ok widenedTokens := by decide +kernel
  have hparse : parseCaseFile widened = .ok ⟨[.alias widenedAlias]⟩ := by
    rw [parseCaseFile, htokens]
    rfl
  have hholds : widenedAlias.value.Holds widenedName :=
    .part (List.mem_singleton_self widenedName) (.self widenedName)
  obtain ⟨hitems, haliases⟩ := parseCaseFile_isFaithful hparse
  exact ⟨hparse, by decide +kernel, hitems _ List.mem_cons_self _ hholds,
    haliases _ List.mem_cons_self⟩

end

end TypeAssay
