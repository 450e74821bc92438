import TypeAssay.Proofs.Levels
import TypeAssay.Proofs.Positions
import TypeAssay.Proofs.Records

/-!
# Expressions and their parts

Every expression in a case file has been read from tokens of its own: those of a part are among
those of the whole (`DerivesWithin.of_holds`), and those of two parts do not mix (`Derives.parts`).
So the span of an expression goes from its first token to its last one (`Derives.span_eq_cover`),
the spans of its parts are within it, and they come one behind the other (`DerivesWithin.isPlaced`).
-/

namespace TypeAssay

open Reader

/-! ## Parts -/

namespace TypeExpr

/-- The expressions that an expression is made of, in the order of the text. -/
def parts : TypeExpr → List TypeExpr
  | named _ args _ => args
  | number _ _ | bigint _ _ | string _ _ => []
  | union members _ | intersection members _ => members
  | array element _ _ => [element]
  | tuple elements _ _ => elements
  | object properties _ => properties.map PropertyExpr.type

/-- The expression `x` is `e`, or it is in a part of `e`. -/
inductive Holds : TypeExpr → TypeExpr → Prop
  | self (e : TypeExpr) : Holds e e
  | part {e p x : TypeExpr} (hp : p ∈ e.parts) (h : Holds p x) : Holds e x

/-- What a part holds, the whole holds. -/
theorem Holds.trans {e x y : TypeExpr} (h : e.Holds x) (h' : x.Holds y) : e.Holds y := by
  induction h with
  | self _ => exact h'
  | part hp _ ih => exact .part hp (ih h')

variable {e e' : TypeExpr} {s : Span} {t : Token} {f : Span → TypeExpr}

/-- The parts do not depend on the span. -/
@[simp]
theorem parts_withSpan : (e.withSpan s).parts = e.parts := by cases e <;> rfl

/-- A mark before an expression is no part of it. -/
@[simp]
theorem parts_ledBy {pipe : Option LocatedToken} : (e.ledBy pipe).parts = e.parts := by
  cases pipe with
  | none => rfl
  | some t => exact parts_withSpan

/-- A sequence keeps its parts when it becomes readonly. -/
theorem parts_asReadonly? (h : e.asReadonly? s = some e') : e'.parts = e.parts := by
  cases e with
  | array _ _ _ | tuple _ _ _ =>
    obtain rfl := Option.some.inj h
    rfl
  | _ => exact absurd h (by simp [asReadonly?])

/-- A value has no parts. -/
theorem parts_of_value? (h : t.value? = some f) : (f s).parts = [] := by
  cases t with
  | number _ | bigint _ | string _ =>
    obtain rfl := Option.some.inj h
    rfl
  | _ => exact absurd h (by simp [Token.value?])

/-- A negative numeral has no parts. -/
theorem parts_of_negated? (h : t.negated? = some f) : (f s).parts = [] := by
  cases t with
  | number _ | bigint _ =>
    obtain rfl := Option.some.inj h
    rfl
  | _ => exact absurd h (by simp [Token.negated?])

end TypeExpr

/-! ## Spans of tokens -/

/-- The span `t` is within the span `s`, and it does not run backwards. -/
structure Span.Covers (s t : Span) : Prop where
  start_le : s.start ≤ t.start
  forward : t.start ≤ t.stop
  stop_le : t.stop ≤ s.stop

namespace Span

variable {s t u : Span}

/-- A span inside another is inside what that is inside. -/
theorem Covers.trans (h : s.Covers t) (h' : t.Covers u) : s.Covers u where
  start_le := h.start_le.trans h'.start_le
  forward := h'.forward
  stop_le := h'.stop_le.trans h.stop_le

/-- A span that does not run backwards covers itself. -/
theorem covers_self (h : s.start ≤ s.stop) : s.Covers s := ⟨Nat.le_refl _, h, Nat.le_refl _⟩

/-- From the start of the first span to the end of the last. -/
theorem merge_eq (hstart : s.start ≤ t.start) (hstop : s.stop ≤ t.stop) :
    s.merge t = ⟨s.start, t.stop, s.line, s.column⟩ := by
  simp only [merge, if_pos hstart, Nat.min_eq_left hstart, Nat.max_eq_right hstop]

end Span

/-- The tokens come one behind the other. -/
structure InOrder (ts : List LocatedToken) : Prop where
  forward : ∀ t ∈ ts, t.span.start ≤ t.span.stop
  apart : ts.Pairwise fun t u => t.span.stop ≤ u.span.start

namespace InOrder

variable {t u : LocatedToken} {ts us vs : List LocatedToken}

/-- Some tokens of a list in order are in order. -/
theorem sublist (h : InOrder us) (hts : ts.Sublist us) : InOrder ts :=
  ⟨fun t ht => h.forward t (hts.subset ht), h.apart.sublist hts⟩

/-- The first token starts first and stops first. -/
theorem head_le (h : InOrder (t :: ts)) (hu : u ∈ t :: ts) :
    t.span.start ≤ u.span.start ∧ t.span.stop ≤ u.span.stop := by
  rcases List.mem_cons.mp hu with rfl | hu
  · exact ⟨Nat.le_refl _, Nat.le_refl _⟩
  · have htu := (List.pairwise_cons.mp h.apart).1 u hu
    have ht := h.forward t List.mem_cons_self
    have hu' := h.forward u (List.mem_cons_of_mem _ hu)
    omega

/-- Tokens in order are covered from the start of the first to the end of the last. -/
theorem cover_cons (h : InOrder (t :: ts)) : cover (t :: ts) =
    ⟨t.span.start, ((t :: ts).getLast (List.cons_ne_nil _ _)).span.stop, t.span.line,
      t.span.column⟩ := by
  obtain ⟨hstart, hstop⟩ := h.head_le (List.getLast_mem (List.cons_ne_nil t ts))
  exact Span.merge_eq hstart hstop

/-- The last token stops last. -/
theorem stop_le_getLast (h : InOrder ts) (hu : u ∈ ts) (hts : ts ≠ []) :
    u.span.stop ≤ (ts.getLast hts).span.stop := by
  induction ts with
  | nil => exact absurd rfl hts
  | cons t ts ih =>
    have hlast := (h.head_le (List.getLast_mem hts)).2
    rcases List.mem_cons.mp hu with rfl | hu
    · exact hlast
    · have hne := List.ne_nil_of_mem hu
      rw [List.getLast_cons hne]
      exact ih (h.sublist (List.sublist_cons_self _ _)) hu hne

/-- The span from the first token to the last covers all of them. -/
theorem cover_covers (h : InOrder ts) (hu : u ∈ ts) : (cover ts).Covers u.span := by
  obtain ⟨t, ts, rfl⟩ := List.exists_cons_of_ne_nil (List.ne_nil_of_mem hu)
  rw [h.cover_cons]
  exact ⟨(h.head_le hu).1, h.forward u hu, h.stop_le_getLast hu _⟩

/-- It starts with one of them, and it stops with one of them. -/
theorem exists_cover (h : InOrder ts) (hts : ts ≠ []) :
    ∃ t ∈ ts, ∃ u ∈ ts, (cover ts).start = t.span.start ∧ (cover ts).stop = u.span.stop := by
  obtain ⟨t, ts, rfl⟩ := List.exists_cons_of_ne_nil hts
  exact ⟨t, List.mem_cons_self, _, List.getLast_mem _, by rw [h.cover_cons], by rw [h.cover_cons]⟩

/-- Tokens in order are covered forwards. -/
theorem cover_forward (h : InOrder ts) (hts : ts ≠ []) : (cover ts).start ≤ (cover ts).stop := by
  obtain ⟨t, ht, -⟩ := h.exists_cover hts
  have := h.cover_covers ht
  exact this.start_le.trans (this.forward.trans this.stop_le)

/-- The span of some of the tokens is within the span of all. -/
theorem covers_of_sublist (h : InOrder us) (hts : ts ≠ []) (hsub : ts.Sublist us) :
    (cover us).Covers (cover ts) := by
  have hinner := h.sublist hsub
  obtain ⟨t, ht, u, hu, hstart, hstop⟩ := hinner.exists_cover hts
  refine ⟨?_, hinner.cover_forward hts, ?_⟩
  · rw [hstart]
    exact (h.cover_covers (hsub.subset ht)).start_le
  · rw [hstop]
    exact (h.cover_covers (hsub.subset hu)).stop_le

/-- Tokens that come before others stop before these start. -/
theorem cover_stop_le (hts : InOrder ts) (hus : InOrder us) (hne : ts ≠ []) (hne' : us ≠ [])
    (h : ∀ t ∈ ts, ∀ u ∈ us, t.span.stop ≤ u.span.start) : (cover ts).stop ≤ (cover us).start := by
  obtain ⟨-, -, t, ht, -, hstop⟩ := hts.exists_cover hne
  obtain ⟨u, hu, -, -, hstart, -⟩ := hus.exists_cover hne'
  rw [hstop, hstart]
  exact h t ht u hu

/-- The spans at both ends make the span of the whole. -/
theorem merge_cover (h : InOrder (ts ++ (us ++ vs))) (hts : ts ≠ []) (hvs : vs ≠ []) :
    (cover ts).merge (cover vs) = cover (ts ++ (us ++ vs)) := by
  have hleft : ts.Sublist (ts ++ (us ++ vs)) := List.sublist_append_left _ _
  have hright : vs.Sublist (ts ++ (us ++ vs)) :=
    (List.sublist_append_right us vs).trans (List.sublist_append_right _ _)
  obtain ⟨t, ts, rfl⟩ := List.exists_cons_of_ne_nil hts
  obtain ⟨v, vs, rfl⟩ := List.exists_cons_of_ne_nil hvs
  have hlast : (t :: ts ++ (us ++ v :: vs)).getLast (List.cons_ne_nil _ _) =
      (v :: vs).getLast (List.cons_ne_nil _ _) := by
    rw [List.getLast_append_of_ne_nil _ (by simp), List.getLast_append_of_ne_nil]
  have hcover : cover (t :: ts ++ (us ++ v :: vs)) = ⟨t.span.start,
      ((v :: vs).getLast (List.cons_ne_nil _ _)).span.stop, t.span.line, t.span.column⟩ := by
    rw [← hlast]
    exact h.cover_cons
  have hstart := (h.head_le (hright.subset List.mem_cons_self)).1
  have hstop := (h.covers_of_sublist (List.cons_ne_nil _ _) hleft).stop_le
  rw [hcover] at hstop ⊢
  rw [(h.sublist hleft).cover_cons] at hstop ⊢
  rw [(h.sublist hright).cover_cons]
  exact Span.merge_eq hstart hstop

end InOrder

/-- A token covers itself. -/
theorem cover_singleton (t : LocatedToken) : cover [t] = t.span :=
  Span.merge_eq (Nat.le_refl _) (Nat.le_refl _)

/-- The marks around an expression cover it. -/
theorem cover_enclosed (left right : LocatedToken) (ts : List LocatedToken) :
    cover (left :: (ts ++ [right])) = left.span.merge right.span := by
  rw [cover, List.getLast_cons (by simp), List.getLast_append_singleton]

/-- The tokens of a text come one behind the other. -/
theorem inOrder_of_tokenize {source : String} {tokens : List LocatedToken}
    (h : tokenize source = .ok tokens) : InOrder tokens := by
  have hpieces : ∀ x ∈ locatedPieces source, x.span.start ≤ x.span.stop ∧
      x.span.stop ≤ byteLength source.toList := by
    intro x hx
    obtain ⟨before, after, hsplit⟩ := List.append_of_mem hx
    have hlength := congrArg byteLength (toList_of_locatedPieces hsplit)
    rw [span_of_locatedPieces hsplit]
    simp only [Span.behind, byteLength_append] at hlength ⊢
    omega
  -- a token of the text is at the place of its piece
  have hplaced : ∀ t ∈ (locatedPieces source).filterMap LocatedPiece.token?,
      ∃ x ∈ locatedPieces source, t.span = x.span := by
    intro t ht
    obtain ⟨x, hx, htoken⟩ := List.mem_filterMap.mp ht
    exact ⟨x, hx, token?_span htoken⟩
  rw [tokenize_eq h, endSpan_eq]
  constructor
  · intro t ht
    rcases List.mem_append.mp ht with ht | ht
    · obtain ⟨x, hx, hspan⟩ := hplaced t ht
      rw [hspan]
      exact (hpieces x hx).1
    · obtain rfl := List.mem_singleton.mp ht
      exact Nat.le_add_right _ _
  · refine List.pairwise_append.mpr ⟨?_, List.pairwise_singleton _ _, fun t ht u hu => ?_⟩
    · refine List.pairwise_filterMap.mpr ((pairwise_locatedPieces source).imp ?_)
      intro x y hxy t ht u hu
      rwa [token?_span ht, token?_span hu]
    · obtain ⟨x, hx, hspan⟩ := hplaced t ht
      obtain rfl := List.mem_singleton.mp hu
      rw [hspan]
      exact (hpieces x hx).2

/-- Tokens of a text in a row, all before the mark of the end, come one behind the other. -/
theorem inOrder_of_row {source : String} {tokens us : List LocatedToken}
    (h : tokenize source = .ok tokens) (hus : us <:+: tokens.dropLast) : InOrder us :=
  (inOrder_of_tokenize h).sublist (hus.sublist.trans (List.dropLast_sublist tokens))

/-! ## The tokens of an expression -/

/-- The tokens of a part are some of those of all parts. -/
theorem sublist_of_mem_parts {α : Type} {q : Part α} {parts : List (Part α)} (h : q ∈ parts) :
    q.1.Sublist (parts.flatMap Prod.fst) :=
  List.sublist_flatten_of_mem (List.mem_map_of_mem h)

/-- Tokens in a row among others are the expression. -/
def DerivesWithin (ts : List LocatedToken) (e : TypeExpr) : Prop :=
  ∃ us, us <:+: ts ∧ Derives .accepted maxDepth us (.expression e)

section

variable {n : Nat} {ts us : List LocatedToken} {p : Phrase} {e x : TypeExpr}

/-- What is derived within some tokens is so within more. -/
theorem DerivesWithin.mono (h : DerivesWithin us e) (hus : us <:+: ts) : DerivesWithin ts e := by
  obtain ⟨vs, hvs, hderives⟩ := h
  exact ⟨vs, hvs.trans hus, hderives⟩

/-- The span of an expression goes from its first token to its last one. -/
theorem Derives.span_eq_cover (h : Derives .accepted n ts p) :
    InOrder ts → ∀ e ∈ p.expr?, e.span = cover ts := by
  -- by induction on the derivation; where spans are merged, so are the covers
  induction h with
  | value ht =>
    rintro - _ ⟨⟩
    rw [span_of_value? ht, cover_singleton]
  | negated _ ht =>
    rintro - _ ⟨⟩
    rw [span_of_negated? ht]
    rfl
  | name _ | call _ _ _ _ _ _ | intersection _ _ _ | union _ _ _ _ =>
    rintro - _ ⟨⟩
    rfl
  | tuple _ _ _ _ _ | object _ _ _ _ _ =>
    rintro - _ ⟨⟩
    exact (cover_enclosed _ _ _).symm
  | parentheses _ _ _ _ =>
    rintro - _ ⟨⟩
    rw [TypeExpr.span_withSpan, cover_enclosed]
  | plain _ ih | operand _ ih | single _ ih => exact ih
  | @array _ left right e ts h _ _ ih =>
    rintro hts _ ⟨⟩
    have he := ih (hts.sublist (List.sublist_append_left _ _)) e rfl
    have hmerge := @InOrder.merge_cover ts [left] [right] hts h.ne_nil (List.cons_ne_nil _ _)
    rwa [cover_singleton, ← he] at hmerge
  | @readonly _ t e e' ts _ h he ih =>
    rintro hts _ ⟨⟩
    have hspan := ih (hts.sublist (List.sublist_cons_self _ _)) e rfl
    have hmerge := @InOrder.merge_cover [t] [] ts hts (List.cons_ne_nil _ _) h.ne_nil
    rw [cover_singleton, ← hspan] at hmerge
    exact (TypeExpr.span_asReadonly? he).trans hmerge
  | @alone _ pipe e ts _ h ih =>
    rintro hts _ ⟨⟩
    have he := ih (hts.sublist (List.sublist_append_right _ _)) e rfl
    cases pipe with
    | none => exact he
    | some t =>
      have hmerge := @InOrder.merge_cover [t] [] ts hts (List.cons_ne_nil _ _) h.ne_nil
      rw [cover_singleton, ← he] at hmerge
      exact (TypeExpr.span_withSpan _ _).trans hmerge
  | property _ _ _ _ _ _ => simp [Phrase.expr?]

/-- The type of a property has tokens of its own. -/
theorem Derives.exists_type {q : PropertyExpr} (h : Derives .accepted n ts (.property q)) :
    ∃ us, us <:+: ts ∧ Derives .accepted n us (.expression q.type) := by
  cases h with
  | @property _ modifier mark name colon s e us _ _ _ _ h =>
    refine ⟨us, List.IsSuffix.isInfix ⟨modifier.toList ++ name :: (mark.toList ++ [colon]), ?_⟩, h⟩
    simp

/-- The parts of an expression have tokens of their own, one behind the other. -/
theorem Derives.parts (h : Derives .accepted n ts p) : ∀ e ∈ p.expr?,
    ∃ parts : List (Part TypeExpr), e.parts = parts.map Prod.snd ∧ InTurn parts ts ∧
      ∀ q ∈ parts, Derives .accepted (p.level n) q.1 (.expression q.2) := by
  -- by induction on the derivation; a part is an expression of its own one level deeper
  induction h with
  | value ht =>
    rintro _ ⟨⟩
    exact ⟨[], TypeExpr.parts_of_value? ht, .nil _, by simp⟩
  | negated _ ht =>
    rintro _ ⟨⟩
    exact ⟨[], TypeExpr.parts_of_negated? ht, .nil _, by simp⟩
  | name _ =>
    rintro _ ⟨⟩
    exact ⟨[], rfl, .nil _, by simp⟩
  | @call n t left _ _ _ _ _ _ _ _ hargs hts _ =>
    rintro _ ⟨⟩
    exact ⟨_, rfl, (hts.inTurn.append_right _).append_left [t, left],
      fun q hq => (hargs q hq).mono n.le_succ⟩
  | @tuple n left _ _ _ _ _ helements hts _ =>
    rintro _ ⟨⟩
    exact ⟨_, rfl, (hts.inTurn.append_right _).append_left [left],
      fun q hq => (helements q hq).mono n.le_succ⟩
  | @object n left _ properties _ _ _ hproperties hts _ =>
    rintro _ ⟨⟩
    obtain ⟨parts, hsame, hturn, hparts⟩ := hts.inTurn.exists_inner
      (f := PropertyExpr.type) (E := fun q => Derives .accepted (n + 1) q.1 (.expression q.2))
      fun q hq => (hproperties q hq).exists_type.imp fun _ h =>
        h.imp_right (Derives.mono · n.le_succ)
    exact ⟨parts, by rw [TypeExpr.parts, List.map_map, ← hsame]; rfl,
      (hturn.append_right _).append_left [left], hparts⟩
  | @parentheses n left _ _ _ _ _ _ ih =>
    rintro _ ⟨⟩
    obtain ⟨parts, he, hts, hparts⟩ := ih _ rfl
    exact ⟨parts, TypeExpr.parts_withSpan.trans he, (hts.append_right _).append_left [left],
      fun q hq => (hparts q hq).mono n.le_succ⟩
  | plain _ ih | operand _ ih | single _ ih => exact ih
  | @array n _ _ e ts h _ _ _ =>
    rintro _ ⟨⟩
    exact ⟨[(ts, e)], rfl, .part (ts, e) (.nil _),
      List.forall_mem_singleton.mpr (h.isExpression rfl)⟩
  | @readonly n t _ _ _ _ _ he ih =>
    rintro _ ⟨⟩
    obtain ⟨parts, hparts, hts, hall⟩ := ih _ rfl
    exact ⟨parts, (TypeExpr.parts_asReadonly? he).trans hparts, hts.append_left [t],
      fun q hq => (hall q hq).mono (n + 1).le_succ⟩
  | @intersection n x _ _ _ hparts hts _ =>
    rintro _ ⟨⟩
    exact ⟨_, rfl, .part x hts.inTurn, fun q hq => (hparts q hq).isExpression rfl⟩
  | @alone n pipe _ _ _ _ ih =>
    rintro _ ⟨⟩
    obtain ⟨parts, he, hts, hparts⟩ := ih _ rfl
    exact ⟨parts, TypeExpr.parts_ledBy.trans he, hts.append_left _, hparts⟩
  | @union n _ x _ _ _ _ hparts hts _ =>
    rintro _ ⟨⟩
    exact ⟨_, rfl, (InTurn.part x hts.inTurn).append_left _,
      fun q hq => (hparts q hq).isExpression rfl⟩
  | property _ _ _ _ _ _ => simp [Phrase.expr?]

/-- What is in an expression is read from tokens of its own. -/
theorem DerivesWithin.of_holds (h : DerivesWithin ts e) (hx : e.Holds x) : DerivesWithin ts x := by
  induction hx generalizing ts with
  | self => exact h
  | part hp _ ih =>
    obtain ⟨us, hus, hderives⟩ := h
    obtain ⟨parts, hsplit, htokens, hparts⟩ := hderives.parts _ rfl
    rw [hsplit] at hp
    obtain ⟨q, hq, rfl⟩ := List.mem_map.mp hp
    exact ih ⟨q.1, (htokens.infix_of_mem hq).trans hus, hparts q hq⟩

/-- An expression whose parts are within its span and come one behind the other. -/
structure TypeExpr.IsPlaced (e : TypeExpr) : Prop where
  forward : e.span.start ≤ e.span.stop
  covers : ∀ p ∈ e.parts, e.span.Covers p.span
  apart : e.parts.Pairwise fun p q => p.span.stop ≤ q.span.start

/-- The span of an expression covers the tokens that it is derived from. -/
theorem DerivesWithin.exists_cover (h : DerivesWithin ts e) (hts : InOrder ts) :
    ∃ us, us ≠ [] ∧ us <:+: ts ∧ e.span = cover us := by
  obtain ⟨us, hus, hderives⟩ := h
  exact ⟨us, hderives.ne_nil, hus, hderives.span_eq_cover (hts.sublist hus.sublist) e rfl⟩

/-- The span of an expression is within the span of its tokens. -/
theorem DerivesWithin.covers (h : DerivesWithin ts e) (hts : InOrder ts) :
    (cover ts).Covers e.span := by
  obtain ⟨us, hne, hus, hspan⟩ := h.exists_cover hts
  rw [hspan]
  exact hts.covers_of_sublist hne hus.sublist

/-- The parts of an expression lie in it, one behind the other. -/
theorem DerivesWithin.isPlaced (h : DerivesWithin ts e) (hts : InOrder ts) : e.IsPlaced := by
  obtain ⟨us, hus, hderives⟩ := h
  have hinner := hts.sublist hus.sublist
  have hspan := hderives.span_eq_cover hinner e rfl
  obtain ⟨parts, hsplit, htokens, hparts⟩ := hderives.parts e rfl
  have hordered := hinner.sublist htokens.sublist
  refine ⟨?_, ?_, ?_⟩
  · rw [hspan]
    exact hinner.cover_forward hderives.ne_nil
  · rw [hsplit, hspan, List.forall_mem_map]
    intro q hq
    exact DerivesWithin.covers ⟨q.1, htokens.infix_of_mem hq, hparts q hq⟩ hinner
  · rw [hsplit, List.pairwise_map]
    -- what is cut off in turn does not overlap
    refine (List.pairwise_flatMap.mp hordered.apart).2.imp_of_mem fun {q q'} hq hq' hbehind => ?_
    have hleft := hordered.sublist (sublist_of_mem_parts hq)
    have hright := hordered.sublist (sublist_of_mem_parts hq')
    rw [(hparts q hq).span_eq_cover hleft _ rfl, (hparts q' hq').span_eq_cover hright _ rfl]
    exact hleft.cover_stop_le hright (hparts q hq).ne_nil (hparts q' hq').ne_nil hbehind

end

/-! ## The tokens of a file -/

section

variable {source : String} {f : CaseFile} {ts : List LocatedToken} {i : Item}

/-- The items of a file have tokens of their own, one behind the other, before the mark of the
end. -/
theorem parseCaseFile_parts (h : parseCaseFile source = .ok f) :
    ∃ (tokens : List LocatedToken) (parts : List (Part Item)), tokenize source = .ok tokens ∧
      f.items = parts.map Prod.snd ∧ InTurn parts tokens.dropLast ∧
      ∀ q ∈ parts, DerivesItem q.1 q.2 := by
  obtain ⟨tokens, htokens, hitems⟩ := parseCaseFile_eq h
  obtain ⟨t, rest, rfl⟩ : ∃ t rest, tokens = t :: rest := by
    obtain ⟨located, last, rfl, -⟩ := tokenize_eof htokens
    exact List.exists_cons_of_ne_nil (by simp)
  obtain ⟨parts, hparts, hsub, hderives⟩ :=
    @itemsFrom_parts _ ((t :: rest).length + 1) (tokenize_terminated htokens)
  exact ⟨t :: rest, parts, htokens, hitems.trans hparts, hsub, hderives⟩

/-- An item of a file is derived by some of its tokens, all before the mark of the end. -/
theorem exists_derivesItem (h : parseCaseFile source = .ok f) (hi : i ∈ f.items) :
    ∃ tokens ts, tokenize source = .ok tokens ∧ ts <:+: tokens.dropLast ∧ DerivesItem ts i := by
  obtain ⟨tokens, parts, htokens, hitems, hturn, hderives⟩ := parseCaseFile_parts h
  obtain ⟨q, hq, rfl⟩ := List.mem_map.mp (hitems ▸ hi)
  exact ⟨tokens, q.1, htokens, hturn.infix_of_mem hq, hderives q hq⟩

/-- The expression of an item is derived within its tokens. -/
theorem DerivesItem.within (h : DerivesItem ts i) : DerivesWithin ts i.value := by
  cases h with
  | @declaration mark keyword name equal _ _ us _ _ _ _ h =>
    refine ⟨us, List.IsSuffix.isInfix ⟨mark.toList ++ [keyword, name, equal], ?_⟩, h⟩
    simp
  | expression h => exact ⟨ts, List.infix_rfl, h⟩

/-- The name of an alias stands before its value. -/
theorem DerivesItem.name_le {d : AliasDecl} (h : DerivesItem ts (.alias d)) (hts : InOrder ts) :
    (cover ts).Covers d.nameSpan ∧ d.nameSpan.start ≤ d.value.span.start := by
  cases h with
  | @declaration mark keyword name equal s e us _ _ _ _ h =>
    have htail : List.Sublist (name :: us) (mark.toList ++ keyword :: name :: equal :: us) :=
      (((List.sublist_cons_self _ _).cons_cons _).cons _).trans (List.sublist_append_right _ _)
    have htokens := hts.sublist htail
    refine ⟨hts.cover_covers (htail.subset List.mem_cons_self), ?_⟩
    rw [h.span_eq_cover (htokens.sublist (List.sublist_cons_self _ _)) e rfl]
    have hvalue := htokens.covers_of_sublist h.ne_nil (List.sublist_cons_self _ _)
    rw [htokens.cover_cons] at hvalue
    exact hvalue.start_le

end

end TypeAssay
