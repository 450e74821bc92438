import TypeAssay.Proofs.Counterparts
import TypeAssay.Proofs.Derivations

/-!
# The same tokens at other places

Where tokens stand makes no difference to what they are, but for the spans: if some tokens derive a
phrase, the same tokens at other places derive the same phrase without its spans
(`Derives.isCopied`). The induction is on the derivation, and the tokens at the other places are
split in the way in which the derivation splits those at hand.
-/

namespace TypeAssay

/-! ## Tokens -/

/-- The tokens are the same, wherever they stand. -/
def Copies (us ts : List LocatedToken) : Prop :=
  us.map LocatedToken.token = ts.map LocatedToken.token

namespace Copies

variable {ts ts' us : List LocatedToken} {t : LocatedToken} {o : Option LocatedToken}
  {P : Token → Prop}

/-- A copy starts with a copy of the first token. -/
theorem exists_cons (h : Copies us (t :: ts)) :
    ∃ u vs, us = u :: vs ∧ u.token = t.token ∧ Copies vs ts :=
  List.map_eq_cons_iff.mp h

/-- A copy of two lists is a copy of each. -/
theorem exists_append (h : Copies us (ts ++ ts')) :
    ∃ vs ws, us = vs ++ ws ∧ Copies vs ts ∧ Copies ws ts' := by
  rw [Copies, List.map_append] at h
  exact List.map_eq_append_iff.mp h

/-- Nothing is a copy of nothing. -/
theorem eq_nil (h : Copies us []) : us = [] := List.map_eq_nil_iff.mp h

/-- A copy of one token is one token. -/
theorem exists_singleton (h : Copies us [t]) : ∃ u, us = [u] ∧ u.token = t.token := by
  obtain ⟨u, vs, rfl, hu, hvs⟩ := h.exists_cons
  exact ⟨u, by rw [hvs.eq_nil], hu⟩

/-- A copy of tokens between marks is a copy of them between such marks. -/
theorem exists_enclosed {left right : LocatedToken} (h : Copies us (left :: (ts ++ [right]))) :
    ∃ l vs r, us = l :: (vs ++ [r]) ∧ l.token = left.token ∧ Copies vs ts ∧
      r.token = right.token := by
  obtain ⟨l, us, rfl, hl, hus⟩ := h.exists_cons
  obtain ⟨vs, ws, rfl, hvs, hws⟩ := hus.exists_append
  obtain ⟨r, rfl, hr⟩ := hws.exists_singleton
  exact ⟨l, vs, r, rfl, hl, hvs, hr⟩

/-- A token that may be there is there in both or in neither. -/
theorem exists_option (h : Copies us o.toList) (ho : ∀ t ∈ o, P t.token) :
    ∃ o' : Option LocatedToken, us = o'.toList ∧ o'.isSome = o.isSome ∧ ∀ t ∈ o', P t.token := by
  cases o with
  | none => exact ⟨none, h.eq_nil, rfl, by simp⟩
  | some t =>
    obtain ⟨u, rfl, hu⟩ := h.exists_singleton
    refine ⟨some u, rfl, rfl, ?_⟩
    rintro _ ⟨⟩
    exact hu ▸ ho t rfl

end Copies

section

variable {α β : Type} {f : α → β} {E : List LocatedToken → α → Prop} {mark : Token → Prop}
  {parts : List (Part α)} {ts us : List LocatedToken}

/-- Wherever the tokens stand, they are something that is the same to `f`. -/
def Recurs (f : α → β) (E : List LocatedToken → α → Prop) (ts : List LocatedToken) (x : α) : Prop :=
  ∀ us, Copies us ts → ∃ y, f y = f x ∧ E us y

/-- A copy of a chain is a chain of copies. -/
theorem Chain.copied (h : Chain mark parts ts) (hparts : ∀ q ∈ parts, Recurs f E q.1 q.2)
    (hus : Copies us ts) :
    ∃ copies : List (Part α), copies.map (fun q => f q.2) = parts.map (fun q => f q.2) ∧
      (∀ q ∈ copies, E q.1 q.2) ∧ Chain mark copies us := by
  induction h generalizing us with
  | nil => exact ⟨[], rfl, by simp, by rw [hus.eq_nil]; exact .nil⟩
  | cons ht _ ih =>
    obtain ⟨hq, hparts⟩ := List.forall_mem_cons.mp hparts
    obtain ⟨u, vs, rfl, hu, hvs⟩ := hus.exists_cons
    obtain ⟨vs, ws, rfl, hvs, hws⟩ := hvs.exists_append
    obtain ⟨y, hy, hE⟩ := hq vs hvs
    obtain ⟨copies, hsame, hall, hchain⟩ := ih hparts hws
    exact ⟨(vs, y) :: copies, by rw [List.map_cons, List.map_cons, hsame, hy],
      List.forall_mem_cons.mpr ⟨hE, hall⟩, .cons (hu ▸ ht) hchain⟩

/-- At least two parts with marks between them. -/
theorem Chain.copied_row {x y : Part α} (h : Chain mark (y :: parts) ts)
    (hparts : ∀ q ∈ x :: y :: parts, Recurs f E q.1 q.2) (hus : Copies us (x.1 ++ ts)) :
    ∃ (x' y' : Part α) (copies : List (Part α)) (vs : List LocatedToken), us = x'.1 ++ vs ∧
      (x' :: y' :: copies).map (fun q => f q.2) = (x :: y :: parts).map (fun q => f q.2) ∧
      (∀ q ∈ x' :: y' :: copies, E q.1 q.2) ∧ Chain mark (y' :: copies) vs := by
  obtain ⟨us, vs, rfl, hus, hvs⟩ := hus.exists_append
  obtain ⟨hx, hparts⟩ := List.forall_mem_cons.mp hparts
  obtain ⟨x', hx', hE⟩ := hx us hus
  obtain ⟨copies, hsame, hall, hchain⟩ := h.copied hparts hvs
  obtain ⟨y', copies, rfl⟩ : ∃ y' rest, copies = y' :: rest :=
    List.exists_cons_of_ne_nil fun hnil => by simp [hnil] at hsame
  exact ⟨(us, x'), y', copies, vs, rfl, by rw [List.map_cons, hsame, hx']; rfl,
    List.forall_mem_cons.mpr ⟨hE, hall⟩, hchain⟩

/-- A copy of a list is a list of copies. -/
theorem Listed.copied (h : Listed mark parts ts) (hparts : ∀ q ∈ parts, Recurs f E q.1 q.2)
    (hus : Copies us ts) :
    ∃ copies : List (Part α), copies.map (fun q => f q.2) = parts.map (fun q => f q.2) ∧
      (∀ q ∈ copies, E q.1 q.2) ∧ Listed mark copies us := by
  induction h generalizing us with
  | nil => exact ⟨[], rfl, by simp, by rw [hus.eq_nil]; exact .nil⟩
  | last q =>
    obtain ⟨y, hy, hE⟩ := List.forall_mem_singleton.mp hparts us hus
    exact ⟨[(us, y)], by rw [List.map_singleton, List.map_singleton, hy],
      List.forall_mem_singleton.mpr hE, .last (us, y)⟩
  | cons ht _ ih =>
    obtain ⟨hq, hparts⟩ := List.forall_mem_cons.mp hparts
    obtain ⟨vs, ws, rfl, hvs, hws⟩ := hus.exists_append
    obtain ⟨u, ws, rfl, hu, hws⟩ := hws.exists_cons
    obtain ⟨y, hy, hE⟩ := hq vs hvs
    obtain ⟨copies, hsame, hall, hlisted⟩ := ih hparts hws
    exact ⟨(vs, y) :: copies, by rw [List.map_cons, List.map_cons, hsame, hy],
      List.forall_mem_cons.mpr ⟨hE, hall⟩, .cons (q := (vs, y)) (hu ▸ ht) hlisted⟩

end

/-! ## Expressions -/

namespace TypeExpr

variable {e e' x : TypeExpr} {s s' : Span} {t : Token} {f : Span → TypeExpr}
  {pipe : Option LocatedToken}

/-- An expression without spans does not depend on its own. -/
@[simp]
theorem bare_withSpan : (e.withSpan s).bare = e.bare := by cases e <;> rfl

/-- A mark before an expression only changes its span. -/
@[simp]
theorem bare_ledBy : (e.ledBy pipe).bare = e.bare := by
  cases pipe with
  | none => rfl
  | some t => exact bare_withSpan

/-- A token is the same value anywhere. -/
theorem bare_of_value? (h : t.value? = some f) : (f s).bare = (f s').bare := by
  cases t with
  | number _ | bigint _ | string _ =>
    obtain rfl := Option.some.inj h
    rfl
  | _ => exact absurd h (by simp [Token.value?])

/-- A token is the same negative numeral anywhere. -/
theorem bare_of_negated? (h : t.negated? = some f) : (f s).bare = (f s').bare := by
  cases t with
  | number _ | bigint _ =>
    obtain rfl := Option.some.inj h
    rfl
  | _ => exact absurd h (by simp [Token.negated?])

/-- What is a sequence is one without its spans too. -/
theorem exists_asReadonly? (h : e.asReadonly? s = some x) (he : e'.bare = e.bare) :
    ∃ x', e'.asReadonly? s' = some x' ∧ x'.bare = x.bare := by
  cases e with
  | array element readonly span =>
    obtain rfl := Option.some.inj h
    cases e' <;> simp only [bare, reduceCtorEq, array.injEq] at he
    exact ⟨_, rfl, by rw [bare, bare, he.1]⟩
  | tuple elements readonly span =>
    obtain rfl := Option.some.inj h
    cases e' <;> simp only [bare, reduceCtorEq, tuple.injEq] at he
    exact ⟨_, rfl, by rw [bare, bare, he.1]⟩
  | _ => exact absurd h (by simp [asReadonly?])

end TypeExpr

/-! ## Phrases -/

/-- The same tokens at other places derive the same phrase, but for its spans. -/
def Phrase.IsCopied (n : Nat) (ts : List LocatedToken) : Phrase → Prop
  | .primary e => Recurs TypeExpr.bare (fun us e => Derives .accepted n us (.primary e)) ts e
  | .suffixed e => Recurs TypeExpr.bare (fun us e => Derives .accepted n us (.suffixed e)) ts e
  | .operand e => Recurs TypeExpr.bare (fun us e => Derives .accepted n us (.operand e)) ts e
  | .intersection e =>
    Recurs TypeExpr.bare (fun us e => Derives .accepted n us (.intersection e)) ts e
  | .expression e => Recurs TypeExpr.bare (fun us e => Derives .accepted n us (.expression e)) ts e
  | .property p => Recurs PropertyExpr.bare (fun us p => Derives .accepted n us (.property p)) ts p

/-- A copy of the tokens of a phrase derives the same phrase, but for its spans. -/
theorem Derives.isCopied {n : Nat} {ts : List LocatedToken} {p : Phrase}
    (h : Derives .accepted n ts p) : p.IsCopied n ts := by
  -- by induction on the derivation: a copy is cut up as the tokens are
  induction h with
  | value ht =>
    intro us hus
    obtain ⟨u, rfl, hu⟩ := hus.exists_singleton
    exact ⟨_, TypeExpr.bare_of_value? ht, .value (hu ▸ ht)⟩
  | negated hminus ht =>
    intro us hus
    obtain ⟨minus, vs, rfl, hminus', hvs⟩ := hus.exists_cons
    obtain ⟨u, rfl, hu⟩ := hvs.exists_singleton
    exact ⟨_, TypeExpr.bare_of_negated? ht, .negated (hminus' ▸ hminus) (hu ▸ ht)⟩
  | @name _ _ s ht =>
    intro us hus
    obtain ⟨u, rfl, hu⟩ := hus.exists_singleton
    exact ⟨.named s [] (cover [u]), rfl, .name (hu ▸ ht)⟩
  | @call _ _ _ _ s _ _ _ ht hleft hright _ hts ih =>
    intro us hus
    obtain ⟨u, us, rfl, hu, hus⟩ := hus.exists_cons
    obtain ⟨l, us, r, rfl, hl, hus, hr⟩ := hus.exists_enclosed
    obtain ⟨copies, hsame, hall, hlisted⟩ := hts.copied ih hus
    obtain ⟨arg, args, rfl⟩ : ∃ arg args, copies = arg :: args :=
      List.exists_cons_of_ne_nil fun hnil => by simp [hnil] at hsame
    refine ⟨.named s _ _, ?_, .call (hu ▸ ht) (hl ▸ hleft) (hr ▸ hright) hall hlisted⟩
    rw [TypeExpr.bare, TypeExpr.bare, bareAll_eq_map, bareAll_eq_map, List.map_map, List.map_map]
    exact congrArg (TypeExpr.named s · default) hsame
  | tuple hleft hright _ hts ih =>
    intro us hus
    obtain ⟨l, us, r, rfl, hl, hus, hr⟩ := hus.exists_enclosed
    obtain ⟨copies, hsame, hall, hlisted⟩ := hts.copied ih hus
    refine ⟨.tuple _ false _, ?_, .tuple (hl ▸ hleft) (hr ▸ hright) hall hlisted⟩
    rw [TypeExpr.bare, TypeExpr.bare, bareAll_eq_map, bareAll_eq_map, List.map_map, List.map_map]
    exact congrArg (TypeExpr.tuple · false default) hsame
  | object hleft hright _ hts ih =>
    intro us hus
    obtain ⟨l, us, r, rfl, hl, hus, hr⟩ := hus.exists_enclosed
    obtain ⟨copies, hsame, hall, hlisted⟩ := hts.copied ih hus
    refine ⟨.object _ _, ?_, .object (hl ▸ hleft) (hr ▸ hright) hall hlisted⟩
    rw [TypeExpr.bare, TypeExpr.bare, bareProperties_eq_map, bareProperties_eq_map, List.map_map,
      List.map_map]
    exact congrArg (TypeExpr.object · default) hsame
  | parentheses hleft hright _ ih =>
    intro us hus
    obtain ⟨l, us, r, rfl, hl, hus, hr⟩ := hus.exists_enclosed
    obtain ⟨e', he', hderives⟩ := ih us hus
    refine ⟨e'.withSpan _, ?_, .parentheses (hl ▸ hleft) (hr ▸ hright) hderives⟩
    rw [TypeExpr.bare_withSpan, TypeExpr.bare_withSpan, he']
  | plain _ ih => exact fun us hus => (ih us hus).imp fun _ h => ⟨h.1, h.2.plain⟩
  | array _ hleft hright ih =>
    intro us hus
    obtain ⟨us', vs, rfl, hus', hvs⟩ := hus.exists_append
    obtain ⟨l, vs, rfl, hl, hvs⟩ := hvs.exists_cons
    obtain ⟨r, rfl, hr⟩ := hvs.exists_singleton
    obtain ⟨e', he', hderives⟩ := ih us' hus'
    refine ⟨.array e' false _, ?_, .array hderives (hl ▸ hleft) (hr ▸ hright)⟩
    rw [TypeExpr.bare, TypeExpr.bare, he']
  | operand _ ih => exact fun us hus => (ih us hus).imp fun _ h => ⟨h.1, h.2.operand⟩
  | readonly ht _ he ih =>
    intro us hus
    obtain ⟨u, us, rfl, hu, hus⟩ := hus.exists_cons
    obtain ⟨x, hx, hderives⟩ := ih us hus
    obtain ⟨x', hreadonly, hx'⟩ := TypeExpr.exists_asReadonly? he hx
    exact ⟨x', hx', .readonly (hu ▸ ht) hderives hreadonly⟩
  | single _ ih => exact fun us hus => (ih us hus).imp fun _ h => ⟨h.1, h.2.single⟩
  | @intersection n x y parts _ _ hts ih =>
    intro us hus
    obtain ⟨x', y', copies, vs, rfl, hsame, hall, hchain⟩ := hts.copied_row ih hus
    refine ⟨.intersection _ _, ?_, .intersection hall hchain⟩
    rw [TypeExpr.bare, TypeExpr.bare, bareAll_eq_map, bareAll_eq_map, List.map_map, List.map_map]
    exact congrArg (TypeExpr.intersection · default) hsame
  | alone hpipe _ ih =>
    intro us hus
    obtain ⟨us, vs, rfl, hus, hvs⟩ := hus.exists_append
    obtain ⟨pipe, rfl, -, hpipe'⟩ := hus.exists_option (P := (· = .punctuation .pipe)) hpipe
    obtain ⟨e', he', hderives⟩ := ih vs hvs
    refine ⟨e'.ledBy pipe, ?_, .alone hpipe' hderives⟩
    rw [TypeExpr.bare_ledBy, TypeExpr.bare_ledBy, he']
  | union hpipe _ hts ih =>
    intro us hus
    obtain ⟨us, vs, rfl, hus, hvs⟩ := hus.exists_append
    obtain ⟨pipe, rfl, -, hpipe'⟩ := hus.exists_option (P := (· = .punctuation .pipe)) hpipe
    obtain ⟨x', y', copies, vs, rfl, hsame, hall, hchain⟩ := hts.copied_row ih hvs
    refine ⟨.union _ _, ?_, .union hpipe' hall hchain⟩
    rw [TypeExpr.bare, TypeExpr.bare, bareAll_eq_map, bareAll_eq_map, List.map_map, List.map_map]
    exact congrArg (TypeExpr.union · default) hsame
  | @property _ modifier mark _ _ s e _ hmodifier hname hmark hcolon _ ih =>
    intro us hus
    obtain ⟨us, vs, rfl, hmodified, hvs⟩ := hus.exists_append
    obtain ⟨name, vs, rfl, hname', hvs⟩ := hvs.exists_cons
    obtain ⟨vs, ws, rfl, hmarked, hws⟩ := hvs.exists_append
    obtain ⟨colon, ws, rfl, hcolon', hws⟩ := hws.exists_cons
    obtain ⟨modifier', rfl, hmodifier', hall⟩ :=
      hmodified.exists_option (P := (· = .keyword .readonly)) hmodifier
    obtain ⟨mark', rfl, hmark', hall'⟩ :=
      hmarked.exists_option (P := (· = .punctuation .question)) hmark
    obtain ⟨e', he', hderives⟩ := ih ws hws
    refine ⟨.mk s e' mark'.isSome modifier'.isSome _, ?_,
      .property hall (hname' ▸ hname) hall' (hcolon' ▸ hcolon) hderives⟩
    rw [PropertyExpr.bare, PropertyExpr.bare, he', hmark', hmodifier']

end TypeAssay
