import TypeAssay.Proofs.Denotations

/-!
# The tokens of displayed types

`TypeTable.spell` writes a type as tokens, in the way in which `TypeTable.display` writes it as
text. The text is cut into just these tokens (`spells_display`), as long as the names, the strings
and the numbers in it are ones that a text can spell (`TypeTable.Legible`).
-/

namespace TypeAssay

open TypeTable

/-! ## Legible types -/

namespace TypeTable

/-- Whether a text can spell what a node itself holds: a finite number that its text denotes, a
string without backslashes and in one line, and names that are words. -/
def LegibleNode : Ty → Prop
  | .literal (.number x) => x.isInfinite = false ∧ Binary64.ofText? x.text = some x
  | .literal (.string value) => '\\' ∉ value.toList ∧ '\n' ∉ value.toList
  | .object ps => ∀ p ∈ ps, isWord p.name
  | _ => True

instance : DecidablePred LegibleNode
  | .literal (.number x) =>
    inferInstanceAs (Decidable (x.isInfinite = false ∧ Binary64.ofText? x.text = some x))
  | .literal (.string value) =>
    inferInstanceAs (Decidable ('\\' ∉ value.toList ∧ '\n' ∉ value.toList))
  | .object ps => inferInstanceAs (Decidable (∀ p ∈ ps, isWord p.name))
  | .any | .never | .unknown | .primitive _ | .literal (.bigint _) | .literal (.boolean _)
  | .union _ | .intersection _ | .tuple .. | .array .. => .isTrue trivial

/-- A text can spell all nodes that the type reaches. -/
def Legible (T : TypeTable) (i : TypeId) : Prop :=
  ∀ j t, T.Reaches i j → T.get? j = some t → LegibleNode t

end TypeTable

/-! ## Tokens -/

/-- Puts tokens in parentheses. -/
def parenthesizedIf (needed : Bool) (ts : List Token) : List Token :=
  if needed then .punctuation .leftParen :: ts ++ [.punctuation .rightParen] else ts

/-- The tokens before a sequence that cannot be written to. -/
def readonlyTokens (readonly : Bool) : List Token := if readonly then [.keyword .readonly] else []

namespace TypeTable

/-- The tokens of a written member of a union; `part` writes the types. -/
def spellMember (part : TypeId → Binding → List Token) : Option TypeId → List Token
  | none => [.identifier "boolean"]
  | some i => part i .member

/-- The tokens of one node; `part` writes the types it refers to. -/
def spellStep (part : TypeId → Binding → List Token) (t : Ty) (b : Binding) : List Token :=
  match t with
  | .any => [.identifier "any"]
  | .never => [.identifier "never"]
  | .unknown => [.identifier "unknown"]
  | .primitive p => [.identifier p.keyword]
  | .literal l => l.tokens
  | .union ms =>
    parenthesizedIf (b ≠ .loose) <|
      Punctuation.between .pipe ((writtenMembers ms).map (spellMember part))
  | .intersection ms =>
    parenthesizedIf (b = .postfixed) <|
      Punctuation.between .amp (ms.map (part · .postfixed))
  | .array e readonly =>
    readonlyTokens readonly ++
      (part e .postfixed ++ [.punctuation .leftBracket, .punctuation .rightBracket])
  | .tuple es readonly =>
    readonlyTokens readonly ++ ([.punctuation .leftBracket] ++
      (Punctuation.between .comma (es.map (part · .loose)) ++ [.punctuation .rightBracket]))
  | .object ps =>
    [.punctuation .leftBrace] ++
      (Punctuation.between .semicolon
          (ps.map fun p => p.labelTokens ++ (.punctuation .colon :: part p.type .loose)) ++
        [.punctuation .rightBrace])

/-- The tokens of a type, with a bound on how deep types nest. -/
def spellWithin (T : TypeTable) : Nat → TypeId → Binding → List Token
  | 0, _, _ => []
  | depth + 1, i, b =>
    match T.get? i with
    | none => []
    | some t => spellStep (T.spellWithin depth) t b

/-- The tokens of a type. -/
def spell (T : TypeTable) (i : TypeId) : List Token := T.spellWithin (T.size + 1) i .loose

end TypeTable

/-! ## The text of a node -/

/-- Nothing spells no tokens. -/
theorem spells_empty : Spells "" [] := fun _ _ => rfl

/-- What follows does not change how a text starts. -/
theorem startsWithDelimiter_append {a : String} (h : a.toList.head?.any isDelimiter) (b : String) :
    (a ++ b).toList.head?.any isDelimiter := by
  rw [String.toList_append]
  cases ha : a.toList with
  | nil => simp [ha] at h
  | cons c cs => simpa [ha] using h

/-- Texts with a separator between them spell their tokens with its mark between. -/
theorem spells_intercalate {β : Type} {separator : String} {p : Punctuation} {xs : List β}
    {text : β → String} {tokens : β → List Token}
    (hseparator : Closed separator [.punctuation p])
    (hdelimiter : separator.toList.head?.any isDelimiter)
    (hxs : ∀ x ∈ xs, Spells (text x) (tokens x)) :
    Spells (separator.intercalate (xs.map text)) (p.between (xs.map tokens)) := by
  induction xs with
  | nil => exact spells_empty
  | cons x xs ih =>
    have hx := hxs x List.mem_cons_self
    have ih := ih fun y hy => hxs y (List.mem_cons_of_mem x hy)
    cases xs with
    | nil => simpa [Punctuation.between] using hx
    | cons y ys =>
      have hbetween : p.between ((x :: y :: ys).map tokens) =
          tokens x ++ ([.punctuation p] ++ p.between ((y :: ys).map tokens)) := by
        simp [Punctuation.between_cons]
      have htext : separator.intercalate ((x :: y :: ys).map text) =
          text x ++ (separator ++ separator.intercalate ((y :: ys).map text)) := by
        simp only [List.map_cons, String.intercalate_cons_cons, String.append_assoc]
      rw [hbetween, htext]
      exact Spells.append hx (hseparator.append ih) (startsWithDelimiter_append hdelimiter _)

/-- Parentheses in the text are parentheses among the tokens. -/
theorem spells_parenthesizeIf {text : String} {ts : List Token} (needed : Bool)
    (h : Spells text ts) : Spells (parenthesizeIf needed text) (parenthesizedIf needed ts) := by
  have hopen : Closed "(" [.punctuation .leftParen] := closed_of_marks (by decide) rfl
  have hclose : Closed ")" [.punctuation .rightParen] := closed_of_marks (by decide) rfl
  cases needed with
  | true =>
    have hinner := Spells.append h hclose.spells (by decide)
    rw [parenthesizeIf, parenthesizedIf, if_pos rfl, if_pos rfl, String.append_assoc]
    exact hopen.append hinner
  | false => exact h

/-- The keyword before a sequence is cut off by the blank behind it. -/
theorem closed_readonlyKeyword (readonly : Bool) :
    Closed (Ty.readonlyKeyword readonly) (readonlyTokens readonly) := by
  cases readonly with
  | true =>
    have hword : Spells "readonly" [wordToken "readonly"] := spells_word (by decide)
    have hspace : Closed " " [] := closed_of_marks (by decide) rfl
    have hkeyword : wordToken "readonly" = .keyword .readonly := by decide
    have htext : Ty.readonlyKeyword true = "readonly" ++ " " := by decide
    rw [htext]
    rw [hkeyword] at hword
    exact hword.append hspace (by decide)
  | false => exact fun _ _ => rfl

/-- A word that is no keyword spells an identifier. -/
theorem spells_identifier (name : String) (h : isWord name)
    (hname : wordToken name = .identifier name) : Spells name [.identifier name] :=
  hname ▸ spells_word h

/-- The keyword of a primitive type spells a name. -/
theorem spells_keyword (p : Primitive) : Spells p.keyword [.identifier p.keyword] := by
  cases p <;> exact spells_identifier _ (by decide) (by decide)

/-- A literal that can be spelled is. -/
theorem spells_literal {l : Literal} (hl : l.IsCanonical) (hlegible : LegibleNode (.literal l)) :
    Spells l.text l.tokens := by
  cases l with
  | number x => exact spells_number hl.1 hlegible.1 hlegible.2
  | string value => exact spells_string (meansItself_of_not_mem hlegible.1 hlegible.2)
  | bigint digits => exact (closed_bigintLiteral hl).spells
  | boolean b =>
    cases b with
    | true => exact spells_identifier "true" (by decide) (by decide)
    | false => exact spells_identifier "false" (by decide) (by decide)

/-- A property that can be spelled is, up to its colon. -/
theorem spells_label {p : Property} (hp : isWord p.name) : Spells p.label p.labelTokens := by
  have hmark : Closed (if p.optional then "?" else "")
      (if p.optional then [.punctuation .question] else []) := by
    cases p.optional with
    | true => exact closed_of_marks (by decide) rfl
    | false => exact fun _ _ => rfl
  have hname : Spells (p.name ++ if p.optional then "?" else "")
      ([wordToken p.name] ++ if p.optional then [.punctuation .question] else []) := by
    cases hoptional : p.optional with
    | true =>
      rw [hoptional] at hmark
      exact Spells.append (spells_word hp) hmark.spells (by decide)
    | false => simpa using spells_word hp
  rw [Property.label, Property.labelTokens, String.append_assoc]
  exact (closed_readonlyKeyword p.readonly).append hname

/-- The text of a node is cut into its tokens, if the texts of its parts are. -/
theorem spells_displayStep {T : TypeTable} {part : TypeId → Binding → String}
    {tokens : TypeId → Binding → List Token} {t : Ty} (hc : T.CanonicalNode t)
    (hlegible : LegibleNode t) (hpart : ∀ j ∈ t.parts, ∀ b, Spells (part j b) (tokens j b))
    (b : Binding) : Spells (displayStep part t b) (spellStep tokens t b) := by
  -- form by form; a mark or a blank behind each part keeps its tokens apart from the next ones
  cases t with
  | any => exact spells_identifier "any" (by decide) (by decide)
  | never => exact spells_identifier "never" (by decide) (by decide)
  | unknown => exact spells_identifier "unknown" (by decide) (by decide)
  | primitive p => exact spells_keyword p
  | literal l => exact spells_literal hc hlegible
  | union ms =>
    refine spells_parenthesizeIf _ ?_
    refine spells_intercalate (closed_of_marks (by decide) rfl) (by decide) fun w hw => ?_
    cases w with
    | none => exact spells_identifier "boolean" (by decide) (by decide)
    | some m => exact hpart m (mem_of_some_mem_writtenMembers hw) .member
  | intersection ms =>
    refine spells_parenthesizeIf _ ?_
    exact spells_intercalate (closed_of_marks (by decide) rfl) (by decide) fun m hm =>
      hpart m hm .postfixed
  | array e readonly =>
    have hbrackets : Closed "[]" [.punctuation .leftBracket, .punctuation .rightBracket] :=
      closed_of_marks (by decide) rfl
    have he := Spells.append (hpart e List.mem_cons_self .postfixed) hbrackets.spells (by decide)
    rw [displayStep, spellStep, String.append_assoc]
    exact (closed_readonlyKeyword readonly).append he
  | tuple es readonly =>
    have hopen : Closed "[" [.punctuation .leftBracket] := closed_of_marks (by decide) rfl
    have hclose : Closed "]" [.punctuation .rightBracket] := closed_of_marks (by decide) rfl
    have hes : Spells (", ".intercalate (es.map (part · .loose)))
        (Punctuation.between .comma (es.map (tokens · .loose))) :=
      spells_intercalate (closed_of_marks (by decide) rfl) (by decide) fun e he =>
        hpart e he .loose
    rw [displayStep, spellStep, String.append_assoc, String.append_assoc]
    exact (closed_readonlyKeyword readonly).append
      (hopen.append (Spells.append hes hclose.spells (by decide)))
  | object ps =>
    -- an object without properties is written without blanks
    cases ps with
    | nil =>
      have hbraces : Closed "\x7b\x7d" [.punctuation .leftBrace, .punctuation .rightBrace] :=
        closed_of_marks (by decide) rfl
      exact hbraces.spells
    | cons p ps =>
      have hopen : Closed "\x7b " [.punctuation .leftBrace] := closed_of_marks (by decide) rfl
      have hclose : Closed " \x7d" [.punctuation .rightBrace] := closed_of_marks (by decide) rfl
      have hcolon : Closed ": " [.punctuation .colon] := closed_of_marks (by decide) rfl
      have hps : Spells ("; ".intercalate ((p :: ps).map fun q =>
            q.label ++ ": " ++ part q.type .loose))
          (Punctuation.between .semicolon
            ((p :: ps).map fun q =>
              q.labelTokens ++ (.punctuation .colon :: tokens q.type .loose))) := by
        refine spells_intercalate (closed_of_marks (by decide) rfl) (by decide) fun q hq => ?_
        have htype := hpart q.type (List.mem_map_of_mem (f := (·.type)) hq) .loose
        rw [String.append_assoc]
        exact Spells.append (spells_label (hlegible q hq)) (hcolon.append htype)
          (startsWithDelimiter_append (by decide) _)
      rw [displayStep, spellStep, String.append_assoc]
      · exact hopen.append (Spells.append hps hclose.spells (by decide))
      · simp

/-! ## The text of a type -/

namespace TypeTable

variable {T : TypeTable} {i j : TypeId} {t : Ty}

/-- A legible type has a legible node. -/
theorem Legible.node (h : T.Legible i) (ht : T.get? i = some t) : LegibleNode t :=
  h i t .refl ht

/-- The parts of a legible type are legible. -/
theorem Legible.part (h : T.Legible i) (ht : T.get? i = some t) (hj : j ∈ t.parts) :
    T.Legible j :=
  fun k u hk hu => h k u (.head ⟨t, ht, hj⟩ hk) hu

/-- The text of a legible type spells its tokens, at any depth. -/
theorem spells_displayWithin (hT : T.Tidy) {depth : Nat} (hdepth : i < depth) (hi : i < T.size)
    (hlegible : T.Legible i) (b : Binding) :
    Spells (T.displayWithin depth i b) (T.spellWithin depth i b) := by
  induction depth generalizing i b with
  | zero => exact absurd hdepth (Nat.not_lt_zero i)
  | succ depth ih =>
    obtain ⟨t, ht⟩ := exists_get?_of_lt_size hi
    rw [displayWithin, spellWithin, ht]
    refine spells_displayStep (hT.canonicalNode i t ht) (hlegible.node ht) (fun j hj b => ?_) b
    have hlt : j < i := hT.descends i t ht j hj
    exact ih (Nat.lt_of_lt_of_le hlt (Nat.le_of_lt_succ hdepth)) (Nat.lt_trans hlt hi)
      (hlegible.part ht hj) b

/-- The text of a legible type is cut into its tokens. -/
theorem spells_display (hT : T.Tidy) (hi : i < T.size) (hlegible : T.Legible i) :
    Spells (T.display i) (T.spell i) :=
  spells_displayWithin hT (Nat.lt_succ_of_lt hi) hi hlegible .loose

end TypeTable

end TypeAssay
