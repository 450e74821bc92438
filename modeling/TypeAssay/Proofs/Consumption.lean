import TypeAssay.Proofs.Phrases

/-!
# What readers consume

`c.Moves ts c'` says that the tokens `ts` lead from the cursor `c` to `c'`. `m.Consumes c P` says
what the reader `m` does at `c`, whatever the tokens are: it moves over some tokens and then either
gives an answer, of which `P` holds, or an error at one of the tokens that it has reached. There is
one rule for each way in which readers are put together, as for `Accepts`, which is about tokens
that are known beforehand.
-/

namespace TypeAssay

/-! ## Moving over tokens -/

namespace Cursor

variable {c c' d : Cursor} {t : LocatedToken} {ts us : List LocatedToken}

/-- The last token is the end of the text. -/
def Terminated (c : Cursor) : Prop :=
  ((c.current :: c.rest).getLast (List.cons_ne_nil _ _)).token = .eof

/-- The tokens lead from one place to another. -/
inductive Moves : Cursor → List LocatedToken → Cursor → Prop where
  | refl (c : Cursor) : Moves c [] c
  | step {c c' : Cursor} {ts : List LocatedToken} (hrest : c.rest ≠ [])
      (h : Moves c.advance ts c') : Moves c (c.current :: ts) c'

/-- A step makes the next token the current one. -/
theorem advance_eq (hrest : c.rest = t :: ts) : c.advance = ⟨c.current.span, t, ts⟩ := by
  rw [advance, hrest]

/-- Only the end of the text has nothing behind it. -/
theorem Terminated.rest_ne_nil (h : c.Terminated) (ht : c.token ≠ .eof) : c.rest ≠ [] := by
  intro hrest
  refine ht ?_
  simpa [Terminated, hrest, token] using h

/-- The end of the text stays the last token. -/
theorem Terminated.advance (h : c.Terminated) : c.advance.Terminated := by
  cases hrest : c.rest with
  | nil => rwa [Cursor.advance, hrest]
  | cons t ts =>
    rw [advance_eq hrest]
    simpa [Terminated, hrest] using h

/-- A list that ends with the end of the text is read to that end. -/
theorem terminated_ofTokens (h : ∃ located last, ts = located ++ [last] ∧ last.token = .eof) :
    (ofTokens ts).Terminated := by
  obtain ⟨located, last, rfl, hlast⟩ := h
  cases located with
  | nil => exact hlast
  | cons t located => simpa [ofTokens, Terminated] using hlast

namespace Moves

/-- One step moves over the current token. -/
theorem one (hrest : c.rest ≠ []) : c.Moves [c.current] c.advance := .step hrest (.refl _)

/-- A move over one token is a step. -/
theorem of_one (h : c.Moves [t] c') : c.current = t ∧ c' = c.advance := by
  cases h with
  | step _ h =>
    cases h
    exact ⟨rfl, rfl⟩

/-- Two moves in a row are one. -/
theorem trans (h : c.Moves ts d) (h' : d.Moves us c') : c.Moves (ts ++ us) c' := by
  induction h with
  | refl c => exact h'
  | step hrest _ ih => exact .step hrest (ih h')

/-- A move over more tokens is a step and a move over the others. -/
theorem cons_iff :
    c.Moves (t :: ts) c' ↔ c.current = t ∧ c.rest ≠ [] ∧ c.advance.Moves ts c' := by
  constructor
  · rintro (_ | ⟨hrest, h⟩)
    exact ⟨rfl, hrest, h⟩
  · rintro ⟨rfl, hrest, h⟩
    exact .step hrest h

/-- A move over two lists stops between them. -/
theorem append_iff : c.Moves (ts ++ us) c' ↔ ∃ d, c.Moves ts d ∧ d.Moves us c' := by
  constructor
  · intro h
    induction ts generalizing c with
    | nil => exact ⟨c, .refl c, h⟩
    | cons t ts ih =>
      obtain ⟨rfl, hrest, h⟩ := cons_iff.mp h
      obtain ⟨d, hd, hd'⟩ := ih h
      exact ⟨d, .step hrest hd, hd'⟩
  · rintro ⟨d, hd, hd'⟩
    exact hd.trans hd'

/-- A move over nothing stays where it is. -/
theorem eq_of_nil (h : c.Moves [] c') : c = c' := by
  cases h
  rfl

/-- The end of the text stays the last token however far the cursor moves. -/
theorem terminated (h : c.Moves ts c') (hc : c.Terminated) : c'.Terminated := by
  induction h with
  | refl c => exact hc
  | step _ _ ih => exact ih hc.advance

/-- What was ahead is what was moved over and what is ahead now. -/
theorem ahead_eq (h : c.Moves ts c') : c.current :: c.rest = ts ++ c'.current :: c'.rest := by
  induction h with
  | refl c => rfl
  | @step c c' ts hrest _ ih =>
    obtain ⟨t, rest, hc⟩ := List.exists_cons_of_ne_nil hrest
    rw [advance_eq hc] at ih
    rw [hc, List.cons_append, ← ih]

/-- The cursor can be moved over all tokens ahead but the last. -/
theorem exists_of_ahead_eq (h : c.current :: c.rest = ts ++ t :: us) :
    ∃ c', c.Moves ts c' ∧ c'.current = t ∧ c'.rest = us := by
  induction ts generalizing c with
  | nil =>
    obtain ⟨ht, hus⟩ := List.cons.inj h
    exact ⟨c, .refl c, ht, hus⟩
  | cons u ts ih =>
    rw [List.cons_append] at h
    obtain ⟨rfl, hrest⟩ := List.cons.inj h
    have hne : c.rest ≠ [] := by simp [hrest]
    have hahead : c.advance.current :: c.advance.rest = ts ++ t :: us := by
      obtain ⟨v, vs, hvs⟩ := List.exists_cons_of_ne_nil hne
      rw [advance_eq hvs, ← hrest, hvs]
    obtain ⟨c', hmoves, hcurrent⟩ := ih hahead
    exact ⟨c', .step hne hmoves, hcurrent⟩

/-- What was moved over is no longer ahead. -/
theorem length_eq (h : c.Moves ts c') : c.rest.length = ts.length + c'.rest.length := by
  have := congrArg List.length h.ahead_eq
  simp only [List.length_cons, List.length_append] at this
  omega

/-- Tokens that are read are no more than those ahead, the ones a loop over them may take. -/
theorem length_le (h : c.Moves ts c') : ts.length ≤ c.rest.length + 1 := by
  rw [h.length_eq]
  omega

/-- The first token that is moved over is the current one. -/
theorem current_eq (h : c.Moves (t :: ts) c') : c.current = t := (cons_iff.mp h).1

/-- Behind the cursor stands the last token that was moved over. -/
theorem previous_eq (h : c.Moves ts c') (hts : ts ≠ []) :
    c'.previous = (ts.getLast hts).span := by
  induction h with
  | refl c => exact absurd rfl hts
  | @step c c' ts hrest h ih =>
    cases ts with
    | nil =>
      obtain ⟨t, rest, hc⟩ := List.exists_cons_of_ne_nil hrest
      rw [← h.eq_of_nil, advance_eq hc]
      rfl
    | cons t ts => rw [ih (List.cons_ne_nil _ _), List.getLast_cons_cons]

end Moves

end Cursor

/-- The span from the first token to the last. -/
def cover : List LocatedToken → Span
  | [] => default
  | t :: ts => t.span.merge ((t :: ts).getLast (List.cons_ne_nil _ _)).span

/-- From where a reader started to where it stopped goes the cover of its tokens. -/
theorem Cursor.Moves.merge_previous {c c' : Cursor} {ts : List LocatedToken} (h : c.Moves ts c')
    (hts : ts ≠ []) : c.span.merge c'.previous = cover ts := by
  obtain ⟨t, ts, rfl⟩ := List.exists_cons_of_ne_nil hts
  rw [h.previous_eq hts, Cursor.span, h.current_eq, cover]

/-- The span starts where one of the tokens starts, on its line and in its column, and it stops
where one of them stops. -/
structure Span.IsAmong (s : Span) (ts : List LocatedToken) : Prop where
  start : ∃ t ∈ ts, s.start = t.span.start ∧ s.line = t.span.line ∧ s.column = t.span.column
  stop : ∃ t ∈ ts, s.stop = t.span.stop

namespace Span.IsAmong

variable {s s' : Span} {t : LocatedToken} {ts us : List LocatedToken}

/-- The span of one of the tokens. -/
theorem of_mem (h : t ∈ ts) : t.span.IsAmong ts := ⟨⟨t, h, rfl, rfl, rfl⟩, ⟨t, h, rfl⟩⟩

/-- A span among some tokens is one among more. -/
theorem mono (h : s.IsAmong ts) (hts : ts ⊆ us) : s.IsAmong us :=
  ⟨h.start.imp fun _ ht => ⟨hts ht.1, ht.2⟩, h.stop.imp fun _ ht => ⟨hts ht.1, ht.2⟩⟩

/-- What covers two spans starts with one of them and stops with one of them. -/
theorem merge (h : s.IsAmong ts) (h' : s'.IsAmong ts) : (s.merge s').IsAmong ts := by
  constructor
  · by_cases hle : s.start ≤ s'.start
    · simp only [Span.merge, if_pos hle, Nat.min_eq_left hle]
      exact h.start
    · simp only [Span.merge, if_neg hle, Nat.min_eq_right (Nat.le_of_not_le hle)]
      exact h'.start
  · rcases Nat.le_total s.stop s'.stop with hle | hle
    · simp only [Span.merge, Nat.max_eq_right hle]
      exact h'.stop
    · simp only [Span.merge, Nat.max_eq_left hle]
      exact h.stop

/-- What covers tokens is a span among them. -/
theorem cover (hts : ts ≠ []) : (cover ts).IsAmong ts := by
  obtain ⟨t, ts, rfl⟩ := List.exists_cons_of_ne_nil hts
  exact (of_mem List.mem_cons_self).merge (of_mem (List.getLast_mem _))

end Span.IsAmong

/-! ## Rules -/

namespace Reader

open Cursor

variable {α β : Type} {m : Reader α} {f : α → Reader β} {c : Cursor} {p : Punctuation}
  {P Q : List LocatedToken → α → Cursor → Prop} {R : List LocatedToken → β → Cursor → Prop}

/-- Reading the cursor passes it on. -/
theorem on_get_bind {f : Cursor → Reader β} : on (get >>= f) c = (f c).on c := rfl

/-- An error leaves the cursor where it is. -/
theorem on_throw (e : SyntaxError) : Reader.on (throw e : Reader α) c = (.error e, c) := rfl

/-- After an error nothing more is read. -/
theorem on_bind_error {e : SyntaxError} {c' : Cursor} (h : m.on c = (.error e, c')) :
    on (m >>= f) c = (.error e, c') := by
  have hrun : m.run.run c = (.error e, c') := h
  change (ExceptT.run (m >>= f)).run c = _
  rw [ExceptT.run_bind, StateT.run_bind, hrun]
  rfl

/-- The reader moves over some tokens. Then it gives an answer that satisfies `P`, or an error at
one of these tokens or at the next one. -/
def Consumes (m : Reader α) (c : Cursor) (P : List LocatedToken → α → Cursor → Prop) : Prop :=
  c.Terminated → ∃ ts c', c.Moves ts c' ∧
    ((∃ a, m.on c = (.ok a, c') ∧ P ts a c') ∨
      ∃ e, m.on c = (.error e, c') ∧ e.span.IsAmong (ts ++ [c'.current]))

/-- A plain answer consumes nothing. -/
theorem Consumes.pure {a : α} (h : P [] a c) : Consumes (Pure.pure a) c P :=
  fun _ => ⟨[], c, .refl c, .inl ⟨a, rfl, h⟩⟩

/-- A weaker condition on the answer holds as well. -/
theorem Consumes.mono (h : m.Consumes c P) (hP : ∀ ts a c', P ts a c' → Q ts a c') :
    m.Consumes c Q := by
  intro hc
  obtain ⟨ts, c', hmoves, ⟨a, hon, ha⟩ | ⟨e, hon, he⟩⟩ := h hc
  · exact ⟨ts, c', hmoves, .inl ⟨a, hon, hP ts a c' ha⟩⟩
  · exact ⟨ts, c', hmoves, .inr ⟨e, hon, he⟩⟩

/-- What follows reads on, and its errors are at tokens that it has reached. -/
theorem Consumes.bind (h : m.Consumes c P)
    (hf : ∀ ts a c', c.Moves ts c' → P ts a c' →
      (f a).Consumes c' fun us b d => R (ts ++ us) b d) :
    Consumes (m >>= f) c R := by
  intro hc
  obtain ⟨ts, c', hmoves, ⟨a, hon, ha⟩ | ⟨e, hon, he⟩⟩ := h hc
  · obtain ⟨us, d, hmoves', hd⟩ := hf ts a c' hmoves ha (hmoves.terminated hc)
    refine ⟨ts ++ us, d, hmoves.trans hmoves', ?_⟩
    rw [on_bind_ok hon]
    -- an error of the second reader is at a token behind those of the first
    refine hd.imp_right fun ⟨e, hon', he⟩ => ⟨e, hon', he.mono ?_⟩
    rw [List.append_assoc]
    exact List.subset_append_right _ _
  · exact ⟨ts, c', hmoves, .inr ⟨e, on_bind_error hon, he⟩⟩

/-- What comes last gives an answer at once, or an error at a token that was consumed before. -/
theorem Consumes.bind_check (h : m.Consumes c P)
    (hf : ∀ ts a c', c.Moves ts c' → P ts a c' → (∃ b, f a = Pure.pure b ∧ R ts b c') ∨
      ∃ e : SyntaxError, f a = throw e ∧ e.span.IsAmong ts) :
    Consumes (m >>= f) c R := by
  intro hc
  obtain ⟨ts, c', hmoves, ⟨a, hon, ha⟩ | ⟨e, hon, he⟩⟩ := h hc
  · refine ⟨ts, c', hmoves, ?_⟩
    rw [on_bind_ok hon]
    obtain ⟨b, hb, hR⟩ | ⟨e, he, hspan⟩ := hf ts a c' hmoves ha
    · exact .inl ⟨b, by rw [hb]; rfl, hR⟩
    · exact .inr ⟨e, by rw [he]; rfl, hspan.mono (List.subset_append_left _ _)⟩
  · exact ⟨ts, c', hmoves, .inr ⟨e, on_bind_error hon, he⟩⟩

/-- A reader may look at the cursor. -/
theorem consumes_get {f : Cursor → Reader β} (h : (f c).Consumes c R) :
    Consumes (get >>= f) c R := h

/-- A step consumes the current token, if it is not the end. -/
theorem consumes_advance (ht : c.token ≠ .eof) :
    advance.Consumes c fun ts _ c' => ts = [c.current] ∧ c' = c.advance :=
  fun hc => ⟨_, _, .one (hc.rest_ne_nil ht), .inl ⟨(), rfl, rfl, rfl⟩⟩

/-- An error at the current token. -/
theorem consumes_throw {e : SyntaxError} (he : e.span = c.span) : Consumes (throw e) c P :=
  fun _ => ⟨[], c, .refl c, .inr ⟨e, rfl, he ▸ .of_mem List.mem_cons_self⟩⟩

/-- An unexpected token is reported where it stands. -/
theorem consumes_fail {expected : Expected} : Consumes (fail expected) c P := by
  refine consumes_get (consumes_throw ?_)
  rw [Cursor.unexpected]
  split <;> rfl

/-- Counting the tokens ahead consumes none. -/
theorem consumes_ahead : ahead.Consumes c fun ts k c' => ts = [] ∧ c' = c ∧ k = c.rest.length + 1 :=
  consumes_get (.pure ⟨rfl, rfl, rfl⟩)

/-! ## Marks -/

/-- The tokens are one that is `S`, or none; the flag says which. -/
def IsOptional (S : Token → Prop) (ts : List LocatedToken) (b : Bool) : Prop :=
  ∃ mark : Option LocatedToken, ts = mark.toList ∧ b = mark.isSome ∧ ∀ t ∈ mark, S t.token

/-- A mark is seen if the current token is that mark. -/
theorem sees_iff : c.sees p = true ↔ c.current.token = .punctuation p := decide_eq_true_iff

/-- A mark is consumed if it is there. -/
theorem consumes_eat : (eat p).Consumes c fun ts b _ => IsOptional (· = .punctuation p) ts b := by
  rw [eat]
  refine consumes_get ?_
  split
  · rename_i hsees
    have htoken := sees_iff.mp hsees
    refine (consumes_advance (by simp [Cursor.token, htoken])).bind ?_
    rintro _ _ _ _ ⟨rfl, rfl⟩
    exact .pure ⟨some c.current, rfl, rfl, by simpa using htoken⟩
  · exact .pure ⟨none, rfl, rfl, by simp⟩

/-- A mark is consumed, or its absence is reported. -/
theorem consumes_expect :
    (expect p).Consumes c fun ts s _ => ∃ t, ts = [t] ∧ t.token = .punctuation p ∧ s = t.span := by
  rw [expect]
  refine consumes_get ?_
  split
  · rename_i hsees
    have htoken := sees_iff.mp hsees
    refine (consumes_advance (by simp [Cursor.token, htoken])).bind ?_
    rintro _ _ _ _ ⟨rfl, rfl⟩
    exact .pure ⟨c.current, rfl, htoken, rfl⟩
  · exact consumes_fail

/-- A keyword is consumed, or its absence is reported. -/
theorem consumes_expectKeyword {k : Keyword} :
    (expectKeyword k).Consumes c
      fun ts s _ => ∃ t, ts = [t] ∧ t.token = .keyword k ∧ s = t.span := by
  rw [expectKeyword]
  refine consumes_get ?_
  split
  · rename_i htoken
    refine (consumes_advance (by simp [htoken])).bind ?_
    rintro _ _ _ _ ⟨rfl, rfl⟩
    exact .pure ⟨c.current, rfl, htoken, rfl⟩
  · exact consumes_fail

end Reader

/-! ## Loops -/

/-- Some tokens and what they stand for. -/
abbrev Part (α : Type) := List LocatedToken × α

/-- Parts with a mark before each. -/
inductive Chain {α : Type} (mark : Token → Prop) : List (Part α) → List LocatedToken → Prop where
  | nil : Chain mark [] []
  | cons {t : LocatedToken} {q : Part α} {parts : List (Part α)} {us : List LocatedToken}
      (ht : mark t.token) (h : Chain mark parts us) : Chain mark (q :: parts) (t :: (q.1 ++ us))

/-- Parts with a mark between them; one may also stand behind the last. -/
inductive Listed {α : Type} (mark : Token → Prop) : List (Part α) → List LocatedToken → Prop where
  | nil : Listed mark [] []
  | last (q : Part α) : Listed mark [q] q.1
  | cons {t : LocatedToken} {q : Part α} {parts : List (Part α)} {us : List LocatedToken}
      (ht : mark t.token) (h : Listed mark parts us) : Listed mark (q :: parts) (q.1 ++ t :: us)

/-- The tokens of the parts stand among others, one part behind the other. -/
inductive InTurn {α : Type} : List (Part α) → List LocatedToken → Prop where
  | nil (ts : List LocatedToken) : InTurn [] ts
  | cons (before : List LocatedToken) (q : Part α) {parts : List (Part α)}
      {after : List LocatedToken} (h : InTurn parts after) :
      InTurn (q :: parts) (before ++ (q.1 ++ after))

namespace InTurn

variable {α : Type} {parts : List (Part α)} {ts : List LocatedToken}

/-- Parts in turn come in the order of the tokens. -/
theorem sublist (h : InTurn parts ts) : (parts.flatMap Prod.fst).Sublist ts := by
  induction h with
  | nil ts => exact List.nil_sublist ts
  | cons before q _ ih =>
    rw [List.flatMap_cons]
    exact ((List.Sublist.refl q.1).append ih).trans (List.sublist_append_right before _)

/-- The tokens of each part stand together. -/
theorem infix_of_mem {q : Part α} (h : InTurn parts ts) (hq : q ∈ parts) : q.1 <:+: ts := by
  induction h with
  | nil ts => exact absurd hq List.not_mem_nil
  | cons before q' _ ih =>
    rcases List.mem_cons.mp hq with rfl | hq
    · exact List.infix_append' before q.1 _
    · exact (ih hq).trans ((List.suffix_append q'.1 _).trans (List.suffix_append before _)).isInfix

/-- More tokens may stand in front. -/
theorem append_left (before : List LocatedToken) (h : InTurn parts ts) :
    InTurn parts (before ++ ts) := by
  cases h with
  | nil ts => exact .nil _
  | cons before' q h =>
    rw [← List.append_assoc]
    exact .cons _ q h

/-- More tokens may stand behind. -/
theorem append_right (after : List LocatedToken) (h : InTurn parts ts) :
    InTurn parts (ts ++ after) := by
  induction h with
  | nil ts => exact .nil _
  | cons before q _ ih =>
    rw [List.append_assoc, List.append_assoc]
    exact .cons before q ih

/-- A part and those behind it. -/
theorem part (q : Part α) (h : InTurn parts ts) : InTurn (q :: parts) (q.1 ++ ts) := .cons [] q h

/-- Each part may be replaced by one within it. -/
theorem exists_inner {β : Type} {f : α → β} {E : Part β → Prop} (h : InTurn parts ts)
    (hinner : ∀ q ∈ parts, ∃ us, us <:+: q.1 ∧ E (us, f q.2)) : ∃ inner : List (Part β),
      parts.map (fun q => f q.2) = inner.map Prod.snd ∧ InTurn inner ts ∧ ∀ q ∈ inner, E q := by
  induction h with
  | nil ts => exact ⟨[], rfl, .nil ts, by simp⟩
  | cons before q _ ih =>
    -- within a part, what is in front of the inner one belongs to what comes before
    obtain ⟨⟨us, ⟨front, behind, hus⟩, hE⟩, hinner⟩ := List.forall_mem_cons.mp hinner
    obtain ⟨inner, hsame, hturn, hall⟩ := ih hinner
    refine ⟨(us, f q.2) :: inner, ?_, ?_, List.forall_mem_cons.mpr ⟨hE, hall⟩⟩
    · rw [List.map_cons, List.map_cons, hsame]
    · rw [← hus, List.append_assoc, List.append_assoc, ← List.append_assoc before]
      exact .cons _ (us, f q.2) (hturn.append_left behind)

end InTurn

/-- Parts with a mark before each come in turn. -/
theorem Chain.inTurn {α : Type} {mark : Token → Prop} {parts : List (Part α)}
    {ts : List LocatedToken} (h : Chain mark parts ts) : InTurn parts ts := by
  induction h with
  | nil => exact .nil []
  | @cons t q _ _ _ _ ih => exact .cons [t] q ih

/-- Parts with a mark between them come in turn. -/
theorem Listed.inTurn {α : Type} {mark : Token → Prop} {parts : List (Part α)}
    {ts : List LocatedToken} (h : Listed mark parts ts) : InTurn parts ts := by
  induction h with
  | nil => exact .nil []
  | last q => simpa using InTurn.part q (.nil [])
  | @cons t q _ _ _ _ ih => exact .part q (ih.append_left [t])

namespace Reader

open Cursor

variable {α : Type} {element : Reader α} {separator : Reader Bool} {E : Part α → Prop}
  {p closing : Punctuation} {mark : Token → Prop} {fuel : Nat} {c c' : Cursor}
  {S : Cursor → Prop} {parts : List (Part α)} {ts : List LocatedToken}

/-- The loop consumes parts with a mark before each. -/
theorem consumes_afterEach (h : ∀ c, element.Consumes c fun ts a _ => E (ts, a)) :
    (afterEach p element fuel).Consumes c fun ts as _ => ∃ parts : List (Part α),
      as = parts.map Prod.snd ∧ (∀ q ∈ parts, E q) ∧ Chain (· = .punctuation p) parts ts := by
  induction fuel generalizing c with
  | zero => exact .pure ⟨[], rfl, by simp, .nil⟩
  | succ fuel ih =>
    refine consumes_eat.bind ?_
    rintro _ _ c₁ - ⟨_ | t, rfl, rfl, ht⟩
    · exact .pure ⟨[], rfl, by simp, .nil⟩
    · refine (h c₁).bind fun ts a c₂ _ ha => ih.bind ?_
      rintro us _ _ - ⟨parts, rfl, hparts, hchain⟩
      refine .pure ⟨(ts, a) :: parts, rfl, List.forall_mem_cons.mpr ⟨ha, hparts⟩, ?_⟩
      simpa using Chain.cons (q := (ts, a)) (ht t rfl) hchain

/-- One part is consumed, and others with a mark before each. -/
theorem consumes_separated (h : ∀ c, element.Consumes c fun ts a _ => E (ts, a)) :
    (separated p element).Consumes c fun ts as _ => ∃ (q : Part α) (parts : List (Part α)) (us : _),
      as = (q :: parts).map Prod.snd ∧ (∀ q' ∈ q :: parts, E q') ∧
        Chain (· = .punctuation p) parts us ∧ ts = q.1 ++ us := by
  refine (h c).bind fun ts a c₁ _ ha => consumes_ahead.bind ?_
  rintro _ k _ - ⟨rfl, rfl, -⟩
  refine (consumes_afterEach h).bind ?_
  rintro us _ _ - ⟨parts, rfl, hparts, hchain⟩
  exact .pure ⟨(ts, a), parts, us, rfl, List.forall_mem_cons.mpr ⟨ha, hparts⟩, hchain, by simp⟩

/-- The loop consumes parts with a mark between them. -/
theorem consumes_upTo (h : ∀ c, element.Consumes c fun ts a _ => E (ts, a))
    (hseparator : ∀ c, separator.Consumes c fun ts b _ => IsOptional mark ts b) :
    (upTo closing separator element fuel).Consumes c fun ts as _ => ∃ parts : List (Part α),
      as = parts.map Prod.snd ∧ (∀ q ∈ parts, E q) ∧ Listed mark parts ts := by
  induction fuel generalizing c with
  | zero => exact .pure ⟨[], rfl, by simp, .nil⟩
  | succ fuel ih =>
    rw [upTo]
    refine consumes_get ?_
    split
    · exact .pure ⟨[], rfl, by simp, .nil⟩
    · refine (h c).bind fun ts a c₁ _ ha => (hseparator c₁).bind ?_
      rintro _ _ c₂ - ⟨_ | t, rfl, rfl, ht⟩
      · exact .pure ⟨[(ts, a)], rfl, by simpa using ha, by simpa using Listed.last (ts, a)⟩
      · refine ih.bind ?_
        rintro us _ _ - ⟨parts, rfl, hparts, hlisted⟩
        refine .pure ⟨(ts, a) :: parts, rfl, List.forall_mem_cons.mpr ⟨ha, hparts⟩, ?_⟩
        simpa using Listed.cons (q := (ts, a)) (ht t rfl) hlisted

/-! ### Reading known parts

A part is read when `S` holds of the place behind it. -/

/-- A step always answers. -/
theorem on_advance : advance.on c = (.ok (), c.advance) := rfl

/-- The current token is counted, too. -/
theorem on_ahead : ahead.on c = (.ok (c.rest.length + 1), c) := rfl

/-- A mark that is seen is consumed. -/
theorem on_eat (h : c.sees p) : (eat p).on c = (.ok true, c.advance) := by
  rw [eat, on_get_bind, if_pos h]
  rfl

/-- A mark that is not seen is not consumed. -/
theorem on_eat_not (h : c.sees p = false) : (eat p).on c = (.ok false, c) := by
  rw [eat, on_get_bind, h]
  rfl

/-- A mark that is seen is answered with its span. -/
theorem on_expect (h : c.sees p) : (expect p).on c = (.ok c.span, c.advance) := by
  rw [expect, on_get_bind, if_pos h]
  rfl

/-- A keyword that is seen is answered with its span. -/
theorem on_expectKeyword {k : Keyword} (h : c.token = .keyword k) :
    (expectKeyword k).on c = (.ok c.span, c.advance) := by
  rw [expectKeyword, on_get_bind, if_pos h]
  rfl

/-- A mark that is moved over is the one that is seen. -/
theorem mark_of_moves {t : LocatedToken} (ht : t.token = .punctuation p)
    (hmoves : c.Moves (t :: ts) c') : c.sees p ∧ c.span = t.span ∧ c.advance.Moves ts c' := by
  obtain ⟨rfl, -, hmoves⟩ := Moves.cons_iff.mp hmoves
  exact ⟨sees_iff.mpr ht, rfl, hmoves⟩

/-- A chain of parts is read to its end, where no mark follows. -/
theorem on_afterEach (hparts : ∀ q ∈ parts, ∀ c c', c.Moves q.1 c' → S c' →
      element.on c = (.ok q.2, c'))
    (hmark : ∀ c : Cursor, c.sees p → S c) (hchain : Chain (· = .punctuation p) parts ts)
    (hmoves : c.Moves ts c') (hend : S c') (hne : c'.sees p = false) (hfuel : ts.length ≤ fuel) :
    (afterEach p element fuel).on c = (.ok (parts.map Prod.snd), c') := by
  -- by induction on the chain; the tokens left are enough rounds for the marks left
  induction hchain generalizing c fuel with
  | nil =>
    obtain rfl := hmoves.eq_of_nil
    cases fuel with
    | zero => rfl
    | succ fuel =>
      rw [afterEach, on_bind_ok (on_eat_not hne)]
      rfl
  | @cons t q parts us ht hchain ih =>
    obtain ⟨fuel, rfl⟩ : ∃ k, fuel = k + 1 := Nat.exists_eq_add_one.mpr (by simp at hfuel; omega)
    obtain ⟨rfl, -, hmoves⟩ := Moves.cons_iff.mp hmoves
    obtain ⟨d, hd, hmoves⟩ := Moves.append_iff.mp hmoves
    have hlength : us.length ≤ fuel := by simp at hfuel; omega
    -- behind the part stands the next mark, or the end
    have hSd : S d := by
      cases hchain with
      | nil => exact hmoves.eq_of_nil ▸ hend
      | cons ht' _ => exact hmark d (sees_iff.mpr (by rw [hmoves.current_eq]; exact ht'))
    rw [afterEach, on_bind_ok (on_eat (sees_iff.mpr ht)), if_pos rfl,
      on_bind_ok (hparts q List.mem_cons_self _ d hd hSd),
      on_bind_ok (ih (fun q hq => hparts q (List.mem_cons_of_mem _ hq)) hmoves hlength)]
    rfl

/-- Parts with a mark between them are read to their end, where no mark follows. -/
theorem on_separated {q : Part α} (hparts : ∀ q' ∈ q :: parts, ∀ c c', c.Moves q'.1 c' → S c' →
      element.on c = (.ok q'.2, c'))
    (hmark : ∀ c : Cursor, c.sees p → S c) (hchain : Chain (· = .punctuation p) parts ts)
    (hmoves : c.Moves (q.1 ++ ts) c') (hend : S c') (hne : c'.sees p = false) :
    (separated p element).on c = (.ok ((q :: parts).map Prod.snd), c') := by
  obtain ⟨d, hd, hmoves⟩ := Moves.append_iff.mp hmoves
  -- behind the first part stands a mark, or the end
  have hSd : S d := by
    cases hchain with
    | nil => exact hmoves.eq_of_nil ▸ hend
    | cons ht' _ => exact hmark d (sees_iff.mpr (by rw [hmoves.current_eq]; exact ht'))
  have hahead : ahead.on d = (.ok (d.rest.length + 1), d) := rfl
  rw [separated, on_bind_ok (hparts q List.mem_cons_self _ d hd hSd), on_bind_ok hahead,
    on_bind_ok (on_afterEach (fun q hq => hparts q (List.mem_cons_of_mem _ hq)) hmark hchain hmoves
      hend hne hmoves.length_le)]
  rfl

/-- The loop up to a closing mark, in front of it. -/
theorem on_upTo_closing (h : c.sees closing) : (upTo closing separator element fuel).on c =
    (.ok [], c) := by
  cases fuel with
  | zero => rfl
  | succ fuel =>
    rw [upTo, on_get_bind, if_pos h]
    rfl

/-- Listed parts are read to the closing mark. -/
theorem on_upTo (hstart : ∀ q ∈ parts, ∃ t us, q.1 = t :: us ∧ t.token ≠ .punctuation closing)
    (hparts : ∀ q ∈ parts, ∀ c c', c.Moves q.1 c' → S c' → element.on c = (.ok q.2, c'))
    (hmark : ∀ c : Cursor, mark c.current.token →
      S c ∧ separator.on c = (.ok true, c.advance))
    (hlisted : Listed mark parts ts) (hmoves : c.Moves ts c') (hclosing : c'.sees closing)
    (hend : S c' ∧ separator.on c' = (.ok false, c')) (hfuel : ts.length ≤ fuel) :
    (upTo closing separator element fuel).on c = (.ok (parts.map Prod.snd), c') := by
  induction hlisted generalizing c fuel with
  | nil =>
    obtain rfl := hmoves.eq_of_nil
    exact on_upTo_closing hclosing
  | last q =>
    obtain ⟨t, us, hq, ht⟩ := hstart q List.mem_cons_self
    rw [hq] at hfuel hmoves
    obtain ⟨fuel, rfl⟩ : ∃ k, fuel = k + 1 := Nat.exists_eq_add_one.mpr (by simp at hfuel; omega)
    have hsees : c.sees closing = false := by
      rw [← Bool.not_eq_true, sees_iff, hmoves.current_eq]
      exact ht
    rw [← hq] at hmoves
    rw [upTo, on_get_bind, hsees, if_neg Bool.false_ne_true,
      on_bind_ok (hparts q List.mem_cons_self c c' hmoves hend.1), on_bind_ok hend.2]
    rfl
  | @cons t q parts us ht _ ih =>
    obtain ⟨v, vs, hq, hv⟩ := hstart q List.mem_cons_self
    obtain ⟨fuel, rfl⟩ : ∃ k, fuel = k + 1 := Nat.exists_eq_add_one.mpr (by simp at hfuel; omega)
    have hcurrent : ∀ {d}, c.Moves q.1 d → c.current = v := fun hd => (hq ▸ hd).current_eq
    obtain ⟨d, hd, hmoves⟩ := Moves.append_iff.mp hmoves
    obtain ⟨rfl, -, hmoves⟩ := Moves.cons_iff.mp hmoves
    have hlength : us.length ≤ fuel := by simp at hfuel; omega
    have hsees : c.sees closing = false := by
      rw [← Bool.not_eq_true, sees_iff, hcurrent hd]
      exact hv
    obtain ⟨hSd, hseparator⟩ := hmark d ht
    rw [upTo, on_get_bind, hsees, if_neg Bool.false_ne_true,
      on_bind_ok (hparts q List.mem_cons_self c d hd hSd), on_bind_ok hseparator, if_pos rfl,
      on_bind_ok (ih (fun q hq => hstart q (List.mem_cons_of_mem _ hq))
        (fun q hq => hparts q (List.mem_cons_of_mem _ hq)) hmoves hlength)]
    rfl

end Reader

end TypeAssay
