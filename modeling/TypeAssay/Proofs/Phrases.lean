import Mathlib.Data.List.Forall2
import TypeAssay.CaseFile.Parse

/-!
# What readers accept

`m.Accepts ts after Q` says that the reader `m`, in front of the tokens `ts` and then `after`,
consumes `ts`, stops in front of `after` and gives an answer that satisfies `Q`. There is one rule
for each way in which readers are put together: `Accepts.pure`, `Accepts.bind`, `accepts_get`, the
marks, and the two loops `accepts_separated` and `accepts_upTo`.
-/

namespace TypeAssay

/-! ## Cursors -/

namespace Cursor

variable {c : Cursor} {t u : Token} {ts : List Token}

/-- The tokens from the current one on. -/
def tokens (c : Cursor) : List Token := c.token :: c.rest.map LocatedToken.token

/-- The current token is the first of those ahead. -/
theorem token_of_tokens (h : c.tokens = t :: ts) : c.token = t := (List.cons.inj h).1

/-- The next token is the second of those ahead. -/
theorem next?_of_tokens (h : c.tokens = t :: ts) : c.next? = ts.head? := by
  rw [next?, ← (List.cons.inj h).2, List.head?_map]

/-- Whether a mark is seen depends on the first token ahead. -/
theorem sees_of_tokens (h : c.tokens = t :: ts) (p : Punctuation) :
    c.sees p = decide (t = .punctuation p) := by
  rw [sees, token_of_tokens h]

/-- There is one token more ahead than behind the current one. -/
theorem length_rest_of_tokens (h : c.tokens = ts) : c.rest.length + 1 = ts.length := by
  rw [← h, tokens, List.length_cons, List.length_map]

/-- A step leaves the first token behind. -/
theorem tokens_advance (h : c.tokens = t :: u :: ts) : c.advance.tokens = u :: ts := by
  have hrest := (List.cons.inj h).2
  rw [advance]
  cases hc : c.rest with
  | nil => simp [hc] at hrest
  | cons v rest =>
    rw [hc, List.map_cons] at hrest
    exact hrest

/-- At the start all tokens are ahead. -/
theorem tokens_ofTokens {located : List LocatedToken}
    (h : located.map LocatedToken.token = t :: ts) : (ofTokens located).tokens = t :: ts := by
  cases located with
  | nil => simp at h
  | cons v rest => exact h

end Cursor

/-! ## Rules -/

namespace Reader

variable {α β : Type} {m : Reader α} {f : α → Reader β} {s t ts after : List Token} {u : Token}
  {Q Q' : α → Prop} {R : β → Prop} {p : Punctuation}

/-- What a reader answers, and where it stops. -/
def on (m : Reader α) (c : Cursor) : Except SyntaxError α × Cursor := m.run.run c

/-- After an answer the reader goes on where it stopped. -/
theorem on_bind_ok {a : α} {c c' : Cursor} (h : m.on c = (.ok a, c')) :
    on (m >>= f) c = (f a).on c' := by
  have hrun : m.run.run c = (.ok a, c') := h
  change (ExceptT.run (m >>= f)).run c = _
  rw [ExceptT.run_bind, StateT.run_bind, hrun]
  rfl

/-- In front of `ts` and then `after`, the reader consumes `ts`, and its answer satisfies `Q`. -/
def Accepts (m : Reader α) (ts after : List Token) (Q : α → Prop) : Prop :=
  ∀ c : Cursor, c.tokens = ts ++ after → ∃ a c', m.on c = (.ok a, c') ∧ c'.tokens = after ∧ Q a

/-- A plain answer consumes nothing. -/
theorem Accepts.pure {a : α} (h : Q a) : Accepts (Pure.pure a) [] after Q :=
  fun c hc => ⟨a, c, rfl, hc, h⟩

/-- A weaker condition on the answer holds as well. -/
theorem Accepts.mono (h : m.Accepts ts after Q) (hQ : ∀ a, Q a → Q' a) :
    m.Accepts ts after Q' := by
  intro c hc
  obtain ⟨a, c', hon, hc', ha⟩ := h c hc
  exact ⟨a, c', hon, hc', hQ a ha⟩

/-- What follows reads on from where the first reader stopped. -/
theorem Accepts.bind (h : m.Accepts s (t ++ after) Q)
    (hf : ∀ a, Q a → (f a).Accepts t after R) : Accepts (m >>= f) (s ++ t) after R := by
  intro c hc
  obtain ⟨a, c', hon, hc', ha⟩ := h c (by rw [hc, List.append_assoc])
  rw [on_bind_ok hon]
  exact hf a ha c' hc'

/-- What comes last consumes nothing. -/
theorem Accepts.bind_nil (h : m.Accepts s after Q) (hf : ∀ a, Q a → (f a).Accepts [] after R) :
    Accepts (m >>= f) s after R := by
  have hbind := Accepts.bind (t := []) h hf
  rwa [List.append_nil] at hbind

/-- A reader may look at the cursor, which is in front of all the tokens. -/
theorem accepts_get {f : Cursor → Reader β}
    (h : ∀ c : Cursor, c.tokens = ts ++ after → (f c).Accepts ts after R) :
    Accepts (get >>= f) ts after R :=
  fun c hc => h c hc c hc

/-- A token is consumed, unless it is the last one. -/
theorem accepts_advance (v : Token) (hafter : after ≠ []) :
    advance.Accepts [v] after fun _ => True := by
  obtain ⟨u, rest, rfl⟩ := List.exists_cons_of_ne_nil hafter
  exact fun c hc => ⟨(), c.advance, rfl, Cursor.tokens_advance hc, trivial⟩

/-! ## Marks -/

/-- A mark that is there is consumed. -/
theorem accepts_eat (hafter : after ≠ []) :
    (eat p).Accepts [.punctuation p] after (· = true) := by
  rw [eat]
  refine accepts_get fun c hc => ?_
  rw [Cursor.sees_of_tokens hc, if_pos (by simp)]
  exact (accepts_advance _ hafter).bind_nil fun _ _ => .pure rfl

/-- A mark that is not there is not consumed. -/
theorem accepts_eat_not (h : u ≠ .punctuation p) : (eat p).Accepts [] (u :: after) (· = false) := by
  rw [eat]
  refine accepts_get fun c hc => ?_
  rw [Cursor.sees_of_tokens hc, if_neg (by simpa using h)]
  exact .pure rfl

/-- A mark that must be there is consumed. -/
theorem accepts_expect (hafter : after ≠ []) :
    (expect p).Accepts [.punctuation p] after fun _ => True := by
  rw [expect]
  refine accepts_get fun c hc => ?_
  rw [Cursor.sees_of_tokens hc, if_pos (by simp)]
  exact (accepts_advance _ hafter).bind_nil fun _ _ => .pure trivial

/-- A keyword that must be there is consumed. -/
theorem accepts_expectKeyword {k : Keyword} (hafter : after ≠ []) :
    (expectKeyword k).Accepts [.keyword k] after fun _ => True := by
  rw [expectKeyword]
  refine accepts_get fun c hc => ?_
  rw [Cursor.token_of_tokens hc, if_pos rfl]
  exact (accepts_advance _ hafter).bind_nil fun _ _ => .pure trivial

/-- Counting the tokens ahead consumes none. -/
theorem accepts_ahead : ahead.Accepts [] after (· = after.length) := by
  rw [ahead]
  exact accepts_get fun c hc => .pure (Cursor.length_rest_of_tokens hc)

end Reader

/-! ## Loops -/

/-- Tokens with a mark between them. -/
def Punctuation.between (p : Punctuation) : List (List Token) → List Token :=
  List.intercalate [.punctuation p]

/-- Behind the first list each one comes with a mark in front of it. -/
theorem Punctuation.between_cons (p : Punctuation) (ts : List Token) (tss : List (List Token)) :
    p.between (ts :: tss) = ts ++ tss.flatMap (.punctuation p :: ·) := by
  induction tss generalizing ts with
  | nil => simp [between]
  | cons us tss ih =>
    have hcons : p.between (ts :: us :: tss) = ts ++ [.punctuation p] ++ p.between (us :: tss) :=
      List.intercalate_cons_cons
    rw [hcons, ih us]
    simp

/-- The marks alone are almost as many as the lists. -/
theorem Punctuation.length_le_length_flatMap (p : Punctuation) (tss : List (List Token)) :
    tss.length ≤ (tss.flatMap (.punctuation p :: ·)).length := by
  induction tss with
  | nil => simp
  | cons ts tss ih =>
    rw [List.flatMap_cons, List.length_append, List.length_cons, List.length_cons]
    omega

/-- The lists are no more than the tokens and one. -/
theorem Punctuation.length_le_length_between (p : Punctuation) (tss : List (List Token)) :
    tss.length ≤ (p.between tss).length + 1 := by
  cases tss with
  | nil => simp
  | cons ts tss =>
    have := p.length_le_length_flatMap tss
    rw [between_cons, List.length_append, List.length_cons]
    omega

namespace Reader

section

-- Each element `x` is spelled by `spell x` and read by `element`, in front of any token that `S`
-- allows: the separator, and what stands behind the last element.
variable {α β : Type} {element : Reader α} {spell : β → List Token} {Q : β → α → Prop}
  {S : Token → Prop} {p closing : Punctuation} {u : Token} {after : List Token} {xs : List β}
  {fuel : Nat}

/-- Where no mark follows, the loop ends. -/
theorem accepts_afterEach_nil (hne : u ≠ .punctuation p) :
    (afterEach p element fuel).Accepts [] (u :: after) (· = []) := by
  cases fuel with
  | zero => exact .pure rfl
  | succ fuel =>
    refine Accepts.bind (s := []) (accepts_eat_not hne) ?_
    rintro _ rfl
    exact .pure rfl

/-- Each mark brings one more element. -/
theorem accepts_afterEach
    (hxs : ∀ x ∈ xs, ∀ v rest, S v → element.Accepts (spell x) (v :: rest) (Q x))
    (hp : S (.punctuation p)) (hu : S u) (hne : u ≠ .punctuation p) (hfuel : xs.length ≤ fuel) :
    (afterEach p element fuel).Accepts ((xs.map spell).flatMap (.punctuation p :: ·)) (u :: after)
      (List.Forall₂ Q xs) := by
  -- by induction on the elements; each uses up one round of those allowed
  induction xs generalizing fuel with
  | nil =>
    refine (accepts_afterEach_nil hne).mono ?_
    rintro _ rfl
    exact .nil
  | cons x xs ih =>
    obtain ⟨fuel, rfl⟩ : ∃ n, fuel = n + 1 := Nat.exists_eq_add_one.mpr (by simp at hfuel; omega)
    have htail := ih (fun y hy => hxs y (List.mem_cons_of_mem x hy))
      (Nat.le_of_succ_le_succ hfuel)
    have hx : ∀ rest, rest ++ u :: after ≠ [] := by simp
    -- the next element ends at a separator or at the end of the list
    have helement : element.Accepts (spell x)
        ((xs.map spell).flatMap (.punctuation p :: ·) ++ u :: after) (Q x) := by
      cases xs with
      | nil => exact hxs x List.mem_cons_self u after hu
      | cons y ys => exact hxs x List.mem_cons_self _ _ hp
    rw [List.map_cons, List.flatMap_cons, List.cons_append]
    refine Accepts.bind (s := [.punctuation p]) (accepts_eat (hx _)) ?_
    rintro _ rfl
    refine helement.bind fun a ha => ?_
    exact htail.bind_nil fun as has => .pure (.cons ha has)

/-- One or more elements with a mark between them. -/
theorem accepts_separated {x : β}
    (hxs : ∀ y ∈ x :: xs, ∀ v rest, S v → element.Accepts (spell y) (v :: rest) (Q y))
    (hp : S (.punctuation p)) (hu : S u) (hne : u ≠ .punctuation p) :
    (separated p element).Accepts (p.between ((x :: xs).map spell)) (u :: after)
      (List.Forall₂ Q (x :: xs)) := by
  have helement : element.Accepts (spell x)
      ((xs.map spell).flatMap (.punctuation p :: ·) ++ u :: after) (Q x) := by
    cases xs with
    | nil => exact hxs x List.mem_cons_self u after hu
    | cons y ys => exact hxs x List.mem_cons_self _ _ hp
  have hlength := p.length_le_length_flatMap (xs.map spell)
  rw [List.length_map] at hlength
  rw [List.map_cons, Punctuation.between_cons, separated]
  refine helement.bind fun a ha => ?_
  refine Accepts.bind (s := []) accepts_ahead ?_
  rintro _ rfl
  refine Accepts.bind_nil (accepts_afterEach (fun y hy => hxs y (List.mem_cons_of_mem x hy)) hp hu
    hne ?_) fun as has => .pure (.cons ha has)
  rw [List.length_append]
  exact Nat.le_trans hlength (Nat.le_add_right _ _)

/-- A single element. -/
theorem accepts_separated_one {ts : List Token} {Q : α → Prop}
    (h : element.Accepts ts (u :: after) Q) (hne : u ≠ .punctuation p) :
    (separated p element).Accepts ts (u :: after) fun as => ∃ a, as = [a] ∧ Q a := by
  rw [separated]
  refine h.bind_nil fun a ha => ?_
  refine Accepts.bind (s := []) accepts_ahead ?_
  rintro _ rfl
  refine (accepts_afterEach_nil hne).bind_nil ?_
  rintro _ rfl
  exact .pure ⟨a, rfl, ha⟩

/-- Any number of elements with a mark between them, up to a closing mark. -/
theorem accepts_upTo {separator : Reader Bool}
    (hseparator : ∀ rest, rest ≠ [] → separator.Accepts [.punctuation p] rest (· = true))
    (hclosing : separator.Accepts [] (.punctuation closing :: after) (· = false))
    (hstart : ∀ x ∈ xs, ∃ t ts, spell x = t :: ts ∧ t ≠ .punctuation closing)
    (hxs : ∀ x ∈ xs, ∀ v rest, S v → element.Accepts (spell x) (v :: rest) (Q x))
    (hp : S (.punctuation p)) (hu : S (.punctuation closing)) (hfuel : xs.length ≤ fuel) :
    (upTo closing separator element fuel).Accepts (p.between (xs.map spell))
      (.punctuation closing :: after) (List.Forall₂ Q xs) := by
  induction xs generalizing fuel with
  | nil =>
    cases fuel with
    | zero => exact .pure .nil
    | succ fuel =>
      rw [upTo]
      refine accepts_get fun c hc => ?_
      rw [Cursor.sees_of_tokens hc, if_pos (by simp)]
      exact .pure .nil
  | cons x xs ih =>
    obtain ⟨fuel, rfl⟩ : ∃ n, fuel = n + 1 := Nat.exists_eq_add_one.mpr (by simp at hfuel; omega)
    have htail := ih (fun y hy => hstart y (List.mem_cons_of_mem x hy))
      (fun y hy => hxs y (List.mem_cons_of_mem x hy)) (Nat.le_of_succ_le_succ hfuel)
    have hx := hxs x List.mem_cons_self
    obtain ⟨t, ts, hspell, ht⟩ := hstart x List.mem_cons_self
    rw [upTo]
    refine accepts_get fun c hc => ?_
    rw [List.map_cons, Punctuation.between_cons, hspell, List.cons_append] at hc
    rw [Cursor.sees_of_tokens hc, if_neg (by simpa using ht)]
    -- behind the last element no separator is needed, and none is there
    cases xs with
    | nil =>
      have hbetween : p.between ([x].map spell) = spell x := by simp [Punctuation.between_cons]
      rw [hbetween]
      refine Accepts.bind_nil (hx _ _ hu) fun a ha => ?_
      refine Accepts.bind (s := []) hclosing ?_
      rintro _ rfl
      exact .pure (.cons ha .nil)
    | cons y ys =>
      have hbetween : p.between ((x :: y :: ys).map spell) =
          spell x ++ ([.punctuation p] ++ p.between ((y :: ys).map spell)) := by
        simp [Punctuation.between_cons]
      rw [hbetween]
      refine (hx _ _ hp).bind fun a ha => ?_
      refine (hseparator _ (by simp)).bind ?_
      rintro _ rfl
      exact htail.bind_nil fun as has => .pure (.cons ha has)

/-- Any number of elements between two marks. -/
theorem accepts_enclosed {γ : Type} {opening : Punctuation} {separator : Reader Bool}
    {f : Span → List α → Span → γ} (hafter : after ≠ [])
    (hseparator : ∀ rest, rest ≠ [] → separator.Accepts [.punctuation p] rest (· = true))
    (hclosing : separator.Accepts [] (.punctuation closing :: after) (· = false))
    (hstart : ∀ x ∈ xs, ∃ t ts, spell x = t :: ts ∧ t ≠ .punctuation closing)
    (hxs : ∀ x ∈ xs, ∀ v rest, S v → element.Accepts (spell x) (v :: rest) (Q x))
    (hp : S (.punctuation p)) (hu : S (.punctuation closing)) :
    Accepts (do
        let start ← expect opening
        let elements ← upTo closing separator element (← ahead)
        let stop ← expect closing
        return f start elements stop)
      ([.punctuation opening] ++ (p.between (xs.map spell) ++ [.punctuation closing])) after
      fun x => ∃ start es stop, x = f start es stop ∧ List.Forall₂ Q xs es := by
  -- the elements are no more than the tokens ahead, which is what the loop is given
  have hfuel : xs.length ≤
      (p.between (xs.map spell) ++ [Token.punctuation closing] ++ after).length := by
    have hlength := p.length_le_length_between (xs.map spell)
    simp only [List.length_map, List.length_append, List.length_singleton] at hlength ⊢
    omega
  refine Accepts.bind (accepts_expect (by simp)) fun start _ => ?_
  refine Accepts.bind (s := []) accepts_ahead ?_
  rintro _ rfl
  refine (accepts_upTo hseparator hclosing hstart hxs hp hu hfuel).bind fun es hes => ?_
  exact (accepts_expect hafter).bind_nil fun stop _ => .pure ⟨start, es, stop, rfl, hes⟩

end

end Reader

end TypeAssay
