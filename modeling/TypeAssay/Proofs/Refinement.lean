import TypeAssay.Proofs.Machine

/-!
# The machine does what the readers do

`Follows M m s c` says that the action `M` of a machine `s` does what the reader `m` does at the
cursor `c` that the machine stands for: it always has an answer, which is the same one, and leaves
the machine at a token, not before the old one, with as many open expressions as before. There is
one rule for each way in which actions are put together, and with them one lemma for each reader.

* `typeExpr_follows`, `pass_follows` : type expressions and items.
-/

namespace TypeAssay

namespace Machine

open Reader (on_bind_ok on_bind_error on_get_bind)

/-- The machine stands for a cursor in tokens that come to an end. -/
structure IsAt (s : Machine) (c : Cursor) : Prop where
  view : s.view? = some c
  terminated : c.Terminated

/-- The machine has gone on, or stayed, and as many expressions are open. -/
structure Precedes (s s' : Machine) : Prop where
  tokens : s'.tokens = s.tokens
  depth : s'.depth = s.depth
  position : s.position ≤ s'.position

variable {α β : Type} {M : Action α} {m : Reader α} {F : α → Action β} {f : α → Reader β}
  {s s' s'' : Machine} {c c' : Cursor}

theorem Precedes.refl (s : Machine) : s.Precedes s := ⟨rfl, rfl, Nat.le_refl _⟩

theorem Precedes.trans (h : s.Precedes s') (h' : s'.Precedes s'') : s.Precedes s'' :=
  ⟨h'.tokens.trans h.tokens, h'.depth.trans h.depth, Nat.le_trans h.position h'.position⟩

/-- What a machine stands for is read off its tokens. -/
theorem view?_eq_some_iff : s.view? = some c ↔ ∃ t u, s.tokens[s.position]? = some t ∧
    s.tokens[s.position - 1]? = some u ∧ c = ⟨u.span, t, s.tokens.drop (s.position + 1)⟩ := by
  rw [view?]
  cases s.tokens[s.position]? <;> cases s.tokens[s.position - 1]? <;> simp [eq_comm]

/-- The tokens are those behind the current one, the current one, and those ahead. -/
theorem IsAt.length_eq (h : s.IsAt c) : s.tokens.length = s.position + 1 + c.rest.length := by
  obtain ⟨t, u, ht, -, rfl⟩ := view?_eq_some_iff.mp h.view
  have hlt := (List.getElem?_eq_some_iff.mp ht).1
  rw [List.length_drop]
  omega

/-- The current token is one of the tokens. -/
theorem IsAt.lt (h : s.IsAt c) : s.position < s.tokens.length := by
  have := h.length_eq
  omega

/-- A machine that has gone on has no more tokens ahead than before. -/
theorem IsAt.rest_le (h : s.IsAt c) (h' : s'.IsAt c') (hs : s.Precedes s') :
    c'.rest.length ≤ c.rest.length := by
  have := h.length_eq
  have := h'.length_eq
  have := hs.position
  rw [hs.tokens] at *
  omega

/-- An index in range is that of a current token. -/
theorem exists_isAt {located : List LocatedToken} {last : LocatedToken}
    (htokens : s.tokens = located ++ [last]) (hlast : last.token = .eof)
    (hposition : s.position < s.tokens.length) : ∃ c, s.IsAt c := by
  have hprevious : s.position - 1 < s.tokens.length := by omega
  refine ⟨_, view?_eq_some_iff.mpr ⟨_, _, List.getElem?_eq_getElem hposition,
    List.getElem?_eq_getElem hprevious, rfl⟩, ?_⟩
  have hdrop : s.tokens[s.position] :: s.tokens.drop (s.position + 1) =
      s.tokens.drop s.position := List.getElem_cons_drop hposition
  have hgetLast : ∀ h, (s.tokens.drop s.position).getLast h = last := by
    intro h
    rw [List.getLast_drop]
    simp [htokens]
  simp only [Cursor.Terminated, hdrop, hgetLast, hlast]

/-- At the start both stand at the first token. -/
theorem isAt_start {tokens : List LocatedToken} (h : (Cursor.ofTokens tokens).Terminated)
    (htokens : tokens ≠ []) : (start tokens).IsAt (Cursor.ofTokens tokens) := by
  obtain ⟨t, rest, rfl⟩ := List.exists_cons_of_ne_nil htokens
  exact ⟨rfl, h⟩

/-! ## Rules -/

/-- The action does to the machine what the reader does to the cursor. -/
def Follows (M : Action α) (m : Reader α) (s : Machine) (c : Cursor) : Prop :=
  s.IsAt c → ∃ s', M.run.run s = some ((m.on c).1, s') ∧ s'.IsAt (m.on c).2 ∧ s.Precedes s'

/-- After an answer the machine goes on. -/
theorem run_bind_ok {a : α} (h : M.run.run s = some (.ok a, s')) :
    (M >>= F).run.run s = (F a).run.run s' := by
  rw [ExceptT.run_bind, StateT.run_bind, h]
  rfl

/-- After an error the machine stops. -/
theorem run_bind_error {e : SyntaxError} (h : M.run.run s = some (.error e, s')) :
    (M >>= F).run.run s = some (.error e, s') := by
  rw [ExceptT.run_bind, StateT.run_bind, h]
  rfl

theorem Follows.pure {a : α} : Follows (Pure.pure a) (Pure.pure a) s c :=
  fun h => ⟨s, rfl, h, .refl s⟩

theorem Follows.throw {e : SyntaxError} :
    Follows (α := α) (MonadExcept.throw e) (MonadExcept.throw e) s c :=
  fun h => ⟨s, rfl, h, .refl s⟩

/-- What comes next starts where both have come to. -/
theorem Follows.bind (h : Follows M m s c) (hf : ∀ a s' c', m.on c = (.ok a, c') → s.IsAt c →
      s'.IsAt c' → s.Precedes s' → Follows (F a) (f a) s' c') :
    Follows (M >>= F) (m >>= f) s c := by
  intro hs
  obtain ⟨s', hrun, hs', hle⟩ := h hs
  cases hon : m.on c with
  | mk answer c' =>
    rw [hon] at hrun hs'
    cases answer with
    | ok a =>
      obtain ⟨s'', hrun', hs'', hle'⟩ := hf a s' c' hon hs hs' hle hs'
      rw [run_bind_ok hrun, on_bind_ok hon]
      exact ⟨s'', hrun', hs'', hle.trans hle'⟩
    | error e =>
      rw [run_bind_error hrun, on_bind_error hon]
      exact ⟨s', rfl, hs', hle⟩

/-- To look changes nothing. -/
theorem run_look (h : s.IsAt c) : look.run.run s = some (.ok c, s) := by
  have hget : (get : Action Machine).run.run s = some (.ok s, s) := rfl
  rw [look, run_bind_ok hget, h.view]
  rfl

/-- Both see the same tokens. -/
theorem follows_look {F : Cursor → Action β} {f : Cursor → Reader β}
    (h : Follows (F c) (f c) s c) : Follows (look >>= F) (get >>= f) s c := by
  intro hs
  rw [run_bind_ok (run_look hs), on_get_bind]
  exact h hs

/-- Both go on by one token if there is one more. -/
theorem isAt_advance (h : s.IsAt c) (hposition : s.position < s.tokens.length - 1) :
    IsAt { s with position := s.position + 1 } c.advance := by
  have hlength := h.length_eq
  have hnext : s.position + 1 < s.tokens.length := by omega
  refine ⟨view?_eq_some_iff.mpr ?_, h.terminated.advance⟩
  obtain ⟨t, u, ht, -, rfl⟩ := view?_eq_some_iff.mp h.view
  refine ⟨s.tokens[s.position + 1], t, List.getElem?_eq_getElem hnext, ht, ?_⟩
  exact Cursor.advance_eq (List.getElem_cons_drop hnext).symm

/-- Both go on by one token, and both stay at the last. -/
theorem follows_advance : Follows advance Reader.advance s c := by
  intro hs
  have hlength := hs.length_eq
  have hrun : advance.run.run s = some (.ok (), if s.position < s.tokens.length - 1 then
      { s with position := s.position + 1 } else s) := by
    rw [advance, run_bind_ok (run_look hs)]
    rfl
  by_cases hposition : s.position < s.tokens.length - 1
  · rw [if_pos hposition] at hrun
    exact ⟨_, hrun, isAt_advance hs hposition, rfl, rfl, Nat.le_succ _⟩
  · have hrest : c.rest = [] := List.length_eq_zero_iff.mp (by omega)
    have hstay : c.advance = c := by rw [Cursor.advance, hrest]
    rw [if_neg hposition] at hrun
    refine ⟨s, hrun, ?_, .refl s⟩
    change s.IsAt c.advance
    rwa [hstay]

/-- Both fail with the same error. -/
theorem follows_fail {expected : Expected} :
    Follows (α := α) (fail expected) (Reader.fail expected) s c :=
  follows_look .throw

/-- The machine has room for all tokens, the reader for those ahead: either is enough. -/
theorem follows_room {F : Nat → Action β} {f : Nat → Reader β}
    (h : s.IsAt c → c.rest.length < s.tokens.length →
      Follows (F s.tokens.length) (f (c.rest.length + 1)) s c) :
    Follows (room >>= F) (Reader.ahead >>= f) s c := by
  intro hs
  have hlength := hs.length_eq
  exact h hs (by omega) hs

/-- Both take the same branch. -/
theorem Follows.ite {b : Prop} [Decidable b] {M' : Action α} {m' : Reader α}
    (h : b → Follows M m s c) (h' : ¬ b → Follows M' m' s c) :
    Follows (if b then M else M') (if b then m else m') s c := by
  by_cases hb : b
  · rw [if_pos hb, if_pos hb]
    exact h hb
  · rw [if_neg hb, if_neg hb]
    exact h' hb

/-- The action follows the reader whenever so many expressions are open. -/
def FollowsAt (depth : Nat) (M : Action α) (m : Reader α) : Prop :=
  ∀ s c, s.depth = depth → Follows M m s c

/-! ## Marks -/

variable {p closing : Punctuation} {depth fuel fuel' : Nat}

/-- Both skip a mark. -/
theorem follows_eat : Follows (eat p) (Reader.eat p) s c :=
  follows_look (.ite (fun _ => follows_advance.bind fun _ _ _ _ _ _ _ => .pure) fun _ => .pure)

/-- Both need a mark. -/
theorem follows_expect : Follows (expect p) (Reader.expect p) s c :=
  follows_look (.ite (fun _ => follows_advance.bind fun _ _ _ _ _ _ _ => .pure)
    fun _ => follows_fail)

/-- Both need a keyword. -/
theorem follows_expectKeyword {k : Keyword} :
    Follows (expectKeyword k) (Reader.expectKeyword k) s c :=
  follows_look (.ite (fun _ => follows_advance.bind fun _ _ _ _ _ _ _ => .pure)
    fun _ => follows_fail)

/-! ## Loops -/

/-- A separator that is there is consumed. -/
theorem rest_lt_of_separator {separator : Reader Bool} {S : Token → Prop}
    (h : separator.Consumes c fun ts b _ => Reader.IsOptional S ts b) (hc : c.Terminated)
    (hon : separator.on c = (.ok true, c')) : c'.rest.length < c.rest.length := by
  obtain ⟨ts, d, hmoves, ⟨b, hon', mark, rfl, hb, -⟩ | ⟨e, hon', -⟩⟩ := h hc
  · obtain ⟨hb', rfl⟩ := Prod.mk.inj (hon.symm.trans hon')
    obtain rfl := Except.ok.inj hb'
    cases mark with
    | none => exact absurd hb (by simp)
    | some t =>
      have := hmoves.length_eq
      simp only [Option.toList_some, List.length_singleton] at this
      omega
  · exact absurd (congrArg Prod.fst (hon.symm.trans hon')) (by simp)

/-- A mark that is skipped is no longer ahead. -/
theorem rest_lt_of_eat (hc : c.Terminated) (hon : (Reader.eat p).on c = (.ok true, c')) :
    c'.rest.length < c.rest.length :=
  rest_lt_of_separator Reader.consumes_eat hc hon

/-- Both read what stands behind each mark, with room for as many as are ahead. -/
theorem follows_afterEach {element : Action α} {element' : Reader α}
    (helement : FollowsAt depth element element') (hdepth : s.depth = depth)
    (hfuel : c.rest.length < fuel) (hfuel' : c.rest.length < fuel') :
    Follows (afterEach p element fuel) (Reader.afterEach p element' fuel') s c := by
  induction fuel generalizing s c fuel' with
  | zero => exact absurd hfuel (Nat.not_lt_zero _)
  | succ fuel ih =>
    obtain ⟨fuel', rfl⟩ : ∃ k, fuel' = k + 1 := Nat.exists_eq_add_one.mpr (by omega)
    refine follows_eat.bind fun b s₁ c₁ hon hs hs₁ hle => .ite (fun hb => ?_) fun _ => .pure
    subst hb
    -- the mark is behind it now, so the room that is left is enough for what is ahead
    have hlt := rest_lt_of_eat hs.terminated hon
    have hdepth₁ := hle.depth.trans hdepth
    refine (helement s₁ c₁ hdepth₁).bind fun x s₂ c₂ _ _ hs₂ hle₂ => ?_
    have hrest := hs₁.rest_le hs₂ hle₂
    exact (ih (hle₂.depth.trans hdepth₁) (by omega) (by omega)).bind fun _ _ _ _ _ _ _ => .pure

/-- Both read what stands between marks. -/
theorem follows_separated {element : Action α} {element' : Reader α}
    (helement : FollowsAt depth element element') (hdepth : s.depth = depth) :
    Follows (separated p element) (Reader.separated p element') s c := by
  refine (helement s c hdepth).bind fun x s₁ c₁ _ _ _ hle => follows_room fun _ hroom => ?_
  exact (follows_afterEach helement (hle.depth.trans hdepth) hroom (Nat.lt_succ_self _)).bind
    fun _ _ _ _ _ _ _ => .pure

/-- Both read up to a closing mark, with room for as many as are ahead. -/
theorem follows_upTo {element : Action α} {element' : Reader α} {separator : Action Bool}
    {separator' : Reader Bool} {S : Token → Prop} (helement : FollowsAt depth element element')
    (hseparator : ∀ s c, Follows separator separator' s c)
    (hconsumes : ∀ c, separator'.Consumes c fun ts b _ => Reader.IsOptional S ts b)
    (hdepth : s.depth = depth) (hfuel : c.rest.length < fuel) (hfuel' : c.rest.length < fuel') :
    Follows (upTo closing separator element fuel) (Reader.upTo closing separator' element' fuel')
      s c := by
  induction fuel generalizing s c fuel' with
  | zero => exact absurd hfuel (Nat.not_lt_zero _)
  | succ fuel ih =>
    obtain ⟨fuel', rfl⟩ : ∃ k, fuel' = k + 1 := Nat.exists_eq_add_one.mpr (by omega)
    refine follows_look (.ite (fun _ => .pure) fun _ => ?_)
    refine (helement s c hdepth).bind fun x s₁ c₁ _ hs hs₁ hle => ?_
    have hrest := hs.rest_le hs₁ hle
    have hdepth₁ := hle.depth.trans hdepth
    refine (hseparator s₁ c₁).bind fun b s₂ c₂ hon _ _ hle₂ => .ite (fun hb => ?_) fun _ => .pure
    subst hb
    have hlt := rest_lt_of_separator (hconsumes c₁) hs₁.terminated hon
    exact (ih (hle₂.depth.trans hdepth₁) (by omega) (by omega)).bind fun _ _ _ _ _ _ _ => .pure

/-! ## Expressions -/

section

variable {type operand : Action TypeExpr} {type' operand' : Reader TypeExpr} {name : String}
  {e : TypeExpr}

/-- Both read type arguments. -/
theorem follows_typeArguments (htype : FollowsAt depth type type') (hdepth : s.depth = depth) :
    Follows (typeArguments type) (TypeAssay.typeArguments type') s c := by
  refine follows_expect.bind fun _ s₁ c₁ _ _ _ hle₁ => ?_
  have hdepth₁ := hle₁.depth.trans hdepth
  refine (htype s₁ c₁ hdepth₁).bind fun first s₂ c₂ _ _ _ hle₂ => ?_
  refine follows_eat.bind fun b s₃ c₃ _ _ _ hle₃ => ?_
  have hdepth₃ := hle₃.depth.trans (hle₂.depth.trans hdepth₁)
  refine .ite (fun _ => follows_room fun _ hroom => ?_) fun _ => ?_
  · refine (follows_upTo htype (fun _ _ => follows_eat) (fun _ => Reader.consumes_eat) hdepth₃ hroom
      (Nat.lt_succ_self _)).bind fun others _ _ _ _ _ _ => ?_
    exact follows_expect.bind fun _ _ _ _ _ _ _ => .pure
  · exact Follows.pure.bind fun others _ _ _ _ _ _ =>
      follows_expect.bind fun _ _ _ _ _ _ _ => .pure

/-- Both read a name. -/
theorem follows_namedExpr (htype : FollowsAt depth type type') (hdepth : s.depth = depth) :
    Follows (namedExpr type name) (TypeAssay.namedExpr type' name) s c := by
  refine follows_look (follows_advance.bind fun _ s₁ c₁ _ _ _ hle => follows_look ?_)
  refine .ite (fun _ => ?_) fun _ => ?_
  · exact (follows_typeArguments htype (hle.depth.trans hdepth)).bind fun _ _ _ _ _ _ _ =>
      follows_look .pure
  · exact Follows.pure.bind fun _ _ _ _ _ _ _ => follows_look .pure

/-- Both read a negative numeral. -/
theorem follows_negativeExpr : Follows negativeExpr TypeAssay.negativeExpr s c := by
  refine follows_look (follows_advance.bind fun _ s₁ c₁ _ _ _ _ => follows_look ?_)
  cases c₁.token with
  | number _ | bigint _ => exact follows_advance.bind fun _ _ _ _ _ _ _ => .pure
  | keyword _ | identifier _ | string _ | punctuation _ | eof => exact follows_fail

/-- Both read a `readonly` sequence. -/
theorem follows_readonlyExpr (hoperand : FollowsAt depth operand operand')
    (hdepth : s.depth = depth) :
    Follows (readonlyExpr operand) (TypeAssay.readonlyExpr operand') s c := by
  refine follows_expectKeyword.bind fun start s₁ c₁ _ _ _ hle => ?_
  refine (hoperand s₁ c₁ (hle.depth.trans hdepth)).bind fun inner s₂ c₂ _ _ _ _ => ?_
  cases inner with
  | array _ _ _ | tuple _ _ _ => exact .pure
  | _ => exact .throw

/-- Both read a tuple. -/
theorem follows_tupleExpr (htype : FollowsAt depth type type') (hdepth : s.depth = depth) :
    Follows (tupleExpr type) (TypeAssay.tupleExpr type') s c := by
  refine follows_expect.bind fun _ s₁ c₁ _ _ _ hle => follows_room fun _ hroom => ?_
  refine (follows_upTo htype (fun _ _ => follows_eat) (fun _ => Reader.consumes_eat)
    (hle.depth.trans hdepth) hroom (Nat.lt_succ_self _)).bind fun _ _ _ _ _ _ _ => ?_
  exact follows_expect.bind fun _ _ _ _ _ _ _ => .pure

/-- Both read a property behind its modifier. -/
theorem follows_propertyBody {readonly : Bool} {start : Span}
    (htype : FollowsAt depth type type') (hdepth : s.depth = depth) :
    Follows (propertyBody type readonly start) (TypeAssay.propertyBody type' readonly start)
      s c := by
  refine follows_look ?_
  cases propertyName? c.token with
  | none => exact follows_fail
  | some name =>
    refine follows_advance.bind fun _ s₁ c₁ _ _ _ hle₁ => ?_
    refine follows_eat.bind fun optional s₂ c₂ _ _ _ hle₂ => ?_
    refine follows_expect.bind fun _ s₃ c₃ _ _ _ hle₃ => ?_
    exact (htype s₃ c₃ (((hle₁.trans hle₂).trans hle₃).depth.trans hdepth)).bind
      fun _ _ _ _ _ _ _ => .pure

/-- Both read a property. -/
theorem follows_propertyExpr (htype : FollowsAt depth type type') :
    FollowsAt depth (propertyExpr type) (TypeAssay.propertyExpr type') := by
  intro s c hdepth
  refine follows_look ?_
  cases readonlyIsModifier c with
  | true =>
    refine follows_advance.bind fun _ s₁ c₁ _ _ _ hle => ?_
    exact follows_propertyBody htype (hle.depth.trans hdepth)
  | false => exact follows_propertyBody htype hdepth

/-- Both skip what stands between properties. -/
theorem follows_eatPropertySeparator :
    Follows eatPropertySeparator TypeAssay.eatPropertySeparator s c :=
  follows_eat.bind fun _ _ _ _ _ _ _ => .ite (fun _ => .pure) fun _ => follows_eat

/-- Both read an object. -/
theorem follows_objectExpr (htype : FollowsAt depth type type') (hdepth : s.depth = depth) :
    Follows (objectExpr type) (TypeAssay.objectExpr type') s c := by
  refine follows_expect.bind fun _ s₁ c₁ _ _ _ hle => follows_room fun _ hroom => ?_
  refine (follows_upTo (follows_propertyExpr htype) (fun _ _ => follows_eatPropertySeparator)
    (fun _ => consumes_eatPropertySeparator) (hle.depth.trans hdepth) hroom
    (Nat.lt_succ_self _)).bind fun _ _ _ _ _ _ _ => ?_
  exact follows_expect.bind fun _ _ _ _ _ _ _ => .pure

/-- Both read an expression in parentheses. -/
theorem follows_parenthesized (htype : FollowsAt depth type type') (hdepth : s.depth = depth) :
    Follows (parenthesized type) (TypeAssay.parenthesized type') s c := by
  refine follows_expect.bind fun _ s₁ c₁ _ _ _ hle => ?_
  refine (htype s₁ c₁ (hle.depth.trans hdepth)).bind fun _ _ _ _ _ _ _ => ?_
  exact follows_expect.bind fun _ _ _ _ _ _ _ => .pure

/-- Both choose the form of a primary expression by its first token. -/
theorem follows_primaryExpr (htype : FollowsAt depth type type')
    (hoperand : FollowsAt depth operand operand') (hdepth : s.depth = depth) :
    Follows (primaryExpr type operand) (TypeAssay.primaryExpr type' operand') s c := by
  refine follows_look ?_
  cases c.token with
  | identifier name => exact follows_namedExpr htype hdepth
  | number _ | bigint _ | string _ => exact follows_advance.bind fun _ _ _ _ _ _ _ => .pure
  | keyword k =>
    cases k with
    | readonly => exact follows_readonlyExpr hoperand hdepth
    | type | exported => exact follows_fail
  | punctuation p =>
    cases p with
    | minus => exact follows_negativeExpr
    | leftBracket => exact follows_tupleExpr htype hdepth
    | leftBrace => exact follows_objectExpr htype hdepth
    | leftParen => exact follows_parenthesized htype hdepth
    | _ => exact follows_fail
  | eof => exact follows_fail

/-- Both read the `[]` behind an operand. -/
theorem follows_arraySuffixes (hfuel : c.rest.length < fuel) (hfuel' : c.rest.length < fuel') :
    Follows (arraySuffixes e fuel) (TypeAssay.arraySuffixes e fuel') s c := by
  induction fuel generalizing s c e fuel' with
  | zero => exact absurd hfuel (Nat.not_lt_zero _)
  | succ fuel ih =>
    obtain ⟨fuel', rfl⟩ : ∃ k, fuel' = k + 1 := Nat.exists_eq_add_one.mpr (by omega)
    refine follows_look (.ite (fun hahead => ?_) fun _ => .pure)
    refine follows_advance.bind fun _ s₁ c₁ hon hs hs₁ _ => follows_look ?_
    refine follows_advance.bind fun _ s₂ c₂ _ _ hs₂ hle₂ => ?_
    obtain rfl : c.advance = c₁ := (Prod.mk.inj hon).2
    have htoken : c.token ≠ .eof := by
      rw [Bool.and_eq_true] at hahead
      simp [Cursor.token, Reader.sees_iff.mp hahead.1]
    have hlength := (Cursor.Moves.one (hs.terminated.rest_ne_nil htoken)).length_eq
    have hrest := hs₁.rest_le hs₂ hle₂
    simp only [List.length_singleton] at hlength
    exact ih (by omega) (by omega)

/-- Both read an operand. -/
theorem follows_operandExpr (htype : FollowsAt depth type type')
    (hoperand : FollowsAt depth operand operand') :
    FollowsAt depth (operandExpr type operand) (TypeAssay.operandExpr type' operand') := by
  intro s c hdepth
  refine (follows_primaryExpr htype hoperand hdepth).bind fun e s₁ c₁ _ _ _ _ => ?_
  exact follows_room fun _ hroom => follows_arraySuffixes hroom (Nat.lt_succ_self _)

/-- Both read an intersection. -/
theorem follows_intersectionExpr (hoperand : FollowsAt depth operand operand') :
    FollowsAt depth (intersectionExpr operand) (TypeAssay.intersectionExpr operand') := by
  intro s c hdepth
  refine follows_look ((follows_separated hoperand hdepth).bind fun members _ _ _ _ _ _ => ?_)
  match members with
  | [only] => exact .pure
  | [] | _ :: _ :: _ => exact follows_look .pure

/-- Both read a union. -/
theorem follows_unionExpr (hoperand : FollowsAt depth operand operand') :
    FollowsAt depth (unionExpr operand) (TypeAssay.unionExpr operand') := by
  intro s c hdepth
  refine follows_look (follows_eat.bind fun leading s₁ c₁ _ _ _ hle => ?_)
  refine (follows_separated (follows_intersectionExpr hoperand) (hle.depth.trans hdepth)).bind
    fun members _ _ _ _ _ _ => ?_
  match members with
  | [only] => exact .pure
  | [] | _ :: _ :: _ => exact follows_look .pure

end

/-! ## Nesting -/

/-- An error that is caught is an answer. -/
theorem run_lift {T : Action α} {answer : Except SyntaxError α}
    (h : T.run.run s = some (answer, s')) :
    (ExceptT.lift T.run : Action (Except SyntaxError α)).run.run s = some (.ok answer, s') := by
  rw [ExceptT.run_lift, StateT.run_map, h]
  rfl

/-- What is read with one more expression open, which is closed again. -/
theorem run_nested {T : Action TypeExpr} {answer : Except SyntaxError TypeExpr}
    (hdepth : s.depth < maxDepth)
    (h : T.run.run { s with depth := s.depth + 1 } = some (answer, s')) :
    (nested T).run.run s = some (answer, { s' with depth := s'.depth - 1 }) := by
  change ((if maxDepth < s.depth + 1 then _ else _ : Action TypeExpr)).run.run
    { s with depth := s.depth + 1 } = _
  rw [if_neg (by omega), run_bind_ok (run_lift h)]
  cases answer <;> rfl

/-- Too many expressions are open already. -/
theorem run_nested_tooDeep {T : Action TypeExpr} (hs : s.IsAt c) (hdepth : maxDepth ≤ s.depth) :
    (nested T).run.run s = some (.error ⟨.tooDeep maxDepth, c.span⟩, s) := by
  change ((if maxDepth < s.depth + 1 then _ else _ : Action TypeExpr)).run.run
    { s with depth := s.depth + 1 } = _
  rw [if_pos (by omega)]
  change (look >>= _ : Action TypeExpr).run.run s = _
  rw [run_bind_ok (run_look hs)]
  rfl

/-- An expression may be opened while not too many are. -/
theorem follows_nested {T : Action TypeExpr} {t : Reader TypeExpr}
    (h : FollowsAt (depth + 1) T t) (hdepth : depth < maxDepth) :
    FollowsAt depth (nested T) t := by
  rintro s c rfl hs
  obtain ⟨s', hrun, hs', hle⟩ := h { s with depth := s.depth + 1 } c rfl ⟨hs.view, hs.terminated⟩
  exact ⟨_, run_nested hdepth hrun, ⟨hs'.view, hs'.terminated⟩, hle.tokens,
    by simp [hle.depth], hle.position⟩

/-- Where too many expressions are open, both refuse one more. -/
theorem follows_nested_tooDeep {T : Action TypeExpr} (hdepth : maxDepth ≤ depth) :
    FollowsAt depth (nested T) nestedTooDeep := by
  rintro s c rfl hs
  exact ⟨s, run_nested_tooDeep hs hdepth, hs, .refl s⟩

/-- With so many expressions open, the readers nest as deep as is left. -/
theorem operandWithin_follows (hdepth : depth ≤ maxDepth) (hfuel : maxDepth - depth < fuel) :
    FollowsAt depth (operandWithin fuel) (operandAt (maxDepth - depth)) := by
  -- by induction on the calls; the nesting that is left is what the reader is given
  induction fuel generalizing depth with
  | zero => exact absurd hfuel (Nat.not_lt_zero _)
  | succ fuel ih =>
    rcases Nat.eq_or_lt_of_le hdepth with rfl | hlt
    · rw [Nat.sub_self]
      exact follows_operandExpr (follows_nested_tooDeep (Nat.le_refl _))
        (follows_nested_tooDeep (Nat.le_refl _))
    · obtain ⟨n, hn⟩ : ∃ n, maxDepth - depth = n + 1 := ⟨maxDepth - depth - 1, by omega⟩
      have hn' : maxDepth - (depth + 1) = n := by omega
      have hoperand := @ih (depth + 1) hlt (by omega)
      rw [hn'] at hoperand
      rw [hn]
      exact follows_operandExpr (follows_nested (follows_unionExpr hoperand) hlt)
        (follows_nested hoperand hlt)

/-- A type expression is read as deep as is left. -/
theorem typeExpr_follows (depth : Nat) :
    FollowsAt depth typeExpr (typeAt (maxDepth - depth)) := by
  rcases Nat.lt_or_ge depth maxDepth with hlt | hge
  · obtain ⟨n, hn⟩ : ∃ n, maxDepth - depth = n + 1 := ⟨maxDepth - depth - 1, by omega⟩
    have hn' : maxDepth - (depth + 1) = n := by omega
    have hoperand : FollowsAt (depth + 1) (operandWithin maxDepth)
        (operandAt (maxDepth - (depth + 1))) := operandWithin_follows hlt (by omega)
    rw [hn'] at hoperand
    rw [hn]
    exact follows_nested (follows_unionExpr hoperand) hlt
  · rw [Nat.sub_eq_zero_of_le hge]
    exact follows_nested_tooDeep hge

/-! ## Items -/

/-- Both read a type expression. -/
theorem follows_typeExpr (hdepth : s.depth = 0) : Follows typeExpr TypeAssay.typeExpr s c :=
  typeExpr_follows 0 s c hdepth

/-- Both read an alias behind its keyword. -/
theorem follows_aliasBody {begin : Span} {exported : Bool} (hdepth : s.depth = 0) :
    Follows (aliasBody begin exported) (TypeAssay.aliasBody begin exported) s c := by
  refine follows_look ?_
  cases c.token with
  | identifier name =>
    refine follows_advance.bind fun _ s₁ c₁ _ _ _ hle₁ =>
      follows_look (.ite (fun _ => ?_) fun _ => ?_)
    · refine follows_look (Follows.throw.bind fun _ _ _ hon _ _ _ => ?_)
      exact absurd (congrArg Prod.fst hon) (by simp [Reader.on_throw])
    · refine follows_expect.bind fun _ s₂ c₂ _ _ _ hle₂ => ?_
      exact (follows_typeExpr ((hle₁.trans hle₂).depth.trans hdepth)).bind
        fun _ _ _ _ _ _ _ => .pure
  | _ => exact follows_fail

/-- Both read an alias. -/
theorem follows_aliasDecl (hdepth : s.depth = 0) : Follows aliasDecl TypeAssay.aliasDecl s c := by
  refine follows_look ?_
  by_cases hexported : c.token = .keyword .exported
  · simp only [hexported, if_true]
    refine follows_advance.bind fun _ s₁ c₁ _ _ _ hle₁ => ?_
    refine follows_expectKeyword.bind fun _ s₂ c₂ _ _ _ hle₂ => ?_
    exact follows_aliasBody ((hle₁.trans hle₂).depth.trans hdepth)
  · simp only [hexported, if_false]
    refine follows_expectKeyword.bind fun _ s₁ c₁ _ _ _ hle => ?_
    exact follows_aliasBody (hle.depth.trans hdepth)

/-- Both read the end of an item. -/
theorem follows_endOfItem : Follows endOfItem TypeAssay.endOfItem s c :=
  follows_look <| .ite (fun _ => follows_advance) fun _ =>
    .ite (fun _ => .pure) fun _ => follows_fail

/-- Both read an item. -/
theorem follows_item (hdepth : s.depth = 0) : Follows item TypeAssay.item s c := by
  rw [item_eq]
  refine follows_look (.ite (fun _ => ?_) fun _ => ?_)
  · exact (follows_aliasDecl hdepth).bind fun _ _ _ _ _ _ _ =>
      follows_endOfItem.bind fun _ _ _ _ _ _ _ => .pure
  · exact (follows_typeExpr hdepth).bind fun _ _ _ _ _ _ _ =>
      follows_endOfItem.bind fun _ _ _ _ _ _ _ => .pure

/-- The machine skips to the same place. -/
theorem run_skipToItem (hs : s.IsAt c) (hfuel : c.rest.length < fuel)
    (hfuel' : c.rest.length < fuel') :
    ∃ s', (skipToItem fuel).run.run s = some (.ok (), s') ∧
      s'.IsAt (TypeAssay.skipToItem fuel' c) ∧ s.Precedes s' := by
  -- by induction on the room of the machine; the token that is skipped makes it enough
  induction fuel generalizing s c fuel' with
  | zero => exact absurd hfuel (Nat.not_lt_zero _)
  | succ fuel ih =>
    obtain ⟨fuel', rfl⟩ : ∃ k, fuel' = k + 1 := Nat.exists_eq_add_one.mpr (by omega)
    obtain ⟨s₁, hrun, hs₁, hle⟩ := follows_advance hs
    rw [skipToItem, TypeAssay.skipToItem, run_bind_ok (run_look hs)]
    split
    · exact ⟨s, rfl, hs, .refl s⟩
    · rename_i hstop
      split
      · exact ⟨s₁, hrun, hs₁, hle⟩
      · have hend : c.token ≠ .eof := by
          rw [Bool.not_eq_true, Bool.or_eq_false_iff] at hstop
          simpa [Cursor.atEnd] using hstop.1
        have hlength := (Cursor.Moves.one (hs.terminated.rest_ne_nil hend)).length_eq
        rw [List.length_singleton] at hlength
        obtain ⟨s₂, hrun₂, hs₂, hle₂⟩ := @ih s₁ c.advance fuel' hs₁ (by omega) (by omega)
        rw [run_bind_ok hrun]
        exact ⟨s₂, hrun₂, hs₂, hle.trans hle₂⟩

/-- A pass over an item does the same. -/
theorem run_pass (hs : s.IsAt c) (hdepth : s.depth = 0) :
    ∃ s', pass.run.run s = some (.ok (TypeAssay.pass c).1, s') ∧ s'.IsAt (TypeAssay.pass c).2 ∧
      s.Precedes s' := by
  obtain ⟨s₁, hrun, hs₁, hle⟩ := follows_item hdepth hs
  rw [pass, TypeAssay.pass]
  cases hon : TypeAssay.item.on c with
  | mk answer c₁ =>
    rw [hon] at hrun hs₁
    rw [run_bind_ok (run_lift hrun)]
    cases answer with
    | ok i => exact ⟨s₁, rfl, hs₁, hle⟩
    | error e =>
      -- an error leaves as many expressions open as there were, which is none
      have hclosed : { s₁ with depth := 0 } = s₁ := by rw [← hdepth, ← hle.depth]
      have hat : s₁.IsAt c₁ := hs₁
      have hlength := hat.length_eq
      obtain ⟨s₂, hrun₂, hs₂, hle₂⟩ := run_skipToItem hat
        (show c₁.rest.length < s₁.tokens.length by omega) (Nat.lt_succ_self _)
      refine ⟨s₂, ?_, hs₂, hle.trans hle₂⟩
      change (skipToItem s₁.tokens.length >>= fun _ => Pure.pure (Except.error e)).run.run
        { s₁ with depth := 0 } = _
      rw [hclosed, run_bind_ok hrun₂]
      rfl

end Machine

end TypeAssay
