import Mathlib.Data.List.Forall2
import TypeAssay.Proofs.Canonical

/-!
# Computations that build types

`m.Yields T Q` says that `m`, started with the table `T`, interns nothing but canonical nodes over
canonical parts, and that an answer it gives satisfies `Q` in the table it leaves behind. A
computation that fails has interned canonical nodes only, too.

The rules follow the ways in which computations are put together: `Yields.pure`, `Yields.bind`,
`yields_mapM`. `m.Gives T Q` says the same and that there is an answer.
-/

namespace TypeAssay

variable {α β : Type} {T : TypeTable}

/-! ## Lists that correspond -/

/-- A property of the right elements that is one of the left elements: for some of them. -/
theorem exists_iff_of_forall₂ {R : α → β → Prop} {p : α → Prop} {q : β → Prop} {xs : List α}
    {ys : List β} (h : List.Forall₂ R xs ys) (hR : ∀ x y, R x y → (q y ↔ p x)) :
    (∃ y ∈ ys, q y) ↔ ∃ x ∈ xs, p x := by
  induction h with
  | nil => simp
  | cons hxy _ ih => simp [hR _ _ hxy, ih]

/-- A property of the right elements that is one of the left elements: for all of them. -/
theorem forall_iff_of_forall₂ {R : α → β → Prop} {p : α → Prop} {q : β → Prop} {xs : List α}
    {ys : List β} (h : List.Forall₂ R xs ys) (hR : ∀ x y, R x y → (q y ↔ p x)) :
    (∀ y ∈ ys, q y) ↔ ∀ x ∈ xs, p x := by
  induction h with
  | nil => simp
  | cons hxy _ ih => simp [hR _ _ hxy, ih]

/-- What corresponds to something has what correspondence says of the right side. -/
theorem forall_right_of_forall₂ {R : α → β → Prop} {q : β → Prop} {xs : List α} {ys : List β}
    (h : List.Forall₂ R xs ys) (hR : ∀ x y, R x y → q y) : ∀ y ∈ ys, q y :=
  (forall_iff_of_forall₂ (p := fun _ => True) h fun x y hxy =>
    iff_of_true (hR x y hxy) trivial).mpr fun _ _ => trivial

/-- Two correspondences make one, if the elements that meet allow it. -/
theorem forall₂_trans {R S Q : α → α → Prop} {xs ys zs : List α}
    (hxy : List.Forall₂ R xs ys) (hyz : List.Forall₂ S ys zs)
    (h : ∀ x ∈ xs, ∀ y ∈ ys, ∀ z ∈ zs, R x y → S y z → Q x z) : List.Forall₂ Q xs zs := by
  induction hxy generalizing zs with
  | nil =>
    rw [List.forall₂_nil_left_iff.mp hyz]
    exact .nil
  | cons hxy _ ih =>
    -- the element in the middle is what both correspondences have in common
    obtain ⟨z, zs, hz, hzs, rfl⟩ := List.forall₂_cons_left_iff.mp hyz
    refine .cons (h _ List.mem_cons_self _ List.mem_cons_self _ List.mem_cons_self hxy hz) ?_
    exact ih hzs fun x hx y hy z hz => h x (List.mem_cons_of_mem _ hx) y (List.mem_cons_of_mem _ hy)
      z (List.mem_cons_of_mem _ hz)

/-- Each element of the left list has one that corresponds to it. -/
theorem exists_right_of_forall₂ {R : α → β → Prop} {xs : List α} {ys : List β} {x : α}
    (h : List.Forall₂ R xs ys) (hx : x ∈ xs) : ∃ y ∈ ys, R x y := by
  induction h with
  | nil => exact absurd hx List.not_mem_nil
  | cons hxy _ ih =>
    rcases List.mem_cons.mp hx with rfl | hx
    · exact ⟨_, List.mem_cons_self, hxy⟩
    · obtain ⟨y, hy, hxy⟩ := ih hx
      exact ⟨y, List.mem_cons_of_mem _ hy, hxy⟩

/-! ## Computations over lists -/

/-- What is run for each element of a list has the answers of its elements, whatever the judgement
`Y` about computations is, so long as it has the rules for `pure` and for `bind`. An answer must
stay right while the other elements are run. -/
theorem mapM_rule {m : Type → Type} [Monad m] [LawfulMonad m]
    {Y : {γ : Type} → m γ → TypeTable → (γ → TypeTable → Prop) → Prop}
    (hpure : ∀ {γ : Type} {c : γ} {T : TypeTable} {Q : γ → TypeTable → Prop},
      Q c T → Y (pure c) T Q)
    (hbind : ∀ {γ δ : Type} {x : m γ} {f : γ → m δ} {T : TypeTable} {Q : γ → TypeTable → Prop}
      {R : δ → TypeTable → Prop}, Y x T Q → (∀ c U, T.Builds U → Q c U → Y (f c) U R) →
      Y (x >>= f) T R)
    {f : α → m β} {Q : α → β → TypeTable → Prop} {xs : List α}
    (hf : ∀ x ∈ xs, ∀ U, T.Builds U → Y (f x) U (Q x))
    (hQ : ∀ x b U V, U.Builds V → Q x b U → Q x b V) :
    Y (xs.mapM f) T fun ys U => List.Forall₂ (fun x y => Q x y U) xs ys := by
  induction xs generalizing T with
  | nil => exact hpure .nil
  | cons x xs ih =>
    rw [List.mapM_cons]
    refine hbind (hf x List.mem_cons_self T .refl) fun y U hTU hy => ?_
    have hxs : ∀ x' ∈ xs, ∀ V, U.Builds V → Y (f x') V (Q x') := fun x' hx' V hUV =>
      hf x' (List.mem_cons_of_mem _ hx') V (hTU.trans hUV)
    refine hbind (ih hxs) fun ys V hUV hys => hpure ?_
    exact .cons (hQ x y U V hUV hy) hys

/-! ## Computations that cannot fail -/

namespace Interning

/-- `m` builds canonical types, and its answer satisfies `Q`. -/
def Yields (m : Interning α) (T : TypeTable) (Q : α → TypeTable → Prop) : Prop :=
  T.Builds (m.run T).2 ∧ Q (m.run T).1 (m.run T).2

variable {m : Interning α} {f : α → Interning β} {Q Q' : α → TypeTable → Prop}
  {R : β → TypeTable → Prop}

/-- A plain answer builds nothing. -/
theorem Yields.pure {a : α} (h : Q a T) : Yields (Pure.pure a) T Q := ⟨.refl, h⟩

/-- Reading the table builds nothing. -/
theorem Yields.get {f : TypeTable → Interning β} (h : (f T).Yields T R) :
    Yields (MonadState.get >>= f) T R := h

/-- A weaker condition on the answer holds as well. -/
theorem Yields.mono (h : m.Yields T Q) (hQ : ∀ a U, T.Builds U → Q a U → Q' a U) :
    m.Yields T Q' :=
  ⟨h.1, hQ _ _ h.1 h.2⟩

/-- What follows starts where the first computation stops. -/
theorem Yields.bind (h : m.Yields T Q) (hf : ∀ a U, T.Builds U → Q a U → (f a).Yields U R) :
    Yields (m >>= f) T R := by
  obtain ⟨hb, hQ⟩ := h
  obtain ⟨hb', hR⟩ := hf _ _ hb hQ
  exact ⟨hb.trans hb', hR⟩

/-- Interning a canonical node over canonical parts is building it. -/
theorem yields_intern {t : Ty} {Q : TypeId → TypeTable → Prop} (hc : T.CanonicalNode t)
    (hp : ∀ j ∈ t.parts, T.Canonical j) (hQ : Q (T.intern t).1 (T.intern t).2) :
    Yields (intern t) T Q :=
  ⟨.intern .refl hc hp, hQ⟩

/-- A list of computations has the answers of its elements. -/
theorem yields_mapM {f : α → Interning β} {Q : α → β → TypeTable → Prop} {xs : List α}
    (hf : ∀ x ∈ xs, ∀ U, T.Builds U → (f x).Yields U (Q x))
    (hQ : ∀ x b U V, U.Builds V → Q x b U → Q x b V) :
    Yields (xs.mapM f) T fun ys U => List.Forall₂ (fun x y => Q x y U) xs ys :=
  mapM_rule Yields.pure Yields.bind hf hQ

end Interning

/-! ## Computations that may fail -/

namespace Building

/-- What a computation answers, and the table that it leaves behind. -/
def on (m : Building α) (T : TypeTable) : Except TypeError α × TypeTable := m.run.run T

/-- `m` builds canonical types even if it fails, and an answer satisfies `Q`. -/
def Yields (m : Building α) (T : TypeTable) (Q : α → TypeTable → Prop) : Prop :=
  T.Builds (m.on T).2 ∧ ∀ a, (m.on T).1 = .ok a → Q a (m.on T).2

variable {m : Building α} {f : α → Building β} {Q Q' : α → TypeTable → Prop}
  {R : β → TypeTable → Prop}

/-- After an answer the computation goes on in the table that is left behind. -/
theorem on_bind_ok {a : α} {U : TypeTable} (h : m.on T = (.ok a, U)) :
    on (m >>= f) T = (f a).on U := by
  have hrun : m.run.run T = (.ok a, U) := h
  change (ExceptT.run (m >>= f)).run T = _
  rw [ExceptT.run_bind, StateT.run_bind, hrun]
  rfl

/-- After a failure nothing more happens. -/
theorem on_bind_error {e : TypeError} {U : TypeTable} (h : m.on T = (.error e, U)) :
    on (m >>= f) T = (.error e, U) := by
  have hrun : m.run.run T = (.error e, U) := h
  change (ExceptT.run (m >>= f)).run T = _
  rw [ExceptT.run_bind, StateT.run_bind, hrun]
  rfl

/-- Reading the table passes it on. -/
theorem on_get_bind {f : TypeTable → Building β} :
    on (MonadState.get >>= f) T = (f T).on T := rfl

/-- A plain answer builds nothing. -/
theorem Yields.pure {a : α} (h : Q a T) : Yields (Pure.pure a) T Q := by
  refine ⟨.refl, fun b hb => ?_⟩
  obtain rfl : a = b := Except.ok.inj hb
  exact h

/-- A failure builds nothing and gives no answer. -/
theorem Yields.throw {e : TypeError} : Yields (throw e : Building α) T Q := by
  refine ⟨.refl, fun a h => ?_⟩
  have herror : Except.error e = Except.ok a := h
  exact absurd herror (by simp)

/-- Reading the table builds nothing. -/
theorem Yields.get {f : TypeTable → Building β} (h : (f T).Yields T R) :
    Yields (MonadState.get >>= f) T R := h

/-- A weaker condition on the answer holds as well. -/
theorem Yields.mono (h : m.Yields T Q) (hQ : ∀ a U, T.Builds U → Q a U → Q' a U) :
    m.Yields T Q' :=
  ⟨h.1, fun a ha => hQ a _ h.1 (h.2 a ha)⟩

/-- What follows starts where the first computation stops, if it answered. -/
theorem Yields.bind (h : m.Yields T Q) (hf : ∀ a U, T.Builds U → Q a U → (f a).Yields U R) :
    Yields (m >>= f) T R := by
  obtain ⟨hb, hQ⟩ := h
  -- a failure ends the computation, and what it built stays
  rcases hm : m.on T with ⟨⟨e⟩ | ⟨a⟩, U⟩
  · rw [hm] at hb
    rw [Yields, on_bind_error hm]
    exact ⟨hb, fun _ h => absurd h (by simp)⟩
  · rw [hm] at hb hQ
    obtain ⟨hb', hR⟩ := hf a U hb (hQ a rfl)
    rw [Yields, on_bind_ok hm]
    exact ⟨hb.trans hb', hR⟩

/-- A list of computations has the answers of its elements, if all answer. -/
theorem yields_mapM {f : α → Building β} {Q : α → β → TypeTable → Prop} {xs : List α}
    (hf : ∀ x ∈ xs, ∀ U, T.Builds U → (f x).Yields U (Q x))
    (hQ : ∀ x b U V, U.Builds V → Q x b U → Q x b V) :
    Yields (xs.mapM f) T fun ys U => List.Forall₂ (fun x y => Q x y U) xs ys :=
  mapM_rule Yields.pure Yields.bind hf hQ

/-! ### Answers that are there -/

/-- `m` builds canonical types and answers, and the answer satisfies `Q`. -/
def Gives (m : Building α) (T : TypeTable) (Q : α → TypeTable → Prop) : Prop :=
  ∃ a U, m.on T = (.ok a, U) ∧ T.Builds U ∧ Q a U

/-- A plain answer is given. -/
theorem Gives.pure {a : α} (h : Q a T) : Gives (Pure.pure a) T Q := ⟨a, T, rfl, .refl, h⟩

/-- A weaker condition on the answer holds as well. -/
theorem Gives.mono (h : m.Gives T Q) (hQ : ∀ a U, T.Builds U → Q a U → Q' a U) :
    m.Gives T Q' := by
  obtain ⟨a, U, hon, hb, ha⟩ := h
  exact ⟨a, U, hon, hb, hQ a U hb ha⟩

/-- If both computations answer, so do they together. -/
theorem Gives.bind (h : m.Gives T Q) (hf : ∀ a U, T.Builds U → Q a U → (f a).Gives U R) :
    Gives (m >>= f) T R := by
  obtain ⟨a, U, hon, hb, ha⟩ := h
  obtain ⟨b, V, hon', hb', hb''⟩ := hf a U hb ha
  exact ⟨b, V, (on_bind_ok hon).trans hon', hb.trans hb', hb''⟩

/-- A list of computations answers if each element does, wherever it is run. -/
theorem gives_mapM {f : α → Building β} {Q : α → β → TypeTable → Prop} {xs : List α}
    (hf : ∀ x ∈ xs, ∀ U, T.Builds U → (f x).Gives U (Q x))
    (hQ : ∀ x b U V, U.Builds V → Q x b U → Q x b V) :
    Gives (xs.mapM f) T fun ys U => List.Forall₂ (fun x y => Q x y U) xs ys :=
  mapM_rule Gives.pure Gives.bind hf hQ

/-- An answer that is given is one that is right if it is given. -/
theorem Gives.yields (h : m.Gives T Q) : m.Yields T Q := by
  obtain ⟨a, U, hon, hb, ha⟩ := h
  rw [Yields, hon]
  refine ⟨hb, fun b hb' => ?_⟩
  obtain rfl := Except.ok.inj hb'
  exact ha

/-- What cannot fail answers in the table that it is run in. -/
theorem on_lift (m : Interning α) (T : TypeTable) :
    on (monadLift m) T = (.ok (m.run T).1, (m.run T).2) := rfl

end Building

/-- What cannot fail can be used where failing is allowed. -/
theorem Interning.Yields.gives {m : Interning α} {Q : α → TypeTable → Prop} (h : m.Yields T Q) :
    Building.Gives (monadLift m) T Q :=
  ⟨_, _, Building.on_lift m T, h.1, h.2⟩

/-- What cannot fail builds the same where failing is allowed. -/
theorem Interning.Yields.lift {m : Interning α} {Q : α → TypeTable → Prop} (h : m.Yields T Q) :
    Building.Yields (monadLift m) T Q :=
  h.gives.yields

end TypeAssay
