import Mathlib.Data.List.Nodup
import TypeAssay.Lattice.Intersection

/-!
# The odometer

A distribution visits every choice of one alternative from each member, with a cursor that moves as
an odometer does. `Turns lists cursor cs` is a run of that loop, as its definition reads: each
cursor on the way shows a choice, so no index is out of range, and after the last cursor the run
ends.

* `turns_choices` : where no list is empty, the run from the start shows all `choices`.
* `visitFrom_of_turns` : whatever is done with a choice, it is done with those of the run, in order.
-/

namespace TypeAssay

/-- From `cursor` on, the odometer shows the choices `cs`, and then it stops. -/
inductive Turns (lists : List (List TypeId)) : List Nat → List (List TypeId) → Prop
  | last {cursor : List Nat} {c : List TypeId} (shows : choiceAt? lists cursor = some c)
      (stops : advance? lists cursor = none) : Turns lists cursor [c]
  | next {cursor next : List Nat} {c : List TypeId} {cs : List (List TypeId)}
      (shows : choiceAt? lists cursor = some c) (advances : advance? lists cursor = some next)
      (rest : Turns lists next cs) : Turns lists cursor (c :: cs)

variable {lists : List (List TypeId)} {options tail c : List TypeId} {cursor : List Nat} {i : Nat}
  {cs more : List (List TypeId)}

/-- A run shows at least one choice, the first. -/
theorem Turns.exists_cons (h : Turns lists cursor cs) : ∃ c rest, cs = c :: rest := by
  cases h with
  | last => exact ⟨_, _, rfl⟩
  | next => exact ⟨_, _, rfl⟩

/-! ## One more list in front -/

/-- While the first index goes up to the end of its list, the others stay. Then they are advanced,
if they can be, and the first index starts again. -/
theorem turns_row (htail : choiceAt? lists cursor = some tail) (hi : i < options.length)
    (hmore : advance? lists cursor = none ∧ more = [] ∨
      ∃ next, advance? lists cursor = some next ∧ Turns (options :: lists) (0 :: next) more) :
    Turns (options :: lists) (i :: cursor) ((options.drop i).map (· :: tail) ++ more) := by
  -- by induction on how far the first index is from the end of its list
  induction hk : options.length - i generalizing i with
  | zero => omega
  | succ k ih =>
    have hshows : choiceAt? (options :: lists) (i :: cursor) = some (options[i] :: tail) := by
      simp [choiceAt?, hi, htail]
    rw [List.drop_eq_getElem_cons hi, List.map_cons, List.cons_append]
    -- the first index goes up while it can
    by_cases hlast : i + 1 < options.length
    · have hup : advance? (options :: lists) (i :: cursor) = some ((i + 1) :: cursor) := by
        rw [advance?, if_pos hlast]
      exact .next hshows hup (ih hlast (by omega))
    · have hnil : options.drop (i + 1) = [] := List.drop_eq_nil_of_le (Nat.not_lt.mp hlast)
      rw [hnil, List.map_nil, List.nil_append]
      rcases hmore with ⟨hnone, rfl⟩ | ⟨next, hnext, hrest⟩
      · apply Turns.last hshows
        rw [advance?, if_neg hlast, hnone, Option.map_none]
      · have hcarry : advance? (options :: lists) (i :: cursor) = some (0 :: next) := by
          rw [advance?, if_neg hlast, hnext, Option.map_some]
        exact .next hshows hcarry hrest

/-- With one more list, each choice becomes a row. -/
theorem Turns.cons (h : Turns lists cursor (c :: cs)) (hi : i < options.length) :
    Turns (options :: lists) (i :: cursor)
      ((options.drop i).map (· :: c) ++ cs.flatMap fun tail => options.map (· :: tail)) := by
  -- by induction on the run over the other lists; each of its turns becomes a row
  generalize hall : c :: cs = all at h
  induction h generalizing i c cs with
  | last hshows hstops =>
    obtain ⟨rfl, rfl⟩ := List.cons.inj hall
    exact turns_row hshows hi (Or.inl ⟨hstops, rfl⟩)
  | next hshows hadvances hrest ih =>
    obtain ⟨rfl, rfl⟩ := List.cons.inj hall
    obtain ⟨d, ds, rfl⟩ := hrest.exists_cons
    have hpos : 0 < options.length := Nat.lt_of_le_of_lt (Nat.zero_le i) hi
    exact turns_row hshows hi (Or.inr ⟨_, hadvances, ih hpos rfl⟩)

/-! ## All lists -/

/-- From the start on, the odometer shows every choice. -/
theorem turns_choices (h : ∀ l ∈ lists, l ≠ []) :
    Turns lists (lists.map fun _ => 0) (choices lists) := by
  induction lists with
  | nil => exact .last rfl rfl
  | cons options lists ih =>
    obtain ⟨hoptions, hlists⟩ := List.forall_mem_cons.mp h
    have hturns := ih hlists
    obtain ⟨c, cs, hcs⟩ := hturns.exists_cons
    rw [hcs] at hturns
    rw [choices, hcs]
    exact hturns.cons (List.length_pos_iff.mpr hoptions)

/-- No choice comes twice if no list has an element twice. -/
theorem nodup_choices (h : ∀ l ∈ lists, l.Nodup) : (choices lists).Nodup := by
  induction lists with
  | nil => exact List.nodup_singleton _
  | cons options lists ih =>
    -- rows differ in their tails, and within a row the first elements differ
    obtain ⟨hoptions, hlists⟩ := List.forall_mem_cons.mp h
    rw [choices, List.nodup_flatMap]
    constructor
    · intro tail _
      exact hoptions.map fun a b hab => (List.cons.inj hab).1
    · apply (ih hlists).imp
      intro s t hst c hs ht
      obtain ⟨a, -, rfl⟩ := List.mem_map.mp hs
      obtain ⟨b, -, hb⟩ := List.mem_map.mp ht
      exact hst (List.cons.inj hb).2.symm

/-- Where a list is empty, the first cursor has an index out of range. -/
theorem choiceAt?_start_eq_none (h : [] ∈ lists) :
    choiceAt? lists (lists.map fun _ => 0) = none := by
  induction lists with
  | nil => exact absurd h List.not_mem_nil
  | cons options lists ih =>
    rw [List.map_cons, choiceAt?]
    rcases List.mem_cons.mp h with rfl | h
    · rfl
    · rw [ih h]
      cases options[0]? <;> rfl

/-- Where a list is empty, there is no choice. -/
theorem choices_eq_nil (h : [] ∈ lists) : choices lists = [] := by
  induction lists with
  | nil => exact absurd h List.not_mem_nil
  | cons options lists ih =>
    rcases List.mem_cons.mp h with rfl | h
    · simp [choices]
    · simp [choices, ih h]

/-! ## Visits -/

section

variable {m : Type → Type} [Monad m] {α : Type}

/-- One turn: the choice that is shown is visited, and the cursor is advanced, if it can be. -/
theorem visitFrom_of_choiceAt? [LawfulMonad m] (visit : List TypeId → m α) (done : List α)
    (h : choiceAt? lists cursor = some c) :
    visitFrom lists visit cursor done = (do
      let result ← visit c
      match advance? lists cursor with
      | none => return (result :: done).reverse
      | some next => visitFrom lists visit next (result :: done)) := by
  rw [visitFrom, h]
  apply bind_congr
  intro result
  split
  · rename_i hstops
    rw [hstops]
  · rename_i hadvances
    rw [hadvances]

/-- Whatever is done with a choice, it is done with the choices of the run, one after the other. -/
theorem visitFrom_of_turns [LawfulMonad m] (h : Turns lists cursor cs) (visit : List TypeId → m α)
    (done : List α) :
    visitFrom lists visit cursor done = (done.reverse ++ ·) <$> cs.mapM visit := by
  induction h generalizing done with
  | last hshows hstops => simp [visitFrom_of_choiceAt? visit done hshows, hstops]
  | next hshows hadvances _ ih =>
    simp [visitFrom_of_choiceAt? visit done hshows, hadvances, ih]

/-- The choices that are visited are all choices. -/
theorem visitChoices_eq_mapM [LawfulMonad m] (lists : List (List TypeId))
    (visit : List TypeId → m α) : visitChoices lists visit = (choices lists).mapM visit := by
  unfold visitChoices
  by_cases hempty : [] ∈ lists
  · rw [visitFrom, choiceAt?_start_eq_none hempty, choices_eq_nil hempty]
    rfl
  · have hlists : ∀ l ∈ lists, l ≠ [] := fun l hl hnil => hempty (hnil ▸ hl)
    rw [visitFrom_of_turns (turns_choices hlists) visit []]
    simp

end

end TypeAssay
