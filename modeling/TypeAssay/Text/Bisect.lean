/-!
# Binary search

The search halves a stretch of a list until one element is left and compares that one. On a list
that is ascending for the comparison it finds an element that compares equal, if there is one.
-/

namespace TypeAssay

/-- The index at which a search in a stretch of a list ends, and how the element there compares. The
stretch starts at `base`. -/
def bisectFrom {α : Type} (cmp : α → Ordering) (base : Nat) (xs : List α) :
    Option (Nat × Ordering) :=
  match xs with
  | [] => none
  | [x] => some (base, cmp x)
  | x :: y :: rest =>
    let half := (rest.length + 2) / 2
    if cmp ((x :: y :: rest).getD half x) = .gt then
      bisectFrom cmp base ((x :: y :: rest).take (rest.length + 2 - half))
    else bisectFrom cmp (base + half) ((x :: y :: rest).drop half)
termination_by xs.length
decreasing_by
  all_goals simp +zetaDelta only [List.length_take, List.length_drop, List.length_cons]
  all_goals omega

/-- An element that compares equal. -/
def bisectFind? {α : Type} (cmp : α → Ordering) (xs : List α) : Option α :=
  match bisectFrom cmp 0 xs with
  | some (i, .eq) => xs[i]?
  | _ => none

/-- Where an element belongs: at one that compares equal, or between the smaller and the greater
ones. -/
def bisectIndex {α : Type} (cmp : α → Ordering) (xs : List α) : Nat :=
  match bisectFrom cmp 0 xs with
  | some (i, .lt) => i + 1
  | some (i, _) => i
  | none => 0

end TypeAssay
