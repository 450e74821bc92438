import TypeAssay.Lattice.Table

/-!
# Outcomes

A relation that is evaluated for every alternative of a type can reach its true branch, its false
branch, both or neither. An outcome is that set of branches. The four outcomes are the four types
that a relation can have as its value: `never`, `true`, `false` and `boolean`.
-/

namespace TypeAssay

/-- The branches that a relation reached. -/
structure Outcome where
  reachesTrue : Bool
  reachesFalse : Bool
deriving DecidableEq, Repr

namespace Outcome

def never : Outcome := ⟨false, false⟩
def yes : Outcome := ⟨true, false⟩
def no : Outcome := ⟨false, true⟩
def both : Outcome := ⟨true, true⟩

/-- The four outcomes. -/
def all : List Outcome := [never, yes, no, both]

/-- The outcome of a plain answer. -/
def ofBool (b : Bool) : Outcome := ⟨b, !b⟩

/-- Whether exactly one branch was reached. -/
def isStrict (o : Outcome) : Bool := o.reachesTrue != o.reachesFalse

/-- The answer of a strict outcome. -/
def toBool? (o : Outcome) : Option Bool := if o.isStrict then some o.reachesTrue else none

/-- The branches that one of two evaluations reached. -/
def union (o p : Outcome) : Outcome :=
  ⟨o.reachesTrue || p.reachesTrue, o.reachesFalse || p.reachesFalse⟩

/-- The branches that some evaluation of a list reached. -/
def unionAll (os : List Outcome) : Outcome := os.foldl union never

/-- Swaps the branches. -/
def not (o : Outcome) : Outcome := ⟨o.reachesFalse, o.reachesTrue⟩

/-- The written form of an outcome. -/
def text : Outcome → String
  | ⟨false, false⟩ => "never"
  | ⟨true, false⟩ => "true"
  | ⟨false, true⟩ => "false"
  | ⟨true, true⟩ => "boolean"

/-- The outcome with a written form. -/
def ofText? (word : String) : Option Outcome := all.find? (·.text == word)

/-- The type that an outcome is. -/
def toType : Outcome → TypeId
  | ⟨false, false⟩ => TypeId.never
  | ⟨true, false⟩ => TypeId.yes
  | ⟨false, true⟩ => TypeId.no
  | ⟨true, true⟩ => TypeId.boolean

/-- The outcome that a type is. -/
def ofType? (i : TypeId) : Option Outcome := all.find? (·.toType == i)

/-- A plain answer is read back from its outcome. -/
@[simp]
theorem toBool?_ofBool (b : Bool) : (ofBool b).toBool? = some b := by cases b <;> rfl

/-- An outcome is read back from its type. -/
theorem ofType?_toType (o : Outcome) : ofType? o.toType = some o := by
  rcases o with ⟨_ | _, _ | _⟩ <;> rfl

/-- An outcome is read back from its written form. -/
theorem ofText?_text (o : Outcome) : ofText? o.text = some o := by
  rcases o with ⟨_ | _, _ | _⟩ <;> decide

/-- The true branch is reached if some evaluation of the list reaches it. -/
theorem reachesTrue_unionAll (os : List Outcome) :
    (unionAll os).reachesTrue = os.any (·.reachesTrue) := by
  suffices h : ∀ o : Outcome, (os.foldl union o).reachesTrue =
      (o.reachesTrue || os.any (·.reachesTrue)) from by simpa [unionAll, never] using h never
  induction os with
  | nil => simp
  | cons p os ih => intro o; simp [ih, union, Bool.or_assoc]

/-- The false branch is reached if some evaluation of the list reaches it. -/
theorem reachesFalse_unionAll (os : List Outcome) :
    (unionAll os).reachesFalse = os.any (·.reachesFalse) := by
  suffices h : ∀ o : Outcome, (os.foldl union o).reachesFalse =
      (o.reachesFalse || os.any (·.reachesFalse)) from by simpa [unionAll, never] using h never
  induction os with
  | nil => simp
  | cons p os ih => intro o; simp [ih, union, Bool.or_assoc]

end Outcome

end TypeAssay
