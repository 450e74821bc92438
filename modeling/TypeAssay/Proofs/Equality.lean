import TypeAssay.Proofs.Fixpoints
import TypeAssay.Proofs.Trees

/-!
# Equality is identity of trees

`equal` compares the ids of normal forms. In a table that only clients filled all types are normal
forms already, so `equal` answers at once, interns nothing, and its answer says whether the two
types unfold to the same tree (`equal_exact`).
-/

namespace TypeAssay

open TypeTable Building

variable {T U V : TypeTable} {o : Options} {a b m n : TypeId}

/-! ## From normal forms to equality -/

/-- A normal form is compared by its id. -/
theorem on_normalType_ok (hm : (normalize a).on T = (.ok m, U)) :
    (NormalType.of a).on T = (.ok ⟨m⟩, U) := by
  rw [NormalType.of, on_bind_ok hm]
  rfl

/-- Types are equal if their normal forms are. -/
theorem on_equal_ok (hm : (normalize a).on T = (.ok m, U)) (hn : (normalize b).on U = (.ok n, V)) :
    (equal a b).on T = (.ok (.ofBool (m = n)), V) := by
  rw [equal, on_bind_ok (on_normalType_ok hm), on_bind_ok (on_normalType_ok hn)]
  simp only [NormalType.mk.injEq]
  rfl

/-- Types are not equal if their normal forms are not. -/
theorem on_notEqual_ok (hm : (normalize a).on T = (.ok m, U))
    (hn : (normalize b).on U = (.ok n, V)) :
    (notEqual a b).on T = (.ok (.ofBool (m ≠ n)), V) := by
  rw [notEqual, on_bind_ok (on_normalType_ok hm), on_bind_ok (on_normalType_ok hn)]
  simp only [ne_eq, NormalType.mk.injEq]
  rfl

/-- A truth value is a strict outcome. -/
theorem Outcome.isStrict_ofBool (p : Bool) : (Outcome.ofBool p).isStrict := by
  cases p <;> rfl

/-! ## Canonical types -/

/-- In one table canonical types that unfold to the same tree are the same type. -/
theorem TypeTable.Canonical.similar_iff_eq (ha : T.Canonical a) (hb : T.Canonical b) :
    Similar .sets T T a b ↔ a = b := by
  have hself : Similar .sets T T a a := (ha.founded.similar .refl).of_exact
  refine ⟨fun h => hself.eq_of_canonical h ha hb, ?_⟩
  rintro rfl
  exact hself

/-- In any table that clients reach, a type is its own normal form, and equality and its complement
answer without interning anything; they say whether the two types unfold to the same tree, with
members and properties compared as sets. -/
theorem equal_exact (hT : Runs (withOptions o) T) (ha : a < T.size) (hb : b < T.size) :
    (normalize a).on T = (.ok a, T) ∧
      ∃ r : Outcome, r.isStrict ∧ (equal a b).on T = (.ok r, T) ∧
        (notEqual a b).on T = (.ok r.not, T) ∧ (r = .yes ↔ Similar .sets T T a b) := by
  have htidy := hT.tidy
  have ha' := htidy.canonical ha
  have hb' := htidy.canonical hb
  have hna := on_normalize htidy.hasBuiltins ha'
  have hnb := on_normalize htidy.hasBuiltins hb'
  refine ⟨hna, .ofBool (a = b), Outcome.isStrict_ofBool _, on_equal_ok hna hnb, ?_, ?_⟩
  · rw [on_notEqual_ok hna hnb, decide_not]
    simp [Outcome.ofBool, Outcome.not]
  · rw [ha'.similar_iff_eq hb']
    by_cases h : a = b <;> simp [h, Outcome.ofBool, Outcome.yes]

/-- A pair is not its first component. -/
theorem equal_exact_pairTable :
    Runs (withOptions {}) pairTable ∧ 14 < pairTable.size ∧ TypeId.number < pairTable.size ∧
      (normalize 14).on pairTable = (.ok 14, pairTable) ∧
      ∃ r : Outcome, r.isStrict ∧ (equal 14 TypeId.number).on pairTable = (.ok r, pairTable) ∧
        (notEqual 14 TypeId.number).on pairTable = (.ok r.not, pairTable) ∧
        (r = .yes ↔ Similar .sets pairTable pairTable 14 TypeId.number) := by
  have hruns : Runs (withOptions {}) pairTable := .call .refl (.tuple _ false) <| by
    rw [size_withOptions]
    decide
  have hpair : 14 < pairTable.size := lt_size_of_get? get?_pairTable
  have hnumber : TypeId.number < pairTable.size := Nat.lt_trans (by decide) hpair
  exact ⟨hruns, hpair, hnumber, equal_exact hruns hpair hnumber⟩

end TypeAssay
