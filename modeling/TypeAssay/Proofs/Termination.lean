import TypeAssay.Proofs.Stability

/-!
# Deciding assignability ends

The rules of assignability put questions about other types on the way to their answer. `inquiry`
writes the rules for two types as the questions they put, one after the other, each next one chosen
by the answers so far. `decide_inquiry` says that these are the rules, whoever answers, and
`T.Evaluates q b` that `q` comes to an end with the answer `b` when each question is settled in the
same way, by the rules for its own two types. There is no bound in it: a derivation is a run that
has ended.

Every question that the rules put is about a smaller target, or about the same target and a smaller
source (`asks_inquiry`). A source alone need not get smaller: the length of a sequence is `number`
or a literal that may have come after the sequence itself. It is always asked about the type of a
property of the target, which is smaller.

## Main result

* `assignable_terminates` : where nodes refer to smaller ids, the rules come to an end on all ids.
-/

namespace TypeAssay

/-! ## Inquiries -/

/-- A decision that asks whether types fit others on the way to its answer. -/
inductive Inquiry where
  /-- The answer. -/
  | answer (result : Bool)
  /-- Asks whether `s` fits `t` and goes on with what it is told. -/
  | ask (s t : TypeId) (next : Bool → Inquiry)

namespace Inquiry

variable {α : Type} {p q : Inquiry} {P Q : TypeId → TypeId → Prop} {f : α → Inquiry} {xs : List α}
  {fits : TypeId → TypeId → Bool}

/-- One question, whose answer is the answer. -/
def question (s t : TypeId) : Inquiry := ask s t answer

/-- Goes on with the answer of another inquiry. -/
def andThen : Inquiry → (Bool → Inquiry) → Inquiry
  | answer r, k => k r
  | ask s t next, k => ask s t fun r => (next r).andThen k

/-- The second inquiry is not made if the first one says no. -/
def both (p q : Inquiry) : Inquiry := p.andThen fun r => if r then q else answer false

/-- The second inquiry is not made if the first one says yes. -/
def either (p q : Inquiry) : Inquiry := p.andThen fun r => if r then answer true else q

/-- No question is put unless `c` holds. -/
def provided (c : Bool) (q : Inquiry) : Inquiry := if c then q else answer false

/-- Inquires about each element, up to the first that says no. -/
def all (f : α → Inquiry) (xs : List α) : Inquiry :=
  xs.foldr (fun x q => (f x).both q) (answer true)

/-- Inquires about each element, up to the first that says yes. -/
def any (f : α → Inquiry) (xs : List α) : Inquiry :=
  xs.foldr (fun x q => (f x).either q) (answer false)

/-! ### Answers -/

/-- The answer, when `fits` answers the questions. -/
def decide (fits : TypeId → TypeId → Bool) : Inquiry → Bool
  | answer r => r
  | ask s t next => (next (fits s t)).decide fits

/-- An answer does not depend on whom one could ask. -/
@[simp]
theorem decide_answer (r : Bool) : (answer r).decide fits = r := rfl

/-- A single question has the answer that is told. -/
@[simp]
theorem decide_question (s t : TypeId) : (question s t).decide fits = fits s t := rfl

/-- What goes on is told the answer of what came before. -/
theorem decide_andThen (p : Inquiry) (k : Bool → Inquiry) :
    (p.andThen k).decide fits = (k (p.decide fits)).decide fits := by
  induction p with
  | answer r => rfl
  | ask s t next ih => exact ih (fits s t)

/-- Two inquiries of which both must say yes. -/
@[simp]
theorem decide_both : (both p q).decide fits = (p.decide fits && q.decide fits) := by
  unfold both
  rw [decide_andThen]
  cases p.decide fits <;> rfl

/-- Two inquiries of which one must say yes. -/
@[simp]
theorem decide_either : (either p q).decide fits = (p.decide fits || q.decide fits) := by
  unfold either
  rw [decide_andThen]
  cases p.decide fits <;> rfl

/-- A condition that is known beforehand must hold as well. -/
@[simp]
theorem decide_provided (c : Bool) : (provided c q).decide fits = (c && q.decide fits) := by
  cases c <;> rfl

/-- Up to the first no is as good as all. -/
@[simp]
theorem decide_all : (all f xs).decide fits = xs.all fun x => (f x).decide fits := by
  induction xs with
  | nil => rfl
  | cons x xs ih =>
    show (both (f x) (all f xs)).decide fits = _
    rw [decide_both, ih, List.all_cons]

/-- Up to the first yes is as good as some. -/
@[simp]
theorem decide_any : (any f xs).decide fits = xs.any fun x => (f x).decide fits := by
  induction xs with
  | nil => rfl
  | cons x xs ih =>
    show (either (f x) (any f xs)).decide fits = _
    rw [decide_either, ih, List.any_cons]

/-! ### Questions -/

/-- All questions that may be put, whatever is told, are ones of which `P` holds. -/
def Asks (P : TypeId → TypeId → Prop) : Inquiry → Prop
  | answer _ => True
  | ask s t next => P s t ∧ ∀ r, (next r).Asks P

/-- Questions within a narrower range are within the wider one. -/
theorem Asks.mono (hp : p.Asks P) (h : ∀ s t, P s t → Q s t) : p.Asks Q := by
  induction p with
  | answer r => exact hp
  | ask s t next ih => exact ⟨h s t hp.1, fun r => ih r (hp.2 r)⟩

/-- An answer puts no question. -/
theorem asks_answer (r : Bool) : (answer r).Asks P := trivial

/-- A single question is the only one that is put. -/
theorem asks_question {s t : TypeId} (h : P s t) : (question s t).Asks P := ⟨h, fun _ => trivial⟩

/-- Questions are put before and after the answer of the first inquiry. -/
theorem Asks.andThen {k : Bool → Inquiry} (hp : p.Asks P) (hk : ∀ r, (k r).Asks P) :
    (p.andThen k).Asks P := by
  induction p with
  | answer r => exact hk r
  | ask s t next ih => exact ⟨hp.1, fun r => ih r (hp.2 r)⟩

/-- An inquiry that may be cut short puts no other questions. -/
theorem Asks.both (hp : p.Asks P) (hq : q.Asks P) : (both p q).Asks P := by
  apply hp.andThen
  rintro (_ | _)
  · exact asks_answer false
  · exact hq

/-- An inquiry that may be cut short puts no other questions. -/
theorem Asks.either (hp : p.Asks P) (hq : q.Asks P) : (either p q).Asks P := by
  apply hp.andThen
  rintro (_ | _)
  · exact hq
  · exact asks_answer true

/-- A condition puts no question. -/
theorem Asks.provided (c : Bool) (hq : q.Asks P) : (provided c q).Asks P := by
  cases c
  · exact asks_answer false
  · exact hq

/-- The questions about a list are those about its elements. -/
theorem asks_all (h : ∀ x ∈ xs, (f x).Asks P) : (all f xs).Asks P := by
  induction xs with
  | nil => exact asks_answer true
  | cons x xs ih =>
    exact (h x List.mem_cons_self).both (ih fun y hy => h y (List.mem_cons_of_mem x hy))

/-- The questions about a list are those about its elements. -/
theorem asks_any (h : ∀ x ∈ xs, (f x).Asks P) : (any f xs).Asks P := by
  induction xs with
  | nil => exact asks_answer false
  | cons x xs ih =>
    exact (h x List.mem_cons_self).either (ih fun y hy => h y (List.mem_cons_of_mem x hy))

end Inquiry

/-! ## The rules as inquiries -/

namespace TypeTable

open Inquiry

/-- Whether the offers with the name of a property meet it. -/
def propertyInquiry (T : TypeTable) (offers : List Offer) (wanted : Property) : Inquiry :=
  match offers.filter (·.name = wanted.name) with
  | [] => answer wanted.optional
  | offered =>
    provided (wanted.optional || offered.any (!·.optional))
      (any (fun o => question (T.offerType o) wanted.type) offered)

/-- Whether some types together offer what an object type asks for. -/
def shapeInquiry (T : TypeTable) (sources : List TypeId) (wanted : List Property) : Inquiry :=
  match sources.mapM T.offers? with
  | none => answer false
  | some offers => all (T.propertyInquiry offers.flatten) wanted

/-- The rules for two types that are neither `any`, `unknown` nor `never`. -/
def structuralInquiry (T : TypeTable) (s t : TypeId) : Ty → Ty → Inquiry
  | .union ms, _ => all (question · t) ms
  | _, .union ms => any (question s ·) ms
  | _, .intersection ms => all (question s ·) ms
  | .intersection ms, .object wanted => (any (question · t) ms).either (T.shapeInquiry ms wanted)
  | .intersection ms, _ => any (question · t) ms
  | .literal a, .literal b => answer (a = b)
  | .literal a, .primitive p => answer (a.base? = some p)
  | .primitive a, .primitive b => answer (a = b || (a = .undefined && b = .void))
  | .object _, .primitive .object => answer true
  | .tuple .., .primitive .object => answer true
  | .array .., .primitive .object => answer true
  | .array a ra, .array b rb => provided (!ra || rb) (question a b)
  | .tuple as ra, .array b rb => provided (!ra || rb) (all (question · b) as)
  | .tuple as ra, .tuple bs rb =>
    provided ((!ra || rb) && as.length = bs.length) (all (fun (a, b) => question a b) (as.zip bs))
  | _, .object wanted => T.shapeInquiry [s] wanted
  | _, _ => answer false

/-- The rules for two nodes. -/
def nodeInquiry (T : TypeTable) (s t : TypeId) : Ty → Ty → Inquiry
  | _, .any => answer true
  | _, .unknown => answer true
  | .never, _ => answer true
  | _, .never => answer false
  | .any, _ => answer true
  | .unknown, _ => answer false
  | a, b => if T.isLooseNull a then answer true else T.structuralInquiry s t a b

/-- The rules for two ids. -/
def inquiry (T : TypeTable) (s t : TypeId) : Inquiry :=
  if s = t then answer true
  else
    match T.get? s, T.get? t with
    | some a, some b => T.nodeInquiry s t a b
    | _, _ => answer false

variable {T : TypeTable} {s t : TypeId} {a b : Ty} {fits : TypeId → TypeId → Bool}

/-! ### They are the rules -/

/-- The inquiry about a property is the rule for it. -/
theorem decide_propertyInquiry (offers : List Offer) (wanted : Property) :
    (T.propertyInquiry offers wanted).decide fits = T.meetsProperty fits offers wanted := by
  unfold propertyInquiry meetsProperty
  cases offers.filter (·.name = wanted.name) with
  | nil => rfl
  | cons o os =>
    show (provided _ (any _ (o :: os))).decide fits = _
    rw [decide_provided, decide_any]
    rfl

/-- The inquiry about an object type is the rule for it. -/
theorem decide_shapeInquiry (sources : List TypeId) (wanted : List Property) :
    (T.shapeInquiry sources wanted).decide fits = T.meetsShape fits sources wanted := by
  unfold shapeInquiry meetsShape
  cases sources.mapM T.offers? with
  | none => rfl
  | some offers =>
    show (all _ wanted).decide fits = _
    rw [decide_all]
    exact all_eq_of_forall_mem fun p _ => decide_propertyInquiry _ p

/-- The inquiries about structure are the structural rules. -/
theorem decide_structuralInquiry (s t : TypeId) (a b : Ty) :
    (T.structuralInquiry s t a b).decide fits = T.structuralStep fits s t a b := by
  cases b with
  -- only for `object` the kind of the source matters
  | primitive p => cases p <;> cases a <;> simp [structuralInquiry, structuralStep]
  | any | never | unknown | literal _ | union _ | intersection _ | tuple _ _ | array _ _
  | object _ =>
    cases a <;> simp [structuralInquiry, structuralStep, decide_shapeInquiry]

/-- The inquiry about two nodes is the rule for them. -/
theorem decide_nodeInquiry (s t : TypeId) (a b : Ty) :
    (T.nodeInquiry s t a b).decide fits = T.nodeStep fits s t a b := by
  have hplain : (if T.isLooseNull a then answer true else T.structuralInquiry s t a b).decide fits =
      (T.isLooseNull a || T.structuralStep fits s t a b) := by
    rw [← decide_structuralInquiry]
    cases T.isLooseNull a <;> rfl
  cases b <;> cases a <;> first | rfl | exact hplain

/-- Whoever answers the questions of an inquiry, it gives the answer of the rules. -/
theorem decide_inquiry (s t : TypeId) :
    (T.inquiry s t).decide fits = T.assignableStep fits s t := by
  unfold inquiry assignableStep
  by_cases hst : s = t
  · simp [hst]
  · rw [if_neg hst, beq_eq_false_iff_ne.mpr hst, Bool.false_or]
    cases T.get? s with
    | none => rfl
    | some a =>
      cases T.get? t with
      | none => rfl
      | some b => exact decide_nodeInquiry s t a b

/-! ### What they ask about -/

/-- The target gets smaller, or it stays and the source gets smaller. -/
def Below (s t : TypeId) (a b : TypeId) : Prop := b < t ∨ (b = t ∧ a < s)

/-- The members that sources offer are asked about the types of properties of the target only, so it
does not matter which ids they have. -/
theorem asks_shapeInquiry (sources : List TypeId) {wanted : List Property}
    (h : ∀ p ∈ wanted, p.type < t) : (T.shapeInquiry sources wanted).Asks (Below s t) := by
  unfold shapeInquiry
  split
  · exact asks_answer false
  · apply asks_all
    intro p hp
    unfold propertyInquiry
    split
    · exact asks_answer p.optional
    · apply Asks.provided
      apply asks_any
      intro o _
      exact asks_question (Or.inl (h p hp))

/-- The structural rules ask about parts of the target, or about parts of the source and the target
itself. -/
theorem asks_structuralInquiry (hT : T.Descends) (hs : T.get? s = some a) (ht : T.get? t = some b) :
    (T.structuralInquiry s t a b).Asks (Below s t) := by
  have hsource : ∀ j ∈ a.parts, (question j t).Asks (Below s t) := fun j hj =>
    asks_question (Or.inr ⟨rfl, hT s a hs j hj⟩)
  have htarget : ∀ i, ∀ j ∈ b.parts, (question i j).Asks (Below s t) := fun i j hj =>
    asks_question (Or.inl (hT t b ht j hj))
  have hshape : ∀ sources wanted, b = .object wanted →
      (T.shapeInquiry sources wanted).Asks (Below s t) := by
    rintro sources wanted rfl
    exact asks_shapeInquiry sources fun p hp => hT t _ ht p.type (List.mem_map_of_mem hp)
  rw [structuralInquiry.eq_def]
  split
  -- unions and intersections are taken apart on one side, and the other side stays
  · exact asks_all fun m hm => hsource m hm
  · exact asks_any fun m hm => htarget s m hm
  · exact asks_all fun m hm => htarget s m hm
  · exact (asks_any fun m hm => hsource m hm).either (hshape _ _ rfl)
  · exact asks_any fun m hm => hsource m hm
  -- scalars and the keyword `object` ask nothing
  · exact asks_answer _
  · exact asks_answer _
  · exact asks_answer _
  · exact asks_answer _
  · exact asks_answer _
  · exact asks_answer _
  -- sequences ask about elements of the target
  · exact (htarget _ _ List.mem_cons_self).provided _
  · exact (asks_all fun e _ => htarget e _ List.mem_cons_self).provided _
  · refine (asks_all fun x hx => ?_).provided _
    exact htarget x.1 x.2 (List.of_mem_zip hx).2
  · exact hshape _ _ rfl
  · exact asks_answer _

/-- The rules for two nodes ask about smaller ids. -/
theorem asks_nodeInquiry (hT : T.Descends) (hs : T.get? s = some a) (ht : T.get? t = some b) :
    (T.nodeInquiry s t a b).Asks (Below s t) := by
  rw [nodeInquiry.eq_def]
  split
  · exact asks_answer _
  · exact asks_answer _
  · exact asks_answer _
  · exact asks_answer _
  · exact asks_answer _
  · exact asks_answer _
  · split
    · exact asks_answer true
    · exact asks_structuralInquiry hT hs ht

/-- Where nodes refer to smaller ids, the rules ask about smaller targets, or about smaller sources
for the same target. -/
theorem asks_inquiry (hT : T.Descends) (s t : TypeId) : (T.inquiry s t).Asks (Below s t) := by
  unfold inquiry
  split
  · exact asks_answer true
  · split
    · rename_i hs ht
      exact asks_nodeInquiry hT hs ht
    · exact asks_answer false

/-! ## Runs that end -/

/-- The inquiry comes to an end with this answer, if each of its questions is settled by the rules
in the same way. -/
inductive Evaluates (T : TypeTable) : Inquiry → Bool → Prop
  | answer (r : Bool) : Evaluates T (.answer r) r
  | ask {s t : TypeId} {next : Bool → Inquiry} {told r : Bool}
      (question : Evaluates T (T.inquiry s t) told) (rest : Evaluates T (next told) r) :
      Evaluates T (.ask s t next) r

variable {q : Inquiry} {r r' : Bool} {o : Options}

/-- An inquiry ends in one way only. -/
theorem Evaluates.unique (h : T.Evaluates q r) (h' : T.Evaluates q r') : r = r' := by
  -- by induction on the first run; the second one is told the same answers
  induction h generalizing r' with
  | answer r =>
    cases h'
    rfl
  | ask _ _ ihquestion ihrest =>
    cases h' with
    | ask hquestion hrest =>
      obtain rfl := ihquestion hquestion
      exact ihrest hrest

/-- An inquiry ends if all its questions do. -/
theorem evaluates_of_asks (h : q.Asks fun s t => T.Evaluates (T.inquiry s t) (fits s t)) :
    T.Evaluates q (q.decide fits) := by
  induction q with
  | answer r => exact .answer r
  | ask s t next ih => exact .ask h.1 (ih _ (h.2 _))

/-- Assignability is decided by its inquiry, for ids of no type, too. -/
theorem assignable_eq_decide (hT : T.Descends) (hb : T.HasBuiltins) (s t : TypeId) :
    T.assignable s t = (T.inquiry s t).decide T.assignable := by
  rw [decide_inquiry]
  by_cases h : s < T.size ∧ t < T.size
  · exact assignable_eq_step hT hb h.1 h.2
  · -- one of the two is no type, so only identity counts
    have hnone : ∀ f, T.assignableStep f s t = (s == t) := by
      intro f
      have hget : T.get? s = none ∨ T.get? t = none := by
        rw [get?_eq_none_iff, get?_eq_none_iff, ← Nat.not_lt, ← Nat.not_lt]
        exact not_and_or.mp h
      unfold assignableStep
      rcases hget with hget | hget
      · simp [hget]
      · cases T.get? s <;> simp [hget]
    exact (hnone _).trans (hnone _).symm

/-- Deciding assignability ends with the answer that is computed. -/
theorem evaluates_assignable (hT : T.Descends) (hb : T.HasBuiltins) (s t : TypeId) :
    T.Evaluates (T.inquiry s t) (T.assignable s t) := by
  -- the target comes first in the order, then the source
  induction t using Nat.strong_induction_on generalizing s with
  | _ t iht =>
    induction s using Nat.strong_induction_on with
    | _ s ihs =>
      rw [assignable_eq_decide hT hb]
      apply evaluates_of_asks
      refine (asks_inquiry hT s t).mono ?_
      rintro a b (hb' | ⟨rfl, ha⟩)
      · exact iht b hb' a
      · exact ihs a ha

/-- In every table whose nodes refer to smaller ids, deciding whether `s` fits `t` comes to an end,
for all ids, and with the answer of `assignable`. The inquiry gives the answer of the rules whatever
it is told, and each question that it may put is about a smaller target, or about the same target
and a smaller source. -/
theorem assignable_terminates (hT : Grows (withOptions o) T) (hdescends : T.Descends)
    (s t : TypeId) :
    (∀ r, T.Evaluates (T.inquiry s t) r ↔ r = T.assignable s t) ∧
      (∀ fits, (T.inquiry s t).decide fits = T.assignableStep fits s t) ∧
      (T.inquiry s t).Asks fun a b => b < t ∨ (b = t ∧ a < s) := by
  have hends := evaluates_assignable hdescends (hT.hasBuiltins (hasBuiltins_withOptions o)) s t
  refine ⟨fun r => ⟨fun h => h.unique hends, ?_⟩, fun _ => decide_inquiry s t,
    asks_inquiry hdescends s t⟩
  rintro rfl
  exact hends

/-! ### A pair and its count -/

/-- A table with a pair, the literal of its length, and what has that length. -/
def countedTable : TypeTable :=
  withNodes {} [.tuple [TypeId.number, TypeId.string] false, .literal (.number (.ofNat 2)),
    .object [{ name := "length", type := 15 }]]

/-- The three nodes follow the built-in types. -/
theorem get?_countedTable (i : TypeId) :
    countedTable.get? i = (builtins ++ [.tuple [TypeId.number, TypeId.string] false,
      .literal (.number (.ofNat 2)), .object [{ name := "length", type := 15 }]])[i]? :=
  get?_withNodes (by simp [builtins, Primitive.all]) (by simp) i

/-- Each of the three refers to smaller ids. -/
theorem descends_countedTable : countedTable.Descends := by
  have hparts : ∀ i < 17, ∀ t ∈ (builtins ++ [.tuple [TypeId.number, TypeId.string] false,
      .literal (.number (.ofNat 2)), .object [{ name := "length", type := 15 }]])[i]?,
      ∀ j ∈ t.parts, j < i := by decide
  intro i t ht
  rw [get?_countedTable] at ht
  exact hparts i (List.getElem?_eq_some_iff.mp ht).1 t ht

/-- The count of a pair is the literal that was interned for it. -/
theorem countType_countedTable : countedTable.countType 2 = 15 := by
  have hlookup : countedTable.lookup (.literal (.number (.ofNat 2))) = some 15 :=
    lookup_eq_some_iff.mpr (get?_countedTable 15)
  rw [countType, hlookup]
  rfl

/-- Whether the pair has length two is asked about the literal, which came after the pair. -/
theorem inquiry_countedTable : countedTable.inquiry 14 16 = .ask 15 15 fun r =>
    if r then .answer true else .answer false := by
  have hoffers : countedTable.offers? 14 = some [.lengthOf 2] := by
    rw [offers?, get?_countedTable]
    rfl
  rw [inquiry, if_neg (by decide), get?_countedTable, get?_countedTable]
  show countedTable.shapeInquiry [14] [{ name := "length", type := 15 }] = _
  rw [shapeInquiry, List.mapM_cons, hoffers]
  show all (countedTable.propertyInquiry [.lengthOf 2]) [{ name := "length", type := 15 }] = _
  have hquestion : all (countedTable.propertyInquiry [.lengthOf 2])
      [{ name := "length", type := 15 }] =
        ((question (countedTable.countType 2) 15).either (answer false)).both (answer true) := rfl
  rw [hquestion, countType_countedTable]
  show Inquiry.ask 15 15 _ = _
  congr 1
  funext r
  cases r <;> rfl

/-- The pair has length two, and finding that out comes to an end. -/
theorem assignable_terminates_countedTable :
    Grows (withOptions {}) countedTable ∧ countedTable.Descends ∧
      countedTable.Evaluates (countedTable.inquiry 14 16) true ∧ countedTable.assignable 14 16 ∧
      (countedTable.inquiry 14 16).Asks fun a b => b < 16 ∨ (b = 16 ∧ a < 14) := by
  have hgrows : Grows (withOptions {}) countedTable := grows_withNodes _ _
  obtain ⟨hends, -, hasks⟩ := assignable_terminates hgrows descends_countedTable 14 16
  have hrun : countedTable.Evaluates (countedTable.inquiry 14 16) true := by
    have hlength : countedTable.Evaluates (countedTable.inquiry 15 15) true := by
      rw [inquiry, if_pos rfl]
      exact .answer true
    rw [inquiry_countedTable]
    exact .ask hlength (.answer true)
  exact ⟨hgrows, descends_countedTable, hrun, ((hends true).mp hrun).symm, hasks⟩

end TypeTable

end TypeAssay
