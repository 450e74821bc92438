import TypeAssay.Lattice.Assignable
import TypeAssay.Outcome

/-!
# Category predicates

What kind of type something is. A union is judged as a whole, except by `isTuple`, which asks each
alternative.
-/

namespace TypeAssay.TypeTable

/-- Whether a type is `never`. -/
def isNever (T : TypeTable) (i : TypeId) : Outcome := .ofBool ((T.get? i).any Ty.isNever)

/-- Whether a type is `any`. -/
def isAny (T : TypeTable) (i : TypeId) : Outcome := .ofBool ((T.get? i).any Ty.isAny)

/-- Whether a type is `unknown`: it accepts `unknown` and is neither `any` nor `never`. -/
def isUnknown (T : TypeTable) (i : TypeId) : Outcome :=
  .ofBool (T.assignable TypeId.unknown i && T.isAny i = .no && T.isNever i = .no)

/-- Whether a type has two or more alternatives. -/
def isUnionType (T : TypeTable) (i : TypeId) : Outcome :=
  .ofBool (((T.get? i).bind Ty.members?).any (2 ≤ ·.length))

/-- Whether a constraint fixes `length` to a literal number. -/
def fixesLength (T : TypeTable) (i : TypeId) : Bool :=
  match T.get? i with
  | some (.tuple ..) => true
  | some (.object ps) =>
    ps.any fun p =>
      p.name = "length" && !p.optional &&
        match T.get? p.type with
        | some (.literal (.number _)) => true
        | _ => false
  | _ => false

/-- Whether a type that is no union is a sequence of fixed length. An intersection is one if some
constraint makes it a sequence and some constraint fixes its length. -/
def isTupleAlternative (T : TypeTable) (i : TypeId) : Bool :=
  match T.get? i with
  | some (.tuple ..) => true
  | some (.intersection ms) =>
    ms.any (fun m => (T.get? m).any Ty.isSequence) && ms.any T.fixesLength
  | _ => false

/-- Whether a type is a sequence of fixed length, for each of its alternatives. -/
def isTuple (T : TypeTable) (i : TypeId) : Outcome :=
  if T.isNever i = .yes then .no
  else
    match T.get? i with
    | some (.union ms) => .unionAll (ms.map fun m => .ofBool (T.isTupleAlternative m))
    | _ => .ofBool (T.isTupleAlternative i)

end TypeAssay.TypeTable
