import TypeAssay.Relation.Category

/-!
# Directional relations

`extendsType a b` asks for each alternative of `a` whether it is assignable to `b`. So it reaches
both branches when the alternatives disagree, and none for `never`, which has no alternatives.

`simpleEqual a b` asks the question in both directions. It is no equality: it inherits what
`extendsType` does with unions, `any` and `never`.
-/

namespace TypeAssay.TypeTable

/-- Whether a type accepts everything. -/
def isTop (T : TypeTable) (i : TypeId) : Bool :=
  (T.get? i).any fun t => t.isAny || t.isUnknown

/-- The types that a question about a type is put to: none for `never`, the members of a union. -/
def subjects (T : TypeTable) (i : TypeId) : List TypeId :=
  match T.get? i with
  | some .never => []
  | some (.union ms) => ms
  | _ => [i]

/-- Whether one alternative is assignable. `any` takes both branches unless everything is
accepted. -/
def extendsAlternative (T : TypeTable) (a b : TypeId) : Outcome :=
  if (T.get? a).any Ty.isAny then if T.isTop b then .yes else .both
  else .ofBool (T.assignable a b)

/-- Whether each alternative of `a` is assignable to `b`. -/
def extendsType (T : TypeTable) (a b : TypeId) : Outcome :=
  .unionAll ((T.subjects a).map (T.extendsAlternative · b))

/-- One alternative of a mutual comparison. -/
def simpleEqualAlternative (T : TypeTable) (b a : TypeId) : Outcome :=
  if (T.get? a).any Ty.isAny && !T.isTop b then (T.extendsType b a).union .no
  else if T.assignable a b then T.extendsType b a
  else .no

/-- Whether each alternative of `a` is assignable to `b` and the alternatives of `b` to it. -/
def simpleEqual (T : TypeTable) (a b : TypeId) : Outcome :=
  .unionAll ((T.subjects a).map (T.simpleEqualAlternative b))

end TypeAssay.TypeTable
