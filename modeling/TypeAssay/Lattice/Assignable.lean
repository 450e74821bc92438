import TypeAssay.Lattice.Table

/-!
# Assignability

`T.assignable s t` says whether a value of type `s` can be used where `t` is expected. The rules
are tried in a fixed order: identity, the types that fit or accept everything, unions of the
source before unions of the target, intersections of the target before those of the source, and
last the structure of both.

An object type asks for members by name. Object types offer their properties, and strings, arrays
and tuples offer `length`; the members of an intersection offer theirs together.

The rules are one step `assignableStep` over an arbitrary relation on the parts, and the step is
iterated. Nodes that were interned as they are may refer to later ones, even in circles, and a
question may still have an answer: the circles of the source and of the target need not be equally
long. But an answer never depends on itself, so on the way down each pair of ids comes once at most,
and the number of pairs bounds the iteration.
-/

namespace TypeAssay

/-- A member that a type offers to an object type. -/
inductive Offer where
  /-- A property of an object type. -/
  | property (p : Property)
  /-- The `length` of a string or an array: some number. -/
  | length
  /-- The `length` of a tuple: its number of elements. -/
  | lengthOf (count : Nat)
deriving DecidableEq, Repr

namespace Offer

/-- The name under which a member is offered. -/
def name : Offer → String
  | property p => p.name
  | length | lengthOf _ => "length"

/-- Whether the member may be absent. -/
def optional : Offer → Bool
  | property p => p.optional
  | length | lengthOf _ => false

end Offer

namespace TypeTable

/-- What a type offers to an object type, or nothing if it fits none at all. -/
def offers? (T : TypeTable) (i : TypeId) : Option (List Offer) :=
  match T.get? i with
  | some (.object ps) => some (ps.map .property)
  | some (.primitive p) =>
    if p.isNullish then none else some (if p = .string then [.length] else [])
  | some (.literal (.string _)) => some [.length]
  | some (.literal _) => some []
  | some (.array ..) => some [.length]
  | some (.tuple es _) => some [.lengthOf es.length]
  | _ => none

/-- The id of the number literal that counts `n` things, or of `number` if no type in the table
mentions that literal: then whatever accepts the count accepts every number. -/
def countType (T : TypeTable) (n : Nat) : TypeId :=
  (T.lookup (.literal (.number (Binary64.ofNat n)))).getD TypeId.number

/-- The type of an offered member. -/
def offerType (T : TypeTable) : Offer → TypeId
  | .property p => p.type
  | .length => TypeId.number
  | .lengthOf n => T.countType n

/-- Whether the offers with the name of a property meet it. The property is there for sure if one
of them is; one of them must have its type. -/
def meetsProperty (T : TypeTable) (fits : TypeId → TypeId → Bool) (offers : List Offer)
    (wanted : Property) : Bool :=
  match offers.filter (·.name = wanted.name) with
  | [] => wanted.optional
  | offered =>
    (wanted.optional || offered.any (!·.optional)) &&
      offered.any fun o => fits (T.offerType o) wanted.type

/-- Whether some types together offer what an object type asks for. -/
def meetsShape (T : TypeTable) (fits : TypeId → TypeId → Bool) (sources : List TypeId)
    (wanted : List Property) : Bool :=
  match sources.mapM T.offers? with
  | none => false
  | some offers => wanted.all (T.meetsProperty fits offers.flatten)

/-- The rules for two types that are neither `any`, `unknown` nor `never`; `fits` decides about
their parts. -/
def structuralStep (T : TypeTable) (fits : TypeId → TypeId → Bool) (s t : TypeId) :
    Ty → Ty → Bool
  -- the order matters: a union on the left is opened before any on the right, and an intersection
  -- on the right before one on the left
  | .union ms, _ => ms.all (fits · t)
  | _, .union ms => ms.any (fits s ·)
  | _, .intersection ms => ms.all (fits s ·)
  | .intersection ms, .object wanted => ms.any (fits · t) || T.meetsShape fits ms wanted
  | .intersection ms, _ => ms.any (fits · t)
  | .literal a, .literal b => a = b
  | .literal a, .primitive p => a.base? = some p
  -- `void` has `undefined` among its values, and no other primitive is below another
  | .primitive a, .primitive b => a = b || (a = .undefined && b = .void)
  | .object _, .primitive .object => true
  | .tuple .., .primitive .object => true
  | .array .., .primitive .object => true
  | .array a ra, .array b rb => (!ra || rb) && fits a b
  | .tuple as ra, .array b rb => (!ra || rb) && as.all (fits · b)
  | .tuple as ra, .tuple bs rb =>
    (!ra || rb) && as.length = bs.length && (as.zip bs).all fun (a, b) => fits a b
  | _, .object wanted => T.meetsShape fits [s] wanted
  | _, _ => false

/-- Whether a type fits everything because null checks are loose. -/
def isLooseNull (T : TypeTable) : Ty → Bool
  | .primitive .null | .primitive .undefined => !T.options.strictNullChecks
  | _ => false

/-- The rules for two nodes; `fits` decides about their parts. -/
def nodeStep (T : TypeTable) (fits : TypeId → TypeId → Bool) (s t : TypeId) : Ty → Ty → Bool
  -- from here to `.unknown` the order decides between the extremes: everything fits `any` and
  -- `unknown`, `never` fits everything, and `any` fits all but `never`
  | _, .any => true
  | _, .unknown => true
  | .never, _ => true
  | _, .never => false
  | .any, _ => true
  | .unknown, _ => false
  | a, b => T.isLooseNull a || T.structuralStep fits s t a b

/-- The rules for two ids; `fits` decides about their parts. Ids of no type fit themselves only. -/
def assignableStep (T : TypeTable) (fits : TypeId → TypeId → Bool) (s t : TypeId) : Bool :=
  s == t ||
    match T.get? s, T.get? t with
    | some a, some b => T.nodeStep fits s t a b
    | _, _ => false

/-- Assignability, with a bound on how often the rules go down. -/
def assignableWithin (T : TypeTable) : Nat → TypeId → TypeId → Bool
  | 0 => fun _ _ => false
  | depth + 1 => T.assignableStep (T.assignableWithin depth)

/-- Whether a value of type `s` can be used where `t` is expected. The bound counts the pairs of
ids, where one more id stands for all that name no type. -/
def assignable (T : TypeTable) (s t : TypeId) : Bool :=
  T.assignableWithin ((T.size + 1) * (T.size + 1) + 1) s t

end TypeTable

end TypeAssay
