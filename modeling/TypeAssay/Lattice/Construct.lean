import TypeAssay.Lattice.Intersection

/-!
# Constructors of types

One constructor for each kind of type. Each gives the canonical form, so that equal types get equal
ids; unions and intersections are in modules of their own.
-/

namespace TypeAssay

/-! ## Literals -/

/-- The literal type of a number. Both zeros have the same type, and `NaN` has none. -/
def numberLiteral (value : Binary64) : Building TypeId :=
  if value.isNaN then throw (.invalidLiteral "NaN has no literal type")
  else intern (.literal (.number (if value.isZero then .zero else value)))

/-- The literal type of a string. -/
def stringLiteral (value : String) : Interning TypeId := intern (.literal (.string value))

/-- The sign and the digits of a bigint. -/
def splitSign : List Char → Bool × List Char
  | '-' :: ds => (true, ds)
  | ds => (false, ds)

/-- The one written form of the integer that decimal digits with a sign or none denote: without
leading zeros, and zero without a sign. -/
def canonicalBigint? (digits : String) : Option String :=
  let (negative, ds) := splitSign digits.toList
  if ds.isEmpty || !ds.all Char.isDigit then none
  else
    match ds.dropWhile (· = '0') with
    | [] => some "0"
    | significant => some (String.ofList (if negative then '-' :: significant else significant))

/-- The literal type of a bigint, from decimal digits with a minus sign or none. -/
def bigintLiteral (digits : String) : Building TypeId :=
  match canonicalBigint? digits with
  | none => throw (.invalidLiteral s!"'{digits}' is not a bigint literal")
  | some canonical => intern (.literal (.bigint canonical))

/-! ## Sequences -/

/-- A tuple type. -/
def tupleOf (elements : List TypeId) (readonly : Bool) : Interning TypeId :=
  intern (.tuple elements readonly)

/-- An array type. -/
def arrayOf (element : TypeId) (readonly : Bool) : Interning TypeId :=
  intern (.array element readonly)

/-! ## Objects -/

/-- Inserts a property before the first one with a greater or equal name. -/
def insertByName (p : Property) : List Property → List Property
  | [] => [p]
  | q :: qs => if q.name < p.name then q :: insertByName p qs else p :: q :: qs

/-- Properties in the order of their names; those of one name keep their order. -/
def sortByName (ps : List Property) : List Property := ps.foldr insertByName []

/-- The first name that comes twice in a row. -/
def repeatedName? : List Property → Option String
  | p :: q :: rest => if p.name = q.name then some p.name else repeatedName? (q :: rest)
  | _ => none

/-- An object type. Its properties are kept in the order of their names, which must differ. -/
def objectOf (properties : List Property) : Building TypeId :=
  let sorted := sortByName properties
  match repeatedName? sorted with
  | some name => throw (.duplicateProperty name)
  | none => intern (.object sorted)

end TypeAssay
