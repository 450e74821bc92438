import TypeAssay.Lattice.Error
import TypeAssay.CaseFile.SyntaxError

/-!
# Errors of checking
-/

namespace TypeAssay

/-- What can be wrong with a case file. -/
inductive CheckFault where
  /-- The text is no case file. -/
  | malformed (f : SyntaxFault)
  /-- An alias has the name of a built-in type. -/
  | reservedName (name : String)
  /-- A name has the wrong number of type arguments; plain names take none. -/
  | arity (name : String) (expected actual : Nat)
  /-- A name is no type, no alias and no relation. -/
  | undefinedName (name : String)
  /-- An alias is declared again. -/
  | duplicateAlias (name : String) (first : Span)
  /-- The argument of an assertion is not its literal. -/
  | assertion (expected actual : String)
  /-- The argument of a batch is not a sequence of its literal. -/
  | batch (expected actual : String)
  /-- A type cannot be built. -/
  | type (e : TypeError)
  /-- A distribution asks for more room than a list can have. The check has no result. -/
  | capacityOverflow
deriving DecidableEq, Repr

/-- A fault and its place. -/
structure CheckError where
  fault : CheckFault
  span : Span
deriving DecidableEq, Repr

namespace CheckFault

/-- The wording of a fault. -/
def message : CheckFault → String
  | malformed f => f.message
  | reservedName name => s!"Type alias name cannot be '{name}'"
  | arity name expected actual => argumentCountMessage name expected actual
  | undefinedName name => s!"Cannot find name '{name}'"
  | duplicateAlias name _ => s!"Duplicate identifier '{name}'"
  | assertion expected actual => constraintMessage expected actual
  | batch expected actual => constraintMessage expected actual
  | type e => e.message
  | capacityOverflow => TypeError.capacityOverflow.message

/-- The stable code of a fault. -/
def code : CheckFault → String
  | malformed _ | reservedName _ => "E1001"
  | duplicateAlias .. => "E2300"
  | undefinedName _ => "E2304"
  | arity .. => "E2314"
  | assertion .. => "E2344"
  | batch .. => "E2345"
  | type (.unionTooComplex ..) => "E2590"
  | type _ | capacityOverflow => "E2000"

/-- The fault that an error of the lattice is. -/
def ofTypeError : TypeError → CheckFault
  | .assertionFailed expected actual => assertion expected actual
  | .batchFailed expected actual => batch expected actual
  | .argumentCount name expected actual => arity name expected actual
  | .capacityOverflow => capacityOverflow
  | e => type e

end CheckFault

namespace CheckError

/-- An error of the lattice at a place. -/
def ofTypeError (e : TypeError) (span : Span) : CheckError := ⟨.ofTypeError e, span⟩

/-- A syntax error among the errors of checking. -/
def ofSyntaxError (e : SyntaxError) : CheckError := ⟨.malformed e.fault, e.span⟩

end CheckError

end TypeAssay
