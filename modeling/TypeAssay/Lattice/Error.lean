/-!
# Errors of the type lattice

Why a type cannot be built, an assertion does not hold, or a configuration is refused. The wording
of every cause is in `TypeError.message`.
-/

namespace TypeAssay

/-- What can go wrong while types are built and relations evaluated. All but `capacityOverflow` are
answers, with which a caller goes on. -/
inductive TypeError where
  /-- A single assertion got something else than its literal. -/
  | assertionFailed (expected actual : String)
  /-- A batch of cases holds something else than its literal. -/
  | batchFailed (expected actual : String)
  /-- A relation got the wrong number of type arguments. -/
  | argumentCount (name : String) (expected actual : Nat)
  /-- A value has no literal type. -/
  | invalidLiteral (reason : String)
  /-- An object type names a property twice. -/
  | duplicateProperty (name : String)
  /-- An intersection would distribute into too many alternatives. -/
  | unionTooComplex (size limit : Nat)
  /-- The results of a distribution need more room than a list can have. There is no answer then:
  whatever asked for the type ends here. -/
  | capacityOverflow
  /-- A configuration cannot be read, or has a value out of range. -/
  | invalidConfig (reason : String)
deriving DecidableEq, Repr

/-- The sentence for a type that is not what a constraint asks for. -/
def constraintMessage (expected actual : String) : String :=
  s!"Type '{actual}' does not satisfy the constraint '{expected}'"

/-- The sentence for a wrong number of type arguments. -/
def argumentCountMessage (name : String) (expected actual : Nat) : String :=
  s!"Generic type '{name}' requires {expected} type argument(s), got {actual}"

namespace TypeError

/-- The wording of an error. -/
def message : TypeError → String
  | assertionFailed expected actual => constraintMessage expected actual
  | batchFailed expected actual => constraintMessage expected actual
  | argumentCount name expected actual => argumentCountMessage name expected actual
  | invalidLiteral reason => s!"Invalid literal type: {reason}"
  | duplicateProperty name => s!"Duplicate property '{name}' in object type"
  | unionTooComplex size limit =>
    s!"Expression produces a union type that is too complex to represent ({size} > {limit})"
  | capacityOverflow => "capacity overflow"
  | invalidConfig reason => s!"Invalid configuration: {reason}"

end TypeError

end TypeAssay
