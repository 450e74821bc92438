import TypeAssay.Catalog
import TypeAssay.Checker.Error
import TypeAssay.CaseFile.Parse

/-!
# Checking case files

The items of a case file are checked in order. Type expressions resolve to types of one table, and
relations are evaluated as they are met. An expression that cannot be resolved leaves an error
behind and stands for `any`, so that the rest of the file is still checked.
-/

namespace TypeAssay

/-! ## State -/

/-- What an alias stands for, and where its name was declared. -/
structure AliasValue where
  name : String
  type : TypeId
  nameSpan : Span
deriving DecidableEq, Repr

/-- What checking has found so far. All lists are in the order of the file. -/
structure CheckState where
  table : TypeTable
  aliases : List AliasValue := []
  expressions : List (Span × TypeId) := []
  errors : List CheckError := []

namespace CheckState

/-- The declaration of an alias. -/
def alias? (s : CheckState) (name : String) : Option AliasValue :=
  s.aliases.find? (·.name == name)

/-- The outcome that an alias stands for. -/
def outcome? (s : CheckState) (name : String) : Option Outcome :=
  (s.alias? name).bind fun a => Outcome.ofType? a.type

/-- Whether nothing is wrong. -/
def isOk (s : CheckState) : Bool := s.errors.isEmpty

/-- Whether checking comes to an end. It breaks off where a distribution asks for more room than a
list can have, and what is found in such a file is never shown. -/
def hasResult (s : CheckState) : Bool := s.errors.all (·.fault ≠ .capacityOverflow)

end CheckState

/-- A step of checking. -/
abbrev Checking := StateM CheckState

namespace Checking

/-- Records an error. -/
def report (e : CheckError) : Checking Unit :=
  modify fun s => { s with errors := s.errors ++ [e] }

/-- Builds types in the table. -/
def build {α : Type} (m : Building α) : Checking (Except TypeError α) := fun s =>
  let (answer, table) := m.run.run s.table
  (answer, { s with table })

/-- Interns types in the table. -/
def interning {α : Type} (m : Interning α) : Checking α := fun s =>
  let (answer, table) := m.run s.table
  (answer, { s with table })

/-- Builds a type; if that fails, the error is recorded and the type is `any`. -/
def buildOrAny (m : Building TypeId) (span : Span) : Checking TypeId := do
  match ← build m with
  | .ok i => return i
  | .error e =>
    report (.ofTypeError e span)
    return TypeId.any

/-- Records the violation of a constraint and goes on. -/
def checkConstraint (m : Building Unit) (span : Span) : Checking Unit := do
  match ← build m with
  | .ok () => return ()
  | .error e => report (.ofTypeError e span)

end Checking

open Checking

/-! ## Relations -/

/-- The type that evaluating a relation gives. An assertion whose constraint is violated still has a
value. -/
def evaluate (op : Operator) (args : List (TypeId × Span)) (span : Span) : Checking TypeId :=
  -- the state is read only: a category of a type is decided without any new type
  match op, args with
  | .category c, [(a, _)] => do return (c.holds (← get).table a).toType
  | .comparison c, [(a, _), (b, _)] => buildOrAny (Outcome.toType <$> c.compare a b) span
  | .assertion target, [(a, at')] => do
    -- a violated constraint is an error of its own; the value below is that of the comparison
    checkConstraint (do ExceptT.mk (return (← get).assertionConstraint a target)) at'
    buildOrAny (Outcome.toType <$> equal a (TypeId.ofBool target)) span
  | .batch target, [(a, at')] => do
    checkConstraint (batchConstraint a target) at'
    buildOrAny (Outcome.toType <$> foldBatch a target) span
  | _, _ => return TypeId.any

/-! ## Names -/

/-- What a name refers to. Built-in types come first, then aliases, then relations. -/
inductive Referent where
  | plain (type : TypeId)
  | relation (d : Declaration)

/-- What a name refers to at this point of the file. -/
def CheckState.referent? (s : CheckState) (name : String) : Option Referent :=
  match TypeId.ofName? name with
  | some i => some (.plain i)
  | none =>
    match s.alias? name with
    | some a => some (.plain a.type)
    | none => (declaration? name).map .relation

/-- Applies what a name refers to to arguments that are resolved. -/
def applyReferent (name : String) (args : List (TypeId × Span)) (span : Span) :
    Referent → Checking TypeId
  | .plain type => do
    -- arguments of a plain type are resolved all the same, and only then refused
    if args.isEmpty then return type
    report ⟨.arity name 0 args.length, span⟩
    return TypeId.any
  | .relation d => do
    if args.length ≠ d.operator.arity then
      report ⟨.arity name d.operator.arity args.length, span⟩
      return TypeId.any
    evaluate d.operator args span

/-! ## Expressions -/

mutual

/-- The type of an expression. -/
def resolve : TypeExpr → Checking TypeId
  | .named name args span => do
    match (← get).referent? name with
    | none =>
      -- the name is reported before anything that is wrong with its arguments
      report ⟨.undefinedName name, span⟩
      let _ ← resolveAll args
      return TypeId.any
    | some r =>
      let types ← resolveAll args
      applyReferent name (types.zip (args.map TypeExpr.span)) span r
  | .number value span => buildOrAny (numberLiteral value) span
  | .bigint digits span => buildOrAny (bigintLiteral digits) span
  | .string value _ => interning (stringLiteral value)
  | .union members _ => do
    let types ← resolveAll members
    interning (unionOf types)
  | .intersection members span => do
    let types ← resolveAll members
    buildOrAny (intersectionOf types) span
  | .array element readonly _ => do
    let type ← resolve element
    interning (arrayOf type readonly)
  | .tuple elements readonly _ => do
    let types ← resolveAll elements
    interning (tupleOf types readonly)
  | .object properties span => do
    let ps ← resolveProperties properties
    buildOrAny (objectOf ps) span

/-- The types of some expressions, in order. -/
def resolveAll : List TypeExpr → Checking (List TypeId)
  | [] => return []
  | e :: rest => do
    let type ← resolve e
    return type :: (← resolveAll rest)

/-- A property with its type. -/
def resolveProperty : PropertyExpr → Checking Property
  | .mk name type optional readonly _ => do
    let type ← resolve type
    return { name, type, optional, readonly }

/-- Properties with their types, in order. -/
def resolveProperties : List PropertyExpr → Checking (List Property)
  | [] => return []
  | p :: rest => do
    let p ← resolveProperty p
    return p :: (← resolveProperties rest)

end

/-! ## Items -/

/-- Checks the declaration of an alias. The value is checked even if the name is refused; the first
declaration of a name wins. -/
def checkAlias (d : AliasDecl) : Checking Unit := do
  if (TypeId.ofName? d.name).isSome then
    report ⟨.reservedName d.name, d.nameSpan⟩
    let _ ← resolve d.value
  else
    let type ← resolve d.value
    -- the name is compared after the value is resolved, so the errors of the value come first
    match (← get).alias? d.name with
    | some first => report ⟨.duplicateAlias d.name first.nameSpan, d.nameSpan⟩
    | none =>
      modify fun s => { s with aliases := s.aliases ++ [⟨d.name, type, d.nameSpan⟩] }

/-- Checks one item. -/
def checkItem : Item → Checking Unit
  | .alias d => checkAlias d
  | .expr e => do
    let type ← resolve e
    modify fun s => { s with expressions := s.expressions ++ [(e.span, type)] }

/-- Checks some items in order. -/
def checkItems : List Item → Checking Unit
  | [] => return ()
  | i :: rest => do
    checkItem i
    checkItems rest

/-- Checks a case file with a table. -/
def checkFile (table : TypeTable) (file : CaseFile) : CheckState :=
  ((checkItems file.items).run { table }).2

/-- Checks a text with a table. A text that is no case file is not evaluated. -/
def checkSourceWith (table : TypeTable) (source : String) : CheckState :=
  match parseCaseFile source with
  | .ok file => checkFile table file
  | .error errors => { table, errors := errors.map CheckError.ofSyntaxError }

/-- Checks a text with the built-in types. -/
def checkSource (options : Options) (source : String) : CheckState :=
  checkSourceWith (.withOptions options) source

end TypeAssay
