import TypeAssay.Number.Decimal
import TypeAssay.Text.Bisect

/-!
# Types

A resolved type is one node whose parts are ids of other types; the table that hands out the ids
is in `TypeAssay.Lattice.Table`. The ids of the fourteen built-in types are fixed.

`Ty.text` writes one node, its parts by their ids. The readable form, which follows the ids, is in
`TypeAssay.Lattice.Display`.
-/

namespace TypeAssay

/-- The number a type has in its table. Tables with fewer than `2 ^ 32` types are meant, so that 32
bits hold every id; nothing here depends on that bound. -/
abbrev TypeId := Nat

namespace TypeId

abbrev any : TypeId := 0
abbrev never : TypeId := 1
abbrev unknown : TypeId := 2
abbrev number : TypeId := 3
abbrev string : TypeId := 4
abbrev bigint : TypeId := 5
abbrev symbol : TypeId := 6
abbrev null : TypeId := 7
abbrev undefined : TypeId := 8
abbrev void : TypeId := 9
abbrev object : TypeId := 10
abbrev yes : TypeId := 11
abbrev no : TypeId := 12
abbrev boolean : TypeId := 13

/-- The literal type of a truth value. -/
def ofBool (b : Bool) : TypeId := if b then yes else no

/-- The written form of an id. -/
def text (i : TypeId) : String := s!"TypeId({i})"

end TypeId

/-! ## Primitives -/

/-- The widened base types. There is no `boolean` among them: it is the union of `true` and
`false`. -/
inductive Primitive where
  | number
  | string
  | bigint
  | symbol
  | null
  | undefined
  | void
  | object
deriving DecidableEq, Hashable, Repr

namespace Primitive

/-- The primitives in the order of their ids. -/
def all : List Primitive := [number, string, bigint, symbol, null, undefined, void, object]

/-- The keyword of a primitive. -/
def keyword : Primitive → String
  | number => "number"
  | string => "string"
  | bigint => "bigint"
  | symbol => "symbol"
  | null => "null"
  | undefined => "undefined"
  | void => "void"
  | object => "object"

/-- The primitive with a keyword. -/
def ofKeyword? (word : String) : Option Primitive := all.find? (·.keyword == word)

/-- The id of a primitive in every table. -/
def id : Primitive → TypeId
  | number => TypeId.number
  | string => TypeId.string
  | bigint => TypeId.bigint
  | symbol => TypeId.symbol
  | null => TypeId.null
  | undefined => TypeId.undefined
  | void => TypeId.void
  | object => TypeId.object

/-- Whether the values have no members at all, so that they fit no shape. -/
def isNullish : Primitive → Bool
  | null | undefined | void => true
  | _ => false

/-- A primitive is read back from its keyword. -/
theorem ofKeyword?_keyword (p : Primitive) : ofKeyword? p.keyword = some p := by
  cases p <;> decide

end Primitive

/-- The built-in type with a name. -/
def TypeId.ofName? (name : String) : Option TypeId :=
  match name with
  | "any" => some TypeId.any
  | "never" => some TypeId.never
  | "unknown" => some TypeId.unknown
  | "true" => some TypeId.yes
  | "false" => some TypeId.no
  | "boolean" => some TypeId.boolean
  | _ => (Primitive.ofKeyword? name).map Primitive.id

/-! ## Literals -/

/-- A literal value. Numbers are equal when their bits are; bigints are kept as decimal digits
with a minus sign or none. -/
inductive Literal where
  | number (value : Binary64)
  | string (value : String)
  | bigint (digits : String)
  | boolean (value : Bool)
deriving DecidableEq, Hashable, Repr

namespace Literal

/-- The primitive that a literal widens to. The truth values widen to a union instead. -/
def base? : Literal → Option Primitive
  | number _ => some .number
  | string _ => some .string
  | bigint _ => some .bigint
  | boolean _ => none

/-- Puts a backslash before each single quote. -/
def escapeQuotes (cs : List Char) : List Char :=
  cs.flatMap fun c => if c = '\'' then ['\\', c] else [c]

/-- The written form of a literal. -/
def text : Literal → String
  | number x => x.text
  | string s => String.ofList ('\'' :: escapeQuotes s.toList ++ ['\''])
  | bigint digits => digits ++ "n"
  | boolean b => if b then "true" else "false"

end Literal

/-! ## Nodes -/

/-- A property of an object type. -/
structure Property where
  name : String
  type : TypeId
  optional : Bool := false
  readonly : Bool := false
deriving DecidableEq, Hashable, Repr

/-- One type, its parts given by their ids. -/
inductive Ty where
  | any
  | never
  | unknown
  | primitive (p : Primitive)
  | literal (l : Literal)
  | union (members : List TypeId)
  | intersection (members : List TypeId)
  | tuple (elements : List TypeId) (readonly : Bool)
  | array (element : TypeId) (readonly : Bool)
  | object (properties : List Property)
deriving DecidableEq, Hashable, Repr

namespace Property

/-- Finds a property by name in a list that is sorted by name. -/
def search (name : String) (ps : List Property) : Option Property :=
  bisectFind? (fun p => compare p.name name) ps

/-- A property's keyword, name and mark, before the colon. -/
def label (p : Property) : String :=
  (if p.readonly then "readonly " else "") ++ p.name ++ (if p.optional then "?" else "")

end Property

namespace Ty

def isAny : Ty → Bool
  | any => true
  | _ => false

def isNever : Ty → Bool
  | never => true
  | _ => false

def isUnknown : Ty → Bool
  | unknown => true
  | _ => false

def isUnion : Ty → Bool
  | union _ => true
  | _ => false

/-- Whether the node is an array or a tuple. -/
def isSequence : Ty → Bool
  | array .. | tuple .. => true
  | _ => false

def primitive? : Ty → Option Primitive
  | primitive p => some p
  | _ => none

def literal? : Ty → Option Literal
  | literal l => some l
  | _ => none

def members? : Ty → Option (List TypeId)
  | union ms => some ms
  | _ => none

def properties? : Ty → Option (List Property)
  | object ps => some ps
  | _ => none

/-- The property of an object type with a name. -/
def property? (t : Ty) (name : String) : Option Property :=
  t.properties?.bind (Property.search name)

/-- The ids that a node refers to. -/
def parts : Ty → List TypeId
  | union ms | intersection ms | tuple ms _ => ms
  | array e _ => [e]
  | object ps => ps.map (·.type)
  | _ => []

/-- The keyword before a sequence that cannot be written to. -/
def readonlyKeyword (readonly : Bool) : String := if readonly then "readonly " else ""

/-- The written form of one node, its parts by their ids. -/
def text : Ty → String
  | any => "any"
  | never => "never"
  | unknown => "unknown"
  | primitive p => p.keyword
  | literal l => l.text
  | union ms => " | ".intercalate (ms.map TypeId.text)
  | intersection ms => " & ".intercalate (ms.map TypeId.text)
  | tuple es readonly =>
    readonlyKeyword readonly ++ "[" ++ ", ".intercalate (es.map TypeId.text) ++ "]"
  | array e readonly => readonlyKeyword readonly ++ TypeId.text e ++ "[]"
  | object ps =>
    "\x7b " ++ ", ".intercalate (ps.map fun p => p.label ++ ": " ++ TypeId.text p.type) ++ " \x7d"

end Ty

end TypeAssay
