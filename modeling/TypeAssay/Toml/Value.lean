import TypeAssay.Number.Binary64

/-!
# TOML values

A table keeps its entries in the order of the document. It also remembers how it came to be, for
this decides what later lines may add to it.
-/

namespace TypeAssay.Toml

/-- How a table was written. -/
inductive TableForm where
  /-- In braces. Nothing can be added to it. -/
  | inline
  /-- Under a header of its own. -/
  | header
  /-- Only as a part of longer headers. -/
  | implied
  /-- Only as a part of dotted keys. -/
  | dotted
deriving DecidableEq, Repr

/-- A value of a document. Of a date or a time only the presence is kept. -/
inductive Value where
  | string (text : String)
  | integer (value : Int64)
  | float (value : Binary64)
  | boolean (value : Bool)
  | datetime
  | array (elements : List Value)
  | table (form : TableForm) (entries : List (String × Value))
  /-- The tables under headers in double brackets. -/
  | tables (elements : List (List (String × Value)))

/-- The entries of a table, with different keys, in the order of the document. -/
abbrev Entries := List (String × Value)

/-- A dotted key: the tables it passes through and the name in the last of them. -/
structure Key where
  parents : List String
  name : String
deriving DecidableEq, Repr

/-- A key with its value. -/
structure Assignment where
  key : Key
  value : Value

end TypeAssay.Toml
