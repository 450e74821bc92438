import TypeAssay.Toml.Value

/-!
# Building tables

No key is given a value twice. A dotted key may add to a table that only dotted keys have built, a
header to a table that only longer headers imply. The tables in between arise on the way.
-/

namespace TypeAssay.Toml

namespace Entries

/-- Adds an entry under a new key. -/
def insertNew? (entries : Entries) (key : String) (value : Value) : Option Entries :=
  if (entries.lookup key).isSome then none else some (entries ++ [(key, value)])

/-- Gives a key that is there another value. -/
def replace (entries : Entries) (key : String) (value : Value) : Entries :=
  entries.map fun (k, v) => if k = key then (k, value) else (k, v)

/-- Takes an entry away. -/
def remove (entries : Entries) (key : String) : Entries := entries.filter (·.1 ≠ key)

end Entries

/-- What reaches the tables on its way to another. -/
inductive Route where
  /-- A header. -/
  | header
  /-- A dotted key. -/
  | dottedKey
deriving DecidableEq, Repr

namespace Route

/-- The form of a table that arises on the way. -/
def newForm : Route → TableForm
  | header => .implied
  | dottedKey => .dotted

/-- Whether the way may lead through a table. -/
def passes : Route → TableForm → Bool
  | _, .inline => false
  | dottedKey, .header => false
  | _, _ => true

end Route

/-- Changes the table that a path leads to. The change is told the form of that table. Of several
tables under one name the path goes through the last. -/
def updateAt (route : Route) (change : TableForm → Entries → Option Entries) :
    List String → TableForm → Entries → Option Entries
  | [], form, entries => change form entries
  | key :: path, _, entries =>
    match entries.lookup key with
    | none =>
      (updateAt route change path route.newForm []).map fun inner =>
        entries ++ [(key, .table route.newForm inner)]
    | some (.table form inner) =>
      if route.passes form then
        (updateAt route change path form inner).map fun inner =>
          entries.replace key (.table form inner)
      else none
    | some (.tables elements) =>
      (updateAt route change path .header (elements.getLastD [])).map fun last =>
        entries.replace key (.tables (elements.dropLast ++ [last]))
    | some _ => none

/-! ## Assignments -/

/-- Enters a value under its dotted key. The last table on the way is one that dotted keys have
built, unless the key has a single part. -/
def assign (entries : Entries) (a : Assignment) : Option Entries :=
  let change (form : TableForm) (inner : Entries) : Option Entries :=
    if (form = .dotted) = (a.key.parents ≠ []) then inner.insertNew? a.key.name a.value else none
  updateAt .dottedKey change a.key.parents .header entries

/-- Enters values in turn. -/
def assignAll (entries : Entries) (as : List Assignment) : Option Entries :=
  as.foldlM assign entries

/-! ## Sections -/

/-- The line that opens a part of a document. -/
inductive Header where
  /-- In brackets: a table. -/
  | table (key : Key)
  /-- In double brackets: one more table of several under a name. -/
  | element (key : Key)
deriving DecidableEq, Repr

/-- A part of a document: a header and the assignments under it. -/
structure Section where
  header : Header
  assignments : List Assignment

/-- Enters a section in the table that holds it. A table that longer headers implied keeps what it
has, and moves to the end. -/
def placeSection (s : Section) (entries : Entries) : Option Entries :=
  match s.header with
  | .table key =>
    let start? := match entries.lookup key.name with
      | none => some []
      | some (.table .implied inner) => some inner
      | some _ => none
    start?.bind fun start => (assignAll start s.assignments).map fun inner =>
      entries.remove key.name ++ [(key.name, .table .header inner)]
  | .element key =>
    (assignAll [] s.assignments).bind fun inner =>
      match entries.lookup key.name with
      | none => some (entries ++ [(key.name, .tables [inner])])
      | some (.tables elements) => some (entries.replace key.name (.tables (elements ++ [inner])))
      | some _ => none

/-- The tables that a header passes through. -/
def Header.parents : Header → List String
  | table key => key.parents
  | element key => key.parents

/-- Enters a section in the root of a document. -/
def addSection (root : Entries) (s : Section) : Option Entries :=
  updateAt .header (fun _ entries => placeSection s entries) s.header.parents .header root

end TypeAssay.Toml
