import TypeAssay.Lattice.Options
import TypeAssay.Number.Decimal
import TypeAssay.Text.Readable
import TypeAssay.Toml.Document

/-!
# Settings

The options of the lattice as a TOML document. The settings stand either at the top of the document
or all of them in its only table, `probe`. What is not set keeps its default.

Where the table `probe` cannot be read, the document counts as one with settings at its top. So
every mistake in that table is reported as a setting with an unknown name, `probe`.
-/

namespace TypeAssay

/-! ## Settings and mistakes -/

/-- What can be set. -/
inductive Setting where
  | strictNullChecks
  | maxUnionSize
deriving DecidableEq, Repr

namespace Setting

/-- All settings, in the order in which a list of values sets them. -/
def all : List Setting := [strictNullChecks, maxUnionSize]

/-- The name of a setting. -/
def name : Setting → String
  | strictNullChecks => "strict-null-checks"
  | maxUnionSize => "max-union-size"

/-- What the value of a setting has to be. -/
def expectation : Setting → String
  | strictNullChecks => "a boolean"
  | maxUnionSize => "usize"

/-- The setting with a name. -/
def ofName? (text : String) : Option Setting := all.find? (·.name == text)

end Setting

/-- Why settings are refused. -/
inductive SettingsError where
  /-- The text is no TOML document. -/
  | malformed
  | unknownSetting (name : String)
  /-- A value is of another kind than the setting asks for. -/
  | wrongKind (found : Toml.Value) (setting : Setting)
  /-- A number is below zero. -/
  | negative (value : Int64) (setting : Setting)
  /-- The options are read, but cannot be used. -/
  | unusable (error : TypeError)

namespace SettingsError

/-- The text of a number in a message: a finite one always has a point. -/
def floatText (x : Binary64) : String :=
  let finite := !x.isNaN && !x.isInfinite
  if finite && !x.text.toList.contains '.' then x.text ++ ".0" else x.text

/-- What a value is called in a message. -/
def kindText : Toml.Value → String
  | .string text => s!"string {readable text}"
  | .integer value => s!"integer `{value.toInt}`"
  | .float value => s!"floating point `{floatText value}`"
  | .boolean value => s!"boolean `{value}`"
  | .array _ | .tables _ => "sequence"
  | .table .. | .datetime => "map"

/-- The error of the lattice that refused settings amount to. There is none for a text that is no
document. -/
def typeError? : SettingsError → Option TypeError
  | malformed => none
  | unknownSetting name =>
    let names := " or ".intercalate (Setting.all.map fun s => s!"`{s.name}`")
    some (.invalidConfig s!"unknown field `{name}`, expected {names}")
  | wrongKind found setting =>
    some (.invalidConfig s!"invalid type: {kindText found}, expected {setting.expectation}")
  | negative value setting =>
    let found := kindText (.integer value)
    some (.invalidConfig s!"invalid value: {found}, expected {setting.expectation}")
  | unusable error => some error

end SettingsError

/-! ## Reading -/

/-- Gives a setting a value. -/
def Setting.set (setting : Setting) (value : Toml.Value) (o : Options) :
    Except SettingsError Options :=
  match setting, value with
  | strictNullChecks, .boolean b => .ok { o with strictNullChecks := b }
  | maxUnionSize, .integer n =>
    if n < 0 then .error (.negative n setting)
    else .ok { o with maxUnionSize := n.toInt.toNat }
  | _, _ => .error (.wrongKind value setting)

namespace Options

/-- The options that named settings give. The first mistake counts. -/
def ofEntries (entries : Toml.Entries) : Except SettingsError Options :=
  entries.foldlM (fun o (name, value) =>
    match Setting.ofName? name with
    | some setting => setting.set value o
    | none => .error (.unknownSetting name)) {}

/-- The options that a list of values gives, one for each setting in turn. Further values are not
looked at. -/
def ofElements (elements : List Toml.Value) : Except SettingsError Options :=
  (Setting.all.zip elements).foldlM (fun o (setting, value) => setting.set value o) {}

/-- The options that the table of a document gives, if that table is all there is and has no
mistake. -/
def ofProbe? : Toml.Entries → Option Options
  | [("probe", .table _ entries)] => (ofEntries entries).toOption
  | [("probe", .array elements)] => (ofElements elements).toOption
  | _ => none

/-- The options that a document gives, before they are checked. -/
def ofDocument (document : Toml.Entries) : Except SettingsError Options :=
  match ofProbe? document with
  | some o => .ok o
  | none => ofEntries document

/-- Reads options from a TOML document. -/
def ofToml (text : String) : Except SettingsError Options := do
  let document ← (Toml.document? text).elim (.error .malformed) .ok
  let o ← ofDocument document
  match o.validate with
  | .ok () => .ok o
  | .error e => .error (.unusable e)

end Options

end TypeAssay
