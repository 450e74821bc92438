import TypeAssay.Catalog
import TypeAssay.Text.Blank
import TypeAssay.Text.Search

/-!
# Markers in documentation

A line with a marker `<!-- Insert Word: Name -->` in it stands for the description of a declaration.
-/

namespace TypeAssay

/-- The name in the first marker of a line. The word before it must not be empty or hold white
space. -/
def markerName? (line : List Char) : Option (List Char) := do
  let (_, rest) ← cutAt? "<!-- Insert ".toList line
  let (inside, _) ← cutAt? " -->".toList rest
  let (word, name) ← cutAt? ": ".toList inside
  if word.isEmpty || word.any isWhiteSpace then none else some (trim name)

/-- The description that a line stands for, or the line itself. -/
def renderMarkerLine (line : List Char) : List Char :=
  match (markerName? line).bind fun name => declaration? (String.ofList name) with
  | some d => d.description.toList
  | none => line

/-- Puts descriptions in the place of all lines that name a declaration. -/
def renderMarkers (template : String) : String :=
  let rendered := (splitOnChar '\n' template.toList).map renderMarkerLine
  String.ofList (['\n'].intercalate rendered)

end TypeAssay
