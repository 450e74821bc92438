/-!
# Cutting texts at a pattern
-/

namespace TypeAssay

/-- What follows a text that starts with a pattern. -/
def stripStart? : List Char → List Char → Option (List Char)
  | [], cs => some cs
  | _ :: _, [] => none
  | p :: ps, c :: cs => if p = c then stripStart? ps cs else none

/-- What stands before and after the first place of a pattern. -/
def cutAt? (pattern : List Char) : List Char → Option (List Char × List Char)
  | [] => (stripStart? pattern []).map fun rest => ([], rest)
  | c :: cs =>
    match stripStart? pattern (c :: cs) with
    | some rest => some ([], rest)
    | none => (cutAt? pattern cs).map fun (before, rest) => (c :: before, rest)

/-- Cuts a text at every place of a character. -/
def splitOnChar (separator : Char) : List Char → List (List Char)
  | [] => [[]]
  | c :: cs =>
    if c = separator then [] :: splitOnChar separator cs
    else
      match splitOnChar separator cs with
      | [] => [[c]]
      | part :: parts => (c :: part) :: parts

end TypeAssay
