import TypeAssay.Lattice.Table

/-!
# The readable form of types

Types are written in their own syntax, with parentheses where the surroundings bind tighter than
the type. The union of both truth values is written `boolean`, alone or among other members.
-/

namespace TypeAssay

/-- How tightly the surroundings of a type bind. -/
inductive Binding where
  /-- Nothing needs parentheses. -/
  | loose
  /-- A union needs them: it is a member of a union or an intersection. -/
  | member
  /-- An intersection needs them too: it is a constraint or an element. -/
  | postfixed
deriving DecidableEq, Repr

/-- Puts a text in parentheses. -/
def parenthesizeIf (needed : Bool) (text : String) : String :=
  if needed then "(" ++ text ++ ")" else text

/-- The members of a union as they are written: the first of the truth values stands for both,
if both are there. It is marked by `none`. -/
def writtenMembers (ms : List TypeId) : List (Option TypeId) :=
  let isTruth (i : TypeId) : Bool := i = TypeId.yes || i = TypeId.no
  if ms.contains TypeId.yes && ms.contains TypeId.no then
    (ms.takeWhile (!isTruth ·)).map some ++
      none :: ((ms.dropWhile (!isTruth ·)).filter (!isTruth ·)).map some
  else ms.map some

namespace TypeTable

/-- Writes an id that names no type. -/
def danglingText (i : TypeId) : String := s!"InvalidType({i})"

/-- Writes one node; `part` writes the types it refers to. -/
def displayStep (part : TypeId → Binding → String) (t : Ty) (b : Binding) : String :=
  match t with
  | .union ms =>
    parenthesizeIf (b ≠ .loose) <| " | ".intercalate <|
      (writtenMembers ms).map fun
        | none => "boolean"
        | some i => part i .member
  | .intersection ms =>
    parenthesizeIf (b = .postfixed) <| " & ".intercalate <| ms.map (part · .postfixed)
  | .array e readonly => Ty.readonlyKeyword readonly ++ part e .postfixed ++ "[]"
  | .tuple es readonly =>
    Ty.readonlyKeyword readonly ++ "[" ++ ", ".intercalate (es.map (part · .loose)) ++ "]"
  | .object [] => "\x7b\x7d"
  | .object ps =>
    "\x7b " ++ "; ".intercalate (ps.map fun p => p.label ++ ": " ++ part p.type .loose) ++ " \x7d"
  | other => other.text

/-- Writes a type, with a bound on how deep types nest. -/
def displayWithin (T : TypeTable) : Nat → TypeId → Binding → String
  | 0, i, _ => danglingText i
  | depth + 1, i, b =>
    match T.get? i with
    | none => danglingText i
    | some t => displayStep (T.displayWithin depth) t b

/-- The readable form of a type. -/
def display (T : TypeTable) (i : TypeId) : String := T.displayWithin (T.size + 1) i .loose

end TypeTable

end TypeAssay
