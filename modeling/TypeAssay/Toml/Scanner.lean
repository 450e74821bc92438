/-!
# Scanners

A scanner takes what it recognises off the front of a text and leaves the rest, or fails. A failed
alternative takes nothing. Repetition needs no bound of its own: a scanner that takes at least one
character each time cannot succeed more often than the text has characters.
-/

namespace TypeAssay.Toml

/-- Takes something off the front of a text. -/
abbrev Scanner (α : Type) := StateT (List Char) Option α

namespace Scanner

variable {α β : Type}

/-- Takes one character of a class. -/
def satisfy (inClass : Char → Bool) : Scanner Char := fun text =>
  match text with
  | c :: rest => if inClass c then some (c, rest) else none
  | [] => none

/-- Takes the given character. -/
def char (c : Char) : Scanner Char := satisfy (· == c)

/-- Takes the given characters. -/
def exactly : List Char → Scanner Unit
  | [] => return
  | c :: cs => do
    let _ ← char c
    exactly cs

/-- Takes all characters of a class that come next. -/
def takeWhile (inClass : Char → Bool) : Scanner (List Char) := fun text =>
  some (text.takeWhile inClass, text.dropWhile inClass)

/-- Succeeds where nothing is left. -/
def endOfText : Scanner Unit := fun text =>
  match text with
  | [] => some ((), [])
  | _ :: _ => none

/-- Succeeds where something is left. -/
def moreText : Scanner Unit := fun text =>
  match text with
  | [] => none
  | _ :: _ => some ((), text)

/-- Repeats a scanner until it fails, at most so many times. -/
def repeatUpTo (p : Scanner α) : Nat → Scanner (List α)
  | 0 => return []
  | n + 1 => do
    match ← optional p with
    | none => return []
    | some a =>
      let more ← repeatUpTo p n
      return a :: more

/-- Repeats a scanner that takes at least one character until it fails. -/
def many (p : Scanner α) : Scanner (List α) := fun text => repeatUpTo p text.length text

/-- One or more of something, with a separator between any two. -/
def separated (p : Scanner α) (separator : Scanner β) : Scanner (List α) := do
  let first ← p
  let more ← many (separator *> p)
  return first :: more

/-- Fails where a condition does not hold. -/
def require (condition : Bool) : Scanner Unit := if condition then return else failure

/-- Passes a result on, if there is one. -/
def given (result : Option α) : Scanner α :=
  match result with
  | some a => return a
  | none => failure

/-- What a scanner takes off a text, if that leaves nothing. -/
def scanAll? (p : Scanner α) (text : List Char) : Option α :=
  match p text with
  | some (a, []) => some a
  | _ => none

end Scanner

end TypeAssay.Toml
