import TypeAssay.Text.Printable

/-!
# Texts in messages

A message shows a text in double quotes. A double quote, a backslash and the usual control
characters are written by their short escapes, and all else that would not be seen by its code in
braces.
-/

namespace TypeAssay

/-- A character by its code. -/
def codeEscape (c : Char) : List Char :=
  ['\\', 'u', '\x7b'] ++ Nat.toDigits 16 c.toNat ++ ['\x7d']

/-- A character of a text in a message. -/
def readableChar (c : Char) : List Char :=
  match c with
  | '"' => ['\\', '"']
  | '\\' => ['\\', '\\']
  | '\n' => ['\\', 'n']
  | '\r' => ['\\', 'r']
  | '\t' => ['\\', 't']
  | '\x00' => ['\\', '0']
  | _ => if isPrintable c then [c] else codeEscape c

/-- A text in quotes. -/
def readable (s : String) : String :=
  String.ofList ('"' :: s.toList.flatMap readableChar ++ ['"'])

end TypeAssay
