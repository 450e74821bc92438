import TypeAssay.Text.Hex

/-!
# String literals

A string literal ends at its own quote and never runs over a newline. A backslash takes the next
character with it. `unescape` gives the meaning of what stands between the quotes.
-/

namespace TypeAssay

/-- What stands between the quotes, and whether the closing quote is there. -/
def stringBody (quote : Char) : List Char → List Char × Bool
  | [] => ([], false)
  | [c] =>
    if c = quote then ([], true)
    else if c = '\n' || c = '\\' then ([], false)
    else ([c], false)
  | c :: d :: rest =>
    if c = quote then ([], true)
    else if c = '\n' then ([], false)
    else if c = '\\' then
      if d = '\n' then ([], false)
      else
        let (body, closed) := stringBody quote rest
        (c :: d :: body, closed)
    else
      let (body, closed) := stringBody quote (d :: rest)
      (c :: body, closed)

/-- The hexadecimal digits of a Unicode escape, after its `u`: all that stand in braces, else at
most four. The number tells how many characters the escape takes; the closing brace may be
missing. -/
def unicodeDigits (cs : List Char) : List Char × Nat :=
  match cs with
  | '{' :: rest =>
    let hex := rest.takeWhile isHexDigit
    let closing := if (rest.drop hex.length).head? = some '}' then 1 else 0
    (hex, 1 + hex.length + closing)
  | _ =>
    let hex := (cs.takeWhile isHexDigit).take 4
    (hex, hex.length)

/-- What a Unicode escape stands for. Digits that name no character stay, after their `\u`. -/
def unicodeMeaning (hex : List Char) : List Char :=
  match hex, charOfCode? (natOfHexDigits hex) with
  | _ :: _, some c => [c]
  | _, _ => '\\' :: 'u' :: hex

/-- What a backslash and a character other than `u` stand for. -/
def escapedChar : Char → Char
  | 'n' => '\n'
  | 'r' => '\r'
  | 't' => '\t'
  | '0' => '\x00'
  | c => c

/-- What the text between the quotes means. -/
def unescape (cs : List Char) : List Char :=
  match cs with
  | [] => []
  | ['\\'] => []
  | '\\' :: 'u' :: rest =>
    let (hex, length) := unicodeDigits rest
    unicodeMeaning hex ++ unescape (rest.drop length)
  | '\\' :: c :: rest => escapedChar c :: unescape rest
  | c :: rest => c :: unescape rest
termination_by cs.length
decreasing_by
  all_goals simp only [List.length_drop, List.length_cons]
  all_goals omega

end TypeAssay
