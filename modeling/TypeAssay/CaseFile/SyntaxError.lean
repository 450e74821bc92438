import TypeAssay.CaseFile.Scan

/-!
# Errors in the text of a case file
-/

namespace TypeAssay

/-- What the grammar allows at some place. -/
inductive Expected where
  | punctuation (p : Punctuation)
  | keyword (k : Keyword)
  | aliasName
  | numeralAfterMinus
  | type
  | propertyName
deriving DecidableEq, Repr

namespace Expected

def text : Expected → String
  | punctuation p => s!"'{p.char}'"
  | keyword k => s!"'{k.spelling}'"
  | aliasName => "type alias name"
  | numeralAfterMinus => "numeric literal after '-'"
  | type => "type"
  | propertyName => "property name"

end Expected

/-- Why a text is no case file. -/
inductive SyntaxFault where
  /-- Some characters are no token. -/
  | lexical (f : LexFault)
  /-- The grammar allows no such token here. -/
  | unexpectedToken (expected : Expected) (found : Token)
  /-- The text ends too early. -/
  | unexpectedEnd (expected : Expected)
  /-- Aliases have no parameters. -/
  | aliasParameters (name : String)
  /-- Only arrays and tuples can be readonly. -/
  | readonlyOperand
  /-- Expressions nest too deeply. -/
  | tooDeep (limit : Nat)
deriving DecidableEq, Repr

namespace SyntaxFault

/-- The wording of a fault. -/
def message : SyntaxFault → String
  | lexical f => f.message
  | unexpectedToken expected found => s!"Expected {expected.text}, found '{found.text}'"
  | unexpectedEnd expected => s!"Unexpected end of file, expected {expected.text}"
  | aliasParameters name => s!"Type alias '{name}' cannot declare type parameters"
  | readonlyOperand =>
    "'readonly' type modifier is only permitted on array and tuple types"
  | tooDeep limit => s!"Maximum nesting depth ({limit}) exceeded"

end SyntaxFault

/-- A fault and its place. -/
structure SyntaxError where
  fault : SyntaxFault
  span : Span
deriving DecidableEq, Repr

/-- A lexical error among the syntax errors. -/
def SyntaxError.ofLexError (e : LexError) : SyntaxError := ⟨.lexical e.fault, e.span⟩

end TypeAssay
