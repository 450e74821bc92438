import TypeAssay.Proofs.Items

/-!
# The parser over an index

A machine reads the tokens by the index of the current one and counts how many expressions are open.
It has no answer (`none`) when an index is outside the tokens, and none when a loop or a recursion
goes on for longer than there are tokens or nestings. The readers of `TypeAssay.CaseFile.Parse` are
given a cursor and the nesting that is left instead; here each of them is written down once more for
the machine, and `Follows` says that both do the same.
-/

namespace TypeAssay

/-- A parser: the tokens, the index of the current one, and the number of open expressions. -/
structure Machine where
  tokens : List LocatedToken
  position : Nat
  depth : Nat

namespace Machine

/-- An action of the machine, which may have no answer. -/
abbrev Action := ExceptT SyntaxError (StateT Machine Option)

/-- There is no answer. -/
def stuck {α : Type} : Action α := ExceptT.mk fun _ => none

/-- The cursor that the machine stands for, if its indices are those of tokens. -/
def view? (s : Machine) : Option Cursor := do
  let previous ← s.tokens[s.position - 1]?
  let current ← s.tokens[s.position]?
  return ⟨previous.span, current, s.tokens.drop (s.position + 1)⟩

/-- The machine in front of some tokens. -/
def start (tokens : List LocatedToken) : Machine := ⟨tokens, 0, 0⟩

def look : Action Cursor := do
  match (← get).view? with
  | some c => return c
  | none => stuck

/-- Goes on to the next token, if there is one. -/
def advance : Action Unit := do
  let _ ← look
  modify fun s =>
    if s.position < s.tokens.length - 1 then { s with position := s.position + 1 } else s

def fail {α : Type} (expected : Expected) : Action α := do throw ((← look).unexpected expected)

def eat (p : Punctuation) : Action Bool := do
  if (← look).sees p then
    advance
    return true
  else return false

def expect (p : Punctuation) : Action Span := do
  let c ← look
  if c.sees p then
    advance
    return c.span
  else fail (.punctuation p)

def expectKeyword (k : Keyword) : Action Span := do
  let c ← look
  if c.token = .keyword k then
    advance
    return c.span
  else fail (.keyword k)

/-- The number of all tokens, within which every loop has to end. -/
def room : Action Nat := do return (← get).tokens.length

/-! ## Loops -/

def afterEach {α : Type} (separator : Punctuation) (element : Action α) : Nat → Action (List α)
  | 0 => stuck
  | fuel + 1 => do
    if ← eat separator then
      let x ← element
      return x :: (← afterEach separator element fuel)
    else return []

def separated {α : Type} (separator : Punctuation) (element : Action α) : Action (List α) := do
  let x ← element
  return x :: (← afterEach separator element (← room))

def upTo {α : Type} (closing : Punctuation) (separator : Action Bool) (element : Action α) :
    Nat → Action (List α)
  | 0 => stuck
  | fuel + 1 => do
    if (← look).sees closing then return []
    let x ← element
    if ← separator then return x :: (← upTo closing separator element fuel)
    else return [x]

/-! ## Expressions -/

/-- Opens an expression for an action, unless too many are open, and closes it again, also after an
error. -/
def nested (m : Action TypeExpr) : Action TypeExpr := do
  modify fun s => { s with depth := s.depth + 1 }
  if maxDepth < (← get).depth then
    modify fun s => { s with depth := s.depth - 1 }
    throw ⟨.tooDeep maxDepth, (← look).span⟩
  -- the depth is restored before the answer or the error is passed on
  let answer ← ExceptT.lift m.run
  modify fun s => { s with depth := s.depth - 1 }
  liftExcept answer

def typeArguments (type : Action TypeExpr) : Action (List TypeExpr) := do
  let _ ← expect .less
  let first ← type
  let others ←
    if ← eat .comma then upTo .greater (eat .comma) type (← room) else pure []
  let _ ← expect .greater
  return first :: others

def namedExpr (type : Action TypeExpr) (name : String) : Action TypeExpr := do
  let start := (← look).span
  advance
  let args ← if (← look).sees .less then typeArguments type else pure []
  return .named name args (start.merge (← look).previous)

def negativeExpr : Action TypeExpr := do
  let start := (← look).span
  advance
  let c ← look
  match c.token with
  | .number value =>
    advance
    return .number value.neg (start.merge c.span)
  | .bigint digits =>
    advance
    return .bigint ("-" ++ digits) (start.merge c.span)
  | _ => fail .numeralAfterMinus

def readonlyExpr (operand : Action TypeExpr) : Action TypeExpr := do
  let start ← expectKeyword .readonly
  let inner ← operand
  let span := start.merge inner.span
  match inner with
  | .array element _ _ => return .array element true span
  | .tuple elements _ _ => return .tuple elements true span
  | _ => throw ⟨.readonlyOperand, span⟩

def tupleExpr (type : Action TypeExpr) : Action TypeExpr := do
  let start ← expect .leftBracket
  let elements ← upTo .rightBracket (eat .comma) type (← room)
  let stop ← expect .rightBracket
  return .tuple elements false (start.merge stop)

/-- What is read of a property behind its modifier. -/
def propertyBody (type : Action TypeExpr) (readonly : Bool) (start : Span) :
    Action PropertyExpr := do
  match propertyName? (← look).token with
  | none => fail .propertyName
  | some name =>
    advance
    let optional ← eat .question
    let _ ← expect .colon
    let value ← type
    return .mk name value optional readonly (start.merge value.span)

def propertyExpr (type : Action TypeExpr) : Action PropertyExpr := do
  let c ← look
  if readonlyIsModifier c then
    advance
    propertyBody type true c.span
  else propertyBody type false c.span

def eatPropertySeparator : Action Bool := do
  if ← eat .comma then return true else eat .semicolon

def objectExpr (type : Action TypeExpr) : Action TypeExpr := do
  let start ← expect .leftBrace
  let properties ← upTo .rightBrace eatPropertySeparator (propertyExpr type) (← room)
  let stop ← expect .rightBrace
  return .object properties (start.merge stop)

def parenthesized (type : Action TypeExpr) : Action TypeExpr := do
  let start ← expect .leftParen
  let inner ← type
  let stop ← expect .rightParen
  return inner.withSpan (start.merge stop)

def primaryExpr (type operand : Action TypeExpr) : Action TypeExpr := do
  let c ← look
  match c.token with
  | .identifier name => namedExpr type name
  | .number value =>
    advance
    return .number value c.span
  | .bigint digits =>
    advance
    return .bigint digits c.span
  | .string value =>
    advance
    return .string value c.span
  | .punctuation .minus => negativeExpr
  | .keyword .readonly => readonlyExpr operand
  | .punctuation .leftBracket => tupleExpr type
  | .punctuation .leftBrace => objectExpr type
  | .punctuation .leftParen => parenthesized type
  | _ => fail .type

def arraySuffixes (e : TypeExpr) : Nat → Action TypeExpr
  | 0 => stuck
  | fuel + 1 => do
    let c ← look
    if c.sees .leftBracket && c.next? = some (.punctuation .rightBracket) then
      advance
      let stop := (← look).span
      advance
      arraySuffixes (.array e false (e.span.merge stop)) fuel
    else return e

def operandExpr (type operand : Action TypeExpr) : Action TypeExpr := do
  let e ← primaryExpr type operand
  arraySuffixes e (← room)

def intersectionExpr (operand : Action TypeExpr) : Action TypeExpr := do
  let start := (← look).span
  match ← separated .amp operand with
  | [only] => return only
  | members => return .intersection members (start.merge (← look).previous)

def unionExpr (operand : Action TypeExpr) : Action TypeExpr := do
  let start := (← look).span
  let leading ← eat .pipe
  match ← separated .pipe (intersectionExpr operand) with
  | [only] => return if leading then only.withSpan (start.merge only.span) else only
  | members => return .union members (start.merge (← look).previous)

/-- An operand. The recursion has to end within so many calls. -/
def operandWithin : Nat → Action TypeExpr
  | 0 => stuck
  | fuel + 1 => operandExpr (nested (unionExpr (operandWithin fuel))) (nested (operandWithin fuel))

/-- A type expression. -/
def typeExpr : Action TypeExpr := nested (unionExpr (operandWithin maxDepth))

/-! ## Items -/

/-- What is read of an alias behind the keyword `type`. -/
def aliasBody (start : Span) (exported : Bool) : Action AliasDecl := do
  let nameCursor ← look
  match nameCursor.token with
  | .identifier name =>
    advance
    if (← look).sees .less then throw ⟨.aliasParameters name, (← look).span⟩
    let _ ← expect .equal
    let value ← typeExpr
    return { name, nameSpan := nameCursor.span, exported, value, span := start.merge value.span }
  | _ => fail .aliasName

def aliasDecl : Action AliasDecl := do
  let c ← look
  if c.token = .keyword .exported then
    advance
    let _ ← expectKeyword .type
    aliasBody c.span true
  else
    let _ ← expectKeyword .type
    aliasBody c.span false

def endOfItem : Action Unit := do
  let c ← look
  if c.sees .semicolon then advance
  else if startsAlias c.token || c.atEnd || c.previous.line < c.span.line then return ()
  else fail (.punctuation .semicolon)

def item : Action Item := do
  if startsAlias (← look).token then
    let d ← aliasDecl
    endOfItem
    return .alias d
  else
    let e ← typeExpr
    endOfItem
    return .expr e

/-- Skips to the next place where an item can start. -/
def skipToItem : Nat → Action Unit
  | 0 => stuck
  | fuel + 1 => do
    let c ← look
    if c.atEnd || startsAlias c.token then return ()
    -- a semicolon is skipped with the item that it ends
    else if c.sees .semicolon then advance
    else
      advance
      skipToItem fuel

/-- One pass of the loop over the items. An error closes all expressions. -/
def pass : Action (Except SyntaxError Item) := do
  match ← ExceptT.lift item.run with
  | .ok i => return .ok i
  -- each of them was closed where the error passed it, so this changes nothing
  | .error e =>
    modify fun s => { s with depth := 0 }
    skipToItem (← room)
    return .error e

/-- The passes up to the end of the text. They have to come to it within so many of them. -/
def passes : Nat → Action (List (Except SyntaxError Item))
  | 0 => stuck
  | fuel + 1 => do
    if (← look).atEnd then return []
    let found ← pass
    return found :: (← passes fuel)

end Machine

end TypeAssay
