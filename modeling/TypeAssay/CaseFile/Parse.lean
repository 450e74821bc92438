import TypeAssay.CaseFile.Expr
import TypeAssay.CaseFile.SyntaxError

/-!
# From tokens to case files

A recursive descent over the tokens. Expressions are unions of intersections of operands; an
operand is a primary expression followed by any number of `[]`.

Nesting is bounded: `typeAt n` reads an expression that may nest at most `n` deep, and it is defined
by recursion on `n`. Every loop goes on only after it has consumed a token, so the tokens ahead
bound it.

An error skips to the next place where an item can start, so that later items are still read.
-/

namespace TypeAssay

/-! ## The cursor -/

/-- A place in a list of tokens. The last token stays current when everything is read. -/
structure Cursor where
  previous : Span
  current : LocatedToken
  rest : List LocatedToken
deriving Repr

namespace Cursor

/-- The cursor at the first of some tokens. -/
def ofTokens : List LocatedToken → Cursor
  | [] => ⟨default, ⟨.eof, default⟩, []⟩
  | t :: rest => ⟨t.span, t, rest⟩

/-- The cursor after the current token. -/
def advance (c : Cursor) : Cursor :=
  match c.rest with
  | [] => c
  | t :: rest => ⟨c.current.span, t, rest⟩

def token (c : Cursor) : Token := c.current.token
def span (c : Cursor) : Span := c.current.span
def atEnd (c : Cursor) : Bool := c.token = .eof

/-- Whether the current token is a punctuation mark. -/
def sees (c : Cursor) (p : Punctuation) : Bool := c.token = .punctuation p

/-- The token after the current one. -/
def next? (c : Cursor) : Option Token := c.rest.head?.map (·.token)

/-- The error that the current token is not what the grammar allows. -/
def unexpected (c : Cursor) (expected : Expected) : SyntaxError :=
  if c.atEnd then ⟨.unexpectedEnd expected, c.span⟩
  else ⟨.unexpectedToken expected c.token, c.span⟩

end Cursor

/-- A reader of tokens. After an error the cursor stays where the error was found. -/
abbrev Reader := ExceptT SyntaxError (StateM Cursor)

namespace Reader

def advance : Reader Unit := modify Cursor.advance

def fail {α : Type} (expected : Expected) : Reader α := do throw ((← get).unexpected expected)

/-- Whether the current token is a punctuation mark, which is then consumed. -/
def eat (p : Punctuation) : Reader Bool := do
  if (← get).sees p then
    advance
    return true
  else return false

/-- Consumes a punctuation mark. -/
def expect (p : Punctuation) : Reader Span := do
  let c ← get
  if c.sees p then
    advance
    return c.span
  else fail (.punctuation p)

/-- Consumes a keyword. -/
def expectKeyword (k : Keyword) : Reader Span := do
  let c ← get
  if c.token = .keyword k then
    advance
    return c.span
  else fail (.keyword k)

/-- The number of tokens ahead, which bounds every loop. -/
def ahead : Reader Nat := do return (← get).rest.length + 1

/-- Reads one more element after each separator. -/
def afterEach {α : Type} (separator : Punctuation) (element : Reader α) : Nat → Reader (List α)
  | 0 => return []
  | fuel + 1 => do
    if ← eat separator then
      let x ← element
      return x :: (← afterEach separator element fuel)
    else return []

/-- One or more elements with separators between them. -/
def separated {α : Type} (separator : Punctuation) (element : Reader α) : Reader (List α) := do
  let x ← element
  return x :: (← afterEach separator element (← ahead))

/-- Any number of elements up to a closing mark, which stays. Separators stand between them, and
one may stand after the last. -/
def upTo {α : Type} (closing : Punctuation) (separator : Reader Bool) (element : Reader α) :
    Nat → Reader (List α)
  | 0 => return []
  | fuel + 1 => do
    if (← get).sees closing then return []
    let x ← element
    if ← separator then return x :: (← upTo closing separator element fuel)
    else return [x]

end Reader

open Reader

/-! ## Expressions -/

/-- How deep expressions may nest. -/
def maxDepth : Nat := 64

/-- The error at an expression that nests too deeply. -/
def nestedTooDeep : Reader TypeExpr := do throw ⟨.tooDeep maxDepth, (← get).span⟩

/-- Type arguments in angle brackets, one at least. -/
def typeArguments (type : Reader TypeExpr) : Reader (List TypeExpr) := do
  let _ ← expect .less
  let first ← type
  let others ←
    if ← eat .comma then upTo .greater (eat .comma) type (← ahead) else pure []
  let _ ← expect .greater
  return first :: others

/-- A name, with type arguments or without. -/
def namedExpr (type : Reader TypeExpr) (name : String) : Reader TypeExpr := do
  let start := (← get).span
  advance
  let args ← if (← get).sees .less then typeArguments type else pure []
  return .named name args (start.merge (← get).previous)

/-- A number or a bigint after a minus sign. -/
def negativeExpr : Reader TypeExpr := do
  let start := (← get).span
  advance
  let c ← get
  match c.token with
  | .number value =>
    advance
    return .number value.neg (start.merge c.span)
  | .bigint digits =>
    advance
    return .bigint ("-" ++ digits) (start.merge c.span)
  | _ => fail .numeralAfterMinus

/-- A sequence after `readonly`. -/
def readonlyExpr (operand : Reader TypeExpr) : Reader TypeExpr := do
  let start ← expectKeyword .readonly
  let inner ← operand
  -- the parentheses around an operand are gone by now, so what is behind them counts as well
  let span := start.merge inner.span
  match inner with
  | .array element _ _ => return .array element true span
  | .tuple elements _ _ => return .tuple elements true span
  | _ => throw ⟨.readonlyOperand, span⟩

/-- A tuple in square brackets. -/
def tupleExpr (type : Reader TypeExpr) : Reader TypeExpr := do
  let start ← expect .leftBracket
  let elements ← upTo .rightBracket (eat .comma) type (← ahead)
  let stop ← expect .rightBracket
  return .tuple elements false (start.merge stop)

/-- The name that a token is for a property: an identifier, a string, or a keyword. -/
def propertyName? : Token → Option String
  | .identifier name => some name
  | .string name => some name
  | .keyword k => some k.spelling
  | _ => none

/-- Whether `readonly` comes before a property name, and is not the name itself. -/
def readonlyIsModifier (c : Cursor) : Bool :=
  -- before a colon or a question mark the keyword is the name of the property
  c.token = .keyword .readonly &&
    !(c.next? = some (.punctuation .colon) || c.next? = some (.punctuation .question))

/-- A property of an object type. -/
def propertyExpr (type : Reader TypeExpr) : Reader PropertyExpr := do
  let c ← get
  let start := c.span
  let readonly := readonlyIsModifier c
  if readonly then advance
  match propertyName? (← get).token with
  | none => fail .propertyName
  | some name =>
    advance
    let optional ← eat .question
    let _ ← expect .colon
    let value ← type
    return .mk name value optional readonly (start.merge value.span)

/-- A comma or a semicolon, if there is one. -/
def eatPropertySeparator : Reader Bool := do
  if ← eat .comma then return true else eat .semicolon

/-- An object type in braces. -/
def objectExpr (type : Reader TypeExpr) : Reader TypeExpr := do
  let start ← expect .leftBrace
  let properties ← upTo .rightBrace eatPropertySeparator (propertyExpr type) (← ahead)
  let stop ← expect .rightBrace
  return .object properties (start.merge stop)

/-- An expression in parentheses. -/
def parenthesized (type : Reader TypeExpr) : Reader TypeExpr := do
  let start ← expect .leftParen
  let inner ← type
  let stop ← expect .rightParen
  return inner.withSpan (start.merge stop)

/-- A primary expression. Its parts are read by `type`, and what stands after `readonly` by
`operand`. -/
def primaryExpr (type operand : Reader TypeExpr) : Reader TypeExpr := do
  let c ← get
  match c.token with
  | .identifier name => namedExpr type name
  | .number value =>
    advance
    return .number value c.span
  | .bigint digits =>
    advance
    return .bigint digits c.span
  | .string value =>
    advance
    return .string value c.span
  | .punctuation .minus => negativeExpr
  | .keyword .readonly => readonlyExpr operand
  | .punctuation .leftBracket => tupleExpr type
  | .punctuation .leftBrace => objectExpr type
  | .punctuation .leftParen => parenthesized type
  | _ => fail .type

/-- The arrays that the `[]` after an expression make of it. -/
def arraySuffixes (e : TypeExpr) : Nat → Reader TypeExpr
  | 0 => return e
  | fuel + 1 => do
    let c ← get
    -- the loop counts no depth, however many suffixes follow
    if c.sees .leftBracket && c.next? = some (.punctuation .rightBracket) then
      advance
      let stop := (← get).span
      advance
      arraySuffixes (.array e false (e.span.merge stop)) fuel
    else return e

/-- A primary expression and the `[]` after it. -/
def operandExpr (type operand : Reader TypeExpr) : Reader TypeExpr := do
  let e ← primaryExpr type operand
  arraySuffixes e (← ahead)

/-- Operands with `&` between them. -/
def intersectionExpr (operand : Reader TypeExpr) : Reader TypeExpr := do
  let start := (← get).span
  -- one member alone is no intersection; it keeps its own span
  match ← separated .amp operand with
  | [only] => return only
  | members => return .intersection members (start.merge (← get).previous)

/-- Intersections with `|` between them; one may also stand before the first. -/
def unionExpr (operand : Reader TypeExpr) : Reader TypeExpr := do
  let start := (← get).span
  let leading ← eat .pipe
  match ← separated .pipe (intersectionExpr operand) with
  -- a leading mark belongs to the span even if no second member follows
  | [only] => return if leading then only.withSpan (start.merge only.span) else only
  | members => return .union members (start.merge (← get).previous)

/-- An operand whose parts may nest `n` deep. -/
def operandAt : Nat → Reader TypeExpr
  | 0 => operandExpr nestedTooDeep nestedTooDeep
  | n + 1 => operandExpr (unionExpr (operandAt n)) (operandAt n)

/-- An expression that may nest `n` deep. -/
def typeAt : Nat → Reader TypeExpr
  | 0 => nestedTooDeep
  | n + 1 => unionExpr (operandAt n)

/-- A type expression. -/
def typeExpr : Reader TypeExpr := typeAt maxDepth

/-! ## Items -/

/-- The declaration of an alias. -/
def aliasDecl : Reader AliasDecl := do
  let c ← get
  let exported := c.token = .keyword .exported
  if exported then advance
  let _ ← expectKeyword .type
  let nameCursor ← get
  match nameCursor.token with
  | .identifier name =>
    advance
    -- a generic alias is refused here, before its equals sign is looked for
    if (← get).sees .less then throw ⟨.aliasParameters name, (← get).span⟩
    let _ ← expect .equal
    let value ← typeExpr
    return { name, nameSpan := nameCursor.span, exported, value,
             span := c.span.merge value.span }
  | _ => fail .aliasName

/-- Whether a token starts an alias. -/
def startsAlias (t : Token) : Bool := t = .keyword .type || t = .keyword .exported

/-- The end of an item: a semicolon, which may be missing before a new line, an alias or the end. -/
def endOfItem : Reader Unit := do
  let c ← get
  if c.sees .semicolon then advance
  else if startsAlias c.token || c.atEnd || c.previous.line < c.span.line then return ()
  else fail (.punctuation .semicolon)

/-- One item. -/
def item : Reader Item := do
  let i ← if startsAlias (← get).token then Item.alias <$> aliasDecl else Item.expr <$> typeExpr
  endOfItem
  return i

/-- Skips to the next place where an item can start: behind a semicolon, or at an alias. -/
def skipToItem : Nat → Cursor → Cursor
  | 0, c => c
  | fuel + 1, c =>
    if c.atEnd || startsAlias c.token then c
    else if c.sees .semicolon then c.advance
    else skipToItem fuel c.advance

/-- The items from a cursor on and the errors between them. -/
def itemsFrom : Nat → Cursor → List Item × List SyntaxError
  | 0, _ => ([], [])
  | fuel + 1, c =>
    if c.atEnd then ([], [])
    else
      match item.run.run c with
      | (.ok i, c) =>
        let (items, errors) := itemsFrom fuel c
        (i :: items, errors)
      | (.error e, c) =>
        let (items, errors) := itemsFrom fuel (skipToItem (c.rest.length + 1) c)
        (items, e :: errors)

/-- The case file that some tokens spell, or all errors. -/
def parseTokens (tokens : List LocatedToken) : Except (List SyntaxError) CaseFile :=
  match itemsFrom (tokens.length + 1) (Cursor.ofTokens tokens) with
  | (items, []) => .ok ⟨items⟩
  | (_, errors) => .error errors

/-- The case file that a text spells, or all errors. -/
def parseCaseFile (source : String) : Except (List SyntaxError) CaseFile :=
  match tokenize source with
  | .error errors => .error (errors.map SyntaxError.ofLexError)
  | .ok tokens => parseTokens tokens

/-- The answers of reading a type expression from tokens several times in a row, each from where
the last one stopped. -/
def parseTypes (tokens : List LocatedToken) (count : Nat) : List (Except SyntaxError TypeExpr) :=
  let rec go : Nat → Cursor → List (Except SyntaxError TypeExpr)
    | 0, _ => []
    | n + 1, c =>
      let (answer, c) := typeExpr.run.run c
      answer :: go n c
  go count (Cursor.ofTokens tokens)

end TypeAssay
