import TypeAssay.Number.Binary64
import TypeAssay.CaseFile.Span

/-!
# Case files

A case file is a list of items: aliases, which name the value of a type expression, and bare
expressions. Every part carries the span it was read from. Parentheses leave no trace but the span.
-/

namespace TypeAssay

mutual

/-- A type expression. -/
inductive TypeExpr where
  /-- The name of a type or an alias, or a relation with its arguments. -/
  | named (name : String) (args : List TypeExpr) (span : Span)
  | number (value : Binary64) (span : Span)
  | bigint (digits : String) (span : Span)
  | string (value : String) (span : Span)
  | union (members : List TypeExpr) (span : Span)
  | intersection (members : List TypeExpr) (span : Span)
  | array (element : TypeExpr) (readonly : Bool) (span : Span)
  | tuple (elements : List TypeExpr) (readonly : Bool) (span : Span)
  | object (properties : List PropertyExpr) (span : Span)

/-- A property of an object type expression. -/
inductive PropertyExpr where
  | mk (name : String) (type : TypeExpr) (optional readonly : Bool) (span : Span)

end

namespace TypeExpr

/-- Where an expression stands. -/
def span : TypeExpr → Span
  | named _ _ s | number _ s | bigint _ s | string _ s | union _ s | intersection _ s
  | array _ _ s | tuple _ _ s | object _ s => s

/-- The same expression at another place; its parts stay where they are. -/
def withSpan (s : Span) : TypeExpr → TypeExpr
  | named name args _ => named name args s
  | number value _ => number value s
  | bigint digits _ => bigint digits s
  | string value _ => string value s
  | union members _ => union members s
  | intersection members _ => intersection members s
  | array element readonly _ => array element readonly s
  | tuple elements readonly _ => tuple elements readonly s
  | object properties _ => object properties s

/-- An expression has the span that it is given. -/
@[simp]
theorem span_withSpan (s : Span) (e : TypeExpr) : (e.withSpan s).span = s := by cases e <;> rfl

/-- A placeholder expression. -/
instance : Inhabited TypeExpr := ⟨named "" [] default⟩

end TypeExpr

namespace PropertyExpr

def name : PropertyExpr → String
  | mk n _ _ _ _ => n

def type : PropertyExpr → TypeExpr
  | mk _ t _ _ _ => t

def optional : PropertyExpr → Bool
  | mk _ _ o _ _ => o

def readonly : PropertyExpr → Bool
  | mk _ _ _ r _ => r

def span : PropertyExpr → Span
  | mk _ _ _ _ s => s

end PropertyExpr

/-- The declaration of an alias. -/
structure AliasDecl where
  name : String
  nameSpan : Span
  exported : Bool
  value : TypeExpr
  span : Span

/-- An item of a case file. -/
inductive Item where
  | alias (decl : AliasDecl)
  | expr (e : TypeExpr)

/-- The items of a case file, in the order of its text. -/
structure CaseFile where
  items : List Item

end TypeAssay
