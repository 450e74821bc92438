import TypeAssay.Relation.Extends
import TypeAssay.Relation.Assertion

/-!
# The catalog of relations

Every relation that a case file can name, with the text that documents it.
-/

namespace TypeAssay

/-! ## Operators -/

/-- What a category predicate asks about a type. -/
inductive Category where
  | never
  | any
  | unknown
  | union
  | tuple
deriving DecidableEq, Repr

/-- What a comparison asks about two types. -/
inductive Comparison where
  | equal
  | notEqual
  | simpleEqual
  | extending
deriving DecidableEq, Repr

/-- What a declaration computes. Assertions and batches name the literal that they demand. -/
inductive Operator where
  | category (c : Category)
  | comparison (c : Comparison)
  | assertion (target : Bool)
  | batch (target : Bool)
deriving DecidableEq, Repr

/-- The number of type arguments. -/
def Operator.arity : Operator → Nat
  | comparison _ => 2
  | _ => 1

/-- Evaluates a category predicate. -/
def Category.holds (T : TypeTable) (i : TypeId) : Category → Outcome
  | never => T.isNever i
  | any => T.isAny i
  | unknown => T.isUnknown i
  | union => T.isUnionType i
  | tuple => T.isTuple i

/-- Evaluates a comparison. -/
def Comparison.compare (a b : TypeId) : Comparison → Building Outcome
  | Comparison.equal => TypeAssay.equal a b
  | notEqual => TypeAssay.notEqual a b
  | simpleEqual => do return (← get).simpleEqual a b
  | extending => do return (← get).extendsType a b

/-! ## Declarations -/

/-- A relation that a case file can name. -/
structure Declaration where
  name : String
  operator : Operator
  /-- Whether the answer may be `never` or `boolean`. -/
  hazardous : Bool
  description : String
deriving Repr

/-- The text with these lines. -/
def lines (ls : List String) : String := "\n".intercalate ls

/-- All declarations, in the order of the documentation. -/
def declarations : List Declaration := [
  { name := "Equal"
    operator := .comparison .equal
    hazardous := false
    description := lines [
      "`true` iff both arguments resolve to exactly the same type; always a strict " ++
        "boolean.",
      "",
      "Every other assertion is built on it."] },
  { name := "NotEqual"
    operator := .comparison .notEqual
    hazardous := false
    description := lines [
      "The opposite of `Equal`: returns `false` if the two inputs are equal."] },
  { name := "SimpleEqual"
    operator := .comparison .simpleEqual
    hazardous := true
    description := lines [
      "Mutual `Extends`: `A extends B ? (B extends A ? true : false) : false`.",
      "",
      "Hazardous; prefer `Equal` for a strict answer. Distribution means it can return " ++
        "`boolean` (both paths) or `never` (no path):",
      "",
      "```ts",
      "SimpleEqual<1 & 2, never> //=> never (`Equal` returns `true`)",
      "SimpleEqual<never, 1> //=> never (`Equal` returns `false`)",
      "SimpleEqual<boolean, boolean> //=> boolean (`Equal` returns `true`)",
      "SimpleEqual<true, boolean> //=> boolean (`Equal` returns `false`)",
      "SimpleEqual<1 | 2, 1> //=> boolean (`Equal` returns `false`)",
      "```"] },
  { name := "Extends"
    operator := .comparison .extending
    hazardous := true
    description := lines [
      "`A extends B ? true : false`, with every quirk of the raw test left visible.",
      "",
      "Hazardous; prefer `Equal` for a strict answer. Distribution means it can return " ++
        "`boolean` (both paths) or `never` (no path):",
      "",
      "```ts",
      "Extends<1 & 2, never> //=> never",
      "Extends<never, never> //=> never",
      "Extends<any, never> //=> boolean",
      "Extends<1 | 2, 1> //=> boolean",
      "Extends<boolean, true> //=> boolean",
      "Extends<[], unknown[]> //=> true",
      "Extends<unknown[], []> //=> false",
      "Extends<\x7b\x7d, unknown> //=> true",
      "Extends<unknown, \x7b\x7d> //=> false",
      "```"] },
  { name := "IsNever"
    operator := .category .never
    hazardous := false
    description := lines [
      "`true` for `never` (including intersections that collapse to it, such as `string " ++
        "& number`), `false` for everything else, `never | string` included."] },
  { name := "IsAny"
    operator := .category .any
    hazardous := false
    description := lines [
      "`true` only for `any`.",
      "",
      "Unions with `any` resolve to `any`, so `IsAny<string | any>` returns `true`."] },
  { name := "IsUnknown"
    operator := .category .unknown
    hazardous := false
    description := lines [
      "Returns `true` for `unknown` and for anything that resolves to it (`never | " ++
        "unknown`, `\x7b\x7d | unknown`).",
      "",
      "Returns `false` for everything else, including `any | unknown` (which resolves to " ++
        "`any`)."] },
  { name := "IsUnion"
    operator := .category .union
    hazardous := false
    description := lines [
      "`true` when the argument resolves to two or more alternatives.",
      "",
      "`IsUnion<boolean>` is `true`. `string | never`, `string | unknown`, `string | " ++
        "any`, `string | 'a'` and `never` all resolve to a non-union and return `false`."] },
  { name := "IsTuple"
    operator := .category .tuple
    hazardous := false
    description := lines [
      "`true` for fixed-length sequences:",
      "",
      "```ts",
      "IsTuple<[]>;",
      "IsTuple<[number]>;",
      "IsTuple<readonly [1]>;",
      "```",
      "",
      "`\x7b length: 1 \x7d`, `number[]` and `never` return `false`."] },
  { name := "Expect"
    operator := .assertion true
    hazardous := false
    description := lines [
      "Static assertion that its argument is the literal `true`.",
      "",
      "`Expect<true>` does not error and returns `true`. All other inputs error, except " ++
        "`never`, which returns `false`."] },
  { name := "ExpectFalse"
    operator := .assertion false
    hazardous := false
    description := lines [
      "Static assertion that its argument is the literal `false` (or `never`).",
      "",
      "`true`, `boolean`, `1 | false`, `'false'`, `''`, `0`, `undefined`, `null` and " ++
        "`unknown` all error."] },
  { name := "TrueCases"
    operator := .batch true
    hazardous := false
    description := lines [
      "Tests many cases at once: errors unless every element of the tuple is `true`.",
      "",
      "```ts",
      "type T = TrueCases<[",
      "  IsUnion<string | number>,",
      "  IsUnion<'a' | 'b'>,",
      "]>;",
      "```",
      "",
      "The error names the whole tuple rather than the failing case; use `Expect` per " ++
        "case when that matters."] },
  { name := "FalseCases"
    operator := .batch false
    hazardous := false
    description := lines [
      "Tests many cases at once: errors unless every element of the tuple is `false`.",
      "",
      "```ts",
      "type F = FalseCases<[",
      "  IsNever<''>,",
      "  IsNever<undefined>,",
      "]>;",
      "```",
      "",
      "The error names the whole tuple rather than the failing case; use `ExpectFalse` " ++
        "per case when that matters."] }]

/-- The declaration with a name. -/
def declaration? (name : String) : Option Declaration := declarations.find? (·.name == name)

end TypeAssay
