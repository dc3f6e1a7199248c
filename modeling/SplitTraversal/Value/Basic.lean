import SplitTraversal.Fault
import SplitTraversal.Number.Decimal

/-! Values that sources hand out and that operations may throw, and the equalities between them.
Dates, symbols, functions, arrays and objects have an identity of their own, by which they are the
same or not whatever they contain. -/

namespace SplitTraversal

/-- A value of dynamic kind. Lists that the library makes itself have identity 0. A date without
time is an invalid date. -/
inductive Value where
  | undefined
  | null
  | boolean (value : Bool)
  | number (value : Number)
  | string (value : String)
  | bigint (value : Int)
  | symbol (description : String) (identity : Nat)
  | date (time : Option Int) (identity : Nat)
  | function (identity : Nat)
  | array (items : List Value) (identity : Nat)
  | object (fields : List (String × Value)) (identity : Nat)
  | fault (value : Fault)
deriving Inhabited

/-- Anything can be thrown, errors and plain values alike. -/
abbrev Thrown := Value

namespace Value

def int (i : Int) : Value := .number (.integer i)
def list (items : List Value) : Value := .array items 0

/-- The date at a time in milliseconds, cut to whole ones. There are dates for a hundred million days
before and after the start of 1970. -/
def dateAt (time : Number) (identity : Nat) : Value :=
  .date (time.truncated?.filter (·.natAbs ≤ 8640000000000000)) identity

def violation (cause : Violation) : Thrown := .fault (.violation cause)
def misuse (cause : Misuse) : Thrown := .fault (.misuse cause)

def isNullish : Value → Bool
  | .undefined | .null => true
  | _ => false

def isUndefined : Value → Bool
  | .undefined => true
  | _ => false

def isFunction : Value → Bool
  | .function _ => true
  | _ => false

def typeName : Value → String
  | .undefined => "undefined"
  | .null | .date .. | .array .. | .object .. | .fault _ => "object"
  | .boolean _ => "boolean"
  | .number _ => "number"
  | .string _ => "string"
  | .bigint _ => "bigint"
  | .symbol .. => "symbol"
  | .function _ => "function"

/-- Strict equality: numbers by value with NaN equal to nothing, identities where there are any. -/
def strictEquals : Value → Value → Bool
  | .undefined, .undefined => true
  | .null, .null => true
  | .boolean a, .boolean b => a == b
  | .number a, .number b => a.same b
  | .string a, .string b => a == b
  | .bigint a, .bigint b => a == b
  | .symbol _ a, .symbol _ b => a == b
  | .date _ a, .date _ b => a == b
  | .function a, .function b => a == b
  | .array _ a, .array _ b => a == b
  | .object _ a, .object _ b => a == b
  | .fault a, .fault b => a == b
  | _, _ => false

/-- Strict equality, except that NaN equals itself. -/
def sameValueZero (a b : Value) : Bool :=
  match a, b with
  | .number x, .number y => x.same y || (x.isNaN && y.isNaN)
  | _, _ => a.strictEquals b

mutual
/-- Equal in kind and content, identity left aside; the two zeros differ. -/
def alike : Value → Value → Bool
  | .undefined, .undefined => true
  | .null, .null => true
  | .boolean a, .boolean b => a == b
  | .number a, .number b => a == b
  | .string a, .string b => a == b
  | .bigint a, .bigint b => a == b
  | .symbol a _, .symbol b _ => a == b
  | .date a _, .date b _ => a == b
  | .function _, .function _ => true
  | .array a _, .array b _ => alikeItems a b
  | .object a _, .object b _ => alikeFields a b
  | .fault a, .fault b => a == b
  | _, _ => false

def alikeItems : List Value → List Value → Bool
  | [], [] => true
  | a :: as, b :: bs => alike a b && alikeItems as bs
  | _, _ => false

def alikeFields : List (String × Value) → List (String × Value) → Bool
  | [], [] => true
  | (k, a) :: as, (l, b) :: bs => k == l && alike a b && alikeFields as bs
  | _, _ => false
end

/-- The whole number that a value is, when it is a number of at most `maxSafe` in size. -/
def safeInteger? : Value → Option Int
  | .number n => n.safeInteger?
  | _ => none

def thrownName : Thrown → String
  | .fault f => f.name
  | v => v.typeName

end Value
end SplitTraversal
