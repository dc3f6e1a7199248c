import Mathlib.Data.Setoid.Basic
import SplitTraversal.Value.Basic

/-! Being the same value, NaN included, is an equivalence relation on all values: each value has an
identity, and two are the same just where these are equal. -/

namespace SplitTraversal

namespace Number

theorem isNaN_iff {n : Number} : n.isNaN = true ↔ n.key = none := by
  cases n with
  | integer i => simp [isNaN, shape, key]
  | double bits =>
    rw [isNaN, shape, key, beq_iff_eq]
    cases decode bits with
    | nan => exact iff_of_true rfl rfl
    | infinite negative => simp
    | finite negative mantissa exponent => simp

theorem same_or_isNaN_iff {x y : Number} :
    (x.same y || (x.isNaN && y.isNaN)) = true ↔ x.key = y.key := by
  rw [Bool.or_eq_true, Bool.and_eq_true, same_iff, isNaN_iff, isNaN_iff]
  cases x.key with
  | none => simp [eq_comm]
  | some a => simp [eq_comm]

end Number

namespace Value

/-- What a value is told apart by. Zero is zero with either sign, and NaN is one value. -/
inductive Identity where
  | undefined
  | null
  | boolean (value : Bool)
  | number (key : Option Int)
  | string (value : String)
  | bigint (value : Int)
  | symbol (identity : Nat)
  | date (identity : Nat)
  | function (identity : Nat)
  | array (identity : Nat)
  | object (identity : Nat)
  | fault (value : Fault)

def identity : Value → Identity
  | .undefined => .undefined
  | .null => .null
  | .boolean b => .boolean b
  | .number n => .number n.key
  | .string s => .string s
  | .bigint i => .bigint i
  | .symbol _ id => .symbol id
  | .date _ id => .date id
  | .function id => .function id
  | .array _ id => .array id
  | .object _ id => .object id
  | .fault f => .fault f

theorem sameValueZero_iff {a b : Value} :
    a.sameValueZero b = true ↔ a.identity = b.identity := by
  cases a with
  | number x =>
    cases b with
    | number y =>
      rw [identity, identity, Identity.number.injEq]
      exact Number.same_or_isNaN_iff
    | _ => simp [sameValueZero, strictEquals, identity]
  | _ => cases b <;> simp [sameValueZero, strictEquals, identity]

theorem sameValueZero_self (v : Value) : v.sameValueZero v = true := sameValueZero_iff.mpr rfl

def sameness : Setoid Value := Setoid.ker identity

theorem sameValueZero_iff_sameness (a b : Value) : a.sameValueZero b = true ↔ sameness a b :=
  sameValueZero_iff

end Value
end SplitTraversal
