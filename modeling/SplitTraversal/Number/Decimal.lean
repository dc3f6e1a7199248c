import SplitTraversal.Number.Basic

/-! The decimal text of a number: the fewest digits that read back as the number, positional from
`1e-6` up to `1e21` and scientific beyond. -/

namespace SplitTraversal

structure Decimal where
  digits : Nat
  exponent : Int
deriving DecidableEq, Repr

namespace Decimal

/-- The reals that round to one binary64 value, as numerators over one denominator. -/
structure Interval where
  low : Nat
  value : Nat
  high : Nat
  denominator : Nat
  closed : Bool

/-- The interval around `m·2^e`. Below a power of two the next value is half as far away. The ends
round to an even mantissa. -/
def interval (m : Nat) (e : Int) : Interval :=
  let scale := 1 <<< (e - 2).toNat
  let below := if m = 0x10000000000000 ∧ -1074 < e then 4 * m - 1 else 4 * m - 2
  ⟨below * scale, 4 * m * scale, (4 * m + 2) * scale, 1 <<< (2 - e).toNat, m % 2 = 0⟩

namespace Interval

def holds (i : Interval) (numerator : Nat) : Bool :=
  if i.closed then i.low ≤ numerator && numerator ≤ i.high
  else i.low < numerator && numerator < i.high

/-- The multiple of `10^unit` in the interval that is nearest to the value; of two equally near
ones the even. Only the two neighbours of the value can be nearest. -/
def nearest? (i : Interval) (unit : Int) : Option Nat :=
  let scale := Nat.pow 10 (-unit).toNat
  let i : Interval := ⟨i.low * scale, i.value * scale, i.high * scale, i.denominator, i.closed⟩
  let step := Nat.pow 10 unit.toNat * i.denominator
  let t := i.value / step
  match i.holds (t * step), i.holds ((t + 1) * step) with
  | true, true =>
    let below := i.value - t * step
    let above := (t + 1) * step - i.value
    some (if below < above then t else if above < below then t + 1
      else if t % 2 = 0 then t else t + 1)
  | true, false => some t
  | false, true => some (t + 1)
  | false, false => none

/-- How often the value has to be multiplied by ten to reach one. -/
def leadingZeros (i : Interval) : Nat → Nat → Nat
  | 0, _ => 0
  | fuel + 1, value =>
    if i.denominator ≤ value then 0 else leadingZeros i fuel (value * 10) + 1

/-- The position of the point: the value lies in `[10^(point-1), 10^point)`. -/
def point (i : Interval) : Int :=
  if i.denominator ≤ i.value then (Nat.toDigits 10 (i.value / i.denominator)).length
  else 1 - (i.leadingZeros 400 i.value : Int)

end Interval

def dropZeros : Nat → Decimal → Decimal
  | 0, d => d
  | fuel + 1, d =>
    if d.digits ≠ 0 ∧ d.digits % 10 = 0 then dropZeros fuel ⟨d.digits / 10, d.exponent + 1⟩ else d

/-- The decimal with the fewest digits in the interval around `m·2^e`, and of those the nearest. -/
def shortest (m : Nat) (e : Int) : Decimal :=
  let i := interval m e
  let point := i.point
  let found := (List.range 17).findSome? fun k =>
    (i.nearest? (point - (k + 1 : Nat))).map fun t => (⟨t, point - (k + 1 : Nat)⟩ : Decimal)
  dropZeros 20 (found.getD ⟨0, 0⟩)

def zeros (n : Nat) : String := String.ofList (List.replicate n '0')

def text (d : Decimal) : String :=
  let digits := Nat.toDigits 10 d.digits
  let count := digits.length
  let point := d.exponent + count
  if count ≤ point ∧ point ≤ 21 then
    String.ofList digits ++ zeros (point - count).toNat
  else if 0 < point ∧ point ≤ 21 then
    String.ofList (digits.take point.toNat) ++ "." ++ String.ofList (digits.drop point.toNat)
  else if -6 < point ∧ point ≤ 0 then
    "0." ++ zeros (-point).toNat ++ String.ofList digits
  else
    let exponent := point - 1
    let sign := if exponent < 0 then "-" else "+"
    let fraction := if count = 1 then "" else "." ++ String.ofList (digits.drop 1)
    String.ofList (digits.take 1) ++ fraction ++ "e" ++ sign ++ toString exponent.natAbs

end Decimal

namespace Number

def text (n : Number) : String :=
  match n with
  | .integer i => if i.natAbs ≤ maxSafe then toString i else shown n.shape
  | .double _ => shown n.shape
where
  shown : Shape → String
    | .nan => "NaN"
    | .infinite negative => (if negative then "-" else "") ++ "Infinity"
    | .finite negative m e =>
      if m = 0 then "0"
      else (if negative then "-" else "") ++ (Decimal.shortest m e).text

end Number
end SplitTraversal
