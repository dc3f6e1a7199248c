import SplitTraversal.Number.Basic

/-! Numerals: the numbers that texts stand for. Blanks around a numeral do not count, the empty text
stands for zero, and digits of base 16, 8 or 2 follow a mark and have no sign. -/

namespace SplitTraversal
namespace Numeral

def isBlank (c : Char) : Bool :=
  let n := c.toNat
  (9 ≤ n && n ≤ 13) || n == 0x20 || n == 0xa0 || n == 0x1680 || (0x2000 ≤ n && n ≤ 0x200a) ||
    n == 0x2028 || n == 0x2029 || n == 0x202f || n == 0x205f || n == 0x3000 || n == 0xfeff

def trim (cs : List Char) : List Char :=
  ((cs.dropWhile isBlank).reverse.dropWhile isBlank).reverse

def digit? (base : Nat) (c : Char) : Option Nat :=
  let value :=
    if '0' ≤ c ∧ c ≤ '9' then some (c.toNat - '0'.toNat)
    else if 'a' ≤ c ∧ c ≤ 'f' then some (c.toNat - 'a'.toNat + 10)
    else if 'A' ≤ c ∧ c ≤ 'F' then some (c.toNat - 'A'.toNat + 10)
    else none
  value.filter (· < base)

def run? (base : Nat) (cs : List Char) : Option Nat :=
  cs.foldlM (fun acc c => (digit? base c).map (base * acc + ·)) 0

def digits? (base : Nat) (cs : List Char) : Option Nat :=
  if cs.isEmpty then none else run? base cs

def marked? : List Char → Option Nat
  | '0' :: mark :: cs =>
    if mark = 'x' ∨ mark = 'X' then digits? 16 cs
    else if mark = 'o' ∨ mark = 'O' then digits? 8 cs
    else if mark = 'b' ∨ mark = 'B' then digits? 2 cs
    else none
  | _ => none

def signed? : List Char → Option Int
  | '-' :: cs => (digits? 10 cs).map fun n => -(n : Int)
  | '+' :: cs => (digits? 10 cs).map Int.ofNat
  | cs => (digits? 10 cs).map Int.ofNat

/-- The number nearest to `m·10^e`. Far beyond the largest and the least number the exact power is
not needed. -/
def scaled (m : Nat) (e : Int) : Float :=
  if m = 0 then 0
  else if 400 < e then Float.ofBits 0x7ff0000000000000
  else if e + (Nat.toDigits 10 m).length < -400 then 0
  else Float.ofScientific m (e < 0) e.natAbs

def decimal? (cs : List Char) : Option Float := do
  let mantissa := cs.takeWhile fun c => c != 'e' && c != 'E'
  let whole := mantissa.takeWhile (· != '.')
  let fraction := (mantissa.drop whole.length).drop 1
  let power ← match cs.drop mantissa.length with
    | [] => some 0
    | _ :: rest => signed? rest
  let m ← digits? 10 (whole ++ fraction)
  some (scaled m (power - fraction.length))

def unsigned? (cs : List Char) : Option Float :=
  if cs = "Infinity".toList then some (Float.ofBits 0x7ff0000000000000) else decimal? cs

def number? (s : String) : Option Number :=
  match trim s.toList with
  | [] => some (.integer 0)
  | '-' :: cs => (unsigned? cs).map fun x => .ofFloat (-x)
  | '+' :: cs => (unsigned? cs).map .ofFloat
  | cs =>
    match marked? cs with
    | some n => some (.ofInt n)
    | none => (unsigned? cs).map .ofFloat

def bigint? (s : String) : Option Int :=
  match trim s.toList with
  | [] => some 0
  | cs => (marked? cs).map Int.ofNat <|> signed? cs

end Numeral
end SplitTraversal
