/-! Numbers as sources and collections report them: whole numbers exactly, and binary64 values for
all others. Comparison goes through one integer `key`, so every order fact is a fact about
integers. -/

namespace SplitTraversal

/-- A whole number, or the bits of a binary64 value. Whole numbers of at most `maxSafe` in size are
kept as `integer`; zero with a minus sign, fractions, infinities and NaN are kept as bits. -/
inductive Number where
  | integer (value : Int)
  | double (bits : UInt64)
deriving DecidableEq, Repr, Inhabited

namespace Number

/-- Sign, mantissa and exponent: a finite shape stands for `±mantissa·2^exponent`. -/
inductive Shape where
  | nan
  | infinite (negative : Bool)
  | finite (negative : Bool) (mantissa : Nat) (exponent : Int)
deriving DecidableEq, Repr

/-- The largest whole number below which every whole number is a binary64 value, `2^53 - 1`. -/
def maxSafe : Nat := 0x1fffffffffffff

def minusZero : Number := .double 0x8000000000000000
def nan : Number := .double 0x7ff8000000000000
def infinity (negative : Bool) : Number :=
  .double (if negative then 0xfff0000000000000 else 0x7ff0000000000000)

def decode (bits : UInt64) : Shape :=
  let negative := bits >>> 63 == 1
  let exponent := ((bits >>> 52) &&& 0x7ff).toNat
  let fraction := (bits &&& 0xfffffffffffff).toNat
  if exponent = 2047 then
    if fraction = 0 then .infinite negative else .nan
  else if exponent = 0 then .finite negative fraction (-1074)
  else .finite negative (fraction + 0x10000000000000) ((exponent : Int) - 1075)

def shape : Number → Shape
  | .integer i => .finite (decide (i < 0)) i.natAbs 0
  | .double bits => decode bits

def isNaN (n : Number) : Bool := n.shape == .nan

def isMinusZero (n : Number) : Bool := n == minusZero

/-- The exponent that every binary64 value is a multiple of. -/
def keyExponent : Nat := 1074

def keyScale : Int := (1 <<< keyExponent : Nat)

def signed (negative : Bool) (size : Nat) : Int := if negative then -(size : Int) else size

/-- The value times `2^1074`, which is whole for every finite number. Infinities lie beyond all
finite binary64 values. NaN has no key. -/
def key : Number → Option Int
  | .integer i => some (i * keyScale)
  | .double bits =>
    match decode bits with
    | .nan => none
    | .infinite negative => some (signed negative (1 <<< 2100))
    | .finite negative m e => some (signed negative (m <<< (e + keyExponent).toNat))

/-- Numeric equality: both zeros are equal, NaN equals nothing. -/
def same : Number → Number → Bool
  | .integer x, .integer y => x == y
  | x, y =>
    match x.key, y.key with
    | some a, some b => a == b
    | _, _ => false

/-- Numeric order: false whenever one side is NaN. -/
def lt : Number → Number → Bool
  | .integer x, .integer y => x < y
  | x, y =>
    match x.key, y.key with
    | some a, some b => a < b
    | _, _ => false

def le (x y : Number) : Bool := x.lt y || x.same y

theorem scale_pos : 0 < keyScale := by
  rw [keyScale, Nat.one_shiftLeft]
  exact Int.natCast_pos.mpr (Nat.two_pow_pos keyExponent)

theorem same_iff {x y : Number} : x.same y = true ↔ ∃ a, x.key = some a ∧ y.key = some a := by
  have general : ∀ u v : Option Int,
      ((match u, v with | some a, some b => a == b | _, _ => false) = true) ↔
        ∃ a, u = some a ∧ v = some a := by
    intro u v
    cases u with
    | none => simp
    | some a => cases v with
      | none => simp
      | some b => simpa using eq_comm
  cases x with
  | integer i =>
    cases y with
    | integer j =>
      simp only [same, key, beq_iff_eq, Option.some.injEq]
      constructor
      · rintro rfl; exact ⟨_, rfl, rfl⟩
      · rintro ⟨a, h₁, h₂⟩
        exact Int.eq_of_mul_eq_mul_right (Int.ne_of_gt scale_pos) (h₁.trans h₂.symm)
    | double b => simpa only [same] using general _ _
  | double b => simpa only [same] using general _ _

theorem lt_iff {x y : Number} :
    x.lt y = true ↔ ∃ a b, x.key = some a ∧ y.key = some b ∧ a < b := by
  have general : ∀ u v : Option Int,
      ((match u, v with | some a, some b => decide (a < b) | _, _ => false) = true) ↔
        ∃ a b, u = some a ∧ v = some b ∧ a < b := by
    intro u v
    cases u <;> cases v <;> simp
  cases x with
  | integer i =>
    cases y with
    | integer j =>
      simp only [lt, key, decide_eq_true_eq, Option.some.injEq]
      constructor
      · intro h; exact ⟨_, _, rfl, rfl, Int.mul_lt_mul_of_pos_right h scale_pos⟩
      · rintro ⟨a, b, rfl, rfl, h⟩
        exact Int.lt_of_mul_lt_mul_right h (Int.le_of_lt scale_pos)
    | double b => simpa only [lt] using general _ _
  | double b => simpa only [lt] using general _ _

def Shape.whole? : Shape → Option Int
  | .finite negative m e =>
    if 0 ≤ e then some (signed negative (m <<< e.toNat))
    else if (m >>> (-e).toNat) <<< (-e).toNat = m then some (signed negative (m >>> (-e).toNat))
    else none
  | _ => none

def ofBits (bits : UInt64) : Number :=
  match decode bits with
  | .nan => nan
  | s =>
    match s.whole? with
    | some i =>
      if i.natAbs ≤ maxSafe ∧ bits ≠ 0x8000000000000000 then .integer i else .double bits
    | none => .double bits

def ofFloat (x : Float) : Number := ofBits x.toBits

def toFloat : Number → Float
  | .integer i => Float.ofInt i
  | .double bits => Float.ofBits bits

/-- A whole number, rounded to binary64 where it is too large to be kept exactly. -/
def ofInt (i : Int) : Number :=
  if i.natAbs ≤ maxSafe then .integer i else ofFloat (Float.ofInt i)

def safeInteger? (n : Number) : Option Int :=
  match n.shape.whole? with
  | some i => if i.natAbs ≤ maxSafe then some i else none
  | none => none

def abs : Number → Number
  | .integer i => .integer i.natAbs
  | .double bits => ofBits (bits &&& 0x7fffffffffffffff)

def add : Number → Number → Number
  | .integer x, .integer y => ofInt (x + y)
  | x, y => ofFloat (x.toFloat + y.toFloat)

def sub : Number → Number → Number
  | .integer x, .integer y => ofInt (x - y)
  | x, y => ofFloat (x.toFloat - y.toFloat)

def mul : Number → Number → Number
  | .integer x, .integer y =>
    if x * y = 0 ∧ (x < 0 ∨ y < 0) then minusZero else ofInt (x * y)
  | x, y => ofFloat (x.toFloat * y.toFloat)

/-- The binary64 value `k·2^-1074`, for a `k` that stands for one exactly. -/
def ofKey (k : Int) : Number :=
  let size := k.natAbs
  let shift := size.log2 - 52
  let x := Float.scaleB (Float.ofNat (size >>> shift)) ((shift : Int) - keyExponent)
  ofFloat (if k < 0 then -x else x)

def rem (x y : Number) : Number :=
  match x.shape, y.shape with
  | .finite _ _ _, .infinite _ => x
  | .finite negative _ _, .finite _ m _ =>
    if m = 0 then nan
    else
      match x.key, y.key with
      | some a, some b =>
        let r := a.tmod b
        if r = 0 then (if negative then minusZero else .integer 0) else ofKey r
      | _, _ => nan
  | _, _ => nan

def truncated? : Number → Option Int
  | .integer i => some i
  | .double bits =>
    match decode bits with
    | .finite negative m e =>
      some (signed negative (if 0 ≤ e then m <<< e.toNat else m >>> (-e).toNat))
    | _ => none

/-- The 32 bits of a number: truncated toward zero and taken modulo `2^32`; 0 for NaN and
infinities. -/
def toBits32 (n : Number) : BitVec 32 :=
  match n.truncated? with
  | some i => (Int32.ofInt i).toBitVec
  | none => 0

end Number
end SplitTraversal
