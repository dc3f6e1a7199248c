import SplitTraversal.Number.Numeral
import SplitTraversal.Value.Text

/-! Arithmetic and comparison of values. Numbers and bigints are worked on as they are, but not with
each other; every other value stands for a number, for a text, or for neither. -/

namespace SplitTraversal

inductive Numeric where
  | number (value : Number)
  | bigint (value : Int)
deriving DecidableEq, Repr

def Numeric.value : Numeric → Value
  | .number n => .number n
  | .bigint i => .bigint i

namespace Value

/-- The number of a plain value. Texts that are no numerals are NaN. -/
def plainNumeric : Value → Except Thrown Numeric
  | .number n => .ok (.number n)
  | .bigint i => .ok (.bigint i)
  | .null => .ok (.number (.integer 0))
  | .boolean b => .ok (.number (.integer b.toInt))
  | .string s => .ok (.number ((Numeral.number? s).getD .nan))
  | .symbol .. => .error (misuse .numberOfSymbol)
  | _ => .ok (.number .nan)

def toNumeric (v : Value) : Except Thrown Numeric :=
  match v.primitive .number with
  | .ok p => p.plainNumeric
  | .error e => .error e

def toNumber (v : Value) : Except Thrown Number :=
  match v.toNumeric with
  | .ok (.number n) => .ok n
  | .ok (.bigint _) => .error (misuse .numberOfBigint)
  | .error e => .error e

/-- Two values as numbers or as bigints, the left one looked at first. -/
def numerics (a b : Value) : Except Thrown (Number × Number ⊕ Int × Int) :=
  match a.toNumeric with
  | .error e => .error e
  | .ok x =>
    match b.toNumeric with
    | .error e => .error e
    | .ok y =>
      match x, y with
      | .number m, .number n => .ok (.inl (m, n))
      | .bigint i, .bigint j => .ok (.inr (i, j))
      | _, _ => .error (misuse .mixedBigint)

def sub (a b : Value) : Except Thrown Value :=
  match numerics a b with
  | .ok (.inl (m, n)) => .ok (.number (m.sub n))
  | .ok (.inr (i, j)) => .ok (.bigint (i - j))
  | .error e => .error e

def rem (a b : Value) : Except Thrown Value :=
  match numerics a b with
  | .ok (.inl (m, n)) => .ok (.number (m.rem n))
  | .ok (.inr (i, j)) =>
    if j = 0 then .error (misuse .divisionByZero) else .ok (.bigint (i.tmod j))
  | .error e => .error e

def abs (v : Value) : Except Thrown Value := v.toNumber.map fun n => .number n.abs

def add (a b : Value) : Except Thrown Value :=
  match a.primitive .sum with
  | .error e => .error e
  | .ok x =>
    match b.primitive .sum with
    | .error e => .error e
    | .ok y =>
      if x.typeName = "string" ∨ y.typeName = "string" then
        match x.plainText with
        | .error e => .error e
        | .ok s => y.plainText.map fun t => .string (s ++ t)
      else
        match numerics x y with
        | .ok (.inl (m, n)) => .ok (.number (m.add n))
        | .ok (.inr (i, j)) => .ok (.bigint (i + j))
        | .error e => .error e

def orderOfNumbers (m n : Number) : Option Ordering :=
  if m.lt n then some .lt
  else if n.lt m then some .gt
  else if m.same n then some .eq
  else none

/-- The number that a bigint or any other value has in a comparison, in which numbers and bigints
meet by value. Bigints beyond all finite numbers need not be told apart, but stay below infinity. -/
def magnitude : Numeric → Number
  | .number n => n
  | .bigint i => .integer (max (-(1 <<< 1025 : Nat)) (min i (1 <<< 1025 : Nat)))

/-- A bigint meets a text as a whole number of any size. -/
def plainOrder : Value → Value → Except Thrown (Option Ordering)
  | .number m, .number n => .ok (orderOfNumbers m n)
  | .string s, .string t =>
    .ok (some (if Text.before s t then .lt else if Text.before t s then .gt else .eq))
  | .bigint i, .bigint j => .ok (some (compare i j))
  | .bigint i, .string s => .ok ((Numeral.bigint? s).map (compare i))
  | .string s, .bigint i => .ok ((Numeral.bigint? s).map (compare · i))
  | a, b =>
    match a.plainNumeric with
    | .error e => .error e
    | .ok x =>
      match b.plainNumeric with
      | .ok y => .ok (orderOfNumbers (magnitude x) (magnitude y))
      | .error e => .error e

/-- How two values compare: texts as texts, all else by number; none where a number is NaN. -/
def order? (a b : Value) : Except Thrown (Option Ordering) :=
  match a.primitive .number with
  | .error e => .error e
  | .ok x =>
    match b.primitive .number with
    | .ok y => plainOrder x y
    | .error e => .error e

def isLess (a b : Value) : Except Thrown Bool := (a.order? b).map (· == some .lt)

def isAtMost (a b : Value) : Except Thrown Bool :=
  (a.order? b).map fun o => o == some .lt || o == some .eq

@[simp] theorem order?_number (m n : Number) :
    (Value.number m).order? (.number n) = .ok (orderOfNumbers m n) := rfl

@[simp] theorem isLess_int (i j : Int) : (int i).isLess (int j) = .ok (decide (i < j)) := by
  show Except.ok (orderOfNumbers (.integer i) (.integer j) == some .lt) = _
  simp only [orderOfNumbers, Number.lt, Number.same, decide_eq_true_eq, beq_iff_eq]
  by_cases less : i < j
  · simp [less]
  · by_cases more : j < i
    · simp [less, more]
    · simp [Int.le_antisymm (Int.not_lt.mp more) (Int.not_lt.mp less)]

@[simp] theorem isAtMost_int (i j : Int) : (int i).isAtMost (int j) = .ok (decide (i ≤ j)) := by
  show Except.ok (orderOfNumbers (.integer i) (.integer j) == some .lt ||
    orderOfNumbers (.integer i) (.integer j) == some .eq) = _
  simp only [orderOfNumbers, Number.lt, Number.same, decide_eq_true_eq, beq_iff_eq]
  by_cases less : i < j
  · simp [less, Int.le_of_lt less]
  · by_cases more : j < i
    · simp [less, more]
    · simp [Int.le_antisymm (Int.not_lt.mp more) (Int.not_lt.mp less)]

theorem isAtMost_of_same {m n : Number} {i j : Int} (first : m.same (.integer i) = true)
    (second : n.same (.integer j) = true) :
    (Value.number m).isAtMost (.number n) = .ok (decide (i ≤ j)) := by
  obtain ⟨a, keyM, keyI⟩ := Number.same_iff.mp first
  obtain ⟨b, keyN, keyJ⟩ := Number.same_iff.mp second
  have less : m.lt n = (Number.integer i).lt (.integer j) := by
    rw [Bool.eq_iff_iff, Number.lt_iff, Number.lt_iff, keyM, keyN, keyI, keyJ]
  have more : n.lt m = (Number.integer j).lt (.integer i) := by
    rw [Bool.eq_iff_iff, Number.lt_iff, Number.lt_iff, keyM, keyN, keyI, keyJ]
  have equal : m.same n = (Number.integer i).same (.integer j) := by
    rw [Bool.eq_iff_iff, Number.same_iff, Number.same_iff, keyM, keyN, keyI, keyJ]
  have order : orderOfNumbers m n = orderOfNumbers (.integer i) (.integer j) := by
    rw [orderOfNumbers, less, more, equal, orderOfNumbers]
  rw [← isAtMost_int]
  simp only [isAtMost, order?_number, int, order]

@[simp] theorem toNumber_number (n : Number) : (Value.number n).toNumber = .ok n := rfl

@[simp] theorem sub_number (m n : Number) :
    (Value.number m).sub (.number n) = .ok (.number (m.sub n)) := rfl

end Value
end SplitTraversal
