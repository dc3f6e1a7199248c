/-! Binary search for the place where a test over positions stops holding, and the search that first
takes longer and longer steps. -/

namespace SplitTraversal

/-- Where an interval with an even number of positions is cut: right or left of its middle. -/
inductive Middle where
  | upper
  | lower
deriving DecidableEq, Repr

namespace Middle

/-- The position in the middle of `[low, high)`. Where the sum is shifted as a 32-bit number, as in
the search of a sorted set, this is exact below `2^31` elements. -/
def position : Middle → Nat → Nat → Nat
  | .upper, low, high => (low + high) / 2
  | .lower, low, high => (low + high - 1) / 2

/-- The middle as it comes out of 32 bits. -/
def shifted (low high : Nat) : Nat := (BitVec.ofNat 32 (low + high) >>> 1).toNat

theorem position_bounds {low high : Nat} (middle : Middle) (h : low < high) :
    low ≤ middle.position low high ∧ middle.position low high < high := by
  cases middle <;> simp only [position] <;> omega

end Middle

/-- Halves `[low, high)`, going right of a position at which the test holds. With as much fuel as
the interval is long it ends at the least position that the test refuses, provided the test holds
up to some position and nowhere after. -/
def bisect {ε : Type} (middle : Middle) (goRight : Nat → Except ε Bool) :
    Nat → Nat → Nat → Except ε Nat
  | 0, low, _ => .ok low
  | fuel + 1, low, high =>
    if low < high then
      let mid := middle.position low high
      match goRight mid with
      | .error e => .error e
      | .ok true => bisect middle goRight fuel (mid + 1) high
      | .ok false => bisect middle goRight fuel low mid
    else .ok low

def elementTest {ε α : Type} (test : α → Except ε Bool) (xs : List α) (i : Nat) : Except ε Bool :=
  match xs[i]? with
  | some x => test x
  | none => .ok false

def bisectList {ε α : Type} (goRight : α → Except ε Bool) (xs : List α) : Except ε Nat :=
  bisect .upper (elementTest goRight xs) xs.length 0 xs.length

/-- Step on from a position at which the test holds, each time a little more than twice as far, up to
the first step that misses or leaves `[0, length)`. The answer is the last position reached and the
one that was missed. -/
def stride {ε : Type} (test : Nat → Except ε Bool) (length : Nat) :
    Nat → Nat → Nat → Except ε (Nat × Nat)
  | 0, reached, next => .ok (reached, min next length)
  | fuel + 1, reached, next =>
    if next < length then
      match test next with
      | .error e => .error e
      | .ok true => stride test length fuel next (2 * next + 1)
      | .ok false => .ok (reached, next)
    else .ok (reached, length)

/-- How many elements at the front of a list pass the test, found in steps of growing length and then
by halving the last one. -/
def gallop {ε α : Type} (middle : Middle) (test : α → Except ε Bool) (xs : List α) :
    Except ε Nat :=
  match elementTest test xs 0 with
  | .error e => .error e
  | .ok false => .ok 0
  | .ok true =>
    match stride (elementTest test xs) xs.length xs.length 0 1 with
    | .error e => .error e
    | .ok (reached, missed) =>
      bisect middle (elementTest test xs) xs.length (reached + 1) missed

end SplitTraversal
