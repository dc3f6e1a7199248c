import SplitTraversal.Order.Named

/-! Comparing visited elements with expected ones, as multisets and as sequences. -/

namespace SplitTraversal.Matching

variable {α : Type}

def takeFirst (claim : α → Except Thrown Bool) : List α → Except Thrown (Option (List α))
  | [] => .ok none
  | x :: rest =>
    match claim x with
    | .error e => .error e
    | .ok true => .ok (some rest)
    | .ok false =>
      match takeFirst claim rest with
      | .ok (some rest) => .ok (some (x :: rest))
      | .ok none => .ok none
      | .error e => .error e

/-- The expected elements that no visited one matches, and the visited ones left over. Each expected
element claims the first unclaimed visited element that it is equivalent to. -/
def multisetDiff (equivalence : Equivalence α) :
    List α → List α → Except Thrown (List α × List α)
  | [], unclaimed => .ok ([], unclaimed)
  | element :: expected, unclaimed =>
    match takeFirst (equivalence element) unclaimed with
    | .error e => .error e
    | .ok (some unclaimed) => multisetDiff equivalence expected unclaimed
    | .ok none =>
      match multisetDiff equivalence expected unclaimed with
      | .ok (missing, unexpected) => .ok (element :: missing, unexpected)
      | .error e => .error e

/-- The first position where two sequences differ, counted from `position`; none where they agree to
the end of both. -/
def firstDifferenceFrom (equivalence : Equivalence α) (position : Nat) :
    List α → List α → Except Thrown (Option Nat)
  | [], [] => .ok none
  | a :: as, b :: bs =>
    match equivalence a b with
    | .error e => .error e
    | .ok true => firstDifferenceFrom equivalence (position + 1) as bs
    | .ok false => .ok (some position)
  | _, _ => .ok (some position)

def firstDifference (equivalence : Equivalence α) (expected actual : List α) :
    Except Thrown (Option Nat) :=
  firstDifferenceFrom equivalence 0 expected actual

end SplitTraversal.Matching
