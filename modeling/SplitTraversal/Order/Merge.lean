import SplitTraversal.Order.Bisect

/-! Merging two runs in order, with as few comparisons as their shape allows. Elements are compared
one by one until one run has supplied several in a row; from then on the merge gallops, which is to
search each run for all elements that go before the other's first. The more often galloping pays, the
sooner it is tried again.

Both runs are taken from the front here. A merge from the back is the merge of the reversed runs. -/

namespace SplitTraversal

/-- A merge under way: what has been taken from either run, the latest first, and what is left of
them. -/
structure Merging (α : Type) where
  taken : List α
  held : List α
  other : List α

/-- How two runs are merged: which of two first elements is taken, whether a round of galloping
starts in the held run, and where its searches cut. -/
structure MergeRule (ε α : Type) where
  otherFirst : α → α → Except ε Bool
  heldLeads : Bool
  middle : Middle

def gallopGain : Nat := 7

namespace Merging

variable {ε α : Type}

def takeHeld (n : Nat) (m : Merging α) : Merging α :=
  ⟨(m.held.take n).reverse ++ m.taken, m.held.drop n, m.other⟩

def takeOther (n : Nat) (m : Merging α) : Merging α :=
  ⟨(m.other.take n).reverse ++ m.taken, m.held, m.other.drop n⟩

/-- The last element of the held run is known to go last of all. -/
def isOver (m : Merging α) : Bool := m.other.isEmpty || m.held.length ≤ 1

def result (m : Merging α) : List α := m.taken.reverse ++ m.other ++ m.held

def size (m : Merging α) : Nat := m.held.length + m.other.length

theorem takeHeld_perm (n : Nat) (m : Merging α) : (m.takeHeld n).result.Perm m.result := by
  simp only [result, takeHeld, List.reverse_append, List.reverse_reverse, List.append_assoc]
  refine List.Perm.append_left _ ?_
  refine (List.perm_append_comm_assoc _ _ _).trans (List.Perm.append_left _ ?_)
  rw [List.take_append_drop]

theorem takeOther_perm (n : Nat) (m : Merging α) : (m.takeOther n).result.Perm m.result := by
  simp only [result, takeOther, List.reverse_append, List.reverse_reverse, List.append_assoc]
  refine List.Perm.append_left _ ?_
  rw [← List.append_assoc, List.take_append_drop]

/-- Compare the first elements and take one of them, until a run has supplied `threshold` elements in
a row. The numbers count the elements just supplied by either run. -/
def oneByOne (rule : MergeRule ε α) (threshold : Nat) :
    Nat → Nat → Nat → Merging α → Except ε (Merging α)
  | 0, _, _, m => .ok m
  | fuel + 1, fromHeld, fromOther, m =>
    match m.held, m.other with
    | h :: _, o :: _ =>
      match rule.otherFirst h o with
      | .error e => .error e
      | .ok true =>
        let m := m.takeOther 1
        if m.isOver || threshold ≤ fromOther + 1 then .ok m
        else oneByOne rule threshold fuel 0 (fromOther + 1) m
      | .ok false =>
        let m := m.takeHeld 1
        if m.isOver || threshold ≤ fromHeld + 1 then .ok m
        else oneByOne rule threshold fuel (fromHeld + 1) 0 m
    | _, _ => .ok m

/-- Take the held elements that go before the first of the other run, and then that one. The number
is how many were found. -/
def gallopHeld (rule : MergeRule ε α) (m : Merging α) : Except ε (Nat × Merging α) :=
  match m.other with
  | [] => .ok (0, m)
  | o :: _ =>
    match gallop rule.middle (fun h => (rule.otherFirst h o).map not) m.held with
    | .error e => .error e
    | .ok n =>
      let m := m.takeHeld n
      .ok (n, if m.isOver then m else m.takeOther 1)

def gallopOther (rule : MergeRule ε α) (m : Merging α) : Except ε (Nat × Merging α) :=
  match m.held with
  | [] => .ok (0, m)
  | h :: _ =>
    match gallop rule.middle (rule.otherFirst h) m.other with
    | .error e => .error e
    | .ok n =>
      let m := m.takeOther n
      .ok (n, if m.isOver then m else m.takeHeld 1)

/-- One round: each run is galloped over once. The answer tells whether one of them gained much. -/
def round (rule : MergeRule ε α) (m : Merging α) : Except ε (Bool × Merging α) :=
  match (if rule.heldLeads then gallopHeld rule m else gallopOther rule m) with
  | .error e => .error e
  | .ok (n, m) =>
    if m.isOver then .ok (false, m)
    else
      match (if rule.heldLeads then gallopOther rule m else gallopHeld rule m) with
      | .error e => .error e
      | .ok (k, m) => .ok (decide (gallopGain ≤ n ∨ gallopGain ≤ k), m)

/-- Rounds of galloping as long as they gain. Each one after the first lowers the threshold, and
giving up raises it. -/
def rounds (rule : MergeRule ε α) : Nat → Nat → Merging α → Except ε (Nat × Merging α)
  | 0, threshold, m => .ok (threshold, m)
  | fuel + 1, threshold, m =>
    match round rule m with
    | .error e => .error e
    | .ok (gained, m) =>
      if m.isOver then .ok (threshold, m)
      else if gained then rounds rule fuel (max 1 (threshold - 1)) m
      else .ok (threshold + 1, m)

def finish (rule : MergeRule ε α) : Nat → Nat → Merging α → Except ε (Nat × List α)
  | 0, threshold, m => .ok (threshold, m.result)
  | fuel + 1, threshold, m =>
    if m.isOver then .ok (threshold, m.result)
    else
      match oneByOne rule threshold m.size 0 0 m with
      | .error e => .error e
      | .ok m =>
        if m.isOver then .ok (threshold, m.result)
        else
          match rounds rule m.size threshold m with
          | .error e => .error e
          | .ok (threshold, m) => finish rule fuel threshold m

def merge (rule : MergeRule ε α) (threshold : Nat) (held other : List α) :
    Except ε (Nat × List α) :=
  let m := (⟨[], held, other⟩ : Merging α).takeOther 1
  finish rule m.size threshold m

end Merging
end SplitTraversal
