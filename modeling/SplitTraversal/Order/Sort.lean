import SplitTraversal.Order.Merge

/-! A stable sort that makes use of the order it finds. The list is read as runs, which ascend or
strictly descend; a short run is extended by inserting the elements after it. Runs are merged with
their neighbours so that the lengths of those waiting grow from the latest to the earliest, which
keeps the merges balanced. -/

namespace SplitTraversal.Sorting

variable {ε α : Type}

/-- The rest of a run: elements that each go before the one before them, or each do not. The run
comes back last element first, with the elements after it. -/
def extendRun (before : α → α → Except ε Bool) (descending : Bool) (last : α) (run : List α) :
    List α → Except ε (List α × List α)
  | [] => .ok (last :: run, [])
  | x :: rest =>
    match before x last with
    | .error e => .error e
    | .ok below =>
      if below = descending then extendRun before descending x (last :: run) rest
      else .ok (last :: run, x :: rest)

def leadingRun (before : α → α → Except ε Bool) : List α → Except ε (List α × List α)
  | a :: b :: rest =>
    match before b a with
    | .error e => .error e
    | .ok descending =>
      match extendRun before descending b [a] rest with
      | .error e => .error e
      | .ok (run, rest) => .ok (if descending then run else run.reverse, rest)
  | xs => .ok (xs, [])

def insertStable (before : α → α → Except ε Bool) (x : α) (sorted : List α) :
    Except ε (List α) :=
  match bisectList (fun y => (before x y).map not) sorted with
  | .error e => .error e
  | .ok i => .ok (sorted.take i ++ x :: sorted.drop i)

def insertAll (before : α → α → Except ε Bool) : List α → List α → Except ε (List α)
  | sorted, [] => .ok sorted
  | sorted, x :: rest =>
    match insertStable before x sorted with
    | .error e => .error e
    | .ok sorted => insertAll before sorted rest

/-- The least length of a run: the length of the list halved, rounding up once, until it is below 64. -/
def leastRun (n : Nat) : Nat := halve n 0 n
where
  halve : Nat → Nat → Nat → Nat
    | 0, odd, n => n + odd
    | fuel + 1, odd, n => if n < 64 then n + odd else halve fuel (max odd (n % 2)) (n / 2)

def nextRun (before : α → α → Except ε Bool) (least : Nat) (xs : List α) :
    Except ε (List α × List α) :=
  match leadingRun before xs with
  | .error e => .error e
  | .ok (run, rest) =>
    let missing := least - run.length
    match insertAll before run (rest.take missing) with
    | .error e => .error e
    | .ok run => .ok (run, rest.drop missing)

def forward (before : α → α → Except ε Bool) : MergeRule ε α :=
  ⟨fun h o => before o h, true, .upper⟩

def backward (before : α → α → Except ε Bool) : MergeRule ε α :=
  ⟨fun h o => before h o, false, .lower⟩

/-- Merge two runs, the shorter one held back. The second run supplies the first element, and the
first run the last one. -/
def mergeOverlap (before : α → α → Except ε Bool) (threshold : Nat) (a b : List α) :
    Except ε (Nat × List α) :=
  if a.length ≤ b.length then Merging.merge (forward before) threshold a b
  else
    (Merging.merge (backward before) threshold b.reverse a.reverse).map fun (threshold, merged) =>
      (threshold, merged.reverse)

/-- Merge two neighbouring runs. What the first run has up to the beginning of the second, and the
second from the end of the first on, is in place already. -/
def mergeRuns (before : α → α → Except ε Bool) (threshold : Nat) (a b : List α) :
    Except ε (Nat × List α) :=
  match b with
  | [] => .ok (threshold, a)
  | first :: _ =>
    match gallop .upper (fun x => (before first x).map not) a with
    | .error e => .error e
    | .ok n =>
      match (a.drop n).getLast? with
      | none => .ok (threshold, a ++ b)
      | some last =>
        match gallop .lower (fun x => (before x last).map not) b.reverse with
        | .error e => .error e
        | .ok k =>
          let stay := b.length - k
          if stay = 0 then .ok (threshold, a ++ b)
          else
            (mergeOverlap before threshold (a.drop n) (b.take stay)).map
              fun (threshold, merged) => (threshold, a.take n ++ merged ++ b.drop stay)

/-- The runs that wait to be merged, the latest first, and the threshold for galloping. -/
structure Pending (α : Type) where
  runs : List (List α)
  threshold : Nat

namespace Pending

def elements (p : Pending α) : List α := p.runs.reverse.flatten

def mergeTop (before : α → α → Except ε Bool) (p : Pending α) : Except ε (Pending α) :=
  match p.runs with
  | b :: a :: rest =>
    (mergeRuns before p.threshold a b).map fun (threshold, run) => ⟨run :: rest, threshold⟩
  | _ => .ok p

def mergeBelow (before : α → α → Except ε Bool) (p : Pending α) : Except ε (Pending α) :=
  match p.runs with
  | c :: b :: a :: rest =>
    (mergeRuns before p.threshold a b).map fun (threshold, run) => ⟨c :: run :: rest, threshold⟩
  | _ => mergeTop before p

def mergeMiddle (before : α → α → Except ε Bool) (p : Pending α) : Except ε (Pending α) :=
  match p.runs with
  | c :: _ :: a :: _ => if a.length < c.length then mergeBelow before p else mergeTop before p
  | _ => mergeTop before p

/-- Whether each of the latest runs is longer than the two after it together. -/
def isBalanced : List (List α) → Bool
  | c :: b :: a :: rest =>
    b.length + c.length < a.length &&
      match rest with
      | z :: _ => a.length + b.length < z.length
      | [] => true
  | _ => true

/-- Merge until the runs' lengths are balanced and the latest run is the shortest. -/
def settle (before : α → α → Except ε Bool) : Nat → Pending α → Except ε (Pending α)
  | 0, p => .ok p
  | fuel + 1, p =>
    match p.runs with
    | b :: a :: _ =>
      if !isBalanced p.runs then
        match mergeMiddle before p with
        | .error e => .error e
        | .ok p => settle before fuel p
      else if a.length ≤ b.length then
        match mergeTop before p with
        | .error e => .error e
        | .ok p => settle before fuel p
      else .ok p
    | _ => .ok p

def collapse (before : α → α → Except ε Bool) : Nat → Pending α → Except ε (List α)
  | 0, p => .ok p.elements
  | fuel + 1, p =>
    match p.runs with
    | _ :: _ :: _ =>
      match mergeMiddle before p with
      | .error e => .error e
      | .ok p => collapse before fuel p
    | _ => .ok p.elements

end Pending

def gather (before : α → α → Except ε Bool) (least : Nat) :
    Nat → List α → Pending α → Except ε (Pending α)
  | 0, _, p => .ok p
  | _, [], p => .ok p
  | fuel + 1, xs, p =>
    match nextRun before least xs with
    | .error e => .error e
    | .ok (run, rest) =>
      match (⟨run :: p.runs, p.threshold⟩ : Pending α).settle before (p.runs.length + 1) with
      | .error e => .error e
      | .ok p => gather before least fuel rest p

/-- The elements in stable order. The first comparison that throws ends the sort. -/
def sort (before : α → α → Except ε Bool) (xs : List α) : Except ε (List α) :=
  match gather before (leastRun xs.length) xs.length xs ⟨[], gallopGain⟩ with
  | .error e => .error e
  | .ok p => p.collapse before p.runs.length

end SplitTraversal.Sorting
