import SplitTraversal.Text.Units

/-! Arranging many short entries in columns, as square as their lengths allow. -/

namespace SplitTraversal.Display

/-- Characters that take up space: all but controls. -/
def width (s : String) : Nat :=
  s.toList.foldl (fun n c => if c.toNat < 32 ∨ (127 ≤ c.toNat ∧ c.toNat < 160) then n else n + 1) 0

def spaces (n : Nat) : String := String.ofList (List.replicate n ' ')

/-- How many entries a row takes: from the longest entry and the mean length, at most twelve, or
one where the entries differ too much in length. -/
def columnCount (widths : List Nat) (entries : Nat) : Nat :=
  let total := widths.foldl (fun n w => n + (w + 2)) 0
  let longest := widths.foldl max 0
  let cell := longest + 2
  if Float.ofNat total / Float.ofNat cell > 5 || longest ≤ 6 then
    let bias := Float.sqrt (Float.ofNat cell - Float.ofNat total / Float.ofNat entries)
    let biased := max (Float.ofNat cell - 3 - bias) 1
    let ideal := Float.sqrt (2.5 * biased * Float.ofNat widths.length) / biased
    min (Float.floor (ideal + 0.5)).toUInt64.toNat 12
  else 1

/-- One row of entries with their widths, the columns' widths and the padding side. Only padding at
the start also pads the last entry. -/
def row (padStart : Bool) : List (String × Nat) → List Nat → String
  | [(entry, w)], column :: _ =>
    if padStart then spaces (column - 2 - w) ++ entry else entry
  | (entry, w) :: rest, column :: columns =>
    let cell := entry ++ ", "
    let gap := spaces (column - (w + 2))
    (if padStart then gap ++ cell else cell ++ gap) ++ row padStart rest columns
  | _, _ => ""

def rows (padStart : Bool) (count : Nat) (columns : List Nat) :
    Nat → List (String × Nat) → List String
  | 0, _ => []
  | _, [] => []
  | fuel + 1, entries =>
    row padStart (entries.take count) columns :: rows padStart count columns fuel (entries.drop count)

def column (widths : List Nat) (count position : Nat) : List Nat :=
  (widths.zipIdx.filter fun (_, i) => i % count = position).map (·.1)

/-- Group entries in columns. An entry that counts further items is left out of the grouping and
comes last. -/
def group (entries : List String) (more : Option String) (padStart : Bool) : List String :=
  let widths := entries.map width
  let count := columnCount widths (entries.length + more.toList.length)
  if count ≤ 1 then entries ++ more.toList
  else
    let columns := (List.range count).map fun i =>
      (column widths count i).foldl max 0 + 2
    rows padStart count columns entries.length (entries.zip widths) ++ more.toList

end SplitTraversal.Display
