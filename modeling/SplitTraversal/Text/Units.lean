/-! Text measured and ordered by its 16-bit units: a character beyond U+FFFF counts as two units, a
high and a low surrogate, and sorts as they do. -/

namespace SplitTraversal.Text

def charUnits (c : Char) : List Nat :=
  let n := c.toNat
  if n < 0x10000 then [n]
  else [0xd800 + (n - 0x10000) / 0x400, 0xdc00 + (n - 0x10000) % 0x400]

def units (s : String) : List Nat := s.toList.flatMap charUnits

def unitCount (s : String) : Nat :=
  s.toList.foldl (fun n c => n + (charUnits c).length) 0

/-- The unit at a position as a text. Half of a character beyond U+FFFF stands as the first character
that has this high half, or as the last high half with this low one; both sort as the half does. -/
def unitAt (s : String) (i : Nat) : Option String :=
  (units s)[i]?.map fun unit =>
    String.singleton (Char.ofNat (
      if unit < 0xd800 ∨ 0xe000 ≤ unit then unit
      else if unit < 0xdc00 then 0x10000 + (unit - 0xd800) * 0x400
      else 0x10fc00 + (unit - 0xdc00)))

/-- Order by units, the shorter of two texts first when it begins the longer. -/
def before (a b : String) : Bool := decide (units a < units b)

/-- The characters that fit into the first `limit` units, the high surrogate of a character that is
cut in two, and the number of units left over. -/
def takeUnits (limit : Nat) : List Char → List Char × Option Nat × Nat
  | [] => ([], none, 0)
  | c :: rest =>
    let size := (charUnits c).length
    if size ≤ limit then
      let (kept, cut, left) := takeUnits (limit - size) rest
      (c :: kept, cut, left)
    else
      let left := (c :: rest).foldl (fun n c => n + (charUnits c).length) 0
      if limit = 0 then ([], none, left) else ([], (charUnits c).head?, left - 1)

def lowerAscii (s : String) : String :=
  s.map fun c => if 'A' ≤ c ∧ c ≤ 'Z' then Char.ofNat (c.toNat + 32) else c

def characters (s : String) : List String := s.toList.map String.singleton

end SplitTraversal.Text
