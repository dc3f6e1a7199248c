import SplitTraversal.Source.Protocol

/-! Sources over a range of positions, each element read through an index function. The range is
split in the middle, so that repeated splitting builds a balanced tree whose leaves, read left to
right, cover the range once. -/

namespace SplitTraversal

/-- The positions `[offset, limit)` that remain, and how to read them. The offset may pass the limit
only when a visitor works on the source it is called from. -/
structure Indexed (ω α : Type) where
  read : Nat → Action ω α
  offset : Nat
  limit : Nat
  characteristics : Characteristics
  order : Option (Comparator α)
  /-- The limit was given as zero with a minus sign, which the estimate shows. -/
  minusZero : Bool

namespace Indexed

variable {ω α : Type}

/-- The position after the offset. Past the limit, counting ends at `2^53`. -/
def next (s : Indexed ω α) : Nat :=
  if s.offset < s.limit then s.offset + 1 else min (s.offset + 1) (Number.maxSafe + 1)

@[simp] theorem next_of_lt {s : Indexed ω α} (h : s.offset < s.limit) : s.next = s.offset + 1 :=
  if_pos h

def advanced (s : Indexed ω α) : Indexed ω α := { s with offset := s.next }

/-- The position moves on whether the visitor returns or throws. -/
def settle (outcome : Outcome Thrown (Site (Indexed ω α) ω) Unit) :
    Outcome Thrown (Site (Indexed ω α) ω) Unit :=
  Outcome.mapState (fun s => { s with own := s.own.advanced }) outcome

def tryAdvance (visitor : Callee) (s : Site (Indexed ω α) ω) :
    Turn (Site (Indexed ω α) ω) α Bool :=
  match visitor.require with
  | .error e => .threw e s
  | .ok _ =>
    if s.own.limit ≤ s.own.offset then .returned false s
    else
      match s.own.read s.own.offset s.shared with
      | .error e w => .threw e ⟨s.own.advanced, w⟩
      | .ok a w => .offer ⟨s.own, w⟩ a fun outcome =>
        match settle outcome with
        | .ok _ s => .returned true s
        | .error e s => .threw e s

/-- Visit what remains, as many positions as there were at the start. -/
def drain : Nat → Site (Indexed ω α) ω → Turn (Site (Indexed ω α) ω) α Unit
  | 0, s => .returned () s
  | remaining + 1, s =>
    if s.own.limit ≤ s.own.offset then .returned () s
    else
      match s.own.read s.own.offset s.shared with
      | .error e w => .threw e ⟨s.own.advanced, w⟩
      | .ok a w => .offer ⟨s.own, w⟩ a fun outcome =>
        match settle outcome with
        | .ok _ s => drain remaining s
        | .error e s => .threw e s

def forEachRemaining (visitor : Callee) (s : Site (Indexed ω α) ω) :
    Turn (Site (Indexed ω α) ω) α Unit :=
  match visitor.require with
  | .error e => .threw e s
  | .ok _ => drain (s.own.limit - s.own.offset) s

/-- The first half of what remains, and the rest; none for fewer than two positions. -/
def split (s : Indexed ω α) : Option (Indexed ω α) × Indexed ω α :=
  let mid := s.offset + (s.limit - s.offset) / 2
  if mid ≤ s.offset then (none, s)
  else (some { s with limit := mid }, { s with offset := mid })

theorem split_eq_none_iff (s : Indexed ω α) : s.split.1 = none ↔ s.limit < s.offset + 2 := by
  by_cases few : s.offset + (s.limit - s.offset) / 2 ≤ s.offset
  · simp only [split, if_pos few, true_iff]
    omega
  · simp only [split, if_neg few, reduceCtorEq, false_iff]
    omega

theorem split_snd_of_none {s : Indexed ω α} (h : s.split.1 = none) : s.split.2 = s := by
  by_cases few : s.offset + (s.limit - s.offset) / 2 ≤ s.offset
  · simp only [split, if_pos few]
  · simp only [split, if_neg few] at h
    cases h

def trySplit : Action (Site (Indexed ω α) ω) (Option (Indexed ω α)) := fun s =>
  .ok s.own.split.1 { s with own := s.own.split.2 }

/-- The number of positions that remain, below zero when the offset has passed the limit. -/
def estimate (s : Indexed ω α) : Number :=
  if s.minusZero then .minusZero else .integer ((s.limit : Int) - s.offset)

def estimateSize : Action (Site (Indexed ω α) ω) Value := fun s => .ok (.number s.own.estimate) s

def declared : Action (Site (Indexed ω α) ω) Value := fun s => .ok s.own.characteristics.toValue s

def comparator : Action (Site (Indexed ω α) ω) (Option (Comparator α)) := fun s =>
  if s.own.characteristics.contains .sorted then .ok s.own.order s
  else Source.noComparator "IndexedSource" s

def protocol : Protocol (Indexed ω α) ω α where
  tryAdvance := tryAdvance
  forEachRemaining := forEachRemaining
  trySplit := trySplit
  estimateSize := estimateSize
  exactSizeIfKnown := Source.exactSize declared estimateSize
  characteristics := declared
  hasCharacteristics := Source.hasFlags declared
  comparator := comparator

def text (s : Indexed ω α) : String := s!"IndexedSource[{s.offset}, {s.limit})"

def sizedFlags : Characteristics := .ofFlags [.sized, .subsized]

/-- What a new indexed source may be given beside its length and index function. Values that are null
or undefined stand for the default. -/
structure Options (α : Type) where
  characteristics : Value := .undefined
  offset : Value := .undefined
  order : Option (Comparator α) := none

def outside {ρ : Type} (length offset : Value) : Except Thrown ρ :=
  match length.text with
  | .error e => .error e
  | .ok limit =>
    match offset.text with
    | .ok found => .error (.violation (.offsetOutside limit found))
    | .error e => .error e

/-- The offset that was asked for: a whole number from zero to the limit, and the very zero that is
read first where it is zero. -/
def requireOffset (length : Value) (limit : Nat) (offset : Value) : Except Thrown (Nat × Number) :=
  match offset with
  | .number zero =>
    match zero.safeInteger? with
    | none => outside length offset
    | some start =>
      if start < 0 ∨ (limit : Int) < start then outside length offset
      else .ok (start.toNat, zero)
  | _ => outside length offset

def isMinusZero : Value → Bool
  | .number n => n.isMinusZero
  | _ => false

/-- A new source over `[offset, length)`. The length is checked first, then the offset, then the
index function, then the characteristics. There have to be options to look into. Position zero is
read as the zero that was given as offset. -/
def create (length : Value) (read : Option (Number → Action ω α))
    (options : Option (Options α)) : Except Thrown (Indexed ω α) :=
  match requireCount "IndexedSource: length" length, options with
  | .error e, _ => .error e
  | .ok _, none => .error (.misuse (.noFieldOf "null" "offset"))
  | .ok limit, some options =>
    match requireOffset length limit
      (if options.offset.isNullish then .int 0 else options.offset) with
    | .error e => .error e
    | .ok (offset, zero) =>
      match read with
      | none => .error (.violation .notAnIndexFunction)
      | some read =>
        match Characteristics.ofValue options.characteristics with
        | .error e => .error e
        | .ok characteristics =>
          .ok {
            read := fun i => read (if i = 0 ∧ zero.isMinusZero then zero else .integer i)
            offset
            limit
            characteristics := characteristics.union sizedFlags
            order := options.order
            minusZero := isMinusZero length && !zero.isMinusZero }

def ofList (elements : List α) (absent : α) (characteristics : Characteristics) : Indexed ω α :=
  let snapshot := elements.toArray
  { read := fun i s => .ok (snapshot[i]?.getD absent) s
    offset := 0
    limit := snapshot.size
    characteristics := characteristics.union sizedFlags
    order := none
    minusZero := false }

def empty (absent : α) : Indexed ω α :=
  ofList [] absent (.ofFlags [.ordered, .immutable, .distinct])

end Indexed
end SplitTraversal
