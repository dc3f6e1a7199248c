import SplitTraversal.Characteristics
import SplitTraversal.Order.Comparator
import SplitTraversal.Source.Turn

/-! What every source of elements can do: hand out elements one at a time or all at once, split off
a part of what remains, and report its size, traits and order. Conforming and defective sources
share this interface; nothing here is assumed of them. -/

namespace SplitTraversal

/-- The operations of sources with own state `σ`, shared state `ω` and elements `α`. -/
structure Protocol (σ ω α : Type) where
  /-- Visit one remaining element, and tell whether there was one. -/
  tryAdvance : Callee → Site σ ω → Turn (Site σ ω) α Bool
  /-- Visit every remaining element. -/
  forEachRemaining : Callee → Site σ ω → Turn (Site σ ω) α Unit
  /-- Hand a part of the remaining elements to a new source, or none if they stay together. -/
  trySplit : Action (Site σ ω) (Option σ)
  /-- What the source says of its size, which need not be a number. -/
  estimateSize : Action (Site σ ω) Value
  exactSizeIfKnown : Action (Site σ ω) Value
  /-- A value whose bits are the declared flags. -/
  characteristics : Action (Site σ ω) Value
  hasCharacteristics : Characteristics → Action (Site σ ω) Bool
  /-- The order of a sorted source; none stands for natural order. -/
  comparator : Action (Site σ ω) (Option (Comparator α))

namespace Source

variable {σ ω α : Type}

@[inline] def hasFlags (characteristics : Action (Site σ ω) Value) (flags : Characteristics) :
    Action (Site σ ω) Bool := fun s =>
  match characteristics s with
  | .error e s => .error e s
  | .ok declared s =>
    match Characteristics.ofValue declared with
    | .ok set => .ok (set.hasAll flags) s
    | .error e => .error e s

theorem hasFlags_eq {characteristics : Action (Site σ ω) Value} {s : Site σ ω}
    {set : Characteristics} (declared : characteristics s = .ok set.toValue s)
    (flags : Characteristics) :
    hasFlags characteristics flags s = .ok (set.hasAll flags) s := by
  simp only [hasFlags, declared, Characteristics.ofValue_toValue]

def exactSize (characteristics estimateSize : Action (Site σ ω) Value) :
    Action (Site σ ω) Value := fun s =>
  match hasFlags characteristics (.ofFlag .sized) s with
  | .ok true s => estimateSize s
  | .ok false s => .ok (.int (-1)) s
  | .error e s => .error e s

def noComparator (source : String) : Action (Site σ ω) (Option (Comparator α)) := fun s =>
  .error (.violation (.noComparator source)) s

end Source
end SplitTraversal
