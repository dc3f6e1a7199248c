import SplitTraversal.Source.Protocol

/-! Sources that behave as they are told, well or badly: where they throw, how they split, and what
they claim about themselves. -/

namespace SplitTraversal

inductive SplitStyle where
  | none
  /-- The first half goes to the new source. -/
  | half
  /-- The first element goes to the new source. -/
  | one
  /-- The second half goes to the new source. -/
  | suffix
  /-- The first half goes to the new source, and the element after it to nobody. -/
  | drop
  /-- Every attempt to split throws. -/
  | throwing
deriving DecidableEq, Repr

inductive Claim where
  | constant (size : Value)
  | offBy (surplus : Number)

inductive ComparatorAnswer where
  | refuse
  | throwing (thrown : Thrown)
  | order (compare : Option (Comparator Value))

structure Plan where
  elements : Array Value
  throwAt : List Nat
  thrown : Thrown
  style : SplitStyle
  /-- How many empty sources a new source splits off before it splits in its own style. -/
  partEmptySplits : Nat
  claim : Claim
  flags : Value
  exact : Option Value
  comparator : ComparatorAnswer

/-- A plan with the range that remains and the empty splits still to come. -/
structure Scripted where
  plan : Plan
  position : Nat
  limit : Nat
  emptySplits : Nat

namespace Scripted

variable {ω : Type}

def create (plan : Plan) (emptySplits : Nat) : Scripted :=
  ⟨plan, 0, plan.elements.size, emptySplits⟩

def advanced (s : Scripted) : Scripted := { s with position := s.position + 1 }

def element (s : Scripted) : Value := s.plan.elements[s.position]?.getD .undefined

/-- The position has moved on before the source throws or the visitor is called. -/
def tryAdvance (s : Site Scripted ω) : Turn (Site Scripted ω) Value Bool :=
  if s.own.limit ≤ s.own.position then .returned false s
  else if s.own.plan.throwAt.contains s.own.position then
    .threw s.own.plan.thrown { s with own := s.own.advanced }
  else .offer { s with own := s.own.advanced } s.own.element fun
    | .ok _ s => .returned true s
    | .error e s => .threw e s

def drain : Nat → Site Scripted ω → Turn (Site Scripted ω) Value Unit
  | 0, s => .returned () s
  | remaining + 1, s =>
    if s.own.limit ≤ s.own.position then .returned () s
    else if s.own.plan.throwAt.contains s.own.position then
      .threw s.own.plan.thrown { s with own := s.own.advanced }
    else .offer { s with own := s.own.advanced } s.own.element fun
      | .ok _ s => drain remaining s
      | .error e s => .threw e s

def forEachRemaining (visitor : Callee) (s : Site Scripted ω) : Turn (Site Scripted ω) Value Unit :=
  match visitor.require with
  | .error e => .threw e s
  | .ok _ => drain (s.own.limit - s.own.position) s

def part (s : Scripted) (position limit : Nat) : Scripted :=
  ⟨s.plan, position, limit, s.plan.partEmptySplits⟩

/-- Empty sources are split off first; then the style decides. -/
def split (s : Scripted) : Except Thrown (Option Scripted × Scripted) :=
  match s.emptySplits with
  | n + 1 => .ok (some ⟨s.plan, s.position, s.position, 0⟩, { s with emptySplits := n })
  | 0 =>
    let mid := s.position + (s.limit - s.position) / 2
    let few := s.limit < s.position + 2
    match s.plan.style with
    | .throwing => .error s.plan.thrown
    | .none => .ok (none, s)
    | .half =>
      if few then .ok (none, s)
      else .ok (some (s.part s.position mid), { s with position := mid })
    | .one =>
      if few then .ok (none, s)
      else .ok (some (s.part s.position (s.position + 1)), s.advanced)
    | .suffix =>
      if few then .ok (none, s)
      else .ok (some (s.part mid s.limit), { s with limit := mid })
    | .drop =>
      if few then .ok (none, s)
      else .ok (some (s.part s.position mid), { s with position := mid + 1 })

def trySplit : Action (Site Scripted ω) (Option Scripted) := fun s =>
  match s.own.split with
  | .ok (piece, own) => .ok piece { s with own := own }
  | .error e => .error e s

def estimate (s : Scripted) : Value :=
  match s.plan.claim with
  | .constant size => size
  | .offBy surplus => .number ((Number.integer ((s.limit : Int) - s.position)).add surplus)

def estimateSize : Action (Site Scripted ω) Value := fun s => .ok s.own.estimate s

def declared : Action (Site Scripted ω) Value := fun s => .ok s.own.plan.flags s

def exactSizeIfKnown : Action (Site Scripted ω) Value := fun s =>
  match s.own.plan.exact with
  | some v => .ok v s
  | none => Source.exactSize declared estimateSize s

def comparator : Action (Site Scripted ω) (Option (Comparator Value)) := fun s =>
  match s.own.plan.comparator with
  | .refuse => Source.noComparator "ScriptedSource" s
  | .throwing thrown => .error thrown s
  | .order compare => .ok compare s

def protocol : Protocol Scripted ω Value where
  tryAdvance := fun _ => tryAdvance
  forEachRemaining := forEachRemaining
  trySplit := trySplit
  estimateSize := estimateSize
  exactSizeIfKnown := exactSizeIfKnown
  characteristics := declared
  hasCharacteristics := Source.hasFlags declared
  comparator := comparator

end Scripted
end SplitTraversal
