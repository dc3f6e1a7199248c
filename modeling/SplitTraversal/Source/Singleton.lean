import SplitTraversal.Source.Protocol

/-! Sources over exactly one element. They never split. -/

namespace SplitTraversal

structure Singleton (α : Type) where
  held : Option α

namespace Singleton

variable {ω α : Type}

/-- The element is gone whether the visitor returns or throws. -/
def tryAdvance (visitor : Callee) (s : Site (Singleton α) ω) :
    Turn (Site (Singleton α) ω) α Bool :=
  match visitor.require with
  | .error e => .threw e s
  | .ok _ =>
    match s.own.held with
    | none => .returned false s
    | some a => .offer s a fun
      | .ok _ s => .returned true { s with own := ⟨none⟩ }
      | .error e s => .threw e { s with own := ⟨none⟩ }

def forEachRemaining (visitor : Callee) (s : Site (Singleton α) ω) :
    Turn (Site (Singleton α) ω) α Unit :=
  match visitor.require with
  | .error e => .threw e s
  | .ok _ =>
    match s.own.held with
    | none => .returned () s
    | some a => .offer s a fun
      | .ok _ s => .returned () { s with own := ⟨none⟩ }
      | .error e s => .threw e { s with own := ⟨none⟩ }

def flags : Characteristics := .ofFlags [.distinct, .immutable, .ordered, .sized, .subsized]

def estimate (s : Singleton α) : Int := if s.held.isSome then 1 else 0

def estimateSize : Action (Site (Singleton α) ω) Value := fun s => .ok (.int s.own.estimate) s

def declared : Action (Site (Singleton α) ω) Value := fun s => .ok flags.toValue s

def protocol : Protocol (Singleton α) ω α where
  tryAdvance := tryAdvance
  forEachRemaining := forEachRemaining
  trySplit := fun s => .ok none s
  estimateSize := estimateSize
  exactSizeIfKnown := Source.exactSize declared estimateSize
  characteristics := declared
  hasCharacteristics := Source.hasFlags declared
  comparator := Source.noComparator "SingletonSource"

end Singleton
end SplitTraversal
