import SplitTraversal.Source.Indexed

/-! Sources that break the rules of the interface in one known way each, for a harness to find, and
one that keeps them while declaring nothing. -/

namespace SplitTraversal

/-- A range of a list whose splits overlap: prefix and remainder of a range of three or more both
keep the middle element. -/
structure Overlapping (α : Type) where
  elements : Array α
  position : Nat
  limit : Nat

namespace Overlapping

variable {ω α : Type}

def ofList (elements : List α) : Overlapping α := ⟨elements.toArray, 0, elements.length⟩

def advanced (s : Overlapping α) : Overlapping α := { s with position := s.position + 1 }

/-- The position moves on only when the visitor returns. -/
def tryAdvance (s : Site (Overlapping α) ω) : Turn (Site (Overlapping α) ω) α Bool :=
  if s.own.limit ≤ s.own.position then .returned false s
  else
    match s.own.elements[s.own.position]? with
    | none => .returned false s
    | some a => .offer s a fun
      | .ok _ s => .returned true { s with own := s.own.advanced }
      | .error e s => .threw e s

def drain : Nat → Site (Overlapping α) ω → Turn (Site (Overlapping α) ω) α Unit
  | 0, s => .returned () s
  | remaining + 1, s =>
    if s.own.limit ≤ s.own.position then .returned () s
    else
      match s.own.elements[s.own.position]? with
      | none => .returned () s
      | some a => .offer s a fun
        | .ok _ s => drain remaining { s with own := s.own.advanced }
        | .error e s => .threw e s

def forEachRemaining (visitor : Callee) (s : Site (Overlapping α) ω) :
    Turn (Site (Overlapping α) ω) α Unit :=
  match visitor.require with
  | .error e => .threw e s
  | .ok _ => drain (s.own.limit - s.own.position) s

def split (s : Overlapping α) : Option (Overlapping α) × Overlapping α :=
  if s.limit < s.position + 3 then (none, s)
  else
    let mid := s.position + (s.limit - s.position) / 2
    (some { s with limit := mid + 1 }, { s with position := mid })

def trySplit : Action (Site (Overlapping α) ω) (Option (Overlapping α)) := fun s =>
  .ok s.own.split.1 { s with own := s.own.split.2 }

def flags : Characteristics := .ofFlags [.ordered, .sized, .subsized]

def estimateSize : Action (Site (Overlapping α) ω) Value := fun s =>
  .ok (.int ((s.own.limit : Int) - s.own.position)) s

def declared : Action (Site (Overlapping α) ω) Value := fun s => .ok flags.toValue s

def protocol : Protocol (Overlapping α) ω α where
  tryAdvance := fun _ => tryAdvance
  forEachRemaining := forEachRemaining
  trySplit := trySplit
  estimateSize := estimateSize
  exactSizeIfKnown := Source.exactSize declared estimateSize
  characteristics := declared
  hasCharacteristics := Source.hasFlags declared
  comparator := Source.noComparator "OverlappingSource"

end Overlapping

/-- The elements of a list one at a time, without a declared size and without splits. -/
structure Unsized (α : Type) where
  elements : Array α
  position : Nat

namespace Unsized

variable {ω α : Type}

def ofList (elements : List α) : Unsized α := ⟨elements.toArray, 0⟩

def advanced (s : Unsized α) : Unsized α := { s with position := s.position + 1 }

/-- The position moves on only when the visitor returns. -/
def tryAdvance (s : Site (Unsized α) ω) : Turn (Site (Unsized α) ω) α Bool :=
  match s.own.elements[s.own.position]? with
  | none => .returned false s
  | some a => .offer s a fun
    | .ok _ s => .returned true { s with own := s.own.advanced }
    | .error e s => .threw e s

def drain : Nat → Site (Unsized α) ω → Turn (Site (Unsized α) ω) α Unit
  | 0, s => .returned () s
  | remaining + 1, s =>
    match s.own.elements[s.own.position]? with
    | none => .returned () s
    | some a => .offer s a fun
      | .ok _ s => drain remaining { s with own := s.own.advanced }
      | .error e s => .threw e s

def forEachRemaining (visitor : Callee) (s : Site (Unsized α) ω) :
    Turn (Site (Unsized α) ω) α Unit :=
  match visitor.require with
  | .error e => .threw e s
  | .ok _ => drain (s.own.elements.size - s.own.position) s

def estimateSize : Action (Site (Unsized α) ω) Value := fun s => .ok (.int Number.maxSafe) s

def declared : Action (Site (Unsized α) ω) Value := fun s => .ok Characteristics.none.toValue s

def protocol : Protocol (Unsized α) ω α where
  tryAdvance := fun _ => tryAdvance
  forEachRemaining := forEachRemaining
  trySplit := fun s => .ok none s
  estimateSize := estimateSize
  exactSizeIfKnown := Source.exactSize declared estimateSize
  characteristics := declared
  hasCharacteristics := Source.hasFlags declared
  comparator := Source.noComparator "UnsizedSource"

end Unsized

inductive Flaw where
  | none
  /-- Every split hands out an empty source, so the remainder never shrinks. -/
  | neverShrinking
  /-- The same without declaring anything, so that there is no size to compare. -/
  | unsizedNeverShrinking
  /-- The comparator is null even when the source is not sorted. -/
  | permissiveComparator
  /-- Asking for the comparator throws an error of the wrong kind. -/
  | failingComparator
deriving DecidableEq, Repr

namespace Flaw

def splitsEmpty : Flaw → Bool
  | .neverShrinking | .unsizedNeverShrinking => true
  | _ => false

end Flaw

structure Flawed (ω α : Type) where
  source : Indexed ω α
  flaw : Flaw

namespace Flawed

variable {ω α : Type}

def focus (flaw : Flaw) : Focus (Site (Flawed ω α) ω) (Site (Indexed ω α) ω) :=
  ⟨fun s => ⟨s.own.source, s.shared⟩, fun t _ => ⟨⟨t.own, flaw⟩, t.shared⟩⟩

def tryAdvance (visitor : Callee) (s : Site (Flawed ω α) ω) :
    Turn (Site (Flawed ω α) ω) α Bool :=
  (Indexed.tryAdvance visitor ⟨s.own.source, s.shared⟩).within (focus s.own.flaw) s

def forEachRemaining (visitor : Callee) (s : Site (Flawed ω α) ω) :
    Turn (Site (Flawed ω α) ω) α Unit :=
  (Indexed.forEachRemaining visitor ⟨s.own.source, s.shared⟩).within (focus s.own.flaw) s

/-- What is split off has no flaw of its own. -/
def trySplit (absent : α) : Action (Site (Flawed ω α) ω) (Option (Flawed ω α)) := fun s =>
  if s.own.flaw.splitsEmpty then .ok (some ⟨.empty absent, .none⟩) s
  else
    .ok (s.own.source.split.1.map (⟨·, .none⟩))
      { s with own := { s.own with source := s.own.source.split.2 } }

def estimateSize : Action (Site (Flawed ω α) ω) Value := fun s =>
  .ok (.number s.own.source.estimate) s

def declared : Action (Site (Flawed ω α) ω) Value := fun s =>
  match s.own.flaw with
  | .unsizedNeverShrinking => .ok Characteristics.none.toValue s
  | _ => .ok s.own.source.characteristics.toValue s

def comparator : Action (Site (Flawed ω α) ω) (Option (Comparator α)) := fun s =>
  match s.own.flaw with
  | .permissiveComparator => .ok none s
  | .failingComparator => .error (.fault (.raised .type "comparator unavailable")) s
  | _ =>
    if s.own.source.characteristics.contains .sorted then .ok s.own.source.order s
    else Source.noComparator "IndexedSource" s

def protocol (absent : α) : Protocol (Flawed ω α) ω α where
  tryAdvance := tryAdvance
  forEachRemaining := forEachRemaining
  trySplit := trySplit absent
  estimateSize := estimateSize
  exactSizeIfKnown := Source.exactSize declared estimateSize
  characteristics := declared
  hasCharacteristics := Source.hasFlags declared
  comparator := comparator

end Flawed
end SplitTraversal
