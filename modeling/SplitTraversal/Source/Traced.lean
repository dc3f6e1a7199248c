import SplitTraversal.Source.Protocol

/-! Tracing: a source that passes everything on to another and keeps a record of it, one list of
elements for each bulk drain that came to its end, and the number of times a split was asked for. A
source and all that is split off it share one record. -/

namespace SplitTraversal

/-- The drains that came to their end, the latest first, and the number of splits asked for. -/
structure Trace (α : Type) where
  latest : List (Array α)
  splitCalls : Nat
deriving Inhabited

namespace Trace

variable {α : Type}

def empty : Trace α := ⟨[], 0⟩

def drains (t : Trace α) : List (Array α) := t.latest.reverse

def drained (elements : Array α) (t : Trace α) : Trace α :=
  { t with latest := elements :: t.latest }

@[simp] theorem drains_drained (elements : Array α) (t : Trace α) :
    (t.drained elements).drains = t.drains ++ [elements] := by
  simp [drains, drained]

def splitAsked (t : Trace α) : Trace α := { t with splitCalls := t.splitCalls + 1 }

end Trace

/-- Where the record of a traced source is found in the shared state. -/
structure Recorder (ω α : Type) where
  modify : (Trace α → Trace α) → ω → ω

namespace Turn

variable {S α ρ : Type}

def recorded (seen : Array α) : Turn S α ρ → Turn S α (ρ × Array α)
  | .done (.ok a s) => .done (.ok (a, seen) s)
  | .done (.error e s) => .done (.error e s)
  | .offer s a resume => .offer s a fun outcome => recorded (seen.push a) (resume outcome)

def settling (f : ρ → S → S) : Turn S α ρ → Turn S α ρ
  | .done (.ok a s) => .done (.ok a (f a s))
  | .done (.error e s) => .done (.error e s)
  | .offer s a resume => .offer s a fun outcome => settling f (resume outcome)

def map {β : Type} (f : ρ → β) : Turn S α ρ → Turn S α β
  | .done (.ok a s) => .done (.ok (f a) s)
  | .done (.error e s) => .done (.error e s)
  | .offer s a resume => .offer s a fun outcome => map f (resume outcome)

end Turn

namespace Recorder

variable {σ ω α : Type}

def note (r : Recorder ω α) (f : Trace α → Trace α) (s : Site σ ω) : Site σ ω :=
  { s with shared := r.modify f s.shared }

def drain (r : Recorder ω α) (turn : Turn (Site σ ω) α Unit) : Turn (Site σ ω) α Unit :=
  ((turn.recorded #[]).settling fun (_, seen) s => r.note (Trace.drained seen) s).map fun _ => ()

/-- A split is counted before it is tried. -/
def split (r : Recorder ω α) (trySplit : Action (Site σ ω) (Option σ)) :
    Action (Site σ ω) (Option σ) := fun s => trySplit (r.note Trace.splitAsked s)

end Recorder

/-- The traced form of a source, with the record that the recorder finds. A visitor that is no
function is found out only when it is called, because the traced source is handed a function. -/
def Protocol.traced {σ ω α : Type} (r : Recorder ω α) (p : Protocol σ ω α) : Protocol σ ω α where
  tryAdvance := p.tryAdvance
  forEachRemaining := fun _ s => r.drain (p.forEachRemaining .callable s)
  trySplit := r.split p.trySplit
  estimateSize := p.estimateSize
  exactSizeIfKnown := Source.exactSize p.characteristics p.estimateSize
  characteristics := p.characteristics
  hasCharacteristics := Source.hasFlags p.characteristics
  comparator := p.comparator

end SplitTraversal
