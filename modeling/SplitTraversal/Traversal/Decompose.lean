import SplitTraversal.Source.Protocol
import SplitTraversal.Traversal.Strategy

/-! Draining a source under a strategy. Bulk drains end with the source; stepping and splitting are
given a number of rounds, and stop with `outOfRounds` when it is used up. -/

namespace SplitTraversal
namespace Protocol

variable {σ ω τ α ρ : Type}

abbrev Draining (σ ω τ : Type) := Activity (Site σ ω × τ) Unit

def play (visitor : Visitor ω τ α) (turn : Callee → Site σ ω → Turn (Site σ ω) α ρ)
    (s : Site σ ω) (m : τ) : Outcome Thrown (Site σ ω × τ) ρ :=
  (turn visitor.callee s).play visitor.visit m

def bulkDrain (p : Protocol σ ω α) (visitor : Visitor ω τ α) : Draining σ ω τ := fun (s, m) =>
  match play visitor p.forEachRemaining s m with
  | .ok _ s => .ok () s
  | .error e s => .error (.threw e) s

def stepAdvance (p : Protocol σ ω α) (visitor : Visitor ω τ α) : Nat → Draining σ ω τ
  | 0, s => .error .outOfRounds s
  | rounds + 1, (s, m) =>
    match play visitor p.tryAdvance s m with
    | .ok true s => stepAdvance p visitor rounds s
    | .ok false s => .ok () s
    | .error e s => .error (.threw e) s

/-- Each part is drained by splits of its own before the source is split again. -/
def maximumSplit (p : Protocol σ ω α) (visitor : Visitor ω τ α) : Nat → Draining σ ω τ
  | 0, s => .error .outOfRounds s
  | rounds + 1, (s, m) =>
    match p.trySplit s with
    | .error e s => .error (.threw e) (s, m)
    | .ok none s => bulkDrain p visitor (s, m)
    | .ok (some piece) ⟨own, w⟩ =>
      match maximumSplit p visitor rounds (⟨piece, w⟩, m) with
      | .ok _ (⟨_, w⟩, m) => maximumSplit p visitor rounds (⟨own, w⟩, m)
      | .error h (⟨_, w⟩, m) => .error h (⟨own, w⟩, m)

def decompose (p : Protocol σ ω α) (rounds : Nat) (strategy : Strategy)
    (visitor : Visitor ω τ α) : Draining σ ω τ := fun s =>
  match visitor.callee.require with
  | .error e => .error (.threw e) s
  | .ok _ =>
    match strategy with
    | .bulkDrain => bulkDrain p visitor s
    | .stepAdvance => stepAdvance p visitor rounds s
    | .maximumSplit => maximumSplit p visitor rounds s

/-- Drain a source under the strategy of a name. The visitor is looked at before the name. -/
def decomposeByName (p : Protocol σ ω α) (rounds : Nat) (name : String)
    (visitor : Visitor ω τ α) : Draining σ ω τ := fun s =>
  match visitor.callee.require with
  | .error e => .error (.threw e) s
  | .ok _ => Strategy.byName name (fun strategy => decompose p rounds strategy visitor) s

def collect (p : Protocol σ ω α) (rounds : Nat) (strategy : Strategy) :
    Activity (Site σ ω) (List α) := fun s =>
  match decompose p rounds strategy .collecting (s, #[]) with
  | .ok _ (s, seen) => .ok seen.toList s
  | .error h (s, _) => .error h s

end Protocol
end SplitTraversal
