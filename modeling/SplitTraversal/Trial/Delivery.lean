import SplitTraversal.Session.Step
import SplitTraversal.Trial.Journal

/-! A bus by itself: subscriptions and deliveries one after the other, each with the page of the
journal that it filled. -/

namespace SplitTraversal

inductive BusStep (E : Type) where
  | subscription (change : SubscriptionChange)
  | emit (event : E)

structure BusResult (E : Type) where
  ending : Except Halt Unit
  journal : Journal E

namespace BusStep

variable {E : Type}

def run (audience : Audience EventKind String E (Journal E)) (step : BusStep E)
    (bus : Bus EventKind String) (j : Journal E) : BusResult E × Bus EventKind String :=
  match step with
  | .subscription change => (⟨.ok (), j.turnPage⟩, change.apply bus)
  | .emit event =>
    match audience.emit ampleRounds event (bus, j.turnPage) with
    | .ok _ (bus, j) => (⟨.ok (), j⟩, bus)
    | .error h (bus, j) => (⟨.error h, j⟩, bus)

def runAll (audience : Audience EventKind String E (Journal E)) :
    List (BusStep E) → Bus EventKind String → Journal E → List (BusResult E)
  | [], _, _ => []
  | step :: rest, bus, j =>
    let (result, bus) := step.run audience bus j
    result :: runAll audience rest bus result.journal

end BusStep
end SplitTraversal
