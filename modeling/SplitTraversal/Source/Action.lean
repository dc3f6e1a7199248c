import SplitTraversal.Value.Basic

/-! Actions change a state and either return or throw; the state stays changed when they throw.
Activities may also end because they ran out of rounds: every loop whose end depends on a source
or a subscriber is given a number of rounds. -/

namespace SplitTraversal

abbrev Action (S ρ : Type) := EStateM Thrown S ρ

inductive Halt where
  | threw (thrown : Thrown)
  | outOfRounds
deriving Inhabited

abbrev Activity (S ρ : Type) := EStateM Halt S ρ

abbrev Outcome (ε S ρ : Type) := EStateM.Result ε S ρ

namespace Outcome

variable {ε S T ρ : Type}

def state : Outcome ε S ρ → S
  | .ok _ s => s
  | .error _ s => s

@[inline] def mapState (f : S → T) : Outcome ε S ρ → Outcome ε T ρ
  | .ok a s => .ok a (f s)
  | .error e s => .error e (f s)

end Outcome

structure Focus (S T : Type) where
  get : S → T
  put : T → S → S

namespace Focus

variable {S T ε ρ : Type}

def run (f : Focus S T) (action : EStateM ε T ρ) : EStateM ε S ρ := fun s =>
  match action (f.get s) with
  | .ok a t => .ok a (f.put t s)
  | .error e t => .error e (f.put t s)

end Focus

def Action.lift {S ρ : Type} (action : Action S ρ) : Activity S ρ := fun s =>
  match action s with
  | .ok a s => .ok a s
  | .error e s => .error (.threw e) s

def Action.ofExcept {S ρ : Type} (result : Except Thrown ρ) : Action S ρ := fun s =>
  match result with
  | .ok a => .ok a s
  | .error e => .error e s

end SplitTraversal
