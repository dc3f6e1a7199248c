import SplitTraversal.Source.Action

/-! The three fixed ways of draining a source. -/

namespace SplitTraversal

inductive Strategy where
  /-- One bulk drain of the untouched source. -/
  | bulkDrain
  /-- One element at a time until nothing remains. -/
  | stepAdvance
  /-- Split until indivisible, draining each part depth-first before the remainder. -/
  | maximumSplit
deriving DecidableEq, Repr, Inhabited

namespace Strategy

def all : List Strategy := [bulkDrain, stepAdvance, maximumSplit]

def name : Strategy → String
  | .bulkDrain => "BULK_DRAIN"
  | .stepAdvance => "STEP_ADVANCE"
  | .maximumSplit => "MAXIMUM_SPLIT"

def ofName? (name : String) : Option Strategy := all.find? (·.name == name)

/-- Do something under the strategy of a name. Nothing can be called by any other name. -/
def byName {S ρ : Type} (name : String) (activity : Strategy → Activity S ρ) : Activity S ρ :=
  fun s =>
    match ofName? name with
    | some strategy => activity strategy s
    | none => .error (.threw (.misuse (.notAFunction "DRAINS[strategy]"))) s

end Strategy
end SplitTraversal
