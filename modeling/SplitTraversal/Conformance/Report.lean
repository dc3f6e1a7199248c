import SplitTraversal.Conformance.Failure

/-! Outcomes of checks, and the report of a run. -/

namespace SplitTraversal

inductive CheckStatus where
  | passed
  | failed
  | skipped
deriving DecidableEq, Repr

namespace CheckStatus

def all : List CheckStatus := [passed, failed, skipped]

def name : CheckStatus → String
  | .passed => "PASSED"
  | .failed => "FAILED"
  | .skipped => "SKIPPED"

end CheckStatus

inductive CheckOutcome where
  | passed (check : String)
  | failed (check : String) (failures : List Failure)
  | skipped (check : String) (reason : String)

namespace CheckOutcome

def check : CheckOutcome → String
  | .passed check | .failed check _ | .skipped check _ => check

def status : CheckOutcome → CheckStatus
  | .passed _ => .passed
  | .failed _ _ => .failed
  | .skipped _ _ => .skipped

def failures : CheckOutcome → List Failure
  | .failed _ failures => failures
  | _ => []

def skipReason? : CheckOutcome → Option String
  | .skipped _ reason => some reason
  | _ => none

end CheckOutcome

structure Report where
  collection : String
  passed : Bool
  outcomes : List CheckOutcome
  failures : List Failure

namespace Report

def build (collection : String) (outcomes : List CheckOutcome) : Report :=
  { collection
    passed := outcomes.all fun o => o.status != .failed
    outcomes
    failures := outcomes.flatMap CheckOutcome.failures }

def count (outcomes : List CheckOutcome) (status : CheckStatus) : Nat :=
  (outcomes.filter fun o => o.status == status).length

def require (r : Report) : Except Thrown Unit :=
  if r.passed then .ok ()
  else .error (.fault (.nonconforming r.collection (r.failures.map Failure.format)))

end Report
end SplitTraversal
