import SplitTraversal.Conformance.Failure

/-! What a harness announces while it runs. -/

namespace SplitTraversal

structure EventKind where
  name : String
deriving DecidableEq, Repr, Inhabited

inductive Event where
  /-- A run begins; its checks have been selected. -/
  | runStarted (collection : String) (checks strategies : List String)
  | checkStarted (collection check : String)
  | checkPassed (collection check : String)
  | checkFailed (collection check : String) (failures : List Failure)
  | checkSkipped (collection check reason : String)
  /-- Every selected check has run or was skipped. -/
  | runCompleted (collection : String) (passed : Bool) (passedCount failedCount skippedCount : Nat)

def Event.kind : Event → EventKind
  | .runStarted .. => ⟨"harness:started"⟩
  | .checkStarted .. => ⟨"check:started"⟩
  | .checkPassed .. => ⟨"check:passed"⟩
  | .checkFailed .. => ⟨"check:failed"⟩
  | .checkSkipped .. => ⟨"check:skipped"⟩
  | .runCompleted .. => ⟨"harness:completed"⟩

end SplitTraversal
