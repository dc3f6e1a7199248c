import SplitTraversal.Conformance.Failure
import SplitTraversal.Conformance.Subject
import SplitTraversal.Order.Named
import SplitTraversal.Traversal.Guarded

/-! Checks: named examinations of a collection, each with a gate that says which collections it
applies to. -/

namespace SplitTraversal

structure CheckContext (σ ω : Type) where
  protocol : Protocol σ ω Value
  rounds : Nat
  subject : Subject σ ω
  strategies : List Strategy
  equivalence : Equivalence Value
  /-- The order of sorted sources that report none of their own. -/
  naturalComparator : Comparator Value

/-- A check applies to collections that have every required feature and whose size is of no absent
class. It reports defects as failures. -/
structure Check (σ ω : Type) where
  name : String
  description : String
  requires : Option (List Feature) := none
  absentSizes : Option (List SizeClass) := none
  run : CheckContext σ ω → Activity ω (List Failure)

namespace Check

variable {σ ω : Type}

/-- Why a check does not apply to a collection; none when it does. Features are asked for before the
size. -/
def skipReason (check : Check σ ω) (subject : Subject σ ω) : Action ω (Option String) := fun w =>
  match (check.requires.getD []).find? fun f => !subject.features.contains f with
  | some f => .ok (some s!"requires feature {f.name}") w
  | none =>
    match subject.size w with
    | .error e w => .error e w
    | .ok size w =>
      let sizeClass := SizeClass.ofValue size
      if (check.absentSizes.getD []).contains sizeClass then
        .ok (some s!"not applicable to collection size {sizeClass.name}") w
      else .ok none w

end Check
end SplitTraversal
