import SplitTraversal.Conformance.Harness

/-! A collection's conformance as a block of tests, one for each check that applies to it. -/

namespace SplitTraversal

structure ConformanceTest where
  title : String
  check : String
deriving DecidableEq, Repr

structure TestResult where
  title : String
  found : List String
deriving DecidableEq, Repr

def TestResult.passed (r : TestResult) : Bool := r.found.isEmpty

structure SuiteResult where
  title : String
  tests : List TestResult
deriving DecidableEq, Repr

namespace Harness

variable {σ ω η β : Type} [DecidableEq η]

def testOf (c : PlannedCheck) : ConformanceTest := ⟨s!"{c.name}: {c.description}", c.name⟩

def conformanceTests (h : Harness σ ω) (subject : Subject σ ω) :
    Action ω (List ConformanceTest) := fun w =>
  match h.plan subject w with
  | .error e w => .error e w
  | .ok planned w => .ok ((planned.filter PlannedCheck.enabled).map testOf) w

def runTests (h : Harness σ ω) (audience : Audience EventKind η Event β) (subject : Subject σ ω) :
    List ConformanceTest → Activity (Stage η β ω) (List TestResult)
  | [], s => .ok [] s
  | test :: rest, s =>
    match h.runCheck audience subject test.check s with
    | .error e s => .error e s
    | .ok outcome s =>
      match runTests h audience subject rest s with
      | .error e s => .error e s
      | .ok results s => .ok (⟨test.title, outcome.failures.map Failure.format⟩ :: results) s

def describeConformance (h : Harness σ ω) (audience : Audience EventKind η Event β)
    (subject : Subject σ ω) : Activity (Stage η β ω) SuiteResult := fun s =>
  match Stage.collections.run (h.conformanceTests subject) s with
  | .error e s => .error (.threw e) s
  | .ok tests s =>
    match h.runTests audience subject tests s with
    | .error e s => .error e s
    | .ok results s => .ok ⟨s!"{subject.name} conformance", results⟩ s

end Harness
end SplitTraversal
