import SplitTraversal.Conformance.Registry

/-! Checks by description. -/

namespace SplitTraversal

inductive CheckAction where
  | report (failures : List Failure)
  | throwing (thrown : Thrown)
  /-- Run the built-in check of this name. -/
  | builtIn (name : String)
  /-- Report what the context says of two values. -/
  | context (a b : Value)

structure CheckPlan where
  name : String
  description : String
  requires : Option (List Feature)
  absentSizes : Option (List SizeClass)
  action : CheckAction

namespace CheckPlan

variable {σ ω : Type}

def contextFailure (check : String) (c : CheckContext σ ω) (a b : Value) :
    Action ω (List Failure) := fun w =>
  match c.subject.size w with
  | .error e w => .error e w
  | .ok size w =>
    match c.equivalence a b with
    | .error e => .error e w
    | .ok equal =>
      match c.naturalComparator a b with
      | .error e => .error e w
      | .ok order =>
        match order.text with
        | .error e => .error e w
        | .ok sign =>
          let same := if equal then "true" else "false"
          .ok [{ check
                 code := .sizeMismatch
                 expected := some (.list (c.strategies.map fun s => .string s.name))
                 actual := some size
                 message := s!"{c.subject.name} {same} {sign}" }] w

def run (name : String) : CheckAction → CheckContext σ ω → Activity ω (List Failure)
  | .report failures, _ => fun w => .ok failures w
  | .throwing thrown, _ => fun w => .error (.threw thrown) w
  | .builtIn other, c => fun w =>
    match BuiltIn.named? other with
    | some check => check.run c w
    | none => .error (.threw (.misuse (.noFieldOf "undefined" "run"))) w
  | .context a b, c => Action.lift (contextFailure name c a b)

def build (plan : CheckPlan) : Check σ ω where
  name := plan.name
  description := plan.description
  requires := plan.requires
  absentSizes := plan.absentSizes
  run := run plan.name plan.action

def registry : Option (List CheckPlan) → Except Thrown (Registry σ ω)
  | none => .ok .withDefaults
  | some plans => Registry.empty.registerAll (plans.map build)

end CheckPlan
end SplitTraversal
