import SplitTraversal.Collection.Basic
import SplitTraversal.Conformance.Suite
import SplitTraversal.Session.Step
import SplitTraversal.Trial.CheckPlan
import SplitTraversal.Trial.Journal

/-! Trials: a harness, its subjects and its subscribers, worked on step after step. Each step tells
what the subscribers noted and how many sources the custom subjects were asked for. -/

namespace SplitTraversal

structure TrialSettings where
  settings : Settings
  registry : Option (List CheckPlan)
  policy : ErrorPolicy
  handlers : List Handler
  subjects : List CollectionPlan

structure Trial where
  harness : Harness Node Bench
  audience : Audience EventKind String Event (Journal Event)
  subjects : Array Collection
  stage : Stage String (Journal Event) Bench

inductive TrialStep where
  | strategies
  | register (check : CheckPlan)
  | subscription (change : SubscriptionChange)
  | plan (subject : Nat)
  | run (subject : Nat)
  | assertConforms (subject : Nat)
  | runCheck (subject : Nat) (name : String)
  | conformanceTests (subject : Nat)
  | add (subject : Nat) (value : Value)
  | remove (subject : Nat) (value : Value)

inductive TrialReply where
  | nothing
  | done
  | value (v : Value)
  | strategies (strategies : List Strategy)
  | planned (checks : List PlannedCheck)
  | report (report : Report)
  | outcome (outcome : CheckOutcome)
  | tests (tests : List ConformanceTest)

inductive TrialAnswer where
  | returned (reply : TrialReply)
  | threw (thrown : Thrown)
  | outOfRounds

structure TrialResult where
  answer : TrialAnswer
  journal : Journal Event
  sources : Nat

namespace Trial

def buildSubjects : List CollectionPlan → Action Bench (List Collection)
  | [], b => .ok [] b
  | plan :: rest, b =>
    match plan.build b with
    | .error e b => .error e b
    | .ok c b =>
      match buildSubjects rest b with
      | .error e b => .error e b
      | .ok cs b => .ok (c :: cs) b

def buildHarness (t : TrialSettings) : Except Thrown (Harness Node Bench) :=
  match CheckPlan.registry t.registry with
  | .error e => .error e
  | .ok registry => Harness.create Node.protocol ampleRounds registry t.settings

def start (t : TrialSettings) (harness : Harness Node Bench) (subjects : List Collection)
    (bench : Bench) : Trial where
  harness := harness
  audience := Journal.audience Event.kind t.handlers t.policy
  subjects := subjects.toArray
  stage := ⟨.empty, .empty, bench⟩

/-- The harness is built before its subjects. -/
def create (t : TrialSettings) : Except Thrown Trial :=
  match buildHarness t with
  | .error e => .error e
  | .ok harness =>
    match buildSubjects t.subjects .empty with
    | .error e _ => .error e
    | .ok subjects bench => .ok (start t harness subjects bench)

def subject (t : Trial) (i : Nat) : Subject Node Bench :=
  match t.subjects[i]? with
  | some c => c.subject
  | none => (Collection.arrayList ⟨"", []⟩).subject

def sourceCalls (t : Trial) : Nat := t.stage.world.calls.foldl (· + ·) 0

def conclude {ρ : Type} (t : Trial) (reply : ρ → TrialReply)
    (outcome : Outcome Halt (Stage String (Journal Event) Bench) ρ) : TrialAnswer × Trial :=
  match outcome with
  | .ok a stage => (.returned (reply a), { t with stage })
  | .error (.threw e) stage => (.threw e, { t with stage })
  | .error .outOfRounds stage => (.outOfRounds, { t with stage })

def quietly {ρ : Type} (t : Trial) (reply : ρ → TrialReply) (op : Action Bench ρ) :
    TrialAnswer × Trial :=
  t.conclude reply (Stage.collections.run (Action.lift op) t.stage)

def change (t : Trial) (i : Nat) (f : Collection → Except Thrown (Value × Collection)) :
    TrialAnswer × Trial :=
  match t.subjects[i]? with
  | none => (.returned .nothing, t)
  | some c =>
    match f c with
    | .ok (v, c) => (.returned (.value v), { t with subjects := t.subjects.setIfInBounds i c })
    | .error e => (.threw e, t)

def perform (t : Trial) : TrialStep → TrialAnswer × Trial
  | .strategies => (.returned (.strategies t.harness.strategies), t)
  | .register check =>
    match t.harness.register check.build with
    | .ok harness => (.returned .done, { t with harness })
    | .error e => (.threw e, t)
  | .subscription change =>
    (.returned .nothing, { t with stage := { t.stage with bus := change.apply t.stage.bus } })
  | .plan i => t.quietly .planned (t.harness.plan (t.subject i))
  | .run i => t.conclude .report (t.harness.run t.audience (t.subject i) t.stage)
  | .assertConforms i =>
    t.conclude .report (t.harness.assertConforms t.audience (t.subject i) t.stage)
  | .runCheck i name =>
    t.conclude .outcome (t.harness.runCheck t.audience (t.subject i) name t.stage)
  | .conformanceTests i => t.quietly .tests (t.harness.conformanceTests (t.subject i))
  | .add i v => t.change i (·.add v)
  | .remove i v => t.change i (·.remove v)

def step (t : Trial) (s : TrialStep) : TrialResult × Trial :=
  let before := t.sourceCalls
  let t := { t with stage := { t.stage with memory := t.stage.memory.turnPage } }
  let (answer, t) := t.perform s
  (⟨answer, t.stage.memory, t.sourceCalls - before⟩, t)

def steps (t : Trial) : List TrialStep → List TrialResult
  | [] => []
  | s :: rest =>
    let (result, t) := t.step s
    result :: t.steps rest

/-- The block of tests of one collection, each run once with nobody listening. The collection is
there before the harness is built for it. -/
def suite (t : TrialSettings) : Except Thrown (Option SuiteResult) :=
  match buildSubjects t.subjects .empty with
  | .error e _ => .error e
  | .ok subjects bench =>
    match buildHarness t with
    | .error e => .error e
    | .ok harness =>
      let trial := start t harness subjects bench
      match harness.describeConformance trial.audience (trial.subject 0) trial.stage with
      | .ok result _ => .ok (some result)
      | .error (.threw e) _ => .error e
      | .error .outOfRounds _ => .ok none

end Trial
end SplitTraversal
