import SplitTraversal.Conformance.Bus
import SplitTraversal.Conformance.Event
import SplitTraversal.Conformance.Registry
import SplitTraversal.Conformance.Report

/-! The harness: which checks are run on a collection under which settings, their outcomes, and the
events that are announced on the way. -/

namespace SplitTraversal

inductive Choice where
  | all
  | only (names : List String)
  /-- Null in the place of a list of names. -/
  | null

/-- What may be asked of a harness. Strategies and checks are given by name. -/
structure Settings where
  strategies : Choice := .all
  checks : Choice := .all
  equivalence : Equivalence Value := NamedEquivalence.sameValueZero.holds
  naturalComparator : Comparator Value := naturalOrder

/-- The resolved settings. The registry may still grow. -/
structure Harness (σ ω : Type) where
  protocol : Protocol σ ω Value
  rounds : Nat
  registry : Registry σ ω
  strategies : List Strategy
  equivalence : Equivalence Value
  naturalComparator : Comparator Value
  selected : Option (List String)

structure PlannedCheck where
  name : String
  description : String
  skipReason : Option String
deriving DecidableEq, Repr

def PlannedCheck.enabled (c : PlannedCheck) : Bool := c.skipReason.isNone

/-- The state of a harness at work: the subscribers and their memory, and what collections and
sources share. -/
structure Stage (η β ω : Type) where
  bus : Bus EventKind η
  memory : β
  world : ω

namespace Stage

variable {η β ω : Type}

def audience : Focus (Stage η β ω) (Bus EventKind η × β) :=
  ⟨fun s => (s.bus, s.memory), fun t s => { s with bus := t.1, memory := t.2 }⟩

def collections : Focus (Stage η β ω) ω := ⟨Stage.world, fun w s => { s with world := w }⟩

end Stage

namespace Harness

def knownStrategies : List String := Strategy.all.map Strategy.name

def strategiesOfNames : List String → Except Thrown (List Strategy)
  | [] => .ok []
  | name :: rest =>
    match Strategy.ofName? name with
    | none => .error (.violation (.unknownStrategy name knownStrategies))
    | some strategy =>
      match strategiesOfNames rest with
      | .ok strategies => .ok (strategy :: strategies)
      | .error e => .error e

def resolveStrategies : Choice → Except Thrown (List Strategy)
  | .all => .ok Strategy.all
  | .only [] => .error (.violation .noStrategy)
  | .only names => strategiesOfNames names
  | .null => .error (.misuse (.noFieldOf "null" "length"))

variable {σ ω : Type}

def resolveChecks (registry : Registry σ ω) : Choice → Except Thrown (Option (List String))
  | .all => .ok none
  | .only names =>
    match names.filter (!registry.has ·) with
    | [] => .ok (some names)
    | unknown => .error (.violation (.unknownChecks unknown registry.names))
  | .null => .error (.misuse (.noFieldOf "null" "filter"))

def create (protocol : Protocol σ ω Value) (rounds : Nat) (registry : Registry σ ω)
    (settings : Settings) : Except Thrown (Harness σ ω) :=
  match resolveStrategies settings.strategies with
  | .error e => .error e
  | .ok strategies =>
    match resolveChecks registry settings.checks with
    | .error e => .error e
    | .ok selected =>
      .ok { protocol, rounds, registry, strategies, selected
            equivalence := settings.equivalence
            naturalComparator := settings.naturalComparator }

def register (h : Harness σ ω) (check : Check σ ω) : Except Thrown (Harness σ ω) :=
  match h.registry.register check with
  | .ok registry => .ok { h with registry }
  | .error e => .error e

def checksToRun (h : Harness σ ω) : List (Check σ ω) :=
  match h.selected with
  | none => h.registry.checks
  | some names => h.registry.checks.filter fun check => names.contains check.name

def context (h : Harness σ ω) (subject : Subject σ ω) : CheckContext σ ω :=
  { protocol := h.protocol
    rounds := h.rounds
    subject
    strategies := h.strategies
    equivalence := h.equivalence
    naturalComparator := h.naturalComparator }

def planOf (subject : Subject σ ω) : List (Check σ ω) → Action ω (List PlannedCheck)
  | [], w => .ok [] w
  | check :: rest, w =>
    match check.skipReason subject w with
    | .error e w => .error e w
    | .ok skipReason w =>
      match planOf subject rest w with
      | .error e w => .error e w
      | .ok planned w => .ok (⟨check.name, check.description, skipReason⟩ :: planned) w

def plan (h : Harness σ ω) (subject : Subject σ ω) : Action ω (List PlannedCheck) :=
  planOf subject h.checksToRun

/-- The failures that a check reports. A check that throws has one failure, which carries what was
thrown and describes it; what cannot be described is thrown on. -/
def runGuarded (h : Harness σ ω) (subject : Subject σ ω) (check : Check σ ω) :
    Activity ω (List Failure) := fun w =>
  match check.run (h.context subject) w with
  | .ok failures w => .ok failures w
  | .error .outOfRounds w => .error .outOfRounds w
  | .error (.threw e) w =>
    match e.describe with
    | .error e => .error (.threw e) w
    | .ok description =>
      .ok [{ check := check.name
             code := .checkThrew
             actual := some e
             message := s!"check threw {description}" }] w

variable {η β : Type} [DecidableEq η]

def announce (h : Harness σ ω) (audience : Audience EventKind η Event β) (event : Event) :
    Activity (Stage η β ω) Unit :=
  Stage.audience.run (audience.emit h.rounds event)

def ending (subject check : String) (failures : List Failure) : Event :=
  if failures.isEmpty then .checkPassed subject check else .checkFailed subject check failures

def outcomeOf (check : String) (failures : List Failure) : CheckOutcome :=
  if failures.isEmpty then .passed check else .failed check failures

def runOne (h : Harness σ ω) (audience : Audience EventKind η Event β) (subject : Subject σ ω)
    (check : Check σ ω) : Activity (Stage η β ω) CheckOutcome := fun s =>
  match Stage.collections.run (check.skipReason subject) s with
  | .error e s => .error (.threw e) s
  | .ok (some reason) s =>
    match h.announce audience (.checkSkipped subject.name check.name reason) s with
    | .error e s => .error e s
    | .ok _ s => .ok (.skipped check.name reason) s
  | .ok none s =>
    match h.announce audience (.checkStarted subject.name check.name) s with
    | .error e s => .error e s
    | .ok _ s =>
      match Stage.collections.run (h.runGuarded subject check) s with
      | .error e s => .error e s
      | .ok failures s =>
        match h.announce audience (ending subject.name check.name failures) s with
        | .error e s => .error e s
        | .ok _ s => .ok (outcomeOf check.name failures) s

def runEach (h : Harness σ ω) (audience : Audience EventKind η Event β) (subject : Subject σ ω) :
    List (Check σ ω) → Activity (Stage η β ω) (List CheckOutcome)
  | [], s => .ok [] s
  | check :: rest, s =>
    match h.runOne audience subject check s with
    | .error e s => .error e s
    | .ok outcome s =>
      match runEach h audience subject rest s with
      | .error e s => .error e s
      | .ok outcomes s => .ok (outcome :: outcomes) s

def completion (report : Report) : Event :=
  .runCompleted report.collection report.passed
    (Report.count report.outcomes .passed) (Report.count report.outcomes .failed)
    (Report.count report.outcomes .skipped)

def run (h : Harness σ ω) (audience : Audience EventKind η Event β) (subject : Subject σ ω) :
    Activity (Stage η β ω) Report := fun s =>
  let checks := h.checksToRun
  let start := Event.runStarted subject.name (checks.map Check.name)
    (h.strategies.map Strategy.name)
  match h.announce audience start s with
  | .error e s => .error e s
  | .ok _ s =>
    match h.runEach audience subject checks s with
    | .error e s => .error e s
    | .ok outcomes s =>
      let report := Report.build subject.name outcomes
      match h.announce audience (completion report) s with
      | .error e s => .error e s
      | .ok _ s => .ok report s

def runCheck (h : Harness σ ω) (audience : Audience EventKind η Event β) (subject : Subject σ ω)
    (name : String) : Activity (Stage η β ω) CheckOutcome := fun s =>
  match h.registry.get? name with
  | none => .error (.threw (.violation (.unknownCheck name h.registry.names))) s
  | some check => h.runOne audience subject check s

def assertConforms (h : Harness σ ω) (audience : Audience EventKind η Event β)
    (subject : Subject σ ω) : Activity (Stage η β ω) Report := fun s =>
  match h.run audience subject s with
  | .error e s => .error e s
  | .ok report s =>
    match report.require with
    | .ok _ => .ok report s
    | .error e => .error (.threw e) s

end Harness
end SplitTraversal
