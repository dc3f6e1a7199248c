import SplitTraversal.Session.Store
import SplitTraversal.Traversal.Guarded

/-! The steps of a session and their answers. Visitors of a step may run further steps for some of
the elements they are handed, on the same session, and may throw. -/

namespace SplitTraversal

def ampleRounds : Nat := 0x4000000000000

mutual
/-- One step. A step on a source names it by a number that is taken modulo the number of sources.
Strategies are given by name. -/
inductive Step where
  | new (source : Blueprint)
  | newList (elements : List Value)
  | push (list : Nat) (value : Value)
  | set (list index : Nat) (value : Value)
  | tryAdvance (on : Nat) (visit : Visit)
  | forEachRemaining (on : Nat) (visit : Visit)
  | decompose (on : Nat) (strategy : String) (visit : Visit)
  | trySplit (on : Nat)
  | estimateSize (on : Nat)
  | exactSizeIfKnown (on : Nat)
  | characteristics (on : Nat)
  | hasCharacteristics (on : Nat) (flags : Value)
  | comparator (on : Nat) (probes : List (Value × Value))
  | collect (on : Nat) (strategy : String)
  | traverse (on : Nat) (strategy : String)
  | partition (on : Nat) (maxLeafSize maxDepth : Value)
  | trace (on : Nat)
  | newCollection (plan : CollectionPlan)
  | add (collection : Nat) (value : Value)
  | remove (collection : Nat) (value : Value)
  | size (collection : Nat)
  | name (collection : Nat)
  | features (collection : Nat)
  | sampleElements (collection : Nat)
  | orderedElements (collection : Nat)
  | splitSource (collection : Nat)

inductive Visit where
  /-- Only note the elements. -/
  | log
  /-- A value, callable or not. -/
  | raw (value : Value)
  /-- Note the element of call number `n`, run the steps for `n`, then throw if `n` is among the
  calls to throw at. -/
  | plan (nested : List (Nat × Step)) (throwAt : List Nat) (thrown : Thrown)
end

structure SourceState where
  estimate : Value
  text : Option String

inductive Reply where
  | value (v : Value)
  | values (vs : List Value)
  | traversal (t : Traversal Value)
  | leaves (leaves : List (Nat × SourceState))
  | comparisons (results : List (Except Thrown Value))
  | record (trace : Trace Value)

inductive Answer where
  | returned (reply : Reply)
  | threw (thrown : Thrown)
  | noSource
  | noCollection
  | outOfRounds

/-- The answer of a step, the state of its source afterwards, the elements that its visitor was
handed, and the results of the steps that the visitor ran. -/
structure StepResult where
  answer : Answer
  state : Option SourceState := none
  visited : Option (List Value) := none
  nested : List StepResult := []

structure Memory where
  visited : Array Value
  nested : Array StepResult

def Memory.see (a : Value) (m : Memory) : Memory := { m with visited := m.visited.push a }

namespace Session

def stateOf (n : Node) (b : Bench) : SourceState := ⟨n.estimate b, n.text?⟩

def onSource (on : Nat) (s : Session) (step : Nat → Session → StepResult × Session) :
    StepResult × Session :=
  if s.nodes.isEmpty then ({ answer := .noSource }, s)
  else
    let i := on % s.nodes.size
    let (result, s) := step i s
    ({ result with state := some (stateOf (s.node i) s.bench) }, s)

def answerOf {ρ : Type} (reply : ρ → Reply) (outcome : Outcome Halt Session ρ) :
    StepResult × Session :=
  match outcome with
  | .ok a s => ({ answer := .returned (reply a) }, s)
  | .error (.threw e) s => ({ answer := .threw e }, s)
  | .error .outOfRounds s => ({ answer := .outOfRounds }, s)

def ask {ρ : Type} (on : Nat) (s : Session) (reply : ρ → Reply)
    (op : Activity (Site Node Bench) ρ) : StepResult × Session :=
  onSource on s fun i s => answerOf reply ((source i).run op s)

def declares (flags : Value) : Action (Site Node Bench) Bool := fun s =>
  match Node.protocol.characteristics s with
  | .error e s => .error e s
  | .ok declared s => Action.ofExcept (Characteristics.hasAllValue declared flags) s

def onCollection (i : Nat) (s : Session)
    (step : Collection → Session → StepResult × Session) : StepResult × Session :=
  match s.collections[i]? with
  | none => ({ answer := .noCollection }, s)
  | some c => step c s

def change (i : Nat) (s : Session)
    (f : Collection → Except Thrown (Value × Collection)) : StepResult × Session :=
  onCollection i s fun c s =>
    match f c with
    | .ok (v, c) =>
      ({ answer := .returned (.value v) },
        { s with collections := s.collections.setIfInBounds i c })
    | .error e => ({ answer := .threw e }, s)

def inquire {ρ : Type} (i : Nat) (s : Session) (reply : ρ → Reply)
    (op : Subject Node Bench → Action Bench ρ) : StepResult × Session :=
  onCollection i s fun c s => answerOf reply (shared.run (Action.lift (op c.subject)) s)

/-- The numbers of the leaves of a numbered source. Those that are new become sources of the
session. -/
def addLeaves (itself : Nat) : List (Partitioner.Leaf Node) → Session → List Nat × Session
  | [], s => ([], s)
  | .piece n :: rest, s =>
    let (i, s) := s.addNode n
    let (is, s) := addLeaves itself rest s
    (i :: is, s)
  | .itself :: rest, s =>
    let (is, s) := addLeaves itself rest s
    (itself :: is, s)

def partition (on : Nat) (maxLeafSize maxDepth : Value) (s : Session) : StepResult × Session :=
  onSource on s fun i s =>
    match Partitioner.create maxLeafSize maxDepth with
    | .error e => ({ answer := .threw e }, s)
    | .ok settings =>
      match (source i).run (settings.partition Node.protocol) s with
      | .error e s => ({ answer := .threw e }, s)
      | .ok leaves s =>
        let (numbers, s) := addLeaves i leaves s
        let shown := numbers.map fun n => (n, stateOf (s.node n) s.bench)
        ({ answer := .returned (.leaves shown) }, s)

def probe (on : Nat) (probes : List (Value × Value)) (s : Session) : StepResult × Session :=
  ask on s
    (fun
      | none => .value .null
      | some compare => .comparisons (probes.map fun (a, b) => compare a b))
    (Action.lift Node.protocol.comparator)

def withList (list : Nat) (items : Array Value) (s : Session) : Session :=
  { s with bench := { s.bench with lists := s.bench.lists.setIfInBounds list items } }

def push (list : Nat) (v : Value) (s : Session) : StepResult × Session :=
  match s.bench.lists[list]? with
  | some items =>
    ({ answer := .returned (.value (.int (items.size + 1))) }, s.withList list (items.push v))
  | none => ({ answer := .threw (.misuse (.noFieldOf "undefined" "push")) }, s)

/-- Put an element at a position of a numbered list, with undefined up to there. -/
def set (list index : Nat) (v : Value) (s : Session) : StepResult × Session :=
  match s.bench.lists[list]? with
  | some items =>
    let long := items ++ Array.replicate (index + 1 - items.size) Value.undefined
    ({ answer := .returned (.value .null) }, s.withList list (long.setIfInBounds index v))
  | none => ({ answer := .threw (.misuse (.cannotSet "undefined" (toString index))) }, s)

def visiting {ρ : Type} (on : Nat) (s : Session) (reply : ρ → Reply)
    (visitor : Visitor Session Memory Value)
    (run : Visitor Session Memory Value → Activity (Site Place Session × Memory) ρ) :
    StepResult × Session :=
  onSource on s fun i s =>
    let finish (answer : Answer) (t : Site Place Session × Memory) : StepResult × Session :=
      ({ answer, visited := some t.2.visited.toList, nested := t.2.nested.toList }, t.1.shared)
    match run visitor (⟨.numbered i, s⟩, ⟨#[], #[]⟩) with
    | .ok a t => finish (.returned (reply a)) t
    | .error (.threw e) t => finish (.threw e) t
    | .error .outOfRounds t => finish .outOfRounds t

def operation {ρ : Type}
    (turn : Callee → Site Place Session → Turn (Site Place Session) Value ρ)
    (visitor : Visitor Session Memory Value) : Activity (Site Place Session × Memory) ρ :=
  Action.lift fun (s, m) => Protocol.play visitor turn s m

mutual
def visitorOf : Visit → Visitor Session Memory Value
  | .log => .ofFunction fun a (s, m) => .ok () (s, m.see a)
  | .raw v =>
    match Callee.ofValue v with
    | .callable => .ofFunction fun _ s => .ok () s
    | .other found => .notAFunction found
  | .plan nested throwAt thrown => .ofFunction fun a (s, m) =>
    let call := m.visited.size
    let (results, s) := runNested call nested s
    let m : Memory := ⟨m.visited.push a, m.nested ++ results⟩
    if throwAt.contains call then .error thrown (s, m) else .ok () (s, m)

def runNested (call : Nat) : List (Nat × Step) → Session → Array StepResult × Session
  | [], s => (#[], s)
  | (position, step) :: rest, s =>
    if position = call then
      let (result, s) := runStep step s
      let (results, s) := runNested call rest s
      (#[result] ++ results, s)
    else runNested call rest s

def runStep : Step → Session → StepResult × Session
  | .new source, s =>
    match shared.run source.build s with
    | .ok n s =>
      let (i, s) := s.addNode n
      ({ answer := .returned (.value (.int i)) }, s)
    | .error e s => ({ answer := .threw e }, s)
  | .newList elements, s =>
    let b := s.bench
    ({ answer := .returned (.value (.int b.lists.size)) },
      { s with bench := { b with lists := b.lists.push elements.toArray } })
  | .push list v, s => push list v s
  | .set list index v, s => set list index v s
  | .tryAdvance on visit, s =>
    visiting on s (fun more => .value (.boolean more)) (visitorOf visit)
      (operation Place.protocol.tryAdvance)
  | .forEachRemaining on visit, s =>
    visiting on s (fun _ => .value .undefined) (visitorOf visit)
      (operation Place.protocol.forEachRemaining)
  | .decompose on strategy visit, s =>
    visiting on s (fun _ => .value .undefined) (visitorOf visit) fun visitor =>
      Place.protocol.decomposeByName ampleRounds strategy visitor
  | .trySplit on, s =>
    onSource on s fun i s =>
      match (source i).run Node.protocol.trySplit s with
      | .ok none s => ({ answer := .returned (.value .null) }, s)
      | .ok (some piece) s =>
        let (number, s) := s.addNode piece
        ({ answer := .returned (.value (.int number)) }, s)
      | .error e s => ({ answer := .threw e }, s)
  | .estimateSize on, s => ask on s .value (Action.lift Node.protocol.estimateSize)
  | .exactSizeIfKnown on, s =>
    ask on s .value (Action.lift Node.protocol.exactSizeIfKnown)
  | .characteristics on, s => ask on s .value (Action.lift Node.protocol.characteristics)
  | .hasCharacteristics on flags, s =>
    ask on s (fun found => .value (.boolean found)) (Action.lift (declares flags))
  | .comparator on probes, s => probe on probes s
  | .collect on strategy, s =>
    ask on s .values (Strategy.byName strategy (Node.protocol.collect ampleRounds))
  | .traverse on strategy, s =>
    ask on s .traversal (Strategy.byName strategy (Node.protocol.traverse ampleRounds))
  | .partition on maxLeafSize maxDepth, s => partition on maxLeafSize maxDepth s
  | .trace on, s =>
    onSource on s fun i s =>
      match (s.node i).trace? with
      | some t => ({ answer := .returned (.record (s.bench.trace t)) }, s)
      | none => ({ answer := .threw (.misuse (.noFieldOf "undefined" "drains")) }, s)
  | .newCollection plan, s =>
    match shared.run plan.build s with
    | .ok c s =>
      let (i, s) := s.addCollection c
      ({ answer := .returned (.value (.int i)) }, s)
    | .error e s => ({ answer := .threw e }, s)
  | .add i v, s => change i s (·.add v)
  | .remove i v, s => change i s (·.remove v)
  | .size i, s => inquire i s .value Subject.size
  | .name i, s =>
    inquire i s (fun name => .value (.string name)) fun subject b => .ok subject.name b
  | .features i, s =>
    inquire i s (fun fs => .values (fs.map fun f : Feature => .string f.name)) fun subject b =>
      .ok subject.features b
  | .sampleElements i, s => inquire i s .values Subject.sampleElements
  | .orderedElements i, s => inquire i s .values Subject.orderedElements
  | .splitSource i, s =>
    onCollection i s fun c s =>
      match shared.run c.subject.splitSource s with
      | .ok n s =>
        let (number, s) := s.addNode n
        ({ answer := .returned (.value (.int number)) }, s)
      | .error e s => ({ answer := .threw e }, s)
end

def runSteps (s : Session) : List Step → List StepResult
  | [] => []
  | step :: rest =>
    let (result, s) := runStep step s
    result :: runSteps s rest

end Session
end SplitTraversal
