import SplitTraversal.Source.Bench
import SplitTraversal.Source.Defective
import SplitTraversal.Source.Scripted
import SplitTraversal.Source.Singleton

/-! The sources that can be built from a description, as one type with one protocol. Each operation
is that of the kind of source at hand. -/

namespace SplitTraversal

inductive Node where
  | indexed (source : Flawed Bench Value)
  | singleton (source : Singleton Value)
  | overlapping (source : Overlapping Value)
  | unsized (source : Unsized Value)
  | scripted (source : Scripted)
  | traced (inner : Node) (trace : Nat)

instance : Inhabited Node := ⟨.singleton ⟨none⟩⟩

namespace Node

variable {τ ρ : Type}

/-- A node read as the kind of source that it is. The kind never changes. -/
def part (wrap : τ → Node) (unwrap : Node → Option τ) (source : τ) :
    Focus (Site Node Bench) (Site τ Bench) :=
  ⟨fun s => ⟨(unwrap s.own).getD source, s.shared⟩, fun t _ => ⟨wrap t.own, t.shared⟩⟩

def indexed? : Node → Option (Flawed Bench Value)
  | .indexed s => some s
  | _ => none

def singleton? : Node → Option (Singleton Value)
  | .singleton s => some s
  | _ => none

def overlapping? : Node → Option (Overlapping Value)
  | .overlapping s => some s
  | _ => none

def unsized? : Node → Option (Unsized Value)
  | .unsized s => some s
  | _ => none

def scripted? : Node → Option Scripted
  | .scripted s => some s
  | _ => none

def inner? : Node → Option Node
  | .traced inner _ => some inner
  | _ => none

@[inline] def turn (wrap : τ → Node) (unwrap : Node → Option τ) (source : τ) (b : Bench)
    (t : Site τ Bench → Turn (Site τ Bench) Value ρ) : Turn (Site Node Bench) Value ρ :=
  (t ⟨source, b⟩).within (part wrap unwrap source) ⟨wrap source, b⟩

@[inline] def action (wrap : τ → Node) (source : τ) (b : Bench) (op : Action (Site τ Bench) ρ) :
    Outcome Thrown (Site Node Bench) ρ :=
  Outcome.mapState (fun t => ⟨wrap t.own, t.shared⟩) (op ⟨source, b⟩)

@[inline] def cut (wrap : τ → Node) (source : τ) (b : Bench) (op : Action (Site τ Bench) (Option τ)) :
    Outcome Thrown (Site Node Bench) (Option Node) :=
  match op ⟨source, b⟩ with
  | .ok piece t => .ok (piece.map wrap) ⟨wrap t.own, t.shared⟩
  | .error e t => .error e ⟨wrap t.own, t.shared⟩

def tryAdvance (visitor : Callee) : Node → Bench → Turn (Site Node Bench) Value Bool
  | .indexed s, b => turn .indexed indexed? s b (Flawed.tryAdvance visitor)
  | .singleton s, b => turn .singleton singleton? s b (Singleton.tryAdvance visitor)
  | .overlapping s, b => turn .overlapping overlapping? s b Overlapping.tryAdvance
  | .unsized s, b => turn .unsized unsized? s b Unsized.tryAdvance
  | .scripted s, b => turn .scripted scripted? s b Scripted.tryAdvance
  | .traced inner trace, b =>
    (tryAdvance visitor inner b).within (part (.traced · trace) inner? inner)
      ⟨.traced inner trace, b⟩

def forEachRemaining (visitor : Callee) : Node → Bench → Turn (Site Node Bench) Value Unit
  | .indexed s, b => turn .indexed indexed? s b (Flawed.forEachRemaining visitor)
  | .singleton s, b => turn .singleton singleton? s b (Singleton.forEachRemaining visitor)
  | .overlapping s, b => turn .overlapping overlapping? s b (Overlapping.forEachRemaining visitor)
  | .unsized s, b => turn .unsized unsized? s b (Unsized.forEachRemaining visitor)
  | .scripted s, b => turn .scripted scripted? s b (Scripted.forEachRemaining visitor)
  | .traced inner trace, b =>
    ((Bench.recorder trace).drain (forEachRemaining .callable inner b)).within
      (part (.traced · trace) inner? inner) ⟨.traced inner trace, b⟩

def trySplit : Node → Bench → Outcome Thrown (Site Node Bench) (Option Node)
  | .indexed s, b => cut .indexed s b (Flawed.trySplit .undefined)
  | .singleton s, b => cut .singleton s b Singleton.protocol.trySplit
  | .overlapping s, b => cut .overlapping s b Overlapping.trySplit
  | .unsized s, b => cut .unsized s b Unsized.protocol.trySplit
  | .scripted s, b => cut .scripted s b Scripted.trySplit
  | .traced inner trace, b =>
    cut (.traced · trace) inner b
      ((Bench.recorder trace).split fun s => trySplit inner s.shared)

def estimateSize : Node → Bench → Outcome Thrown (Site Node Bench) Value
  | .indexed s, b => action .indexed s b Flawed.estimateSize
  | .singleton s, b => action .singleton s b Singleton.estimateSize
  | .overlapping s, b => action .overlapping s b Overlapping.estimateSize
  | .unsized s, b => action .unsized s b Unsized.estimateSize
  | .scripted s, b => action .scripted s b Scripted.estimateSize
  | .traced inner trace, b =>
    Outcome.mapState (fun t => ⟨.traced t.own trace, t.shared⟩) (estimateSize inner b)

def characteristics : Node → Bench → Outcome Thrown (Site Node Bench) Value
  | .indexed s, b => action .indexed s b Flawed.declared
  | .singleton s, b => action .singleton s b Singleton.declared
  | .overlapping s, b => action .overlapping s b Overlapping.declared
  | .unsized s, b => action .unsized s b Unsized.declared
  | .scripted s, b => action .scripted s b Scripted.declared
  | .traced inner trace, b =>
    Outcome.mapState (fun t => ⟨.traced t.own trace, t.shared⟩) (characteristics inner b)

def comparator : Node → Bench → Outcome Thrown (Site Node Bench) (Option (Comparator Value))
  | .indexed s, b => action .indexed s b Flawed.comparator
  | .singleton s, b => action .singleton s b Singleton.protocol.comparator
  | .overlapping s, b => action .overlapping s b Overlapping.protocol.comparator
  | .unsized s, b => action .unsized s b Unsized.protocol.comparator
  | .scripted s, b => action .scripted s b Scripted.comparator
  | .traced inner trace, b =>
    Outcome.mapState (fun t => ⟨.traced t.own trace, t.shared⟩) (comparator inner b)

/-- Only a scripted source answers this in its own way. -/
def exactSizeIfKnown (n : Node) (b : Bench) : Outcome Thrown (Site Node Bench) Value :=
  match n with
  | .scripted s => action .scripted s b Scripted.exactSizeIfKnown
  | _ =>
    Source.exactSize (fun s => characteristics s.own s.shared)
      (fun s => estimateSize s.own s.shared) ⟨n, b⟩

def protocol : Protocol Node Bench Value where
  tryAdvance := fun visitor s => tryAdvance visitor s.own s.shared
  forEachRemaining := fun visitor s => forEachRemaining visitor s.own s.shared
  trySplit := fun s => trySplit s.own s.shared
  estimateSize := fun s => estimateSize s.own s.shared
  exactSizeIfKnown := fun s => exactSizeIfKnown s.own s.shared
  characteristics := fun s => characteristics s.own s.shared
  hasCharacteristics := Source.hasFlags fun s => characteristics s.own s.shared
  comparator := fun s => comparator s.own s.shared

def text? : Node → Option String
  | .indexed s => some s.source.text
  | _ => none

def trace? : Node → Option Nat
  | .traced _ trace => some trace
  | _ => none

def estimate (n : Node) (b : Bench) : Value :=
  match n.estimateSize b with
  | .ok size _ => size
  | .error _ _ => .undefined

end Node
end SplitTraversal
