import SplitTraversal.Session.Step

/-! Operations on a source that is built for one operation and then let go. -/

namespace SplitTraversal

/-- What could be seen of a leaf of a partitioned source when its turn came, and its elements if it
was drained. -/
structure SeenLeaf where
  isItself : Bool
  state : SourceState
  elements : Option (List Value)

namespace SeenLeaf

def inspectEach (drain : Bool) (own : Node) :
    List (Partitioner.Leaf Node) → Activity Bench (List SeenLeaf)
  | [], b => .ok [] b
  | leaf :: rest, b =>
    let n := leaf.source own
    let state := Session.stateOf n b
    if drain then
      match Node.protocol.collect ampleRounds .bulkDrain ⟨n, b⟩ with
      | .error h ⟨_, b⟩ => .error h b
      | .ok elements ⟨_, b⟩ =>
        match inspectEach drain own rest b with
        | .error h b => .error h b
        | .ok leaves b => .ok (⟨leaf.isItself, state, some elements⟩ :: leaves) b
    else
      match inspectEach drain own rest b with
      | .error h b => .error h b
      | .ok leaves b => .ok (⟨leaf.isItself, state, none⟩ :: leaves) b

end SeenLeaf

namespace Blueprint

variable {ρ : Type}

def once (source : Blueprint) (activity : Activity (Site Node Bench) ρ) : Except Halt ρ :=
  match source.build .empty with
  | .error e _ => .error (.threw e)
  | .ok node bench =>
    match activity ⟨node, bench⟩ with
    | .ok a _ => .ok a
    | .error h _ => .error h

def collect (source : Blueprint) (strategy : String) : Except Halt (List Value) :=
  source.once (Strategy.byName strategy (Node.protocol.collect ampleRounds))

def traverse (source : Blueprint) (strategy : String) : Except Halt (Traversal Value) :=
  source.once (Strategy.byName strategy (Node.protocol.traverse ampleRounds))

/-- The leaves of the source from left to right. The settings are checked before the source is
built. -/
def partition (source : Blueprint) (maxLeafSize maxDepth : Value) (drain : Bool) :
    Except Halt (List SeenLeaf) :=
  match Partitioner.create maxLeafSize maxDepth with
  | .error e => .error (.threw e)
  | .ok settings => source.once fun s =>
    match settings.partition Node.protocol s with
    | .error e s => .error (.threw e) s
    | .ok leaves ⟨own, b⟩ =>
      match SeenLeaf.inspectEach drain own leaves b with
      | .error h b => .error h ⟨own, b⟩
      | .ok leaves b => .ok leaves ⟨own, b⟩

end Blueprint
end SplitTraversal
