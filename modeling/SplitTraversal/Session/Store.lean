import SplitTraversal.Collection.Basic
import SplitTraversal.Traversal.Partition

/-! Sessions hold numbered sources and collections and work on them one step after the other. A
source of a session can be worked on by a visitor while an operation of that source is under way, so
operations on it read and write the session and keep nothing of their own. -/

namespace SplitTraversal

structure Session where
  nodes : Array Node
  collections : Array Collection
  bench : Bench
deriving Inhabited

namespace Session

def empty : Session := ⟨#[], #[], .empty⟩

def node (s : Session) (i : Nat) : Node := s.nodes[i]?.getD default

def source (i : Nat) : Focus Session (Site Node Bench) :=
  ⟨fun s => ⟨s.node i, s.bench⟩,
    fun t s => { s with nodes := s.nodes.setIfInBounds i t.own, bench := t.shared }⟩

def shared : Focus Session Bench := ⟨Session.bench, fun b s => { s with bench := b }⟩

def addNode (n : Node) (s : Session) : Nat × Session :=
  (s.nodes.size, { s with nodes := s.nodes.push n })

def addCollection (c : Collection) (s : Session) : Nat × Session :=
  (s.collections.size, { s with collections := s.collections.push c })

end Session

/-- Where a source is: in the session, or in the hands of the operation that split it off. -/
inductive Place where
  | numbered (i : Nat)
  | held (node : Node)

namespace Place

def focus (p : Place) : Focus (Site Place Session) (Site Node Bench) :=
  match p with
  | .numbered i =>
    ⟨fun s => (Session.source i).get s.shared,
      fun t s => { s with shared := (Session.source i).put t s.shared }⟩
  | .held node =>
    ⟨fun s => ⟨match s.own with | .held n => n | .numbered _ => node, s.shared.bench⟩,
      fun t s => ⟨.held t.own, { s.shared with bench := t.shared }⟩⟩

variable {ρ : Type}

def turn (t : Site Node Bench → Turn (Site Node Bench) Value ρ) (s : Site Place Session) :
    Turn (Site Place Session) Value ρ :=
  (t (s.own.focus.get s)).within s.own.focus s

def action (op : Action (Site Node Bench) ρ) : Action (Site Place Session) ρ := fun s =>
  s.own.focus.run op s

/-- The operations of the source at a place. What it splits off is held by whoever asked. -/
def protocol : Protocol Place Session Value where
  tryAdvance := fun visitor => turn (Node.protocol.tryAdvance visitor)
  forEachRemaining := fun visitor => turn (Node.protocol.forEachRemaining visitor)
  trySplit := fun s =>
    match action Node.protocol.trySplit s with
    | .ok piece s => .ok (piece.map .held) s
    | .error e s => .error e s
  estimateSize := action Node.protocol.estimateSize
  exactSizeIfKnown := action Node.protocol.exactSizeIfKnown
  characteristics := action Node.protocol.characteristics
  hasCharacteristics := fun flags => action (Node.protocol.hasCharacteristics flags)
  comparator := action Node.protocol.comparator

end Place
end SplitTraversal
