import SplitTraversal.Source.Traced

/-! What sources and collections share: the records of traced sources, the lists that snapshots are
taken of, and how often each custom collection was asked for a source. -/

namespace SplitTraversal

structure Bench where
  traces : Array (Trace Value)
  lists : Array (Array Value)
  calls : Array Nat
deriving Inhabited

namespace Bench

def empty : Bench := ⟨#[], #[], #[]⟩

def recorder (trace : Nat) : Recorder Bench Value :=
  ⟨fun f b => { b with traces := b.traces.modify trace f }⟩

def newTrace (b : Bench) : Nat × Bench :=
  (b.traces.size, { b with traces := b.traces.push .empty })

def trace (b : Bench) (i : Nat) : Trace Value := b.traces[i]?.getD .empty

def callsOf (b : Bench) (slot : Nat) : Nat := b.calls[slot]?.getD 0

def newSlot (b : Bench) : Nat × Bench := (b.calls.size, { b with calls := b.calls.push 0 })

def countCall (b : Bench) (slot : Nat) : Bench :=
  { b with calls := b.calls.modify slot (· + 1) }

end Bench
end SplitTraversal
