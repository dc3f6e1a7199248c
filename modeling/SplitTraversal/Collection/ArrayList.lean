import SplitTraversal.Conformance.Subject
import SplitTraversal.Source.Blueprint

/-! Growable lists that accept nulls. Their sources are ordered snapshots. -/

namespace SplitTraversal

structure ArrayList where
  name : String
  elements : List Value

namespace ArrayList

def add (v : Value) (c : ArrayList) : ArrayList := { c with elements := c.elements ++ [v] }

def remove (v : Value) (c : ArrayList) : Bool × ArrayList :=
  match c.elements.findIdx? (·.sameValueZero v) with
  | some i => (true, { c with elements := c.elements.eraseIdx i })
  | none => (false, c)

def features : List Feature := [.allowsNullValues, .supportsAdd, .supportsRemove]

def subject (c : ArrayList) : Subject Node Bench where
  name := c.name
  features := features
  splitSource := fun b => .ok (Blueprint.orderedSnapshot c.elements .none) b
  sampleElements := fun b => .ok c.elements b
  orderedElements := fun b => .ok c.elements b
  size := fun b => .ok (.int c.elements.length) b

end ArrayList
end SplitTraversal
