import SplitTraversal.Conformance.Subject
import SplitTraversal.Source.Blueprint

/-! Fixed lists without nulls. Their sources declare that too. -/

namespace SplitTraversal

structure ImmutableList where
  name : String
  elements : List Value
  nonnull : ∀ v ∈ elements, v.isNullish = false

namespace ImmutableList

/-- A list is refused at its first null or undefined element. -/
def create (name : String) (elements : List Value) : Except Thrown ImmutableList :=
  match h : elements.findIdx? Value.isNullish with
  | some i => .error (.violation (.nullElementAt name i))
  | none => .ok ⟨name, elements, fun v hv => by simpa using List.findIdx?_eq_none_iff.mp h v hv⟩

def flags : Characteristics := .ofFlags [.ordered, .immutable, .nonnull]

def subject (c : ImmutableList) : Subject Node Bench where
  name := c.name
  features := []
  splitSource := fun b => .ok (.indexed ⟨.ofList c.elements .undefined flags, .none⟩) b
  sampleElements := fun b => .ok c.elements b
  orderedElements := fun b => .ok c.elements b
  size := fun b => .ok (.int c.elements.length) b

end ImmutableList
end SplitTraversal
