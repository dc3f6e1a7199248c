import SplitTraversal.Source.Protocol

/-! Collections under test: what they hand out and what they say their contents are. -/

namespace SplitTraversal

structure Feature where
  name : String
deriving DecidableEq, Repr, Inhabited

namespace Feature

def allowsNullValues : Feature := ⟨"ALLOWS_NULL_VALUES"⟩
def supportsAdd : Feature := ⟨"SUPPORTS_ADD"⟩
def supportsRemove : Feature := ⟨"SUPPORTS_REMOVE"⟩

def all : List Feature := [allowsNullValues, supportsAdd, supportsRemove]

def distinct (features : List Feature) : List Feature :=
  features.foldl (fun seen f => if seen.contains f then seen else seen ++ [f]) []

end Feature

inductive SizeClass where
  | zero
  | one
  | several
deriving DecidableEq, Repr

namespace SizeClass

def all : List SizeClass := [zero, one, several]

def name : SizeClass → String
  | .zero => "ZERO"
  | .one => "ONE"
  | .several => "SEVERAL"

def ofName? (name : String) : Option SizeClass := all.find? (·.name == name)

/-- Anything but zero and one counts as several. -/
def ofValue (count : Value) : SizeClass :=
  if count.strictEquals (.int 0) then .zero
  else if count.strictEquals (.int 1) then .one
  else .several

end SizeClass

/-- A collection whose sources have own state `σ`, in shared state `ω`. Asking it for anything may
change the shared state, and may throw. -/
structure Subject (σ ω : Type) where
  name : String
  features : List Feature
  splitSource : Action ω σ
  sampleElements : Action ω (List Value)
  orderedElements : Action ω (List Value)
  /-- The size that is claimed, which need not be a number. -/
  size : Action ω Value

end SplitTraversal
