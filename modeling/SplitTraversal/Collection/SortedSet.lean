import SplitTraversal.Conformance.Subject
import SplitTraversal.Source.Blueprint

/-! Sets kept in ascending order. Of elements that compare equal the first stays. -/

namespace SplitTraversal

/-- The elements in order. Without an order of its own a set is in natural order, and its sources
report none. -/
structure SortedSet where
  name : String
  elements : List Value
  order : Option (Comparator Value)

namespace SortedSet

def compare (c : SortedSet) : Comparator Value := c.order.getD naturalOrder

/-- The lowest position whose element is not less than `v`. -/
def search (v : Value) (c : SortedSet) : Except Thrown Nat :=
  bisectList (fun x => c.compare.precedes x v) c.elements

def holdsAt (v : Value) (i : Nat) (c : SortedSet) : Except Thrown Bool :=
  match c.elements[i]? with
  | none => .ok false
  | some x => c.compare.ties x v

def find (v : Value) (c : SortedSet) : Except Thrown (Nat × Bool) :=
  match c.search v with
  | .error e => .error e
  | .ok i =>
    match c.holdsAt v i with
    | .ok found => .ok (i, found)
    | .error e => .error e

def add (v : Value) (c : SortedSet) : Except Thrown (Bool × SortedSet) :=
  if v.isNullish then .error (.violation (.nullElement c.name))
  else
    match c.find v with
    | .error e => .error e
    | .ok (_, true) => .ok (false, c)
    | .ok (i, false) =>
      .ok (true, { c with elements := c.elements.take i ++ v :: c.elements.drop i })

def remove (v : Value) (c : SortedSet) : Except Thrown (Bool × SortedSet) :=
  match c.find v with
  | .error e => .error e
  | .ok (i, true) => .ok (true, { c with elements := c.elements.eraseIdx i })
  | .ok (_, false) => .ok (false, c)

def addAll : List Value → SortedSet → Except Thrown SortedSet
  | [], c => .ok c
  | v :: rest, c =>
    match c.add v with
    | .ok (_, c) => c.addAll rest
    | .error e => .error e

def create (name : String) (elements : List Value) (order : Option (Comparator Value)) :
    Except Thrown SortedSet :=
  addAll elements ⟨name, [], order⟩

def features : List Feature := [.supportsAdd, .supportsRemove]

def flags : Characteristics := .ofFlags [.sorted, .ordered, .distinct, .nonnull]

def source (c : SortedSet) : Indexed Bench Value :=
  { Indexed.ofList c.elements .undefined flags with order := c.order }

def subject (c : SortedSet) : Subject Node Bench where
  name := c.name
  features := features
  splitSource := fun b => .ok (.indexed ⟨c.source, .none⟩) b
  sampleElements := fun b => .ok c.elements b
  orderedElements := fun b => .ok c.elements b
  size := fun b => .ok (.int c.elements.length) b

end SortedSet
end SplitTraversal
