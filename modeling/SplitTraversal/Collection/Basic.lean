import SplitTraversal.Collection.ArrayList
import SplitTraversal.Collection.ImmutableList
import SplitTraversal.Collection.SortedSet

/-! The collections that a harness can be pointed at, and how they are built from descriptions. -/

namespace SplitTraversal

/-- A collection put together from a source factory and the elements it should yield. -/
structure Custom (σ ω : Type) where
  name : String
  features : List Feature
  elements : List Value
  factory : Action ω σ
  size : Value

def Custom.subject {σ ω : Type} (c : Custom σ ω) : Subject σ ω where
  name := c.name
  features := c.features
  splitSource := c.factory
  sampleElements := fun w => .ok c.elements w
  orderedElements := fun w => .ok c.elements w
  size := fun w => .ok c.size w

structure Single where
  name : String
  value : Value

def Single.subject (c : Single) : Subject Node Bench where
  name := c.name
  features := [.allowsNullValues]
  splitSource := fun b => .ok (.singleton ⟨some c.value⟩) b
  sampleElements := fun b => .ok [c.value] b
  orderedElements := fun b => .ok [c.value] b
  size := fun b => .ok (.int 1) b

/-- Build the source for call number `n`: the one described for it, or the last one described. -/
def Blueprint.buildCall (sources : List Blueprint) (n : Nat) : Action Bench Node :=
  match sources[n]? with
  | some source => source.build
  | none => (sources.getLast?.getD .empty).build

def Blueprint.factory (slot : Nat) (sources : List Blueprint) : Action Bench Node := fun b =>
  buildCall sources (b.callsOf slot) (b.countCall slot)

inductive Collection where
  | arrayList (collection : ArrayList)
  | immutableList (collection : ImmutableList)
  | sortedSet (collection : SortedSet)
  | single (collection : Single)
  | custom (collection : Custom Node Bench) (slot : Nat)

namespace Collection

def subject : Collection → Subject Node Bench
  | .arrayList c => c.subject
  | .immutableList c => c.subject
  | .sortedSet c => c.subject
  | .single c => c.subject
  | .custom c _ => c.subject

def calls (b : Bench) : Collection → Nat
  | .custom _ slot => b.callsOf slot
  | _ => 0

def add (v : Value) : Collection → Except Thrown (Value × Collection)
  | .arrayList c => .ok (.undefined, .arrayList (c.add v))
  | .sortedSet c =>
    match c.add v with
    | .ok (added, c) => .ok (.boolean added, .sortedSet c)
    | .error e => .error e
  | _ => .error (.misuse (.notAFunction "add"))

def remove (v : Value) : Collection → Except Thrown (Value × Collection)
  | .arrayList c =>
    let (removed, c) := c.remove v
    .ok (.boolean removed, .arrayList c)
  | .sortedSet c =>
    match c.remove v with
    | .ok (removed, c) => .ok (.boolean removed, .sortedSet c)
    | .error e => .error e
  | _ => .error (.misuse (.notAFunction "remove"))

end Collection

/-- The elements that a value yields one by one: those of an array, or the characters of a text. The
place is where they are asked for. -/
def Value.iterate (place : String) : Value → Except Thrown (List Value)
  | .array items _ => .ok items
  | .string s => .ok ((Text.characters s).map .string)
  | _ => .error (misuse (.notIterable place))

def Value.iterateGiven (place : String) (v : Value) : Except Thrown (List Value) :=
  if v.isUndefined then .ok [] else v.iterate place

inductive CollectionPlan where
  | arrayList (name : String) (elements : Value)
  | immutableList (name : String) (elements : Value)
  | sortedSet (name : String) (elements : Value) (order : Option (Comparator Value))
  | single (name : String) (value : Value)
  | custom (name : String) (features : List Feature) (elements : Value)
      (sources : List Blueprint) (size : Value)

namespace CollectionPlan

def ofElements (elements : Except Thrown (List Value))
    (create : List Value → Except Thrown Collection) : Action Bench Collection :=
  .ofExcept (match elements with
    | .ok items => create items
    | .error e => .error e)

/-- The size of a custom collection is the number of its elements where no other is given. -/
def ofItems (name : String) (features : List Feature) (sources : List Blueprint) (size : Value)
    (items : List Value) : Action Bench Collection := fun b =>
  let (slot, b) := b.newSlot
  .ok (.custom
    { name
      features := Feature.distinct features
      elements := items
      factory := Blueprint.factory slot sources
      size := if size.isNullish then .int items.length else size } slot) b

def build : CollectionPlan → Action Bench Collection
  | .arrayList name elements =>
    ofElements (elements.iterateGiven "elements") fun items => .ok (.arrayList ⟨name, items⟩)
  | .immutableList name elements =>
    ofElements (elements.iterate "elements") fun items =>
      (ImmutableList.create name items).map .immutableList
  | .sortedSet name elements order =>
    ofElements (elements.iterateGiven "elements") fun items =>
      (SortedSet.create name items order).map .sortedSet
  | .single name value => fun b => .ok (.single ⟨name, value⟩) b
  | .custom name features elements sources size => fun b =>
    match elements.iterate "options.elements" with
    | .error e => .error e b
    | .ok items => ofItems name features sources size items b

end CollectionPlan
end SplitTraversal
