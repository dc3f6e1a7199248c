import SplitTraversal.Order.Named
import SplitTraversal.Source.Node

/-! Descriptions of sources, and the building of sources from them. -/

namespace SplitTraversal

inductive Reading where
  | identity
  | named (f : IndexFunction)
  | notAFunction

def Reading.apply : Reading → Option (Number → Action Bench Value)
  | .identity => some fun i => .ofExcept (IndexFunction.identity.apply i)
  | .named f => some fun i => .ofExcept (f.apply i)
  | .notAFunction => none

inductive Blueprint where
  | indexed (flaw : Flaw) (length : Value) (reading : Reading)
      (options : Option (Indexed.Options Value))
  | singleton (value : Value)
  | empty
  | ofList (elements : List Value) (characteristics : Value)
  /-- A snapshot of one of the shared lists. -/
  | snapshot (list : Nat) (characteristics : Value)
  | overlapping (elements : List Value)
  | unsized (elements : List Value)
  | scripted (plan : Plan) (emptySplits : Nat)
  | traced (inner : Blueprint)
  /-- Building the source throws. -/
  | failing (thrown : Thrown)

namespace Blueprint

def orderedSnapshot (elements : List Value) (flags : Characteristics) : Node :=
  .indexed ⟨.ofList elements .undefined (flags.union (.ofFlag .ordered)), .none⟩

def snapshotWith (elements : List Value) (characteristics : Value) : Action Bench Node :=
  .ofExcept ((Characteristics.ofValue characteristics).map (orderedSnapshot elements))

def build : Blueprint → Action Bench Node
  | .indexed flaw length reading options => fun b =>
    match Indexed.create length reading.apply options with
    | .ok source => .ok (.indexed ⟨source, flaw⟩) b
    | .error e => .error e b
  | .singleton value => fun b => .ok (.singleton ⟨some value⟩) b
  | .empty => fun b => .ok (.indexed ⟨.empty .undefined, .none⟩) b
  | .ofList elements characteristics => snapshotWith elements characteristics
  | .snapshot list characteristics => fun b =>
    match b.lists[list]? with
    | some elements => snapshotWith elements.toList characteristics b
    | none => .error (.misuse (.noFieldOf "undefined" "slice")) b
  | .overlapping elements => fun b => .ok (.overlapping (.ofList elements)) b
  | .unsized elements => fun b => .ok (.unsized (.ofList elements)) b
  | .scripted plan emptySplits => fun b => .ok (.scripted (.create plan emptySplits)) b
  | .traced inner => fun b =>
    match inner.build b with
    | .ok node b =>
      let (trace, b) := b.newTrace
      .ok (.traced node trace) b
    | .error e b => .error e b
  | .failing thrown => fun b => .error thrown b

end Blueprint
end SplitTraversal
