import SplitTraversal.Source.Protocol

/-! Cutting a source into leaves for batched or parallel consumption. Leaves come left to right and
the source itself is the last of them. No element is visited. -/

namespace SplitTraversal

/-- The largest leaf that is not split any more, and how many levels down splitting may go. -/
structure Partitioner where
  maxLeafSize : Nat
  maxDepth : Nat
deriving DecidableEq, Repr

namespace Partitioner

/-- At most one element a leaf and 64 levels, where nothing else is asked for. -/
def create (maxLeafSize maxDepth : Value) : Except Thrown Partitioner :=
  let leaf := if maxLeafSize.isUndefined then .int 1 else maxLeafSize
  let depth := if maxDepth.isUndefined then .int 64 else maxDepth
  match leaf.safeInteger? with
  | some leaf =>
    if leaf < 1 then .error (.violation .leafSize)
    else
      match depth.safeInteger? with
      | some depth =>
        if depth < 0 then .error (.violation .splitDepth) else .ok ⟨leaf.toNat, depth.toNat⟩
      | none => .error (.violation .splitDepth)
  | none => .error (.violation .leafSize)

variable {σ ω α : Type}

/-- A source that was split off, or the source that was cut. -/
inductive Leaf (σ : Type) where
  | piece (source : σ)
  | itself
deriving DecidableEq, Repr

namespace Leaf

def source (own : σ) : Leaf σ → σ
  | .piece source => source
  | .itself => own

def isItself : Leaf σ → Bool
  | .piece _ => false
  | .itself => true

def map {σ' : Type} (f : σ → σ') : Leaf σ → Leaf σ'
  | .piece source => .piece (f source)
  | .itself => .itself

theorem map_id : (map id : Leaf σ → Leaf σ) = id := by
  funext leaf
  cases leaf <;> rfl

end Leaf

def leaves (pieces : List σ) : List (Leaf σ) := pieces.map .piece ++ [.itself]

theorem map_source_leaves (own : σ) (pieces : List σ) :
    (leaves pieces).map (Leaf.source own) = pieces ++ [own] := by
  rw [leaves, List.map_append, List.map_map]
  exact congrArg (· ++ [own]) (List.map_id pieces)

theorem map_map_leaves {σ' : Type} (f : σ → σ') (pieces : List σ) :
    (leaves pieces).map (Leaf.map f) = leaves (pieces.map f) := by
  simp only [leaves, List.map_append, List.map_map]
  rfl

theorem length_leaves (pieces : List σ) : (leaves pieces).length = pieces.length + 1 := by
  rw [leaves, List.length_append, List.length_map, List.length_singleton]

/-- Put the pieces split off a source that has this many levels left before those found so far, the
last one first. Each split moves both the piece and the remainder one level down. -/
def cutOff (p : Protocol σ ω α) (maxLeafSize : Nat) :
    Nat → List σ → Action (Site σ ω) (List σ)
  | 0, leaves, s => .ok leaves s
  | levels + 1, leaves, s =>
    match p.estimateSize s with
    | .error e s => .error e s
    | .ok size s =>
      match (Value.int maxLeafSize).isLess size with
      | .error e => .error e s
      | .ok false => .ok leaves s
      | .ok true =>
        match p.trySplit s with
        | .error e s => .error e s
        | .ok none s => .ok leaves s
        | .ok (some piece) ⟨own, w⟩ =>
          match cutOff p maxLeafSize levels leaves ⟨piece, w⟩ with
          | .error e ⟨_, w⟩ => .error e ⟨own, w⟩
          | .ok leaves ⟨piece, w⟩ => cutOff p maxLeafSize levels (piece :: leaves) ⟨own, w⟩

/-- The leaves from left to right. The last is the source itself, which is left in the state. -/
def partition (settings : Partitioner) (p : Protocol σ ω α) :
    Action (Site σ ω) (List (Leaf σ)) := fun s =>
  match cutOff p settings.maxLeafSize settings.maxDepth [] s with
  | .ok pieces s => .ok (leaves pieces.reverse) s
  | .error e s => .error e s

end Partitioner
end SplitTraversal
