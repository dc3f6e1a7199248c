import SplitTraversal.Traversal.Decompose

/-! Draining a source by splits with a guard against splits that lead nowhere: a sized source has to
report less after a split than before it, and in one traversal only so many splits are granted to
sources without a size. -/

namespace SplitTraversal

/-- How many splits one traversal grants before an unsized source may not split any more. -/
def unsizedSplitLimit : Nat := 1000000

inductive StallReason where
  | notShrinking
  | splitLimit
deriving DecidableEq, Repr

namespace StallReason

def name : StallReason → String
  | .notShrinking => "NOT_SHRINKING"
  | .splitLimit => "SPLIT_LIMIT"

end StallReason

structure Stall where
  reason : StallReason
  before : Value
  after : Value
  splits : Nat

inductive Traversal (α : Type) where
  | complete (elements : List α)
  | stalled (stall : Stall)

structure Tally (α : Type) where
  seen : Array α
  splits : Nat

namespace Protocol

variable {σ ω α : Type}

/-- Whether the split that is number `splits` of its traversal leads nowhere. Only the estimates of a
sized source are compared. -/
def stall? (sized : Bool) (before after : Value) (splits : Nat) : Except Thrown (Option Stall) :=
  if sized then
    (before.isAtMost after).map fun stuck =>
      if stuck then some ⟨.notShrinking, before, after, splits⟩ else none
  else
    .ok (if unsizedSplitLimit < splits then some ⟨.splitLimit, before, after, splits⟩ else none)

/-- Split depth-first under guard, and drain what does not split. Whether a source is sized is asked
once, before its first split. -/
def splitGuarded (p : Protocol σ ω α) (sized : Bool) :
    Nat → Activity (Site σ ω × Tally α) (Option Stall)
  | 0, s => .error .outOfRounds s
  | rounds + 1, (s, t) =>
    match p.estimateSize s with
    | .error e s => .error (.threw e) (s, t)
    | .ok before s =>
      match p.trySplit s with
      | .error e s => .error (.threw e) (s, t)
      | .ok none s =>
        match play Visitor.collecting p.forEachRemaining s t.seen with
        | .ok _ (s, seen) => .ok none (s, { t with seen := seen })
        | .error e (s, seen) => .error (.threw e) (s, { t with seen := seen })
      | .ok (some piece) s =>
        match p.estimateSize s with
        | .error e s => .error (.threw e) (s, t)
        | .ok after ⟨own, w⟩ =>
          let splits := t.splits + 1
          let t : Tally α := ⟨t.seen, splits⟩
          match stall? sized before after splits with
          | .error e => .error (.threw e) (⟨own, w⟩, t)
          | .ok (some stall) => .ok (some stall) (⟨own, w⟩, t)
          | .ok none =>
            match p.hasCharacteristics (.ofFlag .sized) ⟨piece, w⟩ with
            | .error e ⟨_, w⟩ => .error (.threw e) (⟨own, w⟩, t)
            | .ok pieceSized s =>
              match splitGuarded p pieceSized rounds (s, t) with
              | .error h (⟨_, w⟩, t) => .error h (⟨own, w⟩, t)
              | .ok (some stall) (⟨_, w⟩, t) => .ok (some stall) (⟨own, w⟩, t)
              | .ok none (⟨_, w⟩, t) => splitGuarded p sized rounds (⟨own, w⟩, t)

/-- Drain a source like `collect`, except that splitting stops at the first split that leads
nowhere. -/
def traverse (p : Protocol σ ω α) (rounds : Nat) (strategy : Strategy) :
    Activity (Site σ ω) (Traversal α) := fun s =>
  match strategy with
  | .maximumSplit =>
    match p.hasCharacteristics (.ofFlag .sized) s with
    | .error e s => .error (.threw e) s
    | .ok sized s =>
      match splitGuarded p sized rounds (s, ⟨#[], 0⟩) with
      | .error h (s, _) => .error h s
      | .ok (some stall) (s, _) => .ok (.stalled stall) s
      | .ok none (s, t) => .ok (.complete t.seen.toList) s
  | _ =>
    match collect p rounds strategy s with
    | .ok elements s => .ok (.complete elements) s
    | .error h s => .error h s

end Protocol
end SplitTraversal
