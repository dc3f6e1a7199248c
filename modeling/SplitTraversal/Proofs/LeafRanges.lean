import SplitTraversal.Proofs.IndexedAccepted
import SplitTraversal.Traversal.Partition

/-! Where partitioning cuts an indexed source. The leaves lie side by side between ascending cuts, the
source itself keeps what follows the last cut, and no position is read to find out where to cut. -/

namespace SplitTraversal
namespace Indexed

variable {ω α : Type}

def pieces (s : Indexed ω α) : List Nat → List (Indexed ω α)
  | [] => []
  | x :: xs => { s with limit := x } :: pieces { s with offset := x } xs

def lastPart (s : Indexed ω α) : List Nat → Indexed ω α
  | [] => s
  | x :: xs => lastPart { s with offset := x } xs

/-- All parts of a source between cuts: the range up to the first cut, those between one cut and the
next, and the range from the last cut on. -/
def tiles (s : Indexed ω α) (cuts : List Nat) : List (Indexed ω α) :=
  s.pieces cuts ++ [s.lastPart cuts]

/-- Cuts in ascending order, none of which leaves an empty part. -/
structure Between (s : Indexed ω α) (cuts : List Nat) : Prop where
  ascending : cuts.Pairwise (· < ·)
  inside : ∀ x ∈ cuts, s.offset < x ∧ x < s.limit

@[simp] theorem tiles_nil (s : Indexed ω α) : s.tiles [] = [s] := rfl

@[simp] theorem tiles_cons (s : Indexed ω α) (x : Nat) (xs : List Nat) :
    s.tiles (x :: xs) = { s with limit := x } :: tiles { s with offset := x } xs := rfl

theorem lastPart_append_cons (s : Indexed ω α) (xs : List Nat) (mid : Nat) (ys : List Nat) :
    s.lastPart (xs ++ mid :: ys) = lastPart { s with offset := mid } ys := by
  induction xs generalizing s with
  | nil => rfl
  | cons x xs ih => exact ih { s with offset := x }

theorem pieces_append_cons (s : Indexed ω α) (xs : List Nat) (mid : Nat) (ys : List Nat) :
    s.pieces (xs ++ mid :: ys) =
      tiles { s with limit := mid } xs ++ pieces { s with offset := mid } ys := by
  induction xs generalizing s with
  | nil => rfl
  | cons x xs ih =>
    rw [List.cons_append, pieces, ih, tiles_cons]
    rfl

theorem mem_tiles {s leaf : Indexed ω α} {cuts : List Nat} (here : leaf ∈ s.tiles cuts) :
    leaf = { s with offset := leaf.offset, limit := leaf.limit } := by
  induction cuts generalizing s with
  | nil =>
    rw [tiles_nil, List.mem_singleton] at here
    rw [here]
  | cons x xs ih =>
    rw [tiles_cons, List.mem_cons] at here
    rcases here with rfl | later
    · rfl
    · exact (ih later).trans rfl

namespace Between

variable {s : Indexed ω α} {mid x : Nat} {xs ys : List Nat}

theorem nil (s : Indexed ω α) : s.Between [] :=
  ⟨.nil, fun _ none => (List.not_mem_nil none).elim⟩

theorem append_cons (after : s.offset < mid) (before : mid < s.limit)
    (left : ({ s with limit := mid } : Indexed ω α).Between xs)
    (right : ({ s with offset := mid } : Indexed ω α).Between ys) :
    s.Between (xs ++ mid :: ys) := by
  have leftInside (x : Nat) (here : x ∈ xs) : s.offset < x ∧ x < mid := left.inside x here
  have rightInside (y : Nat) (here : y ∈ ys) : mid < y ∧ y < s.limit := right.inside y here
  refine ⟨List.pairwise_append.mpr ⟨left.ascending, List.pairwise_cons.mpr
    ⟨fun y here => (rightInside y here).1, right.ascending⟩, ?_⟩, ?_⟩
  · intro x xHere y yHere
    have := leftInside x xHere
    rcases List.mem_cons.mp yHere with rfl | later
    · omega
    · have := rightInside y later
      omega
  · refine List.forall_mem_append.mpr ⟨?_, List.forall_mem_cons.mpr ⟨⟨after, before⟩, ?_⟩⟩
    · intro x here
      have := leftInside x here
      omega
    · intro y here
      have := rightInside y here
      omega

theorem tail (between : s.Between (x :: xs)) :
    ({ s with offset := x } : Indexed ω α).Between xs where
  ascending := (List.pairwise_cons.mp between.ascending).2
  inside y here :=
    ⟨(List.pairwise_cons.mp between.ascending).1 y here,
      (between.inside y (List.mem_cons_of_mem x here)).2⟩

end Between

theorem split_read {ω' : Type} (s : Indexed ω α) (read : Nat → Action ω' α) :
    ({ s with read } : Indexed ω' α).split =
      (s.split.1.map fun piece => { piece with read }, { s.split.2 with read }) := by
  by_cases few : s.offset + (s.limit - s.offset) / 2 ≤ s.offset
  · simp only [split, if_pos few, Option.map_none]
  · simp only [split, if_neg few, Option.map_some]

/-- However its positions are read, a source that may be split this many levels down is cut at these
places; nothing else changes. -/
def CutAt (maxLeafSize levels : Nat) (s : Indexed ω α) (cuts : List Nat) : Prop :=
  ∀ {ω' : Type} (read : Nat → Action ω' α) (w : ω') (leaves : List (Indexed ω' α)),
    Partitioner.cutOff protocol maxLeafSize levels leaves ⟨{ s with read }, w⟩ =
      .ok ((pieces { s with read } cuts).reverse ++ leaves) ⟨lastPart { s with read } cuts, w⟩

theorem exists_cuts (maxLeafSize levels : Nat) (s : Indexed ω α) :
    ∃ cuts, s.Between cuts ∧ CutAt maxLeafSize levels s cuts := by
  induction levels generalizing s with
  | zero => exact ⟨[], .nil s, fun read w leaves => rfl⟩
  | succ levels ih =>
    have asked {ω' : Type} (read : Nat → Action ω' α) (w : ω') :
        protocol.estimateSize ⟨{ s with read }, w⟩ =
          .ok (.number s.estimate) ⟨{ s with read }, w⟩ := rfl
    have tried {ω' : Type} (read : Nat → Action ω' α) (w : ω') :
        protocol.trySplit ⟨{ s with read }, w⟩ =
          .ok (s.split.1.map fun piece => { piece with read })
            ⟨{ s.split.2 with read }, w⟩ := by
      simp only [protocol, trySplit, split_read]
    obtain ⟨large, compared⟩ :
        ∃ large, (Value.int maxLeafSize).isLess (.number s.estimate) = .ok large := ⟨_, rfl⟩
    have uncut (stays : large = false ∨ s.split = (none, s)) :
        CutAt maxLeafSize (levels + 1) s [] := by
      intro ω' read w leaves
      rcases stays with rfl | stays
      · simp only [Partitioner.cutOff, asked, compared, pieces, List.reverse_nil,
          List.nil_append, lastPart]
      · cases large <;> simp only [Partitioner.cutOff, asked, compared, tried, stays,
          Option.map_none, pieces, List.reverse_nil, List.nil_append, lastPart]
    cases large with
    | false => exact ⟨[], .nil s, uncut (.inl rfl)⟩
    | true =>
      rcases split_cases s with ⟨_, stays⟩ | ⟨mid, after, before, cut⟩
      · exact ⟨[], .nil s, uncut (.inr stays)⟩
      · obtain ⟨xs, left, first⟩ := ih { s with limit := mid }
        obtain ⟨ys, right, second⟩ := ih { s with offset := mid }
        refine ⟨xs ++ mid :: ys, .append_cons after before left right, ?_⟩
        intro ω' read w leaves
        -- The last part of the piece goes on top of its own leaves, before those of the rest.
        have piece := first read w leaves
        have rest := second read w (lastPart { s with read, limit := mid } xs ::
          ((pieces { s with read, limit := mid } xs).reverse ++ leaves))
        simp only [Partitioner.cutOff, asked, compared, tried, cut, Option.map_some, piece, rest,
          pieces_append_cons, lastPart_append_cons, tiles, List.reverse_append,
          List.reverse_cons, List.nil_append, List.append_assoc, List.cons_append]

theorem partition_eq (settings : Partitioner) (s : Indexed ω α) :
    ∃ cuts, s.Between cuts ∧ ∀ {ω' : Type} (read : Nat → Action ω' α) (w : ω'),
      settings.partition protocol ⟨{ s with read }, w⟩ =
        .ok (Partitioner.leaves (pieces { s with read } cuts)) ⟨lastPart { s with read } cuts, w⟩ := by
  obtain ⟨cuts, between, made⟩ := exists_cuts settings.maxLeafSize settings.maxDepth s
  refine ⟨cuts, between, fun read w => ?_⟩
  simp only [Partitioner.partition, made read w [], List.append_nil, List.reverse_reverse]

end Indexed
end SplitTraversal
