import Mathlib.Algebra.Group.Nat.Defs
import SplitTraversal.Traversal.Partition

/-! How many leaves partitioning makes, whatever the sources do. Every piece is numbered by the split
that made it, so the leaves tell which splits there were. Since no estimate can be trusted, nothing
but the levels bounds them: a source that may be split one level further makes one split, and then
at most what its piece and its rest make. -/

namespace SplitTraversal

namespace Value

def Comparable (v : Value) : Prop := ∀ n : Nat, ∃ less, (Value.int n).isLess v = .ok less

theorem comparable_number (n : Number) : (Value.number n).Comparable := fun _ => ⟨_, rfl⟩

end Value

namespace Protocol

variable {σ ω α : Type}

def numbering : Focus (Site (σ × Nat) (ω × Nat)) (Site σ ω) :=
  ⟨fun s => ⟨s.own.1, s.shared.1⟩, fun t s => ⟨(t.own, s.own.2), (t.shared, s.shared.2)⟩⟩

def numberedSplit (p : Protocol σ ω α) :
    Action (Site (σ × Nat) (ω × Nat)) (Option (σ × Nat)) := fun s =>
  match p.trySplit (numbering.get s) with
  | .error e t => .error e (numbering.put t s)
  | .ok none t => .ok none (numbering.put t s)
  | .ok (some piece) t =>
    .ok (some (piece, s.shared.2 + 1)) ⟨(t.own, s.own.2), (t.shared, s.shared.2 + 1)⟩

/-- Sources that carry the number of the split that made them. The successful splits are counted
beside the shared state. -/
def numbered (p : Protocol σ ω α) : Protocol (σ × Nat) (ω × Nat) α where
  tryAdvance := fun visitor s => (p.tryAdvance visitor (numbering.get s)).within numbering s
  forEachRemaining := fun visitor s =>
    (p.forEachRemaining visitor (numbering.get s)).within numbering s
  trySplit := p.numberedSplit
  estimateSize := numbering.run p.estimateSize
  exactSizeIfKnown := numbering.run p.exactSizeIfKnown
  characteristics := numbering.run p.characteristics
  hasCharacteristics := fun flags => numbering.run (p.hasCharacteristics flags)
  comparator := numbering.run p.comparator

/-- Asked to split or for their size, these sources return; so do the sources that they become and
those that they make. A size may be any number, such as NaN, an infinite one, or one larger than it
was, or anything else that can be compared with numbers. -/
structure Responsive (p : Protocol σ ω α) (among : σ → Prop) : Prop where
  estimateSize {s : σ} (here : among s) (w : ω) :
    ∃ (size : Value) (own : σ) (w' : ω),
      p.estimateSize ⟨s, w⟩ = .ok size ⟨own, w'⟩ ∧ size.Comparable ∧ among own
  trySplit {s : σ} (here : among s) (w : ω) :
    ∃ (piece : Option σ) (own : σ) (w' : ω),
      p.trySplit ⟨s, w⟩ = .ok piece ⟨own, w'⟩ ∧ among own ∧ ∀ q ∈ piece, among q

section

variable {p : Protocol σ ω α} {s own : σ} {w w' : ω}

theorem estimateSize_numbered {size : Value} (asked : p.estimateSize ⟨s, w⟩ = .ok size ⟨own, w'⟩)
    (number count : Nat) :
    p.numbered.estimateSize ⟨(s, number), (w, count)⟩ = .ok size ⟨(own, number), (w', count)⟩ := by
  simp only [numbered, Focus.run, numbering, asked]

theorem trySplit_numbered {piece : Option σ} (tried : p.trySplit ⟨s, w⟩ = .ok piece ⟨own, w'⟩)
    (number count : Nat) :
    p.numbered.trySplit ⟨(s, number), (w, count)⟩ =
      .ok (piece.map fun q => (q, count + 1))
        ⟨(own, number), (w', if piece.isSome then count + 1 else count)⟩ := by
  cases piece <;> simp [numbered, numberedSplit, numbering, tried]

end

end Protocol

namespace Partitioner

variable {σ ω α : Type} {p : Protocol σ ω α} {among : σ → Prop}

/-- What comes of cutting leaves off a source in state `s`: `found` are the new leaves in front of
those found before, and the source is left in state `own`. -/
structure CutsOff (p : Protocol σ ω α) (among : σ → Prop) (maxLeafSize levels : Nat) (s : σ) (w : ω)
    (number count : Nat) (leaves found : List (σ × Nat)) (own : σ) (w' : ω) : Prop where
  numbered : cutOff p.numbered maxLeafSize levels leaves ⟨(s, number), (w, count)⟩ =
    .ok (found ++ leaves) ⟨(own, number), (w', count + found.length)⟩
  plain : cutOff p maxLeafSize levels (leaves.map Prod.fst) ⟨s, w⟩ =
    .ok ((found ++ leaves).map Prod.fst) ⟨own, w'⟩
  among : among own
  bounded : found.length < 2 ^ levels
  numbers : (found.map Prod.snd).Perm (List.range' (count + 1) found.length)

/-- The numbers of the leaves of a piece follow that of the piece, those of the rest come after. -/
theorem numbers_append {xs ys : List Nat} {count m n : Nat}
    (below : xs.Perm (List.range' (count + 2) m))
    (beside : ys.Perm (List.range' (count + 2 + m) n)) :
    (ys ++ (count + 1) :: xs).Perm (List.range' (count + 1) (n + (m + 1))) := by
  have joined : List.range' (count + 1) (n + (m + 1)) =
      (count + 1) :: (List.range' (count + 2) m ++ List.range' (count + 2 + m) n) := by
    rw [List.range'_append_1, ← Nat.add_assoc, List.range'_succ, Nat.add_comm n m]
  rw [joined]
  exact List.perm_append_comm.trans (.cons _ (below.append beside))

theorem exists_cutsOff (responsive : p.Responsive among) (maxLeafSize levels : Nat) {s : σ}
    (here : among s) (w : ω) (number count : Nat) (leaves : List (σ × Nat)) :
    ∃ found own w', CutsOff p among maxLeafSize levels s w number count leaves found own w' := by
  induction levels generalizing s w number count leaves with
  | zero => exact ⟨[], s, w, rfl, rfl, here, Nat.one_pos, .nil⟩
  | succ levels ih =>
    obtain ⟨size, asked, wAsked, sized, comparable, hereAsked⟩ := responsive.estimateSize here w
    have sizedToo := Protocol.estimateSize_numbered sized number count
    obtain ⟨large, compared⟩ := comparable maxLeafSize
    have positive := Nat.two_pow_pos (levels + 1)
    cases large with
    | false =>
      refine ⟨[], asked, wAsked, ?_, ?_, hereAsked, positive, .nil⟩ <;>
        simp [cutOff, sized, sizedToo, compared]
    | true =>
      obtain ⟨piece, own, wTried, tried, hereOwn, herePiece⟩ := responsive.trySplit hereAsked wAsked
      have triedToo := Protocol.trySplit_numbered tried number count
      cases piece with
      | none =>
        refine ⟨[], own, wTried, ?_, ?_, hereOwn, positive, .nil⟩ <;>
          simp [cutOff, sized, sizedToo, compared, tried, triedToo]
      | some piece =>
        obtain ⟨below, cut, wCut, first⟩ :=
          ih (herePiece piece rfl) wTried (count + 1) (count + 1) leaves
        -- The piece goes in front of its own leaves, and the rest is cut at the same level.
        obtain ⟨beside, rest, wRest, second⟩ :=
          ih hereOwn wCut number (count + 1 + below.length) ((cut, count + 1) :: (below ++ leaves))
        refine ⟨beside ++ (cut, count + 1) :: below, rest, wRest, ?_, ?_, second.among, ?_, ?_⟩
        · simp only [cutOff, sizedToo, compared, triedToo, Option.map_some, Option.isSome_some,
            if_true, first.numbered, second.numbered, List.append_assoc, List.cons_append,
            List.length_append, List.length_cons]
          congr 3
          omega
        · have further := second.plain
          rw [List.map_cons] at further
          simp only [cutOff, sized, compared, tried, first.plain, further, List.append_assoc,
            List.cons_append]
        · have left := first.bounded
          have right := second.bounded
          rw [List.length_append, List.length_cons, Nat.pow_succ]
          omega
        · have later := second.numbers
          rw [show count + 1 + below.length + 1 = count + 2 + below.length by omega] at later
          rw [List.map_append, List.map_cons, List.length_append, List.length_cons]
          exact numbers_append first.numbers later

/-- Partitioning returns. The pieces among its leaves have the numbers of all successful splits, each
once, the last leaf is the source itself, and numbering the sources changes nothing else. -/
theorem partition_ends (settings : Partitioner) (responsive : p.Responsive among) {s : σ}
    (here : among s) (w : ω) :
    ∃ (splits : Nat) (pieces : List (σ × Nat)) (own : σ) (w' : ω),
      settings.partition p.numbered ⟨(s, 0), (w, 0)⟩ =
        .ok (leaves pieces) ⟨(own, 0), (w', splits)⟩ ∧
      settings.partition p ⟨s, w⟩ = .ok (leaves (pieces.map Prod.fst)) ⟨own, w'⟩ ∧
      splits ≤ 2 ^ settings.maxDepth - 1 ∧
      (pieces.map Prod.snd).Perm (List.range' 1 splits) ∧
      (leaves pieces).length = splits + 1 ∧ splits + 1 ≤ 2 ^ settings.maxDepth := by
  obtain ⟨found, own, w', cut⟩ :=
    exists_cutsOff responsive settings.maxLeafSize settings.maxDepth here w 0 0 []
  have numbered := cut.numbered
  have plain := cut.plain
  rw [List.append_nil] at numbered plain
  rw [List.map_nil] at plain
  refine ⟨found.length, found.reverse, own, w', ?_, ?_, Nat.le_sub_one_of_lt cut.bounded, ?_, ?_,
    cut.bounded⟩
  · simp only [partition, numbered, Nat.zero_add]
  · simp only [partition, plain, List.map_reverse]
  · rw [List.map_reverse]
    exact (List.reverse_perm _).trans cut.numbers
  · rw [length_leaves, List.length_reverse]

/-- Sources that hand out a source of their own size at every split and grow by one themselves. -/
def growing : Protocol Nat Unit Nat where
  tryAdvance := fun _ s => .returned false s
  forEachRemaining := fun _ s => .returned () s
  trySplit := fun s => .ok (some s.own) { s with own := s.own + 1 }
  estimateSize := fun s => .ok (.int s.own) s
  exactSizeIfKnown := fun s => .ok (.int (-1)) s
  characteristics := fun s => .ok (.int 0) s
  hasCharacteristics := fun _ s => .ok false s
  comparator := Source.noComparator "GrowingSource"

theorem growing_responsive : growing.Responsive fun _ => True where
  estimateSize {s} _ w := ⟨.int s, s, w, rfl, Value.comparable_number _, trivial⟩
  trySplit {s} _ w := ⟨some s, s + 1, w, rfl, trivial, fun _ _ => trivial⟩

theorem partition_ends_growing :
    ∃ (splits : Nat) (pieces : List (Nat × Nat)) (own : Nat),
      Partitioner.partition ⟨1, 3⟩ growing.numbered ⟨(5, 0), ((), 0)⟩ =
        .ok (leaves pieces) ⟨(own, 0), ((), splits)⟩ ∧
      splits = 7 ∧ (leaves pieces).map (Leaf.source (own, 0)) =
        [(5, 3), (6, 2), (6, 4), (7, 1), (6, 6), (7, 5), (7, 7), (8, 0)] := by
  obtain ⟨splits, pieces, own, _, numbered, _⟩ :=
    partition_ends ⟨1, 3⟩ growing_responsive (s := 5) trivial ()
  have ran : Partitioner.partition ⟨1, 3⟩ growing.numbered ⟨(5, 0), ((), 0)⟩ =
      .ok (leaves [(5, 3), (6, 2), (6, 4), (7, 1), (6, 6), (7, 5), (7, 7)])
        ⟨(8, 0), ((), 7)⟩ := rfl
  injection numbered.symm.trans ran with found left
  cases left
  refine ⟨_, pieces, _, numbered, rfl, ?_⟩
  rw [found]
  rfl

end Partitioner
end SplitTraversal
