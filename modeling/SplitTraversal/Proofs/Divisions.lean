import Mathlib.Data.Nat.Log
import SplitTraversal.Proofs.IndexedFamily
import SplitTraversal.Proofs.LeafSizes

/-! Splitting until nothing splits any more. Of a source over a range this makes a tree whose leaves
are its positions one by one, and which is no deeper than halving the range requires. -/

namespace SplitTraversal

/-- What splitting makes of a source: the source where it does not split, and otherwise what is made
of the piece and of the rest, both one level down. -/
inductive Division (σ : Type) where
  | leaf (source : σ)
  | fork (piece rest : Division σ)

namespace Division

variable {σ : Type}

def leaves : Division σ → List σ
  | .leaf s => [s]
  | .fork piece rest => piece.leaves ++ rest.leaves

def splits : Division σ → Nat
  | .leaf _ => 0
  | .fork piece rest => piece.splits + rest.splits + 1

def depth : Division σ → Nat
  | .leaf _ => 0
  | .fork piece rest => max piece.depth rest.depth + 1

theorem length_leaves (d : Division σ) : d.leaves.length = d.splits + 1 := by
  induction d with
  | leaf => rfl
  | fork piece rest ihPiece ihRest =>
    simp only [leaves, splits, List.length_append, ihPiece, ihRest]
    omega

end Division

namespace Protocol

variable {σ ω α : Type} {p : Protocol σ ω α}

/-- Splitting a source to exhaustion depth-first, with all that is split off it, makes this of it
and leaves this shared state. -/
inductive Exhausts (p : Protocol σ ω α) : Site σ ω → Division σ → ω → Prop
  | leaf {s t : Site σ ω} (stays : p.trySplit s = .ok none t) :
      Exhausts p s (.leaf t.own) t.shared
  | fork {s t : Site σ ω} {q : σ} {piece rest : Division σ} {w w' : ω}
      (cut : p.trySplit s = .ok (some q) t) (first : Exhausts p ⟨q, t.shared⟩ piece w)
      (next : Exhausts p ⟨t.own, w⟩ rest w') : Exhausts p s (.fork piece rest) w'

theorem Exhausts.unique {s : Site σ ω} {d e : Division σ} {w w' : ω} (exhausts : p.Exhausts s d w)
    (also : p.Exhausts s e w') : e = d ∧ w' = w := by
  induction exhausts generalizing e w' with
  | leaf stays =>
    rcases also with stays' | ⟨cut, _, _⟩
    · cases stays.symm.trans stays'
      exact ⟨rfl, rfl⟩
    · cases stays.symm.trans cut
  | fork cut _ _ ihFirst ihNext =>
    rcases also with stays | ⟨cut', first, next⟩
    · cases cut.symm.trans stays
    · cases cut.symm.trans cut'
      obtain ⟨rfl, rfl⟩ := ihFirst first
      obtain ⟨rfl, rfl⟩ := ihNext next
      exact ⟨rfl, rfl⟩

end Protocol

namespace Indexed

variable {ω α : Type} {s : Indexed ω α}

def middle (s : Indexed ω α) : Nat := s.offset + s.size / 2

theorem split_middle (several : 2 ≤ s.size) :
    s.offset < s.middle ∧ s.middle < s.limit ∧
      s.split = (some { s with limit := s.middle }, { s with offset := s.middle }) := by
  have count : s.size = s.limit - s.offset := rfl
  have after : s.offset < s.middle := by
    rw [middle]
    omega
  have before : s.middle < s.limit := by
    rw [middle]
    omega
  exact ⟨after, before, if_neg (Nat.not_le_of_lt after)⟩

theorem split_few (few : s.size < 2) : s.split = (none, s) := by
  have count : s.size = s.limit - s.offset := rfl
  apply if_pos
  omega

def division (s : Indexed ω α) : Division (Indexed ω α) :=
  if s.size < 2 then .leaf s
  else .fork (division { s with limit := s.middle }) (division { s with offset := s.middle })
termination_by s.size
decreasing_by all_goals simp only [size, middle] at *; omega

def single (s : Indexed ω α) (i : Nat) : Indexed ω α := { s with offset := i, limit := i + 1 }

theorem exhausts_division (s : Indexed ω α) (w : ω) :
    protocol.Exhausts ⟨s, w⟩ s.division w := by
  fun_induction division s with
  | case1 s few =>
    refine .leaf (t := ⟨s, w⟩) ?_
    simp only [protocol, trySplit, split_few few]
  | case2 s several ihPiece ihRest =>
    obtain ⟨_, _, cut⟩ := split_middle (Nat.le_of_not_lt several)
    refine .fork (t := ⟨{ s with offset := s.middle }, w⟩) ?_ ihPiece ihRest
    simp only [protocol, trySplit, cut]

theorem leaves_division (some : 0 < s.size) : s.division.leaves = s.remaining.map s.single := by
  fun_induction division s with
  | case1 s few =>
    have one : s.limit - s.offset = 1 := by
      rw [size] at some few
      omega
    have limit : s.limit = s.offset + 1 := by omega
    rw [remaining, one, List.range'_one, List.map_singleton, single, ← limit]
    rfl
  | case2 s several ihPiece ihRest =>
    obtain ⟨after, before, _⟩ := split_middle (Nat.le_of_not_lt several)
    have piece := ihPiece (Nat.sub_pos_of_lt after)
    have rest := ihRest (Nat.sub_pos_of_lt before)
    rw [Division.leaves, piece, rest, remaining_split after before, List.map_append]
    rfl

/-- Both parts of a range of `n` positions have at most `n / 2` of them, rounded up. -/
theorem depth_division (s : Indexed ω α) : s.division.depth ≤ Nat.clog 2 s.size := by
  fun_induction division s with
  | case1 s few => exact Nat.zero_le _
  | case2 s several ihPiece ihRest =>
    have halved : Nat.clog 2 s.size = Nat.clog 2 ((s.size + 1) / 2) + 1 :=
      Nat.clog_of_two_le (by decide) (Nat.le_of_not_lt several)
    obtain ⟨after, before, _⟩ := split_middle (Nat.le_of_not_lt several)
    have piece : ({ s with limit := s.middle } : Indexed ω α).size ≤ (s.size + 1) / 2 := by
      simp only [size, middle] at before ⊢
      omega
    have rest : ({ s with offset := s.middle } : Indexed ω α).size ≤ (s.size + 1) / 2 := by
      simp only [size, middle] at before ⊢
      omega
    have depthPiece := Nat.le_trans ihPiece (Nat.clog_mono_right 2 piece)
    have depthRest := Nat.le_trans ihRest (Nat.clog_mono_right 2 rest)
    rw [Division.depth]
    omega

theorem splits_division (s : Indexed ω α) : s.division.splits = s.size - 1 := by
  by_cases some : 0 < s.size
  · have count := s.division.length_leaves
    rw [leaves_division some, List.length_map, remaining, List.length_range', ← size] at count
    omega
  · rw [division, if_pos (by omega), Division.splits]
    omega

end Indexed
end SplitTraversal
