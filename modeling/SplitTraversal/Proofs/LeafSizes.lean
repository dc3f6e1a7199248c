import Mathlib.Algebra.Group.Nat.Defs
import SplitTraversal.Proofs.LeafRanges

/-! How large the leaves of a partition are, and how many levels down. A split halves what remains,
one position more to the rest when the number is odd, so `k` levels divide by `2 ^ k` up to rounding.
A leaf is not split because it is small enough or because no level is left. -/

namespace SplitTraversal

namespace Partitioner

theorem create_eq {maxLeafSize maxDepth : Value} {settings : Partitioner}
    (created : create maxLeafSize maxDepth = .ok settings) :
    1 ≤ settings.maxLeafSize ∧ (maxDepth.isUndefined = true → settings.maxDepth = 64) := by
  unfold create at created
  cases counted : (if maxLeafSize.isUndefined then Value.int 1 else maxLeafSize).safeInteger? with
  | none => simp only [counted, reduceCtorEq] at created
  | some leaf =>
    simp only [counted] at created
    by_cases small : leaf < 1
    · rw [if_pos small] at created
      cases created
    · rw [if_neg small] at created
      cases deep : (if maxDepth.isUndefined then Value.int 64 else maxDepth).safeInteger? with
      | none => simp only [deep, reduceCtorEq] at created
      | some depth =>
        simp only [deep] at created
        by_cases negative : depth < 0
        · rw [if_pos negative] at created
          cases created
        · rw [if_neg negative] at created
          cases created
          refine ⟨?_, fun unset => ?_⟩
          · show 1 ≤ leaf.toNat
            omega
          · rw [if_pos unset] at deep
            cases deep
            rfl

end Partitioner

namespace Indexed

variable {ω α : Type} {s piece leaf : Indexed ω α} {k levels maxLeafSize : Nat}

def size (s : Indexed ω α) : Nat := s.limit - s.offset

theorem split_sizes (cut : s.split.1 = some piece) :
    piece.size = s.size / 2 ∧ s.split.2.size = s.size - s.size / 2 := by
  by_cases few : s.offset + (s.limit - s.offset) / 2 ≤ s.offset
  · simp only [split, if_pos few, reduceCtorEq] at cut
  · simp only [split, if_neg few, Option.some.injEq] at cut ⊢
    subst cut
    simp only [size]
    omega

/-- One source comes of the other by this many splits, each of which leads on to one of the two
parts. -/
inductive Descends : Indexed ω α → Nat → Indexed ω α → Prop
  | refl (s : Indexed ω α) : Descends s 0 s
  | piece {s piece leaf : Indexed ω α} {k : Nat} (cut : s.split.1 = some piece)
      (descends : Descends piece k leaf) : Descends s (k + 1) leaf
  | rest {s piece leaf : Indexed ω α} {k : Nat} (cut : s.split.1 = some piece)
      (descends : Descends s.split.2 k leaf) : Descends s (k + 1) leaf

namespace Descends

theorem size_bounds (descends : Descends s k leaf) :
    s.size < (leaf.size + 1) * 2 ^ k ∧ leaf.size * 2 ^ k < s.size + 2 ^ k := by
  -- A half, rounded either way, doubles to the whole but for one.
  have doubled {n half : Nat} {leaf : Indexed ω α} {k : Nat} (near : n ≤ 2 * half + 1)
      (near' : 2 * half ≤ n + 1)
      (bounds : half < (leaf.size + 1) * 2 ^ k ∧ leaf.size * 2 ^ k < half + 2 ^ k) :
      n < (leaf.size + 1) * 2 ^ (k + 1) ∧ leaf.size * 2 ^ (k + 1) < n + 2 ^ (k + 1) := by
    rw [Nat.pow_succ, ← Nat.mul_assoc, ← Nat.mul_assoc]
    omega
  induction descends with
  | refl s => omega
  | piece cut _ ih =>
    obtain ⟨half, _⟩ := split_sizes cut
    exact doubled (by omega) (by omega) ih
  | rest cut _ ih =>
    obtain ⟨_, half⟩ := split_sizes cut
    exact doubled (by omega) (by omega) ih

theorem size_eq (descends : Descends s k leaf) :
    leaf.size = s.size / 2 ^ k ∨ leaf.size = (s.size + 2 ^ k - 1) / 2 ^ k := by
  obtain ⟨lower, upper⟩ := descends.size_bounds
  have positive : 0 < 2 ^ k := Nat.two_pow_pos k
  have atLeast : s.size / 2 ^ k < leaf.size + 1 := (Nat.div_lt_iff_lt_mul positive).mpr lower
  have atMost : leaf.size ≤ (s.size + 2 ^ k - 1) / 2 ^ k :=
    (Nat.le_div_iff_mul_le positive).mpr (by omega)
  have close : (s.size + 2 ^ k - 1) / 2 ^ k ≤ (s.size + 2 ^ k) / 2 ^ k :=
    Nat.div_le_div_right (Nat.sub_le _ 1)
  rw [Nat.add_div_right _ positive] at close
  omega

end Descends

/-- A leaf of the partition of a source that may be split this many levels down, and its level. -/
inductive Leaf (maxLeafSize : Nat) : Nat → Indexed ω α → Nat → Indexed ω α → Prop
  | whole {levels : Nat} {s : Indexed ω α} (stays : levels = 0 ∨ s.size ≤ maxLeafSize) :
      Leaf maxLeafSize levels s 0 s
  | piece {levels k : Nat} {s piece leaf : Indexed ω α} (large : maxLeafSize < s.size)
      (cut : s.split.1 = some piece) (part : Leaf maxLeafSize levels piece k leaf) :
      Leaf maxLeafSize (levels + 1) s (k + 1) leaf
  | rest {levels k : Nat} {s piece leaf : Indexed ω α} (large : maxLeafSize < s.size)
      (cut : s.split.1 = some piece) (part : Leaf maxLeafSize levels s.split.2 k leaf) :
      Leaf maxLeafSize (levels + 1) s (k + 1) leaf

namespace Leaf

theorem descends (part : Leaf maxLeafSize levels s k leaf) : Descends s k leaf := by
  induction part with
  | whole => exact .refl _
  | piece _ cut _ ih => exact .piece cut ih
  | rest _ cut _ ih => exact .rest cut ih

theorem level_le (part : Leaf maxLeafSize levels s k leaf) : k ≤ levels := by
  induction part with
  | whole => exact Nat.zero_le _
  | piece _ _ _ ih => exact Nat.succ_le_succ ih
  | rest _ _ _ ih => exact Nat.succ_le_succ ih

theorem small_or_deep (part : Leaf maxLeafSize levels s k leaf) :
    leaf.size ≤ maxLeafSize ∨ k = levels := by
  induction part with
  | whole stays => omega
  | piece _ _ _ ih => omega
  | rest _ _ _ ih => omega

theorem size_le (part : Leaf maxLeafSize levels s k leaf)
    (enough : s.size ≤ maxLeafSize * 2 ^ levels) : leaf.size ≤ maxLeafSize := by
  rcases part.small_or_deep with small | rfl
  · exact small
  · obtain ⟨_, upper⟩ := part.descends.size_bounds
    have bound : leaf.size * 2 ^ k < (maxLeafSize + 1) * 2 ^ k := by
      rw [Nat.succ_mul]
      omega
    exact Nat.le_of_lt_succ (Nat.lt_of_mul_lt_mul_right bound)

/-- What is split has more than `maxLeafSize` positions, and either part has half of them. -/
theorem le_size (part : Leaf maxLeafSize levels s k leaf) (large : (maxLeafSize + 1) / 2 ≤ s.size) :
    (maxLeafSize + 1) / 2 ≤ leaf.size := by
  induction part with
  | whole => exact large
  | piece more cut _ ih =>
    obtain ⟨half, _⟩ := split_sizes cut
    exact ih (by omega)
  | rest more cut _ ih =>
    obtain ⟨_, half⟩ := split_sizes cut
    exact ih (by omega)

end Leaf

section Partitions

/-- An estimate of zero with a minus sign is not more than any leaf size either. -/
theorem isLess_estimate (minus : s.minusZero = true → s.limit = 0) :
    (Value.int maxLeafSize).isLess (.number s.estimate) = .ok (decide (maxLeafSize < s.size)) := by
  cases sign : s.minusZero with
  | false =>
    have plain : s.estimate = .integer ((s.limit : Int) - s.offset) := by
      simp only [estimate, sign, Bool.false_eq_true, if_false]
    rw [plain]
    refine (Value.isLess_int _ _).trans (congrArg _ (decide_eq_decide.mpr ?_))
    rw [size]
    omega
  | true =>
    have empty : s.size = 0 := by rw [size, minus sign, Nat.zero_sub]
    have zero : Number.minusZero.key = some 0 := by decide +kernel
    have notLess : (Number.integer maxLeafSize).lt .minusZero = false := by
      refine Bool.eq_false_iff.mpr fun less => ?_
      obtain ⟨a, b, keyA, keyB, less⟩ := Number.lt_iff.mp less
      cases keyA
      cases zero.symm.trans keyB
      exact absurd less (Int.not_lt.mpr (Int.mul_nonneg (by omega) (Int.le_of_lt Number.scale_pos)))
    rw [empty, estimate, sign, if_pos rfl, Value.isLess, Value.int, Value.order?_number,
      Value.orderOfNumbers, notLess]
    cases Number.minusZero.lt (.integer maxLeafSize) <;>
      cases (Number.integer maxLeafSize).same .minusZero <;> rfl

theorem cutOff_whole (minus : s.minusZero = true → s.limit = 0)
    (stays : levels = 0 ∨ s.size ≤ maxLeafSize) (leaves : List (Indexed ω α)) (w : ω) :
    Partitioner.cutOff protocol maxLeafSize levels leaves ⟨s, w⟩ = .ok leaves ⟨s, w⟩ := by
  cases levels with
  | zero => rfl
  | succ levels =>
    have small : ¬maxLeafSize < s.size := by omega
    have asked : protocol.estimateSize ⟨s, w⟩ = .ok (.number s.estimate) ⟨s, w⟩ := rfl
    simp only [Partitioner.cutOff, asked, isLess_estimate minus, small, decide_false]

theorem cutOff_leaves (positive : 1 ≤ maxLeafSize) (levels : Nat)
    (minus : s.minusZero = true → s.limit = 0) (leaves : List (Indexed ω α)) (w : ω) :
    ∃ found last, Partitioner.cutOff protocol maxLeafSize levels leaves ⟨s, w⟩ =
        .ok (found ++ leaves) ⟨last, w⟩ ∧
      ∀ leaf ∈ last :: found, ∃ k, Leaf maxLeafSize levels s k leaf := by
  induction levels generalizing s leaves with
  | zero =>
    refine ⟨[], s, rfl, ?_⟩
    intro leaf here
    rw [List.mem_singleton.mp here]
    exact ⟨0, .whole (.inl rfl)⟩
  | succ levels ih =>
    by_cases large : maxLeafSize < s.size
    · have plus : s.minusZero = true → False := by
        intro sign
        have empty := minus sign
        rw [size] at large
        omega
      rcases split_cases s with ⟨few, _⟩ | ⟨mid, after, before, cut⟩
      · rw [size] at large
        omega
      · obtain ⟨found, last, made, parts⟩ :=
          ih (s := { s with limit := mid }) (fun sign => (plus sign).elim) leaves
        obtain ⟨found', last', made', parts'⟩ :=
          ih (s := { s with offset := mid }) (fun sign => (plus sign).elim)
            (last :: (found ++ leaves))
        have piece : s.split.1 = some { s with limit := mid } := by rw [cut]
        have rest : s.split.2 = { s with offset := mid } := by rw [cut]
        have asked : protocol.estimateSize ⟨s, w⟩ = .ok (.number s.estimate) ⟨s, w⟩ := rfl
        have tried : protocol.trySplit ⟨s, w⟩ =
            .ok (some { s with limit := mid }) ⟨{ s with offset := mid }, w⟩ := by
          simp only [protocol, trySplit, cut]
        refine ⟨found' ++ last :: found, last', ?_, ?_⟩
        · simp only [Partitioner.cutOff, asked, isLess_estimate minus, large, decide_true, tried,
            made, made', List.append_assoc, List.cons_append]
        · intro leaf here
          rw [← List.cons_append, List.mem_append] at here
          rcases here with here | here
          · obtain ⟨k, part⟩ := parts' leaf here
            exact ⟨k + 1, .rest large piece (rest ▸ part)⟩
          · obtain ⟨k, part⟩ := parts leaf here
            exact ⟨k + 1, .piece large piece part⟩
    · have stays : levels + 1 = 0 ∨ s.size ≤ maxLeafSize := .inr (by omega)
      refine ⟨[], s, cutOff_whole minus stays leaves w, ?_⟩
      intro leaf here
      rw [List.mem_singleton.mp here]
      exact ⟨0, .whole stays⟩

structure Fits (settings : Partitioner) (s : Indexed ω α) (level : Nat) (leaf : Indexed ω α) :
    Prop where
  level_le : level ≤ settings.maxDepth
  descends : s.Descends level leaf
  small_or_deep : leaf.size ≤ settings.maxLeafSize ∨ level = settings.maxDepth
  rounded : leaf.size = s.size / 2 ^ level ∨ leaf.size = (s.size + 2 ^ level - 1) / 2 ^ level
  small : s.size ≤ settings.maxLeafSize * 2 ^ settings.maxDepth → leaf.size ≤ settings.maxLeafSize
  large : settings.maxLeafSize < s.size → (settings.maxLeafSize + 1) / 2 ≤ leaf.size ∧ 0 < leaf.size

theorem Leaf.fits {settings : Partitioner} (positive : 1 ≤ settings.maxLeafSize)
    (part : Leaf settings.maxLeafSize settings.maxDepth s k leaf) : Fits settings s k leaf where
  level_le := part.level_le
  descends := part.descends
  small_or_deep := part.small_or_deep
  rounded := part.descends.size_eq
  small := part.size_le
  large more := by
    have half := part.le_size (by omega)
    exact ⟨half, by omega⟩

/-- A partition never fails. Its leaves are as large as their level says and small enough where the
levels suffice, which the 64 levels of the default always do; a source that fits is its only leaf. -/
theorem partition_sizes {leafSize depth : Value} {settings : Partitioner}
    (created : Partitioner.create leafSize depth = .ok settings)
    (inside : s.limit ≤ Number.maxSafe) (minus : s.minusZero = true → s.limit = 0) (w : ω) :
    ∃ pieces last, settings.partition protocol ⟨s, w⟩ = .ok (Partitioner.leaves pieces) ⟨last, w⟩ ∧
      (∀ leaf ∈ Partitioner.leaves pieces, ∃ level,
        Fits settings s level (leaf.source last)) ∧
      (depth.isUndefined = true → ∀ leaf ∈ Partitioner.leaves pieces,
        (leaf.source last).size ≤ settings.maxLeafSize) ∧
      (s.size ≤ settings.maxLeafSize ∨ settings.maxDepth = 0 → pieces = [] ∧ last = s) := by
  obtain ⟨positive, default⟩ := Partitioner.create_eq created
  obtain ⟨found, last, made, parts⟩ :=
    cutOff_leaves positive settings.maxDepth minus [] w
  rw [List.append_nil] at made
  have fits : ∀ leaf ∈ Partitioner.leaves found.reverse, ∃ level,
      Fits settings s level (leaf.source last) := by
    rw [← List.forall_mem_map (P := fun leaf => ∃ level, Fits settings s level leaf),
      Partitioner.map_source_leaves]
    intro leaf here
    rw [← List.reverse_cons, List.mem_reverse] at here
    obtain ⟨level, part⟩ := parts leaf here
    exact ⟨level, part.fits positive⟩
  refine ⟨found.reverse, last, ?_, fits, ?_, ?_⟩
  · simp only [Partitioner.partition, made]
  · intro unset leaf here
    obtain ⟨level, fit⟩ := fits leaf here
    refine fit.small ?_
    rw [default unset]
    have most : s.size ≤ 2 ^ 64 :=
      Nat.le_trans (Nat.sub_le _ _) (Nat.le_trans inside (by decide))
    exact Nat.le_trans most (Nat.le_mul_of_pos_left _ positive)
  · intro stays
    have whole := cutOff_whole minus stays.symm [] w
    cases whole.symm.trans made
    exact ⟨rfl, rfl⟩

def tenNumbers : Indexed Unit Nat := ⟨fun i w => .ok i w, 0, 10, .none, none, false⟩

theorem partition_sizes_ten :
    Partitioner.create (.int 3) .undefined = .ok ⟨3, 64⟩ ∧
      ∃ leaves last, (⟨3, 64⟩ : Partitioner).partition protocol ⟨tenNumbers, ()⟩ =
          .ok leaves ⟨last, ()⟩ ∧
        leaves.map (fun leaf => (leaf.source last).size) = [2, 3, 2, 3] ∧
        ∀ leaf ∈ leaves, (leaf.source last).size ≤ 3 ∧
          ∃ level, Fits ⟨3, 64⟩ tenNumbers level (leaf.source last) := by
  have created : Partitioner.create (.int 3) .undefined = .ok ⟨3, 64⟩ := rfl
  obtain ⟨pieces, last, made, fits, small, _⟩ :=
    partition_sizes (s := tenNumbers) created (by decide) nofun ()
  have cut : (⟨3, 64⟩ : Partitioner).partition protocol ⟨tenNumbers, ()⟩ =
      .ok (Partitioner.leaves (tenNumbers.pieces [2, 5, 7])) ⟨tenNumbers.lastPart [2, 5, 7], ()⟩ := rfl
  have sizes : (Partitioner.leaves pieces).map (fun leaf => (leaf.source last).size) =
      [2, 3, 2, 3] := by
    injection cut.symm.trans made with leaves state
    cases state
    rw [← leaves]
    rfl
  exact ⟨created, _, last, made, sizes, fun leaf here => ⟨small rfl leaf here, fits leaf here⟩⟩

end Partitions

end Indexed
end SplitTraversal
