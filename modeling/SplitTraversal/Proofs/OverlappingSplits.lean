import Mathlib.Data.List.Basic
import SplitTraversal.Proofs.GuardedRefinement

/-! Splits whose parts overlap. A range of three or more is split so that both parts keep the element
in the middle, and ranges of two stay whole. So the splits of a list visit every two neighbours of
it: each element but the first and the last is visited twice. -/

namespace SplitTraversal

section Neighbours

variable {α : Type}

def neighbours : List α → List α
  | a :: b :: rest => a :: b :: neighbours (b :: rest)
  | _ => []

theorem neighbours_of_length {xs : List α} (two : xs.length = 2) : neighbours xs = xs := by
  obtain ⟨a, b, rfl⟩ := List.length_eq_two.mp two
  rfl

/-- Two parts of a list that share one element have all neighbours between them. -/
theorem neighbours_split (m : Nat) (xs : List α) :
    neighbours (xs.take (m + 1)) ++ neighbours (xs.drop m) = neighbours xs := by
  induction m generalizing xs with
  | zero =>
    cases xs with
    | nil => rfl
    | cons a rest => rfl
  | succ m ih =>
    cases xs with
    | nil => rfl
    | cons a rest =>
      cases rest with
      | nil => simp [neighbours]
      | cons b rest =>
        have parts := ih (b :: rest)
        rw [List.take_succ_cons] at parts
        rw [List.take_succ_cons, List.take_succ_cons, List.drop_succ_cons, neighbours, neighbours,
          ← parts]
        rfl

theorem neighbours_ends (first last : α) (middle : List α) :
    neighbours (first :: (middle ++ [last])) =
      first :: (middle.flatMap (fun a => [a, a]) ++ [last]) := by
  induction middle generalizing first with
  | nil => rfl
  | cons a rest ih =>
    rw [List.cons_append, neighbours, ih, List.flatMap_cons]
    rfl

theorem length_lt_neighbours {xs : List α} (several : 3 ≤ xs.length) :
    xs.length < (neighbours xs).length := by
  have twice (a : α) (rest : List α) :
      (neighbours (a :: rest)).length = 2 * rest.length := by
    induction rest generalizing a with
    | nil => rfl
    | cons b rest ih =>
      rw [neighbours, List.length_cons, List.length_cons, ih, List.length_cons]
      omega
  cases xs with
  | nil => cases several
  | cons a rest =>
    rw [twice]
    rw [List.length_cons] at several ⊢
    omega

end Neighbours

namespace Overlapping

variable {ω α : Type}

def remaining (s : Overlapping α) : List α := (s.elements.toList.take s.limit).drop s.position

variable {s : Overlapping α}

theorem length_remaining (within : s.limit ≤ s.elements.size) :
    s.remaining.length = s.limit - s.position := by
  simp only [remaining, List.length_drop, List.length_take, Array.length_toList]
  omega

theorem remaining_ofList (elements : List α) : (ofList elements).remaining = elements := by
  simp [remaining, ofList]

theorem remaining_nil (within : s.limit ≤ s.elements.size) (none : s.limit ≤ s.position) :
    s.remaining = [] := by
  apply List.eq_nil_of_length_eq_zero
  rw [length_remaining within]
  omega

theorem exists_next (within : s.limit ≤ s.elements.size) (more : s.position < s.limit) :
    ∃ a, s.elements[s.position]? = some a ∧ s.remaining = a :: s.advanced.remaining := by
  have inside : s.position < s.elements.size := Nat.lt_of_lt_of_le more within
  have here : s.position < (s.elements.toList.take s.limit).length := by
    rw [List.length_take, Array.length_toList]
    omega
  refine ⟨s.elements[s.position], Array.getElem?_eq_getElem inside, ?_⟩
  rw [remaining, List.drop_eq_getElem_cons here, List.getElem_take, Array.getElem_toList]
  rfl

section Visits

variable (within : s.limit ≤ s.elements.size) (w : ω) (seen : Array α)

include within

theorem play_tryAdvance (more : s.position < s.limit) :
    ∃ a, Protocol.play Visitor.collecting protocol.tryAdvance ⟨s, w⟩ seen =
        .ok true (⟨s.advanced, w⟩, seen.push a) ∧ s.remaining = a :: s.advanced.remaining := by
  obtain ⟨a, here, rest⟩ := exists_next within more
  refine ⟨a, ?_, rest⟩
  simp only [Protocol.play, protocol, tryAdvance, if_neg (Nat.not_le_of_lt more), here]
  rfl

theorem stepAdvance_visits (rounds : Nat) (enough : s.remaining.length < rounds) :
    ∃ t, protocol.stepAdvance .collecting rounds (⟨s, w⟩, seen) =
      .ok () (⟨t, w⟩, seen ++ s.remaining.toArray) := by
  induction rounds generalizing s seen with
  | zero => omega
  | succ rounds ih =>
    by_cases more : s.position < s.limit
    · obtain ⟨a, played, rest⟩ := play_tryAdvance within w seen more
      rw [rest, List.length_cons] at enough
      obtain ⟨t, looped⟩ := ih (s := s.advanced) within (seen.push a) (by omega)
      refine ⟨t, ?_⟩
      rw [Protocol.stepAdvance, played, rest, List.toArray_cons, ← Array.append_assoc,
        ← Array.push_eq_append]
      exact looped
    · have none : s.limit ≤ s.position := Nat.le_of_not_lt more
      have played : Protocol.play Visitor.collecting protocol.tryAdvance ⟨s, w⟩ seen =
          .ok false (⟨s, w⟩, seen) := by
        simp only [Protocol.play, protocol, tryAdvance, if_pos none]
        rfl
      refine ⟨s, ?_⟩
      rw [Protocol.stepAdvance, played, remaining_nil within none]
      simp

theorem play_drain (count : Nat) (all : s.limit - s.position = count) :
    ∃ t, (drain count ⟨s, w⟩).play Visitor.collecting.visit seen =
      .ok () (⟨t, w⟩, seen ++ s.remaining.toArray) := by
  induction count generalizing s seen with
  | zero =>
    refine ⟨s, ?_⟩
    rw [remaining_nil within (by omega)]
    simp [drain, Turn.play, Turn.returned]
  | succ count ih =>
    have more : s.position < s.limit := by omega
    obtain ⟨a, here, rest⟩ := exists_next within more
    obtain ⟨t, drained⟩ := ih (s := s.advanced) within (seen.push a)
      (by simp only [advanced]; omega)
    refine ⟨t, ?_⟩
    rw [rest, List.toArray_cons, ← Array.append_assoc, ← Array.push_eq_append]
    simp only [drain, if_neg (Nat.not_le_of_lt more), here]
    exact drained

theorem forEachRemaining_visits :
    ∃ t, Protocol.play Visitor.collecting protocol.forEachRemaining ⟨s, w⟩ seen =
      .ok () (⟨t, w⟩, seen ++ s.remaining.toArray) :=
  play_drain within w seen _ rfl

end Visits

section Splits

theorem estimateSize_eq (s : Overlapping α) (w : ω) :
    protocol.estimateSize ⟨s, w⟩ = .ok (.int ((s.limit : Int) - s.position)) ⟨s, w⟩ := rfl

theorem trySplit_none (few : s.limit - s.position < 3) (w : ω) :
    protocol.trySplit ⟨s, w⟩ = .ok none ⟨s, w⟩ := by
  have short : s.limit < s.position + 3 := by omega
  simp only [protocol, trySplit, split, if_pos short]

theorem trySplit_some {size : Nat} (counted : s.limit - s.position = size) (several : 3 ≤ size)
    (w : ω) :
    protocol.trySplit ⟨s, w⟩ = .ok (some { s with limit := s.position + size / 2 + 1 })
      ⟨{ s with position := s.position + size / 2 }, w⟩ := by
  have long : ¬s.limit < s.position + 3 := by omega
  simp only [protocol, trySplit, split, if_neg long, counted]

theorem remaining_piece {m : Nat} (fits : s.position + m < s.limit) :
    ({ s with limit := s.position + m + 1 } : Overlapping α).remaining =
      s.remaining.take (m + 1) := by
  rw [remaining, remaining, List.take_drop, List.take_take, Nat.min_eq_left (by omega)]
  rfl

theorem remaining_rest (s : Overlapping α) (m : Nat) :
    ({ s with position := s.position + m } : Overlapping α).remaining = s.remaining.drop m := by
  rw [remaining, remaining, List.drop_drop]

theorem stall?_int {before after : Int} (less : after < before) (splits : Nat) :
    Protocol.stall? true (.int before) (.int after) splits = .ok none := by
  simp only [Protocol.stall?, if_true, Value.isAtMost_int, decide_eq_false (Int.not_le_of_gt less)]
  rfl

/-- Ranges of two and more are visited by neighbours: those of the piece, then those of the rest. -/
theorem splitGuarded_visits (rounds : Nat) (within : s.limit ≤ s.elements.size)
    (several : s.position + 2 ≤ s.limit) (enough : s.limit - s.position < rounds) (w : ω)
    (t : Tally α) :
    ∃ own splits, protocol.splitGuarded true rounds (⟨s, w⟩, t) =
      .ok none (⟨own, w⟩, ⟨t.seen ++ (neighbours s.remaining).toArray, splits⟩) := by
  induction rounds generalizing s t with
  | zero => omega
  | succ rounds ih =>
    by_cases few : s.limit - s.position < 3
    · have two : neighbours s.remaining = s.remaining :=
        neighbours_of_length (by rw [length_remaining within]; omega)
      obtain ⟨own, drained⟩ := forEachRemaining_visits within w t.seen
      refine ⟨own, t.splits, ?_⟩
      rw [two]
      simp only [Protocol.splitGuarded, estimateSize_eq, trySplit_none few, drained]
    · have cut := trySplit_some rfl (Nat.le_of_not_lt few) w
      generalize half : (s.limit - s.position) / 2 = m at cut
      have fits : s.position + m < s.limit := by omega
      have less : (s.limit : Int) - ((s.position + m : Nat) : Int) < s.limit - s.position := by omega
      have sized (piece : Overlapping α) :
          protocol.hasCharacteristics (.ofFlag .sized) ⟨piece, w⟩ = .ok true ⟨piece, w⟩ :=
        Source.hasFlags_eq rfl _
      obtain ⟨_, splits, first⟩ := ih (s := { s with limit := s.position + m + 1 })
        (by simp only; omega) (by simp only; omega) (by simp only; omega) ⟨t.seen, t.splits + 1⟩
      obtain ⟨own, splits', second⟩ := ih (s := { s with position := s.position + m }) within
        (by simp only; omega) (by simp only; omega)
        ⟨t.seen ++ (neighbours (s.remaining.take (m + 1))).toArray, splits⟩
      refine ⟨own, splits', ?_⟩
      rw [remaining_piece fits] at first
      rw [remaining_rest] at second
      rw [← neighbours_split m, ← List.append_toArray, ← Array.append_assoc]
      simp only [Protocol.splitGuarded, estimateSize_eq, cut, stall?_int less, sized, first, second]

end Splits

theorem traverse_visits {elements : List α} {rounds : Nat} (several : 2 ≤ elements.length)
    (enough : elements.length < rounds) (w : ω) :
    ∃ t, protocol.traverse rounds .maximumSplit ⟨ofList elements, w⟩ =
      .ok (.complete (neighbours elements)) t := by
  have sized : protocol.hasCharacteristics (.ofFlag .sized) ⟨ofList elements, w⟩ =
      .ok true ⟨ofList elements, w⟩ := Source.hasFlags_eq rfl _
  obtain ⟨own, splits, ended⟩ := splitGuarded_visits (s := ofList elements) rounds
    (Nat.le_refl _) (by simpa [ofList] using several) (by simpa [ofList] using enough) w ⟨#[], 0⟩
  rw [remaining_ofList] at ended
  refine ⟨⟨own, w⟩, ?_⟩
  simp only [Protocol.traverse, sized, ended, Array.empty_append]

theorem candid (s : Overlapping α) :
    (protocol : Protocol (Overlapping α) ω α).Candid s :=
  ⟨fun _ => ⟨_, rfl⟩, fun _ => ⟨_, Source.hasFlags_eq rfl _⟩⟩

/-- The guard is not what ends such a traversal: without it the same is visited. -/
theorem collect_visits {elements : List α} {rounds : Nat} (several : 2 ≤ elements.length)
    (enough : elements.length < rounds) (w : ω) :
    ∃ t, protocol.collect rounds .maximumSplit ⟨ofList elements, w⟩ =
      .ok (neighbours elements) t := by
  have tree : (protocol : Protocol (Overlapping α) ω α).CandidTree (ofList elements) :=
    fun s _ => candid s
  obtain ⟨t, traversed⟩ := traverse_visits several enough w
  exact ⟨t, (Protocol.traverse_refines tree rounds .maximumSplit w).1 _ t traversed⟩

end Overlapping
end SplitTraversal
