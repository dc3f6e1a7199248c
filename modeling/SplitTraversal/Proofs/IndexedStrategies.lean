import SplitTraversal.Proofs.IndexedFamily
import SplitTraversal.Proofs.StepwiseDrains

/-! The strategies on indexed sources. Whether a source is drained at once, step by step or by
splits, index function and visitor are called for the same positions in the same order, and the
first throw ends all of it. -/

namespace SplitTraversal
namespace Indexed

variable {ω τ α : Type}

def ending {ε σ ρ : Type} (outcome : Outcome ε (Site σ ω × τ) ρ) : Outcome ε (ω × τ) ρ :=
  Outcome.mapState (fun t => (t.1.shared, t.2)) outcome

theorem ending_landed (s : Indexed ω α) (stretch : Stretch (ω × τ) α) :
    ending (s.landed stretch).halting = stretch.ending.halting := by
  cases h : stretch.ending with
  | ok a t => rw [landed_ok h]; rfl
  | error e t => rw [landed_error h]; rfl

def sweep (s : Indexed ω α) (visit : α → Action (ω × τ) Unit) (t : ω × τ) : Stretch (ω × τ) α :=
  visitFrom s.read visit (s.limit - s.offset) s.offset t

/-- Sweeping a source is sweeping its two parts one after the other, as two stretches of one range. -/
theorem sweep_split {s : Indexed ω α} {mid : Nat} (after : s.offset < mid)
    (before : mid < s.limit) (visit : α → Action (ω × τ) Unit) (t : ω × τ) :
    s.sweep visit t = (sweep { s with limit := mid } visit t).andThen
      (sweep { s with offset := mid } visit) := by
  have count : s.limit - s.offset = (mid - s.offset) + (s.limit - mid) := by omega
  have meet : s.offset + (mid - s.offset) = mid := by omega
  rw [sweep, count, visitFrom_add, meet]
  rfl

theorem sweep_recording (s : Indexed ω α) (visit : α → Action (ω × τ) Unit)
    (w : ω) (log : List (Call α)) (m : τ) :
    s.recording.sweep (recordVisit visit) ((w, log), m) = (s.sweep visit (w, m)).recorded log :=
  visitFrom_recorded s.read visit _ s.offset w log m

variable (visitor : Visitor ω τ α)

theorem bulkDrain_ending (callable : visitor.callee = .callable) (s : Indexed ω α) (w : ω)
    (m : τ) :
    ending (protocol.bulkDrain visitor (⟨s, w⟩, m)) =
      (s.sweep visitor.visit (w, m)).ending.halting := by
  rw [Protocol.bulkDrain_eq, play_forEachRemaining visitor callable, ending_landed, sweep]

theorem stepAdvance_ending (callable : visitor.callee = .callable) (rounds : Nat)
    (s : Indexed ω α) (w : ω) (m : τ) (enough : s.limit - s.offset < rounds) :
    ending (protocol.stepAdvance visitor rounds (⟨s, w⟩, m)) =
      (s.sweep visitor.visit (w, m)).ending.halting := by
  rw [sequential.stepAdvance_eq_bulkDrain callable s w m enough]
  exact bulkDrain_ending visitor callable s w m

theorem maximumSplit_ending (callable : visitor.callee = .callable) (rounds : Nat)
    (s : Indexed ω α) (w : ω) (m : τ) (enough : s.limit - s.offset < rounds) :
    ending (protocol.maximumSplit visitor rounds (⟨s, w⟩, m)) =
      (s.sweep visitor.visit (w, m)).ending.halting := by
  induction rounds generalizing s w m with
  | zero => omega
  | succ rounds ih =>
    rcases trySplit_cases s w with cut | ⟨mid, left, right, cut⟩
    · rw [Protocol.maximumSplit_none cut]
      exact bulkDrain_ending visitor callable s w m
    · have piece := ih { s with limit := mid } w m (by simp only; omega)
      have rest (t : ω × τ) := ih { s with offset := mid } t.1 t.2 (by simp only; omega)
      rw [sweep_split left right, Protocol.maximumSplit_some cut]
      cases result : protocol.maximumSplit visitor rounds (⟨{ s with limit := mid }, w⟩, m) with
      | error h t =>
        rw [result] at piece
        obtain ⟨e, rfl, threw⟩ := Outcome.eq_error_of_halting piece.symm
        rw [Stretch.andThen_error threw, threw]
        rfl
      | ok a t =>
        rw [result] at piece
        rw [Stretch.andThen_ok (Outcome.eq_ok_of_halting piece.symm)]
        exact rest (t.1.shared, t.2)

theorem decompose_ending (callable : visitor.callee = .callable) (rounds : Nat)
    (strategy : Strategy) (s : Indexed ω α) (w : ω) (m : τ) (enough : s.limit - s.offset < rounds) :
    ending (protocol.decompose rounds strategy visitor (⟨s, w⟩, m)) =
      (s.sweep visitor.visit (w, m)).ending.halting := by
  simp only [Protocol.decompose, callable, Callee.require]
  cases strategy with
  | bulkDrain => exact bulkDrain_ending visitor callable s w m
  | stepAdvance => exact stepAdvance_ending visitor callable rounds s w m enough
  | maximumSplit => exact maximumSplit_ending visitor callable rounds s w m enough

def observed {σ : Type} (outcome : Outcome Halt (Site σ (Logged ω α) × τ) Unit) :
    List (Call α) × Outcome Halt (ω × τ) Unit :=
  (outcome.state.1.shared.2, Outcome.mapState (fun t => (t.1.shared.1, t.2)) outcome)

theorem observed_eq {σ : Type} {outcome : Outcome Halt (Site σ (Logged ω α) × τ) Unit}
    {stretch : Stretch (ω × τ) α}
    (h : ending outcome = (stretch.recorded []).ending.halting) :
    observed outcome = (stretch.calls, stretch.ending.halting) := by
  have calls : (ending outcome).state.1.2 = outcome.state.1.shared.2 := by
    rw [ending, Outcome.state_mapState]
  have rest : Outcome.mapState (fun t => (t.1.1, t.2)) (ending outcome) =
      Outcome.mapState (fun t => (t.1.shared.1, t.2)) outcome := Outcome.mapState_mapState _ _ _
  rw [observed, ← calls, ← rest, h]
  simp only [Stretch.recorded, List.nil_append]
  cases stretch.ending <;> rfl

/-- Under every strategy a source makes the calls of one sweep over its range and ends as that
sweep does, with or without a note of the calls being taken. -/
theorem decompose_observed (s : Indexed ω α) (visit : α → Action (ω × τ) Unit) (w : ω) (m : τ)
    (rounds : Nat) (enough : s.limit - s.offset < rounds) :
    (∀ strategy,
      observed (protocol.decompose rounds strategy (Visitor.ofFunction visit).recording
          (⟨s.recording, (w, [])⟩, m)) =
        ((s.sweep visit (w, m)).calls, (s.sweep visit (w, m)).ending.halting) ∧
      ending (protocol.decompose rounds strategy (.ofFunction visit) (⟨s, w⟩, m)) =
        (s.sweep visit (w, m)).ending.halting) ∧
    ∃ count ≤ s.limit - s.offset,
      Call.positions (s.sweep visit (w, m)).calls = List.range' s.offset count ∧
        ∀ t, (s.sweep visit (w, m)).ending = .ok () t → count = s.limit - s.offset := by
  refine ⟨fun strategy => ⟨?_, ?_⟩, positions_visitFrom s.read visit _ s.offset (w, m)⟩
  · apply observed_eq
    rw [← sweep_recording]
    exact decompose_ending (Visitor.ofFunction visit).recording rfl rounds strategy s.recording
      (w, []) m enough
  · exact decompose_ending (.ofFunction visit) rfl rounds strategy s w m enough

def throwSecond : Nat → Action (Unit × List Nat) Unit := fun n (w, seen) =>
  if seen.length = 1 then .error (.int n) (w, n :: seen) else .ok () (w, n :: seen)

theorem decompose_observed_throwing :
    7 - 2 < 6 ∧ ∀ strategy,
      observed (protocol.decompose 6 strategy (Visitor.ofFunction throwSecond).recording
          (⟨(⟨fun i w => .ok (i * i) w, 2, 7, .none, none, false⟩ : Indexed Unit Nat).recording,
            ((), [])⟩, [])) =
        ([.read 2 (some 4), .visit 4, .read 3 (some 9), .visit 9],
          .error (.threw (.int 9)) ((), [9, 4])) := by
  have enough : 7 - 2 < 6 := by decide
  exact ⟨enough, fun strategy =>
    ((decompose_observed ⟨fun i w => .ok (i * i) w, 2, 7, .none, none, false⟩
      throwSecond () [] 6 enough).1 strategy).1⟩

end Indexed
end SplitTraversal
