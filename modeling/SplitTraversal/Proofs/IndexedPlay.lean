import SplitTraversal.Proofs.Calls
import SplitTraversal.Source.Indexed
import SplitTraversal.Traversal.Decompose

/-! What the operations of an indexed source do with a visitor. Advancing reads and visits at most
one position, draining all that remain; either way the offset moves past every position that was
read, whether or not its visit returned. -/

namespace SplitTraversal
namespace Indexed

variable {ω τ α : Type}

def skip (s : Indexed ω α) (count : Nat) : Indexed ω α := { s with offset := s.offset + count }

@[simp] theorem skip_skip (s : Indexed ω α) (a b : Nat) : (s.skip a).skip b = s.skip (a + b) := by
  simp only [skip, Nat.add_assoc]

@[simp] theorem skip_offset (s : Indexed ω α) (count : Nat) :
    (s.skip count).offset = s.offset + count := rfl

@[simp] theorem skip_limit (s : Indexed ω α) (count : Nat) : (s.skip count).limit = s.limit := rfl

theorem advanced_of_lt {s : Indexed ω α} (h : s.offset < s.limit) : s.advanced = s.skip 1 := by
  simp only [advanced, skip, next_of_lt h]

/-- The ending of a stretch that a source ran, with the source past what was read. -/
def landed (s : Indexed ω α) (stretch : Stretch (ω × τ) α) :
    Outcome Thrown (Site (Indexed ω α) ω × τ) Unit :=
  Outcome.mapState (fun t => (⟨s.skip (Call.positions stretch.calls).length, t.1⟩, t.2))
    stretch.ending

theorem landed_ok {s : Indexed ω α} {stretch : Stretch (ω × τ) α} {t : ω × τ}
    (returned : stretch.ending = .ok () t) :
    s.landed stretch = .ok () (⟨s.skip (Call.positions stretch.calls).length, t.1⟩, t.2) := by
  rw [landed, returned, Outcome.mapState_ok]

theorem landed_error {s : Indexed ω α} {stretch : Stretch (ω × τ) α} {e : Thrown} {t : ω × τ}
    (threw : stretch.ending = .error e t) :
    s.landed stretch = .error e (⟨s.skip (Call.positions stretch.calls).length, t.1⟩, t.2) := by
  rw [landed, threw, Outcome.mapState_error]

theorem landed_andThen (s : Indexed ω α) {first : Stretch (ω × τ) α} {t : ω × τ}
    (returned : first.ending = .ok () t) (next : ω × τ → Stretch (ω × τ) α) :
    s.landed (first.andThen next) =
      (s.skip (Call.positions first.calls).length).landed (next t) := by
  rw [Stretch.andThen_ok returned]
  simp only [landed, Call.positions_append, List.length_append, skip_skip]

variable (visitor : Visitor ω τ α)

theorem play_position {ρ : Type} {s : Indexed ω α} (more : s.offset < s.limit) (w : ω) (m : τ)
    (next : Site (Indexed ω α) ω → Turn (Site (Indexed ω α) ω) α ρ) :
    Turn.play visitor.visit
        (match s.read s.offset w with
        | .error e w => .threw e ⟨s.advanced, w⟩
        | .ok a w => .offer ⟨s, w⟩ a fun outcome =>
          match settle outcome with
          | .ok _ s => next s
          | .error e s => .threw e s) m =
      match s.landed (visitAt s.read visitor.visit s.offset (w, m)) with
      | .ok _ (t, m) => (next t).play visitor.visit m
      | .error e t => .error e t := by
  have moved := advanced_of_lt more
  simp only [landed, visitAt]
  cases s.read s.offset w with
  | error e w => simp only [moved]; rfl
  | ok a w =>
    simp only [Turn.play]
    cases visitor.visit a (w, m) with
    | ok _ t => simp only [settle, Outcome.mapState_ok, moved]; rfl
    | error e t => simp only [settle, Outcome.mapState_error, moved]; rfl

theorem play_tryAdvance (callable : visitor.callee = .callable) (s : Indexed ω α) (w : ω) (m : τ) :
    Protocol.play visitor protocol.tryAdvance ⟨s, w⟩ m =
      if s.limit ≤ s.offset then .ok false (⟨s, w⟩, m)
      else (s.landed (visitAt s.read visitor.visit s.offset (w, m))).answering true := by
  simp only [Protocol.play, protocol, tryAdvance, callable, Callee.require]
  split
  · rfl
  · rename_i more
    refine (play_position visitor (Nat.lt_of_not_le more) w m (.returned true)).trans ?_
    cases s.landed (visitAt s.read visitor.visit s.offset (w, m)) <;> rfl

theorem play_drain (s : Indexed ω α) (w : ω) (m : τ) (count : Nat)
    (fits : count ≤ s.limit - s.offset) :
    (drain count ⟨s, w⟩).play visitor.visit m =
      s.landed (visitFrom s.read visitor.visit count s.offset (w, m)) := by
  induction count generalizing s w m with
  | zero => rfl
  | succ count ih =>
    have more : s.offset < s.limit := by omega
    rw [drain, if_neg (Nat.not_le_of_lt more)]
    refine (play_position visitor more w m (drain count)).trans ?_
    have read := positions_visitAt s.read visitor.visit s.offset (w, m)
    cases h : (visitAt s.read visitor.visit s.offset (w, m)).ending with
    | error e t => rw [visitFrom, Stretch.andThen_error h, landed_error h]
    | ok a t =>
      rw [visitFrom, landed_andThen s h, landed_ok h, read]
      exact ih (s.skip 1) t.1 t.2 (by simp only [skip_limit, skip_offset]; omega)

theorem play_forEachRemaining (callable : visitor.callee = .callable) (s : Indexed ω α) (w : ω)
    (m : τ) :
    Protocol.play visitor protocol.forEachRemaining ⟨s, w⟩ m =
      s.landed (visitFrom s.read visitor.visit (s.limit - s.offset) s.offset (w, m)) := by
  simp only [Protocol.play, protocol, forEachRemaining, callable, Callee.require]
  exact play_drain visitor s w m _ (Nat.le_refl _)

/-- A stretch within the remaining range, and the source past it: what advancing and draining have
in common, and what is left unsaid of a visitor that is no function. -/
def Consumes (s : Indexed ω α) (w : ω) (m : τ) (after : Site (Indexed ω α) ω × τ) : Prop :=
  ∃ count ≤ s.limit - s.offset,
    after = (s.landed (visitFrom s.read visitor.visit count s.offset (w, m))).state

theorem consumes_nothing (s : Indexed ω α) (w : ω) (m : τ) :
    Consumes visitor s w m (⟨s, w⟩, m) := ⟨0, Nat.zero_le _, rfl⟩

theorem consumes_tryAdvance (s : Indexed ω α) (w : ω) (m : τ) :
    Consumes visitor s w m (Protocol.play visitor protocol.tryAdvance ⟨s, w⟩ m).state := by
  cases callable : visitor.callee with
  | other found =>
    simp only [Protocol.play, protocol, tryAdvance, callable, Callee.require]
    exact consumes_nothing visitor s w m
  | callable =>
    rw [play_tryAdvance visitor callable]
    split
    · exact consumes_nothing visitor s w m
    · refine ⟨1, by omega, ?_⟩
      rw [visitFrom_one]
      cases s.landed (visitAt s.read visitor.visit s.offset (w, m)) <;> rfl

theorem consumes_forEachRemaining (s : Indexed ω α) (w : ω) (m : τ) :
    Consumes visitor s w m (Protocol.play visitor protocol.forEachRemaining ⟨s, w⟩ m).state := by
  cases callable : visitor.callee with
  | other found =>
    simp only [Protocol.play, protocol, forEachRemaining, callable, Callee.require]
    exact consumes_nothing visitor s w m
  | callable =>
    rw [play_forEachRemaining visitor callable]
    exact ⟨s.limit - s.offset, Nat.le_refl _, rfl⟩

end Indexed
end SplitTraversal
