import SplitTraversal.Proofs.Contract
import SplitTraversal.Proofs.IndexedAccepted
import SplitTraversal.Proofs.IndexedStrategies

/-! Indexed sources keep the contract, as long as reading a position gives the same element each
time and never throws. -/

namespace SplitTraversal

theorem Protocol.stepAdvance_more {σ ω τ α : Type} {p : Protocol σ ω α} {visitor : Visitor ω τ α}
    {rounds more : Nat} {s t : Site σ ω × τ} (within : rounds ≤ more)
    (ended : p.stepAdvance visitor rounds s = .ok () t) :
    p.stepAdvance visitor more s = .ok () t := by
  induction rounds generalizing more s with
  | zero => cases ended
  | succ rounds ih =>
    obtain ⟨more, rfl⟩ : ∃ n, more = n + 1 := ⟨more - 1, by omega⟩
    simp only [Protocol.stepAdvance] at ended ⊢
    cases played : play visitor p.tryAdvance s.1 s.2 with
    | error e u =>
      rw [played] at ended
      cases ended
    | ok again u =>
      rw [played] at ended
      cases again with
      | false => exact ended
      | true => exact ih (by omega) ended

namespace Indexed

variable {ω α : Type}

def Reads (f : Nat → α) (s : Indexed ω α) : Prop := ∀ i w, ∃ w', s.read i w = .ok (f i) w'

def view (f : Nat → α) : View (Indexed ω α) α where
  obeys s := s.Accepted ∧ s.Reads f
  remaining s := s.remaining.map f
  flags s := s.characteristics

variable {f : Nat → α} {s : Indexed ω α}

theorem declared_eq (s : Indexed ω α) (w : ω) :
    declared ⟨s, w⟩ = .ok s.characteristics.toValue ⟨s, w⟩ := rfl

theorem view_nil : (view f).remaining s = [] ↔ s.limit ≤ s.offset := by
  simp only [view, remaining, List.map_eq_nil_iff, List.range'_eq_nil_iff]
  omega

theorem view_length : ((view f).remaining s).length = s.limit - s.offset := by
  simp only [view, remaining, List.length_map, List.length_range']

/-- An estimate of zero with a minus sign is equal to zero. -/
theorem estimate_same (accepted : s.Accepted) :
    s.estimate.same (.integer ((view f).remaining s).length) = true := by
  have within := accepted.offset_le
  rw [view_length]
  cases minus : s.minusZero with
  | true =>
    have none : s.limit - s.offset = 0 := by rw [accepted.minusZero minus, Nat.zero_sub]
    rw [none, estimate, if_pos minus]
    decide +kernel
  | false =>
    simp only [estimate, minus, Bool.false_eq_true, if_false, Number.same, beq_iff_eq]
    omega

theorem play_tryAdvance_reads (reads : s.Reads f) (more : s.offset < s.limit) (w : ω)
    (seen : Array α) : ∃ w',
    Protocol.play Visitor.collecting protocol.tryAdvance ⟨s, w⟩ seen =
      .ok true (⟨s.skip 1, w'⟩, seen.push (f s.offset)) := by
  obtain ⟨w', read⟩ := reads s.offset w
  refine ⟨w', ?_⟩
  have visited : (visitAt s.read Visitor.collecting.visit s.offset (w, seen)).ending =
      .ok () (w', seen.push (f s.offset)) := by
    simp only [visitAt, read, Visitor.collecting, Visitor.ofFunction]
  rw [play_tryAdvance _ rfl, if_neg (Nat.not_le_of_lt more), landed_ok visited, positions_visitAt]
  rfl

theorem contract (f : Nat → α) : Contract (protocol : Protocol (Indexed ω α) ω α) (view f) where
  hasCharacteristics {s} obeys flags w :=
    ⟨⟨s, w⟩, Source.hasFlags_eq (declared_eq s w) flags, .refl obeys⟩
  estimateSize {s} obeys w :=
    ⟨s.estimate, ⟨s, w⟩, rfl, .refl obeys, fun _ => estimate_same obeys.1⟩
  tryAdvance_nil {s} obeys nil w seen := by
    refine ⟨⟨s, w⟩, ?_⟩
    rw [play_tryAdvance _ rfl, if_pos (view_nil.mp nil)]
  tryAdvance_cons {s} obeys some w seen := by
    have more : s.offset < s.limit := Nat.lt_of_not_le (mt view_nil.mpr some)
    obtain ⟨w', played⟩ := play_tryAdvance_reads obeys.2 more w seen
    refine ⟨f s.offset, ⟨s.skip 1, w'⟩, played, ⟨⟨obeys.1.rest more, obeys.2⟩, rfl⟩, ?_⟩
    refine .of_eq _ ?_
    have first := remaining_skip (show 1 ≤ s.limit - s.offset by omega)
    simp only [view, first, List.range'_one, List.map_cons, List.cons_append, List.nil_append]
  forEachRemaining {s} obeys w seen rounds t looped := by
    have longer := Protocol.stepAdvance_more
      (Nat.le_add_right rounds (s.limit - s.offset + 1)) looped
    have stepped := stepAdvance_ending Visitor.collecting rfl
      (rounds + (s.limit - s.offset + 1)) s w seen (by omega)
    have drained := bulkDrain_ending Visitor.collecting rfl s w seen
    rw [← stepped, longer, Protocol.bulkDrain_eq] at drained
    cases played : Protocol.play Visitor.collecting protocol.forEachRemaining ⟨s, w⟩ seen with
    | error e u =>
      rw [played] at drained
      cases drained
    | ok a u =>
      rw [played] at drained
      have visited : u.2 = t.2 := by
        simp only [ending, Outcome.halting, Outcome.mapState_ok, EStateM.Result.ok.injEq, true_and,
          Prod.mk.injEq] at drained
        exact drained.2
      exact ⟨u, rfl, .of_eq _ (by rw [visited])⟩
  trySplit {s} obeys w := by
    rcases trySplit_cases s w with cut | ⟨mid, after, before, cut⟩
    · left
      exact ⟨⟨s, w⟩, cut, .refl obeys⟩
    · right
      refine ⟨{ s with limit := mid }, ⟨{ s with offset := mid }, w⟩, cut,
        ⟨⟨obeys.1.rest (Nat.le_of_lt before), obeys.2⟩, rfl⟩,
        ⟨obeys.1.piece after before, obeys.2⟩, fun ordered => ordered, ?_, ?_, ?_⟩
      · exact mt view_nil.mp (Nat.not_le_of_lt after)
      · exact mt view_nil.mp (Nat.not_le_of_lt before)
      · refine .of_eq _ ?_
        simp only [view, remaining_split after before, List.map_append]

end Indexed
end SplitTraversal
