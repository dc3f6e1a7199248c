import SplitTraversal.Proofs.ListSources

/-! Splits that take nothing away. Sources that hand out an empty piece each time are drained at once
and step by step like any other. Splitting them stops at the first split where the size is declared,
since as much is left as before, and past the limit of splits where it is not. -/

namespace SplitTraversal

namespace Indexed

variable {ω α : Type} {s : Indexed ω α} {f : Nat → α}

theorem Accepted.hasAll (accepted : s.Accepted) {flags : Characteristics}
    (sized : sizedFlags.hasAll flags = true) : s.characteristics.hasAll flags = true := by
  rw [← accepted.flags]
  exact Characteristics.hasAll_union _ sized

theorem visitFrom_reads (reads : s.Reads f) (count i : Nat) (w : ω) (seen : Array α) :
    ∃ w', (visitFrom s.read Visitor.collecting.visit count i (w, seen)).ending =
      .ok () (w', seen ++ ((List.range' i count).map f).toArray) := by
  induction count generalizing i w seen with
  | zero =>
    refine ⟨w, ?_⟩
    simp only [visitFrom, Stretch.nothing, List.range'_zero, List.map_nil, Array.append_empty]
  | succ count ih =>
    obtain ⟨v, read⟩ := reads i w
    have first : (visitAt s.read Visitor.collecting.visit i (w, seen)).ending =
        .ok () (v, seen.push (f i)) := by
      simp only [visitAt, read, Visitor.collecting, Visitor.ofFunction]
    obtain ⟨w', rest⟩ := ih (i + 1) v (seen.push (f i))
    refine ⟨w', ?_⟩
    rw [visitFrom, Stretch.andThen_ok first, rest, List.range'_succ, List.map_cons,
      List.toArray_cons, ← Array.append_assoc, ← Array.push_eq_append]

theorem decompose_reads (reads : s.Reads f) {rounds : Nat} (enough : s.remaining.length < rounds)
    (strategy : Strategy) (w : ω) :
    ∃ t, protocol.decompose rounds strategy .collecting (⟨s, w⟩, #[]) =
      .ok () (t, (s.remaining.map f).toArray) := by
  have enough : s.limit - s.offset < rounds := by
    rwa [remaining, List.length_range'] at enough
  obtain ⟨w', swept⟩ := visitFrom_reads reads (s.limit - s.offset) s.offset w #[]
  rw [Array.empty_append] at swept
  have ended := decompose_ending Visitor.collecting rfl rounds strategy s w #[] enough
  rw [sweep, swept] at ended
  cases drained : protocol.decompose rounds strategy .collecting (⟨s, w⟩, #[]) with
  | error h t =>
    rw [drained] at ended
    cases ended
  | ok _ t =>
    rw [drained] at ended
    have visited : t.2 = (s.remaining.map f).toArray := congrArg (fun o => o.state.2) ended
    exact ⟨t.1, by rw [← visited]⟩

end Indexed

namespace Flawed

variable {ω α : Type} (absent : α) {s : Indexed ω α} {f : Nat → α}

/-- No flaw shows where a source is not split. -/
theorem decompose_flawed (flaw : Flaw) {strategy : Strategy} (whole : strategy ≠ .maximumSplit)
    (rounds : Nat) (w : ω) (seen : Array α) :
    (protocol absent).decompose rounds strategy .collecting (⟨⟨s, flaw⟩, w⟩, seen) =
      Outcome.mapState (fun t => (t.1.wrapped (⟨·, flaw⟩), t.2))
        (Indexed.protocol.decompose rounds strategy .collecting (⟨s, w⟩, seen)) := by
  cases strategy with
  | bulkDrain =>
    have drained := Turn.play_within (focus_lawful flaw)
      (Indexed.forEachRemaining .callable ⟨s, w⟩) ⟨⟨s, flaw⟩, w⟩ seen
    refine (Protocol.bulkDrain_eq (protocol absent) .collecting ⟨⟨s, flaw⟩, w⟩ seen).trans ?_
    refine (congrArg Outcome.halting drained).trans ?_
    refine (Outcome.halting_mapState _ _).trans (congrArg (Outcome.mapState _) ?_)
    exact (Protocol.bulkDrain_eq Indexed.protocol .collecting ⟨s, w⟩ seen).symm
  | stepAdvance =>
    have advanced (t : Site (Indexed ω α) ω) (seen : Array α) :
        Protocol.play Visitor.collecting (protocol absent).tryAdvance (t.wrapped (⟨·, flaw⟩)) seen =
          Outcome.mapState (fun x => (x.1.wrapped (⟨·, flaw⟩), x.2))
            (Protocol.play Visitor.collecting Indexed.protocol.tryAdvance t seen) :=
      Turn.play_within (focus_lawful flaw) (Indexed.tryAdvance .callable t) _ seen
    exact Protocol.stepAdvance_wrapped advanced rounds ⟨s, w⟩ seen
  | maximumSplit => exact absurd rfl whole

theorem traverse_whole (reads : s.Reads f) {rounds : Nat} (enough : s.remaining.length < rounds)
    (flaw : Flaw) {strategy : Strategy} (whole : strategy ≠ .maximumSplit) (w : ω) :
    ∃ t, (protocol absent).traverse rounds strategy ⟨⟨s, flaw⟩, w⟩ =
      .ok (.complete (s.remaining.map f)) t := by
  obtain ⟨t, drained⟩ := Indexed.decompose_reads reads enough strategy w
  have same := decompose_flawed absent (s := s) flaw whole rounds w #[]
  rw [drained] at same
  refine ⟨t.wrapped (⟨·, flaw⟩), ?_⟩
  cases strategy with
  | maximumSplit => exact absurd rfl whole
  | _ => simp only [Protocol.traverse, Protocol.collect, same, Outcome.mapState_ok]

def piece : Flawed ω α := ⟨.empty absent, .none⟩

theorem piece_sized (w : ω) :
    (protocol absent).hasCharacteristics (.ofFlag .sized) ⟨piece absent, w⟩ =
      .ok true ⟨piece absent, w⟩ := by
  have declared : Flawed.declared (⟨piece absent, w⟩ : Site (Flawed ω α) ω) =
      .ok (Indexed.empty (ω := ω) absent).characteristics.toValue ⟨piece absent, w⟩ := rfl
  have sized : (Indexed.empty (ω := ω) absent).characteristics.hasAll (.ofFlag .sized) = true :=
    Characteristics.hasAll_union _ (by decide)
  rw [← sized]
  exact Source.hasFlags_eq declared _

theorem splitGuarded_piece (sized : Bool) {rounds : Nat} (positive : 0 < rounds) (w : ω)
    (t : Tally α) :
    (protocol absent).splitGuarded sized rounds (⟨piece absent, w⟩, t) =
      .ok none (⟨piece absent, w⟩, t) := by
  obtain ⟨rounds, rfl⟩ := Nat.exists_eq_succ_of_ne_zero (Nat.ne_of_gt positive)
  have estimated : (protocol absent).estimateSize ⟨piece absent, w⟩ =
      .ok (.number (Indexed.empty (ω := ω) absent).estimate) ⟨piece absent, w⟩ := rfl
  have whole : (Indexed.empty (ω := ω) absent).split.1 = none :=
    (Indexed.split_eq_none_iff _).mpr (Nat.zero_lt_succ 1)
  have cut : (protocol absent).trySplit ⟨piece absent, w⟩ = .ok none ⟨piece absent, w⟩ := by
    simp only [protocol, trySplit, piece, Flaw.splitsEmpty, whole,
      Indexed.split_snd_of_none whole]
    rfl
  have drained : Protocol.play Visitor.collecting (protocol absent).forEachRemaining
      ⟨piece absent, w⟩ t.seen = .ok () (⟨piece absent, w⟩, t.seen) := rfl
  simp only [Protocol.splitGuarded, estimated, cut, drained]

section Stalls

variable {rounds : Nat}

theorem traverse_stuck (stuck : (Value.number s.estimate).isAtMost (.number s.estimate) = .ok true)
    (sized : s.characteristics.hasAll (.ofFlag .sized) = true) (positive : 0 < rounds) (w : ω) :
    ∃ t, (protocol absent).traverse rounds .maximumSplit ⟨⟨s, .neverShrinking⟩, w⟩ =
      .ok (.stalled ⟨.notShrinking, .number s.estimate, .number s.estimate, 1⟩) t := by
  obtain ⟨rounds, rfl⟩ := Nat.exists_eq_succ_of_ne_zero (Nat.ne_of_gt positive)
  have asked : (protocol absent).hasCharacteristics (.ofFlag .sized) ⟨⟨s, .neverShrinking⟩, w⟩ =
      .ok true ⟨⟨s, .neverShrinking⟩, w⟩ := by
    rw [← sized]
    exact Source.hasFlags_eq rfl _
  have estimated : (protocol absent).estimateSize ⟨⟨s, .neverShrinking⟩, w⟩ =
      .ok (.number s.estimate) ⟨⟨s, .neverShrinking⟩, w⟩ := rfl
  have cut : (protocol absent).trySplit ⟨⟨s, .neverShrinking⟩, w⟩ =
      .ok (some (piece absent)) ⟨⟨s, .neverShrinking⟩, w⟩ := rfl
  refine ⟨⟨⟨s, .neverShrinking⟩, w⟩, ?_⟩
  simp only [Protocol.traverse, asked, Protocol.splitGuarded, estimated, cut, Protocol.stall?,
    if_true, stuck, Except.map]

/-- By induction on the splits that are left to grant: each leaves one less, and nothing else. -/
theorem splitGuarded_endless (left : Nat) {made : Nat} (whole : made + left = unsizedSplitLimit)
    (enough : left < rounds) (w : ω) (seen : Array α) :
    ∃ u, (protocol absent).splitGuarded false rounds
        (⟨⟨s, .unsizedNeverShrinking⟩, w⟩, ⟨seen, made⟩) =
      .ok (some ⟨.splitLimit, .number s.estimate, .number s.estimate, unsizedSplitLimit + 1⟩) u := by
  have estimated : (protocol absent).estimateSize ⟨⟨s, .unsizedNeverShrinking⟩, w⟩ =
      .ok (.number s.estimate) ⟨⟨s, .unsizedNeverShrinking⟩, w⟩ := rfl
  have cut : (protocol absent).trySplit ⟨⟨s, .unsizedNeverShrinking⟩, w⟩ =
      .ok (some (piece absent)) ⟨⟨s, .unsizedNeverShrinking⟩, w⟩ := rfl
  induction left generalizing made rounds with
  | zero =>
    obtain ⟨rounds, rfl⟩ := Nat.exists_eq_succ_of_ne_zero (Nat.ne_of_gt enough)
    have past : unsizedSplitLimit < made + 1 := by omega
    refine ⟨(⟨⟨s, .unsizedNeverShrinking⟩, w⟩, ⟨seen, made + 1⟩), ?_⟩
    simp only [Protocol.splitGuarded, estimated, cut, Protocol.stall?, Bool.false_eq_true, if_false,
      if_pos past]
    rw [show made = unsizedSplitLimit from whole]
  | succ left ih =>
    obtain ⟨rounds, rfl⟩ := Nat.exists_eq_succ_of_ne_zero (Nat.ne_zero_of_lt enough)
    have granted : ¬unsizedSplitLimit < made + 1 := by omega
    have within : left < rounds := Nat.lt_of_succ_lt_succ enough
    have passed := splitGuarded_piece absent true (Nat.zero_lt_of_lt within) w
      ⟨seen, made + 1⟩
    obtain ⟨u, ended⟩ := ih (show made + 1 + left = unsizedSplitLimit by omega) within
    refine ⟨u, ?_⟩
    simp only [Protocol.splitGuarded, estimated, cut, Protocol.stall?, Bool.false_eq_true, if_false,
      if_neg granted, piece_sized, passed, ended]

theorem traverse_endless (enough : unsizedSplitLimit < rounds) (w : ω) :
    ∃ t, (protocol absent).traverse rounds .maximumSplit ⟨⟨s, .unsizedNeverShrinking⟩, w⟩ =
      .ok (.stalled
        ⟨.splitLimit, .number s.estimate, .number s.estimate, unsizedSplitLimit + 1⟩) t := by
  have asked : (protocol absent).hasCharacteristics (.ofFlag .sized)
      ⟨⟨s, .unsizedNeverShrinking⟩, w⟩ = .ok false ⟨⟨s, .unsizedNeverShrinking⟩, w⟩ :=
    Source.hasFlags_eq rfl _
  obtain ⟨u, ended⟩ := splitGuarded_endless absent (s := s) unsizedSplitLimit
    (Nat.zero_add _) enough w #[]
  exact ⟨u.1, by simp only [Protocol.traverse, asked, ended]⟩

end Stalls

end Flawed
end SplitTraversal
