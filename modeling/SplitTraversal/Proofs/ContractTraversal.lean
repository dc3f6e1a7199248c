import SplitTraversal.Proofs.GuardedRounds
import SplitTraversal.Proofs.IndexedContract

/-! Guarded traversals of sources that keep the contract. No split of a sized source is flagged, since
both of its parts are smaller, so only the number of splits can stop such a traversal. Queries may
change the sources, as long as they keep the laws and what remains. -/

namespace SplitTraversal

variable {σ ω α : Type} {p : Protocol σ ω α} {v : View σ α} {s : σ}

namespace Protocol

def dividing (p : Protocol σ ω α) : Protocol σ (ω × List σ) α := p.splitNoting (flip List.cons)

/-- The sources that a guarded traversal splits, as they are before. -/
def divided (p : Protocol σ ω α) (rounds : Nat) (s : Site σ ω) : List σ :=
  (Outcome.state (p.dividing.traverse rounds .maximumSplit ⟨s.own, (s.shared, [])⟩)).shared.2

/-- Where the estimates of a sized source are exact and less remains than before, only a source
without a size is stopped. -/
theorem stall?_cases {sized : Bool} {before after : Number} {m n : Nat}
    (first : sized = true → before.same (.integer m) = true)
    (next : sized = true → after.same (.integer n) = true) (fewer : n < m) (splits : Nat) :
    stall? sized (.number before) (.number after) splits = .ok none ∨
      sized = false ∧ unsizedSplitLimit < splits ∧
        ∃ stall, stall? sized (.number before) (.number after) splits = .ok (some stall) := by
  cases sized with
  | true =>
    have larger : ¬(m : Int) ≤ n := by omega
    left
    simp only [stall?, if_true, Value.isAtMost_of_same (first rfl) (next rfl),
      decide_eq_false larger, Except.map, Bool.false_eq_true, if_false]
  | false =>
    by_cases many : unsizedSplitLimit < splits
    · exact .inr ⟨rfl, many, _, by simp only [stall?, many, if_true]; rfl⟩
    · exact .inl (by simp only [stall?, many, if_false]; rfl)

end Protocol

namespace Contract

/-- How the guarded run of a source ends. It visited what remained, or it stopped because too many
sources were split, one without a size at the last. -/
inductive Settles (v : View σ α) (s : σ) (seen : Array α) :
    Outcome Halt (Site σ (ω × List σ) × Tally α) (Option Stall) → Prop
  | complete (u : Site σ (ω × List σ)) {seen' : Array α}
      (same : Same (v.ordered s) seen'.toList (seen.toList ++ v.remaining s)) :
      Settles v s seen (.ok none (u, ⟨seen', u.shared.2.length⟩))
  | refused (stall : Stall) (u : Site σ (ω × List σ)) (t : Tally α) {last : σ}
      (split : last ∈ u.shared.2) (obeys : v.obeys last) (unsized : v.sized last = false)
      (many : unsizedSplitLimit < u.shared.2.length) : Settles v s seen (.ok (some stall) (u, t))

namespace Settles

variable {seen : Array α} {o : Outcome Halt (Site σ (ω × List σ) × Tally α) (Option Stall)}

theorem of_stays {t : σ} (settles : Settles v t seen o) (stays : v.Stays s t) :
    Settles v s seen o := by
  cases settles with
  | complete u same => exact .complete u (stays.visited same)
  | refused stall u x split obeys unsized many =>
    exact .refused stall u x split obeys unsized many

/-- A piece is traversed, and then the rest unless the piece was refused. -/
theorem andThen {piece rest own : σ} {sized : Bool} {rounds : Nat} (first : Settles v piece seen o)
    (second : ∀ (w : ω × List σ) (seen' : Array α), Settles v rest seen'
      (p.dividing.splitGuarded sized rounds (⟨own, w⟩, ⟨seen', w.2.length⟩)))
    (keeps : v.Keeps s rest) (ordered : v.ordered s = true → v.ordered piece = true)
    (same : Same (v.ordered s) (v.remaining piece ++ v.remaining rest) (v.remaining s)) :
    Settles v s seen (p.dividing.restGuarded sized rounds own o) := by
  cases first with
  | refused stall u x split obeys unsized many =>
    exact .refused stall ⟨own, u.shared⟩ x split obeys unsized many
  | @complete u seen' visited =>
    have later := second u.shared seen'
    change Settles v s seen
      (p.dividing.splitGuarded sized rounds (⟨own, u.shared⟩, ⟨seen', u.shared.2.length⟩))
    generalize p.dividing.splitGuarded sized rounds
      (⟨own, u.shared⟩, ⟨seen', u.shared.2.length⟩) = o at later ⊢
    cases later with
    | refused stall x y split obeys unsized many =>
      exact .refused stall x y split obeys unsized many
    | complete x visitedRest =>
      rw [keeps.ordered] at visitedRest
      exact .complete x ((visited.weaken ordered).join visitedRest same)

end Settles

theorem splitGuarded_settles (contract : Contract p v) (obeys : v.obeys s) (rounds : Nat) (w : ω)
    (split : List σ) (seen : Array α) (enough : (v.remaining s).length < rounds) :
    Settles v s seen
      (p.dividing.splitGuarded (v.sized s) rounds (⟨s, (w, split)⟩, ⟨seen, split.length⟩)) := by
  induction rounds generalizing s w split seen with
  | zero => omega
  | succ rounds ih =>
    obtain ⟨before, s₁, asked, stays₁, exact₁⟩ := contract.estimateSize obeys w
    have asking : p.dividing.estimateSize ⟨s, (w, split)⟩ =
        .ok (.number before) ⟨s₁.own, (s₁.shared, split)⟩ := Protocol.run_beside asked split
    rcases contract.trySplit stays₁.obeys s₁.shared with ⟨t, stayed, stays⟩ |
      ⟨piece, t, cut, keeps, pieceObeys, pieceOrdered, somePiece, someRest, same⟩
    · have staying : p.dividing.trySplit ⟨s₁.own, (s₁.shared, split)⟩ =
          .ok none ⟨t.own, (t.shared, split)⟩ :=
        Protocol.notedSplit_none stayed (flip List.cons) split
      obtain ⟨u, drained, visited⟩ := contract.drain stays.obeys t.shared seen
      have draining := Protocol.play_noting (flip List.cons) p t split seen
      rw [drained] at draining
      simp only [Protocol.splitGuarded, asking, staying]
      rw [Protocol.dividing, draining]
      exact .complete ⟨u.1.own, (u.1.shared, split)⟩ ((stays₁.trans stays).visited visited)
    · have cutting : p.dividing.trySplit ⟨s₁.own, (s₁.shared, split)⟩ =
          .ok (some piece) ⟨t.own, (t.shared, s₁.own :: split)⟩ :=
        Protocol.notedSplit_some cut (flip List.cons) split
      obtain ⟨after, s₂, again, stays₂, exact₂⟩ := contract.estimateSize keeps.obeys t.shared
      have askingAgain : p.dividing.estimateSize ⟨t.own, (t.shared, s₁.own :: split)⟩ =
          .ok (.number after) ⟨s₂.own, (s₂.shared, s₁.own :: split)⟩ :=
        Protocol.run_beside again _
      have count := same.1.length_eq
      have left := List.length_pos_iff.mpr somePiece
      have right := List.length_pos_iff.mpr someRest
      rw [List.length_append, stays₁.length] at count
      have flagged : v.sized t.own = v.sized s := keeps.sized.trans stays₁.sized
      rw [flagged] at exact₂
      rcases Protocol.stall?_cases exact₁ exact₂ (by omega) (split.length + 1) with calm |
        ⟨unsized, many, stall, stalled⟩
      · obtain ⟨s₃, pieceAsked, stays₃⟩ :=
          contract.hasCharacteristics pieceObeys (.ofFlag .sized) s₂.shared
        have askingPiece : p.dividing.hasCharacteristics (.ofFlag .sized)
            ⟨piece, (s₂.shared, s₁.own :: split)⟩ =
              .ok (v.sized s₃.own) ⟨s₃.own, (s₃.shared, s₁.own :: split)⟩ := by
          rw [stays₃.sized]
          exact Protocol.run_beside pieceAsked _
        rw [Protocol.splitGuarded_divided asking cutting askingAgain calm askingPiece]
        have first := ih stays₃.obeys s₃.shared (s₁.own :: split) seen
          (by rw [stays₃.length]; omega)
        have second (w : ω × List σ) (seen' : Array α) := ih stays₂.obeys w.1 w.2 seen'
          (by rw [stays₂.length]; omega)
        rw [stays₂.sized, flagged] at second
        have whole : Settles v s₁.own seen _ := (first.of_stays stays₃).andThen
          (fun w seen' => (second w seen').of_stays stays₂) keeps pieceOrdered same
        exact whole.of_stays stays₁
      · simp only [Protocol.splitGuarded, asking, cutting, askingAgain, stalled]
        exact .refused stall ⟨_, (_, s₁.own :: split)⟩ _ (List.mem_cons_self ..) stays₁.obeys
          (stays₁.sized.trans unsized) many

/-- Nothing stops a guarded traversal unless too many sources are split, and one without a size. -/
theorem traverse_settles (contract : Contract p v) (obeys : v.obeys s) (rounds : Nat) (w : ω)
    (enough : (v.remaining s).length < rounds) :
    (∃ found t, p.traverse rounds .maximumSplit ⟨s, w⟩ = .ok (.complete found) t ∧
      Same (v.ordered s) found (v.remaining s)) ∨
    ∃ last ∈ p.divided rounds ⟨s, w⟩, v.obeys last ∧ v.sized last = false ∧
      unsizedSplitLimit < (p.divided rounds ⟨s, w⟩).length := by
  obtain ⟨t, asked, stays⟩ := contract.hasCharacteristics obeys (.ofFlag .sized) w
  have asking : p.dividing.hasCharacteristics (.ofFlag .sized) ⟨s, (w, [])⟩ =
      .ok (v.sized t.own) ⟨t.own, (t.shared, [])⟩ := by
    rw [stays.sized]
    exact Protocol.run_beside asked []
  have settles := (contract.splitGuarded_settles stays.obeys rounds t.shared [] #[]
    (by rw [stays.length]; exact enough)).of_stays stays
  have noting : p.dividing.traverse rounds .maximumSplit ⟨s, (w, [])⟩ = _ :=
    Protocol.traverse_maximumSplit asking rounds
  have plain := Protocol.traverse_noting (flip List.cons) p rounds s w []
  rw [← Protocol.dividing, noting] at plain
  rw [Protocol.divided, noting]
  rw [List.length_nil] at settles
  generalize p.dividing.splitGuarded (v.sized t.own) rounds
    (⟨t.own, (t.shared, [])⟩, ⟨#[], 0⟩) = o at settles plain ⊢
  cases settles with
  | complete u same => exact .inl ⟨_, _, plain.symm, same⟩
  | refused stall u x split obeys unsized many => exact .inr ⟨_, split, obeys, unsized, many⟩

/-- Where only sized sources obey, nothing stops a guarded traversal. -/
theorem traverse_sized (contract : Contract p v) (sized : ∀ t, v.obeys t → v.sized t = true)
    (obeys : v.obeys s) (rounds : Nat) (w : ω) (enough : (v.remaining s).length < rounds)
    (strategy : Strategy) :
    ∃ elements u, p.traverse rounds strategy ⟨s, w⟩ = .ok (.complete elements) u ∧
      Same (v.ordered s) elements (v.remaining s) := by
  obtain ⟨elements, u, collected, same⟩ := contract.collect obeys rounds strategy w enough
  cases strategy with
  | bulkDrain | stepAdvance => exact ⟨elements, u, by simp only [Protocol.traverse, collected], same⟩
  | maximumSplit =>
    rcases contract.traverse_settles obeys rounds w enough with completed |
      ⟨last, _, known, unsized, _⟩
    · exact completed
    · rw [sized last known] at unsized
      cases unsized

end Contract

/-- Numbers that are counted when their size is asked for, and not again before some of them are
gone. -/
structure Recounting where
  left : List Nat
  count : Option Nat

namespace Recounting

variable {s : Recounting}

def asked (s : Recounting) : Recounting := { s with count := some (s.count.getD s.left.length) }

def flags : Characteristics := .ofFlags [.ordered, .sized]

def drain : List Nat → Site Recounting Unit → Turn (Site Recounting Unit) Nat Unit
  | [], s => .returned () s
  | a :: rest, s => .offer s a fun
    | .ok _ t => drain rest ⟨⟨rest, none⟩, t.shared⟩
    | .error e t => .threw e ⟨⟨rest, none⟩, t.shared⟩

def protocol : Protocol Recounting Unit Nat where
  tryAdvance := fun _ s =>
    match s.own.left with
    | [] => .returned false s
    | a :: rest => .offer s a fun
      | .ok _ t => .returned true ⟨⟨rest, none⟩, t.shared⟩
      | .error e t => .threw e ⟨⟨rest, none⟩, t.shared⟩
  forEachRemaining := fun _ s => drain s.own.left s
  trySplit := fun s =>
    let half := s.own.left.length / 2
    if half = 0 then .ok none s
    else .ok (some ⟨s.own.left.take half, none⟩) ⟨⟨s.own.left.drop half, none⟩, s.shared⟩
  estimateSize := fun s => .ok (.int (s.own.count.getD s.own.left.length)) ⟨s.own.asked, s.shared⟩
  exactSizeIfKnown := fun s =>
    .ok (.int (s.own.count.getD s.own.left.length)) ⟨s.own.asked, s.shared⟩
  characteristics := fun s => .ok flags.toValue s
  hasCharacteristics := fun wanted s => .ok (flags.hasAll wanted) s
  comparator := Source.noComparator "RecountingSource"

def view : View Recounting Nat where
  obeys s := ∀ n ∈ s.count, n = s.left.length
  remaining s := s.left
  flags _ := flags

theorem count_eq (obeys : view.obeys s) : s.count.getD s.left.length = s.left.length := by
  obtain ⟨left, count⟩ := s
  cases count with
  | none => rfl
  | some n => exact obeys n rfl

theorem obeys_uncounted (left : List Nat) : view.obeys ⟨left, none⟩ := by
  rintro n ⟨⟩

theorem stays_asked (obeys : view.obeys s) : view.Stays s s.asked := by
  refine ⟨⟨?_, rfl⟩, .of_eq _ rfl⟩
  rintro n ⟨⟩
  exact count_eq obeys

theorem stepAdvance_eq {rounds : Nat} {w : Unit} {seen : Array Nat}
    {t : Site Recounting Unit × Array Nat}
    (looped : protocol.stepAdvance .collecting rounds (⟨s, w⟩, seen) = .ok () t) :
    t.2.toList = seen.toList ++ s.left := by
  obtain ⟨left, count⟩ := s
  induction left generalizing count rounds seen with
  | nil =>
    cases rounds <;> cases looped
    exact (List.append_nil _).symm
  | cons a rest ih =>
    cases rounds with
    | zero => cases looped
    | succ rounds =>
      refine (ih none looped).trans ?_
      simp only [Array.toList_push, List.append_assoc, List.cons_append, List.nil_append]

theorem play_drain (left : List Nat) (s : Site Recounting Unit) (seen : Array Nat) :
    ∃ u, (drain left s).play Visitor.collecting.visit seen = .ok () u ∧
      u.2.toList = seen.toList ++ left := by
  induction left generalizing s seen with
  | nil => exact ⟨_, rfl, (List.append_nil _).symm⟩
  | cons a rest ih =>
    obtain ⟨u, played, visited⟩ := ih ⟨⟨rest, none⟩, s.shared⟩ (seen.push a)
    refine ⟨u, played, visited.trans ?_⟩
    simp only [Array.toList_push, List.append_assoc, List.cons_append, List.nil_append]

theorem contract : Contract protocol view where
  hasCharacteristics {s} obeys wanted w := ⟨⟨s, w⟩, rfl, .refl obeys⟩
  estimateSize {s} obeys w := by
    refine ⟨_, ⟨s.asked, w⟩, rfl, stays_asked obeys, fun _ => ?_⟩
    rw [count_eq obeys]
    simp [Number.same, view]
  tryAdvance_nil {s} obeys nil w seen := by
    obtain ⟨left, count⟩ := s
    cases (show left = [] from nil)
    exact ⟨_, rfl⟩
  tryAdvance_cons {s} obeys some w seen := by
    obtain ⟨left, count⟩ := s
    cases left with
    | nil => exact absurd rfl some
    | cons a rest => exact ⟨a, ⟨⟨rest, none⟩, w⟩, rfl, ⟨obeys_uncounted rest, rfl⟩, .of_eq _ rfl⟩
  forEachRemaining {s} obeys w seen rounds t looped := by
    obtain ⟨u, played, visited⟩ := play_drain s.left ⟨s, w⟩ seen
    exact ⟨u, played, .of_eq _ (visited.trans (stepAdvance_eq looped).symm)⟩
  trySplit {s} obeys w := by
    by_cases few : s.left.length / 2 = 0
    · exact .inl ⟨⟨s, w⟩, if_pos few, .refl obeys⟩
    · refine .inr ⟨_, _, if_neg few, ⟨obeys_uncounted _, rfl⟩, obeys_uncounted _, id, ?_, ?_, ?_⟩
      · refine List.ne_nil_of_length_pos ?_
        simp only [view, List.length_take]
        omega
      · refine List.ne_nil_of_length_pos ?_
        simp only [view, List.length_drop]
        omega
      · exact .of_eq _ (List.take_append_drop _ _)

end Recounting

namespace Contract

end Contract
end SplitTraversal
