import SplitTraversal.Proofs.Cuts

/-! The guarded traversal round by round. A round ends the traversal of its source, or it splits off
a piece, which is traversed before the next round. More rounds than a traversal needs change nothing,
and noting the sources that are split beside the shared state changes nothing else. -/

namespace SplitTraversal

namespace Outcome

variable {S T ρ : Type}

/-- The activity came to an end of its own, and not because its rounds were used up. -/
def Finished (o : Outcome Halt S ρ) : Prop := ∀ s, o ≠ .error .outOfRounds s

theorem finished_ok (a : ρ) (s : S) : Finished (.ok a s) := by
  intro t h
  cases h

theorem finished_threw (e : Thrown) (s : S) : Finished (.error (.threw e) s : Outcome Halt S ρ) := by
  intro t h
  cases h

end Outcome

namespace Protocol

variable {σ ω α : Type}

inductive Divides (p : Protocol σ ω α) : Site σ ω → Value → σ → Value → Site σ ω → Prop
  | intro {s s₁ s₂ t : Site σ ω} {before after : Value} {piece : σ}
      (asked : p.estimateSize s = .ok before s₁) (cut : p.trySplit s₁ = .ok (some piece) s₂)
      (askedAgain : p.estimateSize s₂ = .ok after t) : Divides p s before piece after t

def restGuarded (p : Protocol σ ω α) (sized : Bool) (rounds : Nat) (own : σ) :
    Outcome Halt (Site σ ω × Tally α) (Option Stall) →
      Outcome Halt (Site σ ω × Tally α) (Option Stall)
  | .ok none u => p.splitGuarded sized rounds (⟨own, u.1.shared⟩, u.2)
  | .ok (some stall) u => .ok (some stall) (⟨own, u.1.shared⟩, u.2)
  | .error h u => .error h (⟨own, u.1.shared⟩, u.2)

/-- The splits of a traversal are within the limit, but for one that it stalled at. -/
def WithinLimit : Outcome Halt (Site σ ω × Tally α) (Option Stall) → Prop
  | .ok (some _) u => u.2.splits ≤ unsizedSplitLimit + 1
  | .ok none u => u.2.splits ≤ unsizedSplitLimit
  | .error _ u => u.2.splits ≤ unsizedSplitLimit

theorem splits_le_of_stall?_none {before after : Value} {splits : Nat}
    (calm : stall? false before after splits = .ok none) : splits ≤ unsizedSplitLimit := by
  apply Nat.le_of_not_lt
  intro many
  simp [stall?, many] at calm

theorem splitGuarded_divided {p : Protocol σ ω α} {sized pieceSized : Bool} {s s₁ s₂ u v : Site σ ω}
    {before after : Value} {piece : σ} {t : Tally α} (asked : p.estimateSize s = .ok before s₁)
    (cut : p.trySplit s₁ = .ok (some piece) s₂) (again : p.estimateSize s₂ = .ok after u)
    (calm : stall? sized before after (t.splits + 1) = .ok none)
    (pieceAsked : p.hasCharacteristics (.ofFlag .sized) ⟨piece, u.shared⟩ = .ok pieceSized v)
    (rounds : Nat) :
    p.splitGuarded sized (rounds + 1) (s, t) = p.restGuarded sized rounds u.own
      (p.splitGuarded pieceSized rounds (v, ⟨t.seen, t.splits + 1⟩)) := by
  simp only [splitGuarded, asked, cut, again, calm, pieceAsked]
  cases p.splitGuarded pieceSized rounds (v, ⟨t.seen, t.splits + 1⟩) with
  | error h x => rfl
  | ok stalled x => cases stalled <;> rfl

/-- All that a round can do: end the traversal, with so many splits as there were or one more, or
split off a piece without a stall. -/
theorem splitGuarded_cases (p : Protocol σ ω α) (sized : Bool) (s : Site σ ω) (t : Tally α) :
    (∃ o : Outcome Halt (Site σ ω × Tally α) (Option Stall),
      (∀ rounds, p.splitGuarded sized (rounds + 1) (s, t) = o) ∧ o.Finished ∧
        t.splits ≤ o.state.2.splits ∧
        (sized = false → t.splits ≤ unsizedSplitLimit → WithinLimit o)) ∨
    ∃ before piece after u pieceSized v, p.Divides s before piece after u ∧
      stall? sized before after (t.splits + 1) = .ok none ∧
      p.hasCharacteristics (.ofFlag .sized) ⟨piece, u.shared⟩ = .ok pieceSized v ∧
      ∀ rounds, p.splitGuarded sized (rounds + 1) (s, t) =
        p.restGuarded sized rounds u.own
          (p.splitGuarded pieceSized rounds (v, ⟨t.seen, t.splits + 1⟩)) := by
  cases asked : p.estimateSize s with
  | error e u =>
    left
    refine ⟨.error (.threw e) (u, t), fun rounds => ?_, Outcome.finished_threw _ _, Nat.le_refl _,
      fun _ few => few⟩
    simp only [splitGuarded, asked]
  | ok before s₁ =>
    cases cut : p.trySplit s₁ with
    | error e u =>
      left
      refine ⟨.error (.threw e) (u, t), fun rounds => ?_, Outcome.finished_threw _ _,
        Nat.le_refl _, fun _ few => few⟩
      simp only [splitGuarded, asked, cut]
    | ok found s₂ =>
      cases found with
      | none =>
        left
        cases drained : play Visitor.collecting p.forEachRemaining s₂ t.seen with
        | error e u =>
          refine ⟨.error (.threw e) (u.1, ⟨u.2, t.splits⟩), fun rounds => ?_,
            Outcome.finished_threw _ _, Nat.le_refl _, fun _ few => few⟩
          simp only [splitGuarded, asked, cut, drained]
        | ok a u =>
          refine ⟨.ok none (u.1, ⟨u.2, t.splits⟩), fun rounds => ?_, Outcome.finished_ok _ _,
            Nat.le_refl _, fun _ few => few⟩
          simp only [splitGuarded, asked, cut, drained]
      | some piece =>
        cases again : p.estimateSize s₂ with
        | error e u =>
          left
          refine ⟨.error (.threw e) (u, t), fun rounds => ?_, Outcome.finished_threw _ _,
            Nat.le_refl _, fun _ few => few⟩
          simp only [splitGuarded, asked, cut, again]
        | ok after u =>
          cases judged : stall? sized before after (t.splits + 1) with
          | error e =>
            left
            refine ⟨.error (.threw e) (u, ⟨t.seen, t.splits + 1⟩), fun rounds => ?_,
              Outcome.finished_threw _ _, Nat.le_succ _, fun unsized => ?_⟩
            · simp only [splitGuarded, asked, cut, again, judged]
            · subst unsized
              cases judged
          | ok stalled =>
            cases stalled with
            | some stall =>
              left
              refine ⟨.ok (some stall) (u, ⟨t.seen, t.splits + 1⟩), fun rounds => ?_,
                Outcome.finished_ok _ _, Nat.le_succ _, fun _ few => Nat.succ_le_succ few⟩
              simp only [splitGuarded, asked, cut, again, judged]
            | none =>
              cases pieceAsked : p.hasCharacteristics (.ofFlag .sized) ⟨piece, u.shared⟩ with
              | error e v =>
                left
                refine ⟨.error (.threw e) (⟨u.own, v.shared⟩, ⟨t.seen, t.splits + 1⟩),
                  fun rounds => ?_, Outcome.finished_threw _ _, Nat.le_succ _, fun unsized _ => ?_⟩
                · simp only [splitGuarded, asked, cut, again, judged, pieceAsked]
                · subst unsized
                  exact splits_le_of_stall?_none judged
              | ok pieceSized v =>
                right
                exact ⟨before, piece, after, u, pieceSized, v, .intro asked cut again, judged,
                  pieceAsked, splitGuarded_divided asked cut again judged pieceAsked⟩

section Rounds

variable {p : Protocol σ ω α} {sized : Bool}

/-- The traversal of the rest follows that of the piece only where this came to its end. -/
theorem finished_of_restGuarded {rounds : Nat} {own : σ}
    {o : Outcome Halt (Site σ ω × Tally α) (Option Stall)}
    (finished : Outcome.Finished (p.restGuarded sized rounds own o)) : Outcome.Finished o := by
  rintro u rfl
  exact finished _ rfl

theorem splitGuarded_more {rounds more : Nat} (within : rounds ≤ more) {x : Site σ ω × Tally α}
    (finished : Outcome.Finished (p.splitGuarded sized rounds x)) :
    p.splitGuarded sized more x = p.splitGuarded sized rounds x := by
  induction rounds generalizing more sized x with
  | zero => exact absurd rfl (finished x)
  | succ rounds ih =>
    obtain ⟨more, rfl⟩ : ∃ n, more = n + 1 := ⟨more - 1, by omega⟩
    have within : rounds ≤ more := by omega
    obtain ⟨s, t⟩ := x
    rcases splitGuarded_cases p sized s t with ⟨o, stopped, -⟩ |
      ⟨_, _, _, u, pieceSized, v, -, -, -, divided⟩
    · rw [stopped, stopped]
    · rw [divided] at finished
      rw [divided, divided, ih within (finished_of_restGuarded finished)]
      cases ended : p.splitGuarded pieceSized rounds (v, ⟨t.seen, t.splits + 1⟩) with
      | error h y => rfl
      | ok stalled y =>
        cases stalled with
        | some stall => rfl
        | none =>
          rw [ended] at finished
          exact ih within finished

variable (p sized) in
theorem splits_le_splitGuarded (rounds : Nat) (x : Site σ ω × Tally α) :
    x.2.splits ≤ (Outcome.state (p.splitGuarded sized rounds x)).2.splits := by
  induction rounds generalizing sized x with
  | zero => exact Nat.le_refl _
  | succ rounds ih =>
    obtain ⟨s, t⟩ := x
    rcases splitGuarded_cases p sized s t with ⟨o, stopped, -, grown, -⟩ |
      ⟨_, _, _, u, pieceSized, v, -, -, -, divided⟩
    · rw [stopped]
      exact grown
    · have first := ih pieceSized (v, ⟨t.seen, t.splits + 1⟩)
      rw [divided]
      cases ended : p.splitGuarded pieceSized rounds (v, ⟨t.seen, t.splits + 1⟩) with
      | error h y =>
        rw [ended] at first
        exact Nat.le_of_succ_le first
      | ok stalled y =>
        rw [ended] at first
        cases stalled with
        | some stall => exact Nat.le_of_succ_le first
        | none => exact Nat.le_trans (Nat.le_of_succ_le first) (ih sized (⟨u.own, y.1.shared⟩, y.2))

theorem traverse_maximumSplit {s t : Site σ ω}
    (asked : p.hasCharacteristics (.ofFlag .sized) s = .ok sized t) (rounds : Nat) :
    p.traverse rounds .maximumSplit s =
      match p.splitGuarded sized rounds (t, ⟨#[], 0⟩) with
      | .error h u => .error h u.1
      | .ok (some stall) u => .ok (.stalled stall) u.1
      | .ok none u => .ok (.complete u.2.seen.toList) u.1 := by
  simp only [traverse, asked]
  cases p.splitGuarded sized rounds (t, ⟨#[], 0⟩) with
  | error h u => rfl
  | ok stalled u => cases stalled <;> rfl

end Rounds

section Noting

variable {κ : Type}

def beside : Focus (Site σ (ω × κ)) (Site σ ω) :=
  ⟨fun s => ⟨s.own, s.shared.1⟩, fun t s => ⟨t.own, (t.shared, s.shared.2)⟩⟩

theorem beside_lawful : (beside : Focus (Site σ (ω × κ)) (Site σ ω)).Lawful :=
  ⟨fun _ _ => rfl, fun _ _ _ => rfl⟩

def notedSplit (note : κ → σ → κ) (p : Protocol σ ω α) :
    Action (Site σ (ω × κ)) (Option σ) := fun s =>
  match p.trySplit (beside.get s) with
  | .error e t => .error e (beside.put t s)
  | .ok none t => .ok none (beside.put t s)
  | .ok (some piece) t => .ok (some piece) ⟨t.own, (t.shared, note s.shared.2 s.own)⟩

/-- The same sources, with a note of those that were split beside their shared state. -/
def splitNoting (note : κ → σ → κ) (p : Protocol σ ω α) : Protocol σ (ω × κ) α where
  tryAdvance := fun visitor s => (p.tryAdvance visitor (beside.get s)).within beside s
  forEachRemaining := fun visitor s => (p.forEachRemaining visitor (beside.get s)).within beside s
  trySplit := p.notedSplit note
  estimateSize := beside.run p.estimateSize
  exactSizeIfKnown := beside.run p.exactSizeIfKnown
  characteristics := beside.run p.characteristics
  hasCharacteristics := fun flags => beside.run (p.hasCharacteristics flags)
  comparator := beside.run p.comparator

def counted (p : Protocol σ ω α) : Protocol σ (ω × Nat) α := p.splitNoting fun n _ => n + 1

section Operations

variable {p : Protocol σ ω α} {s : σ} {w : ω} {t : Site σ ω}

theorem run_beside {ρ : Type} {op : Action (Site σ ω) ρ} {a : ρ} (returned : op ⟨s, w⟩ = .ok a t)
    (k : κ) : beside.run op ⟨s, (w, k)⟩ = .ok a ⟨t.own, (t.shared, k)⟩ := by
  simp only [Focus.run, beside, returned]

theorem run_beside_error {ρ : Type} {op : Action (Site σ ω) ρ} {e : Thrown}
    (threw : op ⟨s, w⟩ = .error e t) (k : κ) :
    beside.run op ⟨s, (w, k)⟩ = .error e ⟨t.own, (t.shared, k)⟩ := by
  simp only [Focus.run, beside, threw]

theorem notedSplit_error {e : Thrown} (threw : p.trySplit ⟨s, w⟩ = .error e t) (note : κ → σ → κ)
    (k : κ) : p.notedSplit note ⟨s, (w, k)⟩ = .error e ⟨t.own, (t.shared, k)⟩ := by
  simp only [notedSplit, beside, threw]

theorem notedSplit_none (stayed : p.trySplit ⟨s, w⟩ = .ok none t) (note : κ → σ → κ) (k : κ) :
    p.notedSplit note ⟨s, (w, k)⟩ = .ok none ⟨t.own, (t.shared, k)⟩ := by
  simp only [notedSplit, beside, stayed]

theorem notedSplit_some {piece : σ} (cut : p.trySplit ⟨s, w⟩ = .ok (some piece) t)
    (note : κ → σ → κ) (k : κ) :
    p.notedSplit note ⟨s, (w, k)⟩ = .ok (some piece) ⟨t.own, (t.shared, note k s)⟩ := by
  simp only [notedSplit, beside, cut]

end Operations

def withNote (k : κ) (x : Site σ ω × Tally α) : Site σ (ω × κ) × Tally α :=
  (⟨x.1.own, (x.1.shared, k)⟩, x.2)

/-- A traversal that notes the sources it splits, `splits` of them before it began: the same
traversal, and its tally is their number, unless it threw between a split and the tally. -/
structure NotesAs (note : κ → σ → κ) (k : κ) (splits : Nat)
    (plain : Outcome Halt (Site σ ω × Tally α) (Option Stall)) (noted : List σ)
    (noting : Outcome Halt (Site σ (ω × κ) × Tally α) (Option Stall)) : Prop where
  same : noting = Outcome.mapState (withNote (noted.foldl note k)) plain
  close : splits + noted.length ≤ plain.state.2.splits + 1
  exact : ∀ stalled u, plain = .ok stalled u → splits + noted.length = u.2.splits

variable {note : κ → σ → κ}

theorem notesAs_ok {k : κ} {splits : Nat} (stalled : Option Stall) (u : Site σ ω × Tally α)
    (noted : List σ) (count : splits + noted.length = u.2.splits) :
    NotesAs note k splits (.ok stalled u) noted
      (.ok stalled (withNote (noted.foldl note k) u)) := by
  refine ⟨rfl, by rw [count]; exact Nat.le_succ _, ?_⟩
  rintro _ _ ⟨⟩
  exact count

theorem notesAs_error {k : κ} {splits : Nat} (h : Halt) (u : Site σ ω × Tally α) (noted : List σ)
    (close : splits + noted.length ≤ u.2.splits + 1) :
    NotesAs note k splits (.error h u) noted (.error h (withNote (noted.foldl note k) u)) := by
  refine ⟨rfl, close, ?_⟩
  rintro _ _ ⟨⟩

theorem play_noting (note : κ → σ → κ) (p : Protocol σ ω α) (s : Site σ ω) (k : κ)
    (seen : Array α) :
    play Visitor.collecting (p.splitNoting note).forEachRemaining ⟨s.own, (s.shared, k)⟩ seen =
      Outcome.mapState (fun x => (⟨x.1.own, (x.1.shared, k)⟩, x.2))
        (play Visitor.collecting p.forEachRemaining s seen) :=
  Turn.play_within beside_lawful (p.forEachRemaining .callable s) ⟨s.own, (s.shared, k)⟩ seen

/-- What a piece notes, its parent notes after itself and before the rest. -/
theorem NotesAs.andThen {p : Protocol σ ω α} {sized : Bool} {rounds splits : Nat} {k : κ}
    {parent own : σ} {plain : Outcome Halt (Site σ ω × Tally α) (Option Stall)} {noted : List σ}
    {noting : Outcome Halt (Site σ (ω × κ) × Tally α) (Option Stall)}
    (first : NotesAs note (note k parent) (splits + 1) plain noted noting)
    (rest : ∀ (w : ω) (t : Tally α) (k : κ), ∃ more,
      NotesAs note k t.splits (p.splitGuarded sized rounds (⟨own, w⟩, t)) more
        ((p.splitNoting note).splitGuarded sized rounds (withNote k (⟨own, w⟩, t)))) :
    ∃ noted, NotesAs note k splits (p.restGuarded sized rounds own plain) noted
      ((p.splitNoting note).restGuarded sized rounds own noting) := by
  obtain ⟨rfl, close, exact⟩ := first
  have count : splits + (parent :: noted).length = splits + 1 + noted.length := by
    rw [List.length_cons]
    omega
  rw [← count] at close exact
  cases plain with
  | error h x => exact ⟨parent :: noted, notesAs_error h (⟨own, x.1.shared⟩, x.2) _ close⟩
  | ok stalled x =>
    have whole := exact stalled x rfl
    cases stalled with
    | some stall =>
      exact ⟨parent :: noted, notesAs_ok (some stall) (⟨own, x.1.shared⟩, x.2) _ whole⟩
    | none =>
      obtain ⟨more, later⟩ := rest x.1.shared x.2 ((parent :: noted).foldl note k)
      refine ⟨parent :: noted ++ more, ?_, ?_, ?_⟩
      · rw [List.foldl_append]
        exact later.same
      · rw [List.length_append, ← Nat.add_assoc, whole]
        exact later.close
      · intro stalled y ended
        rw [List.length_append, ← Nat.add_assoc, whole]
        exact later.exact stalled y ended

theorem splitGuarded_noting (note : κ → σ → κ) (p : Protocol σ ω α) (sized : Bool) (rounds : Nat)
    (s : Site σ ω) (t : Tally α) (k : κ) :
    ∃ noted, NotesAs note k t.splits (p.splitGuarded sized rounds (s, t)) noted
      ((p.splitNoting note).splitGuarded sized rounds (withNote k (s, t))) := by
  induction rounds generalizing sized s t k with
  | zero => exact ⟨[], notesAs_error _ (s, t) [] (Nat.le_succ _)⟩
  | succ rounds ih =>
    cases asked : p.estimateSize s with
    | error e u =>
      have asking : (p.splitNoting note).estimateSize _ = _ := run_beside_error asked k
      simp only [splitGuarded, withNote, asked, asking]
      exact ⟨[], notesAs_error _ (u, t) [] (Nat.le_succ _)⟩
    | ok before s₁ =>
      have asking : (p.splitNoting note).estimateSize _ = _ := run_beside asked k
      cases cut : p.trySplit s₁ with
      | error e u =>
        have cutting : (p.splitNoting note).trySplit _ = _ := notedSplit_error cut note k
        simp only [splitGuarded, withNote, asked, asking, cut, cutting]
        exact ⟨[], notesAs_error _ (u, t) [] (Nat.le_succ _)⟩
      | ok found s₂ =>
        cases found with
        | none =>
          have cutting : (p.splitNoting note).trySplit _ = _ := notedSplit_none cut note k
          simp only [splitGuarded, withNote, asked, asking, cut, cutting, play_noting]
          cases play Visitor.collecting p.forEachRemaining s₂ t.seen with
          | error e u => exact ⟨[], notesAs_error _ (u.1, ⟨u.2, t.splits⟩) [] (Nat.le_succ _)⟩
          | ok a u => exact ⟨[], notesAs_ok none (u.1, ⟨u.2, t.splits⟩) [] rfl⟩
        | some piece =>
          have cutting : (p.splitNoting note).trySplit _ = _ := notedSplit_some cut note k
          cases again : p.estimateSize s₂ with
          | error e u =>
            have askingAgain : (p.splitNoting note).estimateSize _ = _ :=
              run_beside_error again (note k s₁.own)
            simp only [splitGuarded, withNote, asked, asking, cut, cutting, again, askingAgain]
            exact ⟨[s₁.own], notesAs_error _ (u, t) [s₁.own] (Nat.le_refl _)⟩
          | ok after u =>
            have askingAgain : (p.splitNoting note).estimateSize _ = _ :=
              run_beside again (note k s₁.own)
            cases judged : stall? sized before after (t.splits + 1) with
            | error e =>
              simp only [splitGuarded, withNote, asked, asking, cut, cutting, again, askingAgain,
                judged]
              exact ⟨[s₁.own], notesAs_error _ (u, ⟨t.seen, t.splits + 1⟩) [s₁.own]
                (Nat.le_succ _)⟩
            | ok stalled =>
              cases stalled with
              | some stall =>
                simp only [splitGuarded, withNote, asked, asking, cut, cutting, again, askingAgain,
                  judged]
                exact ⟨[s₁.own], notesAs_ok (some stall) (u, ⟨t.seen, t.splits + 1⟩) [s₁.own] rfl⟩
              | none =>
                cases pieceAsked : p.hasCharacteristics (.ofFlag .sized) ⟨piece, u.shared⟩ with
                | error e v =>
                  have askingPiece : (p.splitNoting note).hasCharacteristics _ _ = _ :=
                    run_beside_error pieceAsked (note k s₁.own)
                  simp only [splitGuarded, withNote, asked, asking, cut, cutting, again,
                    askingAgain, judged, pieceAsked, askingPiece]
                  exact ⟨[s₁.own], notesAs_error _ (⟨u.own, v.shared⟩, ⟨t.seen, t.splits + 1⟩)
                    [s₁.own] (Nat.le_succ _)⟩
                | ok pieceSized v =>
                  have askingPiece : (p.splitNoting note).hasCharacteristics _ _ = _ :=
                    run_beside pieceAsked (note k s₁.own)
                  obtain ⟨noted, first⟩ := ih pieceSized v ⟨t.seen, t.splits + 1⟩ (note k s₁.own)
                  rw [splitGuarded_divided asked cut again judged pieceAsked, withNote,
                    splitGuarded_divided asking cutting askingAgain judged askingPiece]
                  exact first.andThen fun w t k => ih sized ⟨u.own, w⟩ t k

theorem traverse_noting (note : κ → σ → κ) (p : Protocol σ ω α) (rounds : Nat)
    (s : σ) (w : ω) (k : κ) :
    Outcome.mapState beside.get
        ((p.splitNoting note).traverse rounds .maximumSplit ⟨s, (w, k)⟩) =
      p.traverse rounds .maximumSplit ⟨s, w⟩ := by
  cases asked : p.hasCharacteristics (.ofFlag .sized) ⟨s, w⟩ with
  | error e t =>
    simp only [traverse, splitNoting, beside, Focus.run, asked]
    rfl
  | ok sized t =>
    have askedNoting : (p.splitNoting note).hasCharacteristics (.ofFlag .sized) ⟨s, (w, k)⟩ =
        .ok sized ⟨t.own, (t.shared, k)⟩ := run_beside asked k
    obtain ⟨noted, notes⟩ := splitGuarded_noting note p sized rounds t ⟨#[], 0⟩ k
    have same := notes.same
    simp only [withNote] at same
    rw [traverse_maximumSplit asked, traverse_maximumSplit askedNoting, same]
    cases p.splitGuarded sized rounds (t, ⟨#[], 0⟩) with
    | error h u => rfl
    | ok stalled u => cases stalled <;> rfl

end Noting
end Protocol
end SplitTraversal
