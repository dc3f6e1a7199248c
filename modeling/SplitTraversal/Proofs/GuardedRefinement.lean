import SplitTraversal.Proofs.Cuts
import SplitTraversal.Source.Defective

/-! The guarded traversal against the plain one. Both make the same cuts and visit the same elements
until the first flagged cut, at which the guarded one stops. -/

namespace SplitTraversal
namespace Protocol

variable {σ ω α : Type}

theorem stall?_number (sized : Bool) (before after : Number) (splits : Nat) :
    stall? sized (.number before) (.number after) splits =
      .ok (if (⟨sized, .number before, .number after, splits⟩ : Cut).flagged = true then
        some (⟨sized, .number before, .number after, splits⟩ : Cut).stall else none) := by
  cases sized with
  | true =>
    simp only [stall?, Cut.flagged, Cut.stall, Value.isAtMost, Value.order?_number, if_true]
    rfl
  | false => simp [stall?, Cut.flagged, Cut.stall]

/-- How the guarded run and the plain run of one source ended. Up to the end, or up to the stall,
they made the same cuts, of which none but the one stalled at is flagged. -/
inductive Abreast : Outcome Halt (Site σ ω × Tally α) (Option Stall) →
    Outcome Halt (Site (σ × Bool) (ω × List Cut) × Array α) Unit → Prop
  | returned (s : Site σ ω) (sized : Bool) (seen : Array α) {log : List Cut}
      (calm : ∀ c ∈ log, c.flagged = false) :
      Abreast (.ok none (s, ⟨seen, log.length⟩)) (.ok () (⟨(s.own, sized), (s.shared, log)⟩, seen))
  | halted (h : Halt) (s : Site σ ω) (sized : Bool) (seen : Array α) {log : List Cut}
      (calm : ∀ c ∈ log, c.flagged = false) :
      Abreast (.error h (s, ⟨seen, log.length⟩))
        (.error h (⟨(s.own, sized), (s.shared, log)⟩, seen))
  | stalled (u : Site σ ω × Tally α) {log : List Cut} (calm : ∀ c ∈ log, c.flagged = false)
      {c : Cut} (flagged : c.flagged = true) (next : c.splits = log.length + 1)
      {plain : Outcome Halt (Site (σ × Bool) (ω × List Cut) × Array α) Unit}
      (made : log ++ [c] <+: (Outcome.state plain).1.shared.2) :
      Abreast (.ok (some c.stall) u) plain

variable {p : Protocol σ ω α} {s : σ}

theorem maximumSplit_cuts (candid : p.CandidTree s) (rounds : Nat)
    (sized : Bool) (w : ω) (log : List Cut) (seen : Array α) :
    log <+: (Outcome.state (p.audited.maximumSplit .collecting rounds
      (⟨(s, sized), (w, log)⟩, seen))).1.shared.2 := by
  obtain ⟨more, grown, -⟩ := maximumSplit_noted (fun _ _ => True) (fun _ => True)
    (fun _ _ _ => trivial) (fun _ _ => trivial) (fun _ _ _ _ _ => trivial) candid rounds
    (show (fun (_ : σ) (_ : Bool) => True) s sized from trivial) w log seen
  exact ⟨more, grown.symm⟩

theorem rest_cuts (candid : p.CandidTree s) (rounds : Nat) (sized : Bool) {made : List Cut}
    {plain : Outcome Halt (Site (σ × Bool) (ω × List Cut) × Array α) Unit}
    (piece : made <+: (Outcome.state plain).1.shared.2) :
    made <+: (Outcome.state (p.audited.onward .collecting rounds (s, sized) plain)).1.shared.2 := by
  cases plain with
  | error h u => exact piece
  | ok a u =>
    exact piece.trans (maximumSplit_cuts candid rounds sized u.1.shared.1 u.1.shared.2 u.2)

theorem splitGuarded_abreast (candid : p.CandidTree s) (rounds : Nat)
    (sized : Bool) (w : ω) (log : List Cut) (calm : ∀ c ∈ log, c.flagged = false)
    (seen : Array α) :
    Abreast (p.splitGuarded sized rounds (⟨s, w⟩, ⟨seen, log.length⟩))
      (p.audited.maximumSplit .collecting rounds (⟨(s, sized), (w, log)⟩, seen)) := by
  induction rounds generalizing s sized w log seen with
  | zero => exact .halted .outOfRounds ⟨s, w⟩ sized seen calm
  | succ rounds ih =>
    obtain ⟨size, asked⟩ := candid.root.estimateSize w
    have split := trySplit_audited candid sized w log
    cases cut : p.trySplit ⟨s, w⟩ with
    | error e t =>
      rw [cut] at split
      rw [maximumSplit_error split]
      simp only [splitGuarded, asked, cut]
      exact .halted (.threw e) t sized seen calm
    | ok found t =>
      cases found with
      | none =>
        rw [cut] at split
        rw [maximumSplit_none split, bulkDrain_audited]
        simp only [splitGuarded, asked, cut, audit, bulkDrain]
        cases play Visitor.collecting p.forEachRemaining t seen with
        | error e u => exact .halted (.threw e) u.1 sized u.2 calm
        | ok a u => exact .returned u.1 sized u.2 calm
      | some piece =>
        rw [cut] at split
        obtain ⟨before, after, pieceSized, askedBefore, askedAfter, askedPiece, split⟩ := split
        rw [maximumSplit_some split]
        simp only [splitGuarded, askedBefore, cut, askedAfter, stall?_number]
        generalize made : (⟨sized, .number before, .number after, log.length + 1⟩ : Cut) = c
        have next : c.splits = log.length + 1 := by rw [← made]
        by_cases flagged : c.flagged = true
        -- The guarded run stops here; the plain run goes on, but keeps this cut in its log.
        · rw [if_pos flagged]
          have later := maximumSplit_cuts (candid.piece cut) rounds pieceSized t.shared
            (log ++ [c]) seen
          exact .stalled _ calm flagged next (rest_cuts (candid.rest cut) rounds sized later)
        · rw [if_neg flagged]
          have calm' : ∀ d ∈ log ++ [c], d.flagged = false :=
            List.forall_mem_append.mpr
              ⟨calm, List.forall_mem_singleton.mpr (eq_false_of_ne_true flagged)⟩
          have first := ih (candid.piece cut) pieceSized t.shared (log ++ [c]) calm' seen
          rw [List.length_append, List.length_singleton] at first
          simp only [askedPiece]
          generalize p.splitGuarded pieceSized rounds (⟨piece, t.shared⟩, ⟨seen, log.length + 1⟩) =
            guarded at first ⊢
          generalize p.audited.maximumSplit .collecting rounds
            (⟨(piece, pieceSized), (t.shared, log ++ [c])⟩, seen) = plain at first ⊢
          cases first with
          | returned u _ seen calm => exact ih (candid.rest cut) sized u.shared _ calm seen
          | halted h u _ seen calm => exact .halted h ⟨t.own, u.shared⟩ sized seen calm
          | stalled u calm flagged next made =>
            exact .stalled _ calm flagged next (rest_cuts (candid.rest cut) rounds sized made)

/-- The cut is the first flagged one, and its number is its place. -/
def FirstFlagged (cuts : List Cut) (c : Cut) : Prop :=
  ∃ before later, cuts = before ++ c :: later ∧ (∀ d ∈ before, d.flagged = false) ∧
    c.flagged = true ∧ c.splits = before.length + 1

def completing {S : Type} : Outcome Halt S (List α) → Outcome Halt S (Traversal α)
  | .ok elements u => .ok (.complete elements) u
  | .error h u => .error h u

theorem traverse_cases (candid : p.CandidTree s) (rounds : Nat)
    (strategy : Strategy) (w : ω) :
    p.traverse rounds strategy ⟨s, w⟩ = completing (p.collect rounds strategy ⟨s, w⟩) ∨
      strategy = .maximumSplit ∧ ∃ c u,
        p.traverse rounds strategy ⟨s, w⟩ = .ok (.stalled c.stall) u ∧
          FirstFlagged (p.cuts rounds strategy ⟨s, w⟩) c := by
  cases strategy with
  | bulkDrain | stepAdvance =>
    left
    simp only [traverse]
    cases p.collect rounds _ ⟨s, w⟩ <;> rfl
  | maximumSplit =>
    obtain ⟨sized, asked⟩ := candid.root.hasCharacteristics w
    have abreast := splitGuarded_abreast candid rounds sized w []
      (fun c none => (List.not_mem_nil none).elim) (#[] : Array α)
    have erased := maximumSplit_audited candid rounds sized w [] #[]
    rw [cuts_maximumSplit asked]
    simp only [traverse, collect, decompose, asked]
    simp only [Visitor.collecting, Visitor.ofFunction, Callee.require, List.length_nil]
      at abreast erased ⊢
    rw [← erased]
    generalize p.audited.maximumSplit _ rounds (⟨(s, sized), (w, [])⟩, #[]) = plain at abreast ⊢
    generalize p.splitGuarded sized rounds (⟨s, w⟩, ⟨#[], 0⟩) = guarded at abreast ⊢
    cases abreast with
    | returned u _ seen _ => exact .inl rfl
    | halted h u _ seen _ => exact .inl rfl
    | @stalled u log calm c flagged next _ made =>
      obtain ⟨later, made⟩ := made
      rw [List.append_assoc] at made
      refine .inr ⟨trivial, c, u.1, rfl, log, later, ?_, calm, flagged, next⟩
      cases plain <;> exact made.symm

/-- Whatever the guarded traversal ends with, short of a stall, the plain traversal ends with too,
and a stall is at the first flagged cut. -/
theorem traverse_refines (candid : p.CandidTree s) (rounds : Nat)
    (strategy : Strategy) (w : ω) :
    (∀ elements u, p.traverse rounds strategy ⟨s, w⟩ = .ok (.complete elements) u →
      p.collect rounds strategy ⟨s, w⟩ = .ok elements u) ∧
    (∀ h u, p.traverse rounds strategy ⟨s, w⟩ = .error h u →
      p.collect rounds strategy ⟨s, w⟩ = .error h u) ∧
    (∀ elements u, p.collect rounds strategy ⟨s, w⟩ = .ok elements u →
      (∀ c ∈ p.cuts rounds strategy ⟨s, w⟩, c.flagged = false) →
      p.traverse rounds strategy ⟨s, w⟩ = .ok (.complete elements) u) ∧
    (∀ stall u, p.traverse rounds strategy ⟨s, w⟩ = .ok (.stalled stall) u →
      strategy = .maximumSplit ∧
        ∃ c, FirstFlagged (p.cuts rounds strategy ⟨s, w⟩) c ∧ stall = c.stall) := by
  rcases traverse_cases candid rounds strategy w with same |
    ⟨split, c, t, stopped, before, later, made, calm, flagged, next⟩
  · rw [same]
    cases p.collect rounds strategy ⟨s, w⟩ with
    | ok els t =>
      refine ⟨?_, ?_, ?_, ?_⟩
      · rintro _ _ ⟨⟩; rfl
      · rintro _ _ ⟨⟩
      · rintro _ _ ⟨⟩ -; rfl
      · rintro _ _ ⟨⟩
    | error h t =>
      refine ⟨?_, ?_, ?_, ?_⟩
      · rintro _ _ ⟨⟩
      · rintro _ _ ⟨⟩; rfl
      · rintro _ _ ⟨⟩
      · rintro _ _ ⟨⟩
  · rw [stopped]
    refine ⟨?_, ?_, ?_, ?_⟩
    · rintro _ _ ⟨⟩
    · rintro _ _ ⟨⟩
    · intro _ _ _ none
      have clear := none c (made ▸ List.mem_append_right before (List.mem_cons_self ..))
      rw [clear] at flagged
      cases flagged
    · rintro _ _ ⟨⟩
      exact ⟨split, c, ⟨before, later, made, calm, flagged, next⟩, rfl⟩

end Protocol

namespace Flawed

variable {ω α : Type}

/-- None of the known flaws is in what a source says of its size. -/
theorem candid (absent : α) (s : Flawed ω α) : (protocol absent).Candid s := by
  refine ⟨fun w => ⟨s.source.estimate, rfl⟩, fun w => ?_⟩
  obtain ⟨source, flaw⟩ := s
  cases flaw <;> exact ⟨_, Source.hasFlags_eq rfl _⟩

end Flawed

namespace Protocol

/-- Three elements that are never split: every prefix is empty. -/
def unsplit : Flawed Unit Nat := ⟨.ofList [5, 6, 7] 0 .none, .neverShrinking⟩

theorem traverse_refines_neverShrinking :
    (Flawed.protocol 0).CandidTree unsplit ∧
    (Flawed.protocol 0).traverse 9 .maximumSplit ⟨unsplit, ()⟩ =
      .ok (.stalled ⟨.notShrinking, .int 3, .int 3, 1⟩) ⟨unsplit, ()⟩ ∧
    ∃ c, FirstFlagged ((Flawed.protocol 0).cuts 9 .maximumSplit ⟨unsplit, ()⟩) c ∧
      c.stall = ⟨.notShrinking, .int 3, .int 3, 1⟩ := by
  have candid : (Flawed.protocol 0).CandidTree unsplit := fun t _ => Flawed.candid 0 t
  have stopped : (Flawed.protocol 0).traverse 9 .maximumSplit ⟨unsplit, ()⟩ =
      .ok (.stalled ⟨.notShrinking, .int 3, .int 3, 1⟩) ⟨unsplit, ()⟩ := rfl
  obtain ⟨-, c, first, stall⟩ :=
    (traverse_refines candid 9 .maximumSplit ()).2.2.2 _ _ stopped
  exact ⟨candid, stopped, c, first, stall.symm⟩

end Protocol
end SplitTraversal
