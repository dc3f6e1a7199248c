import SplitTraversal.Proofs.Calls
import SplitTraversal.Traversal.Guarded

/-! The cuts of a traversal: its successful splits, in the order in which they are made. Traversing
the audited form of a source notes each cut beside the shared state and does nothing else, so long
as asking the sources of the split tree for size and flags changes nothing. -/

namespace SplitTraversal

/-- A successful split: whether its parent was sized, the parent's estimates around it, and its
number among the cuts of the traversal. -/
structure Cut where
  sized : Bool
  before : Value
  after : Value
  splits : Nat

namespace Cut

/-- The parent is sized and its estimate did not get smaller, or it is not sized and there were too
many cuts. -/
def flagged (c : Cut) : Bool :=
  if c.sized then
    match c.before.isAtMost c.after with
    | .ok stuck => stuck
    | .error _ => false
  else decide (unsizedSplitLimit < c.splits)

def stall (c : Cut) : Stall :=
  ⟨if c.sized then .notShrinking else .splitLimit, c.before, c.after, c.splits⟩

end Cut

namespace Focus

variable {S T : Type}

structure Lawful (f : Focus S T) : Prop where
  get_put (t : T) (s : S) : f.get (f.put t s) = t
  put_put (t u : T) (s : S) : f.put t (f.put u s) = f.put t s

end Focus

namespace Turn

variable {σ σ' ω ω' α ρ : Type}

theorem play_within {f : Focus (Site σ' ω') (Site σ ω)} (lawful : f.Lawful)
    (t : Turn (Site σ ω) α ρ) (s : Site σ' ω') (seen : Array α) :
    (t.within f s).play Visitor.collecting.visit seen =
      Outcome.mapState (fun x => (f.put x.1 s, x.2)) (t.play Visitor.collecting.visit seen) := by
  induction t generalizing s seen with
  | done outcome => cases outcome <;> rfl
  | offer t a resume ih =>
    have there : Outcome.mapState f.get (.ok () (f.put t s) : Outcome Thrown (Site σ' ω') Unit) =
        .ok () t := by rw [Outcome.mapState_ok, lawful.get_put]
    refine (ih _ (f.put t s) (seen.push a)).trans ?_
    simp only [there, lawful.put_put]
    rfl

end Turn

namespace Protocol

variable {σ ω α : Type}

/-- The sources that splitting makes of a source, at any depth. -/
inductive SplitTree (p : Protocol σ ω α) (root : σ) : σ → Prop
  | root : SplitTree p root root
  | piece {s piece rest : σ} {w w' : ω} (above : SplitTree p root s)
      (cut : p.trySplit ⟨s, w⟩ = .ok (some piece) ⟨rest, w'⟩) : SplitTree p root piece
  | rest {s piece rest : σ} {w w' : ω} (above : SplitTree p root s)
      (cut : p.trySplit ⟨s, w⟩ = .ok (some piece) ⟨rest, w'⟩) : SplitTree p root rest

theorem SplitTree.trans {p : Protocol σ ω α} {r s t : σ} (upper : p.SplitTree r s)
    (lower : p.SplitTree s t) : p.SplitTree r t := by
  induction lower with
  | root => exact upper
  | piece _ cut ih => exact .piece ih cut
  | rest _ cut ih => exact .rest ih cut

/-- Asked for its size, a source answers with a number, and asked whether it is sized, it answers;
neither changes anything. -/
structure Candid (p : Protocol σ ω α) (s : σ) : Prop where
  estimateSize (w : ω) : ∃ n : Number, p.estimateSize ⟨s, w⟩ = .ok (.number n) ⟨s, w⟩
  hasCharacteristics (w : ω) :
    ∃ sized, p.hasCharacteristics (.ofFlag .sized) ⟨s, w⟩ = .ok sized ⟨s, w⟩

/-- So do all sources that splitting makes of a source. -/
def CandidTree (p : Protocol σ ω α) (s : σ) : Prop := ∀ t, p.SplitTree s t → p.Candid t

namespace CandidTree

variable {p : Protocol σ ω α} {s q : σ} {w : ω} {t : Site σ ω}

theorem root (candid : p.CandidTree s) : p.Candid s := candid s .root

theorem piece (candid : p.CandidTree s) (cut : p.trySplit ⟨s, w⟩ = .ok (some q) t) :
    p.CandidTree q :=
  fun u tree => candid u (.trans (.piece .root cut) tree)

theorem rest (candid : p.CandidTree s) (cut : p.trySplit ⟨s, w⟩ = .ok (some q) t) :
    p.CandidTree t.own :=
  fun u tree => candid u (.trans (.rest .root cut) tree)

end CandidTree

def audit : Focus (Site (σ × Bool) (ω × List Cut)) (Site σ ω) :=
  ⟨fun s => ⟨s.own.1, s.shared.1⟩, fun t s => ⟨(t.own, s.own.2), (t.shared, s.shared.2)⟩⟩

theorem audit_lawful : (audit : Focus (Site (σ × Bool) (ω × List Cut)) (Site σ ω)).Lawful :=
  ⟨fun _ _ => rfl, fun _ _ _ => rfl⟩

/-- Split, and note the cut. Whether a piece is sized is asked once, when it is split off. -/
def auditedSplit (p : Protocol σ ω α) :
    Action (Site (σ × Bool) (ω × List Cut)) (Option (σ × Bool)) := fun s =>
  match p.estimateSize (audit.get s) with
  | .error e t => .error e (audit.put t s)
  | .ok before t =>
    match p.trySplit t with
    | .error e t => .error e (audit.put t s)
    | .ok none t => .ok none (audit.put t s)
    | .ok (some piece) t =>
      match p.estimateSize t with
      | .error e t => .error e (audit.put t s)
      | .ok after t =>
        match p.hasCharacteristics (.ofFlag .sized) ⟨piece, t.shared⟩ with
        | .error e u => .error e (audit.put ⟨t.own, u.shared⟩ s)
        | .ok sized u =>
          .ok (some (u.own, sized)) ⟨(t.own, s.own.2),
            (u.shared, s.shared.2 ++ [⟨s.own.2, before, after, s.shared.2.length + 1⟩])⟩

/-- The audited form of a source, with the answer that it gave to whether it is sized. -/
def audited (p : Protocol σ ω α) : Protocol (σ × Bool) (ω × List Cut) α where
  tryAdvance := fun visitor s => (p.tryAdvance visitor (audit.get s)).within audit s
  forEachRemaining := fun visitor s => (p.forEachRemaining visitor (audit.get s)).within audit s
  trySplit := p.auditedSplit
  estimateSize := audit.run p.estimateSize
  exactSizeIfKnown := audit.run p.exactSizeIfKnown
  characteristics := audit.run p.characteristics
  hasCharacteristics := fun flags => audit.run (p.hasCharacteristics flags)
  comparator := audit.run p.comparator

def cuts (p : Protocol σ ω α) (rounds : Nat) (strategy : Strategy) (s : Site σ ω) : List Cut :=
  match p.hasCharacteristics (.ofFlag .sized) s with
  | .ok sized t =>
    (Outcome.state (p.audited.collect rounds strategy
      ⟨(t.own, sized), (t.shared, [])⟩)).shared.2
  | .error _ _ => []

section Audit

variable {p : Protocol σ ω α} {s : σ}

theorem trySplit_audited (candid : p.CandidTree s) (sized : Bool) (w : ω)
    (log : List Cut) :
    match p.trySplit ⟨s, w⟩ with
    | .error e t => p.audited.trySplit ⟨(s, sized), (w, log)⟩ =
        .error e ⟨(t.own, sized), (t.shared, log)⟩
    | .ok none t => p.audited.trySplit ⟨(s, sized), (w, log)⟩ =
        .ok none ⟨(t.own, sized), (t.shared, log)⟩
    | .ok (some piece) t => ∃ (before after : Number) (pieceSized : Bool),
        p.estimateSize ⟨s, w⟩ = .ok (.number before) ⟨s, w⟩ ∧
        p.estimateSize t = .ok (.number after) t ∧
        p.hasCharacteristics (.ofFlag .sized) ⟨piece, t.shared⟩ =
          .ok pieceSized ⟨piece, t.shared⟩ ∧
        p.audited.trySplit ⟨(s, sized), (w, log)⟩ =
          .ok (some (piece, pieceSized)) ⟨(t.own, sized), (t.shared,
            log ++ [⟨sized, .number before, .number after, log.length + 1⟩])⟩ := by
  obtain ⟨before, asked⟩ := candid.root.estimateSize w
  cases cut : p.trySplit ⟨s, w⟩ with
  | error e t => simp only [audited, auditedSplit, audit, asked, cut]
  | ok found t =>
    cases found with
    | none => simp only [audited, auditedSplit, audit, asked, cut]
    | some piece =>
      obtain ⟨after, askedAfter⟩ := (candid.rest cut).root.estimateSize t.shared
      obtain ⟨pieceSized, askedPiece⟩ := (candid.piece cut).root.hasCharacteristics t.shared
      refine ⟨before, after, pieceSized, asked, askedAfter, askedPiece, ?_⟩
      simp only [audited, auditedSplit, audit, asked, cut, askedAfter, askedPiece]

theorem bulkDrain_audited (p : Protocol σ ω α) (s : Site (σ × Bool) (ω × List Cut))
    (seen : Array α) :
    p.audited.bulkDrain .collecting (s, seen) =
      Outcome.mapState (fun t => (audit.put t.1 s, t.2))
        (p.bulkDrain .collecting (audit.get s, seen)) := by
  have turn := Turn.play_within audit_lawful (p.forEachRemaining .callable (audit.get s)) s seen
  rw [bulkDrain_eq, bulkDrain_eq, ← Outcome.halting_mapState]
  exact congrArg Outcome.halting turn

theorem maximumSplit_audited (candid : p.CandidTree s) (rounds : Nat)
    (sized : Bool) (w : ω) (log : List Cut) (seen : Array α) :
    Outcome.mapState (fun t => (audit.get t.1, t.2))
        (p.audited.maximumSplit .collecting rounds (⟨(s, sized), (w, log)⟩, seen)) =
      p.maximumSplit .collecting rounds (⟨s, w⟩, seen) := by
  induction rounds generalizing s sized w log seen with
  | zero => rfl
  | succ rounds ih =>
    have split := trySplit_audited candid sized w log
    cases cut : p.trySplit ⟨s, w⟩ with
    | error e t =>
      rw [cut] at split
      rw [maximumSplit_error split, maximumSplit_error cut]
      rfl
    | ok found t =>
      cases found with
      | none =>
        rw [cut] at split
        rw [maximumSplit_none split, maximumSplit_none cut, bulkDrain_audited]
        simp only [Outcome.mapState_mapState, audit_lawful.get_put]
        exact Outcome.mapState_id _
      | some piece =>
        rw [cut] at split
        obtain ⟨before, after, pieceSized, _, _, _, split⟩ := split
        have first := ih (candid.piece cut) pieceSized t.shared
          (log ++ [⟨sized, .number before, .number after, log.length + 1⟩]) seen
        rw [maximumSplit_some split, maximumSplit_some cut, ← first]
        cases p.audited.maximumSplit .collecting rounds (⟨(piece, pieceSized), _⟩, seen) with
        | error h u => rfl
        | ok a u =>
          exact ih (candid.rest cut) sized u.1.shared.1 u.1.shared.2 u.2

/-- What a traversal adds to the cuts noted before it: good cuts, after those. -/
def Noted (good : Cut → Prop) (log final : List Cut) : Prop :=
  ∃ more, final = log ++ more ∧ ∀ c ∈ more, good c

theorem Noted.nothing (good : Cut → Prop) (log : List Cut) : Noted good log log :=
  ⟨[], (List.append_nil log).symm, fun _ none => (List.not_mem_nil none).elim⟩

theorem Noted.one {good : Cut → Prop} (log : List Cut) {c : Cut} (here : good c) :
    Noted good log (log ++ [c]) := by
  refine ⟨[c], rfl, ?_⟩
  intro d only
  rw [List.mem_singleton.mp only]
  exact here

theorem Noted.trans {good : Cut → Prop} {log middle final : List Cut}
    (first : Noted good log middle) (second : Noted good middle final) : Noted good log final := by
  obtain ⟨more, rfl, goodMore⟩ := first
  obtain ⟨rest, rfl, goodRest⟩ := second
  refine ⟨more ++ rest, List.append_assoc .., ?_⟩
  exact List.forall_mem_append.mpr ⟨goodMore, goodRest⟩

/-- Every cut that a traversal notes has what is true of each cut of a source of some kind, if the
pieces and the rest of such a source are of that kind too. -/
theorem maximumSplit_noted (kind : σ → Bool → Prop) (good : Cut → Prop)
    (piece : ∀ {t sized w piece u pieceSized}, kind t sized →
      p.trySplit ⟨t, w⟩ = .ok (some piece) u →
      p.hasCharacteristics (.ofFlag .sized) ⟨piece, u.shared⟩ =
        .ok pieceSized ⟨piece, u.shared⟩ → kind piece pieceSized)
    (rest : ∀ {t sized w piece u}, kind t sized → p.trySplit ⟨t, w⟩ = .ok (some piece) u →
      kind u.own sized)
    (cut : ∀ {t sized w piece u before after} (splits : Nat), kind t sized →
      p.estimateSize ⟨t, w⟩ = .ok before ⟨t, w⟩ → p.trySplit ⟨t, w⟩ = .ok (some piece) u →
      p.estimateSize u = .ok after u → good ⟨sized, before, after, splits⟩)
    (candid : p.CandidTree s) (rounds : Nat) {sized : Bool}
    (known : kind s sized) (w : ω) (log : List Cut) (seen : Array α) :
    Noted good log (Outcome.state (p.audited.maximumSplit .collecting rounds
      (⟨(s, sized), (w, log)⟩, seen))).1.shared.2 := by
  induction rounds generalizing s sized w log seen with
  | zero => exact .nothing good log
  | succ rounds ih =>
    have split := trySplit_audited candid sized w log
    cases made : p.trySplit ⟨s, w⟩ with
    | error e t =>
      rw [made] at split
      rw [maximumSplit_error split]
      exact .nothing good log
    | ok found t =>
      cases found with
      | none =>
        rw [made] at split
        rw [maximumSplit_none split, bulkDrain_audited, Outcome.state_mapState]
        exact .nothing good log
      | some found =>
        rw [made] at split
        obtain ⟨before, after, foundSized, asked, askedAfter, askedPiece, split⟩ := split
        have here := Noted.one log (cut (log.length + 1) known asked made askedAfter)
        have first := here.trans
          (ih (candid.piece made) (piece known made askedPiece) t.shared _ seen)
        rw [maximumSplit_some split]
        cases result : p.audited.maximumSplit .collecting rounds
          (⟨(found, foundSized), _⟩, seen) with
        | error h u =>
          rw [result] at first
          exact first
        | ok a u =>
          rw [result] at first
          exact first.trans (ih (candid.rest made) (rest known made) u.1.shared.1 u.1.shared.2 u.2)

theorem cuts_maximumSplit {sized : Bool} {w : ω}
    (asked : p.hasCharacteristics (.ofFlag .sized) ⟨s, w⟩ = .ok sized ⟨s, w⟩) (rounds : Nat) :
    p.cuts rounds .maximumSplit ⟨s, w⟩ = (Outcome.state (p.audited.maximumSplit .collecting rounds
      (⟨(s, sized), (w, [])⟩, #[]))).1.shared.2 := by
  simp only [cuts, asked, collect, decompose, Visitor.collecting, Visitor.ofFunction,
    Callee.require]
  cases p.audited.maximumSplit _ rounds (⟨(s, sized), (w, [])⟩, #[]) <;> rfl

end Audit

end Protocol
end SplitTraversal
