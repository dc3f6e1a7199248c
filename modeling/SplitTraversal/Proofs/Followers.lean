import Mathlib.Data.List.Forall2
import SplitTraversal.Proofs.GuardedRefinement
import SplitTraversal.Proofs.GuardedRounds
import SplitTraversal.Traversal.Partition

/-! Sources that follow others. Where each operation of a source does what that of another source
does, up to a relation between their states, so does every activity that is made up of these
operations: each strategy, the guarded traversal, and cutting into leaves. -/

namespace SplitTraversal

variable {σ σ' ω ω' τ τ' α ρ ρ' ε : Type}

/-- How the states of two runs belong together: the sources of the one and the other, and what is
around them, which is what they share and what their visitors remember. As long as everything has
returned, more may be known of the latter. -/
structure Pairing (σ' ω' τ' σ ω τ : Type) where
  own : σ' → σ → Prop
  around : (returned : Bool) → ω' × τ' → ω × τ → Prop
  thrown {x' : ω' × τ'} {x : ω × τ} (known : around true x' x) : around false x' x

/-- What is done while the visitor of a run is not called. -/
def quietly (act : EStateM ε (Site σ ω) ρ) : EStateM ε (Site σ ω × τ) ρ := fun x =>
  Outcome.mapState (·, x.2) (act x.1)

def Protocol.playing (visit : α → Action (ω × τ) Unit)
    (turn : Callee → Site σ ω → Turn (Site σ ω) α ρ) : Action (Site σ ω × τ) ρ := fun x =>
  play (.ofFunction visit) turn x.1 x.2

namespace Pairing

/-- Both end in the same way, with answers and states that belong together. -/
inductive Ends (r : Pairing σ' ω' τ' σ ω τ) (answer : ρ' → ρ → Prop) :
    Outcome ε (Site σ' ω' × τ') ρ' → Outcome ε (Site σ ω × τ) ρ → Prop
  | ok {a' : ρ'} {a : ρ} {x' : Site σ' ω' × τ'} {x : Site σ ω × τ} (same : answer a' a)
      (own : r.own x'.1.own x.1.own)
      (around : r.around true (x'.1.shared, x'.2) (x.1.shared, x.2)) :
      Ends r answer (.ok a' x') (.ok a x)
  | error (e : ε) {x' : Site σ' ω' × τ'} {x : Site σ ω × τ} (own : r.own x'.1.own x.1.own)
      (around : r.around false (x'.1.shared, x'.2) (x.1.shared, x.2)) :
      Ends r answer (.error e x') (.error e x)

/-- From states that belong together, both end so. -/
def Tracks (r : Pairing σ' ω' τ' σ ω τ) (answer : ρ' → ρ → Prop)
    (act' : EStateM ε (Site σ' ω' × τ') ρ') (act : EStateM ε (Site σ ω × τ) ρ) : Prop :=
  ∀ x' x, r.own x'.1.own x.1.own → r.around true (x'.1.shared, x'.2) (x.1.shared, x.2) →
    r.Ends answer (act' x') (act x)

theorem Tracks.imp {r : Pairing σ' ω' τ' σ ω τ} {answer answer₂ : ρ' → ρ → Prop}
    {act' : EStateM ε (Site σ' ω' × τ') ρ'} {act : EStateM ε (Site σ ω × τ) ρ}
    (tracks : r.Tracks answer act' act) (weaker : ∀ a' a, answer a' a → answer₂ a' a) :
    r.Tracks answer₂ act' act := by
  intro x' x own around
  have ends := tracks x' x own around
  generalize act' x' = o', act x = o at ends ⊢
  cases ends with
  | ok same own around => exact .ok (weaker _ _ same) own around
  | error e own around => exact .error e own around

/-- How two actions can have ended that visited nothing. -/
theorem Ends.quiet_cases {r : Pairing σ' ω' τ' σ ω τ} {answer : ρ' → ρ → Prop}
    {o' : Outcome ε (Site σ' ω') ρ'} {o : Outcome ε (Site σ ω) ρ} {m' : τ'} {m : τ}
    (ends : r.Ends answer (Outcome.mapState (·, m') o') (Outcome.mapState (·, m) o)) :
    (∃ a' a t' t, o' = .ok a' t' ∧ o = .ok a t ∧ answer a' a ∧ r.own t'.own t.own ∧
      r.around true (t'.shared, m') (t.shared, m)) ∨
    ∃ e t' t, o' = .error e t' ∧ o = .error e t ∧ r.own t'.own t.own ∧
      r.around false (t'.shared, m') (t.shared, m) := by
  cases o' with
  | ok a' t' =>
    cases o with
    | ok a t =>
      cases ends with
      | ok same own around => exact .inl ⟨a', a, t', t, rfl, rfl, same, own, around⟩
    | error e t => cases ends
  | error e' t' =>
    cases o with
    | ok a t => cases ends
    | error e t =>
      cases ends with
      | error _ own around => exact .inr ⟨_, t', t, rfl, rfl, own, around⟩

end Pairing

/-- The operations that runs are made of go along with those of the other source. -/
structure Protocol.Follows (q : Protocol σ' ω' α) (p : Protocol σ ω α)
    (visit' : α → Action (ω' × τ') Unit) (visit : α → Action (ω × τ) Unit)
    (r : Pairing σ' ω' τ' σ ω τ) : Prop where
  forEachRemaining : r.Tracks Eq (playing visit' q.forEachRemaining)
    (playing visit p.forEachRemaining)
  trySplit : r.Tracks (Option.Rel r.own) (quietly q.trySplit) (quietly p.trySplit)
  estimateSize : r.Tracks Eq (quietly q.estimateSize) (quietly p.estimateSize)

/-- Only splits need a guard. -/
theorem Protocol.traverse_eq_completing {p : Protocol σ ω α} {rounds : Nat} {strategy : Strategy}
    (whole : strategy ≠ .maximumSplit) (s : Site σ ω) :
    p.traverse rounds strategy s = completing (p.collect rounds strategy s) := by
  cases strategy with
  | maximumSplit => exact absurd rfl whole
  | bulkDrain | stepAdvance =>
    simp only [traverse]
    cases p.collect rounds _ s <;> rfl

namespace Pairing

variable {q : Protocol σ' ω' α} {p : Protocol σ ω α} {visit' : α → Action (ω' × τ') Unit}
  {visit : α → Action (ω × τ) Unit} {r : Pairing σ' ω' τ' σ ω τ}

theorem stepAdvance (advances : r.Tracks Eq (Protocol.playing visit' q.tryAdvance)
      (Protocol.playing visit p.tryAdvance)) (rounds : Nat) :
    r.Tracks Eq (q.stepAdvance (.ofFunction visit') rounds)
      (p.stepAdvance (.ofFunction visit) rounds) := by
  induction rounds with
  | zero =>
    intro x' x own around
    exact .error _ own (r.thrown around)
  | succ rounds ih =>
    intro x' x own around
    have step := advances x' x own around
    simp only [Protocol.playing] at step
    simp only [Protocol.stepAdvance]
    generalize Protocol.play _ q.tryAdvance _ _ = o', Protocol.play _ p.tryAdvance _ _ = o
      at step ⊢
    cases step with
    | error e own around => exact .error _ own around
    | @ok more _ x' x same own around =>
      subst same
      cases more with
      | true => exact ih _ _ own around
      | false => exact .ok rfl own around

theorem bulkDrain (follows : q.Follows p visit' visit r) :
    r.Tracks Eq (q.bulkDrain (.ofFunction visit')) (p.bulkDrain (.ofFunction visit)) := by
  intro x' x own around
  have drained := follows.forEachRemaining x' x own around
  simp only [Protocol.playing] at drained
  rw [Protocol.bulkDrain_eq, Protocol.bulkDrain_eq]
  generalize Protocol.play _ q.forEachRemaining _ _ = o',
    Protocol.play _ p.forEachRemaining _ _ = o at drained ⊢
  cases drained with
  | ok _ own around => exact .ok rfl own around
  | error e own around => exact .error _ own around

theorem maximumSplit (follows : q.Follows p visit' visit r) (rounds : Nat) :
    r.Tracks Eq (q.maximumSplit (.ofFunction visit') rounds)
      (p.maximumSplit (.ofFunction visit) rounds) := by
  induction rounds with
  | zero =>
    intro x' x own around
    exact .error _ own (r.thrown around)
  | succ rounds ih =>
    rintro ⟨s', m'⟩ ⟨s, m⟩ own around
    rcases (follows.trySplit (s', m') (s, m) own around).quiet_cases with
      ⟨found', found, t', t, cut', cut, same, own, around⟩ | ⟨e, t', t, cut', cut, own, around⟩
    · cases same with
      | none =>
        rw [Protocol.maximumSplit_none cut', Protocol.maximumSplit_none cut]
        exact bulkDrain follows _ _ own around
      | @some piece' piece pieces =>
        rw [Protocol.maximumSplit_some cut', Protocol.maximumSplit_some cut]
        have first := ih (⟨piece', t'.shared⟩, m') (⟨piece, t.shared⟩, m) pieces around
        generalize q.maximumSplit _ rounds _ = o', p.maximumSplit _ rounds _ = o at first ⊢
        cases first with
        | ok _ _ around => exact ih _ _ own around
        | error h _ around => exact .error h own around
    · rw [Protocol.maximumSplit_error cut', Protocol.maximumSplit_error cut]
      exact .error _ own around

theorem decompose (follows : q.Follows p visit' visit r) (rounds : Nat) (strategy : Strategy)
    (advances : strategy = .stepAdvance → r.Tracks Eq (Protocol.playing visit' q.tryAdvance)
      (Protocol.playing visit p.tryAdvance)) :
    r.Tracks Eq (q.decompose rounds strategy (.ofFunction visit'))
      (p.decompose rounds strategy (.ofFunction visit)) := by
  cases strategy with
  | bulkDrain => exact bulkDrain follows
  | stepAdvance => exact stepAdvance (advances rfl) rounds
  | maximumSplit => exact maximumSplit follows rounds

theorem cutOff (follows : q.Follows p visit' visit r) (maxLeafSize levels : Nat)
    {leaves' : List σ'} {leaves : List σ} (cut : List.Forall₂ r.own leaves' leaves) :
    r.Tracks (List.Forall₂ r.own) (quietly (Partitioner.cutOff q maxLeafSize levels leaves'))
      (quietly (Partitioner.cutOff p maxLeafSize levels leaves)) := by
  induction levels generalizing leaves' leaves with
  | zero =>
    intro x' x own around
    exact .ok cut own around
  | succ levels ih =>
    rintro ⟨s', m'⟩ ⟨s, m⟩ own around
    simp only [quietly, Partitioner.cutOff]
    rcases (follows.estimateSize (s', m') (s, m) own around).quiet_cases with
      ⟨size, _, t', t, asked', asked, rfl, own, around⟩ | ⟨e, t', t, asked', asked, own, around⟩
    swap
    · simp only [asked', asked]
      exact .error e own around
    simp only [asked', asked]
    cases (Value.int maxLeafSize).isLess size with
    | error e => exact .error e own (r.thrown around)
    | ok large =>
      cases large with
      | false => exact .ok cut own around
      | true =>
        rcases (follows.trySplit (t', m') (t, m) own around).quiet_cases with
          ⟨found', found, u', u, split', split, same, own, around⟩ |
          ⟨e, u', u, split', split, own, around⟩
        swap
        · simp only [split', split]
          exact .error e own around
        cases same with
        | none =>
          simp only [split', split]
          exact .ok cut own around
        | @some piece' piece pieces =>
          rcases (ih cut (⟨piece', u'.shared⟩, m') (⟨piece, u.shared⟩, m) pieces
            around).quiet_cases with ⟨more', more, t', t, first', first, left, last, around⟩ |
            ⟨e, t', t, first', first, -, around⟩
          · simp only [split', split, first', first]
            exact ih (.cons last left) (_, m') (_, m) own around
          · simp only [split', split, first', first]
            exact .error e own around

inductive MatchingLeaves (r : Pairing σ' ω' τ' σ ω τ) :
    List (Partitioner.Leaf σ') → List (Partitioner.Leaf σ) → Prop
  | leaves {pieces' : List σ'} {pieces : List σ} (each : List.Forall₂ r.own pieces' pieces) :
      MatchingLeaves r (Partitioner.leaves pieces') (Partitioner.leaves pieces)

theorem partition (follows : q.Follows p visit' visit r) (settings : Partitioner) :
    r.Tracks r.MatchingLeaves (quietly (settings.partition q))
      (quietly (settings.partition p)) := by
  rintro ⟨s', m'⟩ ⟨s, m⟩ own around
  simp only [quietly, Partitioner.partition]
  rcases (cutOff follows settings.maxLeafSize settings.maxDepth .nil (s', m') (s, m) own
    around).quiet_cases with ⟨leaves', leaves, t', t, cut', cut, same, own, around⟩ |
    ⟨e, t', t, cut', cut, own, around⟩
  · simp only [cut', cut]
    exact .ok (.leaves (List.rel_reverse same)) own around
  · simp only [cut', cut]
    exact .error e own around

section Collecting

variable {r : Pairing σ' ω' (Array α) σ ω (Array α)} {s' : Site σ' ω'} {s : Site σ ω}

def tallying (r : Pairing σ' ω' (Array α) σ ω (Array α)) :
    Pairing σ' ω' (Tally α) σ ω (Tally α) where
  own := r.own
  around returned x' x :=
    r.around returned (x'.1, x'.2.seen) (x.1, x.2.seen) ∧ x'.2.splits = x.2.splits
  thrown known := ⟨r.thrown known.1, known.2⟩

inductive Shows (r : Pairing σ' ω' (Array α) σ ω (Array α)) :
    Outcome Halt (Site σ' ω') (Traversal α) → Outcome Halt (Site σ ω) (Traversal α) → Prop
  | complete {s' : Site σ' ω'} {s : Site σ ω} {seen' seen : Array α} (own : r.own s'.own s.own)
      (around : r.around true (s'.shared, seen') (s.shared, seen)) :
      Shows r (.ok (.complete seen'.toList) s') (.ok (.complete seen.toList) s)
  | stalled (stall : Stall) {s' : Site σ' ω'} {s : Site σ ω} {seen' seen : Array α}
      (own : r.own s'.own s.own) (around : r.around true (s'.shared, seen') (s.shared, seen)) :
      Shows r (.ok (.stalled stall) s') (.ok (.stalled stall) s)
  | halted (h : Halt) {s' : Site σ' ω'} {s : Site σ ω} {seen' seen : Array α}
      (own : r.own s'.own s.own) (around : r.around false (s'.shared, seen') (s.shared, seen)) :
      Shows r (.error h s') (.error h s)

variable (follows : q.Follows p Visitor.collecting.visit Visitor.collecting.visit r)
include follows

theorem collect (rounds : Nat) (strategy : Strategy)
    (advances : strategy = .stepAdvance →
      r.Tracks Eq (Protocol.playing Visitor.collecting.visit q.tryAdvance)
        (Protocol.playing Visitor.collecting.visit p.tryAdvance))
    (own : r.own s'.own s.own) (around : r.around true (s'.shared, #[]) (s.shared, #[])) :
    r.Shows (Protocol.completing (q.collect rounds strategy s'))
      (Protocol.completing (p.collect rounds strategy s)) := by
  have drained : r.Ends Eq (q.decompose rounds strategy .collecting (s', #[]))
      (p.decompose rounds strategy .collecting (s, #[])) :=
    decompose follows rounds strategy advances (s', #[]) (s, #[]) own around
  simp only [Protocol.collect]
  generalize q.decompose rounds strategy _ _ = o', p.decompose rounds strategy _ _ = o at drained ⊢
  cases drained with
  | ok _ own around => exact .complete own around
  | error h own around => exact .halted h own around

variable (sizes : r.Tracks Eq (quietly (q.hasCharacteristics (.ofFlag .sized)))
  (quietly (p.hasCharacteristics (.ofFlag .sized))))
include sizes

theorem splitGuarded (sized : Bool) (rounds : Nat) :
    r.tallying.Tracks Eq (q.splitGuarded sized rounds) (p.splitGuarded sized rounds) := by
  induction rounds generalizing sized with
  | zero =>
    intro x' x own around
    exact .error _ own (r.tallying.thrown around)
  | succ rounds ih =>
    rintro ⟨s', ⟨seen', splits⟩⟩ ⟨s, ⟨seen, _⟩⟩ own ⟨around, rfl⟩
    simp only [Protocol.splitGuarded]
    rcases (follows.estimateSize (s', seen') (s, seen) own around).quiet_cases with
      ⟨before, _, u', u, asked', asked, rfl, own, around⟩ | ⟨e, u', u, asked', asked, own, around⟩
    swap
    · simp only [asked', asked]
      exact .error _ own ⟨around, rfl⟩
    rcases (follows.trySplit (u', seen') (u, seen) own around).quiet_cases with
      ⟨found', found, v', v, cut', cut, same, own, around⟩ | ⟨e, v', v, cut', cut, own, around⟩
    swap
    · simp only [asked', asked, cut', cut]
      exact .error _ own ⟨around, rfl⟩
    cases same with
    | none =>
      have drained : r.Ends Eq (Protocol.play .collecting q.forEachRemaining v' seen')
          (Protocol.play .collecting p.forEachRemaining v seen) :=
        follows.forEachRemaining (v', seen') (v, seen) own around
      simp only [asked', asked, cut', cut]
      generalize Protocol.play _ q.forEachRemaining _ _ = o',
        Protocol.play _ p.forEachRemaining _ _ = o at drained ⊢
      cases drained with
      | ok _ own around => exact .ok rfl own ⟨around, rfl⟩
      | error e own around => exact .error _ own ⟨around, rfl⟩
    | @some piece' piece pieces =>
      rcases (follows.estimateSize (v', seen') (v, seen) own around).quiet_cases with
        ⟨after, _, y', y, again', again, rfl, own, around⟩ |
        ⟨e, y', y, again', again, own, around⟩
      swap
      · simp only [asked', asked, cut', cut, again', again]
        exact .error _ own ⟨around, rfl⟩
      simp only [asked', asked, cut', cut, again', again]
      cases Protocol.stall? sized before after (splits + 1) with
      | error e => exact .error _ own ⟨r.thrown around, rfl⟩
      | ok stalled =>
        cases stalled with
        | some stall => exact .ok rfl own ⟨around, rfl⟩
        | none =>
          rcases (sizes (⟨piece', y'.shared⟩, seen') (⟨piece, y.shared⟩, seen) pieces
            around).quiet_cases with ⟨pieceSized, _, z', z, told', told, rfl, pieces, around⟩ |
            ⟨e, z', z, told', told, -, around⟩
          swap
          · simp only [told', told]
            exact .error _ own ⟨around, rfl⟩
          have first := ih pieceSized (z', ⟨seen', splits + 1⟩) (z, ⟨seen, splits + 1⟩) pieces
            ⟨around, rfl⟩
          simp only [told', told]
          generalize q.splitGuarded pieceSized rounds _ = o',
            p.splitGuarded pieceSized rounds _ = o at first ⊢
          cases first with
          | @ok stalled _ _ _ same _ around =>
            subst same
            cases stalled with
            | some stall => exact .ok rfl own around
            | none => exact ih sized _ _ own around
          | error h _ around => exact .error h own around

theorem traverse (rounds : Nat) (strategy : Strategy)
    (advances : strategy = .stepAdvance →
      r.Tracks Eq (Protocol.playing Visitor.collecting.visit q.tryAdvance)
        (Protocol.playing Visitor.collecting.visit p.tryAdvance))
    (own : r.own s'.own s.own) (around : r.around true (s'.shared, #[]) (s.shared, #[])) :
    r.Shows (q.traverse rounds strategy s') (p.traverse rounds strategy s) := by
  by_cases whole : strategy = .maximumSplit
  swap
  · rw [Protocol.traverse_eq_completing whole, Protocol.traverse_eq_completing whole]
    exact collect follows rounds strategy advances own around
  subst whole
  rcases (sizes (s', #[]) (s, #[]) own around).quiet_cases with
    ⟨sized, _, t', t, told', told, rfl, own, around⟩ | ⟨e, t', t, told', told, own, around⟩
  swap
  · simp only [Protocol.traverse, told', told]
    exact .halted _ own around
  rw [Protocol.traverse_maximumSplit told', Protocol.traverse_maximumSplit told]
  have ended := splitGuarded follows sizes sized rounds (t', ⟨#[], 0⟩) (t, ⟨#[], 0⟩) own
    ⟨around, rfl⟩
  generalize q.splitGuarded sized rounds _ = o', p.splitGuarded sized rounds _ = o at ended ⊢
  cases ended with
  | @ok stalled _ _ _ same own around =>
    subst same
    cases stalled with
    | some stall => exact .stalled stall own around.1
    | none => exact .complete own around.1
  | error h own around => exact .halted h own around.1

end Collecting

/-- Two runs that begin to collect remember the same from then on, and what is around them belongs
together with or without what they collected. -/
structure Collects (r : Pairing σ' ω' (Array α) σ ω (Array α)) (r₀ : Pairing σ' ω' Unit σ ω Unit) :
    Prop where
  own {s' : σ'} {s : σ} : r.own s' s ↔ r₀.own s' s
  start {w' : ω'} {w : ω} : r₀.around true (w', ()) (w, ()) → r.around true (w', #[]) (w, #[])
  same {returned : Bool} {w' : ω'} {w : ω} {seen' seen : Array α} :
    r.around returned (w', seen') (w, seen) → seen' = seen ∧ r₀.around returned (w', ()) (w, ())

namespace Collects

variable {r : Pairing σ' ω' (Array α) σ ω (Array α)} {r₀ : Pairing σ' ω' Unit σ ω Unit}

theorem ends (collects : r.Collects r₀) {o' : Outcome Halt (Site σ' ω') (Traversal α)}
    {o : Outcome Halt (Site σ ω) (Traversal α)} (shows : r.Shows o' o) :
    r₀.Ends Eq (Outcome.mapState (·, ()) o') (Outcome.mapState (·, ()) o) := by
  cases shows with
  | complete own around =>
    obtain ⟨same, around⟩ := collects.same around
    exact .ok (by rw [same]) (collects.own.mp own) around
  | stalled stall own around => exact .ok rfl (collects.own.mp own) (collects.same around).2
  | halted h own around => exact .error h (collects.own.mp own) (collects.same around).2

theorem collect (collects : r.Collects r₀)
    (follows : q.Follows p Visitor.collecting.visit Visitor.collecting.visit r) (rounds : Nat)
    (strategy : Strategy) (advances : strategy = .stepAdvance →
      r.Tracks Eq (Protocol.playing Visitor.collecting.visit q.tryAdvance)
        (Protocol.playing Visitor.collecting.visit p.tryAdvance)) :
    r₀.Tracks Eq (quietly (q.collect rounds strategy)) (quietly (p.collect rounds strategy)) := by
  intro x' x own around
  have ends := collects.ends (Pairing.collect follows rounds strategy advances
    (collects.own.mpr own) (collects.start around))
  simp only [quietly]
  generalize q.collect rounds strategy x'.1 = o', p.collect rounds strategy x.1 = o at ends ⊢
  cases o' with
  | ok elements' t' =>
    cases o with
    | ok elements t =>
      cases ends with
      | ok same own around => exact .ok (Traversal.complete.inj same) own around
    | error h t => cases ends
  | error h' t' =>
    cases o with
    | ok elements t => cases ends
    | error h t =>
      cases ends with
      | error _ own around => exact .error _ own around

theorem traverse (collects : r.Collects r₀)
    (follows : q.Follows p Visitor.collecting.visit Visitor.collecting.visit r)
    (sizes : r.Tracks Eq (quietly (q.hasCharacteristics (.ofFlag .sized)))
      (quietly (p.hasCharacteristics (.ofFlag .sized)))) (rounds : Nat)
    (strategy : Strategy) (advances : strategy = .stepAdvance →
      r.Tracks Eq (Protocol.playing Visitor.collecting.visit q.tryAdvance)
        (Protocol.playing Visitor.collecting.visit p.tryAdvance)) :
    r₀.Tracks Eq (quietly (q.traverse rounds strategy)) (quietly (p.traverse rounds strategy)) := by
  intro x' x own around
  exact collects.ends (Pairing.traverse follows sizes rounds strategy advances
    (collects.own.mpr own) (collects.start around))

end Collects
end Pairing

def Site.read (own : σ' → σ) (shared : ω' → ω) (s : Site σ' ω') : Site σ ω :=
  ⟨own s.own, shared s.shared⟩

namespace Pairing

variable {own : σ' → σ} {shared : ω' → ω} {ours : σ' → Prop}

/-- A run, and the run on what its sources and all that they share are read as. The memory of the
visitor is the same. -/
def reading (own : σ' → σ) (shared : ω' → ω) (ours : σ' → Prop) : Pairing σ' ω' τ σ ω τ where
  own s' s := ours s' ∧ own s' = s
  around _ x' x := shared x'.1 = x.1 ∧ x'.2 = x.2
  thrown := id

theorem reading_tracks {answer : ρ' → ρ → Prop} {act' : EStateM ε (Site σ' ω' × τ) ρ'}
    {act : EStateM ε (Site σ ω × τ) ρ}
    (ends : ∀ s', ours s'.own → ∀ m, (reading own shared ours).Ends answer (act' (s', m))
      (act (s'.read own shared, m))) :
    (reading own shared ours).Tracks answer act' act := by
  rintro ⟨⟨own', w'⟩, m⟩ ⟨⟨_, _⟩, _⟩ ⟨known, rfl⟩ ⟨rfl, rfl⟩
  exact ends ⟨own', w'⟩ known m

theorem reading_eq {o' : Outcome ε (Site σ' ω' × τ) ρ} {o : Outcome ε (Site σ ω × τ) ρ}
    (ends : (reading own shared ours).Ends Eq o' o) :
    Outcome.mapState (fun x => (x.1.read own shared, x.2)) o' = o := by
  have same {x' : Site σ' ω' × τ} {x : Site σ ω × τ} (source : own x'.1.own = x.1.own)
      (around : shared x'.1.shared = x.1.shared ∧ x'.2 = x.2) :
      (x'.1.read own shared, x'.2) = x := by
    obtain ⟨⟨_, _⟩, _⟩ := x
    exact Prod.ext (congrArg₂ Site.mk source around.1) around.2
  cases ends with
  | ok answer own around => exact congrArg₂ EStateM.Result.ok answer (same own.2 around)
  | error e own around => exact congrArg (EStateM.Result.error e) (same own.2 around)

theorem Tracks.reading_eq {act' : EStateM ε (Site σ' ω') ρ} {act : EStateM ε (Site σ ω) ρ}
    (tracks : (reading own shared ours : Pairing σ' ω' Unit σ ω Unit).Tracks Eq (quietly act')
      (quietly act)) (s' : Site σ' ω') (known : ours s'.own) :
    Outcome.mapState (Site.read own shared) (act' s') = act (s'.read own shared) := by
  have same := Pairing.reading_eq
    (tracks (s', ()) (s'.read own shared, ()) ⟨known, rfl⟩ ⟨rfl, rfl⟩)
  simp only [quietly] at same
  generalize act' s' = o', act _ = o at same ⊢
  cases o' with
  | ok a' t' =>
    cases o <;> cases same
    rfl
  | error e' t' =>
    cases o <;> cases same
    rfl

theorem eq_map_of_reading {leaves' : List (Partitioner.Leaf σ')} {leaves : List (Partitioner.Leaf σ)}
    (matching : (reading own shared ours : Pairing σ' ω' τ σ ω τ).MatchingLeaves leaves' leaves) :
    leaves = leaves'.map (.map own) := by
  obtain ⟨each⟩ := matching
  rw [Partitioner.map_map_leaves]
  congr 1
  induction each with
  | nil => rfl
  | cons leaf _ ih => rw [List.map_cons, ← leaf.2, ih]

theorem reading_collects : (reading own shared ours : Pairing σ' ω' (Array α) σ ω _).Collects
    (reading own shared ours) where
  own := Iff.rfl
  start known := ⟨known.1, rfl⟩
  same known := ⟨known.2, known.1, rfl⟩

end Pairing
end SplitTraversal
