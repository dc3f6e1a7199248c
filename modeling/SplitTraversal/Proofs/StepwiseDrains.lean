import SplitTraversal.Proofs.IndexedPlay
import SplitTraversal.Source.Singleton

/-! Draining at once and advancing step by step. Indexed sources and those of one element hand out
what is upcoming and move on, whether it is handed over or something throws. So a drain is a loop of
such steps: it makes the same visits, ends in the same way, and can be taken up after any of them. -/

namespace SplitTraversal

theorem Outcome.state_answering {ε S ρ : Type} (a : ρ) (o : Outcome ε S Unit) :
    (o.answering a).state = o.state := by
  cases o <;> rfl

/-- What a source hands out next, with the source after that; none where nothing remains. -/
abbrev Upcoming (σ ω α : Type) := σ → Option (Action ω α × σ)

namespace Protocol

variable {σ ω τ α : Type}

/-- Produce an element and visit it, in a source that has moved on when either throws. -/
def handOver (produce : Action ω α) (rest : σ) (visitor : Visitor ω τ α) (w : ω) (m : τ) :
    Outcome Thrown (Site σ ω × τ) Unit :=
  match produce w with
  | .error e w => .error e (⟨rest, w⟩, m)
  | .ok a w => Outcome.mapState (fun t => (⟨rest, t.1⟩, t.2)) (visitor.visit a (w, m))

theorem handOver_own (produce : Action ω α) (rest : σ) (visitor : Visitor ω τ α) (w : ω) (m : τ) :
    (handOver produce rest visitor w m).state.1.own = rest := by
  unfold handOver
  cases produce w with
  | error e w => rfl
  | ok a w => rw [Outcome.state_mapState]

/-- A drain: the elements that were visited, in their order, and how it ended. What throws, be it the
production of an element or its visit, is the last thing done. -/
inductive Drains (upcoming : Upcoming σ ω α) (visitor : Visitor ω τ α) :
    Site σ ω × τ → List α → Outcome Thrown (Site σ ω × τ) Unit → Prop
  | exhausted {s : σ} (w : ω) (m : τ) (none : upcoming s = none) :
      Drains upcoming visitor (⟨s, w⟩, m) [] (.ok () (⟨s, w⟩, m))
  | unproduced {s rest : σ} {produce : Action ω α} {w w' : ω} (m : τ) {e : Thrown}
      (next : upcoming s = some (produce, rest)) (threw : produce w = .error e w') :
      Drains upcoming visitor (⟨s, w⟩, m) [] (.error e (⟨rest, w'⟩, m))
  | interrupted {s rest : σ} {produce : Action ω α} {w v : ω} {m : τ} {a : α} {e : Thrown}
      {t : ω × τ} (next : upcoming s = some (produce, rest)) (produced : produce w = .ok a v)
      (threw : visitor.visit a (v, m) = .error e t) :
      Drains upcoming visitor (⟨s, w⟩, m) [a] (.error e (⟨rest, t.1⟩, t.2))
  | visited {s rest : σ} {produce : Action ω α} {w v : ω} {m : τ} {a : α} {t : ω × τ}
      {visits : List α} {outcome : Outcome Thrown (Site σ ω × τ) Unit}
      (next : upcoming s = some (produce, rest)) (produced : produce w = .ok a v)
      (returned : visitor.visit a (v, m) = .ok () t)
      (later : Drains upcoming visitor (⟨rest, t.1⟩, t.2) visits outcome) :
      Drains upcoming visitor (⟨s, w⟩, m) (a :: visits) outcome

/-- A number of steps that each visit an element and return. -/
inductive Advances (p : Protocol σ ω α) (visitor : Visitor ω τ α) :
    Nat → Site σ ω × τ → Site σ ω × τ → Prop
  | nothing (s : Site σ ω × τ) : Advances p visitor 0 s s
  | step {k : Nat} {s t u : Site σ ω × τ}
      (first : play visitor p.tryAdvance s.1 s.2 = .ok true t) (later : Advances p visitor k t u) :
      Advances p visitor (k + 1) s u

/-- A source whose operations hand out what is upcoming, and refuse a visitor that is no function. -/
structure Sequential (p : Protocol σ ω α) (upcoming : Upcoming σ ω α) (left : σ → Nat) : Prop where
  left_some {s rest : σ} {produce : Action ω α} (next : upcoming s = some (produce, rest)) :
    left s = left rest + 1
  tryAdvance {τ : Type} {visitor : Visitor ω τ α} (callable : visitor.callee = .callable) (s : σ)
    (w : ω) (m : τ) :
    play visitor p.tryAdvance ⟨s, w⟩ m = match upcoming s with
      | none => .ok false (⟨s, w⟩, m)
      | some (produce, rest) => (handOver produce rest visitor w m).answering true
  forEachRemaining {τ : Type} {visitor : Visitor ω τ α} (callable : visitor.callee = .callable)
    (s : σ) (w : ω) (m : τ) :
    play visitor p.forEachRemaining ⟨s, w⟩ m = match upcoming s with
      | none => .ok () (⟨s, w⟩, m)
      | some (produce, rest) =>
        match handOver produce rest visitor w m with
        | .ok _ t => play visitor p.forEachRemaining t.1 t.2
        | .error e t => .error e t
  refuses {τ : Type} {visitor : Visitor ω τ α} {e : Thrown}
    (refused : visitor.callee.require = .error e) (s : Site σ ω) (m : τ) :
    play visitor p.tryAdvance s m = .error e (s, m) ∧
      play visitor p.forEachRemaining s m = .error e (s, m)

namespace Sequential

variable {p : Protocol σ ω α} {upcoming : Upcoming σ ω α} {left : σ → Nat}

/-- Handing over what is upcoming ends a drain, or is the first visit of one. -/
theorem drains_handOver {s rest : σ} {produce : Action ω α}
    (next : upcoming s = some (produce, rest)) (visitor : Visitor ω τ α) (w : ω) (m : τ) :
    (∃ visits e t, handOver produce rest visitor w m = .error e t ∧
      Drains upcoming visitor (⟨s, w⟩, m) visits (.error e t)) ∨
    ∃ (a : α) (t : ω × τ), handOver produce rest visitor w m = .ok () (⟨rest, t.1⟩, t.2) ∧
      ∀ visits outcome, Drains upcoming visitor (⟨rest, t.1⟩, t.2) visits outcome →
        Drains upcoming visitor (⟨s, w⟩, m) (a :: visits) outcome := by
  cases produced : produce w with
  | error e v =>
    exact .inl ⟨_, e, _, by simp only [handOver, produced], .unproduced m next produced⟩
  | ok a v =>
    cases visited : visitor.visit a (v, m) with
    | error e t =>
      refine .inl ⟨_, e, _, ?_, .interrupted next produced visited⟩
      simp only [handOver, produced, visited, Outcome.mapState_error]
    | ok _ t =>
      refine .inr ⟨a, t, ?_, fun _ _ later => .visited next produced visited later⟩
      simp only [handOver, produced, visited, Outcome.mapState_ok]

variable (sequential : p.Sequential upcoming left) {visitor : Visitor ω τ α}
  (callable : visitor.callee = .callable)

include sequential callable

theorem stepAdvance_succ (rounds : Nat) (s : σ) (w : ω) (m : τ) :
    p.stepAdvance visitor (rounds + 1) (⟨s, w⟩, m) = match upcoming s with
      | none => .ok () (⟨s, w⟩, m)
      | some (produce, rest) =>
        match handOver produce rest visitor w m with
        | .ok _ t => p.stepAdvance visitor rounds t
        | .error e t => .error (.threw e) t := by
  rw [stepAdvance, sequential.tryAdvance callable]
  cases upcoming s with
  | none => rfl
  | some next =>
    simp only
    cases handOver next.1 next.2 visitor w m <;> rfl

/-- One drain, whether it is made at once or by looping on steps. -/
theorem exists_drains (s : σ) (w : ω) (m : τ) : ∃ visits outcome,
    Drains upcoming visitor (⟨s, w⟩, m) visits outcome ∧
    play visitor p.forEachRemaining ⟨s, w⟩ m = outcome ∧
    ∀ rounds, left s < rounds → p.stepAdvance visitor rounds (⟨s, w⟩, m) = outcome.halting := by
  obtain ⟨bound, more⟩ : ∃ bound, left s < bound := ⟨_, Nat.lt_succ_self _⟩
  induction bound generalizing s w m with
  | zero => exact absurd more (Nat.not_lt_zero _)
  | succ bound ih =>
    have drained := sequential.forEachRemaining callable s w m
    have looped (rounds : Nat) := sequential.stepAdvance_succ callable rounds s w m
    cases next : upcoming s with
    | none =>
      simp only [next] at drained looped
      refine ⟨[], _, .exhausted w m next, drained, fun rounds enough => ?_⟩
      obtain ⟨rounds, rfl⟩ := Nat.exists_eq_succ_of_ne_zero (Nat.ne_zero_of_lt enough)
      exact looped rounds
    | some found =>
      obtain ⟨produce, rest⟩ := found
      have count := sequential.left_some next
      rcases drains_handOver next visitor w m with ⟨visits, e, t, threw, drains⟩ |
        ⟨a, t, returned, onward⟩
      · simp only [next, threw] at drained looped
        refine ⟨visits, _, drains, drained, fun rounds enough => ?_⟩
        obtain ⟨rounds, rfl⟩ := Nat.exists_eq_succ_of_ne_zero (Nat.ne_zero_of_lt enough)
        exact looped rounds
      · simp only [next, returned] at drained looped
        obtain ⟨visits, outcome, drains, same, each⟩ := ih rest t.1 t.2 (by omega)
        refine ⟨_, outcome, onward visits outcome drains, drained.trans same, ?_⟩
        intro rounds enough
        obtain ⟨rounds, rfl⟩ := Nat.exists_eq_succ_of_ne_zero (Nat.ne_zero_of_lt enough)
        exact (looped rounds).trans (each rounds (by omega))

theorem stepAdvance_eq_bulkDrain (s : σ) (w : ω) (m : τ) {rounds : Nat} (enough : left s < rounds) :
    p.stepAdvance visitor rounds (⟨s, w⟩, m) = p.bulkDrain visitor (⟨s, w⟩, m) := by
  obtain ⟨_, outcome, _, drained, looped⟩ := sequential.exists_drains callable s w m
  rw [bulkDrain_eq, drained, looped rounds enough]

theorem forEachRemaining_of_advanced {s : σ} {w : ω} {m : τ} {t : Site σ ω × τ}
    (advanced : play visitor p.tryAdvance ⟨s, w⟩ m = .ok true t) :
    play visitor p.forEachRemaining ⟨s, w⟩ m = play visitor p.forEachRemaining t.1 t.2 := by
  rw [sequential.tryAdvance callable] at advanced
  rw [sequential.forEachRemaining callable]
  cases next : upcoming s with
  | none =>
    rw [next] at advanced
    cases advanced
  | some found =>
    simp only [next] at advanced ⊢
    cases handed : handOver found.1 found.2 visitor w m with
    | error e u =>
      rw [handed] at advanced
      cases advanced
    | ok _ u =>
      rw [handed] at advanced
      cases advanced
      rfl

theorem forEachRemaining_of_advances {k : Nat} {s t : Site σ ω × τ}
    (advances : Advances p visitor k s t) :
    play visitor p.forEachRemaining t.1 t.2 = play visitor p.forEachRemaining s.1 s.2 := by
  induction advances with
  | nothing => rfl
  | step first _ ih => exact ih.trans (sequential.forEachRemaining_of_advanced callable first).symm

/-- A drain that throws does so in its last step, which moves past the element at hand. -/
theorem exists_interruption {s : σ} {w : ω} {m : τ} {e : Thrown} {t : Site σ ω × τ}
    (threw : play visitor p.forEachRemaining ⟨s, w⟩ m = .error e t) :
    ∃ k u produce, Advances p visitor k (⟨s, w⟩, m) u ∧
      play visitor p.tryAdvance u.1 u.2 = .error e t ∧
      upcoming u.1.own = some (produce, t.1.own) := by
  obtain ⟨bound, more⟩ : ∃ bound, left s < bound := ⟨_, Nat.lt_succ_self _⟩
  induction bound generalizing s w m with
  | zero => exact absurd more (Nat.not_lt_zero _)
  | succ bound ih =>
    rw [sequential.forEachRemaining callable] at threw
    have stepped := sequential.tryAdvance callable s w m
    cases next : upcoming s with
    | none =>
      rw [next] at threw
      cases threw
    | some found =>
      obtain ⟨produce, rest⟩ := found
      have count := sequential.left_some next
      have moved := handOver_own produce rest visitor w m
      simp only [next] at threw stepped
      cases handed : handOver produce rest visitor w m with
      | error e' u =>
        rw [handed] at threw stepped moved
        cases threw
        exact ⟨0, _, produce, .nothing _, stepped, by rw [next, ← moved]; rfl⟩
      | ok _ u =>
        rw [handed] at threw stepped moved
        have fewer : left u.1.own < bound := by rw [show u.1.own = rest from moved]; omega
        obtain ⟨k, v, produce, advances, last, upcoming⟩ := ih threw fewer
        exact ⟨k + 1, v, produce, .step stepped advances, last, upcoming⟩

end Sequential

/-- How a source is drained at once, by what one step of it does: a step consumes just the upcoming
element, also where something throws, and a drain is a loop of steps that can be taken up after any of
them. What is no function is refused, and changes nothing. -/
structure Stepwise (p : Protocol σ ω α) (upcoming : Upcoming σ ω α) (left : σ → Nat) : Prop where
  exhausted {τ : Type} {visitor : Visitor ω τ α} (callable : visitor.callee = .callable) {s : σ}
    (none : upcoming s = none) (w : ω) (m : τ) :
    play visitor p.tryAdvance ⟨s, w⟩ m = .ok false (⟨s, w⟩, m)
  consumes {τ : Type} {visitor : Visitor ω τ α} (callable : visitor.callee = .callable) {s rest : σ}
    {produce : Action ω α} (next : upcoming s = some (produce, rest)) (w : ω) (m : τ) :
    play visitor p.tryAdvance ⟨s, w⟩ m = (handOver produce rest visitor w m).answering true ∧
      (play visitor p.tryAdvance ⟨s, w⟩ m).state.1.own = rest
  drains {τ : Type} {visitor : Visitor ω τ α} (callable : visitor.callee = .callable) (s : σ)
    (w : ω) (m : τ) : ∃ visits outcome,
      Drains upcoming visitor (⟨s, w⟩, m) visits outcome ∧
      play visitor p.forEachRemaining ⟨s, w⟩ m = outcome ∧
      ∀ rounds, left s < rounds → p.stepAdvance visitor rounds (⟨s, w⟩, m) = outcome.halting
  resumes {τ : Type} {visitor : Visitor ω τ α} (callable : visitor.callee = .callable) {k : Nat}
    {s t : Site σ ω × τ} (advances : Advances p visitor k s t) :
    play visitor p.forEachRemaining t.1 t.2 = play visitor p.forEachRemaining s.1 s.2
  interrupted {τ : Type} {visitor : Visitor ω τ α} (callable : visitor.callee = .callable) {s : σ}
    {w : ω} {m : τ} {e : Thrown} {t : Site σ ω × τ}
    (threw : play visitor p.forEachRemaining ⟨s, w⟩ m = .error e t) :
    ∃ k u produce, Advances p visitor k (⟨s, w⟩, m) u ∧
      play visitor p.tryAdvance u.1 u.2 = .error e t ∧
      upcoming u.1.own = some (produce, t.1.own)
  refuses {τ : Type} {visitor : Visitor ω τ α} {v : Value} (stands : visitor.callee = .ofValue v)
    (other : v.isFunction = false) (s : Site σ ω) (m : τ) :
    ∃ fault : Fault, fault.kind = .invalidArgument ∧
      play visitor p.tryAdvance s m = .error (.fault fault) (s, m) ∧
      play visitor p.forEachRemaining s m = .error (.fault fault) (s, m) ∧
      (∀ rounds strategy,
        p.decompose rounds strategy visitor (s, m) = .error (.threw (.fault fault)) (s, m)) ∧
      ∀ rounds name,
        p.decomposeByName rounds name visitor (s, m) = .error (.threw (.fault fault)) (s, m)

end Protocol

theorem Callee.require_ofValue {v : Value} (other : v.isFunction = false) :
    ∃ fault : Fault, fault.kind = .invalidArgument ∧
      (Callee.ofValue v).require = .error (.fault fault) := by
  have refused : ∃ found, Callee.ofValue v = .other found := by
    cases v with
    | function => cases other
    | _ => exact ⟨_, rfl⟩
  obtain ⟨found, stands⟩ := refused
  exact ⟨.violation (.notCallable found), rfl, by rw [stands]; rfl⟩

theorem Protocol.Sequential.stepwise {σ ω α : Type} {p : Protocol σ ω α}
    {upcoming : Upcoming σ ω α} {left : σ → Nat} (sequential : p.Sequential upcoming left) :
    p.Stepwise upcoming left where
  exhausted callable s none w m := by rw [sequential.tryAdvance callable, none]
  consumes callable s rest produce next w m := by
    have stepped := sequential.tryAdvance callable s w m
    rw [next] at stepped
    refine ⟨stepped, ?_⟩
    rw [stepped, Outcome.state_answering, handOver_own]
  drains := sequential.exists_drains
  resumes := sequential.forEachRemaining_of_advances
  interrupted := sequential.exists_interruption
  refuses stands other s m := by
    obtain ⟨fault, kind, required⟩ := Callee.require_ofValue other
    rw [← stands] at required
    obtain ⟨stepped, drained⟩ := sequential.refuses required s m
    refine ⟨fault, kind, stepped, drained, fun rounds strategy => ?_, fun rounds name => ?_⟩
    · simp only [decompose, required]
    · simp only [decomposeByName, required]

namespace Indexed

variable {ω α : Type}

def upcoming : Upcoming (Indexed ω α) ω α := fun s =>
  if s.limit ≤ s.offset then none else some (s.read s.offset, s.skip 1)

def left (s : Indexed ω α) : Nat := s.limit - s.offset

theorem upcoming_none {s : Indexed ω α} (none : s.limit ≤ s.offset) : upcoming s = .none :=
  if_pos none

theorem upcoming_some {s : Indexed ω α} (more : s.offset < s.limit) :
    upcoming s = some (s.read s.offset, s.skip 1) :=
  if_neg (Nat.not_le_of_lt more)

theorem landed_visitAt {τ : Type} (s : Indexed ω α) (visitor : Visitor ω τ α) (w : ω) (m : τ) :
    s.landed (visitAt s.read visitor.visit s.offset (w, m)) =
      Protocol.handOver (s.read s.offset) (s.skip 1) visitor w m := by
  rw [landed, positions_visitAt]
  simp only [visitAt, Protocol.handOver]
  cases s.read s.offset w <;> rfl

theorem sequential : (protocol : Protocol (Indexed ω α) ω α).Sequential upcoming left where
  left_some {s rest produce} next := by
    by_cases none : s.limit ≤ s.offset
    · rw [upcoming_none none] at next
      cases next
    · rw [upcoming_some (Nat.lt_of_not_le none)] at next
      cases next
      simp only [left, skip_limit, skip_offset]
      omega
  tryAdvance {τ visitor} callable s w m := by
    rw [play_tryAdvance visitor callable, landed_visitAt]
    by_cases none : s.limit ≤ s.offset
    · rw [if_pos none, upcoming_none none]
    · rw [if_neg none, upcoming_some (Nat.lt_of_not_le none)]
  forEachRemaining {τ visitor} callable s w m := by
    rw [play_forEachRemaining visitor callable]
    by_cases none : s.limit ≤ s.offset
    · rw [upcoming_none none, Nat.sub_eq_zero_of_le none]
      rfl
    · have count : s.limit - s.offset = (s.skip 1).limit - (s.skip 1).offset + 1 := by
        rw [skip_limit, skip_offset]
        omega
      rw [upcoming_some (Nat.lt_of_not_le none), count, visitFrom]
      simp only [← landed_visitAt]
      cases visited : (visitAt s.read visitor.visit s.offset (w, m)).ending with
      | error e t => rw [Stretch.andThen_error visited, landed_error visited]
      | ok _ t =>
        rw [landed_andThen s visited, landed_ok visited, positions_visitAt]
        exact (play_forEachRemaining visitor callable (s.skip 1) t.1 t.2).symm
  refuses {τ visitor e} refused s m := by
    simp only [Protocol.play, protocol, tryAdvance, forEachRemaining, refused]
    exact ⟨rfl, rfl⟩

end Indexed

namespace Singleton

variable {ω α : Type}

def upcoming : Upcoming (Singleton α) ω α := fun s =>
  s.held.map fun a => (fun w => .ok a w, ⟨none⟩)

def left (s : Singleton α) : Nat := s.held.elim 0 fun _ => 1

theorem sequential : (protocol : Protocol (Singleton α) ω α).Sequential upcoming left where
  left_some {s rest produce} next := by
    obtain ⟨held⟩ := s
    cases held with
    | none => cases next
    | some a =>
      cases next
      rfl
  tryAdvance {τ visitor} callable s w m := by
    obtain ⟨held⟩ := s
    simp only [Protocol.play, protocol, tryAdvance, callable, Callee.require]
    cases held with
    | none => rfl
    | some a =>
      simp only [Turn.play, upcoming, Option.map_some, Protocol.handOver]
      cases visitor.visit a (w, m) <;> rfl
  forEachRemaining {τ visitor} callable s w m := by
    obtain ⟨held⟩ := s
    simp only [Protocol.play, protocol, forEachRemaining, callable, Callee.require]
    cases held with
    | none => rfl
    | some a =>
      simp only [Turn.play, upcoming, Option.map_some, Protocol.handOver]
      cases visitor.visit a (w, m) <;> rfl
  refuses {τ visitor e} refused s m := by
    simp only [Protocol.play, protocol, tryAdvance, forEachRemaining, refused]
    exact ⟨rfl, rfl⟩

end Singleton

/-- Indexed sources and those of one element are drained as by a loop of steps, in every state, also
past the end. -/
theorem drains_stepwise (ω α : Type) :
    (Indexed.protocol : Protocol (Indexed ω α) ω α).Stepwise Indexed.upcoming Indexed.left ∧
      (Singleton.protocol : Protocol (Singleton α) ω α).Stepwise Singleton.upcoming Singleton.left :=
  ⟨Indexed.sequential.stepwise, Singleton.sequential.stepwise⟩

def throwTwice : Nat → Action (Unit × List Nat) Unit := fun n (w, seen) =>
  if n = 9 ∨ n = 25 then .error (.int n) (w, n :: seen) else .ok () (w, n :: seen)

/-- The drain throws at the second of five elements, and the next one goes on with the third. -/
theorem drains_stepwise_throwing :
    let s : Indexed Unit Nat := ⟨fun i w => .ok (i * i) w, 2, 7, .none, none, false⟩
    let visitor := Visitor.ofFunction throwTwice
    Protocol.play visitor Indexed.protocol.forEachRemaining ⟨s, ()⟩ [] =
        .error (.int 9) (⟨s.skip 2, ()⟩, [9, 4]) ∧
      (∃ k u, Protocol.Advances Indexed.protocol visitor k (⟨s, ()⟩, []) u ∧
        Protocol.play visitor Indexed.protocol.tryAdvance u.1 u.2 =
          .error (.int 9) (⟨s.skip 2, ()⟩, [9, 4])) ∧
      ∃ visits, Protocol.Drains Indexed.upcoming visitor (⟨s.skip 2, ()⟩, [9, 4]) visits
        (.error (.int 25) (⟨s.skip 4, ()⟩, [25, 16, 9, 4])) := by
  intro s visitor
  have stepwise := (drains_stepwise Unit Nat).1
  have callable : visitor.callee = .callable := rfl
  have threw : Protocol.play visitor Indexed.protocol.forEachRemaining ⟨s, ()⟩ [] =
      .error (.int 9) (⟨s.skip 2, ()⟩, [9, 4]) := rfl
  obtain ⟨k, u, _, advances, last, _⟩ := stepwise.interrupted callable threw
  obtain ⟨visits, outcome, drains, drained, _⟩ := stepwise.drains callable (s.skip 2) () [9, 4]
  rw [← drained] at drains
  exact ⟨threw, ⟨k, u, advances, last⟩, visits, drains⟩

end SplitTraversal
