import SplitTraversal.Proofs.SessionSources

/-! Visitors that work on sources of the session. One that leaves the source it is called from alone
is handed what the source held, each element once. One that advances that source is handed the
element at the offset again: the offset moves when the visitor is done, so that both advances read
the same position and both move on, and the position after it is never read. -/

namespace SplitTraversal

namespace Visitor

variable {ω τ α : Type}

def noting (visitor : Visitor ω τ α) : Visitor ω (τ × List α) α :=
  ⟨visitor.callee, fun a (w, (m, seen)) =>
    Outcome.mapState (fun (w, m) => (w, (m, seen ++ [a]))) (visitor.visit a (w, m))⟩

theorem noting_visit (visitor : Visitor ω τ α) (a : α) (w : ω) (m : τ) (seen : List α) :
    visitor.noting.visit a (w, (m, seen)) =
      Outcome.mapState (fun t => (t.1, (t.2, seen ++ [a]))) (visitor.visit a (w, m)) := rfl

/-- The visitor leaves a numbered source as it is, whatever else it does to the session. -/
def Spares (i : Nat) (visitor : Visitor Session τ Value) : Prop :=
  ∀ a (s : Session) m, i < s.nodes.size →
    (Outcome.state (visitor.visit a (s, m))).1.nodes[i]? = s.nodes[i]?

end Visitor

namespace Place

variable {τ ρ : Type} {visitor : Visitor Session τ Value} {i : Nat} {s : Session} {m : τ}

/-- What a numbered source held before is what was handed over, and then what it holds now. -/
def Accounted (i : Nat) (before : List Value) (t : Site Place Session × (τ × List Value)) : Prop :=
  ∃ node rest, t.1.shared.nodes[i]? = some node ∧ node.Holds rest ∧ before = t.2.2 ++ rest

section Indexed

variable {base source : Indexed Bench Value} {f : Nat → Value} {seen : List Value}

/-- The source has moved past these many positions, and they were handed over in order. -/
def HandedFirst (i : Nat) (source : Indexed Bench Value) (f : Nat → Value) (seen : List Value)
    (count : Nat) (t : Site Place Session × (τ × List Value)) : Prop :=
  t.1.shared.nodes[i]? = some (Node.plain (source.skip count)) ∧
    t.2.2 = seen ++ (List.range' source.offset count).map f

theorem handedFirst_nothing (inside : i < s.nodes.size) :
    HandedFirst i source f seen 0
      ((seat i base).put ⟨source, s.bench⟩ ⟨.numbered i, s⟩, (m, seen)) :=
  ⟨s.seating_node inside (Node.plain source) s.bench, (List.append_nil seen).symm⟩

theorem HandedFirst.accounted {count : Nat} {t : Site Place Session × (τ × List Value)}
    (handed : HandedFirst i source f [] count t) (accepted : source.Accepted)
    (reads : source.Reads f) (fits : count ≤ source.limit - source.offset) :
    Accounted i (source.remaining.map f) t := by
  have within := accepted.offset_le
  have reads' : (source.skip count).Reads f := reads
  refine ⟨_, _, handed.1, .indexed (accepted.rest (by omega)) reads', ?_⟩
  rw [handed.2, Indexed.remaining_skip fits, List.map_append]
  rfl

/-- Whatever is true when the visitor throws, and when the source goes on past the position after
the visitor returned, is true in the end. -/
theorem play_offerNext (spares : visitor.Spares i) (reads : source.Reads f)
    (more : source.offset < source.limit) (inside : i < s.nodes.size)
    {next : Site (Indexed Bench Value) Bench → Turn (Site (Indexed Bench Value) Bench) Value ρ}
    {P : Site Place Session × (τ × List Value) → Prop}
    (threw : ∀ (s' : Session) (m' : τ), s'.nodes[i]? = some (Node.plain (source.skip 1)) →
      P (⟨.numbered i, s'⟩, (m', seen ++ [f source.offset])))
    (onward : ∀ (s' : Session) (m' : τ), i < s'.nodes.size →
      P (Outcome.state (((next ⟨source.skip 1, s'.bench⟩).within (seat i base)
        ⟨.numbered i, s'⟩).play visitor.noting.visit (m', seen ++ [f source.offset])))) :
    P (Outcome.state (((Indexed.offerNext next ⟨source, s.bench⟩).within (seat i base)
      ⟨.numbered i, s⟩).play visitor.noting.visit (m, seen))) := by
  obtain ⟨b, read⟩ := reads source.offset s.bench
  let during := s.seating i (Node.plain source) b
  have there : during.nodes[i]? = some (Node.plain source) := s.seating_node inside _ b
  have kept := (spares (f source.offset) during m (Session.inside_of_node there)).trans there
  simp only [Indexed.offerNext, read]
  rw [Turn.within, seat_put, Turn.play, visitor.noting_visit]
  cases visited : visitor.visit (f source.offset) (during, m) with
  | ok _ t =>
    obtain ⟨s', m'⟩ := t
    simp only [visited, Outcome.state] at kept
    simp only [Outcome.mapState_ok, seat_get kept, Indexed.settle, Indexed.advanced_of_lt more,
      Outcome.state]
    exact onward s' m' (Session.inside_of_node kept)
  | error e t =>
    obtain ⟨s', m'⟩ := t
    simp only [visited, Outcome.state] at kept
    simp only [Outcome.mapState_error, seat_get kept, Indexed.settle, Indexed.advanced_of_lt more,
      Outcome.state]
    exact threw _ m' (s'.seating_node (Session.inside_of_node kept) _ s'.bench)

theorem play_drain (spares : visitor.Spares i) (reads : source.Reads f) (count : Nat)
    (fits : count ≤ source.limit - source.offset) (inside : i < s.nodes.size) :
    ∃ handed ≤ count, HandedFirst i source f seen handed (Outcome.state
      (((Indexed.drain count ⟨source, s.bench⟩).within (seat i base) ⟨.numbered i, s⟩).play
        visitor.noting.visit (m, seen))) := by
  induction count generalizing source s seen m with
  | zero => exact ⟨0, Nat.le_refl 0, handedFirst_nothing inside⟩
  | succ count ih =>
    have more : source.offset < source.limit := by omega
    rw [Indexed.drain_more more]
    refine play_offerNext (P := fun t => ∃ handed ≤ count + 1, HandedFirst i source f seen handed t)
      spares reads more inside ?_ ?_
    · intro s' m' left
      exact ⟨1, by omega, left, rfl⟩
    · intro s' m' inside'
      have fewer : count ≤ (source.skip 1).limit - (source.skip 1).offset := by
        simp only [Indexed.skip_limit, Indexed.skip_offset]
        omega
      obtain ⟨handed, upto, left, noted⟩ := @ih s' m' (source.skip 1) (seen ++ [f source.offset])
        reads fewer inside'
      refine ⟨handed + 1, by omega, ?_, ?_⟩
      · rw [Nat.add_comm, ← Indexed.skip_skip]
        exact left
      · refine noted.trans ?_
        rw [List.range'_succ, List.map_cons, List.append_assoc]
        rfl

theorem play_tryAdvance (spares : visitor.Spares i) (reads : source.Reads f)
    (here : s.nodes[i]? = some (Node.plain source)) :
    ∃ handed ≤ source.limit - source.offset, HandedFirst i source f [] handed
      (Outcome.state
        (Protocol.play visitor.noting protocol.tryAdvance ⟨.numbered i, s⟩ (m, []))) := by
  have inside := Session.inside_of_node here
  have nothing : HandedFirst i source f [] 0
      ((seat i source).put ⟨source, s.bench⟩ ⟨.numbered i, s⟩, (m, [])) :=
    handedFirst_nothing inside
  rw [Protocol.play, tryAdvance_plain here, Visitor.noting]
  cases visitor.callee with
  | other found => exact ⟨0, Nat.zero_le _, nothing⟩
  | callable =>
    by_cases more : source.offset < source.limit
    · rw [Indexed.tryAdvance_more more]
      refine play_offerNext
        (P := fun t => ∃ handed ≤ source.limit - source.offset, HandedFirst i source f [] handed t)
        spares reads more inside ?_ ?_
      · intro s' m' left
        exact ⟨1, by omega, left, rfl⟩
      · intro s' m' inside'
        exact ⟨1, by omega, s'.seating_node inside' _ s'.bench, rfl⟩
    · rw [Indexed.tryAdvance_none (Nat.le_of_not_lt more)]
      exact ⟨0, Nat.zero_le _, nothing⟩

theorem play_forEachRemaining (spares : visitor.Spares i) (reads : source.Reads f)
    (here : s.nodes[i]? = some (Node.plain source)) :
    ∃ handed ≤ source.limit - source.offset, HandedFirst i source f [] handed
      (Outcome.state
        (Protocol.play visitor.noting protocol.forEachRemaining ⟨.numbered i, s⟩ (m, []))) := by
  have inside := Session.inside_of_node here
  rw [Protocol.play, forEachRemaining_plain here, Visitor.noting]
  cases visitor.callee with
  | other found => exact ⟨0, Nat.zero_le _, handedFirst_nothing inside⟩
  | callable => exact play_drain spares reads _ (Nat.le_refl _) inside

end Indexed

section Singleton

variable {source own : Singleton Value}

theorem accounted_unchanged (inside : i < s.nodes.size) :
    Accounted i source.held.toList
      ((cell i .singleton Node.singleton? own).put ⟨source, s.bench⟩ ⟨.numbered i, s⟩, (m, [])) :=
  ⟨_, _, s.seating_node inside (.singleton source) s.bench, .singleton source, rfl⟩

/-- A turn of a source of one element: it does nothing, or it hands over the element that is held
and is done with it once the visitor is, however the visitor ends. -/
def OfferedOnce (source : Singleton Value) (b : Bench)
    (turn : Turn (Site (Singleton Value) Bench) Value ρ) : Prop :=
  (∃ ended, turn = .done ended ∧ Outcome.state ended = ⟨source, b⟩) ∨
    ∃ a resume, source = ⟨some a⟩ ∧ turn = .offer ⟨⟨some a⟩, b⟩ a resume ∧
      ∀ outcome, ∃ ended, resume outcome = .done ended ∧ (Outcome.state ended).own = ⟨none⟩

theorem offeredOnce_tryAdvance (callee : Callee) (source : Singleton Value) (b : Bench) :
    OfferedOnce source b (Singleton.tryAdvance callee ⟨source, b⟩) := by
  obtain ⟨held⟩ := source
  cases callee with
  | other found => exact .inl ⟨_, rfl, rfl⟩
  | callable =>
    cases held with
    | none => exact .inl ⟨_, rfl, rfl⟩
    | some a =>
      refine .inr ⟨a, _, rfl, rfl, ?_⟩
      intro outcome
      cases outcome <;> exact ⟨_, rfl, rfl⟩

theorem offeredOnce_forEachRemaining (callee : Callee) (source : Singleton Value) (b : Bench) :
    OfferedOnce source b (Singleton.forEachRemaining callee ⟨source, b⟩) := by
  obtain ⟨held⟩ := source
  cases callee with
  | other found => exact .inl ⟨_, rfl, rfl⟩
  | callable =>
    cases held with
    | none => exact .inl ⟨_, rfl, rfl⟩
    | some a =>
      refine .inr ⟨a, _, rfl, rfl, ?_⟩
      intro outcome
      cases outcome <;> exact ⟨_, rfl, rfl⟩

theorem OfferedOnce.accounted {turn : Turn (Site (Singleton Value) Bench) Value ρ}
    (once : OfferedOnce source s.bench turn) (spares : visitor.Spares i)
    (inside : i < s.nodes.size) :
    Accounted i source.held.toList (Outcome.state
      ((turn.within (cell i .singleton Node.singleton? own) ⟨.numbered i, s⟩).play
        visitor.noting.visit (m, []))) := by
  rcases once with ⟨ended, rfl, unchanged⟩ | ⟨a, resume, rfl, rfl, gone⟩
  · cases ended with
    | _ r t =>
      have same : t = ⟨source, s.bench⟩ := unchanged
      rw [same]
      exact accounted_unchanged inside
  · let during := s.seating i (.singleton ⟨some a⟩) s.bench
    have there : during.nodes[i]? = some (.singleton ⟨some a⟩) := s.seating_node inside _ s.bench
    have kept := (spares a during m (Session.inside_of_node there)).trans there
    have after (s' : Session) (m' : τ) (inside' : i < s'.nodes.size)
        (outcome : Outcome Thrown (Site (Singleton Value) Bench) Unit) :
        Accounted i [a] (Outcome.state (((resume outcome).within
          (cell i .singleton Node.singleton? own) ⟨.numbered i, s'⟩).play visitor.noting.visit
            (m', [a]))) := by
      obtain ⟨ended, done, empty⟩ := gone outcome
      rw [done]
      cases ended with
      | _ r t =>
        have held : t.own = ⟨none⟩ := empty
        refine ⟨_, [], s'.seating_node inside' (.singleton t.own) t.shared, ?_, rfl⟩
        rw [held]
        exact .singleton ⟨none⟩
    rw [Turn.within, cell_put, Turn.play, visitor.noting_visit]
    cases visited : visitor.visit a (during, m) with
    | _ r t =>
      obtain ⟨s', m'⟩ := t
      simp only [visited, Outcome.state] at kept
      exact after s' m' (Session.inside_of_node kept) _

end Singleton

variable {node : Node} {before : List Value}

theorem accounted_tryAdvance (spares : visitor.Spares i) (here : s.nodes[i]? = some node)
    (holds : node.Holds before) :
    Accounted i before
      (Outcome.state
        (Protocol.play visitor.noting protocol.tryAdvance ⟨.numbered i, s⟩ (m, []))) := by
  cases holds with
  | indexed accepted reads =>
    obtain ⟨handed, fits, first⟩ := play_tryAdvance spares reads here
    exact first.accounted accepted reads fits
  | singleton source =>
    rw [Protocol.play, tryAdvance_singleton here]
    exact (offeredOnce_tryAdvance _ source s.bench).accounted spares (Session.inside_of_node here)

theorem accounted_forEachRemaining (spares : visitor.Spares i) (here : s.nodes[i]? = some node)
    (holds : node.Holds before) :
    Accounted i before (Outcome.state
      (Protocol.play visitor.noting protocol.forEachRemaining ⟨.numbered i, s⟩ (m, []))) := by
  cases holds with
  | indexed accepted reads =>
    obtain ⟨handed, fits, first⟩ := play_forEachRemaining spares reads here
    exact first.accounted accepted reads fits
  | singleton source =>
    rw [Protocol.play, forEachRemaining_singleton here]
    exact (offeredOnce_forEachRemaining _ source s.bench).accounted spares
      (Session.inside_of_node here)

/-- A visitor that leaves the source alone is handed what the source held, each element once and
none left out, and the source holds the rest. Splits share out what it holds, and it reports how
much that is. -/
theorem spared_accounts (spares : visitor.Spares i) (here : s.nodes[i]? = some node)
    (holds : node.Holds before) (m : τ) :
    Accounted i before
        (Outcome.state
          (Protocol.play visitor.noting protocol.tryAdvance ⟨.numbered i, s⟩ (m, []))) ∧
      Accounted i before (Outcome.state
        (Protocol.play visitor.noting protocol.forEachRemaining ⟨.numbered i, s⟩ (m, []))) ∧
      (Node.protocol.trySplit ⟨node, s.bench⟩ = .ok none ⟨node, s.bench⟩ ∨
        ∃ piece rest first second,
          Node.protocol.trySplit ⟨node, s.bench⟩ = .ok (some piece) ⟨rest, s.bench⟩ ∧
            piece.Holds first ∧ rest.Holds second ∧ before = first ++ second) ∧
      ∃ size : Number,
        Node.protocol.estimateSize ⟨node, s.bench⟩ = .ok (.number size) ⟨node, s.bench⟩ ∧
          size.same (.integer before.length) = true :=
  ⟨accounted_tryAdvance spares here holds, accounted_forEachRemaining spares here holds,
    holds.trySplit s.bench, holds.estimateSize s.bench⟩

/-- A visitor that makes a new source of each element that it is handed. -/
def budding : Visitor Session Unit Value :=
  .ofFunction fun a (s, m) => .ok () ((s.addNode (.singleton ⟨some a⟩)).2, m)

theorem budding_spares : budding.Spares 0 := by
  intro a s m inside
  show (s.nodes.push _)[0]? = s.nodes[0]?
  rw [Array.getElem?_push_lt inside, Array.getElem?_eq_getElem inside]

theorem spared_accounts_budding :
    let node : Node := .holding [.int 4, .int 5] .none none
    let s : Session := ⟨#[node], #[], .empty⟩
    budding.Spares 0 ∧ s.nodes[0]? = some node ∧ node.Holds [.int 4, .int 5] ∧
      Accounted 0 [.int 4, .int 5] (Outcome.state
        (Protocol.play budding.noting protocol.forEachRemaining ⟨.numbered 0, s⟩ ((), []))) := by
  have holds : (Node.holding [.int 4, .int 5] .none none).Holds [.int 4, .int 5] :=
    Node.holds_holding (by decide)
  exact ⟨budding_spares, rfl, holds, (spared_accounts budding_spares rfl holds ()).2.1⟩

end Place

namespace Session

def reentering (i : Nat) : Visit := .plan [(0, .tryAdvance i .log)] [] .null

def countingTo (limit : Nat) : Blueprint := .indexed .none (.int limit) .identity (some {})

def numbers (values : List Value) : List Number :=
  values.filterMap fun
    | .number n => some n
    | _ => none

/-- The numbers that a step handed over, those that the steps within it did, and the size that the
source then reported. -/
def StepResult.shown (r : StepResult) : List Number × List (List Number) × List Number :=
  (numbers (r.visited.getD []), r.nested.map fun inner => numbers (inner.visited.getD []),
    numbers (r.state.map SourceState.estimate).toList)

/-- Of three positions, the first is handed over twice, and the second never. Of one position, the
first is handed over twice, and the offset ends up past the limit. The element of a source of one
element is handed over twice as well. -/
theorem reentering_handed_twice :
    (runSteps .empty [
        .new (countingTo 3), .tryAdvance 0 (reentering 0), .forEachRemaining 0 .log,
        .new (countingTo 1), .tryAdvance 1 (reentering 1),
        .new (.singleton (.int 7)), .tryAdvance 2 (reentering 2)]).map StepResult.shown =
      [([], [], []), ([.integer 0], [[.integer 0]], [.integer 1]),
        ([.integer 2], [], [.integer 0]),
        ([], [], []), ([.integer 0], [[.integer 0]], [.integer (-1)]),
        ([], [], []), ([.integer 7], [[.integer 7]], [.integer 0])] := by
  decide +kernel

end Session
end SplitTraversal
