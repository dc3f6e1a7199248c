import SplitTraversal.Proofs.ListSources
import SplitTraversal.Session.Step

/-! Numbered sources of a session. What an operation of such a source does with its visitor is what
the source of its kind does, seen through the session: the visitor finds the source there as it was
when the element was handed over, and the operation goes on from what the visitor left there. -/

namespace SplitTraversal

namespace Focus

variable {S T U : Type}

def into (f : Focus S T) (g : Focus T U) : Focus S U :=
  ⟨fun s => g.get (f.get s), fun u s => f.put (g.put u (f.get s)) s⟩

end Focus

theorem Turn.within_within {S T U α ρ : Type} (f : Focus S T) (g : Focus T U)
    (t : Turn U α ρ) (s : S) : (t.within g (f.get s)).within f s = t.within (f.into g) s := by
  induction t generalizing s with
  | done outcome => cases outcome <;> rfl
  | offer u a resume ih =>
    simp only [Turn.within]
    congr 1
    funext outcome
    rw [Outcome.state_mapState, ih, Outcome.mapState_mapState]
    rfl

namespace Indexed

variable {ω α ρ : Type}

/-- Read and visit the position at the offset, and go on past it. -/
def offerNext (next : Site (Indexed ω α) ω → Turn (Site (Indexed ω α) ω) α ρ)
    (s : Site (Indexed ω α) ω) : Turn (Site (Indexed ω α) ω) α ρ :=
  match s.own.read s.own.offset s.shared with
  | .error e w => .threw e ⟨s.own.advanced, w⟩
  | .ok a w => .offer ⟨s.own, w⟩ a fun outcome =>
    match settle outcome with
    | .ok _ s => next s
    | .error e s => .threw e s

variable {s : Indexed ω α} {w : ω}

theorem tryAdvance_more (more : s.offset < s.limit) :
    tryAdvance .callable ⟨s, w⟩ = offerNext (.returned true) ⟨s, w⟩ :=
  if_neg (Nat.not_le_of_lt more)

theorem tryAdvance_none (none : s.limit ≤ s.offset) :
    tryAdvance .callable ⟨s, w⟩ = .returned false ⟨s, w⟩ :=
  if_pos none

theorem drain_more (more : s.offset < s.limit) (count : Nat) :
    drain (count + 1) ⟨s, w⟩ = offerNext (drain count) ⟨s, w⟩ :=
  if_neg (Nat.not_le_of_lt more)

end Indexed

namespace Session

def seating (s : Session) (i : Nat) (node : Node) (b : Bench) : Session :=
  { s with nodes := s.nodes.setIfInBounds i node, bench := b }

variable {s : Session} {i : Nat}

theorem seating_node (inside : i < s.nodes.size) (node : Node) (b : Bench) :
    (s.seating i node b).nodes[i]? = some node := by
  simp [seating, inside]

theorem inside_of_node {node : Node} (here : s.nodes[i]? = some node) : i < s.nodes.size :=
  (Array.getElem?_eq_some_iff.mp here).1

end Session

namespace Place

variable {κ ρ : Type} {i : Nat} {s : Session}

/-- The source of one kind that a session holds under a number. -/
def cell (i : Nat) (wrap : κ → Node) (unwrap : Node → Option κ) (own : κ) :
    Focus (Site Place Session) (Site κ Bench) :=
  (focus (.numbered i)).into (Node.part wrap unwrap own)

def seat (i : Nat) (source : Indexed Bench Value) :
    Focus (Site Place Session) (Site (Indexed Bench Value) Bench) :=
  (cell i .indexed Node.indexed? ⟨source, .none⟩).into (Flawed.focus .none)

theorem cell_put {wrap : κ → Node} {unwrap : Node → Option κ} {own : κ} (t : Site κ Bench)
    (place : Place) :
    (cell i wrap unwrap own).put t ⟨place, s⟩ = ⟨place, s.seating i (wrap t.own) t.shared⟩ := rfl

theorem seat_put {source : Indexed Bench Value} (t : Site (Indexed Bench Value) Bench)
    (place : Place) :
    (seat i source).put t ⟨place, s⟩ = ⟨place, s.seating i (Node.plain t.own) t.shared⟩ := rfl

theorem focus_get {node : Node} (here : s.nodes[i]? = some node) (place : Place) :
    (focus (.numbered i)).get ⟨place, s⟩ = ⟨node, s.bench⟩ := by
  simp only [focus, Session.source, Session.node, here, Option.getD_some]

theorem cell_get {wrap : κ → Node} {unwrap : Node → Option κ} (back : ∀ k, unwrap (wrap k) = some k)
    {own current : κ} (here : s.nodes[i]? = some (wrap current)) (place : Place) :
    (cell i wrap unwrap own).get ⟨place, s⟩ = ⟨current, s.bench⟩ := by
  simp only [cell, Focus.into, focus_get here, Node.part, back, Option.getD_some]

theorem seat_get {source current : Indexed Bench Value}
    (here : s.nodes[i]? = some (Node.plain current)) (place : Place) :
    (seat i source).get ⟨place, s⟩ = ⟨current, s.bench⟩ := by
  have flawless : (cell i .indexed Node.indexed? ⟨source, .none⟩).get ⟨place, s⟩ =
      ⟨⟨current, .none⟩, s.bench⟩ := cell_get Node.indexed?_indexed here place
  exact congrArg (Flawed.focus .none).get flawless

theorem turn_part {wrap : κ → Node} {unwrap : Node → Option κ} {own : κ}
    (here : s.nodes[i]? = some (wrap own)) (inner : Site κ Bench → Turn (Site κ Bench) Value ρ)
    {operation : Site Node Bench → Turn (Site Node Bench) Value ρ}
    (same : operation ⟨wrap own, s.bench⟩ = Node.turn wrap unwrap own s.bench inner) :
    turn operation ⟨.numbered i, s⟩ =
      (inner ⟨own, s.bench⟩).within (cell i wrap unwrap own) ⟨.numbered i, s⟩ := by
  have there := focus_get here (.numbered i)
  have unwrapped := Turn.within_within (focus (.numbered i)) (Node.part wrap unwrap own)
    (inner ⟨own, s.bench⟩) ⟨.numbered i, s⟩
  rw [turn, there, same]
  rw [there] at unwrapped
  exact unwrapped

theorem turn_plain {source : Indexed Bench Value} (here : s.nodes[i]? = some (Node.plain source))
    (inner : Site (Indexed Bench Value) Bench → Turn (Site (Indexed Bench Value) Bench) Value ρ)
    {operation : Site Node Bench → Turn (Site Node Bench) Value ρ}
    (same : operation ⟨Node.plain source, s.bench⟩ =
      Node.turn .indexed Node.indexed? ⟨source, .none⟩ s.bench fun s =>
        (inner ⟨s.own.source, s.shared⟩).within (Flawed.focus s.own.flaw) s) :
    turn operation ⟨.numbered i, s⟩ =
      (inner ⟨source, s.bench⟩).within (seat i source) ⟨.numbered i, s⟩ := by
  let outer := cell i .indexed Node.indexed? (⟨source, .none⟩ : Flawed Bench Value)
  have there : outer.get ⟨.numbered i, s⟩ = ⟨⟨source, .none⟩, s.bench⟩ :=
    cell_get Node.indexed?_indexed here (.numbered i)
  have flawless : s.nodes[i]? = some (.indexed ⟨source, .none⟩) := here
  have unflawed := Turn.within_within outer (Flawed.focus .none) (inner ⟨source, s.bench⟩)
    ⟨.numbered i, s⟩
  rw [turn_part flawless _ same]
  rw [there] at unflawed
  exact unflawed

theorem tryAdvance_plain {source : Indexed Bench Value}
    (here : s.nodes[i]? = some (Node.plain source)) (callee : Callee) :
    protocol.tryAdvance callee ⟨.numbered i, s⟩ =
      (Indexed.tryAdvance callee ⟨source, s.bench⟩).within (seat i source) ⟨.numbered i, s⟩ :=
  turn_plain here (Indexed.tryAdvance callee) rfl

theorem forEachRemaining_plain {source : Indexed Bench Value}
    (here : s.nodes[i]? = some (Node.plain source)) (callee : Callee) :
    protocol.forEachRemaining callee ⟨.numbered i, s⟩ =
      (Indexed.forEachRemaining callee ⟨source, s.bench⟩).within (seat i source)
        ⟨.numbered i, s⟩ :=
  turn_plain here (Indexed.forEachRemaining callee) rfl

theorem tryAdvance_singleton {source : Singleton Value}
    (here : s.nodes[i]? = some (.singleton source)) (callee : Callee) :
    protocol.tryAdvance callee ⟨.numbered i, s⟩ =
      (Singleton.tryAdvance callee ⟨source, s.bench⟩).within
        (cell i .singleton Node.singleton? source) ⟨.numbered i, s⟩ :=
  turn_part here (Singleton.tryAdvance callee) rfl

theorem forEachRemaining_singleton {source : Singleton Value}
    (here : s.nodes[i]? = some (.singleton source)) (callee : Callee) :
    protocol.forEachRemaining callee ⟨.numbered i, s⟩ =
      (Singleton.forEachRemaining callee ⟨source, s.bench⟩).within
        (cell i .singleton Node.singleton? source) ⟨.numbered i, s⟩ :=
  turn_part here (Singleton.forEachRemaining callee) rfl

end Place

namespace Node

/-- What a source holds: the elements at the positions that remain, or the one element that has not
been visited yet. -/
inductive Holds : Node → List Value → Prop
  | indexed {source : Indexed Bench Value} {f : Nat → Value} (accepted : source.Accepted)
      (reads : source.Reads f) : Holds (plain source) (source.remaining.map f)
  | singleton (source : Singleton Value) : Holds (.singleton source) source.held.toList

variable {node : Node} {elements : List Value}

theorem holds_holding {flags : Characteristics} {order : Option (Comparator Value)}
    (small : elements.length ≤ Number.maxSafe) : (holding elements flags order).Holds elements := by
  let source : Indexed Bench Value := .holding elements flags order
  have obeys : (Indexed.view (Indexed.elementAt elements)).obeys source :=
    Indexed.holding_obeys small
  have remaining : source.remaining.map (Indexed.elementAt elements) = elements :=
    Indexed.holding_remaining
  have holds := Holds.indexed obeys.1 obeys.2
  rwa [remaining] at holds

theorem Holds.trySplit (holds : Holds node elements) (b : Bench) :
    Node.protocol.trySplit ⟨node, b⟩ = .ok none ⟨node, b⟩ ∨
      ∃ piece rest first second, Node.protocol.trySplit ⟨node, b⟩ = .ok (some piece) ⟨rest, b⟩ ∧
        Holds piece first ∧ Holds rest second ∧ elements = first ++ second := by
  cases holds with
  | singleton source => exact .inl rfl
  | @indexed source f accepted reads =>
    have cut := plain_embeds.trySplit ⟨source, b⟩
    rcases Indexed.trySplit_cases source b with stayed | ⟨mid, after, before, made⟩
    · rw [stayed] at cut
      exact .inl cut
    · rw [made] at cut
      refine .inr ⟨_, _, _, _, cut, .indexed (accepted.piece after before) reads,
        .indexed (accepted.rest (Nat.le_of_lt before)) reads, ?_⟩
      rw [Indexed.remaining_split after before, List.map_append]

theorem Holds.estimateSize (holds : Holds node elements) (b : Bench) :
    ∃ size : Number, Node.protocol.estimateSize ⟨node, b⟩ = .ok (.number size) ⟨node, b⟩ ∧
      size.same (.integer elements.length) = true := by
  cases holds with
  | singleton source =>
    refine ⟨_, rfl, ?_⟩
    cases held : source.held <;> simp [Singleton.estimate, held, Number.same]
  | indexed accepted reads => exact ⟨_, rfl, Indexed.estimate_same accepted⟩

end Node
end SplitTraversal
