import SplitTraversal.Proofs.DeclaredTraits
import SplitTraversal.Proofs.Divisions

/-! What the record of a traced source shows of draining it by splits: one drain for each leaf of its
division, and one call for each split that was tried, those that the leaves refused among them. -/

namespace SplitTraversal

namespace Recorder

variable {σ ω τ α : Type}

def keeping (visit : α → Action (ω × τ) Unit) : α → Action (ω × (τ × Array α)) Unit := fun a s =>
  Outcome.mapState (fun t => (t.1, (t.2, s.2.2.push a))) (visit a (s.1, s.2.1))

def noted (r : Recorder ω α) :
    Outcome Thrown (Site σ ω × (τ × Array α)) Unit → Outcome Thrown (Site σ ω × τ) Unit
  | .ok _ t => .ok () (r.note (Trace.drained t.2.2) t.1, t.2.1)
  | .error e t => .error e (t.1, t.2.1)

theorem play_drain (r : Recorder ω α) (turn : Turn (Site σ ω) α Unit)
    (visit : α → Action (ω × τ) Unit) (m : τ) :
    (r.drain turn).play visit m = r.noted (turn.play (keeping visit) (m, #[])) := by
  suffices general : ∀ seen, (((turn.recorded seen).settling fun kept s =>
      r.note (Trace.drained kept.2) s).map fun _ => ()).play visit m =
        r.noted (turn.play (keeping visit) (m, seen)) from general #[]
  induction turn generalizing m with
  | done outcome =>
    intro seen
    cases outcome <;> rfl
  | offer s a resume ih =>
    intro seen
    simp only [Turn.recorded, Turn.settling, Turn.map, Turn.play, keeping]
    cases visit a (s.shared, m) <;> exact ih _ _ _

end Recorder

namespace Trace

variable {α : Type}

/-- The later record has these drains and so many calls more. -/
structure Extends (t : Trace α) (drains : List (Array α)) (calls : Nat) (t' : Trace α) : Prop where
  drains_eq : t'.drains = t.drains ++ drains
  splitCalls_eq : t'.splitCalls = t.splitCalls + calls

theorem extends_splitAsked (t : Trace α) : t.Extends [] 1 t.splitAsked where
  drains_eq := (List.append_nil _).symm
  splitCalls_eq := rfl

theorem extends_drained (t : Trace α) (seen : Array α) :
    t.Extends [seen] 0 (t.drained seen) where
  drains_eq := t.drains_drained seen
  splitCalls_eq := rfl

theorem Extends.trans {t u v : Trace α} {drains drains' : List (Array α)} {calls calls' : Nat}
    (first : t.Extends drains calls u) (next : u.Extends drains' calls' v) :
    t.Extends (drains ++ drains') (calls + calls') v where
  drains_eq := by rw [next.drains_eq, first.drains_eq, List.append_assoc]
  splitCalls_eq := by rw [next.splitCalls_eq, first.splitCalls_eq, Nat.add_assoc]

end Trace

/-- The record of this number, as it was and with so much more. -/
def Bench.Records (b : Bench) (trace : Nat) (drains : List (Array Value)) (calls : Nat)
    (b' : Bench) : Prop :=
  ∀ t, b.traces[trace]? = some t → ∃ t', b'.traces[trace]? = some t' ∧ t.Extends drains calls t'

namespace Bench.Records

variable {b c d : Bench} {trace : Nat}

theorem trans {drains drains' : List (Array Value)} {calls calls' : Nat}
    (first : b.Records trace drains calls c) (next : c.Records trace drains' calls' d) :
    b.Records trace (drains ++ drains') (calls + calls') d := by
  intro t here
  obtain ⟨u, there, more⟩ := first t here
  obtain ⟨v, last, further⟩ := next u there
  exact ⟨v, last, more.trans further⟩

theorem modify {f : Trace Value → Trace Value} {drains : List (Array Value)} {calls : Nat}
    (more : ∀ t : Trace Value, t.Extends drains calls (f t)) (b : Bench) :
    b.Records trace drains calls ((recorder trace).modify f b) := by
  intro t here
  refine ⟨f t, ?_, more t⟩
  simp only [recorder, Array.getElem?_modify, here, if_true, Option.map_some]

end Bench.Records

/-- Reading gives these elements, and leaves the record of this number alone. -/
def Indexed.ReadsBeside (trace : Nat) (f : Nat → Value) (s : Indexed Bench Value) : Prop :=
  ∀ i b, ∃ b', s.read i b = .ok (f i) b' ∧ b'.traces[trace]? = b.traces[trace]?

/-- Visits return, and leave the record of this number alone. -/
def VisitsBeside {τ : Type} (trace : Nat) (visit : Value → Action (Bench × τ) Unit) : Prop :=
  ∀ a b m, ∃ b' m', visit a (b, m) = .ok () (b', m') ∧ b'.traces[trace]? = b.traces[trace]?

section Recording

variable {τ : Type} {trace : Nat} {f : Nat → Value} {s : Indexed Bench Value}
  {visit : Value → Action (Bench × τ) Unit}

theorem visitFrom_keeping (reads : s.ReadsBeside trace f) (visits : VisitsBeside trace visit)
    (count i : Nat) (b : Bench) (m : τ) (seen : Array Value) :
    ∃ b' m', (visitFrom s.read (Recorder.keeping visit) count i (b, (m, seen))).ending =
        .ok () (b', (m', seen ++ ((List.range' i count).map f).toArray)) ∧
      b'.traces[trace]? = b.traces[trace]? := by
  induction count generalizing i b m seen with
  | zero =>
    refine ⟨b, m, ?_, rfl⟩
    simp only [visitFrom, Stretch.nothing, List.range'_zero, List.map_nil, Array.append_empty]
  | succ count ih =>
    obtain ⟨c, read, kept⟩ := reads i b
    obtain ⟨d, m', visited, kept'⟩ := visits (f i) c m
    have first : (visitAt s.read (Recorder.keeping visit) i (b, (m, seen))).ending =
        .ok () (d, (m', seen.push (f i))) := by
      simp only [visitAt, read, Recorder.keeping, visited, Outcome.mapState_ok]
    obtain ⟨b', m'', rest, kept''⟩ := ih (i + 1) d m' (seen.push (f i))
    refine ⟨b', m'', ?_, kept''.trans (kept'.trans kept)⟩
    rw [visitFrom, Stretch.andThen_ok first, rest, List.range'_succ, List.map_cons,
      ← List.singleton_append, ← List.append_toArray, ← Array.append_assoc, Array.push_eq_append]

namespace Node

theorem play_traced (n : Node) (b : Bench) (m : τ) :
    Protocol.play (.ofFunction visit) protocol.forEachRemaining ⟨.traced n trace, b⟩ m =
      Outcome.mapState (fun x => (⟨.traced x.1.own trace, x.1.shared⟩, x.2))
        ((Bench.recorder trace).noted (Protocol.play (.ofFunction (Recorder.keeping visit))
          protocol.forEachRemaining ⟨n, b⟩ (m, #[]))) := by
  have back (inner : Node) : inner? (.traced inner trace) = some inner := rfl
  have within := (part_transparent back n).play_within visit
    ((Bench.recorder trace).drain (forEachRemaining .callable n b)) ⟨.traced n trace, b⟩ m
  rw [Recorder.play_drain] at within
  exact within

theorem play_plain_drain (visitor : Visitor Bench τ Value) (callable : visitor.callee = .callable)
    (b : Bench) (m : τ) :
    Protocol.play visitor protocol.forEachRemaining ⟨plain s, b⟩ m =
      Outcome.mapState (fun x => (x.1.wrapped plain, x.2))
        (s.landed (visitFrom s.read visitor.visit (s.limit - s.offset) s.offset (b, m))) := by
  have inner := Indexed.play_forEachRemaining visitor callable s b m
  exact (play_flawless visitor (Indexed.forEachRemaining visitor.callee) ⟨s, b⟩ m).trans
    (congrArg _ inner)

theorem bulkDrain_traced (reads : s.ReadsBeside trace f) (visits : VisitsBeside trace visit)
    (b : Bench) (m : τ) :
    ∃ u, protocol.bulkDrain (.ofFunction visit) (⟨.traced (plain s) trace, b⟩, m) = .ok () u ∧
      b.Records trace [(s.remaining.map f).toArray] 0 u.1.shared := by
  obtain ⟨c, m', swept, kept⟩ :=
    visitFrom_keeping reads visits (s.limit - s.offset) s.offset b m #[]
  rw [Array.empty_append] at swept
  have drained := (play_plain_drain (.ofFunction (Recorder.keeping visit)) rfl b (m, #[])).trans
    (congrArg _ (Indexed.landed_ok swept))
  have ended := Protocol.bulkDrain_eq protocol (.ofFunction visit) ⟨.traced (plain s) trace, b⟩ m
  rw [play_traced, drained] at ended
  refine ⟨_, ended, ?_⟩
  intro t here
  exact Bench.Records.modify (Trace.extends_drained · _) c t (kept.trans here)

theorem trySplit_traced (n : Node) (trace : Nat) (b : Bench) :
    protocol.trySplit ⟨.traced n trace, b⟩ =
      match protocol.trySplit ⟨n, (Bench.recorder trace).modify Trace.splitAsked b⟩ with
      | .ok q t => .ok (q.map (.traced · trace)) ⟨.traced t.own trace, t.shared⟩
      | .error e t => .error e ⟨.traced t.own trace, t.shared⟩ := by
  simp only [protocol, trySplit, cut, Recorder.split, Recorder.note]
  cases trySplit n ((Bench.recorder trace).modify Trace.splitAsked b) <;> rfl

theorem trySplit_traced_plain (trace : Nat) (s : Indexed Bench Value) (b : Bench) :
    protocol.trySplit ⟨.traced (plain s) trace, b⟩ =
      .ok (s.split.1.map fun q => .traced (plain q) trace)
        ⟨.traced (plain s.split.2) trace, (Bench.recorder trace).modify Trace.splitAsked b⟩ := by
  rw [trySplit_traced]
  have inner := plain_embeds.trySplit ⟨s, (Bench.recorder trace).modify Trace.splitAsked b⟩
  simp only [Site.wrapped, Indexed.protocol, Indexed.trySplit] at inner
  simp only [inner, Option.map_map]
  rfl

/-- Drained by splits, a traced source has one drain recorded for each leaf of its division. Each
split that succeeded was tried, and once more at each leaf. -/
theorem maximumSplit_traced (visits : VisitsBeside trace visit) (s : Indexed Bench Value)
    (reads : s.ReadsBeside trace f) (b : Bench) (m : τ) {rounds : Nat}
    (enough : s.division.depth < rounds) :
    ∃ u, protocol.maximumSplit (.ofFunction visit) rounds (⟨.traced (plain s) trace, b⟩, m) =
        .ok () u ∧
      b.Records trace (s.division.leaves.map fun leaf => (leaf.remaining.map f).toArray)
        (2 * s.division.splits + 1) u.1.shared := by
  have asked (b : Bench) :
      b.Records trace [] 1 ((Bench.recorder trace).modify Trace.splitAsked b) :=
    .modify Trace.extends_splitAsked b
  fun_induction Indexed.division s generalizing b m rounds with
  | case1 s few =>
    obtain ⟨rounds, rfl⟩ : ∃ n, rounds = n + 1 := ⟨rounds - 1, by omega⟩
    have cut := trySplit_traced_plain trace s b
    rw [Indexed.split_few few] at cut
    obtain ⟨u, drained, recorded⟩ := bulkDrain_traced reads visits
      ((Bench.recorder trace).modify Trace.splitAsked b) m
    refine ⟨u, ?_, (asked b).trans recorded⟩
    rw [Protocol.maximumSplit_none cut]
    exact drained
  | case2 s several ihPiece ihRest =>
    rw [Division.depth] at enough
    obtain ⟨rounds, rfl⟩ : ∃ n, rounds = n + 1 := ⟨rounds - 1, by omega⟩
    have cut := trySplit_traced_plain trace s b
    obtain ⟨_, _, halved⟩ := Indexed.split_middle (Nat.le_of_not_lt several)
    rw [halved] at cut
    obtain ⟨u, first, piece⟩ := ihPiece reads ((Bench.recorder trace).modify Trace.splitAsked b) m
      (show _ < rounds by omega)
    obtain ⟨v, next, rest⟩ := ihRest reads u.1.shared u.2 (show _ < rounds by omega)
    refine ⟨v, ?_, ?_⟩
    · rw [Protocol.maximumSplit_some cut, first]
      exact next
    · rw [Division.leaves, Division.splits, List.map_append]
      have count (a b : Nat) : 2 * (a + b + 1) + 1 = 1 + (2 * a + 1 + (2 * b + 1)) := by omega
      rw [count]
      exact (asked b).trans (piece.trans rest)

end Node
end Recording

namespace Indexed

/-- Splitting a source with `n` positions to exhaustion makes `n` leaves of one position each, in
their order, by `n - 1` splits and no deeper than `n` can be halved. A record kept of draining it by
splits shows just that. -/
theorem exhausts_singly (s : Indexed Bench Value) :
    (∀ w d w', protocol.Exhausts ⟨s, w⟩ d w' ↔ d = s.division ∧ w' = w) ∧
    (0 < s.size → s.division.leaves = s.remaining.map s.single ∧
      s.division.leaves.length = s.size ∧ s.division.splits = s.size - 1 ∧
      s.division.depth ≤ Nat.clog 2 s.size) ∧
    ∀ {τ : Type} {trace : Nat} {f : Nat → Value} {visit : Value → Action (Bench × τ) Unit},
      s.ReadsBeside trace f → VisitsBeside trace visit →
      ∀ (b : Bench) (m : τ) (t : Trace Value), b.traces[trace]? = some t →
      ∀ rounds, Nat.clog 2 s.size < rounds →
        ∃ u t', Node.protocol.decompose rounds .maximumSplit (.ofFunction visit)
            (⟨.traced (Node.plain s) trace, b⟩, m) = .ok () u ∧
          u.1.shared.traces[trace]? = some t' ∧
          (0 < s.size → t.Extends (s.remaining.map fun i => #[f i]) (2 * s.size - 1) t') ∧
          (s.size = 0 → t.Extends [#[]] 1 t') := by
  refine ⟨fun w d w' => ⟨(exhausts_division s w).unique, ?_⟩, fun some => ?_, ?_⟩
  · rintro ⟨rfl, rfl⟩
    exact exhausts_division s w'
  · have leaves := leaves_division some
    refine ⟨leaves, ?_, splits_division s, depth_division s⟩
    rw [leaves, List.length_map, remaining, List.length_range', size]
  · intro τ trace f visit reads visits b m t here rounds enough
    obtain ⟨u, drained, recorded⟩ := Node.maximumSplit_traced visits s reads b m
      (Nat.lt_of_le_of_lt (depth_division s) enough)
    obtain ⟨t', there, more⟩ := recorded t here
    refine ⟨u, t', drained, there, fun some => ?_, fun none => ?_⟩
    · have count : 2 * s.division.splits + 1 = 2 * s.size - 1 := by
        rw [splits_division]
        omega
      have singles (i : Nat) : ((s.single i).remaining.map f).toArray = #[f i] := by
        rw [remaining, single, Nat.add_sub_cancel_left, List.range'_one, List.map_singleton]
      simpa only [count, leaves_division some, List.map_map, Function.comp_def, singles] using more
    · have whole : s.division = .leaf s := by
        rw [division, if_pos (by omega)]
      have nothing : s.remaining = [] := by
        rw [remaining, ← size, none, List.range'_zero]
      simpa only [whole, Division.leaves, Division.splits, List.map_singleton, nothing,
        List.map_nil] using more

def fiveSquares : Indexed Bench Value :=
  ⟨fun i b => .ok (.int (i * i)) b, 0, 5, .none, none, false⟩

theorem exhausts_singly_squares :
    let visit : Value → Action (Bench × Nat) Unit := fun _ (b, seen) => .ok () (b, seen + 1)
    fiveSquares.ReadsBeside 0 (fun i => .int (i * i)) ∧ VisitsBeside 0 visit ∧
      ∃ u t', Node.protocol.decompose 4 .maximumSplit (.ofFunction visit)
          (⟨.traced (Node.plain fiveSquares) 0, ⟨#[.empty], #[], #[]⟩⟩, 0) = .ok () u ∧
        u.1.shared.traces[0]? = some t' ∧
        t'.drains = [#[.int 0], #[.int 1], #[.int 4], #[.int 9], #[.int 16]] ∧
        t'.splitCalls = 9 := by
  intro visit
  have reads : fiveSquares.ReadsBeside 0 (fun i => .int (i * i)) := fun i b => ⟨b, rfl, rfl⟩
  have visits : VisitsBeside 0 visit := fun a b m => ⟨b, m + 1, rfl, rfl⟩
  obtain ⟨u, t', drained, there, more, _⟩ := (exhausts_singly fiveSquares).2.2 reads visits
    ⟨#[.empty], #[], #[]⟩ 0 .empty rfl 4 (by decide)
  obtain ⟨drains, calls⟩ := more (by decide)
  exact ⟨reads, visits, u, t', drained, there, drains, calls⟩

end Indexed
end SplitTraversal
