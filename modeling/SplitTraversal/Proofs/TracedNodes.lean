import SplitTraversal.Proofs.Reentrance
import SplitTraversal.Proofs.TracedRuns
import SplitTraversal.Proofs.UnawareNodes

/-! Nodes that are traced. A run on such a node is the run on the node in it, with its record beside
what is shared, so that tracing changes nothing else. -/

namespace SplitTraversal

open Turn

variable {τ ρ ρ' ε : Type}

def Site.tracedIn (k : Nat) : Site Node (Bench × Trace Value) → Site Node Bench :=
  Site.read (.traced · k) fun x => x.1.withRecord k x.2

def Pairing.tracedNode (k : Nat) : Pairing Node (Bench × Trace Value) τ Node Bench τ :=
  reading (.traced · k) (fun x => x.1.withRecord k x.2) (Node.Unaware k)

theorem Pairing.tracedNode_tracks {k : Nat} {answer : ρ' → ρ → Prop}
    {act' : EStateM ε (Site Node (Bench × Trace Value) × τ) ρ'}
    {act : EStateM ε (Site Node Bench × τ) ρ}
    (ends : ∀ n : Node, n.Unaware k → ∀ b t m, (tracedNode k).Ends answer
      (act' (Site.having ⟨n, b⟩ t, m)) (act (⟨.traced n k, b.withRecord k t⟩, m))) :
    (tracedNode k).Tracks answer act' act :=
  reading_tracks fun s unaware m => ends s.own unaware s.shared.1 s.shared.2 m

namespace Node

variable {k : Nat} {visit : Value → Action (Bench × τ) Unit}

theorem keeping_oblivious {t : Trace Value} (oblivious : Oblivious (Bench.withRecord k t) visit) :
    Oblivious (Bench.withRecord k t) (Recorder.keeping visit) := by
  intro a b m
  simp only [Recorder.keeping, oblivious a b m.1, Outcome.mapState_mapState]

theorem tryAdvance_tracks (oblivious : ∀ t, Oblivious (Bench.withRecord k t) visit) :
    (Pairing.tracedNode k).Tracks Eq
      (Protocol.playing (besideVisit visit) protocol.tracing.tryAdvance)
      (Protocol.playing visit protocol.tryAdvance) := by
  apply Pairing.tracedNode_tracks
  intro n unaware b t m
  obtain ⟨same, left⟩ := (tryAdvance_shifts .callable unaware t b).play (oblivious t) m
  have back (inner : Node) : inner? (.traced inner k) = some inner := rfl
  have within := (part_transparent back n).play_within visit
    (tryAdvance .callable n (b.withRecord k t)) ⟨.traced n k, b.withRecord k t⟩ m
  have traced : Protocol.playing visit protocol.tryAdvance
      (⟨.traced n k, b.withRecord k t⟩, m) = _ := within.trans (congrArg _ same)
  rw [traced, protocol.tryAdvance_tracing]
  simp only [Protocol.playing, Protocol.play, protocol, Visitor.ofFunction]
  generalize (tryAdvance .callable n b).play visit m = o at left ⊢
  cases o with
  | ok a x => exact .ok rfl ⟨left, rfl⟩ ⟨rfl, rfl⟩
  | error e x => exact .error e ⟨left, rfl⟩ ⟨rfl, rfl⟩

theorem forEachRemaining_tracks (oblivious : ∀ t, Oblivious (Bench.withRecord k t) visit) :
    (Pairing.tracedNode k).Tracks Eq
      (Protocol.playing (besideVisit visit) protocol.tracing.forEachRemaining)
      (Protocol.playing visit protocol.forEachRemaining) := by
  apply Pairing.tracedNode_tracks
  intro n unaware b t m
  -- The node in it is drained by a visitor that also keeps what it is handed.
  have shifts := forEachRemaining_shifts .callable unaware t b
  obtain ⟨same, -⟩ := shifts.play (keeping_oblivious (oblivious t)) (m, #[])
  obtain ⟨-, left⟩ := shifts.play (oblivious t) m
  obtain ⟨handed, kept, beside, -⟩ := protocol.forEachRemaining_tracing visit ⟨n, b⟩ m t
  have drained : Protocol.play (.ofFunction (Recorder.keeping visit)) protocol.forEachRemaining
      ⟨n, b.withRecord k t⟩ (m, #[]) = _ := same.trans (congrArg _ kept)
  have traced : Protocol.playing visit protocol.forEachRemaining
      (⟨.traced n k, b.withRecord k t⟩, m) = _ := play_traced n (b.withRecord k t) m
  rw [drained] at traced
  rw [traced, beside]
  generalize played : Protocol.playing visit protocol.forEachRemaining (⟨n, b⟩, m) = o
  have left : (Outcome.state o).1.own.Unaware k := played ▸ left
  cases o with
  | ok _ x =>
    have noted := Bench.modify_withRecord k (Trace.drained handed.toArray) t x.1.shared
    exact .ok rfl ⟨left, rfl⟩ ⟨noted.symm, rfl⟩
  | error e x => exact .error e ⟨left, rfl⟩ ⟨rfl, rfl⟩

theorem trySplit_tracks : (Pairing.tracedNode k : Pairing _ _ τ _ _ _).Tracks
    (Option.Rel (Pairing.tracedNode k : Pairing _ _ τ _ _ _).own)
    (quietly protocol.tracing.trySplit) (quietly protocol.trySplit) := by
  apply Pairing.tracedNode_tracks
  intro n unaware b t m
  -- The split has been counted when the node in it is asked for one.
  obtain ⟨same, left, pieces⟩ := trySplit_shifts unaware t.splitAsked b
  have inner : protocol.trySplit ⟨n, b.withRecord k t.splitAsked⟩ = _ := same
  have traced := trySplit_traced n k (b.withRecord k t)
  rw [Bench.modify_withRecord, inner] at traced
  rw [quietly_having (protocol.trySplit_tracing ⟨n, b⟩ t) m]
  simp only [quietly, traced]
  generalize cut : trySplit n b = o
  have plain : protocol.trySplit ⟨n, b⟩ = o := cut
  have left : (Outcome.state o).own.Unaware k := cut ▸ left
  rw [plain]
  cases o with
  | error e u => exact .error e ⟨left, rfl⟩ ⟨rfl, rfl⟩
  | ok found u =>
    refine .ok ?_ ⟨left, rfl⟩ ⟨rfl, rfl⟩
    cases found with
    | none => exact .none
    | some q => exact .some ⟨pieces _ _ cut q rfl, rfl⟩

theorem estimateSize_tracks : (Pairing.tracedNode k : Pairing _ _ τ _ _ _).Tracks Eq
    (quietly protocol.tracing.estimateSize) (quietly protocol.estimateSize) := by
  apply Pairing.tracedNode_tracks
  intro n unaware b t m
  obtain ⟨same, left, -⟩ := estimateSize_shifts unaware t b
  rw [quietly_having (protocol.estimateSize_tracing ⟨n, b⟩ t) m]
  simp only [quietly, protocol, estimateSize, same]
  generalize estimateSize n b = o at left ⊢
  cases o with
  | ok size u => exact .ok rfl ⟨left, rfl⟩ ⟨rfl, rfl⟩
  | error e u => exact .error e ⟨left, rfl⟩ ⟨rfl, rfl⟩

theorem hasCharacteristics_tracks (flags : Characteristics) :
    (Pairing.tracedNode k : Pairing _ _ τ _ _ _).Tracks Eq
      (quietly (protocol.tracing.hasCharacteristics flags))
      (quietly (protocol.hasCharacteristics flags)) := by
  apply Pairing.tracedNode_tracks
  intro n unaware b t m
  obtain ⟨same, left, -⟩ := characteristics_shifts unaware t b
  rw [quietly_having (protocol.hasCharacteristics_tracing ⟨n, b⟩ t flags) m]
  simp only [quietly, protocol, Source.hasFlags, characteristics, same]
  generalize characteristics n b = o at left ⊢
  cases o with
  | error e u => exact .error e ⟨left, rfl⟩ ⟨rfl, rfl⟩
  | ok declared u =>
    simp only [Outcome.mapState_ok]
    cases Characteristics.ofValue declared with
    | ok set => exact .ok rfl ⟨left, rfl⟩ ⟨rfl, rfl⟩
    | error e => exact .error e ⟨left, rfl⟩ ⟨rfl, rfl⟩

theorem tracing_follows (oblivious : ∀ t, Oblivious (Bench.withRecord k t) visit) :
    protocol.tracing.Follows protocol (besideVisit visit) visit (.tracedNode k) where
  forEachRemaining := forEachRemaining_tracks oblivious
  trySplit := trySplit_tracks
  estimateSize := estimateSize_tracks

/-- A run on nodes that are traced in the record of this number is the run on the nodes in them,
with the record kept beside what is shared. What is cut off is traced in the same record. -/
structure RunsTraced (k : Nat) : Prop where
  decompose {τ : Type} {visit : Value → Action (Bench × τ) Unit}
      (oblivious : ∀ t, Oblivious (Bench.withRecord k t) visit) (rounds : Nat)
      (strategy : Strategy) {n : Node} (unaware : n.Unaware k) (b : Bench) (m : τ)
      (t : Trace Value) :
    protocol.decompose rounds strategy (.ofFunction visit)
        (⟨.traced n k, b.withRecord k t⟩, m) =
      Outcome.mapState (fun x => (x.1.tracedIn k, x.2))
        (protocol.tracing.decompose rounds strategy (.ofFunction (besideVisit visit))
          (Site.having ⟨n, b⟩ t, m))
  collect (rounds : Nat) (strategy : Strategy) {n : Node} (unaware : n.Unaware k) (b : Bench)
      (t : Trace Value) :
    protocol.collect rounds strategy ⟨.traced n k, b.withRecord k t⟩ =
      Outcome.mapState (Site.tracedIn k)
        (protocol.tracing.collect rounds strategy (Site.having ⟨n, b⟩ t))
  traverse (rounds : Nat) (strategy : Strategy) {n : Node} (unaware : n.Unaware k) (b : Bench)
      (t : Trace Value) :
    protocol.traverse rounds strategy ⟨.traced n k, b.withRecord k t⟩ =
      Outcome.mapState (Site.tracedIn k)
        (protocol.tracing.traverse rounds strategy (Site.having ⟨n, b⟩ t))
  partition (settings : Partitioner) {n : Node} (unaware : n.Unaware k) (b : Bench)
      (t : Trace Value) :
    settings.partition protocol ⟨.traced n k, b.withRecord k t⟩ =
      match settings.partition protocol.tracing (Site.having ⟨n, b⟩ t) with
      | .ok leaves u => .ok (leaves.map (.map (.traced · k))) (u.tracedIn k)
      | .error e u => .error e (u.tracedIn k)

theorem runsTraced (k : Nat) : RunsTraced k where
  decompose oblivious rounds strategy n unaware b m t :=
    (Pairing.reading_eq (Pairing.decompose (tracing_follows oblivious) rounds strategy
      (fun _ => tryAdvance_tracks oblivious) (Site.having ⟨n, b⟩ t, m)
      (⟨.traced n k, b.withRecord k t⟩, m) ⟨unaware, rfl⟩ ⟨rfl, rfl⟩)).symm
  collect rounds strategy n unaware b t :=
    ((Pairing.reading_collects.collect (tracing_follows fun _ => collecting_oblivious) rounds
      strategy fun _ => tryAdvance_tracks fun _ => collecting_oblivious).reading_eq
        (Site.having ⟨n, b⟩ t) unaware).symm
  traverse rounds strategy n unaware b t :=
    ((Pairing.reading_collects.traverse (tracing_follows fun _ => collecting_oblivious)
      (hasCharacteristics_tracks _) rounds strategy fun _ =>
        tryAdvance_tracks fun _ => collecting_oblivious).reading_eq
        (Site.having ⟨n, b⟩ t) unaware).symm
  partition settings n unaware b t := by
    have oblivious (t : Trace Value) : Oblivious (Bench.withRecord k t)
        fun (_ : Value) (x : Bench × Unit) => .ok () x := fun _ _ _ => rfl
    have tracks := Pairing.partition (tracing_follows oblivious) settings
    rcases (tracks (Site.having ⟨n, b⟩ t, ()) (⟨.traced n k, b.withRecord k t⟩, ())
      ⟨unaware, rfl⟩ ⟨rfl, rfl⟩).quiet_cases with
      ⟨leaves', leaves, u', ⟨own, w⟩, cut', cut, matching, ⟨-, rfl⟩, ⟨rfl, -⟩⟩ |
      ⟨e, u', ⟨own, w⟩, cut', cut, ⟨-, rfl⟩, ⟨rfl, -⟩⟩
    · rw [cut', cut, Pairing.eq_map_of_reading matching]
      rfl
    · rw [cut', cut]
      rfl

end Node

/-- Tracing is transparent, whatever the sources do. Runs on traced sources are the runs on the
sources without the record. That goes for the states in which they leave all their sources as well:
it also holds where an onlooker notes these down. The record itself is accounted for by what another
onlooker sees, who counts the requests. All this is so of nodes that are traced in a record they are
unaware of, and wherever a traced node is built, it is traced in such a record. -/
theorem tracing_transparent :
    (∀ {σ ω α : Type} (p : Protocol σ ω α),
      p.tracing.RunsBeside p ∧ p.tracing.attended.RunsBeside p.tracing ∧ p.Accounted ∧
      p.noting.RunsBeside p ∧ p.noting.tracing.RunsBeside p.noting ∧
      p.tracing.Derives ∧ (p.Derives → p.noting.Derives)) ∧
    (∀ k, Node.RunsTraced k) ∧
    ∀ (inner : Blueprint) (b b' : Bench) (n' : Node),
      (Blueprint.traced inner).build b = .ok n' b' → ∃ n k c, inner.build b = .ok n c ∧
        n' = .traced n k ∧ n.Unaware k ∧ b'.withRecord k .empty = b' ∧
        b'.traces[k]? = some .empty := by
  refine ⟨fun p => ?_, Node.runsTraced, fun inner b b' n' => Blueprint.build_traced⟩
  exact ⟨p.tracing_beside.runs, p.tracing.attended_beside.runs, p.accounted, p.noting_beside.runs,
    p.noting.tracing_beside.runs, p.tracing_derives, Protocol.Derives.noting⟩

/-- A sized source of four elements that splits in halves and claims to hold none. -/
def claimingNone : Scripted :=
  .create ⟨#[.int 1, .int 2, .int 3, .int 4], [], .undefined, .half, 0, .constant (.int 0),
    Overlapping.flags.toValue, none, .refuse⟩ 0

def tiring : Value → Action (Bench × Nat) Unit := fun _ x =>
  if x.2 = 2 then .error .null x else .ok () (x.1, x.2 + 1)

theorem tracing_transparent_claimingNone :
    ∃ b, (Blueprint.traced (.scripted claimingNone.plan 0)).build .empty =
        .ok (.traced (.scripted claimingNone) 0) b ∧
      (∃ o, Node.protocol.decompose 4 .maximumSplit (.ofFunction tiring)
          (⟨.traced (.scripted claimingNone) 0, b⟩, 0) =
            Outcome.mapState (fun x => (x.1.tracedIn 0, x.2)) o ∧
        Outcome.forgetting o =
          .error (.threw .null) (⟨.scripted { claimingNone with position := 3 }, b⟩, 2)) ∧
      (∃ o, Node.protocol.traverse 4 .maximumSplit ⟨.traced (.scripted claimingNone) 0, b⟩ =
          Outcome.mapState (Site.tracedIn 0) o ∧
        Outcome.mapState Protocol.beside.get o = .ok (.stalled ⟨.notShrinking, .int 0, .int 0, 1⟩)
          ⟨.scripted { claimingNone with position := 2 }, b⟩) ∧
      ∃ u, Node.protocol.tracing.attended.collect 4 .maximumSplit
          ((Site.having ⟨.scripted claimingNone, b⟩ .empty).having ⟨0, 0⟩) =
            .ok [.int 1, .int 2, .int 3, .int 4] u ∧
        Trace.empty.Tells [.int 1, .int 2, .int 3, .int 4] u := by
  obtain ⟨runs, -, accounted, -⟩ := tracing_transparent.1 Node.protocol
  have nodes := tracing_transparent.2.1 0
  obtain ⟨n, k, c, -, same, unaware, -⟩ :=
    tracing_transparent.2.2 (.scripted claimingNone.plan 0) .empty _ _ rfl
  cases same
  have oblivious (t : Trace Value) : Turn.Oblivious (Bench.withRecord 0 t) tiring := by
    intro a w m
    simp only [tiring]
    split <;> rfl
  have decomposed := nodes.decompose oblivious 4 .maximumSplit unaware Bench.empty.newTrace.2 0
    .empty
  have traversed := nodes.traverse 4 .maximumSplit unaware Bench.empty.newTrace.2 .empty
  obtain ⟨u, collected⟩ : ∃ u, Node.protocol.tracing.attended.collect 4 .maximumSplit
      ((Site.having ⟨.scripted claimingNone, Bench.empty.newTrace.2⟩ .empty).having ⟨0, 0⟩) =
        .ok [.int 1, .int 2, .int 3, .int 4] u := ⟨_, rfl⟩
  have whole : Strategy.maximumSplit ≠ .stepAdvance := by decide
  refine ⟨_, rfl, ⟨_, decomposed, ?_⟩, ⟨_, traversed, ?_⟩, ?_⟩
  · exact runs.decompose tiring 4 .maximumSplit ⟨.scripted claimingNone, _⟩ 0 .empty
  · exact runs.traverse rfl 4 .maximumSplit ⟨.scripted claimingNone, _⟩ .empty
  · exact ⟨u, collected, accounted.collect_tells 4 whole _ .empty collected⟩

/-- Sources that declare a size and deny it when they are asked. One that is still whole splits, and
says the same size afterwards. -/
def denying : Protocol Bool Unit Nat where
  tryAdvance := fun _ s => .returned false s
  forEachRemaining := fun _ s => .returned () s
  trySplit := fun s => .ok (if s.own then some false else none) { s with own := false }
  estimateSize := fun s => .ok (.int 1) s
  exactSizeIfKnown := fun s => .ok (.int (-1)) s
  characteristics := fun s => .ok (Characteristics.ofFlag .sized).toValue s
  hasCharacteristics := fun _ s => .ok false s
  comparator := Source.noComparator "Denying"

/-- A visitor drains the source that it is called from, which holds two elements. -/
def drainingWithin : List Step :=
  [.new (.traced (.scripted { claimingNone.plan with elements := #[.int 1, .int 2] } 0)),
    .decompose 0 "BULK_DRAIN" (.plan [(0, .forEachRemaining 0 .log)] [] .null), .trace 0]

def StepResult.drains (r : StepResult) : List (List Number) :=
  match r.answer with
  | .returned (.record t) => t.drains.map fun drained => Session.numbers drained.toList
  | _ => []

/-- A source that denies its size is traversed to the end, and stalls once it is traced. And the
drain that a visitor starts is recorded before the one that it is called from, with the elements that
came after. -/
theorem tracing_apparent :
    (∃ u v, denying.traverse 3 .maximumSplit ⟨true, ()⟩ = .ok (.complete []) u ∧
      denying.tracing.traverse 3 .maximumSplit (Site.having ⟨true, ()⟩ .empty) =
        .ok (.stalled ⟨.notShrinking, .int 1, .int 1, 1⟩) v) ∧
    (Session.runSteps .empty drainingWithin).map (fun r => (r.visited.map Session.numbers,
        r.nested.map fun inner => inner.visited.map Session.numbers, r.drains)) =
      [(none, [], []), (some [.integer 1], [some [.integer 2]], []),
        (none, [], [[.integer 2], [.integer 1]])] := by
  refine ⟨⟨_, _, rfl, rfl⟩, ?_⟩
  decide +kernel

end SplitTraversal
