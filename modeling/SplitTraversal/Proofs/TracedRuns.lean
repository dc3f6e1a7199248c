import SplitTraversal.Proofs.BesideRuns
import SplitTraversal.Proofs.TracedDivisions

/-! Runs on traced sources. They are the runs on the sources themselves, with a record beside: each
split that is asked for counts, and each drain that comes to its end leaves what it handed out. -/

namespace SplitTraversal

variable {σ ω κ τ α ρ ε : Type}

/-- The memory of the visitor tells what it was handed, in this order. -/
def Keeps (visit : α → Action (ω × τ) Unit) (kept : τ → List α) : Prop :=
  ∀ a x, kept (Outcome.state (visit a x)).2 = kept x.2 ++ [a]

theorem keeps_keeping (visit : α → Action (ω × τ) Unit) :
    Keeps (Recorder.keeping visit) fun m => m.2.toList := by
  intro a x
  simp only [Recorder.keeping, Outcome.state_mapState, Array.toList_push]

theorem keeps_collecting :
    Keeps (Visitor.collecting : Visitor ω (Array α) α).visit Array.toList :=
  fun _ _ => Array.toList_push

theorem keeping_beside (visit : α → Action (ω × τ) Unit) :
    Recorder.keeping (besideVisit visit : α → Action ((ω × κ) × τ) Unit) =
      besideVisit (Recorder.keeping visit) := by
  funext a x
  simp only [Recorder.keeping, besideVisit, Outcome.mapState_mapState]

namespace Turn

/-- Keeping what is handed out changes nothing else, and it is kept in the order of the visits. -/
theorem play_keeping (visit : α → Action (ω × τ) Unit) (t : Turn (Site σ ω) α ρ) (m : τ) :
    ∃ handed : List α,
      (∀ seen : Array α, t.play (Recorder.keeping visit) (m, seen) =
        Outcome.mapState (fun x => (x.1, (x.2, seen ++ handed))) (t.play visit m)) ∧
      ∀ kept, Keeps visit kept →
        kept (Outcome.state (t.play visit m)).2 = kept m ++ handed := by
  induction t generalizing m with
  | done outcome =>
    refine ⟨[], fun seen => ?_, fun kept _ => ?_⟩
    · cases outcome <;> simp [play]
    · cases outcome <;> simp [play, Outcome.state]
  | offer s a resume ih =>
    have onward (o : Outcome Thrown (Site σ ω) Unit) (m' : τ)
        (next : ∀ kept, Keeps visit kept → kept m' = kept m ++ [a]) : ∃ handed : List α,
        (∀ seen : Array α, (resume o).play (Recorder.keeping visit) (m', seen.push a) =
          Outcome.mapState (fun x => (x.1, (x.2, seen ++ handed))) ((resume o).play visit m')) ∧
        ∀ kept, Keeps visit kept →
          kept (Outcome.state ((resume o).play visit m')).2 = kept m ++ handed := by
      obtain ⟨handed, same, told⟩ := ih o m'
      refine ⟨a :: handed, fun seen => ?_, fun kept keeps => ?_⟩
      · simp only [same, Array.appendList_cons]
      · rw [told kept keeps, next kept keeps, List.append_assoc, List.singleton_append]
    have next (kept : τ → List α) (keeps : Keeps visit kept) :
        kept (Outcome.state (visit a (s.shared, m))).2 = kept m ++ [a] := keeps a (s.shared, m)
    simp only [play, Recorder.keeping]
    generalize visit a (s.shared, m) = visited at next ⊢
    cases visited with
    | ok _ x => exact onward _ x.2 next
    | error e x => exact onward _ x.2 next

end Turn

def Recorder.beside : Recorder (ω × Trace α) α := ⟨fun f w => (w.1, f w.2)⟩

/-- The traced form of sources. All that are split off one of them share its record. -/
def Protocol.tracing (p : Protocol σ ω α) : Protocol σ (ω × Trace α) α :=
  (p.alongside (Trace α)).traced .beside

/-- A drain leaves in the record what it handed out, where it came to its end. -/
def Outcome.recording (t : Trace α) (handed : List α) :
    Outcome ε (Site σ ω × τ) ρ → Outcome ε (Site σ (ω × Trace α) × τ) ρ
  | .ok a x => .ok a (x.1.having (t.drained handed.toArray), x.2)
  | .error e x => .error e (x.1.having t, x.2)

theorem Outcome.recording_having (t : Trace α) (handed : List α)
    (o : Outcome ε (Site σ ω × τ) ρ) : ∃ t', recording t handed o = having t' o := by
  cases o with
  | ok a x => exact ⟨_, rfl⟩
  | error e x => exact ⟨t, rfl⟩

namespace Protocol

section Operations

variable (p : Protocol σ ω α) (visit : α → Action (ω × τ) Unit) (s : Site σ ω) (m : τ) (t : Trace α)

theorem tryAdvance_tracing :
    playing (besideVisit visit) p.tracing.tryAdvance (s.having t, m) =
      Outcome.having t (playing visit p.tryAdvance (s, m)) :=
  Turn.play_beside visit (p.tryAdvance .callable s) (s.having t) m

theorem trySplit_tracing :
    p.tracing.trySplit (s.having t) =
      Outcome.mapState (Site.having · t.splitAsked) (p.trySplit s) :=
  run_having p.trySplit s t.splitAsked

theorem estimateSize_tracing :
    p.tracing.estimateSize (s.having t) = Outcome.mapState (Site.having · t) (p.estimateSize s) :=
  run_having p.estimateSize s t

theorem hasCharacteristics_tracing (flags : Characteristics) :
    p.tracing.hasCharacteristics flags (s.having t) =
      Outcome.mapState (Site.having · t) (Source.hasFlags p.characteristics flags s) := by
  simp only [tracing, traced, alongside, Source.hasFlags, Focus.run, Site.having, beside]
  cases p.characteristics s with
  | error e u => rfl
  | ok declared u =>
    simp only
    cases Characteristics.ofValue declared <;> rfl

theorem forEachRemaining_tracing : ∃ handed : List α,
    playing (Recorder.keeping visit) p.forEachRemaining (s, (m, #[])) =
      Outcome.mapState (fun x => (x.1, (x.2, handed.toArray)))
        (playing visit p.forEachRemaining (s, m)) ∧
    playing (besideVisit visit) p.tracing.forEachRemaining (s.having t, m) =
      Outcome.recording t handed (playing visit p.forEachRemaining (s, m)) ∧
    ∀ kept, Keeps visit kept →
      kept (Outcome.state (playing visit p.forEachRemaining (s, m))).2 = kept m ++ handed := by
  obtain ⟨handed, same, told⟩ := (p.forEachRemaining .callable s).play_keeping visit m
  have kept : playing (Recorder.keeping visit) p.forEachRemaining (s, (m, #[])) =
      Outcome.mapState (fun x => (x.1, (x.2, handed.toArray)))
        (playing visit p.forEachRemaining (s, m)) := by
    refine (same #[]).trans ?_
    simp only [List.toArray_appendList, List.nil_append]
    rfl
  refine ⟨handed, kept, ?_, told⟩
  have drained := Recorder.play_drain .beside
    ((p.alongside (Trace α)).forEachRemaining .callable (s.having t)) (besideVisit visit) m
  rw [keeping_beside] at drained
  refine drained.trans ?_
  have inner := Turn.play_beside (Recorder.keeping visit) (p.forEachRemaining .callable s)
    (s.having t) (m, #[])
  refine (congrArg _ (inner.trans (congrArg _ kept))).trans ?_
  cases playing visit p.forEachRemaining (s, m) <;> rfl

end Operations

theorem tracing_beside (p : Protocol σ ω α) : p.tracing.Beside p where
  tryAdvance visit s m t := ⟨t, p.tryAdvance_tracing visit s m t⟩
  forEachRemaining visit s m t := by
    obtain ⟨handed, -, traced, -⟩ := p.forEachRemaining_tracing visit s m t
    obtain ⟨t', same⟩ := Outcome.recording_having t handed (playing visit p.forEachRemaining (s, m))
    exact ⟨t', traced.trans same⟩
  trySplit s t := ⟨t.splitAsked, p.trySplit_tracing s t⟩
  estimateSize s t := ⟨t, p.estimateSize_tracing s t⟩
  hasCharacteristics derived s t := ⟨t, derived ▸ p.hasCharacteristics_tracing s t _⟩

theorem tracing_derives (p : Protocol σ ω α) : p.tracing.Derives :=
  rfl

end Protocol

/-- The drains recorded since, all in all, and as many of them as there were requests and nothing
left out, where everything returned. -/
def Trace.Accounts (t : Trace α) (returned : Bool) (whole : Prop) (elements : List α)
    (requests : Requests) (t' : Trace α) : Prop :=
  ∃ drains, t.Extends drains requests.splits t' ∧ (returned = true →
    drains.length = requests.drains ∧ (whole → (drains.map Array.toList).flatten = elements))

namespace Trace.Accounts

variable {t t' : Trace α} {returned : Bool} {whole : Prop} {elements : List α}
  {requests : Requests}

theorem thrown (accounts : t.Accounts true whole elements requests t') (elements' : List α) :
    t.Accounts false whole elements' requests t' := by
  obtain ⟨drains, extends', -⟩ := accounts
  exact ⟨drains, extends', nofun⟩

theorem stepped (accounts : t.Accounts returned whole elements requests t') (parts : ¬whole)
    (elements' : List α) : t.Accounts returned whole elements' requests t' := by
  obtain ⟨drains, extends', balance⟩ := accounts
  exact ⟨drains, extends', fun ended => ⟨(balance ended).1, fun whole => absurd whole parts⟩⟩

theorem splitAsked (accounts : t.Accounts returned whole elements requests t') :
    t.Accounts returned whole elements { requests with splits := requests.splits + 1 }
      t'.splitAsked := by
  obtain ⟨drains, extends', balance⟩ := accounts
  have more := extends'.trans t'.extends_splitAsked
  rw [List.append_nil] at more
  exact ⟨drains, more, balance⟩

theorem drained (accounts : t.Accounts true whole elements requests t') {elements' : List α}
    (handed : List α) (told : whole → elements' = elements ++ handed) :
    t.Accounts true whole elements' { requests with drains := requests.drains + 1 }
      (t'.drained handed.toArray) := by
  obtain ⟨drains, extends', balance⟩ := accounts
  obtain ⟨count, all⟩ := balance rfl
  refine ⟨_, extends'.trans (t'.extends_drained _), fun _ => ⟨?_, fun whole => ?_⟩⟩
  · rw [List.length_append, List.length_singleton, count]
  · rw [List.map_append, List.flatten_append, all whole, told whole]
    simp

theorem start (t : Trace α) (whole : Prop) {elements : List α} (fresh : elements = []) :
    t.Accounts true whole elements ⟨0, 0⟩ t :=
  ⟨[], ⟨(List.append_nil _).symm, rfl⟩, fun _ => ⟨rfl, fun _ => fresh.symm⟩⟩

end Trace.Accounts

/-- The record counts one call more for each request for a split. -/
def Trace.Counts (t : Trace α) (u : Site σ ((ω × Trace α) × Requests)) : Prop :=
  ∃ drains, t.Extends drains u.shared.2.splits u.shared.1.2

/-- The record has one drain more for each request for one, and these drains are the elements. -/
def Trace.Tells (t : Trace α) (elements : List α) (u : Site σ ((ω × Trace α) × Requests)) : Prop :=
  ∃ drains, t.Extends drains u.shared.2.splits u.shared.1.2 ∧
    drains.length = u.shared.2.drains ∧ (drains.map Array.toList).flatten = elements

namespace Pairing

/-- A run on traced sources with an onlooker, and the run without the onlooker. -/
def recording (t : Trace α) (whole : Prop) (kept : τ → List α) :
    Pairing σ ((ω × Trace α) × Requests) τ σ (ω × Trace α) τ where
  own := Eq
  around returned x' x := (x'.1.1 = x.1 ∧ x'.2 = x.2) ∧
    t.Accounts returned whole (kept x'.2) x'.1.2 x'.1.1.2
  thrown known := ⟨known.1, known.2.thrown _⟩

def counting (t : Trace α) : Pairing σ ((ω × Trace α) × Requests) τ σ (ω × Trace α) τ :=
  recording t False fun _ => []

variable {t : Trace α} {whole : Prop} {kept : τ → List α}

theorem recording_tracks {answer : ρ → ρ → Prop}
    {act' : EStateM ε (Site σ ((ω × Trace α) × Requests) × τ) ρ}
    {act : EStateM ε (Site σ (ω × Trace α) × τ) ρ}
    (ends : ∀ s m t' c, t.Accounts true whole (kept m) c t' → (recording t whole kept).Ends answer
      (act' ((Site.having s t').having c, m)) (act (s.having t', m))) :
    (recording t whole kept).Tracks answer act' act := by
  rintro ⟨⟨own, ⟨⟨w, t'⟩, c⟩⟩, m⟩ ⟨⟨_, _⟩, _⟩ rfl ⟨⟨rfl, rfl⟩, accounts⟩
  exact ends ⟨own, w⟩ m t' c accounts

theorem recording_ends {answer : ρ → ρ → Prop} (same : ∀ a, answer a a) {c : Requests}
    {t' : Trace α} (o : Outcome ε (Site σ ω × τ) ρ)
    (accounts : t.Accounts true whole (kept (Outcome.state o).2) c t') :
    (recording t whole kept).Ends answer (Outcome.having c (Outcome.having t' o))
      (Outcome.having t' o) := by
  cases o with
  | ok a x => exact .ok (same a) rfl ⟨⟨rfl, rfl⟩, accounts⟩
  | error e x => exact .error e rfl ⟨⟨rfl, rfl⟩, accounts.thrown _⟩

end Pairing

theorem quietly_memory (act : EStateM ε (Site σ ω) ρ) (x : Site σ ω × τ) :
    (Outcome.state (quietly act x)).2 = x.2 := by
  rw [quietly, Outcome.state_mapState]

namespace Protocol

variable (p : Protocol σ ω α) (visit : α → Action (ω × τ) Unit) (t : Trace α) {whole : Prop}
  {kept : τ → List α}

theorem recording_follows (keeps : whole → Keeps visit kept) :
    p.tracing.attended.Follows p.tracing (besideVisit (besideVisit visit)) (besideVisit visit)
      (.recording t whole kept) where
  forEachRemaining := by
    apply Pairing.recording_tracks
    intro s m t' c accounts
    obtain ⟨handed, -, traced, told⟩ := p.forEachRemaining_tracing visit s m t'
    rw [p.tracing.forEachRemaining_attended, traced]
    generalize playing visit p.forEachRemaining (s, m) = o at told ⊢
    cases o with
    | ok a x =>
      apply Pairing.recording_ends (fun _ => rfl) (.ok a x)
      exact accounts.drained handed fun whole => told kept (keeps whole)
    | error e x =>
      -- What a drain that threw had handed out by then is not in the record.
      obtain ⟨drains, extends', -⟩ := accounts
      exact .error e rfl ⟨⟨rfl, rfl⟩, drains, extends', nofun⟩
  trySplit := by
    apply Pairing.recording_tracks
    intro s m t' c accounts
    rw [quietly_having (p.tracing.trySplit_attended (s.having t') c) m,
      quietly_having (p.trySplit_tracing s t') m]
    apply Pairing.recording_ends (Option.Rel.self fun _ => rfl)
    rw [quietly_memory]
    exact accounts.splitAsked
  estimateSize := by
    apply Pairing.recording_tracks
    intro s m t' c accounts
    rw [quietly_having (p.tracing.estimateSize_attended (s.having t') c) m,
      quietly_having (p.estimateSize_tracing s t') m]
    apply Pairing.recording_ends fun _ => rfl
    rw [quietly_memory]
    exact accounts

theorem recording_advances (parts : ¬whole) :
    (Pairing.recording t whole kept).Tracks Eq
      (playing (besideVisit (besideVisit visit)) p.tracing.attended.tryAdvance)
      (playing (besideVisit visit) p.tracing.tryAdvance) := by
  apply Pairing.recording_tracks
  intro s m t' c accounts
  rw [p.tracing.tryAdvance_attended, p.tryAdvance_tracing]
  apply Pairing.recording_ends fun _ => rfl
  exact accounts.stepped parts _

theorem recording_sizes (flags : Characteristics) :
    (Pairing.recording t whole kept).Tracks Eq
      (quietly (p.tracing.attended.hasCharacteristics flags))
      (quietly (p.tracing.hasCharacteristics flags)) := by
  apply Pairing.recording_tracks
  intro s m t' c accounts
  rw [quietly_having (p.tracing.hasCharacteristics_attended flags (s.having t') c) m,
    quietly_having (p.hasCharacteristics_tracing s t' flags) m]
  apply Pairing.recording_ends fun _ => rfl
  rw [quietly_memory]
  exact accounts

theorem counting_follows :
    p.tracing.attended.Follows p.tracing (besideVisit (besideVisit visit)) (besideVisit visit)
      (.counting t) :=
  p.recording_follows visit t False.elim

theorem counting_advances :
    (Pairing.counting t).Tracks Eq
      (playing (besideVisit (besideVisit visit)) p.tracing.attended.tryAdvance)
      (playing (besideVisit visit) p.tracing.tryAdvance) :=
  p.recording_advances visit t id

end Protocol

namespace Pairing

variable {t : Trace α}

theorem counting_collects :
    (counting t : Pairing σ ((ω × Trace α) × Requests) (Array α) σ (ω × Trace α) _).Collects
      (counting t) where
  own := Iff.rfl
  start known := ⟨⟨known.1.1, rfl⟩, known.2⟩
  same known := ⟨known.1.2, ⟨known.1.1, rfl⟩, known.2⟩

theorem Tracks.counts {answer : ρ → ρ → Prop}
    {act' : EStateM ε (Site σ ((ω × Trace α) × Requests) × τ) ρ}
    {act : EStateM ε (Site σ (ω × Trace α) × τ) ρ} (tracks : (counting t).Tracks answer act' act)
    (s : Site σ ω) (m : τ) :
    t.Counts (Outcome.state (act' ((s.having t).having ⟨0, 0⟩, m))).1 := by
  have ends := tracks ((s.having t).having ⟨0, 0⟩, m) (s.having t, m) rfl
    ⟨⟨rfl, rfl⟩, .start t False rfl⟩
  generalize act' _ = o', act _ = o at ends ⊢
  cases ends with
  | ok _ own around =>
    obtain ⟨-, drains, extends', -⟩ := around
    exact ⟨drains, extends'⟩
  | error e own around =>
    obtain ⟨-, drains, extends', -⟩ := around
    exact ⟨drains, extends'⟩

theorem Tracks.counts_quietly {answer : ρ → ρ → Prop}
    {act' : EStateM ε (Site σ ((ω × Trace α) × Requests)) ρ}
    {act : EStateM ε (Site σ (ω × Trace α)) ρ}
    (tracks : (counting t : Pairing _ _ Unit _ _ _).Tracks answer (quietly act') (quietly act))
    (s : Site σ ω) : t.Counts (Outcome.state (act' ((s.having t).having ⟨0, 0⟩))) := by
  have counts := tracks.counts s ()
  rwa [quietly, Outcome.state_mapState] at counts

theorem Shows.tells {o' : Outcome Halt (Site σ ((ω × Trace α) × Requests)) (Traversal α)}
    {o : Outcome Halt (Site σ (ω × Trace α)) (Traversal α)}
    (shows : (recording t True Array.toList).Shows o' o) {elements : List α}
    {u : Site σ ((ω × Trace α) × Requests)} (returned : o' = .ok (.complete elements) u) :
    t.Tells elements u := by
  cases shows with
  | complete own around =>
    cases returned
    obtain ⟨-, drains, extends', balance⟩ := around
    exact ⟨drains, extends', (balance rfl).1, (balance rfl).2 trivial⟩
  | stalled stall own around => cases returned
  | halted h own around => cases returned

end Pairing

/-- What the record of a traced source shows of a run on it, as an onlooker sees the run. It counts
one call for each request for a split, however the run ends. Where a run that drains in one go or by
splits returns, it has one drain for each source that was drained, and these make up what was
visited. -/
structure Protocol.Accounted (p : Protocol σ ω α) : Prop where
  decompose_counts {τ : Type} (visit : α → Action (ω × τ) Unit) (rounds : Nat) (strategy : Strategy)
      (s : Site σ ω) (m : τ) (t : Trace α) :
    t.Counts (Outcome.state (p.tracing.attended.decompose rounds strategy
      (.ofFunction (besideVisit (besideVisit visit))) ((s.having t).having ⟨0, 0⟩, m))).1
  collect_counts (rounds : Nat) (strategy : Strategy) (s : Site σ ω) (t : Trace α) :
    t.Counts (Outcome.state (p.tracing.attended.collect rounds strategy
      ((s.having t).having ⟨0, 0⟩)))
  traverse_counts (rounds : Nat) (strategy : Strategy) (s : Site σ ω) (t : Trace α) :
    t.Counts (Outcome.state (p.tracing.attended.traverse rounds strategy
      ((s.having t).having ⟨0, 0⟩)))
  partition_counts (settings : Partitioner) (s : Site σ ω) (t : Trace α) :
    t.Counts (Outcome.state (settings.partition p.tracing.attended ((s.having t).having ⟨0, 0⟩)))
  decompose_tells {τ : Type} (visit : α → Action (ω × τ) Unit) (rounds : Nat) {strategy : Strategy}
      (whole : strategy ≠ .stepAdvance) (s : Site σ ω) (m : τ) (t : Trace α)
      {u : Site σ ((ω × Trace α) × Requests) × (τ × Array α)}
      (returned : p.tracing.attended.decompose rounds strategy
        (.ofFunction (besideVisit (besideVisit (Recorder.keeping visit))))
        ((s.having t).having ⟨0, 0⟩, (m, #[])) = .ok () u) :
    t.Tells u.2.2.toList u.1
  collect_tells (rounds : Nat) {strategy : Strategy} (whole : strategy ≠ .stepAdvance)
      (s : Site σ ω) (t : Trace α) {elements : List α} {u : Site σ ((ω × Trace α) × Requests)}
      (returned : p.tracing.attended.collect rounds strategy ((s.having t).having ⟨0, 0⟩) =
        .ok elements u) :
    t.Tells elements u
  traverse_tells (rounds : Nat) {strategy : Strategy} (whole : strategy ≠ .stepAdvance)
      (s : Site σ ω) (t : Trace α) {elements : List α} {u : Site σ ((ω × Trace α) × Requests)}
      (returned : p.tracing.attended.traverse rounds strategy ((s.having t).having ⟨0, 0⟩) =
        .ok (.complete elements) u) :
    t.Tells elements u

theorem Protocol.accounted (p : Protocol σ ω α) : p.Accounted where
  decompose_counts visit rounds strategy s m t :=
    (Pairing.decompose (p.counting_follows visit t) rounds strategy fun _ =>
      p.counting_advances visit t).counts s m
  collect_counts rounds strategy s t :=
    (Pairing.counting_collects.collect (p.counting_follows Visitor.collecting.visit t) rounds
      strategy fun _ => p.counting_advances Visitor.collecting.visit t).counts_quietly s
  traverse_counts rounds strategy s t :=
    (Pairing.counting_collects.traverse (p.counting_follows Visitor.collecting.visit t)
      (p.recording_sizes t _) rounds strategy fun _ =>
        p.counting_advances Visitor.collecting.visit t).counts_quietly s
  partition_counts settings s t := by
    have idle : α → Action (ω × Unit) Unit := fun _ x => .ok () x
    exact (Pairing.partition (p.counting_follows idle t) settings).counts_quietly s
  decompose_tells visit rounds strategy whole s m t u returned := by
    have ends := Pairing.decompose (p.recording_follows (Recorder.keeping visit) t fun _ =>
      keeps_keeping visit) rounds strategy (fun steps => absurd steps whole)
      ((s.having t).having ⟨0, 0⟩, (m, #[])) (s.having t, (m, #[])) rfl
      ⟨⟨rfl, rfl⟩, .start t True rfl⟩
    rw [returned] at ends
    generalize p.tracing.decompose rounds strategy _ _ = o at ends
    cases ends with
    | ok _ _ around =>
      obtain ⟨-, drains, extends', balance⟩ := around
      exact ⟨drains, extends', (balance rfl).1, (balance rfl).2 trivial⟩
  collect_tells rounds strategy whole s t elements u returned := by
    have shows : (Pairing.recording t True Array.toList).Shows
        (completing (p.tracing.attended.collect rounds strategy ((s.having t).having ⟨0, 0⟩)))
        (completing (p.tracing.collect rounds strategy (s.having t))) :=
      Pairing.collect (p.recording_follows Visitor.collecting.visit t fun _ => keeps_collecting)
        rounds strategy (fun steps => absurd steps whole) rfl ⟨⟨rfl, rfl⟩, .start t True rfl⟩
    exact shows.tells (congrArg _ returned)
  traverse_tells rounds strategy whole s t elements u returned := by
    have shows : (Pairing.recording t True Array.toList).Shows
        (p.tracing.attended.traverse rounds strategy ((s.having t).having ⟨0, 0⟩))
        (p.tracing.traverse rounds strategy (s.having t)) :=
      Pairing.traverse (p.recording_follows Visitor.collecting.visit t fun _ => keeps_collecting)
        (p.recording_sizes t _) rounds strategy (fun steps => absurd steps whole) rfl
        ⟨⟨rfl, rfl⟩, .start t True rfl⟩
    exact shows.tells returned

end SplitTraversal
