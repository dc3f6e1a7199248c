import SplitTraversal.Proofs.Followers

/-! Sources with something beside what they share that they know nothing of, such as a record of
what they were asked for. Runs on them are the runs on the sources without it. -/

namespace SplitTraversal

variable {σ ω κ τ α ρ ε : Type}

def besideVisit (visit : α → Action (ω × τ) Unit) : α → Action ((ω × κ) × τ) Unit := fun a x =>
  Outcome.mapState (fun y => ((y.1, x.1.2), y.2)) (visit a (x.1.1, x.2))

def Site.having (s : Site σ ω) (k : κ) : Site σ (ω × κ) := ⟨s.own, (s.shared, k)⟩

namespace Outcome

def having (k : κ) (o : Outcome ε (Site σ ω × τ) ρ) : Outcome ε (Site σ (ω × κ) × τ) ρ :=
  mapState (fun x => (x.1.having k, x.2)) o

def forgetting (o : Outcome ε (Site σ (ω × κ) × τ) ρ) : Outcome ε (Site σ ω × τ) ρ :=
  mapState (fun x => (Protocol.beside.get x.1, x.2)) o

end Outcome

namespace Turn

variable {S : Type}

def ending (f : S → S) : Turn S α ρ → Turn S α ρ
  | .done o => .done (Outcome.mapState f o)
  | .offer s a resume => .offer s a fun o => ending f (resume o)

theorem play_ending (f : Site σ ω → Site σ ω) (visit : α → Action (ω × τ) Unit)
    (t : Turn (Site σ ω) α ρ) (m : τ) :
    (t.ending f).play visit m = Outcome.mapState (fun x => (f x.1, x.2)) (t.play visit m) := by
  induction t generalizing m with
  | done o => cases o <;> rfl
  | offer s a resume ih =>
    simp only [ending, play]
    cases visit a (s.shared, m) <;> exact ih _ _

theorem play_beside (visit : α → Action (ω × τ) Unit) (t : Turn (Site σ ω) α ρ)
    (s : Site σ (ω × κ)) (m : τ) :
    (t.within Protocol.beside s).play (besideVisit visit) m =
      Outcome.mapState (fun x => (Protocol.beside.put x.1 s, x.2)) (t.play visit m) := by
  induction t generalizing s m with
  | done outcome => cases outcome <;> rfl
  | offer t a resume ih =>
    simp only [within, play, besideVisit, Protocol.beside]
    cases visit a (t.shared, m) with
    | ok _ x => exact ih _ ⟨t.own, (x.1, s.shared.2)⟩ x.2
    | error e x => exact ih _ ⟨t.own, (x.1, s.shared.2)⟩ x.2

end Turn

theorem run_having (op : EStateM ε (Site σ ω) ρ) (s : Site σ ω) (k : κ) :
    Protocol.beside.run op (s.having k) = Outcome.mapState (Site.having · k) (op s) := by
  simp only [Focus.run, Site.having, Protocol.beside]
  cases op s <;> rfl

theorem quietly_having {op' : EStateM ε (Site σ (ω × κ)) ρ} {op : EStateM ε (Site σ ω) ρ}
    {s : Site σ ω} {k k' : κ}
    (same : op' (s.having k) = Outcome.mapState (Site.having · k') (op s)) (m : τ) :
    quietly op' (s.having k, m) = Outcome.having k' (quietly op (s, m)) := by
  simp only [quietly, same]
  cases op s <;> rfl

namespace Protocol

/-- The same sources, with something beside their shared state that they know nothing of. -/
def alongside (p : Protocol σ ω α) (κ : Type) : Protocol σ (ω × κ) α where
  tryAdvance := fun visitor s => (p.tryAdvance visitor (beside.get s)).within beside s
  forEachRemaining := fun visitor s => (p.forEachRemaining visitor (beside.get s)).within beside s
  trySplit := beside.run p.trySplit
  estimateSize := beside.run p.estimateSize
  exactSizeIfKnown := beside.run p.exactSizeIfKnown
  characteristics := beside.run p.characteristics
  hasCharacteristics := fun flags => beside.run (p.hasCharacteristics flags)
  comparator := beside.run p.comparator

/-- Whether a source is sized goes by its characteristics, as it does in every source that builds on
the common base. -/
def Derives (p : Protocol σ ω α) : Prop :=
  p.hasCharacteristics (.ofFlag .sized) = Source.hasFlags p.characteristics (.ofFlag .sized)

/-- What runs are made of does what it does without that which is kept beside what is shared. -/
structure Beside (q : Protocol σ (ω × κ) α) (p : Protocol σ ω α) : Prop where
  tryAdvance {τ : Type} (visit : α → Action (ω × τ) Unit) (s : Site σ ω) (m : τ) (k : κ) : ∃ k',
    playing (besideVisit visit) q.tryAdvance (s.having k, m) =
      Outcome.having k' (playing visit p.tryAdvance (s, m))
  forEachRemaining {τ : Type} (visit : α → Action (ω × τ) Unit) (s : Site σ ω) (m : τ) (k : κ) :
    ∃ k', playing (besideVisit visit) q.forEachRemaining (s.having k, m) =
      Outcome.having k' (playing visit p.forEachRemaining (s, m))
  trySplit (s : Site σ ω) (k : κ) : ∃ k',
    q.trySplit (s.having k) = Outcome.mapState (Site.having · k') (p.trySplit s)
  estimateSize (s : Site σ ω) (k : κ) : ∃ k',
    q.estimateSize (s.having k) = Outcome.mapState (Site.having · k') (p.estimateSize s)
  hasCharacteristics (derived : p.Derives) (s : Site σ ω) (k : κ) : ∃ k',
    q.hasCharacteristics (.ofFlag .sized) (s.having k) =
      Outcome.mapState (Site.having · k') (p.hasCharacteristics (.ofFlag .sized) s)

/-- Runs end in the same way without that which is kept beside what is shared, and with the same
states of the source, of what is shared and of the visitor's memory. -/
structure RunsBeside (q : Protocol σ (ω × κ) α) (p : Protocol σ ω α) : Prop where
  decompose {τ : Type} (visit : α → Action (ω × τ) Unit) (rounds : Nat) (strategy : Strategy)
      (s : Site σ ω) (m : τ) (k : κ) :
    Outcome.forgetting (q.decompose rounds strategy (.ofFunction (besideVisit visit))
      (s.having k, m)) = p.decompose rounds strategy (.ofFunction visit) (s, m)
  collect (rounds : Nat) (strategy : Strategy) (s : Site σ ω) (k : κ) :
    Outcome.mapState beside.get (q.collect rounds strategy (s.having k)) =
      p.collect rounds strategy s
  traverse (derived : p.Derives) (rounds : Nat) (strategy : Strategy) (s : Site σ ω) (k : κ) :
    Outcome.mapState beside.get (q.traverse rounds strategy (s.having k)) =
      p.traverse rounds strategy s
  partition (settings : Partitioner) (s : Site σ ω) (k : κ) :
    Outcome.mapState beside.get (settings.partition q (s.having k)) = settings.partition p s

end Protocol

theorem Option.Rel.self {r : ρ → ρ → Prop} (same : ∀ a, r a a) (found : Option ρ) :
    Option.Rel r found found := by
  cases found with
  | none => exact .none
  | some a => exact .some (same a)

namespace Pairing

def beside : Pairing σ (ω × κ) τ σ ω τ :=
  reading id Prod.fst fun _ => True

theorem ends_having {answer : ρ → ρ → Prop} (same : ∀ a, answer a a) (k : κ)
    (o : Outcome ε (Site σ ω × τ) ρ) : beside.Ends answer (Outcome.having k o) o := by
  cases o with
  | ok a x => exact .ok (same a) ⟨trivial, rfl⟩ ⟨rfl, rfl⟩
  | error e x => exact .error e ⟨trivial, rfl⟩ ⟨rfl, rfl⟩

theorem beside_tracks {answer : ρ → ρ → Prop} (same : ∀ a, answer a a)
    {act' : EStateM ε (Site σ (ω × κ) × τ) ρ} {act : EStateM ε (Site σ ω × τ) ρ}
    (having : ∀ s m k, ∃ k', act' (s.having k, m) = Outcome.having k' (act (s, m))) :
    beside.Tracks answer act' act := by
  apply reading_tracks
  rintro ⟨own, ⟨w, k⟩⟩ - m
  obtain ⟨k', having⟩ := having ⟨own, w⟩ m k
  refine having ▸ ?_
  exact ends_having same k' (act (⟨own, w⟩, m))

end Pairing

namespace Protocol.Beside

variable {q : Protocol σ (ω × κ) α} {p : Protocol σ ω α}

theorem follows (beside : q.Beside p) (visit : α → Action (ω × τ) Unit) :
    q.Follows p (besideVisit visit) visit .beside where
  forEachRemaining := Pairing.beside_tracks (fun _ => rfl) (beside.forEachRemaining visit)
  trySplit := by
    apply Pairing.beside_tracks (Option.Rel.self fun _ => ⟨trivial, rfl⟩)
    intro s m k
    obtain ⟨k', same⟩ := beside.trySplit s k
    exact ⟨k', quietly_having same m⟩
  estimateSize := by
    apply Pairing.beside_tracks fun _ => rfl
    intro s m k
    obtain ⟨k', same⟩ := beside.estimateSize s k
    exact ⟨k', quietly_having same m⟩

theorem advances (beside : q.Beside p) (visit : α → Action (ω × τ) Unit) :
    Pairing.beside.Tracks Eq (playing (besideVisit visit) q.tryAdvance)
      (playing visit p.tryAdvance) :=
  Pairing.beside_tracks (fun _ => rfl) (beside.tryAdvance visit)

theorem sizes (beside : q.Beside p) (derived : p.Derives) :
    (Pairing.beside : Pairing σ (ω × κ) τ σ ω τ).Tracks Eq
      (quietly (q.hasCharacteristics (.ofFlag .sized)))
      (quietly (p.hasCharacteristics (.ofFlag .sized))) := by
  apply Pairing.beside_tracks fun _ => rfl
  intro s m k
  obtain ⟨k', same⟩ := beside.hasCharacteristics derived s k
  exact ⟨k', quietly_having same m⟩

theorem runs (beside : q.Beside p) : q.RunsBeside p where
  decompose visit rounds strategy s m k :=
    Pairing.reading_eq (Pairing.decompose (beside.follows visit) rounds strategy
      (fun _ => beside.advances visit) (s.having k, m) (s, m) ⟨trivial, rfl⟩ ⟨rfl, rfl⟩)
  collect rounds strategy s k :=
    (Pairing.reading_collects.collect (beside.follows Visitor.collecting.visit) rounds strategy
      fun _ => beside.advances Visitor.collecting.visit).reading_eq (s.having k) trivial
  traverse derived rounds strategy s k :=
    (Pairing.reading_collects.traverse (beside.follows Visitor.collecting.visit)
      (beside.sizes derived) rounds strategy fun _ =>
        beside.advances Visitor.collecting.visit).reading_eq (s.having k) trivial
  partition settings s k := by
    have idle : α → Action (ω × Unit) Unit := fun _ x => .ok () x
    have same (leaves' leaves : List (Partitioner.Leaf σ)) (matching :
        (Pairing.beside : Pairing σ (ω × κ) Unit σ ω Unit).MatchingLeaves leaves' leaves) :
        leaves' = leaves := by
      rw [Pairing.eq_map_of_reading matching, Partitioner.Leaf.map_id, List.map_id]
    have tracks := Pairing.partition (beside.follows idle) settings
    exact (tracks.imp same).reading_eq (s.having k) trivial

end Protocol.Beside

namespace Protocol

theorem tryAdvance_alongside (p : Protocol σ ω α) (visit : α → Action (ω × τ) Unit) (s : Site σ ω)
    (m : τ) (k : κ) :
    playing (besideVisit visit) (p.alongside κ).tryAdvance (s.having k, m) =
      Outcome.having k (playing visit p.tryAdvance (s, m)) :=
  Turn.play_beside visit (p.tryAdvance .callable s) (s.having k) m

theorem forEachRemaining_alongside (p : Protocol σ ω α) (visit : α → Action (ω × τ) Unit)
    (s : Site σ ω) (m : τ) (k : κ) :
    playing (besideVisit visit) (p.alongside κ).forEachRemaining (s.having k, m) =
      Outcome.having k (playing visit p.forEachRemaining (s, m)) :=
  Turn.play_beside visit (p.forEachRemaining .callable s) (s.having k) m

end Protocol

structure Requests where
  splits : Nat
  drains : Nat

def Site.noted (s : Site σ (ω × List σ)) : Site σ (ω × List σ) :=
  ⟨s.own, (s.shared.1, s.own :: s.shared.2)⟩

namespace Protocol

/-- The same sources, with an onlooker who counts the requests, whatever comes of them. -/
def attended (p : Protocol σ ω α) : Protocol σ (ω × Requests) α :=
  { p.alongside Requests with
    forEachRemaining := fun visitor s => (p.alongside Requests).forEachRemaining visitor
      ⟨s.own, (s.shared.1, { s.shared.2 with drains := s.shared.2.drains + 1 })⟩
    trySplit := fun s => (p.alongside Requests).trySplit
      ⟨s.own, (s.shared.1, { s.shared.2 with splits := s.shared.2.splits + 1 })⟩ }

/-- The same sources, with an onlooker who notes down the state that each operation leaves its
source in, the latest first. Of what was split off and drained, that is all that remains. -/
def noting (p : Protocol σ ω α) : Protocol σ (ω × List σ) α where
  tryAdvance := fun visitor s => ((p.alongside (List σ)).tryAdvance visitor s).ending Site.noted
  forEachRemaining := fun visitor s =>
    ((p.alongside (List σ)).forEachRemaining visitor s).ending Site.noted
  trySplit := fun s => Outcome.mapState Site.noted ((p.alongside (List σ)).trySplit s)
  estimateSize := fun s => Outcome.mapState Site.noted ((p.alongside (List σ)).estimateSize s)
  exactSizeIfKnown := fun s =>
    Outcome.mapState Site.noted ((p.alongside (List σ)).exactSizeIfKnown s)
  characteristics := fun s => Outcome.mapState Site.noted ((p.alongside (List σ)).characteristics s)
  hasCharacteristics := fun flags s =>
    Outcome.mapState Site.noted ((p.alongside (List σ)).hasCharacteristics flags s)
  comparator := fun s => Outcome.mapState Site.noted ((p.alongside (List σ)).comparator s)

theorem tryAdvance_attended (p : Protocol σ ω α) (visit : α → Action (ω × τ) Unit) (s : Site σ ω)
    (m : τ) (c : Requests) :
    playing (besideVisit visit) p.attended.tryAdvance (s.having c, m) =
      Outcome.having c (playing visit p.tryAdvance (s, m)) :=
  p.tryAdvance_alongside visit s m c

theorem forEachRemaining_attended (p : Protocol σ ω α) (visit : α → Action (ω × τ) Unit)
    (s : Site σ ω) (m : τ) (c : Requests) :
    playing (besideVisit visit) p.attended.forEachRemaining (s.having c, m) =
      Outcome.having { c with drains := c.drains + 1 } (playing visit p.forEachRemaining (s, m)) :=
  p.forEachRemaining_alongside visit s m { c with drains := c.drains + 1 }

theorem trySplit_attended (p : Protocol σ ω α) (s : Site σ ω) (c : Requests) :
    p.attended.trySplit (s.having c) =
      Outcome.mapState (Site.having · { c with splits := c.splits + 1 }) (p.trySplit s) :=
  run_having p.trySplit s (⟨c.splits + 1, c.drains⟩ : Requests)

theorem estimateSize_attended (p : Protocol σ ω α) (s : Site σ ω) (c : Requests) :
    p.attended.estimateSize (s.having c) = Outcome.mapState (Site.having · c) (p.estimateSize s) :=
  run_having p.estimateSize s c

theorem hasCharacteristics_attended (p : Protocol σ ω α) (flags : Characteristics) (s : Site σ ω)
    (c : Requests) :
    p.attended.hasCharacteristics flags (s.having c) =
      Outcome.mapState (Site.having · c) (p.hasCharacteristics flags s) :=
  run_having (p.hasCharacteristics flags) s c

theorem attended_beside (p : Protocol σ ω α) : p.attended.Beside p where
  tryAdvance visit s m c := ⟨c, p.tryAdvance_attended visit s m c⟩
  forEachRemaining visit s m c := ⟨_, p.forEachRemaining_attended visit s m c⟩
  trySplit s c := ⟨_, p.trySplit_attended s c⟩
  estimateSize s c := ⟨c, p.estimateSize_attended s c⟩
  hasCharacteristics _ s c := ⟨c, p.hasCharacteristics_attended _ s c⟩

theorem noted_having (log : List σ) (o : Outcome ε (Site σ ω) ρ) :
    Outcome.mapState Site.noted (Outcome.mapState (Site.having · log) o) =
      Outcome.mapState (Site.having · (o.state.own :: log)) o := by
  cases o <;> rfl

theorem play_noted {turn : Turn (Site σ (ω × List σ)) α ρ} {visit : α → Action (ω × τ) Unit}
    {m : τ} {o : Outcome Thrown (Site σ ω × τ) ρ} {log : List σ}
    (played : turn.play (besideVisit visit) m = Outcome.having log o) :
    (turn.ending Site.noted).play (besideVisit visit) m =
      Outcome.having ((Outcome.state o).1.own :: log) o := by
  rw [Turn.play_ending, played]
  cases o <;> rfl

theorem noting_beside (p : Protocol σ ω α) : p.noting.Beside p where
  tryAdvance visit s m log := ⟨_, play_noted (p.tryAdvance_alongside visit s m log)⟩
  forEachRemaining visit s m log := ⟨_, play_noted (p.forEachRemaining_alongside visit s m log)⟩
  trySplit s log := ⟨_, (congrArg _ (run_having p.trySplit s log)).trans (noted_having log _)⟩
  estimateSize s log :=
    ⟨_, (congrArg _ (run_having p.estimateSize s log)).trans (noted_having log _)⟩
  hasCharacteristics _ s log :=
    ⟨_, (congrArg _ (run_having (p.hasCharacteristics _) s log)).trans (noted_having log _)⟩

theorem Derives.noting {p : Protocol σ ω α} (derived : p.Derives) : p.noting.Derives := by
  funext s
  have inner : p.noting.hasCharacteristics (.ofFlag .sized) s =
      Outcome.mapState Site.noted (beside.run (p.hasCharacteristics (.ofFlag .sized)) s) := rfl
  rw [inner, derived]
  simp only [Protocol.noting, alongside, Source.hasFlags, Focus.run, beside]
  cases p.characteristics ⟨s.own, s.shared.1⟩ with
  | error e t => rfl
  | ok declared t =>
    simp only [Outcome.mapState_ok]
    cases Characteristics.ofValue declared <;> rfl

end Protocol
end SplitTraversal
