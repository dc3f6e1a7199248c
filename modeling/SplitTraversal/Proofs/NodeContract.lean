import SplitTraversal.Proofs.ContractTraversal
import SplitTraversal.Source.Node

/-! Sources of one protocol as sources of another one that offers more kinds. The contract carries
over, so that the indexed sources without a flaw and those of one element keep it as nodes too. -/

namespace SplitTraversal

variable {σ τ ω α : Type}

/-- A source that reports these many elements, and whose parts after a split report what adds up to
it, the part split off not being empty. -/
structure Protocol.Measured (p : Protocol σ ω α) (s : σ) (count : Nat) : Prop where
  estimateSize (w : ω) : p.estimateSize ⟨s, w⟩ = .ok (.int count) ⟨s, w⟩
  exactSizeIfKnown (w : ω) : p.exactSizeIfKnown ⟨s, w⟩ = .ok (.int count) ⟨s, w⟩
  trySplit (w : ω) :
    (∃ t, p.trySplit ⟨s, w⟩ = .ok none t ∧ p.estimateSize t = .ok (.int count) t) ∨
    ∃ piece t, ∃ part rest : Nat, p.trySplit ⟨s, w⟩ = .ok (some piece) t ∧
      0 < part ∧ part + rest = count ∧ p.estimateSize t = .ok (.int rest) t ∧
      p.estimateSize ⟨piece, t.shared⟩ = .ok (.int part) ⟨piece, t.shared⟩

def Site.wrapped (wrap : σ → τ) (s : Site σ ω) : Site τ ω := ⟨wrap s.own, s.shared⟩

namespace Protocol

/-- A source that is wrapped does what it does otherwise, and so does all that is split off it. -/
structure Embeds (p : Protocol σ ω α) (q : Protocol τ ω α) (wrap : σ → τ) : Prop where
  tryAdvance (s : Site σ ω) (seen : Array α) :
    play Visitor.collecting q.tryAdvance (s.wrapped wrap) seen =
      Outcome.mapState (fun t => (t.1.wrapped wrap, t.2))
        (play Visitor.collecting p.tryAdvance s seen)
  forEachRemaining (s : Site σ ω) (seen : Array α) :
    play Visitor.collecting q.forEachRemaining (s.wrapped wrap) seen =
      Outcome.mapState (fun t => (t.1.wrapped wrap, t.2))
        (play Visitor.collecting p.forEachRemaining s seen)
  trySplit (s : Site σ ω) :
    q.trySplit (s.wrapped wrap) = match p.trySplit s with
      | .ok piece t => .ok (piece.map wrap) (t.wrapped wrap)
      | .error e t => .error e (t.wrapped wrap)
  estimateSize (s : Site σ ω) :
    q.estimateSize (s.wrapped wrap) = Outcome.mapState (Site.wrapped wrap) (p.estimateSize s)
  exactSizeIfKnown (s : Site σ ω) :
    q.exactSizeIfKnown (s.wrapped wrap) =
      Outcome.mapState (Site.wrapped wrap) (p.exactSizeIfKnown s)
  characteristics (s : Site σ ω) :
    q.characteristics (s.wrapped wrap) = Outcome.mapState (Site.wrapped wrap) (p.characteristics s)
  hasCharacteristics (flags : Characteristics) (s : Site σ ω) :
    q.hasCharacteristics flags (s.wrapped wrap) =
      Outcome.mapState (Site.wrapped wrap) (p.hasCharacteristics flags s)
  comparator (s : Site σ ω) :
    q.comparator (s.wrapped wrap) = Outcome.mapState (Site.wrapped wrap) (p.comparator s)

variable {p : Protocol σ ω α} {q : Protocol τ ω α} {wrap : σ → τ}

theorem stepAdvance_wrapped
    (advances : ∀ s seen, play Visitor.collecting q.tryAdvance (s.wrapped wrap) seen =
      Outcome.mapState (fun t => (t.1.wrapped wrap, t.2))
        (play Visitor.collecting p.tryAdvance s seen))
    (rounds : Nat) (s : Site σ ω) (seen : Array α) :
    q.stepAdvance .collecting rounds (s.wrapped wrap, seen) =
      Outcome.mapState (fun t => (t.1.wrapped wrap, t.2))
        (p.stepAdvance .collecting rounds (s, seen)) := by
  induction rounds generalizing s seen with
  | zero => rfl
  | succ rounds ih =>
    simp only [Protocol.stepAdvance, advances]
    cases play Visitor.collecting p.tryAdvance s seen with
    | error e t => rfl
    | ok more t =>
      cases more with
      | false => rfl
      | true => exact ih t.1 t.2

end Protocol

namespace View

/-- What is known of wrapped sources, by what is known of the sources in them. -/
def through (v : View σ α) (wrap : σ → τ) (unwrap : τ → Option σ) : View τ α where
  obeys t := ∃ s, wrap s = t ∧ v.obeys s
  remaining t := (unwrap t).elim [] v.remaining
  flags t := (unwrap t).elim .none v.flags

variable {v : View σ α} {wrap : σ → τ} {unwrap : τ → Option σ}
  (back : ∀ s, unwrap (wrap s) = some s)

include back

theorem through_remaining (s : σ) :
    (v.through wrap unwrap).remaining (wrap s) = v.remaining s := by
  simp only [through, back, Option.elim_some]

theorem through_flags (s : σ) : (v.through wrap unwrap).flags (wrap s) = v.flags s := by
  simp only [through, back, Option.elim_some]

theorem through_ordered (s : σ) : (v.through wrap unwrap).ordered (wrap s) = v.ordered s := by
  rw [ordered, through_flags back, ordered]

theorem through_sized (s : σ) : (v.through wrap unwrap).sized (wrap s) = v.sized s := by
  rw [sized, through_flags back, sized]

theorem Keeps.through {s t : σ} (keeps : v.Keeps s t) :
    (v.through wrap unwrap).Keeps (wrap s) (wrap t) :=
  ⟨⟨t, rfl, keeps.obeys⟩, by rw [through_flags back, through_flags back, keeps.flags]⟩

theorem Stays.through {s t : σ} (stays : v.Stays s t) :
    (v.through wrap unwrap).Stays (wrap s) (wrap t) where
  toKeeps := stays.toKeeps.through back
  same := by
    rw [through_ordered back, through_remaining back, through_remaining back]
    exact stays.same

end View

theorem Source.exactSize_eq {characteristics estimateSize : Action (Site σ ω) Value} {s : Site σ ω}
    {set : Characteristics} {size : Value} (declared : characteristics s = .ok set.toValue s)
    (estimated : estimateSize s = .ok size s) :
    exactSize characteristics estimateSize s =
      .ok (if set.hasAll (.ofFlag .sized) then size else .int (-1)) s := by
  simp only [exactSize, hasFlags_eq declared]
  cases set.hasAll (.ofFlag .sized) with
  | true => exact estimated
  | false => rfl

theorem Contract.through {p : Protocol σ ω α} {q : Protocol τ ω α} {v : View σ α} {wrap : σ → τ}
    {unwrap : τ → Option σ} (contract : Contract p v) (embeds : p.Embeds q wrap)
    (back : ∀ s, unwrap (wrap s) = some s) : Contract q (v.through wrap unwrap) where
  hasCharacteristics := by
    rintro _ ⟨s, rfl, obeys⟩ flags w
    rw [View.through_flags back]
    obtain ⟨t, asked, stays⟩ := contract.hasCharacteristics obeys flags w
    refine ⟨t.wrapped wrap, (embeds.hasCharacteristics flags ⟨s, w⟩).trans ?_, stays.through back⟩
    rw [asked]
    rfl
  estimateSize := by
    rintro _ ⟨s, rfl, obeys⟩ w
    obtain ⟨n, t, asked, stays, exact⟩ := contract.estimateSize obeys w
    rw [View.through_sized back, View.through_remaining back]
    refine ⟨n, t.wrapped wrap, (embeds.estimateSize ⟨s, w⟩).trans ?_, stays.through back, exact⟩
    rw [asked]
    rfl
  tryAdvance_nil := by
    rintro _ ⟨s, rfl, obeys⟩ nil w seen
    rw [View.through_remaining back] at nil
    obtain ⟨t, played⟩ := contract.tryAdvance_nil obeys nil w seen
    refine ⟨t.wrapped wrap, (embeds.tryAdvance ⟨s, w⟩ seen).trans ?_⟩
    rw [played]
    rfl
  tryAdvance_cons := by
    rintro _ ⟨s, rfl, obeys⟩ some w seen
    rw [View.through_remaining back] at some
    obtain ⟨a, t, played, keeps, same⟩ := contract.tryAdvance_cons obeys some w seen
    refine ⟨a, t.wrapped wrap, (embeds.tryAdvance ⟨s, w⟩ seen).trans ?_, keeps.through back, ?_⟩
    · rw [played]
      rfl
    · simpa only [Site.wrapped, View.through_ordered back, View.through_remaining back] using same
  forEachRemaining := by
    rintro _ ⟨s, rfl, obeys⟩ w seen rounds u looped
    -- The loop on what is wrapped is the loop on the source in it, which therefore ended too.
    have inner := Protocol.stepAdvance_wrapped embeds.tryAdvance rounds ⟨s, w⟩ seen
    rw [show Site.wrapped wrap ⟨s, w⟩ = ⟨wrap s, w⟩ from rfl, looped] at inner
    cases stepped : p.stepAdvance .collecting rounds (⟨s, w⟩, seen) with
    | error h t =>
      rw [stepped] at inner
      cases inner
    | ok _ t =>
      rw [stepped] at inner
      cases inner
      obtain ⟨x, drained, same⟩ := contract.forEachRemaining obeys w seen stepped
      rw [View.through_ordered back]
      refine ⟨(x.1.wrapped wrap, x.2), (embeds.forEachRemaining ⟨s, w⟩ seen).trans ?_, same⟩
      rw [drained]
      rfl
  trySplit := by
    rintro _ ⟨s, rfl, obeys⟩ w
    simp only [View.through_ordered back, View.through_remaining back]
    have cut := embeds.trySplit ⟨s, w⟩
    rcases contract.trySplit obeys w with ⟨t, stayed, stays⟩ |
      ⟨piece, t, made, keeps, pieceObeys, pieceOrdered, somePiece, someRest, same⟩
    · rw [stayed] at cut
      exact .inl ⟨t.wrapped wrap, cut, stays.through back⟩
    · rw [made] at cut
      refine .inr ⟨wrap piece, t.wrapped wrap, cut, keeps.through back, ⟨piece, rfl, pieceObeys⟩, ?_⟩
      simp only [Site.wrapped, View.through_ordered back, View.through_remaining back]
      exact ⟨pieceOrdered, somePiece, someRest, same⟩

theorem Protocol.Measured.through {p : Protocol σ ω α} {q : Protocol τ ω α} {wrap : σ → τ} {s : σ}
    {count : Nat} (measured : p.Measured s count)
    (embeds : p.Embeds q wrap) : q.Measured (wrap s) count where
  estimateSize w := by
    refine (embeds.estimateSize ⟨s, w⟩).trans ?_
    rw [measured.estimateSize]
    rfl
  exactSizeIfKnown w := by
    refine (embeds.exactSizeIfKnown ⟨s, w⟩).trans ?_
    rw [measured.exactSizeIfKnown]
    rfl
  trySplit w := by
    have cut := embeds.trySplit ⟨s, w⟩
    rcases measured.trySplit w with ⟨t, stayed, asked⟩ |
      ⟨piece, t, part, rest, made, some, adds, askedRest, askedPart⟩
    · rw [stayed] at cut
      refine .inl ⟨t.wrapped wrap, cut, (embeds.estimateSize t).trans ?_⟩
      rw [asked]
      rfl
    · rw [made] at cut
      refine .inr ⟨wrap piece, t.wrapped wrap, part, rest, cut, some, adds,
        (embeds.estimateSize t).trans ?_, (embeds.estimateSize ⟨piece, t.shared⟩).trans ?_⟩
      · rw [askedRest]
        rfl
      · rw [askedPart]
        rfl

namespace Singleton

def view : View (Singleton α) α where
  obeys _ := True
  remaining s := s.held.toList
  flags _ := flags

theorem contract : Contract (protocol : Protocol (Singleton α) ω α) view where
  hasCharacteristics {s} obeys flags w := ⟨⟨s, w⟩, Source.hasFlags_eq rfl flags, .refl obeys⟩
  estimateSize {s} obeys w := by
    refine ⟨_, ⟨s, w⟩, rfl, .refl obeys, fun _ => ?_⟩
    cases held : s.held <;> simp [view, estimate, held, Number.same]
  tryAdvance_nil {s} _ nil w seen := by
    obtain ⟨held⟩ := s
    cases held with
    | none => exact ⟨_, rfl⟩
    | some a => cases nil
  tryAdvance_cons {s} _ some w seen := by
    obtain ⟨held⟩ := s
    cases held with
    | none => exact absurd rfl some
    | some a => exact ⟨a, _, rfl, ⟨trivial, rfl⟩, .of_eq _ rfl⟩
  forEachRemaining {s} _ w seen rounds t looped := by
    obtain ⟨held⟩ := s
    cases held with
    | none =>
      cases rounds with
      | zero => cases looped
      | succ rounds =>
        cases looped
        exact ⟨_, rfl, .of_eq _ rfl⟩
    | some a =>
      cases rounds with
      | zero => cases looped
      | succ rounds =>
        cases rounds with
        | zero => cases looped
        | succ rounds =>
          cases looped
          exact ⟨_, rfl, .of_eq _ rfl⟩
  trySplit {s} obeys w := .inl ⟨⟨s, w⟩, rfl, .refl obeys⟩

end Singleton

theorem Flawed.focus_lawful {ω α : Type} (flaw : Flaw) :
    (focus flaw : Focus (Site (Flawed ω α) ω) (Site (Indexed ω α) ω)).Lawful :=
  ⟨fun _ _ => rfl, fun _ _ _ => rfl⟩

namespace Node

variable {ρ : Type}

theorem part_lawful {wrap : τ → Node} {unwrap : Node → Option τ}
    (back : ∀ s, unwrap (wrap s) = some s) (source : τ) : (part wrap unwrap source).Lawful where
  get_put t s := by simp only [part, back, Option.getD_some]
  put_put _ _ _ := rfl

theorem play_turn {wrap : τ → Node} {unwrap : Node → Option τ}
    (back : ∀ s, unwrap (wrap s) = some s) (t : Site τ Bench → Turn (Site τ Bench) Value ρ)
    (s : Site τ Bench) (seen : Array Value) :
    (turn wrap unwrap s.own s.shared t).play Visitor.collecting.visit seen =
      Outcome.mapState (fun x => (x.1.wrapped wrap, x.2))
        ((t s).play Visitor.collecting.visit seen) :=
  Turn.play_within (part_lawful back s.own) (t s) ⟨wrap s.own, s.shared⟩ seen

theorem singleton?_singleton (s : Singleton Value) : singleton? (.singleton s) = some s := rfl

theorem indexed?_indexed (s : Flawed Bench Value) : indexed? (.indexed s) = some s := rfl

theorem singleton_embeds : Singleton.protocol.Embeds Node.protocol Node.singleton where
  tryAdvance s seen := play_turn singleton?_singleton _ s seen
  forEachRemaining s seen := play_turn singleton?_singleton _ s seen
  trySplit _ := rfl
  estimateSize _ := rfl
  exactSizeIfKnown _ := rfl
  characteristics _ := rfl
  hasCharacteristics _ _ := rfl
  comparator _ := rfl

def plain (s : Indexed Bench Value) : Node := .indexed ⟨s, .none⟩

def plain? (n : Node) : Option (Indexed Bench Value) := n.indexed?.map Flawed.source

theorem plain?_plain (s : Indexed Bench Value) : plain? (plain s) = some s := rfl

theorem play_plain (t : Site (Indexed Bench Value) Bench → Turn (Site (Indexed Bench Value) Bench)
      Value ρ) (s : Site (Indexed Bench Value) Bench) (seen : Array Value) :
    (turn .indexed indexed? ⟨s.own, .none⟩ s.shared fun s =>
        (t ⟨s.own.source, s.shared⟩).within (Flawed.focus s.own.flaw) s).play
          Visitor.collecting.visit seen =
      Outcome.mapState (fun x => (x.1.wrapped plain, x.2))
        ((t s).play Visitor.collecting.visit seen) := by
  refine (play_turn indexed?_indexed _ ⟨⟨s.own, .none⟩, s.shared⟩ seen).trans ?_
  refine (congrArg _ (Turn.play_within (Flawed.focus_lawful .none) (t s) _ seen)).trans ?_
  exact Outcome.mapState_mapState _ _ _

theorem plain_embeds : Indexed.protocol.Embeds Node.protocol plain where
  tryAdvance s seen := play_plain _ s seen
  forEachRemaining s seen := play_plain _ s seen
  trySplit s := by
    let rest : Site Node Bench := ⟨plain s.own.split.2, s.shared⟩
    exact congrArg (fun piece : Option Node => EStateM.Result.ok piece rest)
      (Option.map_map Node.indexed (Flawed.mk · .none) s.own.split.1)
  estimateSize _ := rfl
  exactSizeIfKnown s := by
    have inner : Indexed.protocol.exactSizeIfKnown s = _ := Source.exactSize_eq rfl rfl
    have outer : Node.protocol.exactSizeIfKnown (s.wrapped plain) = _ := Source.exactSize_eq rfl rfl
    rw [inner, outer]
    split <;> rfl
  characteristics _ := rfl
  hasCharacteristics _ _ := rfl
  comparator s := by
    show Outcome.mapState _ (if s.own.characteristics.contains .sorted then _ else _) = _
    show _ = Outcome.mapState _ (if s.own.characteristics.contains .sorted then _ else _)
    split <;> rfl

end Node
end SplitTraversal
