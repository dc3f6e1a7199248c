import Mathlib.Algebra.Group.Nat.Defs
import SplitTraversal.Proofs.ListSources
import SplitTraversal.Proofs.SortedSets

/-! What the sample collections declare of their sources is true of every source that comes of them,
however far it has been consumed and split by then. -/

namespace SplitTraversal

variable {σ ω α : Type}

/-- The sources that come of a source: visitors consume elements of it, whatever they do with the
shared state and however they end, and splits divide it. -/
inductive Protocol.Reached (p : Protocol σ ω α) (root : σ) : σ → Prop
  | root : Reached p root root
  | tryAdvance {s : σ} {τ : Type} (above : Reached p root s) (visitor : Visitor ω τ α) (w : ω)
      (m : τ) : Reached p root (Outcome.state (play visitor p.tryAdvance ⟨s, w⟩ m)).1.own
  | forEachRemaining {s : σ} {τ : Type} (above : Reached p root s) (visitor : Visitor ω τ α) (w : ω)
      (m : τ) : Reached p root (Outcome.state (play visitor p.forEachRemaining ⟨s, w⟩ m)).1.own
  | trySplit {s : σ} (above : Reached p root s) (w : ω) :
      Reached p root (Outcome.state (p.trySplit ⟨s, w⟩)).own
  | piece {s piece : σ} {t : Site σ ω} (above : Reached p root s) (w : ω)
      (cut : p.trySplit ⟨s, w⟩ = .ok (some piece) t) : Reached p root piece

namespace Focus

variable {σ' : Type}

structure Transparent (f : Focus (Site σ' ω) (Site σ ω)) : Prop where
  shared_put (t : Site σ ω) (s : Site σ' ω) : (f.put t s).shared = t.shared
  get_put (t : Site σ ω) (s : Site σ' ω) (w : ω) : f.get ⟨(f.put t s).own, w⟩ = ⟨t.own, w⟩
  put_put (t u : Site σ ω) (s : Site σ' ω) (w : ω) : f.put t ⟨(f.put u s).own, w⟩ = f.put t s

variable {τ ρ : Type} {f : Focus (Site σ' ω) (Site σ ω)}

theorem Transparent.play_within (transparent : f.Transparent) (visit : α → Action (ω × τ) Unit)
    (t : Turn (Site σ ω) α ρ) (s : Site σ' ω) (m : τ) :
    (t.within f s).play visit m =
      Outcome.mapState (fun x => (f.put x.1 s, x.2)) (t.play visit m) := by
  induction t generalizing s m with
  | done outcome => cases outcome <;> rfl
  | offer t a resume ih =>
    simp only [Turn.within, Turn.play, transparent.shared_put]
    cases visit a (t.shared, m) with
    | ok _ x =>
      have there : Outcome.mapState f.get
          (.ok () ⟨(f.put t s).own, x.1⟩ : Outcome Thrown (Site σ' ω) Unit) =
          .ok () ⟨t.own, x.1⟩ := by
        rw [Outcome.mapState_ok, transparent.get_put]
      refine (ih _ _ x.2).trans ?_
      simp only [there, Outcome.state, transparent.put_put]
    | error e x =>
      have there : Outcome.mapState f.get
          (.error e ⟨(f.put t s).own, x.1⟩ : Outcome Thrown (Site σ' ω) Unit) =
          .error e ⟨t.own, x.1⟩ := by
        rw [Outcome.mapState_error, transparent.get_put]
      refine (ih _ _ x.2).trans ?_
      simp only [there, Outcome.state, transparent.put_put]

end Focus

namespace Indexed

structure Narrows (root s : Indexed ω α) : Prop where
  same : s = { root with offset := s.offset, limit := s.limit }
  within : s.offset ≤ s.limit
  limit_le : s.limit ≤ root.limit
  sublist : s.remaining.Sublist root.remaining

namespace Narrows

variable {root s : Indexed ω α} {mid : Nat}

theorem read (narrows : Narrows root s) : s.read = root.read := by
  rw [narrows.same]

theorem characteristics (narrows : Narrows root s) : s.characteristics = root.characteristics := by
  rw [narrows.same]

theorem order (narrows : Narrows root s) : s.order = root.order := by
  rw [narrows.same]

theorem minusZero (narrows : Narrows root s) : s.minusZero = root.minusZero := by
  rw [narrows.same]

theorem refl (within : root.offset ≤ root.limit) : Narrows root root :=
  ⟨rfl, within, Nat.le_refl _, .refl _⟩

theorem skip (narrows : Narrows root s) {count : Nat} (fits : count ≤ s.limit - s.offset) :
    Narrows root (s.skip count) where
  same := by
    rw [narrows.same]
    rfl
  within := by
    have within := narrows.within
    simp only [skip_offset, skip_limit]
    omega
  limit_le := narrows.limit_le
  sublist := by
    have suffix := remaining_skip fits
    refine .trans ?_ narrows.sublist
    rw [suffix]
    exact List.sublist_append_right _ _

theorem piece (narrows : Narrows root s) (after : s.offset < mid) (before : mid < s.limit) :
    Narrows root { s with limit := mid } where
  same := by
    rw [narrows.same]
  within := Nat.le_of_lt after
  limit_le := Nat.le_trans (Nat.le_of_lt before) narrows.limit_le
  sublist := by
    refine .trans ?_ narrows.sublist
    rw [remaining_split after before]
    exact List.sublist_append_left _ _

theorem rest (narrows : Narrows root s) (after : s.offset < mid) (before : mid < s.limit) :
    Narrows root { s with offset := mid } where
  same := by
    rw [narrows.same]
  within := Nat.le_of_lt before
  limit_le := narrows.limit_le
  sublist := by
    refine .trans ?_ narrows.sublist
    rw [remaining_split after before]
    exact List.sublist_append_right _ _

theorem consumed {τ : Type} (narrows : Narrows root s) {visitor : Visitor ω τ α} {w : ω} {m : τ}
    {t : Site (Indexed ω α) ω × τ} (consumes : Consumes visitor s w m t) :
    Narrows root t.1.own := by
  obtain ⟨count, fits, rfl⟩ := consumes
  obtain ⟨read, fewer, positions, _⟩ :=
    positions_visitFrom s.read visitor.visit count s.offset (w, m)
  have moved := narrows.skip (Nat.le_trans fewer fits)
  rw [landed, Outcome.state_mapState, positions, List.length_range']
  exact moved

theorem of_reached (within : root.offset ≤ root.limit) (reached : protocol.Reached root s) :
    Narrows root s := by
  induction reached with
  | root => exact .refl within
  | tryAdvance _ visitor w m ih => exact ih.consumed (consumes_tryAdvance visitor _ w m)
  | forEachRemaining _ visitor w m ih =>
    exact ih.consumed (consumes_forEachRemaining visitor _ w m)
  | @trySplit s _ w ih =>
    rcases trySplit_cases s w with stayed | ⟨mid, after, before, made⟩
    · rw [stayed]
      exact ih
    · rw [made]
      exact ih.rest after before
  | @piece s _ t _ w cut ih =>
    rcases trySplit_cases s w with stayed | ⟨mid, after, before, made⟩
    · rw [stayed] at cut
      cases cut
    · rw [made] at cut
      cases cut
      exact ih.piece after before

end Narrows
end Indexed

namespace Node

variable {τ ρ : Type}

theorem part_transparent {κ : Type} {wrap : κ → Node} {unwrap : Node → Option κ}
    (back : ∀ k, unwrap (wrap k) = some k) (source : κ) :
    (part wrap unwrap source).Transparent where
  shared_put _ _ := rfl
  get_put t s w := by simp only [part, back, Option.getD_some]
  put_put _ _ _ _ := rfl

theorem play_flawless (visitor : Visitor Bench τ Value)
    (t : Site (Indexed Bench Value) Bench → Turn (Site (Indexed Bench Value) Bench) Value ρ)
    (s : Site (Indexed Bench Value) Bench) (m : τ) :
    (turn .indexed indexed? ⟨s.own, .none⟩ s.shared fun s =>
        (t ⟨s.own.source, s.shared⟩).within (Flawed.focus s.own.flaw) s).play visitor.visit m =
      Outcome.mapState (fun x => (x.1.wrapped plain, x.2)) ((t s).play visitor.visit m) := by
  have outer := part_transparent indexed?_indexed (⟨s.own, .none⟩ : Flawed Bench Value)
  have inner : (Flawed.focus (ω := Bench) (α := Value) .none).Transparent :=
    ⟨fun _ _ => rfl, fun _ _ _ => rfl, fun _ _ _ _ => rfl⟩
  have wrapped := inner.play_within visitor.visit (t s) ⟨⟨s.own, .none⟩, s.shared⟩ m
  have whole := outer.play_within visitor.visit
    ((t s).within (Flawed.focus .none) ⟨⟨s.own, .none⟩, s.shared⟩)
    ⟨.indexed ⟨s.own, .none⟩, s.shared⟩ m
  rw [wrapped] at whole
  exact whole.trans (Outcome.mapState_mapState _ _ _)

theorem plain_of_reached {source : Indexed Bench Value} {n : Node}
    (reached : protocol.Reached (plain source) n) :
    ∃ s, n = plain s ∧ Indexed.protocol.Reached source s := by
  induction reached with
  | root => exact ⟨source, rfl, .root⟩
  | tryAdvance _ visitor w m ih =>
    obtain ⟨s, rfl, inner⟩ := ih
    have played := play_flawless visitor (Indexed.tryAdvance visitor.callee) ⟨s, w⟩ m
    refine ⟨_, ?_, inner.tryAdvance visitor w m⟩
    refine (congrArg (fun o => (Outcome.state o).1.own) played).trans ?_
    rw [Outcome.state_mapState]
    rfl
  | forEachRemaining _ visitor w m ih =>
    obtain ⟨s, rfl, inner⟩ := ih
    have played := play_flawless visitor (Indexed.forEachRemaining visitor.callee) ⟨s, w⟩ m
    refine ⟨_, ?_, inner.forEachRemaining visitor w m⟩
    refine (congrArg (fun o => (Outcome.state o).1.own) played).trans ?_
    rw [Outcome.state_mapState]
    rfl
  | trySplit _ w ih =>
    obtain ⟨s, rfl, inner⟩ := ih
    have cut := plain_embeds.trySplit ⟨s, w⟩
    refine ⟨_, ?_, inner.trySplit w⟩
    refine (congrArg (fun o => (Outcome.state o).own) cut).trans ?_
    cases Indexed.protocol.trySplit ⟨s, w⟩ <;> rfl
  | piece _ w cut ih =>
    obtain ⟨s, rfl, inner⟩ := ih
    have whole := plain_embeds.trySplit ⟨s, w⟩
    rcases Indexed.trySplit_cases s w with stayed | ⟨mid, after, before, made⟩
    · rw [stayed] at whole
      cases cut.symm.trans whole
    · rw [made] at whole
      cases cut.symm.trans whole
      exact ⟨_, rfl, inner.piece w made⟩

/-- What remains of a source is what its flags say: every strategy collects it in order, none of it
is null or undefined, and the source and its parts know how much it is. -/
structure Honest (n : Node) (flags : Characteristics) (remaining : List Value) : Prop where
  declared (b : Bench) : protocol.hasCharacteristics flags ⟨n, b⟩ = .ok true ⟨n, b⟩
  collected (rounds : Nat) (strategy : Strategy) (b : Bench) (enough : remaining.length < rounds) :
    ∃ t, protocol.collect rounds strategy ⟨n, b⟩ = .ok remaining t
  nonnull (v : Value) (held : v ∈ remaining) : v.isNullish = false
  measured : protocol.Measured n remaining.length

/-- It is strictly ascending under the comparator, too, which tells any two elements apart. -/
structure Ascending (n : Node) (order : Option (Comparator Value)) (remaining : List Value) :
    Prop where
  comparator (b : Bench) : protocol.comparator ⟨n, b⟩ = .ok order ⟨n, b⟩
  ascending : remaining.Pairwise fun x y =>
    (order.getD naturalOrder).Answers x y .lt ∧ (order.getD naturalOrder).Answers y x .gt

section Holding

variable {elements : List Value} {flags : Characteristics} {order : Option (Comparator Value)}
  {n : Node}

theorem narrows_of_reached (reached : protocol.Reached (holding elements flags order) n) :
    ∃ s, n = plain s ∧ Indexed.Narrows (Indexed.holding elements flags order) s := by
  obtain ⟨s, rfl, inner⟩ := plain_of_reached reached
  exact ⟨s, rfl, .of_reached (Nat.zero_le _) inner⟩

theorem narrows_sublist {s : Indexed Bench Value}
    (narrows : Indexed.Narrows (Indexed.holding elements flags order) s) :
    (s.remaining.map (Indexed.elementAt elements)).Sublist elements := by
  have whole : (Indexed.holding elements flags order : Indexed Bench Value).remaining.map
      (Indexed.elementAt elements) = elements := Indexed.holding_remaining
  have fewer := narrows.sublist.map (Indexed.elementAt elements)
  rwa [whole] at fewer

theorem Honest.of_narrows {s : Indexed Bench Value}
    (narrows : Indexed.Narrows (Indexed.holding elements flags order) s)
    (small : elements.length ≤ Number.maxSafe)
    (inOrder : flags.hasAll (.ofFlag .ordered) = true)
    (nonnull : ∀ v ∈ elements, v.isNullish = false) :
    Honest (plain s) (flags.union Indexed.sizedFlags)
      (s.remaining.map (Indexed.elementAt elements)) := by
  have flagged : s.characteristics = flags.union Indexed.sizedFlags := narrows.characteristics
  have plus : s.minusZero = false := narrows.minusZero
  have upto : s.limit ≤ elements.length := narrows.limit_le
  have obeys : (listing elements).obeys (plain s) := by
    refine ⟨s, rfl, ⟨narrows.within, Nat.le_trans upto small, ?_, ?_⟩, ?_⟩
    · rw [flagged, Characteristics.union_assoc, Characteristics.union_self]
    · rw [plus]
      exact nofun
    · rw [Indexed.Reads, narrows.read]
      exact fun i w => ⟨w, rfl⟩
  have remaining : (listing elements).remaining (plain s) =
      s.remaining.map (Indexed.elementAt elements) := View.through_remaining plain?_plain s
  have declares : (listing elements).flags (plain s) = flags.union Indexed.sizedFlags :=
    (View.through_flags plain?_plain s).trans flagged
  have ordered : (listing elements).ordered (plain s) = true := by
    rw [View.ordered, declares, Characteristics.union_comm]
    exact Characteristics.hasAll_union _ inOrder
  have count : (s.remaining.map (Indexed.elementAt elements)).length = s.limit - s.offset := by
    rw [List.length_map, Indexed.remaining, List.length_range']
  refine ⟨?_, ?_, ?_, ?_⟩
  · intro b
    rw [listing_hasCharacteristics obeys, declares]
    simp only [Characteristics.hasAll, Characteristics.inter, BitVec.and_self, beq_self_eq_true]
  · intro rounds strategy b enough
    rw [← remaining] at enough ⊢
    obtain ⟨collected, t, ended, same⟩ :=
      (listing_contract elements).collect obeys rounds strategy b enough
    rw [same.2 ordered] at ended
    exact ⟨t, ended⟩
  · intro v held
    exact nonnull v ((narrows_sublist narrows).subset held)
  · rw [count]
    refine (Indexed.measured plus narrows.within ?_).through plain_embeds
    rw [flagged]
    exact Characteristics.hasAll_union _ (by decide)

theorem Ascending.of_narrows {s : Indexed Bench Value}
    (narrows : Indexed.Narrows (Indexed.holding elements flags order) s)
    (sorted : (flags.union Indexed.sizedFlags).contains .sorted = true)
    (ascending : elements.Pairwise fun x y =>
      (order.getD naturalOrder).Answers x y .lt ∧ (order.getD naturalOrder).Answers y x .gt) :
    Ascending (plain s) order (s.remaining.map (Indexed.elementAt elements)) := by
  refine ⟨?_, ascending.sublist (narrows_sublist narrows)⟩
  intro b
  have flagged : s.characteristics.contains .sorted = true := by
    rw [narrows.characteristics]
    exact sorted
  have ordered : s.order = order := narrows.order
  have inner : Indexed.protocol.comparator ⟨s, b⟩ = .ok order ⟨s, b⟩ := by
    rw [← ordered]
    exact if_pos flagged
  refine (plain_embeds.comparator ⟨s, b⟩).trans ?_
  rw [inner]
  rfl

end Holding

end Node

namespace Comparator

theorem TotalPreorder.restrict {compare : Comparator α} {among fewer : α → Prop}
    (preorder : compare.TotalPreorder among) (within : ∀ a, fewer a → among a) :
    compare.TotalPreorder fewer where
  total left right := preorder.total (within _ left) (within _ right)
  swap left right := preorder.swap (within _ left) (within _ right)
  trans left middle right := preorder.trans (within _ left) (within _ middle) (within _ right)

end Comparator

namespace Collection

variable {among : Value → Prop}

/-- Null and undefined are refused, so that they need not be among the values that are ordered. -/
theorem Sample.nonnull {c : Collection} (sample : Sample among c) :
    Sample (fun v => among v ∧ v.isNullish = false) c := by
  induction sample with
  | arrayList c => exact .arrayList c
  | immutableList c => exact .immutableList c
  | single c => exact .single c
  | sortedSet lawful fit created =>
    refine .sortedSet ?_ ?_ created
    · intro compare own
      exact (lawful compare own).restrict fun v held => held.1
    · intro v here given
      exact ⟨fit v here given, given⟩
  | added _ v fits ih => exact ih.added v fun given => ⟨fits given, given⟩
  | removed _ v ih => exact ih.removed v

theorem Sample.sorted {c : SortedSet} (sample : Sample among (.sortedSet c)) :
    (∀ v ∈ c.elements, v.isNullish = false) ∧
      c.elements.Pairwise fun x y => c.compare.Answers x y .lt ∧ c.compare.Answers y x .gt := by
  have ordered : c.Ordered fun v => among v ∧ v.isNullish = false := sample.nonnull.sound
  refine ⟨fun v held => (ordered.held v held).2, ?_⟩
  refine ordered.ascending.imp_of_mem ?_
  intro x y heldX heldY less
  exact ⟨less, ordered.consistent.swap (ordered.held x heldX) (ordered.held y heldY) less⟩

end Collection

def SortedSet.declared : Characteristics := SortedSet.flags.union Indexed.sizedFlags

def ImmutableList.declared : Characteristics := ImmutableList.flags.union Indexed.sizedFlags

/-- Whatever has come of a source of a sorted set is still ascending under the comparator that it
reports, free of nulls and of a known size, and so are its parts; whatever has come of a source of
an immutable list is still free of nulls and of a known size. -/
theorem Collection.declared_honestly :
    (∀ (among : Value → Prop) (c : SortedSet), Sample among (.sortedSet c) →
      c.elements.length < 2 ^ 31 → ∀ b root t, c.subject.splitSource b = .ok root t →
        ∀ n, Node.protocol.Reached root n → ∃ remaining, remaining.Sublist c.elements ∧
          n.Honest SortedSet.declared remaining ∧ n.Ascending c.order remaining) ∧
    ∀ name elements l, ImmutableList.create name elements = .ok l →
      l.elements.length ≤ Number.maxSafe → ∀ b root t, l.subject.splitSource b = .ok root t →
        ∀ n, Node.protocol.Reached root n → ∃ remaining, remaining.Sublist l.elements ∧
          n.Honest ImmutableList.declared remaining := by
  constructor
  · rintro among c sample few b root t handed n reached
    cases handed
    have safe : c.elements.length ≤ Number.maxSafe := by
      rw [Number.maxSafe]
      omega
    obtain ⟨nonnull, ascending⟩ := sample.sorted
    obtain ⟨s, rfl, narrows⟩ := Node.narrows_of_reached reached
    exact ⟨_, Node.narrows_sublist narrows, .of_narrows narrows safe (by decide) nonnull,
      .of_narrows narrows (by decide) ascending⟩
  · rintro name elements l created safe b root t handed n reached
    cases handed
    obtain ⟨s, rfl, narrows⟩ := Node.narrows_of_reached reached
    exact ⟨_, Node.narrows_sublist narrows, .of_narrows narrows safe (by decide) l.nonnull⟩

/-- A set of three numbers, added in another order. The source is split after its first element has
been consumed by a visitor that throws. -/
theorem Collection.declared_honestly_threeNumbers :
    let set : SortedSet := ⟨"numbers", [.int 1, .int 2, .int 3], none⟩
    let root : Node := .holding set.elements SortedSet.flags none
    let list : ImmutableList := ⟨"numbers", [.int 1], by decide⟩
    let throwing : Visitor Bench Unit Value := .ofFunction fun a s => .error a s
    let consumed := (Outcome.state
      (Protocol.play throwing Node.protocol.tryAdvance ⟨root, .empty⟩ ())).1.own
    let rest := (Outcome.state (Node.protocol.trySplit ⟨consumed, .empty⟩)).own
    Sample (fun _ => True) (.sortedSet set) ∧ set.elements.length < 2 ^ 31 ∧
      set.subject.splitSource .empty = .ok root .empty ∧ Node.protocol.Reached root rest ∧
      (∃ remaining, remaining.Sublist set.elements ∧
        rest.Honest SortedSet.declared remaining ∧ rest.Ascending none remaining) ∧
      ImmutableList.create "numbers" [.int 1] = .ok list ∧
      ∃ remaining, remaining.Sublist list.elements ∧
        (Node.holding list.elements ImmutableList.flags none).Honest ImmutableList.declared
          remaining := by
  intro set root list throwing consumed rest
  have created : SortedSet.create "numbers" [.int 3, .int 1, .int 2] none = .ok set := rfl
  have sample : Sample (fun _ => True) (.sortedSet set) :=
    .sortedSet (fun _ own => by cases own) (fun _ _ _ => trivial) created
  have reached : Node.protocol.Reached root rest :=
    .trySplit (.tryAdvance .root throwing .empty ()) .empty
  have few : set.elements.length < 2 ^ 31 := by decide
  have safe : list.elements.length ≤ Number.maxSafe := by decide
  exact ⟨sample, few, rfl, reached,
    declared_honestly.1 _ set sample few .empty root .empty rfl rest reached, rfl,
    declared_honestly.2 "numbers" [.int 1] list rfl safe .empty _ .empty rfl _ .root⟩

end SplitTraversal
