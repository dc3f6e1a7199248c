import Mathlib.Data.List.Forall2
import SplitTraversal.Proofs.FamilyAccounts
import SplitTraversal.Proofs.IndexedStrategies
import SplitTraversal.Proofs.LeafRanges

/-! The leaves of a partition at work. Each leaf reads its own range and nothing else, in ascending
order, whatever is asked of the others in between; drained left to right, the leaves make the calls
that the source would have made. -/

namespace SplitTraversal

section Lists

variable {α β : Type} {R : α → β → Prop}

theorem forall₂_set {as : List α} {bs : List β} {i : Nat} {b b' : β}
    (all : List.Forall₂ R as bs) (here : bs[i]? = some b) (new : ∀ a, R a b → R a b') :
    List.Forall₂ R as (bs.set i b') := by
  induction all generalizing i with
  | nil => exact .nil
  | cons first rest ih =>
    cases i with
    | zero =>
      cases here
      exact .cons (new _ first) rest
    | succ i => exact .cons first (ih here)

end Lists

/-- A call that consumes, on one of several leaves, which is named by its number. -/
inductive Consumption (ω τ α : Type) where
  | tryAdvance (leaf : Nat) (visitor : Visitor ω τ α)
  | forEachRemaining (leaf : Nat) (visitor : Visitor ω τ α)

def Consumption.request {ω τ α : Type} : Consumption ω τ α → Request ω τ α
  | .tryAdvance leaf visitor => .tryAdvance leaf visitor
  | .forEachRemaining leaf visitor => .forEachRemaining leaf visitor

namespace Member

variable {ω α : Type} {leaf : Indexed ω α} {m : Member ω α}

/-- All that has become of a leaf is that it has consumed a first stretch of its range, in ascending
order. -/
def Consumed (leaf : Indexed ω α) (m : Member ω α) : Prop :=
  ∃ count ≤ leaf.limit - leaf.offset,
    m.source = leaf.recording.skip count ∧ m.taken = List.range' leaf.offset count ∧
      Call.Served m.calls

theorem Consumed.noted (consumed : Consumed leaf m) : m.source.read = recordRead leaf.read := by
  obtain ⟨count, _, source, _, _⟩ := consumed
  rw [source]
  rfl

theorem Consumed.more (consumed : Consumed leaf m) {more : Nat} {calls : List (Call α)}
    (fits : more ≤ m.source.limit - m.source.offset)
    (read : Call.positions calls = List.range' m.source.offset more)
    (served : Call.Served calls) : Consumed leaf ⟨m.source.skip more, m.calls ++ calls⟩ := by
  obtain ⟨count, within, source, taken, before⟩ := consumed
  have offset : m.source.offset = leaf.offset + count := by rw [source]; rfl
  have limit : m.source.limit = leaf.limit := by rw [source]; rfl
  refine ⟨count + more, by omega, ?_, ?_, before.append served⟩
  · rw [source, Indexed.skip_skip]
  · rw [taken_consume read, taken, offset, List.range'_append_1]

theorem Consumed.exhausted (consumed : Consumed leaf m) (none : m.source.remaining = []) :
    m.taken = leaf.remaining := by
  obtain ⟨count, within, source, taken, _⟩ := consumed
  rw [source, Indexed.remaining, List.range'_eq_nil_iff] at none
  have last : leaf.limit - (leaf.offset + count) = 0 := none
  rw [taken, Indexed.remaining, show leaf.limit - leaf.offset = count by omega]

end Member

namespace Family

variable {ω τ α ρ : Type} {leaves : List (Indexed ω α)}

def beside (leaves : List (Indexed ω α)) (w : ω) (m : τ) : Family ω τ α :=
  ⟨leaves.map fun leaf => ⟨leaf.recording, []⟩, w, m⟩

theorem beside_consumed (leaves : List (Indexed ω α)) (w : ω) (m : τ) :
    List.Forall₂ Member.Consumed leaves (beside leaves w m).members := by
  refine List.forall₂_map_right_iff.mpr (List.forall₂_same.mpr fun leaf _ => ?_)
  exact ⟨0, Nat.zero_le _, rfl, rfl, .nil⟩

theorem play_consumed
    {operation : Callee → Site (Indexed (Logged ω α) α) (Logged ω α) →
      Turn (Site (Indexed (Logged ω α) α) (Logged ω α)) α ρ}
    (i : Nat) (visitor : Visitor ω τ α) (f : Family ω τ α)
    (consumes : ∀ s w m, Indexed.Consumes visitor.recording s w m
      (Protocol.play visitor.recording operation ⟨s, w⟩ m).state)
    (so : List.Forall₂ Member.Consumed leaves f.members) :
    List.Forall₂ Member.Consumed leaves (f.play operation i visitor).members := by
  unfold play
  cases found : f.members[i]? with
  | none => exact so
  | some m =>
    refine forall₂_set so found fun leaf consumed => ?_
    obtain ⟨more, fits, own, read, served⟩ := consumes_recording consumed.noted visitor
      (consumes m.source (f.shared, []) f.memory)
    rw [own]
    exact consumed.more fits read served

theorem step_consumed (f : Family ω τ α) (call : Consumption ω τ α)
    (so : List.Forall₂ Member.Consumed leaves f.members) :
    List.Forall₂ Member.Consumed leaves (f.step call.request).members := by
  cases call with
  | tryAdvance i visitor =>
    exact play_consumed i visitor f (Indexed.consumes_tryAdvance visitor.recording) so
  | forEachRemaining i visitor =>
    exact play_consumed i visitor f (Indexed.consumes_forEachRemaining visitor.recording) so

theorem run_consumed (f : Family ω τ α) (calls : List (Consumption ω τ α))
    (so : List.Forall₂ Member.Consumed leaves f.members) :
    List.Forall₂ Member.Consumed leaves (f.run (calls.map Consumption.request)).members := by
  induction calls generalizing f with
  | nil => exact so
  | cons call rest ih => exact ih _ (step_consumed f call so)

theorem taken_exhausted {members : List (Member ω α)}
    (consumed : List.Forall₂ Member.Consumed leaves members)
    (exhausted : ∀ m ∈ members, m.source.remaining = []) :
    members.map Member.taken = leaves.map Indexed.remaining := by
  induction consumed with
  | nil => rfl
  | cons first rest ih =>
    rw [List.forall_mem_cons] at exhausted
    rw [List.map_cons, List.map_cons, first.exhausted exhausted.1, ih exhausted.2]

end Family

namespace Indexed

variable {ω τ α : Type} {s : Indexed ω α} {cuts : List Nat}

theorem tiles_recording (s : Indexed ω α) (cuts : List Nat) :
    s.recording.tiles cuts = (s.tiles cuts).map recording := by
  induction cuts generalizing s with
  | nil => rfl
  | cons x xs ih => exact congrArg (_ :: ·) (ih { s with offset := x })

theorem tiles_ranges (s : Indexed ω α) (cuts : List Nat) :
    (s.tiles cuts).map (fun leaf => (leaf.offset, leaf.limit)) =
      (s.offset :: cuts).zip (cuts ++ [s.limit]) := by
  induction cuts generalizing s with
  | nil => rfl
  | cons x xs ih => exact congrArg (_ :: ·) (ih { s with offset := x })

theorem Between.remaining_tiles (between : s.Between cuts) :
    (s.tiles cuts).flatMap remaining = s.remaining := by
  induction cuts generalizing s with
  | nil => exact List.append_nil _
  | cons x xs ih =>
    obtain ⟨after, before⟩ := between.inside x (List.mem_cons_self ..)
    rw [tiles_cons, List.flatMap_cons, ih between.tail, ← remaining_split after before]

def drainEach (rounds : Nat) (strategy : Strategy) (visitor : Visitor ω τ α) :
    List (Indexed ω α) → ω × τ → Outcome Halt (ω × τ) Unit
  | [], t => .ok () t
  | leaf :: rest, t =>
    match ending (protocol.decompose rounds strategy visitor (⟨leaf, t.1⟩, t.2)) with
    | .ok _ t => drainEach rounds strategy visitor rest t
    | .error h t => .error h t

theorem drainEach_tiles (visitor : Visitor ω τ α) (callable : visitor.callee = .callable)
    (rounds : Nat) (strategy : Strategy) (between : s.Between cuts)
    (enough : s.limit - s.offset < rounds) (t : ω × τ) :
    drainEach rounds strategy visitor (s.tiles cuts) t =
      (s.sweep visitor.visit t).ending.halting := by
  induction cuts generalizing s t with
  | nil =>
    simp only [tiles_nil, drainEach, decompose_ending visitor callable rounds strategy s t.1 t.2
      enough]
    cases (s.sweep visitor.visit t).ending <;> rfl
  | cons x xs ih =>
    obtain ⟨after, before⟩ := between.inside x (List.mem_cons_self ..)
    have first := decompose_ending visitor callable rounds strategy { s with limit := x } t.1 t.2
      (by simp only; omega)
    have rest (t : ω × τ) := ih between.tail (by simp only; omega) t
    rw [tiles_cons, drainEach, first, sweep_split after before]
    cases swept : (sweep { s with limit := x } visitor.visit t).ending with
    | error e u => rw [Stretch.andThen_error swept, swept]; rfl
    | ok a u => rw [Stretch.andThen_ok swept]; exact rest u

/-- Partitioning reads nothing and leaves adjacent parts behind, the last of them the source itself.
However their consumption is interleaved, each reads its own range from left to right, and drained
in order they do what the source alone would have done. -/
theorem partition_covers (settings : Partitioner) (s : Indexed ω α) (w : ω) (rounds : Nat)
    (enough : s.limit - s.offset < rounds) :
    ∃ cuts, s.Between cuts ∧
      settings.partition protocol ⟨s, w⟩ = .ok (Partitioner.leaves (s.pieces cuts)) ⟨s.lastPart cuts, w⟩ ∧
      settings.partition protocol ⟨s.recording, (w, [])⟩ =
        .ok (Partitioner.leaves ((s.pieces cuts).map recording)) ⟨(s.lastPart cuts).recording, (w, [])⟩ ∧
      (Partitioner.leaves (s.pieces cuts)).map (Partitioner.Leaf.source (s.lastPart cuts)) =
        s.tiles cuts ∧
      (s.tiles cuts).map (fun leaf => (leaf.offset, leaf.limit)) =
        (s.offset :: cuts).zip (cuts ++ [s.limit]) ∧
      (∀ leaf ∈ s.tiles cuts, leaf.characteristics = s.characteristics ∧ leaf.read = s.read) ∧
      (∀ {τ : Type} (m : τ) (calls : List (Consumption ω τ α)),
        let f := (Family.beside (s.tiles cuts) w m).run (calls.map Consumption.request)
        List.Forall₂ Member.Consumed (s.tiles cuts) f.members ∧
          ((∀ member ∈ f.members, member.source.remaining = []) →
            f.members.map Member.taken = (s.tiles cuts).map remaining ∧
              f.members.flatMap Member.taken = s.remaining)) ∧
      ∀ {τ : Type} (visit : α → Action (ω × τ) Unit) (m : τ) (strategy whole : Strategy),
        drainEach rounds strategy (Visitor.ofFunction visit).recording
            ((s.tiles cuts).map recording) ((w, []), m) =
          ending (protocol.decompose rounds whole (Visitor.ofFunction visit).recording
            (⟨s.recording, (w, [])⟩, m)) := by
  obtain ⟨cuts, between, made⟩ := partition_eq settings s
  refine ⟨cuts, between, made s.read w, ?_, Partitioner.map_source_leaves _ _,
    tiles_ranges s cuts, ?_, ?_, ?_⟩
  · have parts := tiles_recording s cuts
    rw [tiles, tiles, List.map_append, List.map_singleton] at parts
    obtain ⟨pieces, last⟩ := List.append_inj' parts rfl
    rw [← pieces, ← List.singleton_inj.mp last]
    exact made (recordRead s.read) (w, [])
  · intro leaf here
    rw [mem_tiles here]
    exact ⟨rfl, rfl⟩
  · intro τ m calls f
    have consumed := Family.run_consumed _ calls (Family.beside_consumed (s.tiles cuts) w m)
    refine ⟨consumed, fun exhausted => ?_⟩
    have taken := Family.taken_exhausted consumed exhausted
    refine ⟨taken, ?_⟩
    rw [List.flatMap_def, taken, ← List.flatMap_def, between.remaining_tiles]
  · intro τ visit m strategy whole
    rw [← tiles_recording, drainEach_tiles _ rfl rounds strategy
      (s := s.recording) ⟨between.ascending, between.inside⟩ enough,
      decompose_ending _ rfl rounds whole s.recording (w, []) m enough]

def squaresFromTwo : Indexed Unit Nat := ⟨fun i w => .ok (i * i) w, 2, 7, .none, none, false⟩

theorem partition_covers_throwing :
    7 - 2 < 6 ∧ ∃ cuts,
      (⟨2, 3⟩ : Partitioner).partition protocol ⟨squaresFromTwo, ()⟩ =
        .ok (Partitioner.leaves (squaresFromTwo.pieces cuts)) ⟨squaresFromTwo.lastPart cuts, ()⟩ ∧
      drainEach 6 .stepAdvance (Visitor.ofFunction throwSecond).recording
          ((squaresFromTwo.tiles cuts).map recording) (((), []), []) =
        .error (.threw (.int 9))
          (((), [.read 2 (some 4), .visit 4, .read 3 (some 9), .visit 9]), [9, 4]) := by
  have enough : 7 - 2 < 6 := by decide
  obtain ⟨cuts, _, made, _, _, _, _, _, drained⟩ :=
    partition_covers ⟨2, 3⟩ squaresFromTwo () 6 enough
  exact ⟨enough, cuts, made, (drained throwSecond [] .stepAdvance .bulkDrain).trans rfl⟩

end Indexed
end SplitTraversal
