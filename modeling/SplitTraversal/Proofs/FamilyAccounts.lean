import Mathlib.Algebra.GroupWithZero.Nat
import SplitTraversal.Proofs.IndexedFamily

/-! No loss and no duplication in the family of an indexed source. What a step can do to the members
keeps the positions read and the positions remaining, together, a permutation of the first source's
range; so does every run of requests. -/

namespace SplitTraversal

namespace Member

variable {ω α : Type}

structure Kept (root : Indexed ω α) (m : Member ω α) : Prop where
  accepted : m.source.Accepted
  behind : ∀ i ∈ m.taken, i < m.source.offset
  ascending : m.taken.Pairwise (· < ·)
  served : Call.Served m.calls
  read : m.source.read = recordRead root.read
  characteristics : m.source.characteristics = root.characteristics
  order : m.source.order = root.order

variable {root : Indexed ω α} {m : Member ω α}

theorem taken_consume {count : Nat} {calls : List (Call α)}
    (read : Call.positions calls = List.range' m.source.offset count) :
    taken ⟨m.source.skip count, m.calls ++ calls⟩ =
      m.taken ++ List.range' m.source.offset count := by
  rw [taken, Call.positions_append, read, taken]

theorem share_consume {count : Nat} {calls : List (Call α)}
    (fits : count ≤ m.source.limit - m.source.offset)
    (read : Call.positions calls = List.range' m.source.offset count) :
    share ⟨m.source.skip count, m.calls ++ calls⟩ = m.share := by
  rw [share, taken_consume read, List.append_assoc, ← Indexed.remaining_skip fits, share]

theorem Kept.consume (kept : m.Kept root) {count : Nat} {calls : List (Call α)}
    (fits : count ≤ m.source.limit - m.source.offset)
    (read : Call.positions calls = List.range' m.source.offset count)
    (served : Call.Served calls) :
    Kept root ⟨m.source.skip count, m.calls ++ calls⟩ where
  accepted := kept.accepted.rest (by have := kept.accepted.offset_le; omega)
  behind i inside := by
    rw [taken_consume read, List.mem_append, List.mem_range'_1] at inside
    rw [Indexed.skip_offset]
    rcases inside with before | ⟨_, upto⟩
    · have := kept.behind i before
      omega
    · exact upto
  ascending := by
    rw [taken_consume read]
    refine List.pairwise_append.mpr ⟨kept.ascending, List.pairwise_lt_range', ?_⟩
    intro i before j within
    have := kept.behind i before
    have := (List.mem_range'_1.mp within).1
    omega
  served := kept.served.append served
  read := kept.read
  characteristics := kept.characteristics
  order := kept.order

theorem Kept.rest (kept : m.Kept root) {mid : Nat} (left : m.source.offset < mid)
    (right : mid < m.source.limit) : Kept root ⟨{ m.source with offset := mid }, m.calls⟩ where
  accepted := kept.accepted.rest (Nat.le_of_lt right)
  behind i inside := Nat.lt_trans (kept.behind i inside) left
  ascending := kept.ascending
  served := kept.served
  read := kept.read
  characteristics := kept.characteristics
  order := kept.order

theorem Kept.piece (kept : m.Kept root) {mid : Nat} (left : m.source.offset < mid)
    (right : mid < m.source.limit) : Kept root ⟨{ m.source with limit := mid }, []⟩ where
  accepted := kept.accepted.piece left right
  behind i inside := by cases inside
  ascending := .nil
  served := .nil
  read := kept.read
  characteristics := kept.characteristics
  order := kept.order

theorem Kept.size? (kept : m.Kept root) (w : ω) :
    m.size? w = some ((m.source.limit - m.source.offset : Nat) : Int) := by
  have within := kept.accepted.offset_le
  have small := kept.accepted.limit_le
  simp only [Member.size?, Indexed.protocol, Indexed.estimateSize, Indexed.estimate,
    Value.safeInteger?]
  split
  · rename_i minus
    have empty : m.source.limit - m.source.offset = 0 := by
      have := kept.accepted.minusZero minus
      omega
    rw [Number.safeInteger?_minusZero, empty]
    rfl
  · rw [Number.safeInteger?_integer (by omega)]
    congr 1
    omega

theorem Kept.trySplit (kept : m.Kept root) (w : Logged ω α) :
    ∃ piece rest, Indexed.protocol.trySplit ⟨m.source, w⟩ = .ok piece ⟨rest, w⟩ ∧
      (piece = none ↔ m.source.limit - m.source.offset < 2) ∧
      ∀ p, piece = some p →
        Indexed.create (.int p.limit) (some m.source.indexFunction)
          (some ⟨m.source.characteristics.toValue, .int m.source.offset, m.source.order⟩) =
            .ok p := by
  refine ⟨m.source.split.1, m.source.split.2, rfl, ?_, ?_⟩
  · rw [Indexed.split_eq_none_iff]
    omega
  · rcases Indexed.split_cases m.source with ⟨_, cut⟩ | ⟨mid, left, right, cut⟩
    · simp only [cut, reduceCtorEq, false_implies, implies_true]
    · intro p found
      rw [cut] at found
      cases found
      exact kept.accepted.create_piece left right

end Member

namespace Family

variable {ω τ α : Type} {root : Indexed ω α}

theorem Moves.kept {before after : List (Member ω α)} (moves : Moves before after)
    (kept : ∀ m ∈ before, m.Kept root) : ∀ m ∈ after, m.Kept root := by
  cases moves with
  | stay => exact kept
  | consume fits read served =>
    rw [List.forall_mem_append, List.forall_mem_cons] at kept ⊢
    exact ⟨kept.1, kept.2.1.consume fits read served, kept.2.2⟩
  | divide left right =>
    rw [List.forall_mem_append, List.forall_mem_cons] at kept
    rw [List.append_assoc, List.forall_mem_append, List.cons_append, List.forall_mem_cons,
      List.forall_mem_append, List.forall_mem_singleton]
    exact ⟨kept.1, kept.2.1.rest left right, kept.2.2, kept.2.1.piece left right⟩

/-- What is read and what remains are, together, the same positions after a step as before it. -/
theorem Moves.share_perm {before after : List (Member ω α)} (moves : Moves before after) :
    (after.flatMap Member.share).Perm (before.flatMap Member.share) := by
  cases moves with
  | stay => exact .refl _
  | consume fits read _ =>
    simp only [List.flatMap_append, List.flatMap_cons, Member.share_consume fits read]
    exact .refl _
  | divide left right =>
    simp only [List.flatMap_append, List.flatMap_cons, List.flatMap_nil, List.append_nil,
      Member.share, Member.taken, Call.positions_nil, List.nil_append,
      Indexed.remaining_split left right, List.append_assoc]
    refine .append_left _ (.append_left _ ?_)
    rw [← List.append_assoc, ← List.append_assoc]
    exact (List.perm_append_comm.trans (by rw [List.append_assoc]))

/-- What holds of the family of a source after any requests. -/
structure Accounts (root : Indexed ω α) (f : Family ω τ α) : Prop where
  bounds : ∀ m ∈ f.members,
    m.source.offset ≤ m.source.limit ∧ m.source.limit ≤ Number.maxSafe
  covered : (f.members.flatMap Member.share).Perm root.remaining
  disjoint : (f.members.flatMap Member.share).Nodup
  once : (f.members.flatMap Member.taken).Nodup
  ascending : ∀ m ∈ f.members, m.taken.Pairwise (· < ·)
  served : ∀ m ∈ f.members, Call.Served m.calls
  sizes : ∃ sizes : List Nat,
    f.members.map (Member.size? · f.shared) = sizes.map (fun n : Nat => some (n : Int)) ∧
      sizes.sum + (f.members.flatMap Member.taken).length = root.limit - root.offset
  traits : ∀ m ∈ f.members, m.source.read = recordRead root.read ∧
    m.source.characteristics = root.characteristics ∧ m.source.order = root.order
  trySplit : ∀ m ∈ f.members, ∀ w, ∃ piece rest,
    Indexed.protocol.trySplit ⟨m.source, w⟩ = .ok piece ⟨rest, w⟩ ∧
      (piece = none ↔ m.source.limit - m.source.offset < 2) ∧
      ∀ p, piece = some p →
        Indexed.create (.int p.limit) (some m.source.indexFunction)
          (some ⟨m.source.characteristics.toValue, .int m.source.offset, m.source.order⟩) = .ok p

theorem run_kept (f : Family ω τ α) (requests : List (Request ω τ α))
    (kept : ∀ m ∈ f.members, m.Kept root) :
    (∀ m ∈ (f.run requests).members, m.Kept root) ∧
      ((f.run requests).members.flatMap Member.share).Perm (f.members.flatMap Member.share) := by
  induction requests generalizing f with
  | nil => exact ⟨kept, .refl _⟩
  | cons request rest ih =>
    have moves := step_moves f (fun m member => (kept m member).read) request
    obtain ⟨later, perm⟩ := ih (f.step request) (moves.kept kept)
    exact ⟨later, perm.trans moves.share_perm⟩

theorem sum_sizes (members : List (Member ω α)) :
    (members.map fun m => m.source.limit - m.source.offset).sum +
        (members.flatMap Member.taken).length = (members.flatMap Member.share).length := by
  induction members with
  | nil => rfl
  | cons m rest ih =>
    simp only [List.map_cons, List.sum_cons, List.flatMap_cons, List.length_append, Member.share,
      Indexed.remaining, List.length_range', ← ih]
    omega

theorem taken_sublist (members : List (Member ω α)) :
    (members.flatMap Member.taken).Sublist (members.flatMap Member.share) := by
  induction members with
  | nil => exact .slnil
  | cons m rest ih => exact (List.sublist_append_left _ _).append ih

theorem accounts_of_kept {f : Family ω τ α} (kept : ∀ m ∈ f.members, m.Kept root)
    (perm : (f.members.flatMap Member.share).Perm root.remaining) : Accounts root f := by
  have distinct : (f.members.flatMap Member.share).Nodup := perm.nodup_iff.mpr List.nodup_range'
  refine ⟨fun m member => ⟨(kept m member).accepted.offset_le, (kept m member).accepted.limit_le⟩,
    perm, distinct, distinct.sublist (taken_sublist _), fun m member => (kept m member).ascending,
    fun m member => (kept m member).served,
    ⟨f.members.map fun m => m.source.limit - m.source.offset, ?_, ?_⟩,
    fun m member => ⟨(kept m member).read, (kept m member).characteristics, (kept m member).order⟩,
    fun m member => (kept m member).trySplit⟩
  · rw [List.map_map]
    exact List.map_congr_left fun m member => (kept m member).size? f.shared
  · rw [sum_sizes, perm.length_eq, Indexed.remaining, List.length_range']

theorem start_kept (accepted : root.Accepted) (w : ω) (m : τ) :
    ∀ member ∈ (start root w m).members, member.Kept root := by
  intro member here
  rw [start, List.mem_singleton] at here
  subst here
  exact {
    accepted := accepted.recording
    behind := fun i inside => by cases inside
    ascending := .nil
    served := .nil
    read := rfl
    characteristics := rfl
    order := rfl }

/-- Whatever is asked of the family of a source that the constructor accepts, in whatever order,
every position of its range is at all times with exactly one member or consumed exactly once: read,
and its element visited unless the read threw. -/
theorem run_accounts {length : Value} {index : Number → Action ω α}
    {options : Option (Indexed.Options α)}
    (accepted : Indexed.create length (some index) options = .ok root) (w : ω) (m : τ)
    (requests : List (Request ω τ α)) : Accounts root ((start root w m).run requests) := by
  have kept := start_kept (Indexed.create_accepted accepted) w m
  obtain ⟨later, perm⟩ := run_kept (start root w m) requests kept
  refine accounts_of_kept later (perm.trans ?_)
  simp only [start, List.flatMap_cons, List.flatMap_nil, List.append_nil, Member.share,
    Member.taken, Call.positions_nil, List.nil_append]
  exact .refl _

def throwingIndex : Number → Action Unit Number := fun n w =>
  if n = .integer 3 then .error .null w else .ok n w

def throwingVisitor : Visitor Unit (List Number) Number := .ofFunction fun n (w, seen) =>
  if seen.length = 1 then .error .undefined (w, n :: seen) else .ok () (w, n :: seen)

theorem run_accounts_throwing :
    ∃ root, Indexed.create (.int 5) (some throwingIndex)
        (some ⟨Characteristics.none.toValue, .int 1, none⟩) = .ok root ∧
      Accounts root ((start root () []).run
        [.trySplit 0, .tryAdvance 1 throwingVisitor, .forEachRemaining 0 throwingVisitor,
          .trySplit 0, .forEachRemaining 0 throwingVisitor]) := by
  have accepted : Indexed.create (.int 5) (some throwingIndex)
      (some ⟨Characteristics.none.toValue, .int 1, none⟩) = .ok _ :=
    Indexed.create_int (show 1 ≤ 5 by decide) (by decide) throwingIndex .none none
  exact ⟨_, accepted, run_accounts accepted () [] _⟩

end Family
end SplitTraversal
