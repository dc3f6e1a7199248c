import SplitTraversal.Proofs.IndexedAccepted
import SplitTraversal.Proofs.IndexedPlay

/-! The family of an indexed source: the source itself and all that is split off it, at any depth.
Requests reach its members in any order, and index function and visitors may throw. Every position
of the first source is at all times either still with one member or already read by one. -/

namespace SplitTraversal

abbrev Logged (ω α : Type) := ω × List (Call α)

/-- A source of a family, with the calls made while working on it. -/
structure Member (ω α : Type) where
  source : Indexed (Logged ω α) α
  calls : List (Call α)

structure Family (ω τ α : Type) where
  members : List (Member ω α)
  shared : ω
  memory : τ

inductive Request (ω τ α : Type) where
  | tryAdvance (member : Nat) (visitor : Visitor ω τ α)
  | forEachRemaining (member : Nat) (visitor : Visitor ω τ α)
  | trySplit (member : Nat)

namespace Indexed

variable {ω α : Type}

def remaining (s : Indexed ω α) : List Nat := List.range' s.offset (s.limit - s.offset)

def recording (s : Indexed ω α) : Indexed (Logged ω α) α := { s with read := recordRead s.read }

theorem Accepted.recording {s : Indexed ω α} (accepted : s.Accepted) : s.recording.Accepted :=
  ⟨accepted.offset_le, accepted.limit_le, accepted.flags, accepted.minusZero⟩

theorem remaining_skip {s : Indexed ω α} {count : Nat} (fits : count ≤ s.limit - s.offset) :
    s.remaining = List.range' s.offset count ++ (s.skip count).remaining := by
  have whole : s.limit - s.offset = count + (s.limit - (s.offset + count)) := by omega
  rw [remaining, whole, ← List.range'_append_1]
  rfl

theorem remaining_split {s : Indexed ω α} {mid : Nat} (after : s.offset < mid)
    (before : mid < s.limit) :
    s.remaining = ({ s with limit := mid } : Indexed ω α).remaining ++
      ({ s with offset := mid } : Indexed ω α).remaining := by
  have whole : s.limit - s.offset = (mid - s.offset) + (s.limit - mid) := by omega
  have meet : s.offset + (mid - s.offset) = mid := by omega
  rw [remaining, whole, ← List.range'_append_1, meet]
  rfl

end Indexed

namespace Member

variable {ω α : Type}

def taken (m : Member ω α) : List Nat := Call.positions m.calls

def share (m : Member ω α) : List Nat := m.taken ++ m.source.remaining

def size? (m : Member ω α) (w : ω) : Option Int :=
  match Indexed.protocol.estimateSize ⟨m.source, (w, [])⟩ with
  | .ok size _ => size.safeInteger?
  | .error _ _ => none

end Member

namespace Family

variable {ω τ α ρ : Type}

def start (root : Indexed ω α) (w : ω) (m : τ) : Family ω τ α := ⟨[⟨root.recording, []⟩], w, m⟩

def play
    (operation : Callee → Site (Indexed (Logged ω α) α) (Logged ω α) →
      Turn (Site (Indexed (Logged ω α) α) (Logged ω α)) α ρ)
    (i : Nat) (visitor : Visitor ω τ α) (f : Family ω τ α) : Family ω τ α :=
  match f.members[i]? with
  | none => f
  | some m =>
    let after :=
      (Protocol.play visitor.recording operation ⟨m.source, (f.shared, [])⟩ f.memory).state
    { members := f.members.set i ⟨after.1.own, m.calls ++ after.1.shared.2⟩
      shared := after.1.shared.1
      memory := after.2 }

def split (i : Nat) (f : Family ω τ α) : Family ω τ α :=
  match f.members[i]? with
  | none => f
  | some m =>
    match Indexed.protocol.trySplit ⟨m.source, (f.shared, [])⟩ with
    | .ok piece after =>
      { f with
        members := f.members.set i ⟨after.own, m.calls ++ after.shared.2⟩ ++
          (piece.map fun source => ⟨source, []⟩).toList
        shared := after.shared.1 }
    | .error _ after =>
      { f with
        members := f.members.set i ⟨after.own, m.calls ++ after.shared.2⟩
        shared := after.shared.1 }

def step (f : Family ω τ α) : Request ω τ α → Family ω τ α
  | .tryAdvance i visitor => f.play Indexed.protocol.tryAdvance i visitor
  | .forEachRemaining i visitor => f.play Indexed.protocol.forEachRemaining i visitor
  | .trySplit i => f.split i

def run (f : Family ω τ α) (requests : List (Request ω τ α)) : Family ω τ α :=
  requests.foldl step f

/-- Everything a step can do to the members: nothing, move one past positions that it read and
served, or divide one. -/
inductive Moves : List (Member ω α) → List (Member ω α) → Prop
  | stay (members : List (Member ω α)) : Moves members members
  | consume {before after : List (Member ω α)} {m : Member ω α} {count : Nat}
      {calls : List (Call α)} (fits : count ≤ m.source.limit - m.source.offset)
      (read : Call.positions calls = List.range' m.source.offset count)
      (served : Call.Served calls) :
      Moves (before ++ m :: after) (before ++ ⟨m.source.skip count, m.calls ++ calls⟩ :: after)
  | divide {before after : List (Member ω α)} {m : Member ω α} {mid : Nat}
      (left : m.source.offset < mid) (right : mid < m.source.limit) :
      Moves (before ++ m :: after)
        (before ++ ⟨{ m.source with offset := mid }, m.calls⟩ :: after ++
          [⟨{ m.source with limit := mid }, []⟩])

theorem consumes_recording {index : Nat → Action ω α} {s : Indexed (Logged ω α) α}
    (noted : s.read = recordRead index) (visitor : Visitor ω τ α) {w : ω} {m : τ}
    {after : Site (Indexed (Logged ω α) α) (Logged ω α) × τ}
    (consumes : Indexed.Consumes visitor.recording s (w, []) m after) :
    ∃ count ≤ s.limit - s.offset, after.1.own = s.skip count ∧
      Call.positions after.1.shared.2 = List.range' s.offset count ∧
      Call.Served after.1.shared.2 := by
  obtain ⟨most, fits, rfl⟩ := consumes
  obtain ⟨count, less, read, _⟩ := positions_visitFrom index visitor.visit most s.offset (w, m)
  have served := served_visitFrom index visitor.visit most s.offset (w, m)
  refine ⟨count, Nat.le_trans less fits, ?_⟩
  rw [noted, Visitor.recording, visitFrom_recorded, Indexed.landed, Outcome.state_mapState]
  simp only [Stretch.recorded, Outcome.state_mapState, List.nil_append, read, List.length_range']
  exact ⟨trivial, trivial, served⟩

theorem exists_parts {members : List (Member ω α)} {i : Nat} {m : Member ω α}
    (at_i : members[i]? = some m) :
    ∃ before after, members = before ++ m :: after ∧
      ∀ m', members.set i m' = before ++ m' :: after := by
  obtain ⟨bound, rfl⟩ := List.getElem?_eq_some_iff.mp at_i
  have put (m' : Member ω α) : members.set i m' = members.take i ++ m' :: members.drop (i + 1) := by
    rw [List.set_eq_take_append_cons_drop, if_pos bound]
  exact ⟨_, _, (List.set_getElem_self bound).symm.trans (put _), put⟩

theorem play_moves {index : Nat → Action ω α}
    {operation : Callee → Site (Indexed (Logged ω α) α) (Logged ω α) →
      Turn (Site (Indexed (Logged ω α) α) (Logged ω α)) α ρ}
    (i : Nat) (visitor : Visitor ω τ α) (f : Family ω τ α)
    (noted : ∀ m ∈ f.members, m.source.read = recordRead index)
    (consumes : ∀ s w m, Indexed.Consumes visitor.recording s w m
      (Protocol.play visitor.recording operation ⟨s, w⟩ m).state) :
    Moves f.members (f.play operation i visitor).members := by
  unfold play
  cases found : f.members[i]? with
  | none => exact .stay _
  | some m =>
    obtain ⟨before, after, parts, put⟩ := exists_parts found
    obtain ⟨count, fits, own, read, served⟩ :=
      consumes_recording (noted m (List.mem_of_getElem? found)) visitor
        (consumes m.source (f.shared, []) f.memory)
    simp only [put, own]
    rw [parts]
    exact .consume fits read served

theorem split_moves (i : Nat) (f : Family ω τ α) : Moves f.members (f.split i).members := by
  unfold split
  cases found : f.members[i]? with
  | none => exact .stay _
  | some m =>
    obtain ⟨before, after, parts, put⟩ := exists_parts found
    simp only [Indexed.protocol, Indexed.trySplit, put, List.append_nil]
    rw [parts]
    rcases Indexed.split_cases m.source with ⟨_, cut⟩ | ⟨mid, left, right, cut⟩
    · simp only [cut, Option.map_none, Option.toList_none, List.append_nil]
      exact .stay _
    · simp only [cut, Option.map_some, Option.toList_some]
      exact .divide left right

theorem step_moves {index : Nat → Action ω α} (f : Family ω τ α)
    (noted : ∀ m ∈ f.members, m.source.read = recordRead index) (request : Request ω τ α) :
    Moves f.members (f.step request).members := by
  cases request with
  | tryAdvance i visitor =>
    exact play_moves i visitor f noted (Indexed.consumes_tryAdvance visitor.recording)
  | forEachRemaining i visitor =>
    exact play_moves i visitor f noted (Indexed.consumes_forEachRemaining visitor.recording)
  | trySplit i => exact split_moves i f

end Family
end SplitTraversal
