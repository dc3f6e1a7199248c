import SplitTraversal.Traversal.Decompose

/-! The calls that operations of indexed sources make: of the index function and of the visitor, in
the order in which they are made. Reading and visiting a range position by position up to the first
throw is stated once, as `visitFrom`, and every operation that consumes elements is a run of it. -/

namespace SplitTraversal

namespace Outcome

variable {ε S T U ρ : Type}

@[simp] theorem mapState_ok (f : S → T) (a : ρ) (s : S) :
    mapState f (.ok a s : Outcome ε S ρ) = .ok a (f s) := rfl

@[simp] theorem mapState_error (f : S → T) (e : ε) (s : S) :
    mapState f (.error e s : Outcome ε S ρ) = .error e (f s) := rfl

theorem mapState_mapState (f : S → T) (g : T → U) (o : Outcome ε S ρ) :
    mapState g (mapState f o) = mapState (fun s => g (f s)) o := by
  cases o <;> rfl

theorem state_mapState (f : S → T) (o : Outcome ε S ρ) : (mapState f o).state = f o.state := by
  cases o <;> rfl

def answer? : Outcome ε S ρ → Option ρ
  | .ok a _ => some a
  | .error _ _ => none

def answering (a : ρ) : Outcome ε S Unit → Outcome ε S ρ
  | .ok _ s => .ok a s
  | .error e s => .error e s

def halting : Outcome Thrown S ρ → Outcome Halt S ρ
  | .ok a s => .ok a s
  | .error e s => .error (.threw e) s

theorem mapState_id (o : Outcome ε S ρ) : mapState (fun s => s) o = o := by
  cases o <;> rfl

theorem halting_mapState (f : S → T) (o : Outcome Thrown S ρ) :
    (mapState f o).halting = mapState f o.halting := by
  cases o <;> rfl

theorem eq_ok_of_halting {o : Outcome Thrown S ρ} {a : ρ} {s : S} (h : o.halting = .ok a s) :
    o = .ok a s := by
  cases o <;> cases h
  rfl

theorem eq_error_of_halting {o : Outcome Thrown S ρ} {h : Halt} {s : S}
    (halted : o.halting = .error h s) : ∃ e, h = .threw e ∧ o = .error e s := by
  cases o <;> cases halted
  exact ⟨_, rfl, rfl⟩

end Outcome

namespace Protocol

variable {σ ω τ α : Type} (p : Protocol σ ω α) (visitor : Visitor ω τ α)

theorem bulkDrain_eq (s : Site σ ω) (m : τ) :
    p.bulkDrain visitor (s, m) = (play visitor p.forEachRemaining s m).halting := by
  simp only [bulkDrain]
  cases play visitor p.forEachRemaining s m <;> rfl

def onward (rounds : Nat) (own : σ) :
    Outcome Halt (Site σ ω × τ) Unit → Outcome Halt (Site σ ω × τ) Unit
  | .ok _ t => p.maximumSplit visitor rounds (⟨own, t.1.shared⟩, t.2)
  | .error h t => .error h (⟨own, t.1.shared⟩, t.2)

variable {p visitor} {s : σ} {w : ω} {t : Site σ ω}

theorem maximumSplit_error {e : Thrown} (threw : p.trySplit ⟨s, w⟩ = .error e t) (rounds : Nat)
    (m : τ) : p.maximumSplit visitor (rounds + 1) (⟨s, w⟩, m) = .error (.threw e) (t, m) := by
  simp only [maximumSplit, threw]

theorem maximumSplit_none (stayed : p.trySplit ⟨s, w⟩ = .ok none t) (rounds : Nat) (m : τ) :
    p.maximumSplit visitor (rounds + 1) (⟨s, w⟩, m) = p.bulkDrain visitor (t, m) := by
  simp only [maximumSplit, stayed]

theorem maximumSplit_some {piece : σ} (cut : p.trySplit ⟨s, w⟩ = .ok (some piece) t)
    (rounds : Nat) (m : τ) :
    p.maximumSplit visitor (rounds + 1) (⟨s, w⟩, m) =
      p.onward visitor rounds t.own (p.maximumSplit visitor rounds (⟨piece, t.shared⟩, m)) := by
  simp only [maximumSplit, cut]
  cases p.maximumSplit visitor rounds (⟨piece, t.shared⟩, m) <;> rfl

end Protocol

inductive Call (α : Type) where
  | read (position : Nat) (returned : Option α)
  | visit (element : α)
deriving DecidableEq, Repr

namespace Call

variable {α : Type}

def position? : Call α → Option Nat
  | .read i _ => some i
  | .visit _ => none

def positions (calls : List (Call α)) : List Nat := calls.filterMap position?

@[simp] theorem positions_nil : positions ([] : List (Call α)) = [] := rfl

@[simp] theorem positions_append (first next : List (Call α)) :
    positions (first ++ next) = positions first ++ positions next := List.filterMap_append

/-- Each element that was read is visited next, and nothing else is. -/
inductive Served : List (Call α) → Prop
  | nil : Served []
  | threw (i : Nat) {rest : List (Call α)} (later : Served rest) : Served (.read i none :: rest)
  | visited (i : Nat) (a : α) {rest : List (Call α)} (later : Served rest) :
      Served (.read i (some a) :: .visit a :: rest)

theorem Served.append {first next : List (Call α)} (served : Served first) (later : Served next) :
    Served (first ++ next) := by
  induction served with
  | nil => exact later
  | threw i _ ih => exact .threw i ih
  | visited i a _ ih => exact .visited i a ih

end Call

structure Stretch (S α : Type) where
  calls : List (Call α)
  ending : Outcome Thrown S Unit

namespace Stretch

variable {S α : Type}

def nothing (s : S) : Stretch S α := ⟨[], .ok () s⟩

def andThen (first : Stretch S α) (next : S → Stretch S α) : Stretch S α :=
  match first.ending with
  | .ok _ s => ⟨first.calls ++ (next s).calls, (next s).ending⟩
  | .error e s => ⟨first.calls, .error e s⟩

@[simp] theorem nothing_andThen (s : S) (next : S → Stretch S α) :
    (nothing s).andThen next = next s := rfl

theorem andThen_ok {first : Stretch S α} {s : S} (returned : first.ending = .ok () s)
    (next : S → Stretch S α) :
    first.andThen next = ⟨first.calls ++ (next s).calls, (next s).ending⟩ := by
  simp only [andThen, returned]

theorem andThen_error {first : Stretch S α} {e : Thrown} {s : S}
    (threw : first.ending = .error e s) (next : S → Stretch S α) : first.andThen next = first := by
  simp only [andThen, threw]
  rw [← threw]

theorem andThen_assoc (first : Stretch S α) (second third : S → Stretch S α) :
    (first.andThen second).andThen third = first.andThen fun s => (second s).andThen third := by
  cases h : first.ending with
  | error e s => simp only [andThen, h]
  | ok a s => cases k : (second s).ending <;> simp only [andThen, h, k, List.append_assoc]

end Stretch

section Visiting

variable {ω τ α : Type}

def visitAt (read : Nat → Action ω α) (visit : α → Action (ω × τ) Unit) (i : Nat) (s : ω × τ) :
    Stretch (ω × τ) α :=
  match read i s.1 with
  | .error e w => ⟨[.read i none], .error e (w, s.2)⟩
  | .ok a w => ⟨[.read i (some a), .visit a], visit a (w, s.2)⟩

/-- Read and visit a number of positions from `i` on, in ascending order, up to the first throw. -/
def visitFrom (read : Nat → Action ω α) (visit : α → Action (ω × τ) Unit) :
    Nat → Nat → ω × τ → Stretch (ω × τ) α
  | 0, _, s => .nothing s
  | count + 1, i, s => (visitAt read visit i s).andThen (visitFrom read visit count (i + 1))

variable (read : Nat → Action ω α) (visit : α → Action (ω × τ) Unit)

theorem visitFrom_one (i : Nat) (s : ω × τ) :
    visitFrom read visit 1 i s = visitAt read visit i s := by
  cases h : (visitAt read visit i s).ending with
  | error e t => exact Stretch.andThen_error h _
  | ok a t =>
    refine (Stretch.andThen_ok h _).trans ?_
    simp only [visitFrom, Stretch.nothing, List.append_nil]
    rw [← h]

theorem visitFrom_add (a b i : Nat) (s : ω × τ) :
    visitFrom read visit (a + b) i s =
      (visitFrom read visit a i s).andThen (visitFrom read visit b (i + a)) := by
  induction a generalizing i s with
  | zero => simp only [Nat.zero_add, Nat.add_zero, visitFrom, Stretch.nothing_andThen]
  | succ a ih =>
    have shift : i + (a + 1) = i + 1 + a := by omega
    rw [Nat.succ_add, visitFrom, visitFrom, Stretch.andThen_assoc, shift]
    congr 1
    funext t
    exact ih (i + 1) t

theorem positions_visitAt (i : Nat) (s : ω × τ) :
    Call.positions (visitAt read visit i s).calls = [i] := by
  unfold visitAt
  cases read i s.1 <;> rfl

theorem served_visitAt (i : Nat) (s : ω × τ) : Call.Served (visitAt read visit i s).calls := by
  unfold visitAt
  cases read i s.1 with
  | error e w => exact .threw i .nil
  | ok a w => exact .visited i a .nil

theorem served_visitFrom (count i : Nat) (s : ω × τ) :
    Call.Served (visitFrom read visit count i s).calls := by
  induction count generalizing i s with
  | zero => exact .nil
  | succ count ih =>
    have first := served_visitAt read visit i s
    cases h : (visitAt read visit i s).ending with
    | error e t =>
      rw [visitFrom, Stretch.andThen_error h]
      exact first
    | ok a t =>
      rw [visitFrom, Stretch.andThen_ok h]
      exact first.append (ih (i + 1) t)

/-- The positions read are the first ones of the range, and all of them where nothing throws. -/
theorem positions_visitFrom (count i : Nat) (s : ω × τ) :
    ∃ k ≤ count, Call.positions (visitFrom read visit count i s).calls = List.range' i k ∧
      ∀ t, (visitFrom read visit count i s).ending = .ok () t → k = count := by
  induction count generalizing i s with
  | zero => exact ⟨0, Nat.le_refl 0, rfl, fun _ _ => rfl⟩
  | succ count ih =>
    have first := positions_visitAt read visit i s
    cases h : (visitAt read visit i s).ending with
    | error e t =>
      rw [visitFrom, Stretch.andThen_error h]
      exact ⟨1, by omega, first, fun t returned => by simp [h] at returned⟩
    | ok a t =>
      obtain ⟨k, fits, rest, all⟩ := ih (i + 1) t
      rw [visitFrom, Stretch.andThen_ok h]
      refine ⟨k + 1, by omega, ?_, fun u returned => congrArg (· + 1) (all u returned)⟩
      rw [Call.positions_append, first, rest]
      rfl

def recordRead : Nat → Action (ω × List (Call α)) α := fun i s =>
  Outcome.mapState (·, s.2 ++ [.read i (Outcome.answer? (read i s.1))]) (read i s.1)

def recordVisit : α → Action ((ω × List (Call α)) × τ) Unit := fun a s =>
  Outcome.mapState (fun t => ((t.1, s.1.2 ++ [.visit a]), t.2)) (visit a (s.1.1, s.2))

def Stretch.recorded (log : List (Call α)) (stretch : Stretch (ω × τ) α) :
    Stretch ((ω × List (Call α)) × τ) α :=
  ⟨stretch.calls,
    Outcome.mapState (fun t => ((t.1, log ++ stretch.calls), t.2)) stretch.ending⟩

theorem visitAt_recorded (i : Nat) (w : ω) (log : List (Call α)) (m : τ) :
    visitAt (recordRead read) (recordVisit visit) i ((w, log), m) =
      (visitAt read visit i (w, m)).recorded log := by
  simp only [visitAt, recordRead, Stretch.recorded]
  cases read i w with
  | error e w => rfl
  | ok a w => simp only [Outcome.mapState_ok, Outcome.answer?, recordVisit, List.append_assoc,
      List.cons_append, List.nil_append]

/-- Noting the calls changes neither the calls nor how they end. -/
theorem visitFrom_recorded (count i : Nat) (w : ω) (log : List (Call α)) (m : τ) :
    visitFrom (recordRead read) (recordVisit visit) count i ((w, log), m) =
      (visitFrom read visit count i (w, m)).recorded log := by
  induction count generalizing i w log m with
  | zero => simp only [visitFrom, Stretch.nothing, Stretch.recorded, List.append_nil,
      Outcome.mapState_ok]
  | succ count ih =>
    simp only [visitFrom, visitAt_recorded]
    cases h : (visitAt read visit i (w, m)).ending with
    | error e t =>
      rw [Stretch.andThen_error h, Stretch.andThen_error (by rw [Stretch.recorded, h]; rfl)]
    | ok a t =>
      rw [Stretch.andThen_ok h, Stretch.andThen_ok (by rw [Stretch.recorded, h]; rfl), ih]
      simp only [Stretch.recorded, List.append_assoc]

end Visiting

def Visitor.recording {ω τ α : Type} (visitor : Visitor ω τ α) :
    Visitor (ω × List (Call α)) τ α :=
  ⟨visitor.callee, recordVisit visitor.visit⟩

end SplitTraversal
