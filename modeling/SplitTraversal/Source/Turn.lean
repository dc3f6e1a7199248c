import SplitTraversal.Source.Action

/-! A turn is what an operation of a source does with its visitor. It ends, or it offers an element
and goes on from whatever state the visitor leaves. The visitor may itself work on the source it was
called from, so the state is handed over with each element and taken back with its outcome. -/

namespace SplitTraversal

/-- The state an operation runs in: the source's own part, and all that it shares with others. -/
structure Site (σ ω : Type) where
  own : σ
  shared : ω

inductive Turn (S α ρ : Type) where
  | done (outcome : Outcome Thrown S ρ)
  | offer (state : S) (element : α) (resume : Outcome Thrown S Unit → Turn S α ρ)

namespace Turn

variable {S T α β ρ : Type}

@[inline] def returned (value : ρ) (state : S) : Turn S α ρ := .done (.ok value state)

@[inline] def threw (thrown : Thrown) (state : S) : Turn S α ρ := .done (.error thrown state)

def within (f : Focus S T) : Turn T α ρ → S → Turn S α ρ
  | .done outcome, s => .done (Outcome.mapState (f.put · s) outcome)
  | .offer t a resume, s =>
    .offer (f.put t s) a fun outcome =>
      within f (resume (Outcome.mapState f.get outcome)) (Outcome.state outcome)

end Turn

/-- Whether what stands in the place of a visit function can be called, and if not, what it is. -/
inductive Callee where
  | callable
  | other (found : String)
deriving DecidableEq, Repr

namespace Callee

def ofValue : Value → Callee
  | .function _ => .callable
  | .null => .other "null"
  | v => .other v.typeName

def require : Callee → Except Thrown Unit
  | .callable => .ok ()
  | .other found => .error (.violation (.notCallable found))

end Callee

/-- A visit function over shared state `ω` and a memory `τ` of its own, or something else in its
place. -/
structure Visitor (ω τ α : Type) where
  callee : Callee
  visit : α → Action (ω × τ) Unit

namespace Visitor

variable {ω τ α : Type}

def ofFunction (visit : α → Action (ω × τ) Unit) : Visitor ω τ α := ⟨.callable, visit⟩

def notAFunction (found : String) : Visitor ω τ α :=
  ⟨.other found, fun _ s => .error (.misuse (.notAFunction "visit")) s⟩

def collecting : Visitor ω (Array α) α := ofFunction fun a (w, seen) => .ok () (w, seen.push a)

end Visitor

namespace Turn

variable {σ ω τ α ρ : Type}

def play (visit : α → Action (ω × τ) Unit) :
    Turn (Site σ ω) α ρ → τ → Outcome Thrown (Site σ ω × τ) ρ
  | .done (.ok a s), m => .ok a (s, m)
  | .done (.error e s), m => .error e (s, m)
  | .offer s a resume, m =>
    match visit a (s.shared, m) with
    | .ok _ (w, m) => play visit (resume (.ok () ⟨s.own, w⟩)) m
    | .error e (w, m) => play visit (resume (.error e ⟨s.own, w⟩)) m

end Turn
end SplitTraversal
