import SplitTraversal.Proofs.Calls
import SplitTraversal.Source.Node

/-! Sources that are unaware of some part of the shared state. If that part is something else, their
operations do what they do otherwise and leave it so. -/

namespace SplitTraversal

variable {σ κ ω τ α ρ ρ' ε : Type}

def Site.shift (g : ω → ω) (s : Site σ ω) : Site σ ω := ⟨s.own, g s.shared⟩

namespace Turn

/-- The first turn is the second one with the shared state shifted at each moment. Both go on so if
the visitor leaves the source among ours. -/
inductive Shifts (g : ω → ω) (ours : σ → Prop) :
    Turn (Site σ ω) α ρ → Turn (Site σ ω) α ρ → Prop
  | done {o : Outcome Thrown (Site σ ω) ρ} (own : ours o.state.own) :
      Shifts g ours (.done (Outcome.mapState (Site.shift g) o)) (.done o)
  | offer {s : Site σ ω} {a : α} {resume' resume : Outcome Thrown (Site σ ω) Unit → Turn _ α ρ}
      (own : ours s.own) (onward : ∀ o : Outcome Thrown (Site σ ω) Unit, ours o.state.own →
        Shifts g ours (resume' (Outcome.mapState (Site.shift g) o)) (resume o)) :
      Shifts g ours (.offer (s.shift g) a resume') (.offer s a resume)

/-- The visitor does not look at what is shifted. -/
def Oblivious (g : ω → ω) (visit : α → Action (ω × τ) Unit) : Prop :=
  ∀ a w m, visit a (g w, m) = Outcome.mapState (fun x => (g x.1, x.2)) (visit a (w, m))

theorem collecting_oblivious {g : ω → ω} :
    Oblivious g (Visitor.collecting : Visitor ω (Array α) α).visit :=
  fun _ _ _ => rfl

namespace Shifts

variable {g : ω → ω} {ours : σ → Prop} {t' t : Turn (Site σ ω) α ρ}

theorem returned {a : ρ} {own : σ} {w : ω} (kept : ours own) :
    Shifts g ours (.returned a ⟨own, g w⟩ : Turn (Site σ ω) α ρ) (.returned a ⟨own, w⟩) :=
  .done (o := .ok a ⟨own, w⟩) kept

theorem threw {e : Thrown} {own : σ} {w : ω} (kept : ours own) :
    Shifts g ours (.threw e ⟨own, g w⟩ : Turn (Site σ ω) α ρ) (.threw e ⟨own, w⟩) :=
  .done (o := .error e ⟨own, w⟩) kept

theorem offered {own : σ} {w : ω} {a : α}
    {resume' resume : Outcome Thrown (Site σ ω) Unit → Turn (Site σ ω) α ρ} (kept : ours own)
    (onward : ∀ (o : Outcome Thrown (Site σ ω) Unit), ours o.state.own →
      Shifts g ours (resume' (Outcome.mapState (Site.shift g) o)) (resume o)) :
    Shifts g ours (.offer ⟨own, g w⟩ a resume') (.offer ⟨own, w⟩ a resume) :=
  .offer (s := ⟨own, w⟩) kept onward

theorem play (shifts : Shifts g ours t' t) {visit : α → Action (ω × τ) Unit}
    (oblivious : Oblivious g visit) (m : τ) :
    t'.play visit m = Outcome.mapState (fun x => (x.1.shift g, x.2)) (t.play visit m) ∧
      ours (Outcome.state (t.play visit m)).1.own := by
  induction shifts generalizing m with
  | @done o own =>
    cases o with
    | ok a s => exact ⟨rfl, own⟩
    | error e s => exact ⟨rfl, own⟩
  | @offer s a resume' resume own _ ih =>
    simp only [Turn.play, Site.shift, oblivious a s.shared m]
    cases visit a (s.shared, m) with
    | ok _ x => exact ih (.ok () ⟨s.own, x.1⟩) own x.2
    | error e x => exact ih (.error e ⟨s.own, x.1⟩) own x.2

theorem recorded (shifts : Shifts g ours t' t) (seen : Array α) :
    Shifts g ours (t'.recorded seen) (t.recorded seen) := by
  induction shifts generalizing seen with
  | @done o own =>
    cases o with
    | ok a s => exact .done (o := .ok (a, seen) s) own
    | error e s => exact .done (o := .error e s) own
  | offer own _ ih => exact .offer own fun o left => ih o left _

theorem settling (shifts : Shifts g ours t' t) {f : ρ → Site σ ω → Site σ ω}
    (unshifted : ∀ a s, f a (s.shift g) = (f a s).shift g) (own : ∀ a s, (f a s).own = s.own) :
    Shifts g ours (t'.settling f) (t.settling f) := by
  induction shifts with
  | @done o kept =>
    cases o with
    | ok a s =>
      have kept : ours (f a s).own := (own a s).symm ▸ kept
      simp only [Turn.settling, Outcome.mapState_ok, unshifted]
      exact .done (o := .ok a (f a s)) kept
    | error e s => exact .done (o := .error e s) kept
  | offer kept _ ih => exact .offer kept ih

theorem map {β : Type} (shifts : Shifts g ours t' t) (f : ρ → β) :
    Shifts g ours (t'.map f) (t.map f) := by
  induction shifts with
  | @done o own =>
    cases o with
    | ok a s => exact .done (o := .ok (f a) s) own
    | error e s => exact .done (o := .error e s) own
  | offer own _ ih => exact .offer own ih

theorem within (shifts : Shifts g ours t' t) {theirs : κ → Prop}
    {f : Focus (Site κ ω) (Site σ ω)}
    (get : ∀ s, theirs s.own → ours (f.get s).own ∧ f.get (s.shift g) = (f.get s).shift g)
    (put : ∀ t s, ours t.own → theirs (f.put t s).own ∧
      f.put (t.shift g) (s.shift g) = (f.put t s).shift g) (s : Site κ ω) :
    Shifts g theirs (t'.within f (s.shift g)) (t.within f s) := by
  induction shifts generalizing s with
  | @done o own =>
    cases o with
    | ok a u =>
      obtain ⟨kept, same⟩ := put u s own
      simp only [Turn.within, Outcome.mapState_ok, same]
      exact .done (o := .ok a (f.put u s)) kept
    | error e u =>
      obtain ⟨kept, same⟩ := put u s own
      simp only [Turn.within, Outcome.mapState_error, same]
      exact .done (o := .error e (f.put u s)) kept
  | @offer u a resume' resume own _ ih =>
    obtain ⟨kept, same⟩ := put u s own
    simp only [Turn.within, same]
    refine .offer kept fun o left => ?_
    obtain ⟨there, shifted⟩ := get _ left
    have moved : Outcome.mapState f.get (Outcome.mapState (Site.shift g) o) =
        Outcome.mapState (Site.shift g) (Outcome.mapState f.get o) := by
      cases o with
      | ok _ x => exact congrArg (EStateM.Result.ok ()) shifted
      | error e x => exact congrArg (EStateM.Result.error e) shifted
    rw [moved, Outcome.state_mapState]
    exact ih _ (by rw [Outcome.state_mapState]; exact there) _

end Shifts

/-- The operation is unaware of what is shifted, on sources of ours. -/
def Regardless (g : ω → ω) (ours : σ → Prop) (op : Site σ ω → Turn (Site σ ω) α ρ) : Prop :=
  ∀ own w, ours own → Shifts g ours (op ⟨own, g w⟩) (op ⟨own, w⟩)

/-- The same of turns on sources that never look at what is shared. -/
def Heedless (g : ω → ω) (t' t : Turn (Site σ ω) α ρ) : Prop :=
  Shifts g (fun _ => True) t' t

namespace Heedless

variable {g : ω → ω} {own : σ} {w : ω}

theorem returned {a : ρ} :
    Heedless g (.returned a ⟨own, g w⟩ : Turn (Site σ ω) α ρ) (.returned a ⟨own, w⟩) :=
  .done (o := .ok a ⟨own, w⟩) trivial

theorem threw {e : Thrown} :
    Heedless g (.threw e ⟨own, g w⟩ : Turn (Site σ ω) α ρ) (.threw e ⟨own, w⟩) :=
  .done (o := .error e ⟨own, w⟩) trivial

theorem offered {a : α} {resume' resume : Outcome Thrown (Site σ ω) Unit → Turn (Site σ ω) α ρ}
    (ok : ∀ t : Site σ ω, Heedless g (resume' (.ok () (t.shift g))) (resume (.ok () t)))
    (error : ∀ (e : Thrown) (t : Site σ ω),
      Heedless g (resume' (.error e (t.shift g))) (resume (.error e t))) :
    Heedless g (.offer ⟨own, g w⟩ a resume') (.offer ⟨own, w⟩ a resume) := by
  refine .offer (s := ⟨own, w⟩) trivial fun o _ => ?_
  cases o with
  | ok _ t => exact ok t
  | error e t => exact error e t

end Heedless
end Turn

open Turn

section Kinds

variable {g : ω → ω} {visitor : Callee}

namespace Singleton

theorem tryAdvance_heedless (own : Singleton α) (w : ω) :
    Heedless g (tryAdvance visitor ⟨own, g w⟩) (tryAdvance visitor ⟨own, w⟩) := by
  simp only [tryAdvance]
  cases visitor.require with
  | error e => exact .threw
  | ok _ =>
    cases own.held with
    | none => exact .returned
    | some a => exact .offered (fun t => .returned) fun e t => .threw

theorem forEachRemaining_eq_map (visitor : Callee) (s : Site (Singleton α) ω) :
    forEachRemaining visitor s = (tryAdvance visitor s).map fun _ => () := by
  simp only [forEachRemaining, tryAdvance]
  cases visitor.require with
  | error e => rfl
  | ok _ =>
    cases s.own.held with
    | none => rfl
    | some a =>
      refine congrArg (Turn.offer s a) (funext fun o => ?_)
      cases o <;> rfl

theorem forEachRemaining_heedless (own : Singleton α) (w : ω) :
    Heedless g (forEachRemaining visitor ⟨own, g w⟩) (forEachRemaining visitor ⟨own, w⟩) := by
  rw [forEachRemaining_eq_map, forEachRemaining_eq_map]
  exact (tryAdvance_heedless own w).map _

end Singleton

namespace Overlapping

theorem tryAdvance_heedless (own : Overlapping α) (w : ω) :
    Heedless g (tryAdvance ⟨own, g w⟩) (tryAdvance ⟨own, w⟩) := by
  simp only [tryAdvance]
  by_cases done : own.limit ≤ own.position
  · simp only [if_pos done]
    exact .returned
  · simp only [if_neg done]
    cases own.elements[own.position]? with
    | none => exact .returned
    | some a => exact .offered (fun t => .returned) fun e t => .threw

theorem drain_heedless (remaining : Nat) (own : Overlapping α) (w : ω) :
    Heedless g (drain remaining ⟨own, g w⟩) (drain remaining ⟨own, w⟩) := by
  induction remaining generalizing own w with
  | zero => exact .returned
  | succ remaining ih =>
    simp only [drain]
    by_cases done : own.limit ≤ own.position
    · simp only [if_pos done]
      exact .returned
    · simp only [if_neg done]
      cases own.elements[own.position]? with
      | none => exact .returned
      | some a => exact .offered (fun t => ih t.own.advanced t.shared) fun e t => .threw

theorem forEachRemaining_heedless (own : Overlapping α) (w : ω) :
    Heedless g (forEachRemaining visitor ⟨own, g w⟩) (forEachRemaining visitor ⟨own, w⟩) := by
  simp only [forEachRemaining]
  cases visitor.require with
  | error e => exact .threw
  | ok _ => exact drain_heedless _ own w

end Overlapping

namespace Unsized

theorem tryAdvance_heedless (own : Unsized α) (w : ω) :
    Heedless g (tryAdvance ⟨own, g w⟩) (tryAdvance ⟨own, w⟩) := by
  simp only [tryAdvance]
  cases own.elements[own.position]? with
  | none => exact .returned
  | some a => exact .offered (fun t => .returned) fun e t => .threw

theorem drain_heedless (remaining : Nat) (own : Unsized α) (w : ω) :
    Heedless g (drain remaining ⟨own, g w⟩) (drain remaining ⟨own, w⟩) := by
  induction remaining generalizing own w with
  | zero => exact .returned
  | succ remaining ih =>
    simp only [drain]
    cases own.elements[own.position]? with
    | none => exact .returned
    | some a => exact .offered (fun t => ih t.own.advanced t.shared) fun e t => .threw

theorem forEachRemaining_heedless (own : Unsized α) (w : ω) :
    Heedless g (forEachRemaining visitor ⟨own, g w⟩) (forEachRemaining visitor ⟨own, w⟩) := by
  simp only [forEachRemaining]
  cases visitor.require with
  | error e => exact .threw
  | ok _ => exact drain_heedless _ own w

end Unsized

namespace Scripted

theorem tryAdvance_heedless (own : Scripted) (w : ω) :
    Heedless g (tryAdvance ⟨own, g w⟩) (tryAdvance ⟨own, w⟩) := by
  simp only [tryAdvance]
  by_cases done : own.limit ≤ own.position
  · simp only [if_pos done]
    exact .returned
  · simp only [if_neg done]
    cases own.plan.throwAt.contains own.position with
    | true => exact .threw
    | false => exact .offered (fun t => .returned) fun e t => .threw

theorem drain_heedless (remaining : Nat) (own : Scripted) (w : ω) :
    Heedless g (drain remaining ⟨own, g w⟩) (drain remaining ⟨own, w⟩) := by
  induction remaining generalizing own w with
  | zero => exact .returned
  | succ remaining ih =>
    simp only [drain]
    by_cases done : own.limit ≤ own.position
    · simp only [if_pos done]
      exact .returned
    · simp only [if_neg done]
      cases own.plan.throwAt.contains own.position with
      | true => exact .threw
      | false => exact .offered (fun t => ih t.own t.shared) fun e t => .threw

theorem forEachRemaining_heedless (own : Scripted) (w : ω) :
    Heedless g (forEachRemaining visitor ⟨own, g w⟩) (forEachRemaining visitor ⟨own, w⟩) := by
  simp only [forEachRemaining]
  cases visitor.require with
  | error e => exact .threw
  | ok _ => exact drain_heedless _ own w

end Scripted

namespace Indexed

/-- Reading is unaware of what is shifted, by whatever it is shifted. -/
def Unaware (shift : κ → ω → ω) (s : Indexed ω α) : Prop :=
  ∀ k i w, s.read i (shift k w) = Outcome.mapState (shift k) (s.read i w)

variable {shift : κ → ω → ω}

theorem tryAdvance_regardless (k : κ) :
    Regardless (shift k) (Unaware shift) (tryAdvance visitor : Site (Indexed ω α) ω → _) := by
  intro own w unaware
  simp only [tryAdvance]
  cases visitor.require with
  | error e =>
    apply Shifts.threw
    exact unaware
  | ok _ =>
    simp only [unaware k own.offset w]
    by_cases done : own.limit ≤ own.offset
    · simp only [if_pos done]
      apply Shifts.returned
      exact unaware
    · simp only [if_neg done]
      cases own.read own.offset w with
      | error e w =>
        apply Shifts.threw
        exact unaware
      | ok a w =>
        apply Shifts.offered unaware
        intro o left
        cases o with
        | ok _ t =>
          apply Shifts.returned
          exact left
        | error e t =>
          apply Shifts.threw
          exact left

theorem drain_regardless (k : κ) (remaining : Nat) :
    Regardless (shift k) (Unaware shift) (drain remaining : Site (Indexed ω α) ω → _) := by
  induction remaining with
  | zero =>
    intro own w unaware
    apply Shifts.returned
    exact unaware
  | succ remaining ih =>
    intro own w unaware
    simp only [drain, unaware k own.offset w]
    by_cases done : own.limit ≤ own.offset
    · simp only [if_pos done]
      apply Shifts.returned
      exact unaware
    · simp only [if_neg done]
      cases own.read own.offset w with
      | error e w =>
        apply Shifts.threw
        exact unaware
      | ok a w =>
        apply Shifts.offered unaware
        intro o left
        cases o with
        | ok _ t => exact ih t.own.advanced t.shared left
        | error e t =>
          apply Shifts.threw
          exact left

theorem forEachRemaining_regardless (k : κ) :
    Regardless (shift k) (Unaware shift)
      (forEachRemaining visitor : Site (Indexed ω α) ω → _) := by
  intro own w unaware
  simp only [forEachRemaining]
  cases visitor.require with
  | error e =>
    apply Shifts.threw
    exact unaware
  | ok _ => exact drain_regardless k _ own w unaware

end Indexed

namespace Flawed

variable {shift : κ → ω → ω}

theorem within_regardless {k : κ} {op : Site (Indexed ω α) ω → Turn (Site (Indexed ω α) ω) α ρ}
    (regardless : Regardless (shift k) (Indexed.Unaware shift) op) :
    Regardless (shift k) (fun s : Flawed ω α => s.source.Unaware shift)
      fun s => (op ⟨s.own.source, s.shared⟩).within (focus s.own.flaw) s := by
  intro own w unaware
  exact (regardless own.source w unaware).within (fun s there => ⟨there, rfl⟩)
    (fun t s there => ⟨there, rfl⟩) ⟨own, w⟩

end Flawed
end Kinds
end SplitTraversal
