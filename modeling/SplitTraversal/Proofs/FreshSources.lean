import SplitTraversal.Proofs.AlikeSources
import SplitTraversal.Traversal.Guarded

/-! What is done with the fresh sources of a steady collection comes out the same whenever it is
done. Traversals work on a source and its pieces by questions only, under guard or not. -/

namespace SplitTraversal

open Lineage

variable {σ ω ρ τ : Type} {p : Protocol σ ω Value} {subject : Subject σ ω} {among : ω → Prop}

section Aside

variable {piece : σ} {act : Activity (Site σ ω) ρ} {s t : Site σ ω}

theorem aside_ok {a : ρ} (ran : act ⟨piece, s.shared⟩ = .ok a t) :
    aside piece act s = .ok a ⟨s.own, t.shared⟩ := by
  rw [aside, ran, Outcome.mapState_ok]

theorem aside_error {h : Halt} (ran : act ⟨piece, s.shared⟩ = .error h t) :
    aside piece act s = .error h ⟨s.own, t.shared⟩ := by
  rw [aside, ran, Outcome.mapState_error]

end Aside

namespace Turn

variable {α : Type}

theorem play_collecting (turn : Turn (Site σ ω) α ρ) (seen : Array α) :
    turn.play Visitor.collecting.visit seen =
      Outcome.mapState (fun x => (x.1, seen ++ x.2)) (turn.play Visitor.collecting.visit #[]) := by
  induction turn generalizing seen with
  | done outcome => cases outcome <;> simp only [play, Outcome.mapState_ok, Outcome.mapState_error,
      Array.append_empty]
  | offer s a resume ih =>
    have collected (seen : Array α) :
        (Turn.offer s a resume).play Visitor.collecting.visit seen =
          (resume (.ok () s)).play Visitor.collecting.visit (seen.push a) := rfl
    rw [collected, collected, ih _ (seen.push a), ih _ (#[].push a), Outcome.mapState_mapState]
    congr 1
    funext x
    rw [← Array.append_assoc, Array.append_push, Array.append_empty]

end Turn

namespace Protocol

variable (p)

theorem visiting_ok {turn : Callee → Site σ ω → Turn (Site σ ω) Value ρ} {s : Site σ ω} {a : ρ}
    {x : Site σ ω × Array Value} (played : play Visitor.collecting turn s #[] = .ok a x) :
    visiting turn s = .ok (a, x.2.toList) x.1 := by
  simp only [visiting, played]

theorem visiting_error {turn : Callee → Site σ ω → Turn (Site σ ω) Value ρ} {s : Site σ ω}
    {e : Thrown} {x : Site σ ω × Array Value}
    (played : play Visitor.collecting turn s #[] = .error e x) :
    visiting turn s = .error e x.1 := by
  simp only [visiting, played]

theorem play_collecting {α : Type} (turn : Callee → Site σ ω → Turn (Site σ ω) α ρ) (s : Site σ ω)
    (seen : Array α) :
    play Visitor.collecting turn s seen =
      Outcome.mapState (fun x => (x.1, seen ++ x.2)) (play Visitor.collecting turn s #[]) :=
  Turn.play_collecting (turn Visitor.collecting.callee s) seen

def stepping (rounds : Nat) (seen : Array Value) : Activity (Site σ ω) (Array Value) := fun s =>
  match p.stepAdvance .collecting rounds (s, seen) with
  | .ok _ (s, seen) => .ok seen s
  | .error h (s, _) => .error h s

theorem stepping_succ (rounds : Nat) (seen : Array Value) :
    p.stepping (rounds + 1) seen =
      (visiting p.tryAdvance).lift >>= fun found =>
        if found.1 then p.stepping rounds (seen ++ found.2.toArray)
        else pure (seen ++ found.2.toArray) := by
  funext s
  simp only [stepping, stepAdvance, play_collecting _ s seen]
  cases advanced : play Visitor.collecting p.tryAdvance s #[] with
  | error e x => rw [bind_error (lift_error (visiting_error advanced))]; rfl
  | ok more x => rw [bind_ok (lift_ok (visiting_ok advanced))]; cases more <;> rfl

def guarding (sized : Bool) (rounds : Nat) (t : Tally Value) :
    Activity (Site σ ω) (Option Stall × Tally Value) := fun s =>
  match p.splitGuarded sized rounds (s, t) with
  | .ok stall (s, t) => .ok (stall, t) s
  | .error h (s, _) => .error h s

def resuming (sized : Bool) (rounds : Nat) (found : Option Stall × Tally Value) :
    Activity (Site σ ω) (Option Stall × Tally Value) :=
  match found.1 with
  | some stall => pure (some stall, found.2)
  | none => p.guarding sized rounds found.2

def parting (sized : Bool) (rounds : Nat) (t : Tally Value) (stall : Option Stall) (piece : σ) :
    Activity (Site σ ω) (Option Stall × Tally Value) :=
  match stall with
  | some stall => pure (some stall, t)
  | none =>
    aside piece ((p.hasCharacteristics (.ofFlag .sized)).lift >>= fun pieceSized =>
      p.guarding pieceSized rounds t) >>= p.resuming sized rounds

/-- Two sources are at work here: a piece, and the one that waits for it. -/
theorem parting_none (sized : Bool) (rounds : Nat) (t : Tally Value) (piece : σ) (s : Site σ ω) :
    p.parting sized rounds t none piece s =
      match p.hasCharacteristics (.ofFlag .sized) ⟨piece, s.shared⟩ with
      | .error e u => .error (.threw e) ⟨s.own, u.shared⟩
      | .ok pieceSized u =>
        match p.splitGuarded pieceSized rounds (u, t) with
        | .error h (u, _) => .error h ⟨s.own, u.shared⟩
        | .ok stall (u, t) => p.resuming sized rounds (stall, t) ⟨s.own, u.shared⟩ := by
  rw [parting]
  cases asked : p.hasCharacteristics (.ofFlag .sized) ⟨piece, s.shared⟩ with
  | error e u => rw [bind_error (aside_error (bind_error (lift_error asked)))]
  | ok pieceSized u =>
    simp only
    cases inner : p.splitGuarded pieceSized rounds (u, t) with
    | error h x =>
      have guarded : p.guarding pieceSized rounds t u = .error h x.1 := by
        simp only [guarding, inner]
      rw [bind_error (aside_error ((bind_ok (lift_ok asked)).trans guarded))]
    | ok stall x =>
      have guarded : p.guarding pieceSized rounds t u = .ok (stall, x.2) x.1 := by
        simp only [guarding, inner]
      rw [bind_ok (aside_ok ((bind_ok (lift_ok asked)).trans guarded))]

theorem guarding_succ (sized : Bool) (rounds : Nat) (t : Tally Value) :
    p.guarding sized (rounds + 1) t =
      p.estimateSize.lift >>= fun before =>
        p.trySplit.lift >>= fun piece => piece.elim
          ((visiting p.forEachRemaining).lift >>= fun found =>
            pure (none, { t with seen := t.seen ++ found.2.toArray }))
          fun piece => p.estimateSize.lift >>= fun after =>
            (Action.ofExcept (stall? sized before after (t.splits + 1))).lift >>= fun stall =>
              p.parting sized rounds ⟨t.seen, t.splits + 1⟩ stall piece := by
  funext s
  cases before : p.estimateSize s with
  | error e s => simp only [guarding, splitGuarded, before, bind_error (lift_error before)]
  | ok size s =>
    rw [bind_ok (lift_ok before)]
    cases cut : p.trySplit s with
    | error e s => simp only [guarding, splitGuarded, before, cut, bind_error (lift_error cut)]
    | ok piece s =>
      rw [bind_ok (lift_ok cut)]
      cases piece with
      | none =>
        rw [Option.elim_none]
        simp only [guarding, splitGuarded, before, cut, play_collecting _ s t.seen]
        cases drained : play Visitor.collecting p.forEachRemaining s #[] with
        | error e x => rw [bind_error (lift_error (visiting_error drained))]; rfl
        | ok u x => rw [bind_ok (lift_ok (visiting_ok drained))]; rfl
      | some piece =>
        rw [Option.elim_some]
        cases after : p.estimateSize s with
        | error e s =>
          simp only [guarding, splitGuarded, before, cut, after, bind_error (lift_error after)]
        | ok rest s =>
          rw [bind_ok (lift_ok after)]
          cases stuck : stall? sized size rest (t.splits + 1) with
          | error e =>
            simp only [guarding, splitGuarded, before, cut, after, stuck]
            rfl
          | ok stall =>
            cases stall with
            | some stall =>
              simp only [guarding, splitGuarded, before, cut, after, stuck]
              rfl
            | none =>
              simp only [guarding, splitGuarded, before, cut, after, stuck]
              change _ = p.parting sized rounds ⟨t.seen, t.splits + 1⟩ none piece s
              rw [parting_none]
              cases p.hasCharacteristics (.ofFlag .sized) ⟨piece, s.shared⟩ with
              | error e u => rfl
              | ok pieceSized u =>
                simp only
                cases p.splitGuarded pieceSized rounds (u, ⟨t.seen, t.splits + 1⟩) with
                | error h x => rfl
                | ok stall x => cases stall <;> rfl

def concluding (found : Option Stall × Tally Value) : Traversal Value :=
  match found.1 with
  | some stall => .stalled stall
  | none => .complete found.2.seen.toList

theorem traverse_eq_visiting (rounds : Nat) :
    p.traverse rounds .bulkDrain =
      (visiting p.forEachRemaining).lift >>= fun found => pure (.complete found.2) := by
  funext s
  have chosen : p.decompose rounds .bulkDrain .collecting (s, #[]) =
      p.bulkDrain .collecting (s, #[]) := rfl
  simp only [traverse, collect, chosen, bulkDrain]
  cases drained : play Visitor.collecting p.forEachRemaining s #[] with
  | error e x => rw [bind_error (lift_error (visiting_error drained))]
  | ok u x => rw [bind_ok (lift_ok (visiting_ok drained))]; rfl

theorem traverse_eq_stepping (rounds : Nat) :
    p.traverse rounds .stepAdvance =
      p.stepping rounds #[] >>= fun seen => pure (.complete seen.toList) := by
  funext s
  have chosen : p.decompose rounds .stepAdvance .collecting (s, #[]) =
      p.stepAdvance .collecting rounds (s, #[]) := rfl
  simp only [traverse, collect, chosen, stepping, Bind.bind, EStateM.bind]
  cases p.stepAdvance .collecting rounds (s, #[]) <;> rfl

theorem traverse_eq_guarding (rounds : Nat) :
    p.traverse rounds .maximumSplit =
      (p.hasCharacteristics (.ofFlag .sized)).lift >>= fun sized =>
        p.guarding sized rounds ⟨#[], 0⟩ >>= fun found => pure (concluding found) := by
  funext s
  cases asked : p.hasCharacteristics (.ofFlag .sized) s with
  | error e s =>
    rw [bind_error (lift_error asked)]
    simp only [traverse, asked]
  | ok sized s =>
    rw [bind_ok (lift_ok asked)]
    simp only [traverse, asked, guarding, Bind.bind, EStateM.bind]
    cases p.splitGuarded sized rounds (s, ⟨#[], 0⟩) with
    | error h x => rfl
    | ok stall x => cases stall <;> rfl

end Protocol

namespace Blind

theorem map {act : Activity (Site σ ω) ρ} (blind : Blind p subject among act) (f : ρ → τ) :
    Blind p subject among (act >>= fun a => Pure.pure (f a)) :=
  blind.bind fun a => pure (f a)

theorem stepping (rounds : Nat) (seen : Array Value) :
    Blind p subject among (p.stepping rounds seen) := by
  induction rounds generalizing seen with
  | zero => exact throw .outOfRounds
  | succ rounds ih =>
    rw [Protocol.stepping_succ]
    refine tryAdvance.bind fun found => ?_
    cases found.1 with
    | true => exact ih _
    | false => exact pure _

theorem guarding (sized : Bool) (rounds : Nat) (t : Tally Value) :
    Blind p subject among (p.guarding sized rounds t) := by
  induction rounds generalizing sized t with
  | zero => exact throw .outOfRounds
  | succ rounds ih =>
    -- The rounds are fewer for a piece as well as for the rest, so `ih` serves both.
    have resumed (found : Option Stall × Tally Value) :
        Blind p subject among (p.resuming sized rounds found) := by
      unfold Protocol.resuming
      cases found.1 with
      | some stall => exact pure _
      | none => exact ih sized found.2
    have parted (t : Tally Value) (stall : Option Stall) :
        BlindBeside p subject among (p.parting sized rounds t stall) := by
      cases stall with
      | some stall => exact .alone (pure _)
      | none =>
        exact .aside ((hasCharacteristics _).bind fun pieceSized => ih pieceSized t) resumed
    rw [Protocol.guarding_succ]
    refine estimateSize.bind fun before => split (forEachRemaining.map _) ?_
    exact .bind estimateSize fun after => .bind (ofExcept _) fun stall => parted _ stall

theorem traverse (rounds : Nat) (strategy : Strategy) :
    Blind p subject among (p.traverse rounds strategy) := by
  cases strategy with
  | bulkDrain =>
    rw [Protocol.traverse_eq_visiting]
    exact forEachRemaining.map _
  | stepAdvance =>
    rw [Protocol.traverse_eq_stepping]
    exact (stepping rounds #[]).map _
  | maximumSplit =>
    rw [Protocol.traverse_eq_guarding]
    exact (hasCharacteristics _).bind fun sized => (guarding sized rounds _).map _

end Blind

namespace Subject

def onFresh (subject : Subject σ ω) (act : Activity (Site σ ω) ρ) : Activity ω ρ := fun w =>
  match subject.splitSource w with
  | .error e w => .error (.threw e) w
  | .ok own w => Outcome.mapState Site.shared (act ⟨own, w⟩)

theorem Steady.splitSource (steady : subject.Steady p among) {w w' : ω} (now : among w)
    (now' : among w') :
    (∃ own own' v v', subject.splitSource w = .ok own v ∧ subject.splitSource w' = .ok own' v' ∧
      Alike p subject among ⟨[own], v⟩ ⟨[own'], v'⟩) ∨
    ∃ e v v', subject.splitSource w = .error e v ∧ subject.splitSource w' = .error e v' ∧
      among v ∧ among v' := by
  have agree (queries : List Query) :
      Outcome.answer (subject.interview p queries w) =
          Outcome.answer (subject.interview p queries w') ∧
        among (Outcome.state (subject.interview p queries w)) ∧
        among (Outcome.state (subject.interview p queries w')) := by
    obtain ⟨result, always⟩ := steady.fresh queries
    exact ⟨(always w now).1.trans (always w' now').1.symm, (always w now).2, (always w' now').2⟩
  simp only [Subject.interview] at agree
  cases made : subject.splitSource w with
  | ok own v =>
    cases made' : subject.splitSource w' with
    | ok own' v' =>
      refine .inl ⟨own, own', v, v', rfl, rfl, fun queries => ?_⟩
      obtain ⟨same, here, there⟩ := agree queries
      rw [made, made'] at same
      rw [made] at here
      rw [made'] at there
      exact ⟨Except.ok.inj same, here, there⟩
    | error e v' =>
      -- No query is needed to tell a source from none.
      obtain ⟨same, _⟩ := agree []
      rw [made, made'] at same
      cases same
  | error e v =>
    obtain ⟨same, here, there⟩ := agree []
    cases made' : subject.splitSource w' with
    | ok own' v' =>
      rw [made, made'] at same
      cases same
    | error e' v' =>
      rw [made, made'] at same
      rw [made] at here
      rw [made'] at there
      cases same
      exact .inr ⟨e, v, v', rfl, rfl, here, there⟩

end Subject

theorem Lineage.Onward.moments {l r : Lineage σ ω} {i : Nat} {s s' : Site σ ω}
    (next : Onward p subject among i l r s s') : among s.shared ∧ among s'.shared := by
  obtain ⟨l', r', alike, here, here', _⟩ := next
  obtain ⟨_, now, now'⟩ := alike []
  exact ⟨here.shared ▸ now, here'.shared ▸ now'⟩

theorem Blind.repeats {act : Activity (Site σ ω) ρ} (blind : Blind p subject among act)
    (steady : subject.Steady p among) : Repeats among (subject.onFresh act) := by
  refine .of_pairs fun w w' now now' => ?_
  simp only [Subject.onFresh]
  rcases steady.splitSource now now' with ⟨own, own', v, v', made, made', alike⟩ |
    ⟨e, v, v', made, made', later, _⟩
  · rw [made, made']
    have level := blind ⟨[own], v⟩ ⟨[own'], v'⟩ 0 ⟨own, v⟩ ⟨own', v'⟩ alike ⟨rfl, rfl⟩ ⟨rfl, rfl⟩
    simp only
    generalize act ⟨own, v⟩ = o, act ⟨own', v'⟩ = o' at level ⊢
    cases level with
    | ok a next => exact ⟨rfl, next.moments.1⟩
    | error h next => exact ⟨rfl, next.moments.1⟩
  · rw [made, made']
    exact ⟨rfl, later⟩

end SplitTraversal
