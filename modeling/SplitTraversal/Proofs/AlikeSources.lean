import SplitTraversal.Proofs.Calls
import SplitTraversal.Proofs.Moments

/-! Lineages of sources that answer alike. An activity that works on a source by asking questions,
of the source and of what it splits off, sees nothing but the answers: it ends the same on any two
sources that answer alike, and leaves them alike. -/

namespace SplitTraversal

section Ending

variable {ε S ρ τ : Type} {act : EStateM ε S ρ} {next : ρ → EStateM ε S τ} {f : ρ → τ} {s t : S}

theorem bind_ok {a : ρ} (ran : act s = .ok a t) : (act >>= next) s = next a t := by
  simp only [Bind.bind, EStateM.bind, ran]

theorem bind_error {e : ε} (ran : act s = .error e t) : (act >>= next) s = .error e t := by
  simp only [Bind.bind, EStateM.bind, ran]

theorem bind_eq_ok {b : τ} (ran : (act >>= next) s = .ok b t) :
    ∃ a u, act s = .ok a u ∧ next a u = .ok b t := by
  cases first : act s with
  | ok a u => exact ⟨a, u, rfl, (bind_ok first).symm.trans ran⟩
  | error e u => cases (bind_error first).symm.trans ran

theorem lift_ok {action : Action S ρ} {a : ρ} (ran : action s = .ok a t) :
    action.lift s = .ok a t := by
  simp only [Action.lift, ran]

theorem lift_error {action : Action S ρ} {e : Thrown} (ran : action s = .error e t) :
    action.lift s = .error (.threw e) t := by
  simp only [Action.lift, ran]

theorem map_eq_ok {b : τ} (mapped : (f <$> act) s = .ok b t) : ∃ a, act s = .ok a t ∧ f a = b := by
  change EStateM.map f act s = .ok b t at mapped
  unfold EStateM.map at mapped
  cases ran : act s with
  | ok a u =>
    rw [ran] at mapped
    cases mapped
    exact ⟨a, rfl, rfl⟩
  | error e u =>
    rw [ran] at mapped
    cases mapped

theorem map_eq_error {e : ε} (mapped : (f <$> act) s = .error e t) : act s = .error e t := by
  change EStateM.map f act s = .error e t at mapped
  unfold EStateM.map at mapped
  cases ran : act s with
  | ok a u =>
    rw [ran] at mapped
    cases mapped
  | error e u =>
    rw [ran] at mapped
    cases mapped
    rfl

end Ending

variable {σ ω ρ τ : Type}

namespace Lineage

structure At (l : Lineage σ ω) (i : Nat) (s : Site σ ω) : Prop where
  own : l.members[i]? = some s.own
  shared : l.shared = s.shared

/-- All members but one are as they were. Others may have come to be. -/
def Beside (i : Nat) (l l' : Lineage σ ω) : Prop :=
  ∀ j own, j ≠ i → l.members[j]? = some own → l'.members[j]? = some own

variable {l l' : Lineage σ ω} {i : Nat} {s t : Site σ ω}

theorem At.lt (here : l.At i s) : i < l.members.length :=
  (List.getElem?_eq_some_iff.mp here.own).1

theorem At.after (here : l.At i s) (t : Site σ ω) (piece : Option σ) :
    (l.after i t piece).At i t := by
  refine ⟨?_, rfl⟩
  rw [Lineage.after, List.getElem?_append_left (by rw [List.length_set]; exact here.lt),
    List.getElem?_set_self here.lt]

theorem beside_after (l : Lineage σ ω) (i : Nat) (t : Site σ ω) (piece : Option σ) :
    Beside i l (l.after i t piece) := by
  intro j own other known
  have here : j < l.members.length := (List.getElem?_eq_some_iff.mp known).1
  rw [after, List.getElem?_append_left (by rw [List.length_set]; exact here),
    List.getElem?_set_ne (Ne.symm other), known]

theorem newest_after (l : Lineage σ ω) (i : Nat) (t : Site σ ω) (piece : σ) :
    (l.after i t (some piece)).members[l.members.length]? = some piece := by
  rw [after, List.getElem?_append_right (Nat.le_of_eq List.length_set), List.length_set,
    Nat.sub_self]
  rfl

theorem Beside.trans {m : Lineage σ ω} (first : Beside i l l') (next : Beside i l' m) :
    Beside i l m :=
  fun j own other known => next j own other (first j own other known)

section Alike

variable (p : Protocol σ ω Value) (subject : Subject σ ω) (among : ω → Prop)

/-- The same queries get the same answers, and leave the shared state at one of the moments. -/
def Alike (l r : Lineage σ ω) : Prop :=
  ∀ queries, (interview p subject queries l).1 = (interview p subject queries r).1 ∧
    among (interview p subject queries l).2.shared ∧
    among (interview p subject queries r).2.shared

/-- Where two alike lineages may have come to, while member `i` of each was worked on: they are
alike, and all other members wait as they were. -/
def Onward (i : Nat) (l r : Lineage σ ω) (s s' : Site σ ω) : Prop :=
  ∃ l' r', Alike p subject among l' r' ∧ l'.At i s ∧ r'.At i s' ∧ Beside i l l' ∧ Beside i r r'

inductive Level (i : Nat) (l r : Lineage σ ω) :
    Outcome Halt (Site σ ω) ρ → Outcome Halt (Site σ ω) ρ → Prop
  | ok (a : ρ) {s s' : Site σ ω} (next : Onward p subject among i l r s s') :
      Level i l r (.ok a s) (.ok a s')
  | error (h : Halt) {s s' : Site σ ω} (next : Onward p subject among i l r s s') :
      Level i l r (.error h s) (.error h s')

end Alike

end Lineage

open Lineage

def Site.world : Focus (Site σ ω) ω := ⟨Site.shared, fun w s => { s with shared := w }⟩

def aside (piece : σ) (act : Activity (Site σ ω) ρ) : Activity (Site σ ω) ρ := fun s =>
  Outcome.mapState (fun t => ⟨s.own, t.shared⟩) (act ⟨piece, s.shared⟩)

/-- The activity ends in the same way on any two sources that cannot be told apart. -/
def Blind (p : Protocol σ ω Value) (subject : Subject σ ω) (among : ω → Prop)
    (act : Activity (Site σ ω) ρ) : Prop :=
  ∀ l r i s s', Alike p subject among l r → l.At i s → r.At i s' →
    Level p subject among i l r (act s) (act s')

/-- The same of an activity that was also handed a piece, which came to be after two lineages
were at `l₀` and `r₀`. -/
def BlindBeside (p : Protocol σ ω Value) (subject : Subject σ ω) (among : ω → Prop)
    (act : σ → Activity (Site σ ω) ρ) : Prop :=
  ∀ l₀ r₀ l r i k s s' piece piece', Alike p subject among l r → l.At i s → r.At i s' →
    l.members[k]? = some piece → r.members[k]? = some piece' →
    i < k → l₀.members.length ≤ k → r₀.members.length ≤ k → Beside i l₀ l → Beside i r₀ r →
    Level p subject among i l₀ r₀ (act piece s) (act piece' s')

variable {p : Protocol σ ω Value} {subject : Subject σ ω} {among : ω → Prop}

namespace Lineage

variable {l r l' r' : Lineage σ ω} {i : Nat} {s s' t t' : Site σ ω}

namespace Alike

theorem answer (alike : Alike p subject among l r) (query : Query) :
    (l.answer p subject query).1 = (r.answer p subject query).1 ∧
      Alike p subject among (l.answer p subject query).2 (r.answer p subject query).2 := by
  refine ⟨(List.cons.inj (alike [query]).1).1, fun queries => ?_⟩
  obtain ⟨same, here, there⟩ := alike (query :: queries)
  exact ⟨(List.cons.inj same).2, here, there⟩

theorem length_eq (alike : Alike p subject among l r) : l.members.length = r.members.length := by
  -- A member that is not there is told from one that is.
  have absent (m : Lineage σ ω) (j : Nat) :
      (m.answer p subject (.source j .estimateSize)).1 = none ↔ m.members.length ≤ j := by
    rw [← List.getElem?_eq_none_iff]
    simp only [Lineage.answer]
    cases m.members[j]? with
    | none => simp only
    | some own =>
      simp only
      cases p.reply .estimateSize ⟨own, m.shared⟩ <;> simp only [reduceCtorEq]
  have same (j : Nat) : l.members.length ≤ j ↔ r.members.length ≤ j := by
    rw [← absent l j, ← absent r j, (alike.answer (.source j .estimateSize)).1]
  exact Nat.le_antisymm ((same _).mpr (Nat.le_refl _)) ((same _).mp (Nat.le_refl _))

theorem reply (alike : Alike p subject among l r) (here : l.At i s) (here' : r.At i s')
    (q : Question) :
    (∃ finding piece piece' t t', p.reply q s = .ok (finding, piece) t ∧
      p.reply q s' = .ok (finding, piece') t' ∧
      Alike p subject among (l.after i t piece) (r.after i t' piece')) ∨
    ∃ e t t', p.reply q s = .error e t ∧ p.reply q s' = .error e t' ∧
      Alike p subject among (l.after i t none) (r.after i t' none) := by
  obtain ⟨same, next⟩ := alike.answer (.source i q)
  simp only [Lineage.answer, here.own, here.shared, here'.own, here'.shared] at same next
  cases left : p.reply q s with
  | ok found t =>
    obtain ⟨finding, piece⟩ := found
    cases right : p.reply q s' with
    | ok found' t' =>
      obtain ⟨finding', piece'⟩ := found'
      rw [left, right] at same next
      cases same
      exact .inl ⟨_, _, _, t, t', rfl, rfl, next⟩
    | error e t' =>
      rw [left, right] at same
      cases same
  | error e t =>
    cases right : p.reply q s' with
    | ok found t' =>
      rw [left, right] at same
      cases same
    | error e' t' =>
      rw [left, right] at same next
      cases same
      exact .inr ⟨_, t, t', rfl, rfl, next⟩

end Alike

theorem Onward.here (alike : Alike p subject among l r) (here : l.At i s) (here' : r.At i s') :
    Onward p subject among i l r s s' :=
  ⟨l, r, alike, here, here', fun _ _ _ known => known, fun _ _ _ known => known⟩

theorem Onward.since (next : Onward p subject among i l' r' s s') (left : Beside i l l')
    (right : Beside i r r') : Onward p subject among i l r s s' := by
  obtain ⟨m, n, alike, here, here', waited, waited'⟩ := next
  exact ⟨m, n, alike, here, here', left.trans waited, right.trans waited'⟩

theorem Onward.after (alike : Alike p subject among (l.after i t none) (r.after i t' none))
    (here : l.At i s) (here' : r.At i s') : Onward p subject among i l r t t' :=
  ⟨_, _, alike, here.after t none, here'.after t' none, beside_after _ _ _ _, beside_after _ _ _ _⟩

theorem Level.since {o o' : Outcome Halt (Site σ ω) ρ} (level : Level p subject among i l' r' o o')
    (left : Beside i l l') (right : Beside i r r') : Level p subject among i l r o o' := by
  cases level with
  | ok a next => exact .ok a (next.since left right)
  | error h next => exact .error h (next.since left right)

end Lineage

namespace Blind

theorem pure (a : ρ) : Blind p subject among (Pure.pure a) :=
  fun _ _ _ _ _ alike here here' => .ok a (.here alike here here')

theorem throw (h : Halt) : Blind p subject among (fun s => .error h s : Activity (Site σ ω) ρ) :=
  fun _ _ _ _ _ alike here here' => .error h (.here alike here here')

theorem ofExcept (result : Except Thrown ρ) :
    Blind p subject among (Action.ofExcept result).lift := by
  cases result with
  | ok a => exact pure a
  | error e => exact throw (.threw e)

theorem bind {act : Activity (Site σ ω) ρ} {next : ρ → Activity (Site σ ω) τ}
    (first : Blind p subject among act) (rest : ∀ a, Blind p subject among (next a)) :
    Blind p subject among (act >>= next) := by
  intro l r i s s' alike here here'
  have level := first l r i s s' alike here here'
  simp only [Bind.bind, EStateM.bind]
  generalize act s = o, act s' = o' at level ⊢
  cases level with
  | error h next => exact .error h next
  | ok a next =>
    obtain ⟨l', r', alike', now, now', left, right⟩ := next
    exact (rest a l' r' i _ _ alike' now now').since left right

theorem ask {op : Action (Site σ ω) ρ} {finding : ρ → Finding} (q : Question)
    (asked : p.reply q = (fun a => (finding a, none)) <$> op)
    (told : ∀ a b, finding a = finding b → a = b) : Blind p subject among op.lift := by
  intro l r i s s' alike here here'
  rcases alike.reply here here' q with ⟨_, _, _, t, t', ran, ran', next⟩ |
    ⟨e, t, t', ran, ran', next⟩
  · rw [asked] at ran ran'
    obtain ⟨a, left, found⟩ := map_eq_ok ran
    obtain ⟨b, right, found'⟩ := map_eq_ok ran'
    obtain ⟨rfl, rfl⟩ := Prod.mk.inj found
    obtain ⟨same, rfl⟩ := Prod.mk.inj found'
    cases told _ _ same
    simp only [Action.lift, left, right]
    exact .ok _ (.after next here here')
  · rw [asked] at ran ran'
    have left := map_eq_error ran
    have right := map_eq_error ran'
    simp only [Action.lift, left, right]
    exact .error _ (.after next here here')

theorem estimateSize : Blind p subject among p.estimateSize.lift :=
  ask .estimateSize rfl fun _ _ same => Finding.value.inj same

theorem exactSizeIfKnown : Blind p subject among p.exactSizeIfKnown.lift :=
  ask .exactSizeIfKnown rfl fun _ _ same => Finding.value.inj same

theorem characteristics : Blind p subject among p.characteristics.lift :=
  ask .characteristics rfl fun _ _ same => Finding.value.inj same

theorem hasCharacteristics (flags : Characteristics) :
    Blind p subject among (p.hasCharacteristics flags).lift :=
  ask (.hasCharacteristics flags) rfl fun _ _ same => Finding.flag.inj same

theorem comparator : Blind p subject among p.comparator.lift :=
  ask .comparator rfl fun _ _ same => Finding.order.inj same

theorem tryAdvance : Blind p subject among (Protocol.visiting p.tryAdvance).lift :=
  ask .tryAdvance rfl fun _ _ same =>
    Prod.ext (Finding.advanced.inj same).1 (Finding.advanced.inj same).2

theorem forEachRemaining : Blind p subject among (Protocol.visiting p.forEachRemaining).lift :=
  ask .forEachRemaining rfl fun _ _ same => Prod.ext rfl (Finding.drained.inj same)

theorem size : Blind p subject among (Action.lift (Site.world.run subject.size)) := by
  intro l r i s s' alike here here'
  obtain ⟨same, next⟩ := alike.answer .size
  simp only [Lineage.answer, here.shared, here'.shared] at same next
  have onward {w w' : ω} (alike : Alike p subject among { l with shared := w }
      { r with shared := w' }) : Onward p subject among i l r ⟨s.own, w⟩ ⟨s'.own, w'⟩ :=
    ⟨_, _, alike, ⟨here.own, rfl⟩, ⟨here'.own, rfl⟩, fun _ _ _ known => known,
      fun _ _ _ known => known⟩
  simp only [Action.lift, Focus.run, Site.world]
  generalize subject.size s.shared = o, subject.size s'.shared = o' at same next ⊢
  cases o with
  | ok size w =>
    cases o' with
    | ok size' w' =>
      cases same
      exact .ok size (onward next)
    | error e w' => cases same
  | error e w =>
    cases o' with
    | ok size' w' => cases same
    | error e' w' =>
      cases same
      exact .error (.threw e) (onward next)

end Blind

namespace BlindBeside

variable {act : Activity (Site σ ω) ρ}

theorem bind {next : ρ → σ → Activity (Site σ ω) τ} (first : Blind p subject among act)
    (rest : ∀ a, BlindBeside p subject among (next a)) :
    BlindBeside p subject among fun piece => act >>= fun a => next a piece := by
  intro l₀ r₀ l r i k s s' piece piece' alike here here' there there' later fits fits' left right
  have level := first l r i s s' alike here here'
  simp only [Bind.bind, EStateM.bind]
  generalize act s = o, act s' = o' at level ⊢
  cases level with
  | error h next => exact .error h (next.since left right)
  | ok a next =>
    obtain ⟨l', r', alike', now, now', left', right'⟩ := next
    have other : k ≠ i := Nat.ne_of_gt later
    exact rest a l₀ r₀ l' r' i k _ _ piece piece' alike' now now' (left' k piece other there)
      (right' k piece' other there') later fits fits' (left.trans left') (right.trans right')

theorem alone (blind : Blind p subject among act) : BlindBeside p subject among fun _ => act := by
  intro l₀ r₀ l r i k s s' _ _ alike here here' _ _ _ _ _ left right
  exact (blind l r i s s' alike here here').since left right

theorem aside {next : ρ → Activity (Site σ ω) τ} (first : Blind p subject among act)
    (rest : ∀ a, Blind p subject among (next a)) :
    BlindBeside p subject among fun piece => SplitTraversal.aside piece act >>= next := by
  intro l₀ r₀ l r i k s s' piece piece' alike here here' there there' later fits fits' left right
  have level := first l r k ⟨piece, s.shared⟩ ⟨piece', s'.shared⟩ alike ⟨there, here.shared⟩
    ⟨there', here'.shared⟩
  have other : i ≠ k := Nat.ne_of_lt later
  -- What was there at first is neither the piece nor anything split off since.
  have around {m₀ m m' : Lineage σ ω} (fits : m₀.members.length ≤ k) (waited : Beside i m₀ m)
      (worked : Beside k m m') : Beside i m₀ m' := by
    intro j own apart known
    have early : j < m₀.members.length := (List.getElem?_eq_some_iff.mp known).1
    exact worked j own (Nat.ne_of_lt (Nat.lt_of_lt_of_le early fits)) (waited j own apart known)
  simp only [Bind.bind, EStateM.bind, SplitTraversal.aside]
  generalize act ⟨piece, s.shared⟩ = o, act ⟨piece', s'.shared⟩ = o' at level ⊢
  cases level with
  | error h next =>
    obtain ⟨l', r', alike', now, now', left', right'⟩ := next
    exact .error h ⟨l', r', alike', ⟨left' i _ other here.own, now.shared⟩,
      ⟨right' i _ other here'.own, now'.shared⟩, around fits left left',
      around fits' right right'⟩
  | ok a next =>
    obtain ⟨l', r', alike', now, now', left', right'⟩ := next
    have back : l'.At i ⟨s.own, l'.shared⟩ := ⟨left' i _ other here.own, rfl⟩
    have back' : r'.At i ⟨s'.own, r'.shared⟩ := ⟨right' i _ other here'.own, rfl⟩
    simp only [Outcome.mapState_ok, ← now.shared, ← now'.shared]
    exact (rest a l' r' i _ _ alike' back back').since (around fits left left')
      (around fits' right right')

end BlindBeside

theorem Blind.split {whole : Activity (Site σ ω) ρ} {parts : σ → Activity (Site σ ω) ρ}
    (stayed : Blind p subject among whole) (parted : BlindBeside p subject among parts) :
    Blind p subject among (p.trySplit.lift >>= fun piece => piece.elim whole parts) := by
  intro l r i s s' alike here here'
  rcases alike.reply here here' .trySplit with ⟨_, _, _, t, t', ran, ran', next⟩ |
    ⟨e, t, t', ran, ran', next⟩
  · obtain ⟨piece, left, found⟩ := map_eq_ok ran
    obtain ⟨piece', right, found'⟩ := map_eq_ok ran'
    obtain ⟨rfl, rfl⟩ := Prod.mk.inj found
    obtain ⟨same, rfl⟩ := Prod.mk.inj found'
    simp only [Bind.bind, EStateM.bind, Action.lift, left, right]
    cases piece with
    | none =>
      cases piece' with
      | some piece' => cases same
      | none =>
        exact (stayed _ _ i t t' next (here.after t none) (here'.after t' none)).since
          (beside_after _ _ _ _) (beside_after _ _ _ _)
    | some piece =>
      cases piece' with
      | none => cases same
      | some piece' =>
        have newest := newest_after r i t' piece'
        rw [← alike.length_eq] at newest
        exact parted l r _ _ i l.members.length t t' piece piece' next (here.after t _)
          (here'.after t' _) (newest_after l i t piece) newest here.lt (Nat.le_refl _)
          (Nat.le_of_eq alike.length_eq.symm) (beside_after _ _ _ _) (beside_after _ _ _ _)
  · have left := map_eq_error ran
    have right := map_eq_error ran'
    simp only [Bind.bind, EStateM.bind, Action.lift, left, right]
    exact .error _ (.after next here here')

end SplitTraversal
