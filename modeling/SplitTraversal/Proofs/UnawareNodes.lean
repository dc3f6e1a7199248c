import SplitTraversal.Proofs.TracedDivisions
import SplitTraversal.Proofs.UnawareSources
import SplitTraversal.Source.Blueprint

/-! Nodes that are unaware of one of the records. Whatever it holds, they do what they do otherwise
and leave it so. What is built is unaware of all records that are begun later. -/

namespace SplitTraversal

open Turn

variable {σ κ ω τ α ρ : Type}

namespace Bench

def withRecord (k : Nat) (t : Trace Value) (b : Bench) : Bench :=
  (recorder k).modify (fun _ => t) b

theorem modify_withRecord (k : Nat) (f : Trace Value → Trace Value) (t : Trace Value) (b : Bench) :
    (recorder k).modify f (b.withRecord k t) = b.withRecord k (f t) := by
  simp only [withRecord, recorder, Bench.mk.injEq, and_true]
  refine Array.ext_getElem? fun i => ?_
  simp only [Array.getElem?_modify]
  split
  · simp only [Option.map_map, Function.comp_def]
  · rfl

theorem withRecord_self {k : Nat} {t : Trace Value} {b : Bench} (here : b.traces[k]? = some t) :
    b.withRecord k t = b := by
  obtain ⟨traces, lists, calls⟩ := b
  simp only [withRecord, recorder, Bench.mk.injEq, and_true]
  refine Array.ext_getElem? fun i => ?_
  rw [Array.getElem?_modify]
  split
  · next same =>
    rw [← same, here]
    rfl
  · rfl

theorem modify_withRecord_of_ne {k trace : Nat} (other : trace ≠ k)
    (f : Trace Value → Trace Value) (t : Trace Value) (b : Bench) :
    (recorder trace).modify f (b.withRecord k t) =
      ((recorder trace).modify f b).withRecord k t := by
  simp only [withRecord, recorder, Bench.mk.injEq, and_true]
  refine Array.ext_getElem? fun i => ?_
  simp only [Array.getElem?_modify]
  by_cases here : trace = i
  · have there : k ≠ i := fun same => other (here.trans same.symm)
    simp only [if_pos here, if_neg there]
  · simp only [if_neg here]

end Bench

namespace Node

/-- Nothing in the source looks at the record of this number, nor is traced in it. -/
def Unaware (k : Nat) : Node → Prop
  | .indexed s => s.source.Unaware (Bench.withRecord k)
  | .traced inner trace => trace ≠ k ∧ inner.Unaware k
  | _ => True

variable {k : Nat}

theorem Unaware.traced {inner : Node} {trace : Nat} (other : trace ≠ k)
    (unaware : inner.Unaware k) : (Node.traced inner trace).Unaware k :=
  ⟨other, unaware⟩

theorem turn_shifts {ours : τ → Prop} {wrap : τ → Node} {unwrap : Node → Option τ}
    (back : ∀ n s, unwrap n = some s → n.Unaware k → ours s)
    (wrapped : ∀ s, ours s → (wrap s).Unaware k) {t : Trace Value} {source : τ}
    (unaware : ours source) {turn' turn : Turn (Site τ Bench) Value ρ}
    (shifts : Shifts (Bench.withRecord k t) ours turn' turn) (b : Bench) :
    Shifts (Bench.withRecord k t) (Unaware k)
      (turn'.within (part wrap unwrap source) ⟨wrap source, b.withRecord k t⟩)
      (turn.within (part wrap unwrap source) ⟨wrap source, b⟩) := by
  refine shifts.within (fun s there => ⟨?_, rfl⟩) (fun u s there => ⟨wrapped _ there, rfl⟩)
    ⟨wrap source, b⟩
  simp only [part]
  cases found : unwrap s.own with
  | none => exact unaware
  | some u => exact back _ _ found there

theorem heedless_shifts (wrap : τ → Node) (unwrap : Node → Option τ)
    (wrapped : ∀ s, (wrap s).Unaware k) {t : Trace Value} {source : τ}
    {turn' turn : Turn (Site τ Bench) Value ρ}
    (heedless : Heedless (Bench.withRecord k t) turn' turn) (b : Bench) :
    Shifts (Bench.withRecord k t) (Unaware k)
      (turn'.within (part wrap unwrap source) ⟨wrap source, b.withRecord k t⟩)
      (turn.within (part wrap unwrap source) ⟨wrap source, b⟩) :=
  turn_shifts (fun _ _ _ _ => trivial) (fun s _ => wrapped s) trivial heedless b

theorem indexed?_unaware (n : Node) (s : Flawed Bench Value) (found : n.indexed? = some s)
    (unaware : n.Unaware k) : s.source.Unaware (Bench.withRecord k) := by
  cases n <;> cases found
  exact unaware

theorem inner?_unaware (n inner : Node) (found : n.inner? = some inner) (unaware : n.Unaware k) :
    inner.Unaware k := by
  cases n <;> cases found
  exact unaware.2

theorem tryAdvance_shifts (visitor : Callee) {n : Node} (unaware : n.Unaware k) (t : Trace Value)
    (b : Bench) :
    Shifts (Bench.withRecord k t) (Unaware k) (tryAdvance visitor n (b.withRecord k t))
      (tryAdvance visitor n b) := by
  induction n generalizing b with
  | indexed s =>
    exact turn_shifts indexed?_unaware (fun _ => id) unaware
      (Flawed.within_regardless (Indexed.tryAdvance_regardless t) s b unaware) b
  | singleton s =>
    exact heedless_shifts .singleton singleton? (fun _ => trivial)
      (Singleton.tryAdvance_heedless s b) b
  | overlapping s =>
    exact heedless_shifts .overlapping overlapping? (fun _ => trivial)
      (Overlapping.tryAdvance_heedless s b) b
  | unsized s =>
    exact heedless_shifts .unsized unsized? (fun _ => trivial)
      (Unsized.tryAdvance_heedless s b) b
  | scripted s =>
    exact heedless_shifts .scripted scripted? (fun _ => trivial)
      (Scripted.tryAdvance_heedless s b) b
  | traced inner trace ih =>
    exact turn_shifts inner?_unaware (fun _ => .traced unaware.1) unaware.2
      (ih unaware.2 b) b

theorem drain_shifts {turn' turn : Turn (Site Node Bench) Value Unit} {t : Trace Value}
    (shifts : Shifts (Bench.withRecord k t) (Unaware k) turn' turn) {trace : Nat}
    (other : trace ≠ k) :
    Shifts (Bench.withRecord k t) (Unaware k) ((Bench.recorder trace).drain turn')
      ((Bench.recorder trace).drain turn) := by
  have noted (f : Trace Value → Trace Value) (s : Site Node Bench) :
      (Bench.recorder trace).note f (s.shift (Bench.withRecord k t)) =
        ((Bench.recorder trace).note f s).shift (Bench.withRecord k t) :=
    congrArg (Site.mk s.own) (Bench.modify_withRecord_of_ne other f t s.shared)
  exact ((shifts.recorded #[]).settling (fun kept => noted (Trace.drained kept.2))
    fun _ _ => rfl).map fun _ => ()

theorem forEachRemaining_shifts (visitor : Callee) {n : Node} (unaware : n.Unaware k)
    (t : Trace Value) (b : Bench) :
    Shifts (Bench.withRecord k t) (Unaware k) (forEachRemaining visitor n (b.withRecord k t))
      (forEachRemaining visitor n b) := by
  induction n generalizing visitor b with
  | indexed s =>
    exact turn_shifts indexed?_unaware (fun _ => id) unaware
      (Flawed.within_regardless (Indexed.forEachRemaining_regardless t) s b unaware) b
  | singleton s =>
    exact heedless_shifts .singleton singleton? (fun _ => trivial)
      (Singleton.forEachRemaining_heedless s b) b
  | overlapping s =>
    exact heedless_shifts .overlapping overlapping? (fun _ => trivial)
      (Overlapping.forEachRemaining_heedless s b) b
  | unsized s =>
    exact heedless_shifts .unsized unsized? (fun _ => trivial)
      (Unsized.forEachRemaining_heedless s b) b
  | scripted s =>
    exact heedless_shifts .scripted scripted? (fun _ => trivial)
      (Scripted.forEachRemaining_heedless s b) b
  | traced inner trace ih =>
    exact turn_shifts inner?_unaware (fun _ => .traced unaware.1) unaware.2
      (drain_shifts (ih .callable unaware.2 b) unaware.1) b

end Node

/-- The first outcome is the second one with the shared state shifted. Both leave the source among
ours, and answer so. -/
structure Outcome.Shifts (g : ω → ω) (ours : σ → Prop) (answers : ρ → Prop)
    (o' o : Outcome Thrown (Site σ ω) ρ) : Prop where
  same : o' = Outcome.mapState (Site.shift g) o
  own : ours o.state.own
  answer : ∀ a s, o = .ok a s → answers a

namespace Outcome.Shifts

variable {g : ω → ω} {ours : σ → Prop} {answers : ρ → Prop} {own : σ} {w : ω}

theorem ok {a : ρ} (kept : ours own) (answered : answers a) :
    Shifts g ours answers (.ok a ⟨own, g w⟩) (.ok a ⟨own, w⟩) where
  same := rfl
  own := kept
  answer _ _ ended := by
    cases ended
    exact answered

theorem error {e : Thrown} (kept : ours own) :
    Shifts g ours answers (.error e ⟨own, g w⟩) (.error e ⟨own, w⟩) where
  same := rfl
  own := kept
  answer := nofun

end Outcome.Shifts

theorem Indexed.split_unaware {shift : κ → ω → ω} {s : Indexed ω α} (unaware : s.Unaware shift) :
    s.split.2.Unaware shift ∧ ∀ q, s.split.1 = some q → q.Unaware shift := by
  simp only [split]
  split
  · refine ⟨unaware, fun q made => ?_⟩
    cases made
  · refine ⟨unaware, fun q made => ?_⟩
    cases made
    exact unaware

namespace Node

variable {k : Nat}

theorem cut_shifts (ours : τ → Prop) {wrap : τ → Node} (wrapped : ∀ s, ours s → (wrap s).Unaware k)
    {source : τ} {op' op : Action (Site τ Bench) (Option τ)} {t : Trace Value} {b : Bench}
    (shifts : Outcome.Shifts (Bench.withRecord k t) ours (fun found => ∀ q, found = some q → ours q)
      (op' ⟨source, b.withRecord k t⟩) (op ⟨source, b⟩)) :
    Outcome.Shifts (Bench.withRecord k t) (Unaware k)
      (fun found => ∀ q, found = some q → q.Unaware k)
      (cut wrap source (b.withRecord k t) op') (cut wrap source b op) := by
  obtain ⟨same, own, answer⟩ := shifts
  simp only [cut, same]
  cases ended : op ⟨source, b⟩ with
  | error e u =>
    rw [ended] at own
    exact .error (wrapped _ own)
  | ok found u =>
    rw [ended] at own
    apply Outcome.Shifts.ok (wrapped _ own)
    intro q wrap
    obtain ⟨piece, rfl, rfl⟩ := Option.map_eq_some_iff.mp wrap
    exact wrapped _ (answer _ u ended piece rfl)

theorem trySplit_shifts {n : Node} (unaware : n.Unaware k) (t : Trace Value) (b : Bench) :
    Outcome.Shifts (Bench.withRecord k t) (Unaware k)
      (fun found => ∀ q, found = some q → q.Unaware k)
      (trySplit n (b.withRecord k t)) (trySplit n b) := by
  induction n generalizing b with
  | indexed s =>
    simp only [trySplit]
    apply cut_shifts (fun s => s.source.Unaware (Bench.withRecord k)) fun _ => id
    simp only [Flawed.trySplit]
    split
    · apply Outcome.Shifts.ok
      · exact unaware
      · intro q made
        cases made
        exact fun _ _ _ => rfl
    · obtain ⟨rest, pieces⟩ := Indexed.split_unaware unaware
      apply Outcome.Shifts.ok
      · exact rest
      · intro q made
        obtain ⟨piece, there, rfl⟩ := Option.map_eq_some_iff.mp made
        exact pieces piece there
  | singleton s | overlapping s | unsized s =>
    simp only [trySplit]
    apply cut_shifts fun _ => True
    · exact fun _ => id
    · apply Outcome.Shifts.ok trivial
      exact fun _ _ => trivial
  | scripted s =>
    simp only [trySplit]
    apply cut_shifts fun _ => True
    · exact fun _ => id
    · simp only [Scripted.trySplit]
      cases s.split with
      | error e =>
        apply Outcome.Shifts.error
        trivial
      | ok parts =>
        apply Outcome.Shifts.ok trivial
        exact fun _ _ => trivial
  | traced inner trace ih =>
    simp only [trySplit]
    apply cut_shifts (Unaware k) fun _ => .traced unaware.1
    simp only [Recorder.split, Recorder.note, Bench.modify_withRecord_of_ne unaware.1]
    exact ih unaware.2 _

theorem traced_shifts {trace : Nat} (other : trace ≠ k) {answers : ρ → Prop} {t : Trace Value}
    {o' o : Outcome Thrown (Site Node Bench) ρ}
    (shifts : Outcome.Shifts (Bench.withRecord k t) (Unaware k) answers o' o) :
    Outcome.Shifts (Bench.withRecord k t) (Unaware k) answers
      (Outcome.mapState (fun u => ⟨.traced u.own trace, u.shared⟩) o')
      (Outcome.mapState (fun u => ⟨.traced u.own trace, u.shared⟩) o) := by
  obtain ⟨rfl, own, answer⟩ := shifts
  cases o with
  | ok a u => exact .ok (.traced other own) (answer a u rfl)
  | error e u => exact .error (.traced other own)

theorem estimateSize_shifts {n : Node} (unaware : n.Unaware k) (t : Trace Value) (b : Bench) :
    Outcome.Shifts (Bench.withRecord k t) (Unaware k) (fun _ => True)
      (estimateSize n (b.withRecord k t)) (estimateSize n b) := by
  induction n generalizing b with
  | indexed s | singleton s | overlapping s | unsized s | scripted s =>
    exact .ok unaware trivial
  | traced inner trace ih => exact traced_shifts unaware.1 (ih unaware.2 b)

theorem characteristics_shifts {n : Node} (unaware : n.Unaware k) (t : Trace Value) (b : Bench) :
    Outcome.Shifts (Bench.withRecord k t) (Unaware k) (fun _ => True)
      (characteristics n (b.withRecord k t)) (characteristics n b) := by
  induction n generalizing b with
  | indexed s =>
    obtain ⟨source, flaw⟩ := s
    cases flaw <;> exact .ok unaware trivial
  | singleton s | overlapping s | unsized s | scripted s => exact .ok unaware trivial
  | traced inner trace ih => exact traced_shifts unaware.1 (ih unaware.2 b)

end Node
namespace Indexed

variable {ω α : Type}

theorem read_of_create {length : Value} {read : Option (Number → Action ω α)}
    {options : Option (Options α)} {s : Indexed ω α} (built : create length read options = .ok s) :
    ∃ f, read = some f ∧ ∀ i, ∃ position, s.read i = f position := by
  unfold create at built
  split at built
  · cases built
  · cases built
  · split at built
    · cases built
    · cases read with
      | none => cases built
      | some f =>
        rename_i options _ _ _ _ _
        cases flags : Characteristics.ofValue options.characteristics with
        | error e => simp only [flags, reduceCtorEq] at built
        | ok declared =>
          simp only [flags, Except.ok.injEq] at built
          subst built
          exact ⟨f, rfl, fun i => ⟨_, rfl⟩⟩

end Indexed

theorem Action.ofExcept_aside {S : Type} (result : Except Thrown ρ) (g : S → S) (s : S) :
    ofExcept result (g s) = Outcome.mapState g (ofExcept result s) := by
  cases result <;> rfl

theorem Reading.apply_aside {f : Number → Action Bench Value} (reading : Reading)
    (applied : reading.apply = some f) (position : Number) (g : Bench → Bench) (b : Bench) :
    f position (g b) = Outcome.mapState g (f position b) := by
  cases reading with
  | identity | named f =>
    cases applied
    exact Action.ofExcept_aside _ g b
  | notAFunction => cases applied

namespace Blueprint

theorem snapshotWith_unaware {elements : List Value} {characteristics : Value} {b b' : Bench}
    {n : Node} (built : snapshotWith elements characteristics b = .ok n b') (k : Nat) :
    n.Unaware k := by
  simp only [snapshotWith, Action.ofExcept] at built
  cases flags : Characteristics.ofValue characteristics with
  | error e =>
    rw [flags] at built
    cases built
  | ok declared =>
    rw [flags] at built
    cases built
    exact fun _ _ _ => rfl

/-- What is built looks only at records that were begun by then. -/
theorem build_unaware (blueprint : Blueprint) {b b' : Bench} {n : Node}
    (built : blueprint.build b = .ok n b') {k : Nat} (later : b'.traces.size ≤ k) :
    n.Unaware k := by
  induction blueprint generalizing b b' n k with
  | indexed flaw length reading options =>
    simp only [build] at built
    cases created : Indexed.create length reading.apply options with
    | error e =>
      rw [created] at built
      cases built
    | ok source =>
      rw [created] at built
      cases built
      obtain ⟨f, applied, reads⟩ := Indexed.read_of_create created
      intro t i b
      obtain ⟨position, reads⟩ := reads i
      rw [reads]
      exact reading.apply_aside applied position _ b
  | singleton value | overlapping elements | unsized elements | scripted plan emptySplits =>
    cases built
    trivial
  | empty =>
    cases built
    exact fun _ _ _ => rfl
  | ofList elements characteristics => exact snapshotWith_unaware built k
  | snapshot list characteristics =>
    simp only [build] at built
    cases found : b.lists[list]? with
    | none =>
      rw [found] at built
      cases built
    | some elements =>
      rw [found] at built
      exact snapshotWith_unaware built k
  | traced inner ih =>
    simp only [build] at built
    cases made : inner.build b with
    | error e c =>
      rw [made] at built
      cases built
    | ok node c =>
      rw [made] at built
      cases built
      have later : (c.traces.push .empty).size ≤ k := later
      rw [Array.size_push] at later
      exact .traced (show c.traces.size ≠ k by omega) (ih made (by omega))
  | failing thrown => cases built

/-- The record of a new traced source is its own. -/
theorem build_traced {inner : Blueprint} {b b' : Bench} {n' : Node}
    (built : (Blueprint.traced inner).build b = .ok n' b') :
    ∃ n k c, inner.build b = .ok n c ∧ n' = .traced n k ∧ n.Unaware k ∧
      b'.withRecord k .empty = b' ∧ b'.traces[k]? = some .empty := by
  simp only [build] at built
  cases made : inner.build b with
  | error e c =>
    rw [made] at built
    cases built
  | ok n c =>
    rw [made] at built
    cases built
    have begun : (c.traces.push .empty)[c.traces.size]? = some .empty := Array.getElem?_push_size
    exact ⟨n, c.traces.size, c, rfl, rfl, inner.build_unaware made (Nat.le_refl _),
      Bench.withRecord_self begun, begun⟩

end Blueprint

end SplitTraversal
