import SplitTraversal.Proofs.GuardedRounds
import SplitTraversal.Source.Defective

/-! The guarded traversal always ends. Every split uses up one of the splits granted to unsized
sources, and a sized source leaves only smaller estimates behind: the splits left and the estimate at
hand, in this order, go down from round to round, whatever kinds of sources are mixed. -/

namespace SplitTraversal

namespace Value

def Counts (v : Value) (n : Nat) : Prop :=
  ∃ m : Number, v = .number m ∧ m.same (.integer n) = true

theorem Counts.isAtMost {v w : Value} {m n : Nat} (first : v.Counts m) (second : w.Counts n) :
    v.isAtMost w = .ok (decide (m ≤ n)) := by
  obtain ⟨x, rfl, left⟩ := first
  obtain ⟨y, rfl, right⟩ := second
  rw [isAtMost_of_same left right]
  simp

theorem Counts.le {v : Value} {m n : Nat} (first : v.Counts m) (second : v.Counts n) : m ≤ n := by
  have here := first.isAtMost second
  rw [second.isAtMost second] at here
  simpa using here.symm

theorem Counts.unique {v : Value} {m n : Nat} (first : v.Counts m) (second : v.Counts n) : m = n :=
  Nat.le_antisymm (first.le second) (second.le first)

theorem counts_int (n : Nat) : (int n).Counts n := ⟨.integer n, rfl, by simp [Number.same]⟩

end Value

namespace Protocol

variable {σ ω α : Type}

/-- The sources that splitting makes of a source, as they are at any time, each with the answer that
it gave when it was asked whether it is sized. -/
inductive Descends (p : Protocol σ ω α) (root : σ) : σ → Bool → Prop
  | root {sized : Bool} {w : ω} {t : Site σ ω}
      (asked : p.hasCharacteristics (.ofFlag .sized) ⟨root, w⟩ = .ok sized t) :
      Descends p root t.own sized
  | asked {s : σ} {sized : Bool} {w : ω} {v : Value} {t : Site σ ω} (above : Descends p root s sized)
      (asked : p.estimateSize ⟨s, w⟩ = .ok v t) : Descends p root t.own sized
  | rest {s piece : σ} {sized : Bool} {w : ω} {t : Site σ ω} (above : Descends p root s sized)
      (cut : p.trySplit ⟨s, w⟩ = .ok (some piece) t) : Descends p root t.own sized
  | piece {s piece : σ} {sized pieceSized : Bool} {w w' : ω} {t u : Site σ ω}
      (above : Descends p root s sized) (cut : p.trySplit ⟨s, w⟩ = .ok (some piece) t)
      (asked : p.hasCharacteristics (.ofFlag .sized) ⟨piece, w'⟩ = .ok pieceSized u) :
      Descends p root u.own pieceSized

/-- What the sized sources among them are held to. Nothing is asked of the others. -/
structure Dwindles (p : Protocol σ ω α) (root : σ) : Prop where
  /-- Estimates are natural numbers. -/
  natural {s : σ} (sized : p.Descends root s true) {w : ω} {v : Value} {t : Site σ ω}
    (asked : p.estimateSize ⟨s, w⟩ = .ok v t) : ∃ n, v.Counts n
  /-- A piece that is sized too has an estimate below that of its parent before the split. -/
  smaller {s : σ} (sized : p.Descends root s true) {w w' : ω} {before size : Value} {piece : σ}
    {s₁ t u x : Site σ ω} (asked : p.estimateSize ⟨s, w⟩ = .ok before s₁)
    (cut : p.trySplit s₁ = .ok (some piece) t)
    (pieceSized : p.hasCharacteristics (.ofFlag .sized) ⟨piece, w'⟩ = .ok true u)
    (pieceAsked : p.estimateSize u = .ok size x) {m n : Nat} (whole : before.Counts m)
    (part : size.Counts n) : n < m

/-- What a sized source says after a split it does not exceed when it is asked the next time, whatever
has become of the shared state meanwhile. -/
def Steadfast (p : Protocol σ ω α) (root : σ) : Prop :=
  ∀ {s piece : σ} {w w' : ω} {v v' : Value} {t u x : Site σ ω} {m n : Nat},
    p.Descends root s true → p.trySplit ⟨s, w⟩ = .ok (some piece) t → p.estimateSize t = .ok v u →
      p.estimateSize ⟨u.own, w'⟩ = .ok v' x → v.Counts m → v'.Counts n → n ≤ m

variable {p : Protocol σ ω α} {root : σ}

theorem lt_of_stall?_none {before after : Value} {splits m n : Nat} (first : before.Counts m)
    (next : after.Counts n) (calm : stall? true before after splits = .ok none) : n < m := by
  apply Nat.lt_of_not_le
  intro stuck
  simp [stall?, first.isAtMost next, Except.map, stuck] at calm

/-- A source has a rank if it is not sized, or if its estimate, should it give one, is below it. -/
def RankedBelow (p : Protocol σ ω α) (s : Site σ ω) (sized : Bool) (rank : Nat) : Prop :=
  sized = true → ∀ v u, p.estimateSize s = .ok v u → ∃ n, v.Counts n ∧ n < rank

theorem Dwindles.rankedBelow (laws : p.Dwindles root) {s : Site σ ω} {sized : Bool}
    (here : p.Descends root s.own sized) : ∃ rank, p.RankedBelow s sized rank := by
  cases asked : p.estimateSize s with
  | error e u => exact ⟨0, fun _ v x h => by rw [asked] at h; cases h⟩
  | ok v u =>
    cases sized with
    | false => exact ⟨0, fun h => by cases h⟩
    | true =>
      obtain ⟨n, counts⟩ := laws.natural here asked
      refine ⟨n + 1, fun _ v' x h => ⟨n, ?_, Nat.lt_succ_self n⟩⟩
      rw [asked] at h
      cases h
      exact counts

/-- With some number of rounds, or more, the traversal comes to an end of its own. -/
def Ends (p : Protocol σ ω α) (sized : Bool) (x : Site σ ω × Tally α) : Prop :=
  ∃ rounds, Outcome.Finished (p.splitGuarded sized rounds x)

theorem ends_of_divided {sized pieceSized : Bool} {own : σ} {x y : Site σ ω × Tally α}
    (divided : ∀ rounds, p.splitGuarded sized (rounds + 1) x =
      p.restGuarded sized rounds own (p.splitGuarded pieceSized rounds y))
    (piece : p.Ends pieceSized y)
    (rest : ∀ w t, y.2.splits ≤ t.splits → p.Ends sized (⟨own, w⟩, t)) : p.Ends sized x := by
  obtain ⟨rounds, finished⟩ := piece
  have grown := splits_le_splitGuarded p pieceSized rounds y
  cases ended : p.splitGuarded pieceSized rounds y with
  | error h u =>
    refine ⟨rounds + 1, ?_⟩
    rw [divided, ended]
    rintro v ⟨⟩
    exact finished u ended
  | ok stalled u =>
    rw [ended] at grown
    cases stalled with
    | some stall =>
      refine ⟨rounds + 1, ?_⟩
      rw [divided, ended]
      exact Outcome.finished_ok _ _
    | none =>
      obtain ⟨more, onward⟩ := rest u.1.shared u.2 grown
      refine ⟨max rounds more + 1, ?_⟩
      rw [divided, splitGuarded_more (Nat.le_max_left rounds more) finished, ended, restGuarded,
        splitGuarded_more (Nat.le_max_right rounds more) onward]
      exact onward

/-- By induction on the splits that are left and, among rounds that leave as many, on the rank. -/
theorem Dwindles.ends (laws : p.Dwindles root) (steadfast : p.Steadfast root) (budget rank : Nat)
    {s : Site σ ω} {sized : Bool} {t : Tally α} (here : p.Descends root s.own sized) (left : unsizedSplitLimit - t.splits ≤ budget)
    (ranked : p.RankedBelow s sized rank) : p.Ends sized (s, t) := by
  induction budget using Nat.strongRecOn generalizing rank s sized t with
  | ind budget fewer =>
    induction rank using Nat.strongRecOn generalizing s sized t with
    | ind rank lower =>
      rcases splitGuarded_cases p sized s t with ⟨o, stopped, finished, -⟩ |
        ⟨before, piece, after, u, pieceSized, v, ⟨asked, cut, again⟩, calm, pieceAsked, divided⟩
      · exact ⟨1, by rwa [stopped]⟩
      · have cutHere := here.asked asked
        have pieceHere := cutHere.piece cut pieceAsked
        have restHere := (cutHere.rest cut).asked again
        cases sized with
        | false =>
          -- The split was granted, which leaves one less to grant, whatever comes next.
          have granted := splits_le_of_stall?_none calm
          obtain ⟨pieceRank, pieceRanked⟩ := laws.rankedBelow pieceHere
          refine ends_of_divided divided ?_ fun w t' grown => ?_
          · exact fewer (budget - 1) (by omega) pieceRank pieceHere (by simp only; omega) pieceRanked
          · have grown : t.splits + 1 ≤ t'.splits := grown
            refine fewer (budget - 1) (by omega) 0 restHere (by omega) ?_
            intro sized
            cases sized
        | true =>
          obtain ⟨m, whole, below⟩ := ranked rfl _ _ asked
          obtain ⟨n, part⟩ := laws.natural (cutHere.rest cut) again
          have shrunk := lt_of_stall?_none whole part calm
          refine ends_of_divided divided ?_ fun w t' grown => ?_
          · refine lower m below pieceHere (by simp only; omega) ?_
            rintro rfl size x pieceSize
            obtain ⟨k, counts⟩ := laws.natural pieceHere pieceSize
            exact ⟨k, counts, laws.smaller here asked cut pieceAsked pieceSize whole counts⟩
          · have grown : t.splits + 1 ≤ t'.splits := grown
            refine lower m below restHere (by omega) ?_
            intro _ size x restSize
            obtain ⟨k, counts⟩ := laws.natural restHere restSize
            have settled := steadfast cutHere cut again restSize part counts
            exact ⟨k, counts, Nat.lt_of_le_of_lt settled shrunk⟩

theorem splitGuarded_withinLimit (unsized : ∀ t, ¬p.Descends root t true) (rounds : Nat)
    {s : Site σ ω} {sized : Bool} {t : Tally α} (here : p.Descends root s.own sized)
    (few : t.splits ≤ unsizedSplitLimit) : WithinLimit (p.splitGuarded sized rounds (s, t)) := by
  induction rounds generalizing s sized t with
  | zero => exact few
  | succ rounds ih =>
    have plain : sized = false := by
      cases sized with
      | false => rfl
      | true => exact absurd here (unsized _)
    subst plain
    rcases splitGuarded_cases p false s t with ⟨o, stopped, _, _, within⟩ |
      ⟨before, piece, after, u, pieceSized, v, ⟨asked, cut, again⟩, calm, pieceAsked, divided⟩
    · rw [stopped]
      exact within rfl few
    · have cutHere := here.asked asked
      have restHere := (cutHere.rest cut).asked again
      have first := ih (cutHere.piece cut pieceAsked) (t := ⟨t.seen, t.splits + 1⟩)
        (splits_le_of_stall?_none calm)
      rw [divided]
      cases ended : p.splitGuarded pieceSized rounds (v, ⟨t.seen, t.splits + 1⟩) with
      | error h x =>
        rw [ended] at first
        exact first
      | ok stalled x =>
        rw [ended] at first
        cases stalled with
        | some stall => exact first
        | none => exact ih restHere first

/-- The sources noted are within the limit where the splits of the traversal are, but for one. -/
theorem NotesAs.length_le {κ : Type} {note : κ → σ → κ} {k : κ} {noted : List σ}
    {plain : Outcome Halt (Site σ ω × Tally α) (Option Stall)}
    {noting : Outcome Halt (Site σ (ω × κ) × Tally α) (Option Stall)}
    (notes : NotesAs note k 0 plain noted noting) (within : WithinLimit plain) :
    noted.length ≤ unsizedSplitLimit + 1 := by
  have close := notes.close
  rw [Nat.zero_add] at close
  cases plain with
  | error h u => exact Nat.le_trans close (Nat.succ_le_succ within)
  | ok stalled u =>
    have exact := notes.exact stalled u rfl
    rw [Nat.zero_add] at exact
    rw [exact]
    cases stalled with
    | some stall => exact within
    | none => exact Nat.le_succ_of_le within

theorem foldl_count (noted : List σ) (n : Nat) :
    noted.foldl (fun n _ => n + 1) n = n + noted.length := by
  induction noted generalizing n with
  | nil => rfl
  | cons s noted ih =>
    rw [List.foldl_cons, ih, List.length_cons]
    omega

theorem traverse_finished {s : σ} {w : ω} {rounds : Nat} {sized : Bool} {t : Site σ ω}
    (asked : p.hasCharacteristics (.ofFlag .sized) ⟨s, w⟩ = .ok sized t)
    (finished : Outcome.Finished (p.splitGuarded sized rounds (t, ⟨#[], 0⟩))) :
    Outcome.Finished (p.traverse rounds .maximumSplit ⟨s, w⟩) := by
  rw [traverse_maximumSplit asked]
  cases ended : p.splitGuarded sized rounds (t, ⟨#[], 0⟩) with
  | error h u =>
    rintro v ⟨⟩
    exact finished u ended
  | ok stalled u => cases stalled <;> exact Outcome.finished_ok _ _

theorem counted_le {s : σ} (unsized : ∀ t, ¬p.Descends s t true) (rounds : Nat) (w : ω) :
    (Outcome.state (p.counted.traverse rounds .maximumSplit ⟨s, (w, 0)⟩)).shared.2 ≤
      unsizedSplitLimit + 1 := by
  cases asked : p.hasCharacteristics (.ofFlag .sized) ⟨s, w⟩ with
  | error e t =>
    simp only [traverse, counted, splitNoting, beside, Focus.run, asked]
    exact Nat.zero_le _
  | ok sized t =>
    have askedCounting : p.counted.hasCharacteristics (.ofFlag .sized) ⟨s, (w, 0)⟩ =
        .ok sized ⟨t.own, (t.shared, 0)⟩ := run_beside asked 0
    obtain ⟨noted, notes⟩ := splitGuarded_noting (fun n _ => n + 1) p sized rounds t ⟨#[], 0⟩ 0
    have within := notes.length_le (splitGuarded_withinLimit unsized rounds (.root asked)
      (Nat.zero_le _))
    have same := notes.same
    simp only [withNote, foldl_count, Nat.zero_add] at same
    rw [traverse_maximumSplit askedCounting, counted, same]
    cases p.splitGuarded sized rounds (t, ⟨#[], 0⟩) with
    | error h u => exact within
    | ok stalled u => cases stalled <;> exact within

/-- A guarded traversal by splits comes to an end, and more rounds than it needs change nothing. Where
no source is sized, few more splits succeed than are granted. -/
theorem traverse_ends {s : σ} (laws : p.Dwindles s) (steadfast : p.Steadfast s) (w : ω) :
    (∃ rounds, Outcome.Finished (p.traverse rounds .maximumSplit ⟨s, w⟩) ∧
      ∀ more, rounds ≤ more →
        p.traverse more .maximumSplit ⟨s, w⟩ = p.traverse rounds .maximumSplit ⟨s, w⟩) ∧
    ((∀ t, ¬p.Descends s t true) → ∀ rounds,
      Outcome.mapState beside.get (p.counted.traverse rounds .maximumSplit ⟨s, (w, 0)⟩) =
          p.traverse rounds .maximumSplit ⟨s, w⟩ ∧
        (Outcome.state (p.counted.traverse rounds .maximumSplit ⟨s, (w, 0)⟩)).shared.2 ≤
          1000001) := by
  refine ⟨?_, fun unsized rounds => ?_⟩
  · cases asked : p.hasCharacteristics (.ofFlag .sized) ⟨s, w⟩ with
    | error e t =>
      have threw (rounds : Nat) :
          p.traverse rounds .maximumSplit ⟨s, w⟩ = .error (.threw e) t := by
        simp only [traverse, asked]
      refine ⟨0, ?_, fun more _ => by rw [threw, threw]⟩
      rw [threw]
      exact Outcome.finished_threw e t
    | ok sized t =>
      have here : p.Descends s t.own sized := .root asked
      obtain ⟨rank, ranked⟩ := laws.rankedBelow here
      obtain ⟨rounds, finished⟩ := laws.ends steadfast _ rank here (t := ⟨#[], 0⟩) (Nat.le_refl _)
        ranked
      refine ⟨rounds, traverse_finished asked finished, fun more within => ?_⟩
      rw [traverse_maximumSplit asked, traverse_maximumSplit asked,
        splitGuarded_more within finished]
  · exact ⟨traverse_noting _ p rounds s w 0, counted_le unsized rounds w⟩

end Protocol

/-- Sources that never stop splitting. One without a size hands out larger and larger sized pieces,
a sized one smaller pieces and, when its size has come to zero, pieces without a size. -/
inductive Endless where
  | unsized (next : Nat)
  | sized (left : Nat)

namespace Endless

def isSized : Endless → Bool
  | .unsized _ => false
  | .sized _ => true

def estimate : Endless → Nat
  | .unsized _ => Number.maxSafe
  | .sized left => left

def flags (s : Endless) : Characteristics := if s.isSized then .ofFlag .sized else .none

def cut : Endless → Endless × Endless
  | .unsized next => (.sized next, .unsized (next + 1))
  | .sized 0 => (.unsized 0, .sized 0)
  | .sized (left + 1) => (.sized left, .sized left)

def protocol : Protocol Endless Unit Nat where
  tryAdvance := fun _ s => .returned false s
  forEachRemaining := fun _ s => .returned () s
  trySplit := fun s => .ok (some s.own.cut.1) { s with own := s.own.cut.2 }
  estimateSize := fun s => .ok (.int s.own.estimate) s
  exactSizeIfKnown := fun s => .ok (.int (if s.own.isSized then s.own.estimate else -1)) s
  characteristics := fun s => .ok s.own.flags.toValue s
  hasCharacteristics := fun flags s => .ok (s.own.flags.hasAll flags) s
  comparator := Source.noComparator "Endless"

theorem flags_sized (s : Endless) : s.flags.hasAll (.ofFlag .sized) = s.isSized := by
  cases s with
  | unsized next => exact (by decide : Characteristics.none.hasAll (.ofFlag .sized) = false)
  | sized left => exact (by decide : (Characteristics.ofFlag .sized).hasAll (.ofFlag .sized) = true)

theorem isSized_cut (s : Endless) : s.cut.2.isSized = s.isSized := by
  cases s with
  | unsized next => rfl
  | sized left => cases left <;> rfl

theorem isSized_of_descends {root s : Endless} {sized : Bool}
    (here : protocol.Descends root s sized) : s.isSized = sized := by
  induction here with
  | root asked =>
    cases asked
    exact (flags_sized root).symm
  | asked above asked ih =>
    cases asked
    exact ih
  | rest above cut ih =>
    cases cut
    exact (isSized_cut _).trans ih
  | piece above cut asked ih =>
    cases asked
    exact (flags_sized _).symm

theorem dwindles (root : Endless) : protocol.Dwindles root where
  natural {s} sized w v t asked := by
    cases asked
    exact ⟨s.estimate, Value.counts_int s.estimate⟩
  smaller {s} sized w w' before size piece s₁ t u x asked cut pieceSized pieceAsked m n whole
      part := by
    cases asked
    cases cut
    have flagged := flags_sized s.cut.1
    injection pieceSized with sizedPiece moved
    subst moved
    cases pieceAsked
    have pieceSized : s.cut.1.isSized = true := flagged.symm.trans sizedPiece
    obtain rfl := whole.unique (Value.counts_int s.estimate)
    obtain rfl := part.unique (Value.counts_int s.cut.1.estimate)
    have isSized := isSized_of_descends sized
    cases s with
    | unsized next => cases isSized
    | sized left =>
      cases left with
      | zero => cases pieceSized
      | succ left => exact Nat.lt_succ_self left

theorem steadfast (root : Endless) : protocol.Steadfast root := by
  intro s piece w w' v v' t u x m n sized cut asked again first later
  cases asked
  cases again
  exact later.le first

theorem traverse_ends_endless :
    protocol.Dwindles (.unsized 0) ∧ protocol.Steadfast (.unsized 0) ∧
      ∃ rounds, Outcome.Finished (protocol.traverse rounds .maximumSplit ⟨.unsized 0, ()⟩) ∧
        ∀ more, rounds ≤ more → protocol.traverse more .maximumSplit ⟨.unsized 0, ()⟩ =
          protocol.traverse rounds .maximumSplit ⟨.unsized 0, ()⟩ := by
  have laws : protocol.Dwindles (.unsized 0) := dwindles _
  exact ⟨laws, steadfast _, (Protocol.traverse_ends laws (steadfast _) ()).1⟩

end Endless

/-- Sources that say two and one by turns, and keep handing out empty pieces. -/
inductive Toggling where
  | whole (low : Bool)
  | empty

namespace Toggling

def estimate : Toggling → Nat
  | .whole false => 2
  | .whole true => 1
  | .empty => 0

def asked : Toggling → Toggling
  | .whole low => .whole !low
  | .empty => .empty

def piece? : Toggling → Option Toggling
  | .whole _ => some .empty
  | .empty => none

def protocol : Protocol Toggling Unit Nat where
  tryAdvance := fun _ s => .returned false s
  forEachRemaining := fun _ s => .returned () s
  trySplit := fun s => .ok s.own.piece? s
  estimateSize := fun s => .ok (.int s.own.estimate) { s with own := s.own.asked }
  exactSizeIfKnown := fun s => .ok (.int s.own.estimate) { s with own := s.own.asked }
  characteristics := fun s => .ok (Characteristics.ofFlag .sized).toValue s
  hasCharacteristics := fun flags s => .ok ((Characteristics.ofFlag .sized).hasAll flags) s
  comparator := Source.noComparator "Toggling"

theorem dwindles (root : Toggling) : protocol.Dwindles root where
  natural {s} sized w v t asked := by
    cases asked
    exact ⟨s.estimate, Value.counts_int s.estimate⟩
  smaller {s} sized w w' before size piece s₁ t u x asked cut pieceSized pieceAsked m n whole
      part := by
    cases asked
    cases pieceSized
    cases pieceAsked
    obtain rfl := whole.unique (Value.counts_int s.estimate)
    cases s with
    | empty => cases cut
    | whole low =>
      cases cut
      obtain rfl := part.unique (Value.counts_int 0)
      cases low <;> exact Nat.zero_lt_succ _

theorem splitGuarded_whole (rounds : Nat) (t : Tally Nat) :
    ∃ u, protocol.splitGuarded true rounds (⟨.whole false, ()⟩, t) = .error .outOfRounds u := by
  induction rounds generalizing t with
  | zero => exact ⟨_, rfl⟩
  | succ rounds ih =>
    cases rounds with
    | zero => exact ⟨_, rfl⟩
    | succ rounds => exact ih ⟨t.seen, t.splits + 1⟩

/-- A sized source that says more before a split than it has said after the last one can go on
splitting forever, though all its pieces are smaller. -/
theorem traverse_never_ends : protocol.Dwindles (.whole false) ∧
    ∀ rounds, ∃ t, protocol.traverse rounds .maximumSplit ⟨.whole false, ()⟩ =
      .error .outOfRounds t := by
  refine ⟨dwindles _, fun rounds => ?_⟩
  have sized : (Characteristics.ofFlag .sized).hasAll (.ofFlag .sized) = true := by decide
  obtain ⟨t, endless⟩ := splitGuarded_whole rounds ⟨#[], 0⟩
  refine ⟨t.1, ?_⟩
  rw [Protocol.traverse_maximumSplit (congrArg (EStateM.Result.ok · _) sized), endless]

end Toggling
end SplitTraversal
