import SplitTraversal.Proofs.GuardedRefinement

/-! The contract of the source interface, and what it promises of every strategy: the traversal
ends, and it visits what remained, in order if the source is ordered. -/

namespace SplitTraversal

variable {σ ω α : Type}

/-- The same elements, and in the same order where there is an order to keep. -/
def Same (ordered : Bool) (xs ys : List α) : Prop := xs.Perm ys ∧ (ordered = true → xs = ys)

namespace Same

variable {ordered : Bool} {xs ys zs : List α}

theorem of_eq (ordered : Bool) (h : xs = ys) : Same ordered xs ys := ⟨.of_eq h, fun _ => h⟩

theorem trans (first : Same ordered xs ys) (next : Same ordered ys zs) : Same ordered xs zs :=
  ⟨first.1.trans next.1, fun order => (first.2 order).trans (next.2 order)⟩

theorem append_left (seen : List α) (same : Same ordered xs ys) :
    Same ordered (seen ++ xs) (seen ++ ys) :=
  ⟨same.1.append_left seen, fun order => congrArg (seen ++ ·) (same.2 order)⟩

theorem append_right (rest : List α) (same : Same ordered xs ys) :
    Same ordered (xs ++ rest) (ys ++ rest) :=
  ⟨same.1.append_right rest, fun order => congrArg (· ++ rest) (same.2 order)⟩

theorem weaken {looser : Bool} (same : Same ordered xs ys) (keep : looser = true → ordered = true) :
    Same looser xs ys := ⟨same.1, fun order => same.2 (keep order)⟩

theorem join {seen first last piece rest whole : List α} (one : Same ordered first (seen ++ piece))
    (other : Same ordered last (first ++ rest)) (parts : Same ordered (piece ++ rest) whole) :
    Same ordered last (seen ++ whole) := by
  have joined := one.append_right rest
  rw [List.append_assoc] at joined
  exact (other.trans joined).trans (parts.append_left seen)

end Same

/-- What an observer knows of each source: whether it obeys, what remains, and what it declares. -/
structure View (σ α : Type) where
  obeys : σ → Prop
  remaining : σ → List α
  flags : σ → Characteristics

namespace View

variable (v : View σ α)

def ordered (s : σ) : Bool := (v.flags s).hasAll (.ofFlag .ordered)

def sized (s : σ) : Bool := (v.flags s).hasAll (.ofFlag .sized)

/-- What has become of a source still obeys, and declares what the source declared. -/
structure Keeps (s t : σ) : Prop where
  obeys : v.obeys t
  flags : v.flags t = v.flags s

theorem Keeps.ordered {v : View σ α} {s t : σ} (keeps : v.Keeps s t) :
    v.ordered t = v.ordered s := by
  rw [View.ordered, keeps.flags, View.ordered]

theorem Keeps.sized {v : View σ α} {s t : σ} (keeps : v.Keeps s t) : v.sized t = v.sized s := by
  rw [View.sized, keeps.flags, View.sized]

theorem Keeps.trans {v : View σ α} {s t u : σ} (first : v.Keeps s t) (next : v.Keeps t u) :
    v.Keeps s u :=
  ⟨next.obeys, next.flags.trans first.flags⟩

/-- Besides, the same elements remain. A source may well have changed otherwise when it has been
asked for something. -/
structure Stays (s t : σ) : Prop extends v.Keeps s t where
  same : Same (v.ordered s) (v.remaining t) (v.remaining s)

theorem Stays.refl {v : View σ α} {s : σ} (obeys : v.obeys s) : v.Stays s s :=
  ⟨⟨obeys, rfl⟩, .of_eq _ rfl⟩

theorem Stays.trans {v : View σ α} {s t u : σ} (first : v.Stays s t) (next : v.Stays t u) :
    v.Stays s u where
  toKeeps := first.toKeeps.trans next.toKeeps
  same := by
    have later := next.same
    rw [first.ordered] at later
    exact later.trans first.same

theorem Stays.visited {v : View σ α} {s t : σ} (stays : v.Stays s t) {seen found : List α}
    (visited : Same (v.ordered t) found (seen ++ v.remaining t)) :
    Same (v.ordered s) found (seen ++ v.remaining s) := by
  rw [stays.ordered] at visited
  exact visited.trans (stays.same.append_left seen)

theorem Stays.length {v : View σ α} {s t : σ} (stays : v.Stays s t) :
    (v.remaining t).length = (v.remaining s).length :=
  stays.same.1.length_eq

end View

open Protocol in
/-- The laws of a source. They hold in every shared state, so that nothing done to one source
reaches another. -/
structure Contract (p : Protocol σ ω α) (v : View σ α) : Prop where
  hasCharacteristics {s : σ} (obeys : v.obeys s) (flags : Characteristics) (w : ω) :
    ∃ t, p.hasCharacteristics flags ⟨s, w⟩ = .ok ((v.flags s).hasAll flags) t ∧ v.Stays s t.own
  /-- The estimate of a sized source is exact. -/
  estimateSize {s : σ} (obeys : v.obeys s) (w : ω) :
    ∃ (n : Number) (t : Site σ ω), p.estimateSize ⟨s, w⟩ = .ok (.number n) t ∧ v.Stays s t.own ∧
      (v.sized s = true → n.same (.integer (v.remaining s).length) = true)
  tryAdvance_nil {s : σ} (obeys : v.obeys s) (nil : v.remaining s = []) (w : ω) (seen : Array α) :
    ∃ t, play Visitor.collecting p.tryAdvance ⟨s, w⟩ seen = .ok false (t, seen)
  /-- One remaining element is visited and removed, the first one if there is an order. -/
  tryAdvance_cons {s : σ} (obeys : v.obeys s) (some : v.remaining s ≠ []) (w : ω)
    (seen : Array α) :
    ∃ a t, play Visitor.collecting p.tryAdvance ⟨s, w⟩ seen = .ok true (t, seen.push a) ∧
      v.Keeps s t.own ∧ Same (v.ordered s) (a :: v.remaining t.own) (v.remaining s)
  /-- What looping on `tryAdvance` visits is visited. -/
  forEachRemaining {s : σ} (obeys : v.obeys s) (w : ω) (seen : Array α) {rounds : Nat}
    {t : Site σ ω × Array α}
    (looped : p.stepAdvance .collecting rounds (⟨s, w⟩, seen) = .ok () t) :
    ∃ u, play Visitor.collecting p.forEachRemaining ⟨s, w⟩ seen = .ok () u ∧
      Same (v.ordered s) u.2.toList t.2.toList
  /-- Nothing happens, or what remains is divided into two parts that are not empty. -/
  trySplit {s : σ} (obeys : v.obeys s) (w : ω) :
    (∃ t, p.trySplit ⟨s, w⟩ = .ok none t ∧ v.Stays s t.own) ∨
    ∃ piece t, p.trySplit ⟨s, w⟩ = .ok (some piece) t ∧ v.Keeps s t.own ∧ v.obeys piece ∧
      (v.ordered s = true → v.ordered piece = true) ∧
      v.remaining piece ≠ [] ∧ v.remaining t.own ≠ [] ∧
      Same (v.ordered s) (v.remaining piece ++ v.remaining t.own) (v.remaining s)

namespace Contract

variable {p : Protocol σ ω α} {v : View σ α} {s : σ}

theorem stepAdvance (contract : Contract p v) (obeys : v.obeys s) (rounds : Nat) (w : ω)
    (seen : Array α) (enough : (v.remaining s).length < rounds) :
    ∃ t, p.stepAdvance .collecting rounds (⟨s, w⟩, seen) = .ok () t ∧
      Same (v.ordered s) t.2.toList (seen.toList ++ v.remaining s) := by
  induction rounds generalizing s w seen with
  | zero => omega
  | succ rounds ih =>
    by_cases nil : v.remaining s = []
    · obtain ⟨t, played⟩ := contract.tryAdvance_nil obeys nil w seen
      refine ⟨(t, seen), by simp only [Protocol.stepAdvance, played], ?_⟩
      exact .of_eq _ (by rw [nil, List.append_nil])
    · obtain ⟨a, t, played, keeps, same⟩ := contract.tryAdvance_cons obeys nil w seen
      have count := same.1.length_eq
      rw [List.length_cons] at count
      obtain ⟨u, looped, visited⟩ := ih keeps.obeys t.shared (seen.push a) (by omega)
      rw [keeps.ordered, Array.toList_push, List.append_assoc] at visited
      refine ⟨u, by simp only [Protocol.stepAdvance, played, looped], ?_⟩
      exact visited.trans (same.append_left seen.toList)

theorem drain (contract : Contract p v) (obeys : v.obeys s) (w : ω) (seen : Array α) :
    ∃ t, Protocol.play Visitor.collecting p.forEachRemaining ⟨s, w⟩ seen = .ok () t ∧
      Same (v.ordered s) t.2.toList (seen.toList ++ v.remaining s) := by
  obtain ⟨t, looped, visited⟩ := contract.stepAdvance obeys _ w seen (Nat.lt_succ_self _)
  obtain ⟨u, drained, same⟩ := contract.forEachRemaining obeys w seen looped
  exact ⟨u, drained, same.trans visited⟩

theorem bulkDrain (contract : Contract p v) (obeys : v.obeys s) (w : ω) (seen : Array α) :
    ∃ t, p.bulkDrain .collecting (⟨s, w⟩, seen) = .ok () t ∧
      Same (v.ordered s) t.2.toList (seen.toList ++ v.remaining s) := by
  obtain ⟨t, drained, same⟩ := contract.drain obeys w seen
  exact ⟨t, by simp only [Protocol.bulkDrain, drained], same⟩

theorem maximumSplit (contract : Contract p v) (obeys : v.obeys s) (rounds : Nat) (w : ω)
    (seen : Array α) (enough : (v.remaining s).length < rounds) :
    ∃ t, p.maximumSplit .collecting rounds (⟨s, w⟩, seen) = .ok () t ∧
      Same (v.ordered s) t.2.toList (seen.toList ++ v.remaining s) := by
  induction rounds generalizing s w seen with
  | zero => omega
  | succ rounds ih =>
    rcases contract.trySplit obeys w with ⟨t, cut, stays⟩ |
      ⟨piece, t, cut, keeps, pieceObeys, pieceOrdered, somePiece, someRest, same⟩
    · obtain ⟨u, drained, visited⟩ := contract.bulkDrain stays.obeys t.shared seen
      exact ⟨u, by rw [Protocol.maximumSplit_none cut, drained], stays.visited visited⟩
    -- Neither part is empty, so both are shorter than what was divided.
    · have count := same.1.length_eq
      have left := List.length_pos_iff.mpr somePiece
      have right := List.length_pos_iff.mpr someRest
      rw [List.length_append] at count
      obtain ⟨u, first, visitedPiece⟩ := ih pieceObeys t.shared seen (by omega)
      obtain ⟨x, second, visitedRest⟩ := ih keeps.obeys u.1.shared u.2 (by omega)
      rw [keeps.ordered] at visitedRest
      refine ⟨x, by rw [Protocol.maximumSplit_some cut, first, Protocol.onward, second], ?_⟩
      exact (visitedPiece.weaken pieceOrdered).join visitedRest same

theorem collect (contract : Contract p v) (obeys : v.obeys s) (rounds : Nat) (strategy : Strategy)
    (w : ω) (enough : (v.remaining s).length < rounds) :
    ∃ elements u, p.collect rounds strategy ⟨s, w⟩ = .ok elements u ∧
      Same (v.ordered s) elements (v.remaining s) := by
  have drained : ∃ t, p.decompose rounds strategy .collecting (⟨s, w⟩, #[]) = .ok () t ∧
      Same (v.ordered s) t.2.toList ((#[] : Array α).toList ++ v.remaining s) := by
    cases strategy with
    | bulkDrain => exact contract.bulkDrain obeys w #[]
    | stepAdvance => exact contract.stepAdvance obeys rounds w #[] enough
    | maximumSplit => exact contract.maximumSplit obeys rounds w #[] enough
  obtain ⟨t, ended, same⟩ := drained
  exact ⟨t.2.toList, t.1, by simp only [Protocol.collect, ended], same⟩

end Contract
end SplitTraversal
