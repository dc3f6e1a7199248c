import Mathlib.Data.List.Basic
import SplitTraversal.Proofs.SetPlaces

/-! Sorting elements that can all be compared with each other returns, and what it returns are the
same elements. Searches look at no other elements, and every step of a merge moves elements from one
place to another. -/

namespace SplitTraversal

section Searches

variable {ε α : Type}

theorem exists_bisect {middle : Middle} {goRight : Nat → Except ε Bool}
    (answered : ∀ i, ∃ right, goRight i = .ok right) (fuel low high : Nat) :
    ∃ i, bisect middle goRight fuel low high = .ok i := by
  induction fuel generalizing low high with
  | zero => exact ⟨low, rfl⟩
  | succ fuel ih =>
    by_cases more : low < high
    · obtain ⟨right, asked⟩ := answered (middle.position low high)
      rw [bisect_of_ok more asked]
      exact ih _ _
    · rw [bisect, if_neg more]
      exact ⟨low, rfl⟩

theorem exists_stride {test : Nat → Except ε Bool} (answered : ∀ i, ∃ held, test i = .ok held)
    (length fuel reached next : Nat) :
    ∃ found, stride test length fuel reached next = .ok found := by
  induction fuel generalizing reached next with
  | zero => exact ⟨_, rfl⟩
  | succ fuel ih =>
    rw [stride]
    by_cases inside : next < length
    · obtain ⟨held, asked⟩ := answered next
      rw [if_pos inside]
      cases held with
      | true =>
        simp only [asked]
        exact ih _ _
      | false =>
        simp only [asked]
        exact ⟨_, rfl⟩
    · rw [if_neg inside]
      exact ⟨_, rfl⟩

variable {test : α → Except ε Bool} {xs : List α}

theorem exists_elementTest (answered : ∀ x ∈ xs, ∃ held, test x = .ok held) (i : Nat) :
    ∃ held, elementTest test xs i = .ok held := by
  cases here : xs[i]? with
  | none =>
    simp only [elementTest, here]
    exact ⟨false, rfl⟩
  | some x =>
    simp only [elementTest, here]
    exact answered x (List.mem_of_getElem? here)

theorem exists_bisectList (answered : ∀ x ∈ xs, ∃ held, test x = .ok held) :
    ∃ i, bisectList test xs = .ok i :=
  exists_bisect (exists_elementTest answered) _ _ _

theorem exists_gallop (middle : Middle) (answered : ∀ x ∈ xs, ∃ held, test x = .ok held) :
    ∃ n, gallop middle test xs = .ok n := by
  have everywhere := exists_elementTest answered
  obtain ⟨first, asked⟩ := everywhere 0
  rw [gallop, asked]
  cases first with
  | false => exact ⟨0, rfl⟩
  | true =>
    obtain ⟨⟨reached, missed⟩, strode⟩ := exists_stride everywhere xs.length xs.length 0 1
    simp only [strode]
    exact exists_bisect everywhere _ _ _

end Searches

def Decided {ε α : Type} (before : α → α → Except ε Bool) (all : List α) : Prop :=
  ∀ a ∈ all, ∀ b ∈ all, ∃ less, before a b = .ok less

theorem exists_map_not {ε : Type} {result : Except ε Bool} (answered : ∃ r, result = .ok r) :
    ∃ r, result.map not = .ok r := by
  obtain ⟨r, rfl⟩ := answered
  exact ⟨!r, rfl⟩

namespace Merging

variable {ε α : Type} {all : List α} {rule : MergeRule ε α} {m : Merging α}

theorem held_subset (m : Merging α) : m.held ⊆ m.result :=
  List.subset_append_right _ _

theorem other_subset (m : Merging α) : m.other ⊆ m.result :=
  List.Subset.trans (List.subset_append_right _ _) (List.subset_append_left _ _)

section

variable (decided : Decided rule.otherFirst all)

include decided

theorem exists_oneByOne (threshold fuel fromHeld fromOther : Nat) (members : m.result ⊆ all) :
    ∃ m', oneByOne rule threshold fuel fromHeld fromOther m = .ok m' ∧
      m'.result.Perm m.result := by
  induction fuel generalizing fromHeld fromOther m with
  | zero => exact ⟨m, rfl, .refl _⟩
  | succ fuel ih =>
    cases held : m.held with
    | nil =>
      simp only [oneByOne, held]
      exact ⟨m, rfl, .refl _⟩
    | cons h hs =>
      cases other : m.other with
      | nil =>
        simp only [oneByOne, held, other]
        exact ⟨m, rfl, .refl _⟩
      | cons o os =>
        have hMember : h ∈ all := members (m.held_subset (held ▸ List.mem_cons_self ..))
        have oMember : o ∈ all := members (m.other_subset (other ▸ List.mem_cons_self ..))
        obtain ⟨otherFirst, asked⟩ := decided h hMember o oMember
        cases otherFirst with
        | true =>
          have moved := m.takeOther_perm 1
          simp only [oneByOne, held, other, asked]
          split
          · exact ⟨_, rfl, moved⟩
          · obtain ⟨m', ran, perm⟩ := ih 0 (fromOther + 1) (List.Subset.trans moved.subset members)
            exact ⟨m', ran, perm.trans moved⟩
        | false =>
          have moved := m.takeHeld_perm 1
          simp only [oneByOne, held, other, asked]
          split
          · exact ⟨_, rfl, moved⟩
          · obtain ⟨m', ran, perm⟩ := ih (fromHeld + 1) 0 (List.Subset.trans moved.subset members)
            exact ⟨m', ran, perm.trans moved⟩

theorem exists_gallopHeld (members : m.result ⊆ all) :
    ∃ n m', gallopHeld rule m = .ok (n, m') ∧ m'.result.Perm m.result := by
  cases other : m.other with
  | nil =>
    simp only [gallopHeld, other]
    exact ⟨0, m, rfl, .refl _⟩
  | cons o os =>
    have oMember : o ∈ all := members (m.other_subset (other ▸ List.mem_cons_self ..))
    obtain ⟨n, galloped⟩ := exists_gallop rule.middle fun h (here : h ∈ m.held) =>
      exists_map_not (decided h (members (m.held_subset here)) o oMember)
    have moved := m.takeHeld_perm n
    simp only [gallopHeld, other, galloped]
    split
    · exact ⟨n, _, rfl, moved⟩
    · exact ⟨n, _, rfl, ((m.takeHeld n).takeOther_perm 1).trans moved⟩

theorem exists_gallopOther (members : m.result ⊆ all) :
    ∃ n m', gallopOther rule m = .ok (n, m') ∧ m'.result.Perm m.result := by
  cases held : m.held with
  | nil =>
    simp only [gallopOther, held]
    exact ⟨0, m, rfl, .refl _⟩
  | cons h hs =>
    have hMember : h ∈ all := members (m.held_subset (held ▸ List.mem_cons_self ..))
    obtain ⟨n, galloped⟩ := exists_gallop rule.middle fun o (here : o ∈ m.other) =>
      decided h hMember o (members (m.other_subset here))
    have moved := m.takeOther_perm n
    simp only [gallopOther, held, galloped]
    split
    · exact ⟨n, _, rfl, moved⟩
    · exact ⟨n, _, rfl, ((m.takeOther n).takeHeld_perm 1).trans moved⟩

theorem exists_round (members : m.result ⊆ all) :
    ∃ gained m', round rule m = .ok (gained, m') ∧ m'.result.Perm m.result := by
  have either (heldFirst : Bool) {m : Merging α} (members : m.result ⊆ all) :
      ∃ n m', (if heldFirst then gallopHeld rule m else gallopOther rule m) = .ok (n, m') ∧
        m'.result.Perm m.result := by
    cases heldFirst with
    | true => exact exists_gallopHeld decided members
    | false => exact exists_gallopOther decided members
  obtain ⟨n, m', led, first⟩ := either rule.heldLeads members
  simp only [round, led]
  split
  · exact ⟨false, m', rfl, first⟩
  · obtain ⟨k, m'', followed, second⟩ :=
      either (!rule.heldLeads) (List.Subset.trans first.subset members)
    simp only [Bool.not_eq_true', ← Bool.not_eq_true, ite_not] at followed
    simp only [followed]
    exact ⟨_, m'', rfl, second.trans first⟩

theorem exists_rounds (fuel threshold : Nat) (members : m.result ⊆ all) :
    ∃ threshold' m', rounds rule fuel threshold m = .ok (threshold', m') ∧
      m'.result.Perm m.result := by
  induction fuel generalizing threshold m with
  | zero => exact ⟨threshold, m, rfl, .refl _⟩
  | succ fuel ih =>
    obtain ⟨gained, m', ran, first⟩ := exists_round decided members
    simp only [rounds, ran]
    split
    · exact ⟨threshold, m', rfl, first⟩
    · split
      · obtain ⟨threshold', m'', further, later⟩ :=
          ih (max 1 (threshold - 1)) (List.Subset.trans first.subset members)
        exact ⟨threshold', m'', further, later.trans first⟩
      · exact ⟨threshold + 1, m', rfl, first⟩

theorem exists_finish (fuel threshold : Nat) (members : m.result ⊆ all) :
    ∃ threshold' ys, finish rule fuel threshold m = .ok (threshold', ys) ∧ ys.Perm m.result := by
  induction fuel generalizing threshold m with
  | zero => exact ⟨threshold, m.result, rfl, .refl _⟩
  | succ fuel ih =>
    rw [finish]
    split
    · exact ⟨threshold, m.result, rfl, .refl _⟩
    · obtain ⟨m', ran, first⟩ := exists_oneByOne decided threshold m.size 0 0 members
      simp only [ran]
      split
      · exact ⟨threshold, m'.result, rfl, first⟩
      · have members' := List.Subset.trans first.subset members
        obtain ⟨lower, m'', galloped, second⟩ :=
          exists_rounds decided m'.size threshold members'
        obtain ⟨threshold', ys, ended, last⟩ := ih lower (List.Subset.trans second.subset members')
        simp only [galloped, ended]
        exact ⟨threshold', ys, rfl, last.trans (second.trans first)⟩

theorem exists_merge (threshold : Nat) {held other : List α} (members : held ++ other ⊆ all) :
    ∃ threshold' ys, merge rule threshold held other = .ok (threshold', ys) ∧
      ys.Perm (held ++ other) := by
  have start := (⟨[], held, other⟩ : Merging α).takeOther_perm 1
  have whole := start.trans List.perm_append_comm
  obtain ⟨threshold', ys, ran, perm⟩ :=
    exists_finish decided (Merging.size _) threshold (List.Subset.trans whole.subset members)
  exact ⟨threshold', ys, ran, perm.trans whole⟩

end

end Merging

namespace Sorting

variable {ε α : Type} {before : α → α → Except ε Bool} {all : List α}
  (decided : Decided before all)

include decided

theorem exists_extendRun (descending : Bool) {last : α} (run : List α) {xs : List α}
    (members : last :: xs ⊆ all) :
    ∃ found rest, extendRun before descending last run xs = .ok (found, rest) ∧
      (found ++ rest).Perm (last :: run ++ xs) ∧ found ≠ [] := by
  induction xs generalizing last run with
  | nil => exact ⟨last :: run, [], rfl, .refl _, List.cons_ne_nil _ _⟩
  | cons x xs ih =>
    rw [List.cons_subset, List.cons_subset] at members
    obtain ⟨lastMember, xMember, later⟩ := members
    obtain ⟨below, asked⟩ := decided x xMember last lastMember
    by_cases onward : below = descending
    · obtain ⟨found, rest, ran, perm, some⟩ :=
        ih (last :: run) (List.cons_subset.mpr ⟨xMember, later⟩)
      simp only [extendRun, asked, if_pos onward]
      exact ⟨found, rest, ran, perm.trans List.perm_middle.symm, some⟩
    · simp only [extendRun, asked, if_neg onward]
      exact ⟨last :: run, x :: xs, rfl, .refl _, List.cons_ne_nil _ _⟩

theorem exists_leadingRun {xs : List α} (members : xs ⊆ all) :
    ∃ run rest, leadingRun before xs = .ok (run, rest) ∧ (run ++ rest).Perm xs ∧
      (xs ≠ [] → run ≠ []) := by
  match xs with
  | [] => exact ⟨[], [], rfl, .refl _, id⟩
  | [a] => exact ⟨[a], [], rfl, .refl _, id⟩
  | a :: b :: rest =>
    obtain ⟨aMember, later⟩ := List.cons_subset.mp members
    obtain ⟨descending, asked⟩ := decided b (List.cons_subset.mp later).1 a aMember
    obtain ⟨run, rest', ran, perm, some⟩ := exists_extendRun decided descending [a] later
    have swapped := perm.trans (.swap a b rest)
    simp only [leadingRun, asked, ran]
    cases descending with
    | true => exact ⟨run, rest', rfl, swapped, fun _ => some⟩
    | false =>
      refine ⟨run.reverse, rest', rfl, ?_, fun _ => mt List.reverse_eq_nil_iff.mp some⟩
      exact ((List.reverse_perm run).append_right rest').trans swapped

theorem exists_insertStable {x : α} {sorted : List α} (members : x :: sorted ⊆ all) :
    ∃ ys, insertStable before x sorted = .ok ys ∧ ys.Perm (x :: sorted) := by
  obtain ⟨xMember, held⟩ := List.cons_subset.mp members
  obtain ⟨i, found⟩ := exists_bisectList fun y (here : y ∈ sorted) =>
    exists_map_not (decided x xMember y (held here))
  simp only [insertStable, found]
  refine ⟨_, rfl, List.perm_middle.trans ?_⟩
  rw [List.take_append_drop]

theorem exists_insertAll (sorted xs : List α) (members : sorted ++ xs ⊆ all) :
    ∃ ys, insertAll before sorted xs = .ok ys ∧ ys.Perm (sorted ++ xs) := by
  induction xs generalizing sorted with
  | nil => exact ⟨sorted, rfl, by rw [List.append_nil]⟩
  | cons x xs ih =>
    have front : (sorted ++ x :: xs).Perm (x :: (sorted ++ xs)) := List.perm_middle
    have members' := List.Subset.trans front.symm.subset members
    obtain ⟨ys, inserted, perm⟩ := exists_insertStable decided
      (List.append_subset.mp members').1
    have onward := (perm.append_right xs).trans front.symm
    obtain ⟨zs, ran, last⟩ := ih ys (List.Subset.trans onward.subset members)
    simp only [insertAll, inserted]
    exact ⟨zs, ran, last.trans onward⟩

theorem exists_nextRun (least : Nat) {xs : List α} (members : xs ⊆ all) :
    ∃ run rest, nextRun before least xs = .ok (run, rest) ∧ (run ++ rest).Perm xs ∧
      (xs ≠ [] → run ≠ []) := by
  obtain ⟨run, rest, led, perm, some⟩ := exists_leadingRun decided members
  have whole : run ++ rest ⊆ all := List.Subset.trans perm.subset members
  obtain ⟨ys, filled, same⟩ :=
    exists_insertAll decided run (rest.take (least - run.length))
      (List.append_subset.mpr ⟨(List.append_subset.mp whole).1,
        List.Subset.trans (List.take_subset _ _) (List.append_subset.mp whole).2⟩)
  simp only [nextRun, led, filled]
  refine ⟨ys, _, rfl, ?_, ?_⟩
  · refine (same.append_right _).trans (List.Perm.trans ?_ perm)
    rw [List.append_assoc, List.take_append_drop]
  · intro given none
    rw [none] at same
    exact some given (List.append_eq_nil_iff.mp same.nil_eq.symm).1

theorem exists_mergeOverlap (threshold : Nat) {a b : List α} (members : a ++ b ⊆ all) :
    ∃ threshold' ys, mergeOverlap before threshold a b = .ok (threshold', ys) ∧
      ys.Perm (a ++ b) := by
  have onward : Decided (forward before).otherFirst all :=
    fun h hMember o oMember => decided o oMember h hMember
  have backward : Decided (backward before).otherFirst all := decided
  rw [mergeOverlap]
  split
  · exact Merging.exists_merge onward threshold members
  · have turned : (b.reverse ++ a.reverse).Perm (a ++ b) := by
      rw [← List.reverse_append]
      exact List.reverse_perm _
    obtain ⟨threshold', ys, ran, perm⟩ :=
      Merging.exists_merge backward threshold (List.Subset.trans turned.subset members)
    simp only [ran]
    exact ⟨threshold', ys.reverse, rfl, (List.reverse_perm ys).trans (perm.trans turned)⟩

theorem exists_mergeRuns (threshold : Nat) {a b : List α} (members : a ++ b ⊆ all) :
    ∃ threshold' ys, mergeRuns before threshold a b = .ok (threshold', ys) ∧ ys.Perm (a ++ b) := by
  obtain ⟨left, right⟩ := List.append_subset.mp members
  cases b with
  | nil => exact ⟨threshold, a, rfl, by rw [List.append_nil]⟩
  | cons first b =>
    have firstMember : first ∈ all := right (List.mem_cons_self ..)
    obtain ⟨n, up⟩ := exists_gallop .upper fun x (here : x ∈ a) =>
      exists_map_not (decided first firstMember x (left here))
    simp only [mergeRuns, up]
    cases ending : (a.drop n).getLast? with
    | none => exact ⟨threshold, a ++ first :: b, rfl, .refl _⟩
    | some last =>
      have lastMember : last ∈ all :=
        left (List.drop_subset n a (List.mem_of_getLast? ending))
      obtain ⟨k, down⟩ := exists_gallop .lower fun x (here : x ∈ (first :: b).reverse) =>
        exists_map_not (decided x (right (List.mem_reverse.mp here)) last lastMember)
      simp only [down]
      split
      · exact ⟨threshold, a ++ first :: b, rfl, .refl _⟩
      · generalize (first :: b).length - k = stay
        obtain ⟨threshold', ys, ran, perm⟩ := exists_mergeOverlap decided threshold
          (a := a.drop n) (b := (first :: b).take stay) (List.append_subset.mpr
            ⟨List.Subset.trans (List.drop_subset _ _) left,
              List.Subset.trans (List.take_subset _ _) right⟩)
        simp only [ran]
        refine ⟨threshold', _, rfl, ((perm.append_left _).append_right _).trans (.of_eq ?_)⟩
        rw [← List.append_assoc, List.take_append_drop, List.append_assoc, List.take_append_drop]

namespace Pending

variable {p : Pending α}

theorem exists_mergeTop (members : p.elements ⊆ all) :
    ∃ p', mergeTop before p = .ok p' ∧ p'.elements.Perm p.elements := by
  obtain ⟨runs, threshold⟩ := p
  match runs with
  | [] => exact ⟨_, rfl, .refl _⟩
  | [b] => exact ⟨_, rfl, .refl _⟩
  | b :: a :: rest =>
    simp only [elements, List.reverse_cons, List.flatten_append, List.flatten_singleton,
      List.append_assoc] at members ⊢
    obtain ⟨threshold', ys, ran, perm⟩ := exists_mergeRuns decided threshold
      (List.append_subset.mp members).2
    simp only [mergeTop, ran]
    refine ⟨⟨ys :: rest, threshold'⟩, rfl, ?_⟩
    simp only [List.reverse_cons, List.flatten_append, List.flatten_singleton]
    exact perm.append_left _

theorem exists_mergeBelow (members : p.elements ⊆ all) :
    ∃ p', mergeBelow before p = .ok p' ∧ p'.elements.Perm p.elements := by
  obtain ⟨runs, threshold⟩ := p
  match runs with
  | [] => exact ⟨_, rfl, .refl _⟩
  | [c] => exact ⟨_, rfl, .refl _⟩
  | [c, b] => exact exists_mergeTop decided members
  | c :: b :: a :: rest =>
    simp only [elements, List.reverse_cons, List.flatten_append,
      List.flatten_singleton] at members ⊢
    have pair : a ++ b ⊆ all := by
      rw [List.append_assoc _ a b] at members
      exact (List.append_subset.mp (List.append_subset.mp members).1).2
    obtain ⟨threshold', ys, ran, perm⟩ := exists_mergeRuns decided threshold pair
    simp only [mergeBelow, ran]
    refine ⟨⟨c :: ys :: rest, threshold'⟩, rfl, ?_⟩
    simp only [List.reverse_cons, List.flatten_append, List.flatten_singleton]
    rw [List.append_assoc _ a b]
    exact (perm.append_left _).append_right _

theorem exists_mergeMiddle (members : p.elements ⊆ all) :
    ∃ p', mergeMiddle before p = .ok p' ∧ p'.elements.Perm p.elements := by
  rw [mergeMiddle]
  split
  · split
    · exact exists_mergeBelow decided members
    · exact exists_mergeTop decided members
  · exact exists_mergeTop decided members

theorem exists_settle (fuel : Nat) (members : p.elements ⊆ all) :
    ∃ p', p.settle before fuel = .ok p' ∧ p'.elements.Perm p.elements := by
  induction fuel generalizing p with
  | zero => exact ⟨p, rfl, .refl _⟩
  | succ fuel ih =>
    rw [settle]
    split
    · split
      · obtain ⟨p', merged, perm⟩ := exists_mergeMiddle decided members
        obtain ⟨p'', settled, more⟩ := ih (List.Subset.trans perm.subset members)
        simp only [merged]
        exact ⟨p'', settled, more.trans perm⟩
      · split
        · obtain ⟨p', merged, perm⟩ := exists_mergeTop decided members
          obtain ⟨p'', settled, more⟩ := ih (List.Subset.trans perm.subset members)
          simp only [merged]
          exact ⟨p'', settled, more.trans perm⟩
        · exact ⟨p, rfl, .refl _⟩
    · exact ⟨p, rfl, .refl _⟩

theorem exists_collapse (fuel : Nat) (members : p.elements ⊆ all) :
    ∃ ys, p.collapse before fuel = .ok ys ∧ ys.Perm p.elements := by
  induction fuel generalizing p with
  | zero => exact ⟨_, rfl, .refl _⟩
  | succ fuel ih =>
    rw [collapse]
    split
    · obtain ⟨p', merged, perm⟩ := exists_mergeMiddle decided members
      obtain ⟨ys, collapsed, more⟩ := ih (List.Subset.trans perm.subset members)
      simp only [merged]
      exact ⟨ys, collapsed, more.trans perm⟩
    · exact ⟨_, rfl, .refl _⟩

end Pending

/-- Every run takes at least one element, so that many runs as there are elements are enough. -/
theorem exists_gather (least fuel : Nat) {xs : List α} {p : Pending α} (enough : xs.length ≤ fuel)
    (members : p.elements ++ xs ⊆ all) :
    ∃ p', gather before least fuel xs p = .ok p' ∧ p'.elements.Perm (p.elements ++ xs) := by
  induction fuel generalizing xs p with
  | zero =>
    rw [List.length_eq_zero_iff.mp (Nat.le_zero.mp enough), List.append_nil]
    exact ⟨p, rfl, .refl _⟩
  | succ fuel ih =>
    cases xs with
    | nil =>
      rw [List.append_nil]
      exact ⟨p, rfl, .refl _⟩
    | cons x xs =>
      obtain ⟨run, rest, read, perm, some⟩ := exists_nextRun decided least
        (List.append_subset.mp members).2
      have shorter : rest.length ≤ fuel := by
        have total := perm.length_eq
        have positive := List.length_pos_iff.mpr (some (List.cons_ne_nil x xs))
        rw [List.length_append] at total
        omega
      have pushed : (⟨run :: p.runs, p.threshold⟩ : Pending α).elements = p.elements ++ run := by
        simp only [Pending.elements, List.reverse_cons, List.flatten_append,
          List.flatten_singleton]
      have whole : (p.elements ++ run ++ rest).Perm (p.elements ++ x :: xs) := by
        rw [List.append_assoc]
        exact perm.append_left _
      have front : p.elements ++ run ⊆ all :=
        (List.append_subset.mp (List.Subset.trans whole.subset members)).1
      obtain ⟨q, settled, same⟩ := Pending.exists_settle decided (p.runs.length + 1)
        (pushed ▸ front)
      rw [pushed] at same
      have onward := (same.append_right rest).trans whole
      obtain ⟨p', gathered, last⟩ := ih shorter (List.Subset.trans onward.subset members)
      simp only [gather, read, settled]
      exact ⟨p', gathered, last.trans onward⟩

omit decided in
/-- A sort whose comparisons all answer returns a rearrangement. -/
theorem exists_sort {xs : List α} (decided : Decided before xs) :
    ∃ ys, sort before xs = .ok ys ∧ ys.Perm xs := by
  obtain ⟨p, gathered, perm⟩ := exists_gather decided (leastRun xs.length) xs.length
    (p := ⟨[], gallopGain⟩) (Nat.le_refl _) (List.Subset.refl _)
  obtain ⟨ys, collapsed, same⟩ := Pending.exists_collapse decided p.runs.length perm.subset
  simp only [sort, gathered]
  exact ⟨ys, collapsed, same.trans perm⟩

end Sorting

namespace Comparator

variable {compare : Comparator Value} {among : Value → Prop}

theorem Answers.sortsBefore_eq {α : Type} {compare : Comparator α} {a b : α} {sign : Ordering}
    (answers : compare.Answers a b sign) : ∃ less, compare.sortsBefore a b = .ok less := by
  obtain ⟨n, answer, _⟩ := answers
  simp only [sortsBefore, answer]
  exact ⟨_, rfl⟩

theorem TotalPreorder.exists_sortValues (preorder : compare.TotalPreorder among) {xs : List Value}
    (members : ∀ x ∈ xs, among x) : ∃ ys, compare.sortValues xs = .ok ys ∧ ys.Perm xs := by
  have decided : Decided compare.sortsBefore (xs.filter (!·.isUndefined)) := by
    intro a aMember b bMember
    obtain ⟨sign, answers⟩ := preorder.total (members a (List.mem_of_mem_filter aMember))
      (members b (List.mem_of_mem_filter bMember))
    exact answers.sortsBefore_eq
  obtain ⟨ys, sorted, perm⟩ := Sorting.exists_sort decided
  simp only [sortValues, sort, sorted]
  refine ⟨_, rfl, (perm.append_right _).trans ?_⟩
  exact List.perm_append_comm.trans (List.filter_append_perm _ xs)

end Comparator
end SplitTraversal
