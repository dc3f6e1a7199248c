import SplitTraversal.Proofs.MergeOrder
import SplitTraversal.Proofs.NaturalOrder

/-! Sorting elements whose comparisons agree with an order returns them in this order. Every run that
is read is in order, every merge leaves one run less, and the last run holds all elements. -/

namespace SplitTraversal

namespace Sorting

variable {ε α : Type} {before : α → α → Except ε Bool} {R : α → α → Prop} {all : List α}

/-- A run goes on with elements that all stand on the same side of the ones before them. -/
theorem extendRun_pairwise {S : α → α → Prop} {descending : Bool}
    (trans : ∀ {x y z}, x ∈ all → y ∈ all → z ∈ all → S x y → S y z → S x z)
    (onward : ∀ {x y}, x ∈ all → y ∈ all → before x y = .ok descending → S x y) {last : α}
    {run xs found rest : List α} (members : last :: run ++ xs ⊆ all)
    (ascending : (last :: run).Pairwise S)
    (ran : extendRun before descending last run xs = .ok (found, rest)) : found.Pairwise S := by
  induction xs generalizing last run with
  | nil =>
    cases ran
    exact ascending
  | cons x xs ih =>
    rw [extendRun] at ran
    split at ran
    · cases ran
    · rename_i below asked
      split at ran
      · rename_i same
        subst same
        have moved : (x :: (last :: run) ++ xs).Perm (last :: run ++ x :: xs) :=
          List.perm_middle.symm
        have members' := List.Subset.trans moved.subset members
        have among (y : α) (here : y ∈ last :: run) : y ∈ all :=
          members (List.mem_append_left _ here)
        have xMember : x ∈ all := members' (List.mem_cons_self ..)
        have lastMember := among last (List.mem_cons_self ..)
        have next := onward xMember lastMember asked
        refine ih members' (List.pairwise_cons.mpr ⟨fun y here => ?_, ascending⟩) ran
        rcases List.mem_cons.mp here with rfl | earlier
        · exact next
        · exact trans xMember lastMember (among y here) next
            ((List.pairwise_cons.mp ascending).1 y earlier)
      · cases ran
        exact ascending

variable (agrees : Agrees before R all)

include agrees

theorem leadingRun_pairwise {xs run rest : List α} (members : xs ⊆ all)
    (ran : leadingRun before xs = .ok (run, rest)) : run.Pairwise R := by
  match xs with
  | [] =>
    cases ran
    exact .nil
  | [a] =>
    cases ran
    exact List.pairwise_singleton ..
  | a :: b :: xs =>
    rw [leadingRun] at ran
    split at ran
    · cases ran
    · rename_i descending asked
      obtain ⟨aMember, bMember, -⟩ : a ∈ all ∧ b ∈ all ∧ xs ⊆ all := by
        rwa [List.cons_subset, List.cons_subset] at members
      have swapped : [b, a] ++ xs ⊆ all :=
        List.Subset.trans (List.Perm.swap a b xs).subset members
      have pair {S : α → α → Prop} (first : S b a) : [b, a].Pairwise S :=
        List.pairwise_pair.mpr first
      split at ran
      · cases ran
      · rename_i extended
        cases ran
        cases descending with
        | true =>
          exact extendRun_pairwise agrees.trans agrees.less swapped
            (pair (agrees.less bMember aMember asked)) extended
        -- Read from its last element on, an ascending run descends.
        | false =>
          have turned := extendRun_pairwise (S := fun x y => R y x) agrees.swap.trans
            (fun left right => agrees.notLess left right) swapped
            (pair (agrees.notLess bMember aMember asked)) extended
          exact List.pairwise_reverse.mpr turned

theorem insertStable_pairwise {x : α} {sorted ys : List α} (members : x :: sorted ⊆ all)
    (ascending : sorted.Pairwise R) (ran : insertStable before x sorted = .ok ys) :
    ys.Pairwise R := by
  obtain ⟨xMember, held⟩ := List.cons_subset.mp members
  unfold insertStable at ran
  split at ran
  · cases ran
  · rename_i i found
    cases ran
    obtain ⟨upto, left, right⟩ := bisectList_bounds found
    refine pairwise_insert agrees.trans upto held xMember ascending (fun y some here => ?_)
      fun y here => ?_
    · exact agrees.notLess xMember (held (List.mem_of_getElem? here))
        (map_not_eq_ok (left y some here))
    · exact agrees.less xMember (held (List.mem_of_getElem? here)) (map_not_eq_ok (right y here))

theorem insertAll_pairwise {sorted xs ys : List α} (members : sorted ++ xs ⊆ all)
    (ascending : sorted.Pairwise R) (ran : insertAll before sorted xs = .ok ys) :
    ys.Pairwise R := by
  induction xs generalizing sorted with
  | nil =>
    cases ran
    exact ascending
  | cons x xs ih =>
    have front : (sorted ++ x :: xs).Perm (x :: (sorted ++ xs)) := List.perm_middle
    have members' := List.Subset.trans front.symm.subset members
    have now : x :: sorted ⊆ all := (List.append_subset.mp members').1
    obtain ⟨zs, inserted, perm⟩ := exists_insertStable agrees.decided now
    simp only [insertAll, inserted] at ran
    refine ih ?_ (insertStable_pairwise agrees now ascending inserted) ran
    exact List.Subset.trans (perm.append_right xs).subset members'

theorem nextRun_pairwise {least : Nat} {xs run rest : List α} (members : xs ⊆ all)
    (ran : nextRun before least xs = .ok (run, rest)) : run.Pairwise R := by
  obtain ⟨found, left, led, perm, -⟩ := exists_leadingRun agrees.decided members
  simp only [nextRun, led] at ran
  split at ran
  · cases ran
  · rename_i filled
    cases ran
    have whole : found ++ left ⊆ all := List.Subset.trans perm.subset members
    obtain ⟨foundMembers, leftMembers⟩ := List.append_subset.mp whole
    exact insertAll_pairwise agrees
      (List.append_subset.mpr ⟨foundMembers, List.Subset.trans (List.take_subset _ _) leftMembers⟩)
      (leadingRun_pairwise agrees members led) filled

section Merges

variable {threshold threshold' : Nat} {a b ys : List α}

/-- Merging from the back is merging the reversed runs in the reversed order. -/
theorem mergeOverlap_pairwise (members : a ++ b ⊆ all) (left : a.Pairwise R) (right : b.Pairwise R)
    (first : ∀ y, b.head? = some y → ∀ x ∈ a, R y x)
    (last : ∀ x, a.getLast? = some x → ∀ y ∈ b, R y x)
    (ran : mergeOverlap before threshold a b = .ok (threshold', ys)) : ys.Pairwise R := by
  unfold mergeOverlap at ran
  split at ran
  · have onward : Agrees (fun o h => (forward before).otherFirst h o) R all := agrees
    exact Merging.merge_pairwise onward members left right first last ran
  · have backward : Agrees (fun o h => (backward before).otherFirst h o) (fun x y => R y x) all :=
      agrees.swap
    have turned : (b.reverse ++ a.reverse).Perm (a ++ b) := by
      rw [← List.reverse_append]
      exact List.reverse_perm _
    cases merged : Merging.merge (Sorting.backward before) threshold b.reverse a.reverse with
    | error e =>
      rw [merged] at ran
      cases ran
    | ok result =>
      rw [merged] at ran
      cases ran
      rw [List.pairwise_reverse]
      refine Merging.merge_pairwise backward (List.Subset.trans turned.subset members)
        (List.pairwise_reverse.mpr right) (List.pairwise_reverse.mpr left) ?_ ?_ merged
      · intro x ending y there
        rw [List.head?_reverse] at ending
        exact last x ending y (List.mem_reverse.mp there)
      · intro y beginning x there
        rw [List.getLast?_reverse] at beginning
        exact first y beginning x (List.mem_reverse.mp there)

omit agrees in
/-- What is in place already goes before and after all that is merged. -/
theorem pairwise_around {low a b high merged : List α} (left : (low ++ a).Pairwise R)
    (right : (b ++ high).Pairwise R) (low_le : ∀ x ∈ low, ∀ y ∈ b ++ high, R x y)
    (le_high : ∀ x ∈ a, ∀ y ∈ high, R x y) (within : merged ⊆ a ++ b)
    (ascending : merged.Pairwise R) : (low ++ merged ++ high).Pairwise R := by
  obtain ⟨lowOrdered, -, low_le_a⟩ := List.pairwise_append.mp left
  obtain ⟨-, highOrdered, b_le_high⟩ := List.pairwise_append.mp right
  rw [List.append_assoc]
  refine List.pairwise_append.mpr ⟨lowOrdered,
    List.pairwise_append.mpr ⟨ascending, highOrdered, fun x here y there => ?_⟩,
    fun x here y there => ?_⟩
  · rcases List.mem_append.mp (within here) with here | here
    · exact le_high x here y there
    · exact b_le_high x here y there
  · rcases List.mem_append.mp there with there | there
    · rcases List.mem_append.mp (within there) with there | there
      · exact low_le_a x here y there
      · exact low_le x here y (List.mem_append_left _ there)
    · exact low_le x here y (List.mem_append_right _ there)

theorem gallop_reverse_parts {middle : Middle} {last : α} {k : Nat} (members : b ⊆ all)
    (ascending : b.Pairwise R) (member : last ∈ all)
    (galloped : gallop middle (fun x => (before x last).map not) b.reverse = .ok k) :
    (∀ y ∈ b.take (b.length - k), R y last) ∧ ∀ y ∈ b.drop (b.length - k), R last y := by
  obtain ⟨above, below⟩ := agrees.swap.gallop_not_parts
    (List.Subset.trans (List.reverse_perm b).subset members) (List.pairwise_reverse.mpr ascending)
    member galloped
  rw [List.take_reverse] at above
  rw [List.drop_reverse] at below
  simp only [List.mem_reverse] at above below
  exact ⟨below, above⟩

theorem mergeRuns_pairwise (members : a ++ b ⊆ all) (left : a.Pairwise R) (right : b.Pairwise R)
    (ran : mergeRuns before threshold a b = .ok (threshold', ys)) : ys.Pairwise R := by
  obtain ⟨aMembers, bMembers⟩ := List.append_subset.mp members
  cases b with
  | nil =>
    cases ran
    exact left
  | cons first b =>
    simp only [mergeRuns] at ran
    generalize whole : first :: b = b' at *
    have beginning : b'.head? = some first := by rw [← whole, List.head?_cons]
    have firstMember : first ∈ all := bMembers (whole ▸ List.mem_cons_self ..)
    split at ran
    · cases ran
    · rename_i n up
      obtain ⟨low, high⟩ := agrees.gallop_not_parts aMembers left firstMember up
      have low_le (x : α) (here : x ∈ a.take n) (y : α) (there : y ∈ b') : R x y :=
        agrees.trans (aMembers (List.mem_of_mem_take here)) firstMember (bMembers there)
          (low x here) (agrees.first_le bMembers right beginning there)
      split at ran
      · rename_i none
        cases ran
        rw [List.getLast?_eq_none_iff] at none
        rw [← List.take_append_drop n a, none, List.append_nil] at left ⊢
        exact List.pairwise_append.mpr ⟨left, right, low_le⟩
      · rename_i last ending
        have dropMembers : a.drop n ⊆ all := List.Subset.trans (List.drop_subset n a) aMembers
        have dropOrdered := left.sublist (List.drop_sublist n a)
        have lastMember : last ∈ all := dropMembers (List.mem_of_getLast? ending)
        split at ran
        · cases ran
        · rename_i k down
          obtain ⟨below, above⟩ := gallop_reverse_parts agrees bMembers right lastMember down
          generalize b'.length - k = stay at ran above below
          have le_high (x : α) (here : x ∈ a.drop n) (y : α) (there : y ∈ b'.drop stay) : R x y :=
            agrees.trans (dropMembers here) lastMember (bMembers (List.mem_of_mem_drop there))
              (agrees.le_last dropMembers dropOrdered ending here) (above y there)
          rw [← List.take_append_drop n a] at left
          rw [← List.take_append_drop stay b'] at right low_le
          have around {merged : List α} (within : merged ⊆ a.drop n ++ b'.take stay) :=
            pairwise_around left right low_le le_high within
          split at ran
          · rename_i none
            cases ran
            have rest := around (List.subset_append_left _ _) dropOrdered
            rwa [none, List.take_append_drop] at rest
          · rename_i positive
            have takeMembers : b'.take stay ⊆ all :=
              List.Subset.trans (List.take_subset _ _) bMembers
            have both := List.append_subset.mpr ⟨dropMembers, takeMembers⟩
            obtain ⟨_, merged, overlapped, perm⟩ :=
              exists_mergeOverlap agrees.decided threshold both
            simp only [overlapped] at ran
            cases ran
            refine around perm.subset (mergeOverlap_pairwise agrees both dropOrdered
              (List.pairwise_append.mp right).1 (fun y beginning' x here => ?_)
              (fun x ending' y there => ?_) overlapped)
            · rw [List.head?_take, if_neg positive] at beginning'
              cases beginning.symm.trans beginning'
              exact high x here
            · cases ending.symm.trans ending'
              exact below y there

end Merges

namespace Pending

variable {p p' : Pending α}

omit agrees in
theorem run_subset {run : List α} (here : run ∈ p.runs) : run ⊆ p.elements := by
  intro x member
  exact List.mem_flatten.mpr ⟨run, List.mem_reverse.mpr here, member⟩

theorem mergeTop_pairwise (members : p.elements ⊆ all) (ascending : ∀ run ∈ p.runs, run.Pairwise R)
    (ran : mergeTop before p = .ok p') :
    (∀ run ∈ p'.runs, run.Pairwise R) ∧ p'.runs.length ≤ max 1 (p.runs.length - 1) := by
  have among (run : List α) (here : run ∈ p.runs) : run ⊆ all :=
    List.Subset.trans (run_subset here) members
  obtain ⟨runs, threshold⟩ := p
  match runs with
  | [] | [b] =>
    cases ran
    exact ⟨ascending, by simp⟩
  | b :: a :: rest =>
    simp only [List.forall_mem_cons] at ascending among
    obtain ⟨right, left, others⟩ := ascending
    simp only [mergeTop] at ran
    cases merged : mergeRuns before threshold a b with
    | error e =>
      rw [merged] at ran
      cases ran
    | ok result =>
      rw [merged] at ran
      cases ran
      have run := mergeRuns_pairwise agrees (List.append_subset.mpr ⟨among.2.1, among.1⟩) left right
        merged
      exact ⟨List.forall_mem_cons.mpr ⟨run, others⟩, by simp⟩

theorem mergeBelow_pairwise (members : p.elements ⊆ all)
    (ascending : ∀ run ∈ p.runs, run.Pairwise R) (ran : mergeBelow before p = .ok p') :
    (∀ run ∈ p'.runs, run.Pairwise R) ∧ p'.runs.length ≤ max 1 (p.runs.length - 1) := by
  have among (run : List α) (here : run ∈ p.runs) : run ⊆ all :=
    List.Subset.trans (run_subset here) members
  unfold mergeBelow at ran
  split at ran
  · rename_i c b a rest runs
    rw [runs] at ascending among
    simp only [List.forall_mem_cons] at ascending among
    obtain ⟨top, right, left, others⟩ := ascending
    cases merged : mergeRuns before p.threshold a b with
    | error e =>
      rw [merged] at ran
      cases ran
    | ok result =>
      rw [merged] at ran
      cases ran
      have run := mergeRuns_pairwise agrees (List.append_subset.mpr ⟨among.2.2.1, among.2.1⟩) left
        right merged
      refine ⟨List.forall_mem_cons.mpr ⟨top, List.forall_mem_cons.mpr ⟨run, others⟩⟩, ?_⟩
      simp [runs]
  · exact mergeTop_pairwise agrees members ascending ran

theorem mergeMiddle_pairwise (members : p.elements ⊆ all)
    (ascending : ∀ run ∈ p.runs, run.Pairwise R) (ran : mergeMiddle before p = .ok p') :
    (∀ run ∈ p'.runs, run.Pairwise R) ∧ p'.runs.length ≤ max 1 (p.runs.length - 1) := by
  unfold mergeMiddle at ran
  split at ran
  · split at ran
    · exact mergeBelow_pairwise agrees members ascending ran
    · exact mergeTop_pairwise agrees members ascending ran
  · exact mergeTop_pairwise agrees members ascending ran

theorem settle_pairwise {fuel : Nat} (members : p.elements ⊆ all)
    (ascending : ∀ run ∈ p.runs, run.Pairwise R) (ran : p.settle before fuel = .ok p') :
    ∀ run ∈ p'.runs, run.Pairwise R := by
  induction fuel generalizing p with
  | zero =>
    cases ran
    exact ascending
  | succ fuel ih =>
    rw [settle] at ran
    split at ran
    · split at ran
      · obtain ⟨q, merged, perm⟩ := exists_mergeMiddle agrees.decided members
        simp only [merged] at ran
        exact ih (List.Subset.trans perm.subset members)
          (mergeMiddle_pairwise agrees members ascending merged).1 ran
      · split at ran
        · obtain ⟨q, merged, perm⟩ := exists_mergeTop agrees.decided members
          simp only [merged] at ran
          exact ih (List.Subset.trans perm.subset members)
            (mergeTop_pairwise agrees members ascending merged).1 ran
        · cases ran
          exact ascending
    · cases ran
      exact ascending

omit agrees in
theorem elements_pairwise (ascending : ∀ run ∈ p.runs, run.Pairwise R) (few : p.runs.length ≤ 1) :
    p.elements.Pairwise R := by
  obtain ⟨runs, threshold⟩ := p
  match runs with
  | [] => exact .nil
  | [run] => simpa [elements] using ascending
  | _ :: _ :: _ =>
    simp only [List.length_cons] at few
    omega

/-- There is one run less after each merge, so that in the end there is only one. -/
theorem collapse_pairwise {fuel : Nat} {ys : List α} (members : p.elements ⊆ all)
    (ascending : ∀ run ∈ p.runs, run.Pairwise R) (enough : p.runs.length ≤ fuel + 1)
    (ran : p.collapse before fuel = .ok ys) : ys.Pairwise R := by
  induction fuel generalizing p with
  | zero =>
    cases ran
    exact elements_pairwise ascending enough
  | succ fuel ih =>
    rw [collapse] at ran
    split at ran
    · obtain ⟨q, merged, perm⟩ := exists_mergeMiddle agrees.decided members
      obtain ⟨ascending', fewer⟩ := mergeMiddle_pairwise agrees members ascending merged
      simp only [merged] at ran
      exact ih (List.Subset.trans perm.subset members) ascending' (by omega) ran
    · rename_i few
      cases ran
      refine elements_pairwise ascending ?_
      cases runs : p.runs with
      | nil => exact Nat.zero_le _
      | cons run more =>
        cases more with
        | nil => exact Nat.le_refl _
        | cons => exact absurd runs (few _ _ _)

end Pending

theorem gather_pairwise {least fuel : Nat} {xs : List α} {p p' : Pending α}
    (members : p.elements ++ xs ⊆ all) (ascending : ∀ run ∈ p.runs, run.Pairwise R)
    (ran : gather before least fuel xs p = .ok p') : ∀ run ∈ p'.runs, run.Pairwise R := by
  induction fuel generalizing xs p with
  | zero =>
    cases ran
    exact ascending
  | succ fuel ih =>
    cases xs with
    | nil =>
      cases ran
      exact ascending
    | cons x xs =>
      obtain ⟨pMembers, xMembers⟩ := List.append_subset.mp members
      obtain ⟨run, rest, read, perm, -⟩ := exists_nextRun agrees.decided least xMembers
      have found := nextRun_pairwise agrees xMembers read
      have pushed : (⟨run :: p.runs, p.threshold⟩ : Pending α).elements = p.elements ++ run := by
        simp only [Pending.elements, List.reverse_cons, List.flatten_append,
          List.flatten_singleton]
      obtain ⟨runMembers, restMembers⟩ :=
        List.append_subset.mp (List.Subset.trans perm.subset xMembers)
      have onto : (⟨run :: p.runs, p.threshold⟩ : Pending α).elements ⊆ all := by
        rw [pushed]
        exact List.append_subset.mpr ⟨pMembers, runMembers⟩
      obtain ⟨q, settled, same⟩ := Pending.exists_settle agrees.decided (p.runs.length + 1) onto
      simp only [gather, read, settled] at ran
      exact ih (List.append_subset.mpr ⟨List.Subset.trans same.subset onto, restMembers⟩)
        (Pending.settle_pairwise agrees onto (List.forall_mem_cons.mpr ⟨found, ascending⟩) settled)
        ran

omit agrees in
/-- A sort whose comparisons agree with an order returns the elements in this order. -/
theorem sort_pairwise {xs ys : List α} (agrees : Agrees before R xs)
    (ran : sort before xs = .ok ys) : ys.Pairwise R := by
  obtain ⟨p, gathered, perm⟩ := exists_gather agrees.decided (leastRun xs.length) xs.length
    (p := ⟨[], gallopGain⟩) (Nat.le_refl _) (List.Subset.refl _)
  have ascending := gather_pairwise agrees (p := ⟨[], gallopGain⟩) (List.Subset.refl _)
    (fun _ none => absurd none List.not_mem_nil) gathered
  simp only [sort, gathered] at ran
  exact Pending.collapse_pairwise agrees perm.subset ascending (Nat.le_succ _) ran

end Sorting

namespace Comparator

variable {compare : Comparator Value} {among : Value → Prop} {a b : Value} {xs ys : List Value}

theorem Answers.sortsBefore_iff {sign : Ordering} (answers : compare.Answers a b sign) :
    compare.sortsBefore a b = .ok true ↔ sign = .lt := by
  obtain ⟨n, answer, shown⟩ := answers
  have asked : compare.sortsBefore a b = .ok (n.lt (.integer 0)) := by
    simp only [sortsBefore, answer]
    rfl
  rw [asked, Except.ok.injEq]
  unfold Value.orderOfNumbers at shown
  cases less : n.lt (.integer 0) with
  | true =>
    simp only [less, if_true, Option.some.injEq] at shown
    exact iff_of_true rfl shown.symm
  | false =>
    refine iff_of_false Bool.false_ne_true ?_
    rintro rfl
    simp only [less, Bool.false_eq_true, if_false] at shown
    split at shown
    · cases shown
    · split at shown <;> cases shown

theorem TotalPreorder.agrees (preorder : compare.TotalPreorder among)
    (members : ∀ x ∈ xs, among x) : Agrees compare.sortsBefore compare.AtMost xs where
  decided a left b right := by
    obtain ⟨sign, answers⟩ := preorder.total (members a left) (members b right)
    exact answers.sortsBefore_eq
  less {a b} left right asked := by
    obtain ⟨sign, answers⟩ := preorder.total (members a left) (members b right)
    obtain rfl := answers.sortsBefore_iff.mp asked
    exact ⟨_, answers, rfl⟩
  notLess {a b} left right asked := by
    obtain ⟨sign, answers⟩ := preorder.total (members a left) (members b right)
    refine ⟨_, preorder.swap (members a left) (members b right) answers, ?_⟩
    cases sign with
    | lt => cases asked.symm.trans (answers.sortsBefore_iff.mpr rfl)
    | eq | gt => rfl
  trans {a b c} left middle right first next := by
    obtain ⟨sign, below, atMost⟩ := first
    obtain ⟨sign', above, atMost'⟩ := next
    exact preorder.trans (members a left) (members b middle) (members c right) below above atMost
      atMost'

/-- What is sorted without the undefined elements is in order. -/
theorem TotalPreorder.sortValues_eq_ok (preorder : compare.TotalPreorder among)
    (members : ∀ x ∈ xs, among x) (sorted : compare.sortValues xs = .ok ys) :
    ∃ defined, ys = defined ++ xs.filter Value.isUndefined ∧
      defined.Perm (xs.filter (!·.isUndefined)) ∧ defined.Pairwise compare.AtMost := by
  have agrees : Agrees compare.sortsBefore compare.AtMost (xs.filter (!·.isUndefined)) :=
    preorder.agrees fun x here => members x (List.mem_of_mem_filter here)
  obtain ⟨defined, made, perm⟩ := Sorting.exists_sort agrees.decided
  simp only [sortValues, sort, made] at sorted
  cases sorted
  exact ⟨defined, rfl, perm, Sorting.sort_pairwise agrees made⟩

end Comparator

end SplitTraversal
