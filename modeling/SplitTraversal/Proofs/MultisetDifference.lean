import Mathlib.Data.List.Perm.Basic
import SplitTraversal.Conformance.Matching
import SplitTraversal.Proofs.ValueIdentity

/-! What the comparison of two lists as multisets leaves over. Whatever the relation, matched elements
are matched in pairs and nothing that is left on one side matches anything left on the other. Where
the relation is an equivalence, the numbers that are left in each class are the differences of those
that there were. -/

namespace SplitTraversal
namespace Matching

variable {α : Type} {same : α → α → Bool}

def decided (same : α → α → Bool) : Equivalence α := fun a b => .ok (same a b)

/-- How expected elements are matched with unclaimed ones. Each claims the first that it is related
to, or else is missing; what is unclaimed in the end is unexpected. -/
inductive Claims (same : α → α → Bool) : List α → List α → List α → List α → Prop
  | done (unclaimed : List α) : Claims same [] unclaimed [] unclaimed
  | claimed {a x : α} {expected before after missing unexpected : List α}
      (passed : ∀ y ∈ before, same a y = false) (matched : same a x = true)
      (rest : Claims same expected (before ++ after) missing unexpected) :
      Claims same (a :: expected) (before ++ x :: after) missing unexpected
  | missed {a : α} {expected unclaimed missing unexpected : List α}
      (passed : ∀ y ∈ unclaimed, same a y = false)
      (rest : Claims same expected unclaimed missing unexpected) :
      Claims same (a :: expected) unclaimed (a :: missing) unexpected

theorem takeFirst_cases (claim : α → Bool) (xs : List α) :
    (∃ before x after, xs = before ++ x :: after ∧ (∀ y ∈ before, claim y = false) ∧
      claim x = true ∧ takeFirst (fun y => .ok (claim y)) xs = .ok (some (before ++ after))) ∨
    ((∀ y ∈ xs, claim y = false) ∧ takeFirst (fun y => .ok (claim y)) xs = .ok none) := by
  induction xs with
  | nil => exact .inr ⟨fun y none => (List.not_mem_nil none).elim, rfl⟩
  | cons x xs ih =>
    by_cases first : claim x = true
    · left
      refine ⟨[], x, xs, rfl, fun y none => (List.not_mem_nil none).elim, first, ?_⟩
      simp only [takeFirst, first, List.nil_append]
    · rw [Bool.not_eq_true] at first
      rcases ih with ⟨before, y, after, rfl, passed, matched, taken⟩ | ⟨passed, taken⟩
      · left
        refine ⟨x :: before, y, after, rfl, List.forall_mem_cons.mpr ⟨first, passed⟩, matched, ?_⟩
        simp only [takeFirst, first, taken, List.cons_append]
      · right
        refine ⟨List.forall_mem_cons.mpr ⟨first, passed⟩, ?_⟩
        simp only [takeFirst, first, taken]

theorem exists_claims (same : α → α → Bool) (expected actual : List α) :
    ∃ missing unexpected,
      multisetDiff (decided same) expected actual = .ok (missing, unexpected) ∧
        Claims same expected actual missing unexpected := by
  induction expected generalizing actual with
  | nil => exact ⟨[], actual, rfl, .done actual⟩
  | cons a expected ih =>
    rcases takeFirst_cases (same a) actual with
      ⟨before, x, after, rfl, passed, matched, taken⟩ | ⟨passed, taken⟩
    · obtain ⟨missing, unexpected, compared, claims⟩ := ih (before ++ after)
      refine ⟨missing, unexpected, ?_, .claimed passed matched claims⟩
      rw [multisetDiff]
      unfold decided at *
      simp only [taken, compared]
    · obtain ⟨missing, unexpected, compared, claims⟩ := ih actual
      refine ⟨a :: missing, unexpected, ?_, .missed passed claims⟩
      rw [multisetDiff]
      unfold decided at *
      simp only [taken, compared]

namespace Claims

variable {expected actual missing unexpected : List α}

theorem missing_sublist (claims : Claims same expected actual missing unexpected) :
    missing.Sublist expected := by
  induction claims with
  | done => exact .slnil
  | claimed _ _ _ ih => exact ih.cons _
  | missed _ _ ih => exact ih.cons_cons _

theorem unexpected_sublist (claims : Claims same expected actual missing unexpected) :
    unexpected.Sublist actual := by
  induction claims with
  | done unclaimed => exact .refl unclaimed
  | @claimed _ x _ before after _ _ _ _ _ ih =>
    exact ih.trans ((List.sublist_cons_self x after).append_left before)
  | missed _ _ ih => exact ih

theorem paired (claims : Claims same expected actual missing unexpected) :
    ∃ matched taken, expected.Perm (matched ++ missing) ∧ actual.Perm (taken ++ unexpected) ∧
      List.Forall₂ (fun a b => same a b = true) matched taken := by
  induction claims with
  | done unclaimed => exact ⟨[], [], .refl [], .refl unclaimed, .nil⟩
  | @claimed a x _ _ _ _ _ _ here _ ih =>
    obtain ⟨matched, taken, left, right, pairs⟩ := ih
    refine ⟨a :: matched, x :: taken, left.cons a, ?_, .cons here pairs⟩
    exact List.perm_middle.trans (right.cons x)
  | @missed a _ _ _ _ _ _ ih =>
    obtain ⟨matched, taken, left, right, pairs⟩ := ih
    exact ⟨matched, taken, (left.cons a).trans List.perm_middle.symm, right, pairs⟩

/-- A missing element is related to nothing that was unclaimed when its turn came, and what is
unclaimed in the end was so then. -/
theorem unmatched (claims : Claims same expected actual missing unexpected) :
    ∀ a ∈ missing, ∀ b ∈ unexpected, same a b = false := by
  induction claims with
  | done => exact fun a none => (List.not_mem_nil none).elim
  | claimed _ _ _ ih => exact ih
  | missed passed rest ih =>
    refine List.forall_mem_cons.mpr ⟨?_, ih⟩
    intro b here
    exact passed b (rest.unexpected_sublist.subset here)

end Claims

def Rearranged (same : α → α → Bool) (xs ys : List α) : Prop :=
  ∃ zs, zs.Perm ys ∧ List.Forall₂ (fun a b => same a b = true) xs zs

theorem Rearranged.length_eq {xs ys : List α} (rearranged : Rearranged same xs ys) :
    xs.length = ys.length := by
  obtain ⟨zs, order, pairs⟩ := rearranged
  rw [pairs.length_eq, order.length_eq]

section Classes

variable {s : Setoid α} (decides : ∀ a b, same a b = true ↔ s a b)

include decides

theorem countP_paired {xs ys : List α}
    (pairs : List.Forall₂ (fun a b => same a b = true) xs ys) (a : α) :
    xs.countP (same a) = ys.countP (same a) := by
  induction pairs with
  | nil => rfl
  | @cons x y _ _ here _ ih =>
    have related := (decides x y).mp here
    have alike : same a x = same a y := by
      rw [Bool.eq_iff_iff, decides, decides]
      exact ⟨fun left => s.trans' left related, fun right => s.trans' right (s.symm' related)⟩
    rw [List.countP_cons, List.countP_cons, ih, alike]

theorem Rearranged.countP_eq {xs ys : List α} (rearranged : Rearranged same xs ys) (a : α) :
    xs.countP (same a) = ys.countP (same a) := by
  obtain ⟨zs, order, pairs⟩ := rearranged
  rw [countP_paired decides pairs, order.countP_eq]

theorem eq_nil_of_countP {xs : List α} (none : ∀ a, xs.countP (same a) = 0) : xs = [] := by
  apply List.eq_nil_iff_forall_not_mem.mpr
  intro a here
  exact List.countP_eq_zero.mp (none a) a here ((decides a a).mpr (s.refl' a))

namespace Claims

variable {expected actual missing unexpected : List α}

/-- Each class loses the same number of elements on both sides, and is left over on one side only. -/
theorem countP_eq (claims : Claims same expected actual missing unexpected) (a : α) :
    missing.countP (same a) = expected.countP (same a) - actual.countP (same a) ∧
      unexpected.countP (same a) = actual.countP (same a) - expected.countP (same a) := by
  obtain ⟨matched, taken, left, right, pairs⟩ := claims.paired
  have level := countP_paired decides pairs a
  have wanted := left.countP_eq (same a)
  have visited := right.countP_eq (same a)
  rw [List.countP_append] at wanted visited
  have one_sided : missing.countP (same a) = 0 ∨ unexpected.countP (same a) = 0 := by
    by_cases lacking : ∃ x ∈ missing, same a x = true
    · right
      obtain ⟨x, here, related⟩ := lacking
      apply List.countP_eq_zero.mpr
      intro y there also
      have alike := s.trans' (s.symm' ((decides a x).mp related)) ((decides a y).mp also)
      exact Bool.false_ne_true
        ((claims.unmatched x here y there).symm.trans ((decides x y).mpr alike))
    · left
      apply List.countP_eq_zero.mpr
      intro x here related
      exact lacking ⟨x, here, related⟩
  omega

theorem nil_iff (claims : Claims same expected actual missing unexpected) :
    missing = [] ∧ unexpected = [] ↔ Rearranged same expected actual := by
  constructor
  · rintro ⟨rfl, rfl⟩
    obtain ⟨matched, taken, left, right, pairs⟩ := claims.paired
    rw [List.append_nil] at left right
    obtain ⟨zs, pairs, order⟩ := List.perm_comp_forall₂ left pairs
    exact ⟨zs, order.trans right.symm, pairs⟩
  · intro rearranged
    have level := rearranged.countP_eq decides
    have counts := claims.countP_eq decides
    constructor
    · apply eq_nil_of_countP decides
      intro a
      rw [(counts a).1, level, Nat.sub_self]
    · apply eq_nil_of_countP decides
      intro a
      rw [(counts a).2, level, Nat.sub_self]

end Claims
end Classes

/-- What is left over of two lists under any relation: a maximal matching has been taken out. -/
structure Leftover (same : α → α → Bool) (expected actual missing unexpected : List α) : Prop where
  missing_sublist : missing.Sublist expected
  unexpected_sublist : unexpected.Sublist actual
  paired : ∃ matched taken, expected.Perm (matched ++ missing) ∧
    actual.Perm (taken ++ unexpected) ∧ List.Forall₂ (fun a b => same a b = true) matched taken
  length_eq : expected.length - missing.length = actual.length - unexpected.length
  unmatched : ∀ a ∈ missing, ∀ b ∈ unexpected, same a b = false

theorem Claims.leftover {expected actual missing unexpected : List α}
    (claims : Claims same expected actual missing unexpected) :
    Leftover same expected actual missing unexpected := by
  refine ⟨claims.missing_sublist, claims.unexpected_sublist, claims.paired, ?_, claims.unmatched⟩
  obtain ⟨matched, taken, left, right, pairs⟩ := claims.paired
  have level := pairs.length_eq
  rw [left.length_eq, right.length_eq, List.length_append, List.length_append]
  omega

/-- What is left over under an equivalence: of each class what there was more of on that side. -/
structure Difference (same : α → α → Bool) (expected actual missing unexpected : List α) :
    Prop where
  countP_missing (a : α) :
    missing.countP (same a) = expected.countP (same a) - actual.countP (same a)
  countP_unexpected (a : α) :
    unexpected.countP (same a) = actual.countP (same a) - expected.countP (same a)
  nil_iff : missing = [] ∧ unexpected = [] ↔ Rearranged same expected actual

theorem Claims.difference {s : Setoid α} (decides : ∀ a b, same a b = true ↔ s a b)
    {expected actual missing unexpected : List α}
    (claims : Claims same expected actual missing unexpected) :
    Difference same expected actual missing unexpected :=
  ⟨fun a => (claims.countP_eq decides a).1, fun a => (claims.countP_eq decides a).2,
    claims.nil_iff decides⟩

/-- The comparison takes out a maximal matching under any relation that does not throw. Under an
equivalence relation, such as being the same value, it is the difference of multisets, and so does
not depend on the order of either list. -/
theorem multisetDiff_difference :
    (∀ {α : Type} (same : α → α → Bool) (expected actual : List α), ∃ missing unexpected,
      multisetDiff (decided same) expected actual = .ok (missing, unexpected) ∧
      Leftover same expected actual missing unexpected ∧
      ∀ s : Setoid α, (∀ a b, same a b = true ↔ s a b) →
        Difference same expected actual missing unexpected ∧
        ∀ expected' actual', expected'.Perm expected → actual'.Perm actual →
          ∃ missing' unexpected',
            multisetDiff (decided same) expected' actual' = .ok (missing', unexpected') ∧
            ∀ a, missing'.countP (same a) = missing.countP (same a) ∧
              unexpected'.countP (same a) = unexpected.countP (same a)) ∧
    NamedEquivalence.sameValueZero.holds = decided Value.sameValueZero ∧
    ∀ a b, a.sameValueZero b = true ↔ Value.sameness a b := by
  refine ⟨?_, rfl, Value.sameValueZero_iff_sameness⟩
  intro α same expected actual
  obtain ⟨missing, unexpected, compared, claims⟩ := exists_claims same expected actual
  refine ⟨missing, unexpected, compared, claims.leftover, ?_⟩
  intro s decides
  refine ⟨claims.difference decides, ?_⟩
  intro expected' actual' left right
  obtain ⟨missing', unexpected', compared', claims'⟩ := exists_claims same expected' actual'
  refine ⟨missing', unexpected', compared', ?_⟩
  intro a
  have counts := claims.countP_eq decides a
  have counts' := claims'.countP_eq decides a
  rw [left.countP_eq, right.countP_eq] at counts'
  exact ⟨counts'.1.trans counts.1.symm, counts'.2.trans counts.2.symm⟩

/-- NaN is wanted once and visited twice; one of the texts is wanted twice and visited once. -/
theorem multisetDiff_difference_nan :
    let expected : List Value := [.string "a", .number .nan, .null, .string "a"]
    let actual : List Value := [.null, .number .nan, .string "a", .number .nan]
    multisetDiff NamedEquivalence.sameValueZero.holds expected actual =
        .ok ([.string "a"], [.number .nan]) ∧
      (∀ a b, a.sameValueZero b = true ↔ Value.sameness a b) ∧
      Difference Value.sameValueZero expected actual [.string "a"] [.number .nan] ∧
      ¬Rearranged Value.sameValueZero expected actual := by
  intro expected actual
  obtain ⟨all, named, decides⟩ := multisetDiff_difference
  obtain ⟨missing, unexpected, compared, _, exact⟩ := all Value.sameValueZero expected actual
  have left : multisetDiff NamedEquivalence.sameValueZero.holds expected actual =
      .ok ([.string "a"], [.number .nan]) := rfl
  rw [← named, left] at compared
  cases compared
  obtain ⟨difference, _⟩ := exact Value.sameness decides
  refine ⟨left, decides, difference, ?_⟩
  intro rearranged
  cases (difference.nil_iff.mpr rearranged).1

end Matching
end SplitTraversal
