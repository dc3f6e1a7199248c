import SplitTraversal.Order.Comparator

/-! Comparators by the signs of their answers. Total preorders and natural order have in common what
it takes to keep a list strictly ascending: answers are opposite for swapped values, and what comes
before something comes before all that follows it. -/

namespace SplitTraversal

namespace Number

theorem lt_asymm {x y : Number} (less : x.lt y = true) : y.lt x = false := by
  obtain ⟨a, b, keyX, keyY, below⟩ := lt_iff.mp less
  refine Bool.eq_false_iff.mpr fun more => ?_
  obtain ⟨c, d, keyY', keyX', above⟩ := lt_iff.mp more
  cases keyX.symm.trans keyX'
  cases keyY.symm.trans keyY'
  omega

theorem lt_trans {x y z : Number} (first : x.lt y = true) (next : y.lt z = true) :
    x.lt z = true := by
  obtain ⟨a, b, keyX, keyY, below⟩ := lt_iff.mp first
  obtain ⟨c, d, keyY', keyZ, above⟩ := lt_iff.mp next
  cases keyY.symm.trans keyY'
  exact lt_iff.mpr ⟨a, d, keyX, keyZ, by omega⟩

theorem same_symm (x y : Number) : x.same y = y.same x := by
  have turned {u v : Number} (equal : u.same v = true) : v.same u = true := by
    obtain ⟨a, keyU, keyV⟩ := same_iff.mp equal
    exact same_iff.mpr ⟨a, keyV, keyU⟩
  exact Bool.eq_iff_iff.mpr ⟨turned, turned⟩

theorem not_lt_of_same {x y : Number} (equal : x.same y = true) : x.lt y = false := by
  obtain ⟨a, keyX, keyY⟩ := same_iff.mp equal
  refine Bool.eq_false_iff.mpr fun less => ?_
  obtain ⟨b, c, keyX', keyY', below⟩ := lt_iff.mp less
  cases keyX.symm.trans keyX'
  cases keyY.symm.trans keyY'
  omega

end Number

namespace Value

theorem orderOfNumbers_swap (m n : Number) :
    orderOfNumbers n m = (orderOfNumbers m n).map Ordering.swap := by
  simp only [orderOfNumbers, Number.same_symm n m]
  cases less : m.lt n with
  | true => simp [Number.lt_asymm less]
  | false =>
    cases n.lt m with
    | true => simp
    | false => cases m.same n <;> simp

theorem orderOfNumbers_eq_iff {m n : Number} :
    orderOfNumbers m n = some .eq ↔ m.same n = true := by
  simp only [orderOfNumbers]
  cases equal : m.same n with
  | true =>
    have back := Number.not_lt_of_same ((Number.same_symm n m).trans equal)
    simp [Number.not_lt_of_same equal, back]
  | false => cases m.lt n <;> cases n.lt m <;> simp

theorem orderOfNumbers_integer (i j : Int) :
    orderOfNumbers (.integer i) (.integer j) = some (compare i j) := by
  simp only [orderOfNumbers, Number.lt, Number.same, decide_eq_true_eq, beq_iff_eq,
    compare, compareOfLessAndEq]
  by_cases less : i < j
  · simp [less]
  · by_cases equal : i = j
    · simp [equal]
    · simp [less, equal, show j < i by omega]

end Value

namespace Comparator

variable {α : Type}

def Answers (compare : Comparator α) (a b : α) (sign : Ordering) : Prop :=
  ∃ n : Number, compare a b = .ok (.number n) ∧ Value.orderOfNumbers n (.integer 0) = some sign

variable {compare : Comparator α} {a b : α} {sign : Ordering}

namespace Answers

theorem unique {other : Ordering} (answers : compare.Answers a b sign)
    (also : compare.Answers a b other) : sign = other := by
  obtain ⟨n, answer, shown⟩ := answers
  obtain ⟨m, again, shownAgain⟩ := also
  cases answer.symm.trans again
  exact Option.some.inj (shown.symm.trans shownAgain)

theorem precedes_eq (answers : compare.Answers a b sign) :
    compare.precedes a b = .ok (sign == .lt) := by
  obtain ⟨n, answer, shown⟩ := answers
  simp only [precedes, answer, Value.isLess, Value.int, Value.order?_number, shown, Except.map]
  cases sign <;> rfl

theorem follows_eq (answers : compare.Answers a b sign) :
    compare.follows a b = .ok (sign == .gt) := by
  obtain ⟨n, answer, shown⟩ := answers
  simp only [follows, answer, Value.isLess, Value.int, Value.order?_number,
    Value.orderOfNumbers_swap n, shown, Option.map_some, Except.map]
  cases sign <;> rfl

theorem ties_eq (answers : compare.Answers a b sign) :
    compare.ties a b = .ok (sign == .eq) := by
  obtain ⟨n, answer, shown⟩ := answers
  have equal : n.same (.integer 0) = (sign == .eq) := by
    rw [Bool.eq_iff_iff, ← Value.orderOfNumbers_eq_iff, shown, beq_iff_eq, Option.some_inj]
  simp only [ties, answer, Value.int, Value.strictEquals, equal]

end Answers

/-- Among these values, answers are numbers that are not NaN, of opposite signs for swapped values,
and being at most something is transitive. -/
structure TotalPreorder (compare : Comparator α) (among : α → Prop) : Prop where
  total {a b : α} (left : among a) (right : among b) : ∃ sign, compare.Answers a b sign
  swap {a b : α} {sign : Ordering} (left : among a) (right : among b)
    (answers : compare.Answers a b sign) : compare.Answers b a sign.swap
  trans {a b c : α} {first next : Ordering} (left : among a) (middle : among b) (right : among c)
    (below : compare.Answers a b first) (above : compare.Answers b c next)
    (atMost : first.isLE) (atMost' : next.isLE) :
    ∃ sign, compare.Answers a c sign ∧ sign.isLE

/-- The same, except that there may be no answer, and that what is transitive is being less. Ties
need not be: NaN ties with every number in natural order. -/
structure Consistent (compare : Comparator α) (among : α → Prop) : Prop where
  answered {a b : α} {less : Bool} (left : among a) (right : among b)
    (decided : compare.precedes a b = .ok less) : ∃ sign, compare.Answers a b sign
  swap {a b : α} {sign : Ordering} (left : among a) (right : among b)
    (answers : compare.Answers a b sign) : compare.Answers b a sign.swap
  trans {a b c : α} (left : among a) (middle : among b) (right : among c)
    (below : compare.Answers a b .lt) (above : compare.Answers b c .lt) : compare.Answers a c .lt

theorem Consistent.sign_of_precedes {among : α → Prop} {less : Bool}
    (consistent : compare.Consistent among) (left : among a) (right : among b)
    (decided : compare.precedes a b = .ok less) :
    ∃ sign, compare.Answers a b sign ∧ (sign == .lt) = less := by
  obtain ⟨sign, answers⟩ := consistent.answered left right decided
  exact ⟨sign, answers, Except.ok.inj (answers.precedes_eq.symm.trans decided)⟩

theorem Consistent.lt_of_precedes {among : α → Prop} (consistent : compare.Consistent among)
    (left : among a) (right : among b) (decided : compare.precedes a b = .ok true) :
    compare.Answers a b .lt := by
  obtain ⟨sign, answers, first⟩ := consistent.sign_of_precedes left right decided
  cases sign with
  | lt => exact answers
  | _ => cases first

namespace TotalPreorder

variable {among : α → Prop} {c : α} {first : Ordering}

theorem self (preorder : compare.TotalPreorder among) (fits : among a) :
    compare.Answers a a .eq := by
  obtain ⟨sign, answers⟩ := preorder.total fits fits
  have same := answers.unique (preorder.swap fits fits answers)
  cases sign with
  | eq => exact answers
  | lt => cases same
  | gt => cases same

theorem lt_of_isLE_of_lt (preorder : compare.TotalPreorder among) (left : among a)
    (middle : among b) (right : among c) (below : compare.Answers a b first)
    (atMost : first.isLE) (above : compare.Answers b c .lt) : compare.Answers a c .lt := by
  obtain ⟨sign, answers, atMost'⟩ := preorder.trans left middle right below above atMost rfl
  cases sign with
  | lt => exact answers
  | gt => cases atMost'
  -- If `a` and `c` tied, `c` would be at most `b`, which comes before it.
  | eq =>
    have back := preorder.swap left right answers
    obtain ⟨other, between, most⟩ := preorder.trans right left middle back below rfl atMost
    cases between.unique (preorder.swap middle right above)
    cases most

theorem tie_trans (preorder : compare.TotalPreorder among) (left : among a) (middle : among b)
    (right : among c) (below : compare.Answers a b .eq) (above : compare.Answers b c .eq) :
    compare.Answers a c .eq := by
  obtain ⟨sign, answers, atMost⟩ := preorder.trans left middle right below above rfl rfl
  obtain ⟨other, back, atMost'⟩ := preorder.trans right middle left
    (preorder.swap middle right above) (preorder.swap left middle below) rfl rfl
  have same := back.unique (preorder.swap left right answers)
  cases sign with
  | eq => exact answers
  | gt => cases atMost
  | lt =>
    subst same
    cases atMost'

theorem consistent (preorder : compare.TotalPreorder among) : compare.Consistent among where
  answered left right _ := preorder.total left right
  swap := preorder.swap
  trans left middle right below := preorder.lt_of_isLE_of_lt left middle right below rfl

end TotalPreorder

end Comparator

namespace Value

def kindred : Value → Value → Bool
  | .number _, .number _ => true
  | .string _, .string _ => true
  | .bigint _, .bigint _ => true
  | .boolean _, .boolean _ => true
  | .date .., .date .. => true
  | _, _ => false

def before : Value → Value → Bool
  | .number a, .number b => a.lt b
  | .string a, .string b => Text.before a b
  | .bigint a, .bigint b => a < b
  | .boolean a, .boolean b => !a && b
  | .date a _, .date b _ => naturalOrder.beforeDate a b
  | _, _ => false

theorem naturalOrder_of_kindred {a b : Value} (kin : kindred a b = true) :
    naturalOrder a b = .ok (compareBy before a b) := by
  unfold kindred at kin
  split at kin
  · rfl
  · rfl
  · rfl
  · rename_i x y
    cases x <;> cases y <;> rfl
  · rfl
  · cases kin

theorem naturalOrder_of_not_kindred {a b : Value} (strange : kindred a b = false) :
    ∃ e, naturalOrder a b = .error e := by
  cases a <;> cases b <;> first | exact ⟨_, rfl⟩ | cases strange

theorem kindred_symm (a b : Value) : kindred a b = kindred b a := by
  cases a <;> cases b <;> rfl

theorem kindred_of_before {a b : Value} (less : before a b = true) : kindred a b = true := by
  unfold before at less
  split at less <;> first | rfl | cases less

theorem before_asymm {a b : Value} (less : before a b = true) : before b a = false := by
  unfold before at less
  split at less
  · exact Number.lt_asymm less
  · simp only [Text.before, decide_eq_true_eq] at less
    exact decide_eq_false (List.lt_asymm less)
  · simp only [decide_eq_true_eq] at less
    simp only [before, decide_eq_false_iff_not]
    omega
  · rename_i x y
    cases x <;> cases y <;> first | rfl | cases less
  · rename_i s _ t _
    cases s <;> cases t <;> simp [before, naturalOrder.beforeDate] at less ⊢
    omega
  · cases less

theorem before_trans {a b c : Value} (first : before a b = true) (next : before b c = true) :
    before a c = true := by
  have kin := kindred_of_before next
  unfold before at first
  split at first
  -- In each kind, only a third value of this kind can come after the second.
  · cases c <;> first | exact Number.lt_trans first next | cases kin
  · cases c with
    | string u =>
      simp only [before, Text.before, decide_eq_true_eq] at first next ⊢
      exact List.lt_trans first next
    | _ => cases kin
  · cases c with
    | bigint k =>
      simp only [before, decide_eq_true_eq] at first next ⊢
      omega
    | _ => cases kin
  · rename_i x y
    cases c with
    | boolean z => cases x <;> cases y <;> cases z <;> simp_all [before]
    | _ => cases kin
  · rename_i s _ t _
    cases c with
    | date u _ =>
      cases s <;> cases t <;> cases u <;>
        simp [before, naturalOrder.beforeDate] at first next ⊢
      omega
    | _ => cases kin
  · cases first

def naturalSign (a b : Value) : Ordering :=
  if before a b then .lt else if before b a then .gt else .eq

theorem naturalSign_swap (a b : Value) : naturalSign b a = (naturalSign a b).swap := by
  unfold naturalSign
  cases less : before a b with
  | true => simp [before_asymm less]
  | false => cases before b a <;> simp

theorem naturalOrder_answers_iff {a b : Value} {sign : Ordering} :
    naturalOrder.Answers a b sign ↔ kindred a b = true ∧ naturalSign a b = sign := by
  have answers (kin : kindred a b = true) : naturalOrder.Answers a b (naturalSign a b) := by
    unfold Comparator.Answers
    rw [naturalOrder_of_kindred kin]
    unfold compareBy naturalSign
    cases before a b with
    | true => exact ⟨_, rfl, orderOfNumbers_integer (-1) 0⟩
    | false =>
      cases before b a with
      | true => exact ⟨_, rfl, orderOfNumbers_integer 1 0⟩
      | false => exact ⟨_, rfl, orderOfNumbers_integer 0 0⟩
  constructor
  · intro given
    cases kin : kindred a b with
    | true => exact ⟨rfl, (answers kin).unique given⟩
    | false =>
      obtain ⟨e, refused⟩ := naturalOrder_of_not_kindred kin
      obtain ⟨n, answer, _⟩ := given
      cases refused.symm.trans answer
  · rintro ⟨kin, rfl⟩
    exact answers kin

theorem naturalOrder_consistent : naturalOrder.Consistent fun _ => True where
  answered {a b less} _ _ decided := by
    cases kin : kindred a b with
    | true => exact ⟨_, naturalOrder_answers_iff.mpr ⟨kin, rfl⟩⟩
    | false =>
      obtain ⟨e, refused⟩ := naturalOrder_of_not_kindred kin
      rw [Comparator.precedes, refused] at decided
      cases decided
  swap {a b sign} _ _ answers := by
    obtain ⟨kin, rfl⟩ := naturalOrder_answers_iff.mp answers
    exact naturalOrder_answers_iff.mpr ⟨(kindred_symm b a).trans kin, naturalSign_swap a b⟩
  trans {a b c} _ _ _ below above := by
    have before_of_lt {x y : Value} (answers : naturalOrder.Answers x y .lt) :
        before x y = true := by
      have less := (naturalOrder_answers_iff.mp answers).2
      cases first : before x y with
      | true => rfl
      | false => cases second : before y x <;> simp [naturalSign, first, second] at less
    have less := before_trans (before_of_lt below) (before_of_lt above)
    exact naturalOrder_answers_iff.mpr
      ⟨kindred_of_before less, by simp only [naturalSign, less, if_true]⟩

/-- Neither NaN nor an invalid date, which are not before any value and tie with all of their kind. -/
def hasRank : Value → Bool
  | .number n => n.key.isSome
  | .date time _ => time.isSome
  | _ => true

/-- What comes between two values in natural order comes after the first or before the second. -/
theorem before_or_before {a b c : Value} (rank : hasRank b = true) (kin : kindred a b = true)
    (less : before a c = true) : before a b = true ∨ before b c = true := by
  unfold kindred at kin
  split at kin
  · rename_i x y
    obtain ⟨n, rfl⟩ : ∃ n, c = .number n := by cases c <;> first | exact ⟨_, rfl⟩ | cases less
    obtain ⟨i, j, keyX, keyN, below⟩ := Number.lt_iff.mp less
    obtain ⟨k, keyY⟩ := Option.isSome_iff_exists.mp rank
    by_cases first : i < k
    · exact .inl (Number.lt_iff.mpr ⟨i, k, keyX, keyY, first⟩)
    · exact .inr (Number.lt_iff.mpr ⟨k, j, keyY, keyN, by omega⟩)
  · rename_i s t
    obtain ⟨u, rfl⟩ : ∃ u, c = .string u := by cases c <;> first | exact ⟨_, rfl⟩ | cases less
    simp only [before, Text.before, decide_eq_true_eq] at less ⊢
    by_cases first : Text.units s < Text.units t
    · exact .inl first
    · exact .inr (List.lt_of_le_of_lt (List.not_lt.mp first) less)
  · rename_i i j
    obtain ⟨k, rfl⟩ : ∃ k, c = .bigint k := by cases c <;> first | exact ⟨_, rfl⟩ | cases less
    simp only [before, decide_eq_true_eq] at less ⊢
    omega
  · rename_i x y
    obtain ⟨z, rfl⟩ : ∃ z, c = .boolean z := by cases c <;> first | exact ⟨_, rfl⟩ | cases less
    cases x <;> cases y <;> cases z <;> simp_all [before]
  · rename_i s _ t _
    obtain ⟨u, id, rfl⟩ : ∃ u id, c = .date u id := by
      cases c <;> first | exact ⟨_, _, rfl⟩ | cases less
    obtain ⟨j, rfl⟩ := Option.isSome_iff_exists.mp rank
    cases s <;> cases u <;> simp [before, naturalOrder.beforeDate] at less ⊢
    omega
  · cases kin

theorem kindred_trans {a b c : Value} (first : kindred a b = true) (next : kindred b c = true) :
    kindred a c = true := by
  unfold kindred at first
  split at first <;> first | (cases c <;> first | rfl | cases next) | cases first

theorem naturalSign_isLE_iff {a b : Value} :
    (naturalSign a b).isLE = true ↔ before b a = false := by
  unfold naturalSign
  cases less : before a b with
  | true => simp [before_asymm less]
  | false => cases before b a <;> simp

/-- Natural order is a total preorder of all values of one kind but NaN and invalid dates. -/
theorem naturalOrder_totalPreorder (kind : Value) :
    naturalOrder.TotalPreorder fun v => kindred kind v = true ∧ hasRank v = true where
  total {a b} left right := by
    have kin := kindred_trans ((kindred_symm a kind).trans left.1) right.1
    exact ⟨_, naturalOrder_answers_iff.mpr ⟨kin, rfl⟩⟩
  swap _ _ answers := naturalOrder_consistent.swap trivial trivial answers
  trans {a b c first next} left middle right below above atMost atMost' := by
    obtain ⟨kin, rfl⟩ := naturalOrder_answers_iff.mp below
    obtain ⟨kin', rfl⟩ := naturalOrder_answers_iff.mp above
    refine ⟨_, naturalOrder_answers_iff.mpr ⟨kindred_trans kin kin', rfl⟩, ?_⟩
    rw [naturalSign_isLE_iff] at atMost atMost' ⊢
    refine Bool.eq_false_iff.mpr fun less => ?_
    rcases before_or_before middle.2 ((kindred_symm c b).trans kin') less with back | back
    · cases back.symm.trans atMost'
    · cases back.symm.trans atMost

end Value
end SplitTraversal
