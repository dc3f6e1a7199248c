import SplitTraversal.Proofs.NaturalOrder
import SplitTraversal.Proofs.OrderedSets
import SplitTraversal.Proofs.ValueIdentity

/-! Sorted sets in natural order as sets of values. Two values with a rank tie just where they
coincide, so a set whose values all have one is a set of them. Values without a rank, and a value
without a natural order that an empty set takes in, are the ways in which a set is not. -/

namespace SplitTraversal

theorem Middle.shifted_eq_position {low high : Nat} (few : high < 2 ^ 31) (inside : low ≤ high) :
    shifted low high = upper.position low high := by
  have exact : (low + high) % 2 ^ 32 = low + high := Nat.mod_eq_of_lt (by omega)
  rw [shifted, BitVec.toNat_ushiftRight, BitVec.toNat_ofNat, exact, Nat.shiftRight_eq_div_pow]
  rfl

namespace Text

/-- No text begins with the units of a character and goes on with another character. -/
theorem charUnits_append_inj {c d : Char} {xs ys : List Nat}
    (same : charUnits c ++ xs = charUnits d ++ ys) : c = d ∧ xs = ys := by
  have valid := c.valid
  have valid' := d.valid
  have inj (equal : c.toNat = d.toNat) : c = d := Char.ext (UInt32.toNat_inj.mp equal)
  simp only [UInt32.isValidChar, Nat.isValidChar] at valid valid'
  change c.toNat < _ ∨ _ < c.toNat ∧ c.toNat < _ at valid
  change d.toNat < _ ∨ _ < d.toNat ∧ d.toNat < _ at valid'
  unfold charUnits at same
  by_cases low : c.toNat < 0x10000
  · by_cases low' : d.toNat < 0x10000
    · simp only [low, low', if_true, List.cons_append, List.nil_append, List.cons.injEq] at same
      exact ⟨inj same.1, same.2⟩
    -- A high surrogate is not a character.
    · simp only [low, low', if_true, if_false, List.cons_append, List.cons.injEq] at same
      omega
  · by_cases low' : d.toNat < 0x10000
    · simp only [low, low', if_true, if_false, List.cons_append, List.cons.injEq] at same
      omega
    · simp only [low, low', if_false, List.cons_append, List.nil_append, List.cons.injEq] at same
      obtain ⟨high, rest, tail⟩ := same
      exact ⟨inj (by omega), tail⟩

theorem charUnits_ne_nil (c : Char) : charUnits c ≠ [] := by
  simp only [charUnits]
  split <;> exact List.cons_ne_nil _ _

theorem units_injective {s t : String} (same : units s = units t) : s = t := by
  have all (cs ds : List Char) (same : cs.flatMap charUnits = ds.flatMap charUnits) : cs = ds := by
    induction cs generalizing ds with
    | nil =>
      cases ds with
      | nil => rfl
      | cons d ds => simp [charUnits_ne_nil d] at same
    | cons c cs ih =>
      cases ds with
      | nil => simp [charUnits_ne_nil c] at same
      | cons d ds =>
        obtain ⟨rfl, rest⟩ := charUnits_append_inj same
        rw [ih ds rest]
  exact String.toList_injective (all _ _ same)

end Text

namespace Value

variable {a b : Value}

/-- The same value, with NaN and both zeros as in `sameValueZero`; of dates, the same time, and all
invalid dates are the same. -/
def coincides : Value → Value → Bool
  | .date s _, .date t _ => s == t
  | a, b => a.sameValueZero b

theorem kindred_of_coincides (same : coincides a b = true) (ordered : kindred a a = true) :
    kindred a b = true := by
  cases a <;> cases b <;>
    first | rfl | exact absurd same Bool.false_ne_true | exact absurd ordered Bool.false_ne_true

theorem hasRank_eq_of_coincides (same : coincides a b = true) : hasRank a = hasRank b := by
  cases a with
  | number x =>
    cases b with
    | number y => exact congrArg Option.isSome (Number.same_or_isNaN_iff.mp same)
    | _ => cases same
  | date s id =>
    cases b with
    | date t id' => exact congrArg Option.isSome (beq_iff_eq.mp same)
    | _ => cases same
  | _ => cases b <;> first | rfl | cases same

theorem naturalSign_eq_iff (kin : kindred a b = true) (left : hasRank a = true)
    (right : hasRank b = true) : naturalSign a b = .eq ↔ coincides a b = true := by
  have apart : naturalSign a b = .eq ↔ before a b = false ∧ before b a = false := by
    unfold naturalSign
    cases before a b <;> cases before b a <;> simp
  rw [apart]
  unfold kindred at kin
  split at kin
  · rename_i x y
    obtain ⟨i, keyX⟩ := Option.isSome_iff_exists.mp left
    obtain ⟨j, keyY⟩ := Option.isSome_iff_exists.mp right
    have below (u v : Number) (k l : Int) (keyU : u.key = some k) (keyV : v.key = some l) :
        u.lt v = false ↔ l ≤ k := by
      rw [← Bool.not_eq_true, Number.lt_iff, keyU, keyV]
      simp
    have equal := Number.same_or_isNaN_iff (x := x) (y := y)
    rw [keyX, keyY, Option.some_inj] at equal
    change x.lt y = false ∧ y.lt x = false ↔ (x.same y || (x.isNaN && y.isNaN)) = true
    rw [below x y i j keyX keyY, below y x j i keyY keyX, equal]
    omega
  · rename_i s t
    simp only [before, Text.before, coincides, sameValueZero, strictEquals, decide_eq_false_iff_not,
      beq_iff_eq, List.not_lt]
    constructor
    · rintro ⟨atLeast, atMost⟩
      exact Text.units_injective (List.le_antisymm atMost atLeast)
    · rintro rfl
      exact ⟨List.le_refl _, List.le_refl _⟩
  · simp only [before, coincides, sameValueZero, strictEquals, decide_eq_false_iff_not, beq_iff_eq]
    omega
  · rename_i x y
    cases x <;> cases y <;> decide
  · rename_i s _ t _
    obtain ⟨i, rfl⟩ := Option.isSome_iff_exists.mp left
    obtain ⟨j, rfl⟩ := Option.isSome_iff_exists.mp right
    simp only [before, naturalOrder.beforeDate, coincides, decide_eq_false_iff_not, beq_iff_eq,
      Option.some_inj]
    omega
  · cases kin

theorem ties_iff_coincides (kin : kindred a b = true) (left : hasRank a = true)
    (right : hasRank b = true) : naturalOrder.Answers a b .eq ↔ coincides a b = true := by
  rw [naturalOrder_answers_iff, and_iff_right kin, naturalSign_eq_iff kin left right]

theorem isNullish_of_kindred (kin : kindred a a = true) : a.isNullish = false := by
  cases a <;> first | rfl | cases kin

theorem before_of_lt (answers : naturalOrder.Answers a b .lt) : before a b = true := by
  obtain ⟨-, less⟩ := naturalOrder_answers_iff.mp answers
  refine (Bool.not_eq_false _).mp fun notLess => ?_
  have atMost := naturalSign_isLE_iff.mpr notLess
  rw [naturalSign_swap a b, less] at atMost
  cases atMost

end Value

namespace SortedSet

open Value

variable {c : SortedSet} {v x : Value} {rest : List Value} {i : Nat} {e : Thrown}

theorem step_of_ok (change : Change) {answer : Bool} {c' : SortedSet}
    (result : c.call change = .ok (answer, c')) : c.step change = (.ok answer, c') := by
  simp only [step, result]

theorem step_of_error (change : Change) (result : c.call change = .error e) :
    c.step change = (.error e, c) := by
  simp only [step, result]

theorem step_add_of_missing (proper : v.isNullish = false) (found : c.find v = .ok (i, false)) :
    c.step (.add v) =
      (.ok true, { c with elements := c.elements.take i ++ v :: c.elements.drop i }) := by
  refine step_of_ok _ ?_
  simp only [call, SortedSet.add, proper, Bool.false_eq_true, if_false, found]

theorem step_add_of_held (proper : v.isNullish = false) (found : c.find v = .ok (i, true)) :
    c.step (.add v) = (.ok false, c) := by
  refine step_of_ok _ ?_
  simp only [call, SortedSet.add, proper, Bool.false_eq_true, if_false, found]

theorem step_remove_of_missing (found : c.find v = .ok (i, false)) :
    c.step (.remove v) = (.ok false, c) := by
  refine step_of_ok _ ?_
  simp only [call, SortedSet.remove, found]

theorem step_remove_of_held (found : c.find v = .ok (i, true)) :
    c.step (.remove v) = (.ok true, { c with elements := c.elements.eraseIdx i }) := by
  refine step_of_ok _ ?_
  simp only [call, SortedSet.remove, found]

theorem step_add_of_nullish (nullish : v.isNullish = true) :
    c.step (.add v) = (.error (violation (.nullElement c.name)), c) := by
  refine step_of_error _ ?_
  simp only [call, SortedSet.add, nullish, if_true, violation]

section Laws

/-- The law of a set of naturally ordered values, for the value that it is called with next. -/
structure Faithful (c : SortedSet) (v : Value) : Prop where
  refuses (strange : kindred v v = false ∨ ∃ x ∈ c.elements, kindred x v = false) :
    ∃ cause, c.step (.add v) = (.error (violation cause), c) ∧ cause.kind = .invalidArgument
  adds (kin : kindred v v = true) (alike : ∀ x ∈ c.elements, kindred x v = true) :
    ∃ grew c', c.step (.add v) = (.ok grew, c') ∧
      (grew = true ↔ ∀ x ∈ c.elements, coincides x v = false) ∧
      (grew = true → c.Gains v c') ∧ (grew = false → c' = c)
  removes (alike : ∀ x ∈ c.elements, kindred x v = true) :
    ∃ shrank c', c.step (.remove v) = (.ok shrank, c') ∧
      (shrank = true ↔ ∃ x ∈ c.elements, coincides x v = true) ∧
      (shrank = true → ∃ x, coincides x v = true ∧ c'.Gains x c) ∧ (shrank = false → c' = c)
  declines (strange : ∃ x ∈ c.elements, kindred x v = false) :
    (∃ cause, c.step (.remove v) = (.error (violation cause), c) ∧
      cause.kind = .invalidArgument) ∧ ∀ x ∈ c.elements, coincides x v = false

/-- The states and values for which the law fails, and what happens there. A first value is compared
with nothing. It is then never found again if it has no natural order. And a value without a rank
stands for all values of its kind. -/
inductive Deviates (c : SortedSet) (v : Value) : Prop
  | admits (empty : c.elements = []) (proper : v.isNullish = false) (unordered : kindred v v = false)
      (added : c.step (.add v) = (.ok true, { c with elements := [v] }))
      (removed : c.step (.remove v) = (.ok false, c))
  | clings {x : Value} (alone : c.elements = [x]) (unordered : kindred x x = false)
      (same : coincides x v = true)
      (removed : ∃ cause, c.step (.remove v) = (.error (violation cause), c) ∧
        cause.kind = .invalidArgument)
  | blurs {x : Value} {rest : List Value} (held : c.elements = x :: rest)
      (kin : kindred x v = true) (unranked : hasRank x = false ∨ hasRank v = false)
      (apart : coincides x v = false) (added : c.step (.add v) = (.ok false, c))
      (removed : c.step (.remove v) = (.ok true, { c with elements := rest }))

end Laws

section States

theorem law_of_nil (empty : c.elements = []) : c.Faithful v ∨ c.Deviates v := by
  have found : c.find v = .ok (0, false) := by
    simp only [find, search, holdsAt, empty]
    rfl
  have removed := step_remove_of_missing found
  have none {p : Value → Prop} : ¬∃ x ∈ c.elements, p x := by
    rintro ⟨x, here, -⟩
    rw [empty] at here
    exact List.not_mem_nil here
  have faithful (refuses : kindred v v = false → ∃ cause,
        c.step (.add v) = (.error (violation cause), c) ∧ cause.kind = .invalidArgument)
      (adds : kindred v v = true →
        c.step (.add v) = (.ok true, { c with elements := [v] })) : c.Faithful v := by
    constructor
    case refuses =>
      rintro (strange | strange)
      · exact refuses strange
      · exact absurd strange none
    case adds =>
      intro kin _
      refine ⟨true, _, adds kin, ?_, fun _ => ⟨[], [], empty, rfl⟩, fun same => ?_⟩
      · simp [empty]
      · cases same
    case removes =>
      intro _
      refine ⟨false, c, removed, ?_, fun found => ?_, fun _ => rfl⟩
      · simp [empty]
      · cases found
    case declines =>
      intro strange
      exact absurd strange none
  cases nullish : v.isNullish with
  | true =>
    refine .inl (faithful (fun _ => ⟨_, step_add_of_nullish nullish, rfl⟩) fun kin => ?_)
    cases (isNullish_of_kindred kin).symm.trans nullish
  | false =>
    have added := step_add_of_missing nullish found
    rw [empty] at added
    cases kin : kindred v v with
    | true =>
      refine .inl (faithful (fun strange => ?_) fun _ => added)
      cases kin.symm.trans strange
    | false => exact .inr (.admits empty nullish kin added removed)

theorem compare_natural (natural : c.order = none) : c.compare = naturalOrder := by
  rw [compare, natural, Option.getD_none]

variable (ordered : c.Ordered fun _ => True) (natural : c.order = none)
include natural ordered

theorem Ordered.one_kind (held : c.elements = x :: rest) :
    (∀ y ∈ c.elements, kindred y v = kindred x v) ∧
      (rest = [] ∨ ∀ y ∈ c.elements, kindred y y = true ∧ hasRank y = true) := by
  have ascending := ordered.ascending
  rw [held, compare_natural natural, List.pairwise_cons] at ascending
  have less (y : Value) (here : y ∈ rest) : before x y = true := before_of_lt (ascending.1 y here)
  have alike (y : Value) (here : y ∈ rest) : kindred x y = true := kindred_of_before (less y here)
  rw [held]
  refine ⟨List.forall_mem_cons.mpr ⟨rfl, fun y here => ?_⟩, ?_⟩
  · have kin := alike y here
    rw [Bool.eq_iff_iff]
    exact ⟨kindred_trans kin, kindred_trans ((kindred_symm y x).trans kin)⟩
  · cases rest with
    | nil => exact .inl rfl
    | cons y rest =>
      refine .inr (List.forall_mem_cons.mpr ⟨?_, fun z here => ?_⟩)
      · have kin := alike y (List.mem_cons_self ..)
        exact ⟨kindred_trans kin ((kindred_symm y x).trans kin),
          (hasRank_of_before (less y (List.mem_cons_self ..))).1⟩
      · have kin := alike z here
        exact ⟨kindred_trans ((kindred_symm z x).trans kin) kin,
          (hasRank_of_before (less z here)).2⟩

theorem law_of_strange (held : c.elements = x :: rest) (strange : kindred x v = false) :
    c.Faithful v ∨ c.Deviates v := by
  obtain ⟨alike, settled⟩ := ordered.one_kind natural held
  have inside : (0 + c.elements.length) / 2 < c.elements.length := by
    rw [held, List.length_cons]
    omega
  obtain ⟨y, here⟩ : ∃ y, c.elements[(0 + c.elements.length) / 2]? = some y :=
    ⟨_, List.getElem?_eq_getElem inside⟩
  have compares : c.Compares v y := ⟨_, _, .refl .., by omega, here⟩
  have other := (alike y compares.mem).trans strange
  have thrown : c.compare.precedes y v =
      .error (violation (.incomparable (naturalOrder.operand y) (naturalOrder.operand v))) := by
    rw [compare_natural natural, Comparator.precedes, naturalOrder_strange other]
  have found := find_error_iff.mpr ⟨y, compares, thrown⟩
  have removed := step_of_error (.remove v) (remove_error_iff.mpr found)
  have added : ∃ cause, c.step (.add v) = (.error (violation cause), c) ∧
      cause.kind = .invalidArgument := by
    cases nullish : v.isNullish with
    | true => exact ⟨_, step_add_of_nullish nullish, rfl⟩
    | false =>
      exact ⟨_, step_of_error (.add v) ((add_error_iff nullish).mpr found), rfl⟩
  have refused (all : ∀ z ∈ c.elements, kindred z v = true) : False := by
    have first := all x (held ▸ List.mem_cons_self ..)
    cases first.symm.trans strange
  by_cases same : ∀ z ∈ c.elements, coincides z v = false
  · refine .inl ⟨fun _ => added, fun _ all => (refused all).elim, fun all => (refused all).elim,
      fun _ => ⟨⟨_, removed, rfl⟩, same⟩⟩
  · push Not at same
    obtain ⟨z, here, same⟩ := same
    rw [ne_eq, Bool.not_eq_false] at same
    have unordered : kindred z z = false := by
      refine (Bool.not_eq_true _).mp fun ordered => ?_
      cases ((alike z here).trans strange).symm.trans (kindred_of_coincides same ordered)
    rcases settled with rfl | all
    · obtain rfl := List.mem_singleton.mp (held ▸ here)
      exact .inr (.clings held unordered same ⟨_, removed, rfl⟩)
    · cases (all z here).1.symm.trans unordered

theorem law_of_ranked (kin : ∀ y ∈ c.elements, kindred v y = true ∧ hasRank y = true)
    (ordinary : kindred v v = true) (rank : hasRank v = true) : c.Faithful v := by
  have preorder := naturalOrder_totalPreorder v
  rw [← compare_natural natural] at preorder
  have among : c.Ordered fun y => kindred v y = true ∧ hasRank y = true :=
    ⟨preorder.consistent, kin, ordered.ascending⟩
  have ties (y : Value) (here : y ∈ c.elements) :
      c.compare.Answers y v .eq ↔ coincides y v = true := by
    rw [compare_natural natural]
    exact ties_iff_coincides ((kindred_symm y v).trans (kin y here).1) (kin y here).2 rank
  have refused {p : Prop} (strange : ∃ y ∈ c.elements, kindred y v = false) : p := by
    obtain ⟨y, here, strange⟩ := strange
    cases ((kindred_symm v y).trans strange).symm.trans (kin y here).1
  constructor
  case refuses =>
    rintro (strange | strange)
    · cases strange.symm.trans ordinary
    · exact refused strange
  case adds =>
    intro _ _
    obtain ⟨grew, c', added, grows, gains, same⟩ :=
      exists_add preorder among ⟨ordinary, rank⟩ (isNullish_of_kindred ordinary)
    refine ⟨grew, c', step_of_ok (.add v) added, grows.trans ?_, gains, same⟩
    refine forall₂_congr fun y here => ?_
    rw [ties y here, Bool.not_eq_true]
  case removes =>
    intro _
    obtain ⟨shrank, c', removed, shrinks, gains, same⟩ :=
      exists_remove preorder among ⟨ordinary, rank⟩
    refine ⟨shrank, c', step_of_ok (.remove v) removed, shrinks.trans ?_, fun shrank => ?_,
      same⟩
    · refine exists_congr fun y => and_congr_right fun here => ?_
      exact ties y here
    · obtain ⟨y, tie, gains⟩ := gains shrank
      obtain ⟨before, after, -, rfl⟩ := id gains
      have here : y ∈ before ++ y :: after := List.mem_append_right _ (List.mem_cons_self ..)
      exact ⟨y, (ties y here).mp tie, gains⟩
  case declines => exact refused

omit ordered natural in
theorem find_of_ties (held : c.elements = x :: rest)
    (ties : ∀ y ∈ c.elements, c.compare.Answers y v .eq) : c.find v = .ok (0, true) := by
  cases searched : c.search v with
  | error e =>
    obtain ⟨y, compares, thrown⟩ := search_error_iff.mp searched
    cases (ties y compares.mem).precedes_eq.symm.trans thrown
  | ok i =>
    obtain ⟨upto, less, -⟩ := bisectList_bounds searched
    cases i with
    | zero =>
      have tie := ties x (held ▸ List.mem_cons_self ..)
      simp only [find, searched, holdsAt, held, List.getElem?_cons_zero, tie.ties_eq]
      rfl
    | succ i =>
      have inside : i < c.elements.length := upto
      have first := less _ (Nat.succ_pos i) (List.getElem?_eq_getElem inside)
      have tie := ties _ (List.getElem_mem inside)
      cases tie.precedes_eq.symm.trans first

theorem law_of_unranked (held : c.elements = x :: rest)
    (alike : ∀ y ∈ c.elements, kindred y v = true)
    (unranked : ∀ y ∈ c.elements, hasRank y = false ∨ hasRank v = false) :
    c.Faithful v ∨ c.Deviates v := by
  have front : x ∈ c.elements := held ▸ List.mem_cons_self ..
  have kin := alike x front
  have ordinary : kindred v v = true := kindred_trans ((kindred_symm v x).trans kin) kin
  have found : c.find v = .ok (0, true) := by
    refine find_of_ties held fun y here => ?_
    rw [compare_natural natural]
    exact ties_of_unranked (alike y here) (unranked y here)
  have added := step_add_of_held (isNullish_of_kindred ordinary) found
  have removed := step_remove_of_held found
  rw [held, List.eraseIdx_cons_zero] at removed
  cases same : coincides x v with
  | false => exact .inr (.blurs held kin (unranked x front) same added removed)
  | true =>
    -- Both are without a rank, and so the element is the only one.
    have rank := hasRank_eq_of_coincides same
    have none : hasRank x = false := (unranked x front).elim id rank.trans
    obtain ⟨-, rfl | all⟩ := ordered.one_kind natural held (v := v)
    · have refused {p : Prop} (strange : ∃ y ∈ c.elements, kindred y v = false) : p := by
        obtain ⟨y, here, strange⟩ := strange
        cases strange.symm.trans (alike y here)
      left
      constructor
      case refuses =>
        rintro (strange | strange)
        · cases strange.symm.trans ordinary
        · exact refused strange
      case adds =>
        intro _ _
        refine ⟨false, c, added, ?_, fun grew => ?_, fun _ => rfl⟩
        · simp [held, same]
        · cases grew
      case removes =>
        intro _
        refine ⟨true, _, removed, ?_, fun _ => ⟨x, same, [], [], rfl, ?_⟩, fun kept => ?_⟩
        · simp [held, same]
        · rw [List.nil_append, ← held]
        · cases kept
      case declines => exact refused
    · cases (all x front).2.symm.trans none

omit ordered natural in
/-- What is left tells which element was taken out, though not from where. -/
theorem eq_of_cons_append_eq {y : Value} {before after : List Value}
    (same : x :: (before ++ after) = before ++ y :: after) : x = y := by
  induction before generalizing x with
  | nil => exact (List.cons.inj same).1
  | cons z before ih =>
    obtain ⟨rfl, rest⟩ := List.cons.inj same
    exact ih rest

theorem not_faithful_of_deviates (deviates : c.Deviates v) : ¬c.Faithful v := by
  intro faithful
  cases deviates with
  | admits _ _ unordered added =>
    obtain ⟨cause, refused, -⟩ := faithful.refuses (.inl unordered)
    cases added.symm.trans refused
  | @clings x alone unordered same =>
    have front : x ∈ c.elements := alone ▸ List.mem_cons_self ..
    have strange : kindred x v = false := by
      refine (Bool.not_eq_true _).mp fun kin => ?_
      cases unordered.symm.trans (kindred_trans kin ((kindred_symm v x).trans kin))
    cases same.symm.trans ((faithful.declines ⟨x, front, strange⟩).2 x front)
  | @blurs x rest held kin _ apart _ removed =>
    obtain ⟨one, -⟩ := ordered.one_kind natural held (v := v)
    obtain ⟨shrank, c', taken, -, gains, -⟩ := faithful.removes fun y here => (one y here).trans kin
    cases removed.symm.trans taken
    obtain ⟨y, same, before, after, parts, whole⟩ := gains rfl
    have elements : x :: (before ++ after) = before ++ y :: after :=
      (congrArg (x :: ·) parts.symm).trans (held.symm.trans (congrArg SortedSet.elements whole))
    obtain rfl := eq_of_cons_append_eq elements
    cases apart.symm.trans same

theorem faithful_or_deviates : c.Faithful v ∨ c.Deviates v := by
  cases held : c.elements with
  | nil => exact law_of_nil held
  | cons x rest =>
    cases kin : kindred x v with
    | false => exact law_of_strange ordered natural held kin
    | true =>
      obtain ⟨same, settled⟩ := ordered.one_kind natural held (v := v)
      have alike : ∀ y ∈ c.elements, kindred y v = true := fun y here => (same y here).trans kin
      have ordinary : kindred v v = true := kindred_trans ((kindred_symm v x).trans kin) kin
      cases rank : hasRank v with
      | false => exact law_of_unranked ordered natural held alike fun _ _ => .inr rank
      | true =>
        have ranked (all : ∀ y ∈ c.elements, hasRank y = true) : c.Faithful v :=
          law_of_ranked ordered natural
            (fun y here => ⟨(kindred_symm v y).trans (alike y here), all y here⟩) ordinary rank
        rcases settled with rfl | all
        · have only (y : Value) (here : y ∈ c.elements) : y = x :=
            List.mem_singleton.mp (held ▸ here)
          cases first : hasRank x with
          | true => exact .inl (ranked fun y here => (only y here) ▸ first)
          | false =>
            exact law_of_unranked ordered natural held alike fun y here =>
              .inl ((only y here) ▸ first)
        · exact .inl (ranked fun y here => (all y here).2)

theorem faithful_iff : c.Faithful v ↔ ¬c.Deviates v := by
  constructor
  · exact fun faithful deviates => not_faithful_of_deviates ordered natural deviates faithful
  · exact (faithful_or_deviates ordered natural).resolve_right

end States

section Runs

theorem run_same (changes : List Change) :
    (c.run changes).2.name = c.name ∧ (c.run changes).2.order = c.order := by
  induction changes generalizing c with
  | nil => exact ⟨rfl, rfl⟩
  | cons change changes ih =>
    obtain ⟨name, order⟩ := step_same (c := c) change
    obtain ⟨name', order'⟩ := ih (c := (c.step change).2)
    exact ⟨name'.trans name, order'.trans order⟩

theorem Ordered.run (ordered : c.Ordered fun _ => True) (changes : List Change) :
    (c.run changes).2.Ordered fun _ => True := by
  induction changes generalizing c with
  | nil => exact ordered
  | cons change changes ih => exact ih (ordered.step (.inl trivial))

theorem addAll_eq_run {elements : List Value} {c' : SortedSet}
    (added : c.addAll elements = .ok c') : (c.run (elements.map .add)).2 = c' := by
  induction elements generalizing c with
  | nil => exact Except.ok.inj added
  | cons v elements ih =>
    unfold SortedSet.addAll at added
    split at added
    · rename_i grew next first
      have stepped : c.step (.add v) = (.ok grew, next) := step_of_ok (.add v) first
      rw [List.map_cons, SortedSet.run, stepped]
      exact ih added
    · cases added

theorem step_length_le (c : SortedSet) (change : Change) :
    (c.step change).2.elements.length ≤ c.elements.length + 1 := by
  cases result : c.call change with
  | error e =>
    rw [step_of_error change result]
    exact Nat.le_succ _
  | ok answer =>
    obtain ⟨answer, c'⟩ := answer
    rw [step_of_ok change result]
    cases change with
    | add v =>
      simp only [call, SortedSet.add] at result
      split at result
      · cases result
      · split at result
        · cases result
        · cases result
          exact Nat.le_succ _
        · cases result
          simp only [List.length_append, List.length_cons, List.length_take, List.length_drop]
          omega
    | remove v =>
      simp only [call, SortedSet.remove] at result
      split at result
      · cases result
      · cases result
        exact Nat.le_succ_of_le (List.length_eraseIdx_le ..)
      · cases result
        exact Nat.le_succ _

theorem run_length_le (c : SortedSet) (changes : List Change) :
    (c.run changes).2.elements.length ≤ c.elements.length + changes.length := by
  induction changes generalizing c with
  | nil => exact Nat.le_refl _
  | cons change changes ih =>
    have later := ih (c.step change).2
    have now := step_length_le c change
    rw [List.length_cons]
    show ((c.step change).2.run changes).2.elements.length ≤ _
    omega

/-- A set that was made without an order of its own and brought through any calls keeps the law of a
set of naturally ordered values just where it does not deviate. It stays small enough for the middle
of every stretch of it to come out of 32 bits. -/
theorem run_faithful {name : String} {elements : List Value}
    (created : create name elements none = .ok c) (changes : List Change)
    (few : elements.length + changes.length < 2 ^ 31) (v : Value) :
    (∀ low high, low ≤ high → high ≤ (c.run changes).2.elements.length →
      Middle.shifted low high = Middle.upper.position low high) ∧
    ((c.run changes).2.Faithful v ↔ ¬(c.run changes).2.Deviates v) := by
  have empty : SortedSet.Ordered (fun _ => True) ⟨name, [], none⟩ :=
    ⟨naturalOrder_consistent, fun _ _ => trivial, .nil⟩
  obtain rfl := addAll_eq_run created
  constructor
  · intro low high inside upto
    have made := run_length_le ⟨name, [], none⟩ (elements.map .add)
    have run := run_length_le (SortedSet.run ⟨name, [], none⟩ (elements.map .add)).2 changes
    rw [List.length_map, List.length_nil] at made
    exact Middle.shifted_eq_position (by omega) inside
  · refine faithful_iff ((empty.run _).run changes) ?_
    exact ((run_same changes).2.trans (run_same _).2)

def numbers : SortedSet := ⟨"numbers", [.int 1, .int 3, .int 5], none⟩

/-- NaN is taken for a number that is held, and a text is refused. -/
def changesOfNumbers : List Change :=
  [.add (.number .nan), .add (.int 2), .add (.string "4"), .remove (.int 3)]

theorem run_faithful_numbers :
    create "numbers" [.int 5, .int 1, .int 3, .int 1] none = .ok numbers ∧
      4 + changesOfNumbers.length < 2 ^ 31 ∧
      numbers.run changesOfNumbers =
        ([.ok false, .ok true, .error (violation (.incomparable "number" "string")), .ok true],
          ⟨"numbers", [.int 1, .int 2, .int 5], none⟩) ∧
      (numbers.run changesOfNumbers).2.Faithful (.int 2) := by
  have created : create "numbers" [.int 5, .int 1, .int 3, .int 1] none = .ok numbers := rfl
  have ran : numbers.run changesOfNumbers =
      ([.ok false, .ok true, .error (violation (.incomparable "number" "string")), .ok true],
        ⟨"numbers", [.int 1, .int 2, .int 5], none⟩) := rfl
  have few : 4 + changesOfNumbers.length < 2 ^ 31 := by decide
  refine ⟨created, few, ran,
    (run_faithful created changesOfNumbers few (.int 2)).2.mpr fun deviates => ?_⟩
  -- None of the deviations: the set is not empty, and all of its values have a rank.
  rw [ran] at deviates
  cases deviates with
  | admits empty => cases empty
  | clings alone => cases alone
  | blurs held _ unranked =>
    cases held
    rcases unranked with none | none <;> cases none

/-- A set of 5 does not hold NaN. It still refuses to add it, and to remove it takes out 5. An empty
set takes in an object, which it does not find again. -/
theorem run_deviates :
    (∃ c, create "numbers" [.int 5] none = .ok c ∧ coincides (.int 5) (.number .nan) = false ∧
      c.run [.add (.number .nan), .remove (.number .nan)] =
        ([.ok false, .ok true], ⟨"numbers", [], none⟩) ∧ ¬c.Faithful (.number .nan)) ∧
    (∃ c, create "objects" [] none = .ok c ∧
      c.run [.add (.object [] 1), .remove (.object [] 1)] =
        ([.ok true, .error (violation (.incomparable "object" "object"))],
          ⟨"objects", [.object [] 1], none⟩) ∧ ¬c.Faithful (.object [] 1)) := by
  refine ⟨⟨⟨"numbers", [.int 5], none⟩, rfl, rfl, rfl, fun faithful => ?_⟩,
    ⟨⟨"objects", [], none⟩, rfl, rfl, fun faithful => ?_⟩⟩
  · have alike : ∀ x ∈ [Value.int 5], kindred x (.number .nan) = true := by decide
    obtain ⟨shrank, c', removed, shrinks, -⟩ := faithful.removes alike
    cases removed
    have held := shrinks.mp rfl
    revert held
    decide
  · obtain ⟨cause, added, -⟩ := faithful.refuses (.inl rfl)
    cases added

end Runs

end SortedSet
end SplitTraversal
