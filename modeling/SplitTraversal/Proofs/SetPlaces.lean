import SplitTraversal.Proofs.SortedSets

/-! The search for the place of a value in a sorted set. Under a total preorder it always ends, what
stands before the place is less and what stands after it is greater, and an element that compares
equal stands at the place itself. Under any order it throws just what one of its comparisons throws. -/

namespace SplitTraversal

section Halving

variable {ε : Type} {middle : Middle} {goRight : Nat → Except ε Bool} {low high : Nat}

inductive Halved (middle : Middle) (goRight : Nat → Except ε Bool) : Nat → Nat → Nat → Nat → Prop
  | refl (low high : Nat) : Halved middle goRight low high low high
  | half {low high low' high' : Nat} {right : Bool} (more : low < high)
      (asked : goRight (middle.position low high) = .ok right)
      (halved : Halved middle goRight (if right then middle.position low high + 1 else low)
        (if right then high else middle.position low high) low' high') :
      Halved middle goRight low high low' high'

theorem bisect_of_ok {fuel : Nat} {right : Bool} (more : low < high)
    (asked : goRight (middle.position low high) = .ok right) :
    bisect middle goRight (fuel + 1) low high =
      bisect middle goRight fuel (if right then middle.position low high + 1 else low)
        (if right then high else middle.position low high) := by
  rw [bisect, if_pos more]
  cases right <;> simp [asked]

theorem bisect_error_iff {fuel : Nat} {e : ε} (enough : high - low ≤ fuel) :
    bisect middle goRight fuel low high = .error e ↔
      ∃ low' high', Halved middle goRight low high low' high' ∧ low' < high' ∧
        goRight (middle.position low' high') = .error e := by
  induction fuel generalizing low high with
  | zero =>
    refine iff_of_false (fun thrown => by cases thrown) ?_
    rintro ⟨low', high', halved, more, -⟩
    cases halved <;> omega
  | succ fuel ih =>
    by_cases more : low < high
    · obtain ⟨above, below⟩ := middle.position_bounds more
      cases asked : goRight (middle.position low high) with
      | error e' =>
        rw [bisect, if_pos more]
        simp only [asked, Except.error.injEq]
        constructor
        · rintro rfl
          exact ⟨low, high, .refl .., more, asked⟩
        · rintro ⟨low', high', halved, -, thrown⟩
          cases halved with
          | refl => exact Except.error.inj (asked.symm.trans thrown)
          | half _ answered => cases asked.symm.trans answered
      | ok right =>
        rw [bisect_of_ok more asked, ih (by split <;> omega)]
        constructor
        · rintro ⟨low', high', halved, rest⟩
          exact ⟨low', high', .half more asked halved, rest⟩
        · rintro ⟨low', high', halved, more', thrown⟩
          cases halved with
          | refl => cases asked.symm.trans thrown
          | half _ answered halved =>
            cases asked.symm.trans answered
            exact ⟨low', high', halved, more', thrown⟩
    · rw [bisect, if_neg more]
      refine iff_of_false (fun thrown => by cases thrown) ?_
      rintro ⟨low', high', halved, more', -⟩
      cases halved <;> omega

end Halving

namespace SortedSet

variable {among : Value → Prop} {c c' : SortedSet} {v x : Value} {i : Nat} {e : Thrown}

section Errors

def Compares (c : SortedSet) (v x : Value) : Prop :=
  ∃ low high, Halved .upper (elementTest (c.compare.precedes · v) c.elements)
      0 c.elements.length low high ∧
    low < high ∧ c.elements[(low + high) / 2]? = some x

theorem Compares.mem (compares : c.Compares v x) : x ∈ c.elements := by
  obtain ⟨_, _, _, _, here⟩ := compares
  exact List.mem_of_getElem? here

theorem search_error_iff :
    c.search v = .error e ↔ ∃ x, c.Compares v x ∧ c.compare.precedes x v = .error e := by
  rw [search, bisectList, bisect_error_iff (Nat.sub_le _ _)]
  constructor
  · rintro ⟨low, high, halved, more, thrown⟩
    unfold elementTest at thrown
    split at thrown
    · rename_i x here
      exact ⟨x, ⟨low, high, halved, more, here⟩, thrown⟩
    · cases thrown
  · rintro ⟨x, ⟨low, high, halved, more, here⟩, thrown⟩
    refine ⟨low, high, halved, more, ?_⟩
    simp only [elementTest, Middle.position, here]
    exact thrown

/-- The element at the place that was found has been compared already, so it can be once more. -/
theorem exists_holdsAt (searched : c.search v = .ok i) : ∃ found, c.holdsAt v i = .ok found := by
  unfold holdsAt
  split
  · exact ⟨false, rfl⟩
  · rename_i x here
    have notLess := (bisectList_bounds searched).2.2 x here
    unfold Comparator.precedes at notLess
    unfold Comparator.ties
    cases answer : c.compare x v with
    | ok sign => exact ⟨_, rfl⟩
    | error e => simp only [answer, reduceCtorEq] at notLess

theorem find_error_iff :
    c.find v = .error e ↔ ∃ x, c.Compares v x ∧ c.compare.precedes x v = .error e := by
  rw [← search_error_iff, find]
  cases searched : c.search v with
  | error e' => simp only [Except.error.injEq]
  | ok i =>
    obtain ⟨found, held⟩ := exists_holdsAt searched
    simp only [held, reduceCtorEq]

end Errors

section Places

theorem Ordered.lt_iff (ordered : c.Ordered among) (fits : among v)
    (searched : c.search v = .ok i) {j : Nat} (here : c.elements[j]? = some x) :
    c.compare.Answers x v .lt ↔ j < i := by
  obtain ⟨upto, less, notLess⟩ := bisectList_bounds searched
  obtain ⟨inside, rfl⟩ := List.getElem?_eq_some_iff.mp here
  have among_at (k : Nat) (inside : k < c.elements.length) : among c.elements[k] :=
    ordered.held _ (List.getElem_mem inside)
  have onward := List.pairwise_iff_getElem.mp ordered.ascending
  constructor
  · intro less_x
    refine Nat.lt_of_not_le fun later => ?_
    have inside' : i < c.elements.length := by omega
    have less_i : c.compare.Answers c.elements[i] v .lt := by
      by_cases same : i = j
      · subst same
        exact less_x
      · exact ordered.consistent.trans (among_at i inside') (among_at j inside) fits
          (onward i j inside' inside (by omega)) less_x
    have refused := notLess _ (List.getElem?_eq_getElem inside')
    cases less_i.precedes_eq.symm.trans refused
  · intro before
    have inside' : i - 1 < c.elements.length := by omega
    have last := ordered.consistent.lt_of_precedes (among_at _ inside') fits
      (less _ (by omega) (List.getElem?_eq_getElem inside'))
    by_cases same : j = i - 1
    · subst same
      exact last
    · exact ordered.consistent.trans (among_at j inside) (among_at _ inside') fits
        (onward j (i - 1) inside inside' (by omega)) last

variable (preorder : c.compare.TotalPreorder among)
include preorder

theorem exists_search (ordered : c.Ordered among) (fits : among v) :
    ∃ i, i ≤ c.elements.length ∧ c.search v = .ok i := by
  cases searched : c.search v with
  | ok i => exact ⟨i, (bisectList_bounds searched).1, rfl⟩
  | error e =>
    obtain ⟨x, compares, thrown⟩ := search_error_iff.mp searched
    obtain ⟨sign, answers⟩ := preorder.total (ordered.held x compares.mem) fits
    cases answers.precedes_eq.symm.trans thrown

omit preorder in
/-- What stands before the place of a value is less, what stands after it is greater, and at the
place itself there is nothing or an element that compares equal. -/
inductive Placed (c : SortedSet) (v : Value) : Nat → Bool → Prop
  | missing {before after : List Value} (parts : c.elements = before ++ after)
      (less : ∀ x ∈ before, c.compare.Answers x v .lt)
      (more : ∀ x ∈ after, c.compare.Answers x v .gt) : c.Placed v before.length false
  | held {before after : List Value} {x : Value} (parts : c.elements = before ++ x :: after)
      (less : ∀ x ∈ before, c.compare.Answers x v .lt) (ties : c.compare.Answers x v .eq)
      (more : ∀ x ∈ after, c.compare.Answers x v .gt) : c.Placed v before.length true

theorem exists_placed (ordered : c.Ordered among) (fits : among v) :
    ∃ i found, c.find v = .ok (i, found) ∧ c.Placed v i found := by
  obtain ⟨i, upto, searched⟩ := exists_search preorder ordered fits
  have length : (c.elements.take i).length = i := List.length_take_of_le upto
  have less : ∀ x ∈ c.elements.take i, c.compare.Answers x v .lt := by
    intro x here
    obtain ⟨j, inside, rfl⟩ := List.mem_take_iff_getElem.mp here
    exact (ordered.lt_iff fits searched (List.getElem?_eq_getElem (by omega))).mpr (by omega)
  by_cases inside : i < c.elements.length
  · have here := List.getElem?_eq_getElem inside
    have among_x := ordered.held _ (List.getElem_mem inside)
    obtain ⟨sign, answers⟩ := preorder.total among_x fits
    have notLess : sign ≠ .lt := by
      rintro rfl
      exact absurd ((ordered.lt_iff fits searched here).mp answers) (Nat.lt_irrefl i)
    have parts : c.elements = c.elements.take i ++ c.elements[i] :: c.elements.drop (i + 1) := by
      rw [← List.drop_eq_getElem_cons inside, List.take_append_drop]
    have more : ∀ y ∈ c.elements.drop (i + 1), c.compare.Answers y v .gt := by
      intro y there
      have among_y := ordered.held y (List.mem_of_mem_drop there)
      have ascending := ordered.ascending
      rw [parts, List.pairwise_append, List.pairwise_cons] at ascending
      have before := preorder.lt_of_isLE_of_lt fits among_x among_y
        (preorder.swap among_x fits answers) (by cases sign <;> first | rfl | contradiction)
        (ascending.2.1.1 y there)
      exact preorder.swap fits among_y before
    have found : c.find v = .ok (i, sign == .eq) := by
      simp only [find, searched, holdsAt, here, answers.ties_eq]
    refine ⟨i, _, found, ?_⟩
    cases sign with
    | lt => contradiction
    | eq =>
      have placed := Placed.held parts less answers more
      rwa [length] at placed
    | gt =>
      have placed := Placed.missing parts less (List.forall_mem_cons.mpr ⟨answers, more⟩)
      rwa [length] at placed
  · have none : c.elements[i]? = none := List.getElem?_eq_none (by omega)
    have found : c.find v = .ok (i, false) := by
      simp only [find, searched, holdsAt, none]
    refine ⟨i, false, found, ?_⟩
    have parts : c.elements = c.elements.take i ++ [] := by
      rw [List.append_nil, List.take_of_length_le (by omega)]
    have placed := Placed.missing parts less fun _ none => (List.not_mem_nil none).elim
    rwa [length] at placed

end Places

theorem Placed.found_iff {found : Bool} (placed : c.Placed v i found) :
    found = true ↔ ∃ x ∈ c.elements, c.compare.Answers x v .eq := by
  cases placed with
  | held parts less ties more =>
    exact iff_of_true rfl ⟨_, parts ▸ List.mem_append_right _ (List.mem_cons_self ..), ties⟩
  | missing parts less more =>
    refine iff_of_false nofun ?_
    rintro ⟨x, here, ties⟩
    rw [parts, List.mem_append] at here
    rcases here with here | here
    · cases ties.unique (less x here)
    · cases ties.unique (more x here)

end SortedSet
end SplitTraversal
