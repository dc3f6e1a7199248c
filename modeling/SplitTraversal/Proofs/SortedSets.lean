import SplitTraversal.Collection.Basic
import SplitTraversal.Proofs.ComparatorSigns

/-! What the sample collections hold in every state that they can be brought into. A sorted set is
strictly ascending at all times: the search ends where the element before is less and the element
there is not, so an element that ties with neither goes between the two. -/

namespace SplitTraversal

section Search

variable {ε α : Type}

/-- The search ends behind a position at which the test holds, and at one that it refuses. -/
theorem bisect_bounds {middle : Middle} {goRight : Nat → Except ε Bool} {fuel low high i : Nat}
    (within : low ≤ high) (enough : high - low ≤ fuel)
    (found : bisect middle goRight fuel low high = .ok i) :
    low ≤ i ∧ i ≤ high ∧ (low < i → goRight (i - 1) = .ok true) ∧
      (i < high → goRight i = .ok false) := by
  induction fuel generalizing low high with
  | zero =>
    cases found
    exact ⟨Nat.le_refl _, within, fun more => absurd more (Nat.lt_irrefl _), by omega⟩
  | succ fuel ih =>
    by_cases more : low < high
    · obtain ⟨above, below⟩ := middle.position_bounds more
      rw [bisect, if_pos more] at found
      cases asked : goRight (middle.position low high) with
      | error e => simp only [asked, reduceCtorEq] at found
      | ok right =>
        simp only [asked] at found
        cases right with
        | true =>
          obtain ⟨from', upto, left, here⟩ := ih (by omega) (by omega) found
          refine ⟨by omega, upto, fun _ => ?_, here⟩
          by_cases first : middle.position low high + 1 < i
          · exact left first
          · rw [show i - 1 = middle.position low high by omega, asked]
        | false =>
          obtain ⟨from', upto, left, here⟩ := ih above (by omega) found
          refine ⟨from', by omega, left, fun _ => ?_⟩
          by_cases last : i < middle.position low high
          · exact here last
          · rw [show i = middle.position low high by omega, asked]
    · rw [bisect, if_neg more] at found
      cases found
      exact ⟨Nat.le_refl _, within, fun more => absurd more (Nat.lt_irrefl _), by omega⟩

theorem bisectList_bounds {goRight : α → Except ε Bool} {xs : List α} {i : Nat}
    (found : bisectList goRight xs = .ok i) :
    i ≤ xs.length ∧ (∀ x, 0 < i → xs[i - 1]? = some x → goRight x = .ok true) ∧
      ∀ x, xs[i]? = some x → goRight x = .ok false := by
  obtain ⟨_, upto, left, here⟩ := bisect_bounds (Nat.zero_le _) (Nat.sub_le _ _) found
  refine ⟨upto, fun x some at_x => ?_, fun x at_x => ?_⟩
  · simpa only [elementTest, at_x] using left some
  · have inside := (List.getElem?_eq_some_iff.mp at_x).1
    simpa only [elementTest, at_x] using here inside

theorem pairwise_insert {R : α → α → Prop} {among : α → Prop}
    (transitive : ∀ {x y z}, among x → among y → among z → R x y → R y z → R x z) {xs : List α}
    {v : α} {i : Nat} (upto : i ≤ xs.length) (held : ∀ x ∈ xs, among x) (fits : among v)
    (ascending : xs.Pairwise R) (left : ∀ x, 0 < i → xs[i - 1]? = some x → R x v)
    (right : ∀ x, xs[i]? = some x → R v x) : (xs.take i ++ v :: xs.drop i).Pairwise R := by
  have before : ∀ x ∈ xs.take i, R x v := by
    intro x here
    obtain ⟨j, inside, rfl⟩ := List.mem_take_iff_getElem.mp here
    by_cases last : j = i - 1
    · subst last
      exact left _ (by omega) (List.getElem?_eq_getElem _)
    · have next := left _ (by omega) (List.getElem?_eq_getElem (show i - 1 < xs.length by omega))
      have onward := List.pairwise_iff_getElem.mp ascending j (i - 1) (by omega) (by omega)
        (by omega)
      exact transitive (held _ (List.getElem_mem _)) (held _ (List.getElem_mem _)) fits onward next
  have after : ∀ x ∈ xs.drop i, R v x := by
    intro x here
    obtain ⟨j, inside, rfl⟩ := List.mem_drop_iff_getElem.mp here
    cases j with
    | zero => exact right _ (List.getElem?_eq_getElem (by omega))
    | succ j =>
      have next := right _ (List.getElem?_eq_getElem (show i < xs.length by omega))
      have onward := List.pairwise_iff_getElem.mp ascending i (i + (j + 1)) (by omega) (by omega)
        (by omega)
      exact transitive fits (held _ (List.getElem_mem _)) (held _ (List.getElem_mem _)) next onward
  rw [← List.take_append_drop i xs, List.pairwise_append] at ascending
  refine List.pairwise_append.mpr ⟨ascending.1, List.pairwise_cons.mpr ⟨after, ascending.2.1⟩, ?_⟩
  intro x here y there
  rcases List.mem_cons.mp there with rfl | later
  · exact before x here
  · exact ascending.2.2 x here y later

end Search

theorem Comparator.isOrdered_of_ascending {α : Type} {compare : Comparator α} {xs : List α}
    (ascending : xs.Pairwise fun a b => compare.Answers a b .lt) :
    compare.isOrdered xs = .ok true := by
  induction xs with
  | nil => rfl
  | cons a rest ih =>
    rw [List.pairwise_cons] at ascending
    cases rest with
    | nil => rfl
    | cons b rest =>
      have next := (ascending.1 b (List.mem_cons_self ..)).follows_eq
      rw [isOrdered, next]
      exact ih ascending.2

namespace SortedSet

variable {among : Value → Prop} {c c' : SortedSet} {v : Value} {i : Nat}

/-- The order is consistent on what the set may hold, and what it holds is strictly ascending. -/
structure Ordered (among : Value → Prop) (c : SortedSet) : Prop where
  consistent : c.compare.Consistent among
  held : ∀ x ∈ c.elements, among x
  ascending : c.elements.Pairwise fun a b => c.compare.Answers a b .lt

theorem Ordered.find_missing (ordered : c.Ordered among) (fits : among v)
    (missing : c.find v = .ok (i, false)) :
    i ≤ c.elements.length ∧
      (∀ x, 0 < i → c.elements[i - 1]? = some x → c.compare.Answers x v .lt) ∧
      ∀ x, c.elements[i]? = some x → c.compare.Answers v x .lt := by
  unfold find at missing
  cases searched : c.search v with
  | error e => simp only [searched, reduceCtorEq] at missing
  | ok j =>
    simp only [searched] at missing
    cases tied : c.holdsAt v j with
    | error e => simp only [tied, reduceCtorEq] at missing
    | ok there =>
      simp only [tied, Except.ok.injEq, Prod.mk.injEq] at missing
      obtain ⟨rfl, rfl⟩ := missing
      obtain ⟨upto, less, notLess⟩ := bisectList_bounds searched
      refine ⟨upto, fun x some at_x => ?_, fun x at_x => ?_⟩
      · have among_x := ordered.held x (List.mem_of_getElem? at_x)
        exact ordered.consistent.lt_of_precedes among_x fits (less x some at_x)
      · have among_x := ordered.held x (List.mem_of_getElem? at_x)
        obtain ⟨sign, answers, first⟩ :=
          ordered.consistent.sign_of_precedes among_x fits (notLess x at_x)
        have untied : c.compare.ties x v = .ok false := by
          simpa only [holdsAt, at_x] using tied
        have second := answers.ties_eq.symm.trans untied
        cases sign with
        | gt => exact ordered.consistent.swap among_x fits answers
        | lt => cases first
        | eq => cases second

theorem Ordered.add (ordered : c.Ordered among) (fits : v.isNullish = false → among v)
    {grew : Bool} (added : c.add v = .ok (grew, c')) : c'.Ordered among := by
  unfold SortedSet.add at added
  cases nullish : v.isNullish with
  | true =>
    simp only [nullish, if_true, reduceCtorEq] at added
  | false =>
    simp only [nullish, Bool.false_eq_true, if_false] at added
    split at added
    · cases added
    · cases added
      exact ordered
    · rename_i i missing
      cases added
      obtain ⟨upto, left, right⟩ := ordered.find_missing (fits nullish) missing
      refine ⟨ordered.consistent, ?_, pairwise_insert ordered.consistent.trans upto ordered.held
        (fits nullish) ordered.ascending left right⟩
      refine List.forall_mem_append.mpr ⟨fun x here => ordered.held x (List.mem_of_mem_take here),
        List.forall_mem_cons.mpr ⟨fits nullish, fun x here =>
          ordered.held x (List.mem_of_mem_drop here)⟩⟩

theorem Ordered.remove (ordered : c.Ordered among) {shrank : Bool}
    (removed : c.remove v = .ok (shrank, c')) : c'.Ordered among := by
  unfold SortedSet.remove at removed
  split at removed
  · cases removed
  · rename_i i found
    cases removed
    have fewer := List.eraseIdx_sublist c.elements i
    exact ⟨ordered.consistent, fun x here => ordered.held x (fewer.subset here),
      ordered.ascending.sublist fewer⟩
  · cases removed
    exact ordered

theorem Ordered.addAll {elements : List Value} (ordered : c.Ordered among)
    (fit : ∀ v ∈ elements, v.isNullish = false → among v)
    (added : c.addAll elements = .ok c') : c'.Ordered among := by
  induction elements generalizing c with
  | nil =>
    cases added
    exact ordered
  | cons v rest ih =>
    rw [List.forall_mem_cons] at fit
    unfold SortedSet.addAll at added
    split at added
    · rename_i grew c'' first
      exact ih (ordered.add fit.1 first) fit.2 added
    · cases added

theorem Ordered.isOrdered (ordered : c.Ordered among) : c.compare.isOrdered c.elements = .ok true :=
  Comparator.isOrdered_of_ascending ordered.ascending

/-- The order is natural order, or a total preorder of these values. -/
def Lawful (among : Value → Prop) (order : Option (Comparator Value)) : Prop :=
  ∀ compare, order = some compare → compare.TotalPreorder among

theorem Lawful.consistent {order : Option (Comparator Value)} (lawful : Lawful among order) :
    (order.getD naturalOrder).Consistent among := by
  cases order with
  | none =>
    have natural := Value.naturalOrder_consistent
    exact ⟨fun _ _ => natural.answered trivial trivial, fun _ _ => natural.swap trivial trivial,
      fun _ _ _ => natural.trans trivial trivial trivial⟩
  | some compare => exact (lawful compare rfl).consistent

end SortedSet

namespace Collection

variable {among : Value → Prop}

def after (c : Collection) : Except Thrown (Value × Collection) → Collection
  | .ok (_, c') => c'
  | .error _ => c

/-- The sample collections as they may come to be: built, and then changed by any calls of `add` and
`remove`, whether these succeed, refuse or throw. Sets with an order of their own are given only
values that it orders; any value may be looked for. -/
inductive Sample (among : Value → Prop) : Collection → Prop
  | arrayList (c : ArrayList) : Sample among (.arrayList c)
  | immutableList (c : ImmutableList) : Sample among (.immutableList c)
  | single (c : Single) : Sample among (.single c)
  | sortedSet {name : String} {elements : List Value} {order : Option (Comparator Value)}
      {c : SortedSet} (lawful : SortedSet.Lawful among order)
      (fit : ∀ v ∈ elements, v.isNullish = false → among v)
      (created : SortedSet.create name elements order = .ok c) : Sample among (.sortedSet c)
  | added {c : Collection} (sample : Sample among c) (v : Value)
      (fits : v.isNullish = false → among v) : Sample among (c.after (c.add v))
  | removed {c : Collection} (sample : Sample among c) (v : Value) :
      Sample among (c.after (c.remove v))

/-- What holds of sample collections in all states. -/
def Sound (among : Value → Prop) : Collection → Prop
  | .sortedSet c => c.Ordered among
  | .custom _ _ => False
  | _ => True

theorem Sample.sound {c : Collection} (sample : Sample among c) : c.Sound among := by
  induction sample with
  | arrayList | immutableList | single => trivial
  | sortedSet lawful fit created =>
    refine SortedSet.Ordered.addAll ⟨?_, fun _ none => (List.not_mem_nil none).elim, .nil⟩ fit
      created
    exact lawful.consistent
  | @added c _ v fits ih =>
    cases c with
    | sortedSet set =>
      cases result : set.add v with
      | error e => simpa only [add, result, after] using ih
      | ok answer =>
        obtain ⟨grew, set'⟩ := answer
        simp only [add, result, after]
        exact SortedSet.Ordered.add ih fits result
    | custom => exact ih
    | _ => trivial
  | @removed c _ v ih =>
    cases c with
    | sortedSet set =>
      cases result : set.remove v with
      | error e => simpa only [remove, result, after] using ih
      | ok answer =>
        obtain ⟨shrank, set'⟩ := answer
        simp only [remove, result, after]
        exact SortedSet.Ordered.remove ih result
    | custom => exact ih
    | _ => trivial

end Collection
end SplitTraversal
