import Mathlib.Data.Set.Card
import SplitTraversal.Proofs.SetPlaces

/-! A sorted set is the mathematical set of the classes of what was added and not removed since, for
every order that is a total preorder of the values used: one element stands for its class, the first
that came. A call that throws changes nothing. -/

namespace SplitTraversal.SortedSet

variable {among : Value → Prop} {c c' : SortedSet} {v x : Value} {e : Thrown}

inductive Change where
  | add (v : Value)
  | remove (v : Value)

def Change.value : Change → Value
  | .add v => v
  | .remove v => v

def call (c : SortedSet) : Change → Except Thrown (Bool × SortedSet)
  | .add v => c.add v
  | .remove v => c.remove v

def step (c : SortedSet) (change : Change) : Except Thrown Bool × SortedSet :=
  match c.call change with
  | .ok (answer, c') => (.ok answer, c')
  | .error e => (.error e, c)

def run (c : SortedSet) : List Change → List (Except Thrown Bool) × SortedSet
  | [] => ([], c)
  | change :: rest =>
    ((c.step change).1 :: ((c.step change).2.run rest).1, ((c.step change).2.run rest).2)

inductive Refuses (c : SortedSet) : Change → Thrown → Prop
  | nullish {v : Value} (nullish : v.isNullish = true) :
      c.Refuses (.add v) (.violation (.nullElement c.name))
  | add {v x : Value} {e : Thrown} (some : v.isNullish = false) (compares : c.Compares v x)
      (thrown : c.compare.precedes x v = .error e) : c.Refuses (.add v) e
  | remove {v x : Value} {e : Thrown} (compares : c.Compares v x)
      (thrown : c.compare.precedes x v = .error e) : c.Refuses (.remove v) e

theorem add_error_iff (some : v.isNullish = false) :
    c.add v = .error e ↔ c.find v = .error e := by
  rw [SortedSet.add, some, if_neg Bool.false_ne_true]
  cases c.find v with
  | error e' => simp only [Except.error.injEq]
  | ok place =>
    obtain ⟨i, held⟩ := place
    cases held <;> simp only [reduceCtorEq]

theorem remove_error_iff : c.remove v = .error e ↔ c.find v = .error e := by
  rw [SortedSet.remove]
  cases c.find v with
  | error e' => simp only [Except.error.injEq]
  | ok place =>
    obtain ⟨i, held⟩ := place
    cases held <;> simp only [reduceCtorEq]

theorem call_error_iff {change : Change} :
    c.call change = .error e ↔ c.Refuses change e := by
  constructor
  · intro thrown
    cases change with
    | add v =>
      cases nullish : v.isNullish with
      | true =>
        rw [call, SortedSet.add, nullish, if_pos rfl] at thrown
        cases thrown
        exact .nullish nullish
      | false =>
        obtain ⟨x, compares, raised⟩ := find_error_iff.mp ((add_error_iff nullish).mp thrown)
        exact .add nullish compares raised
    | remove v =>
      obtain ⟨x, compares, raised⟩ := find_error_iff.mp (remove_error_iff.mp thrown)
      exact .remove compares raised
  · intro refuses
    cases refuses with
    | nullish nullish => rw [call, SortedSet.add, nullish, if_pos rfl]
    | add some compares thrown =>
      exact (add_error_iff some).mpr (find_error_iff.mpr ⟨_, compares, thrown⟩)
    | remove compares thrown =>
      exact remove_error_iff.mpr (find_error_iff.mpr ⟨_, compares, thrown⟩)

/-- The second set holds what the first does and `v`, at some place among the rest. -/
def Gains (v : Value) (c c' : SortedSet) : Prop :=
  ∃ before after, c.elements = before ++ after ∧ c' = { c with elements := before ++ v :: after }

section Calls

variable (preorder : c.compare.TotalPreorder among)
include preorder

theorem exists_add (ordered : c.Ordered among) (fits : among v) (some : v.isNullish = false) :
    ∃ grew c', c.add v = .ok (grew, c') ∧
      (grew = true ↔ ∀ x ∈ c.elements, ¬ c.compare.Answers x v .eq) ∧
      (grew = true → c.Gains v c') ∧ (grew = false → c' = c) := by
  obtain ⟨i, held, found, placed⟩ := exists_placed preorder ordered fits
  have untied : held = false ↔ ∀ x ∈ c.elements, ¬ c.compare.Answers x v .eq := by
    rw [← Bool.not_eq_true, placed.found_iff]
    push Not
    rfl
  cases placed with
  | held parts =>
    have added : c.add v = .ok (false, c) := by
      simp only [SortedSet.add, some, Bool.false_eq_true, if_false, found]
    exact ⟨false, c, added, by simpa using untied, nofun, fun _ => rfl⟩
  | @missing before after parts =>
    have added : c.add v = .ok (true, { c with elements := before ++ v :: after }) := by
      simp only [SortedSet.add, some, Bool.false_eq_true, if_false, found, parts,
        List.take_left', List.drop_left']
    exact ⟨true, _, added, by simpa using untied, fun _ => ⟨before, after, parts, rfl⟩, nofun⟩

theorem exists_remove (ordered : c.Ordered among) (fits : among v) :
    ∃ shrank c', c.remove v = .ok (shrank, c') ∧
      (shrank = true ↔ ∃ x ∈ c.elements, c.compare.Answers x v .eq) ∧
      (shrank = true → ∃ x, c.compare.Answers x v .eq ∧ c'.Gains x c) ∧
      (shrank = false → c' = c) := by
  obtain ⟨i, held, found, placed⟩ := exists_placed preorder ordered fits
  have tied := placed.found_iff
  cases placed with
  | @held before after x parts less ties =>
    have removed : c.remove v = .ok (true, { c with elements := before ++ after }) := by
      simp only [SortedSet.remove, found, parts, List.eraseIdx_append_of_length_le le_rfl,
        Nat.sub_self, List.eraseIdx_cons_zero]
    refine ⟨true, _, removed, tied, fun _ => ⟨x, ties, before, after, rfl, ?_⟩, nofun⟩
    rw [← parts]
  | missing parts =>
    have removed : c.remove v = .ok (false, c) := by
      simp only [SortedSet.remove, found]
    exact ⟨false, c, removed, tied, nofun, fun _ => rfl⟩

end Calls

section Classes

/-- The values that may be used and compare equal to this one. -/
def classOf (compare : Comparator Value) (among : Value → Prop) (v : Value) : Set Value :=
  {x | among x ∧ compare.Answers x v .eq}

def classes (among : Value → Prop) (c : SortedSet) : Set (Set Value) :=
  classOf c.compare among '' {x | x ∈ c.elements}

theorem Gains.classes_eq (gains : c.Gains v c') :
    c'.classes among = insert (classOf c.compare among v) (c.classes among) := by
  obtain ⟨before, after, parts, rfl⟩ := gains
  rw [classes, classes, ← Set.image_insert_eq]
  refine congrArg _ (Set.ext fun x => ?_)
  simp only [parts, Set.mem_ofPred_eq, Set.mem_insert_iff, List.mem_append, List.mem_cons]
  exact or_left_comm

variable (preorder : c.compare.TotalPreorder among)
include preorder

theorem classOf_eq_iff {w : Value} (left : among v) (right : among w) :
    classOf c.compare among v = classOf c.compare among w ↔ c.compare.Answers v w .eq := by
  constructor
  · intro same
    have own : v ∈ classOf c.compare among v := ⟨left, preorder.self left⟩
    rw [same] at own
    exact own.2
  · intro ties
    refine Set.ext fun x => and_congr_right fun fits => ⟨fun below => ?_, fun below => ?_⟩
    · exact preorder.tie_trans fits left right below ties
    · exact preorder.tie_trans fits right left below (preorder.swap left right ties)

theorem mem_classes_iff (ordered : c.Ordered among) (fits : among v) :
    classOf c.compare among v ∈ c.classes among ↔
      ∃ x ∈ c.elements, c.compare.Answers x v .eq := by
  constructor
  · rintro ⟨x, here, same⟩
    exact ⟨x, here, (classOf_eq_iff preorder (ordered.held x here) fits).mp same⟩
  · rintro ⟨x, here, ties⟩
    exact ⟨x, here, (classOf_eq_iff preorder (ordered.held x here) fits).mpr ties⟩

theorem nodup_classes (ordered : c.Ordered among) :
    (c.elements.map (classOf c.compare among)).Nodup := by
  refine List.pairwise_map.mpr (ordered.ascending.imp_of_mem fun left right less same => ?_)
  have ties := (classOf_eq_iff preorder (ordered.held _ left) (ordered.held _ right)).mp same
  cases less.unique ties

theorem ncard_classes (ordered : c.Ordered among) :
    (c.classes among).ncard = c.elements.length := by
  classical
  have whole : c.classes among = (c.elements.map (classOf c.compare among)).toFinset := by
    ext k
    simp [classes]
  rw [whole, Set.ncard_coe_finset, List.toFinset_card_of_nodup (nodup_classes preorder ordered),
    List.length_map]

theorem Gains.notMem_classes (ordered : c.Ordered among) (gains : c'.Gains x c) :
    classOf c.compare among x ∉ c'.classes among := by
  obtain ⟨before, after, parts, rfl⟩ := gains
  rintro ⟨y, here, same⟩
  have nodup := nodup_classes preorder ordered
  have first : (before ++ x :: after).Perm (x :: (before ++ after)) := List.perm_middle
  have apart := (List.nodup_cons.mp ((first.map _).nodup_iff.mp nodup)).1
  rw [← parts] at apart
  exact apart (List.mem_map.mpr ⟨y, here, same⟩)

theorem classes_of_add (ordered : c.Ordered among) (fits : among v) {grew : Bool}
    (added : c.add v = .ok (grew, c')) :
    (grew = true ↔ classOf c.compare among v ∉ c.classes among) ∧
      c'.classes among = insert (classOf c.compare among v) (c.classes among) := by
  have some : v.isNullish = false := by
    by_contra nullish
    rw [SortedSet.add, (Bool.not_eq_false _).mp nullish, if_pos rfl] at added
    cases added
  obtain ⟨_, _, again, grows, gains, same⟩ := exists_add preorder ordered fits some
  cases added.symm.trans again
  have grows : grew = true ↔ classOf c.compare among v ∉ c.classes among := by
    rw [grows, mem_classes_iff preorder ordered fits]
    push Not
    rfl
  refine ⟨grows, ?_⟩
  cases grew with
  | true => exact (gains rfl).classes_eq
  | false =>
    have held := not_not.mp (mt grows.mpr Bool.false_ne_true)
    rw [same rfl, Set.insert_eq_of_mem held]

theorem classes_of_remove (ordered : c.Ordered among) (fits : among v) {shrank : Bool}
    (removed : c.remove v = .ok (shrank, c')) :
    (shrank = true ↔ classOf c.compare among v ∈ c.classes among) ∧
      c'.classes among = c.classes among \ {classOf c.compare among v} := by
  obtain ⟨_, _, again, shrinks, gains, same⟩ := exists_remove preorder ordered fits
  cases removed.symm.trans again
  rw [← mem_classes_iff preorder ordered fits] at shrinks
  refine ⟨shrinks, ?_⟩
  cases shrank with
  | true =>
    obtain ⟨x, ties, gains⟩ := gains rfl
    have among_x : among x := by
      obtain ⟨before, after, _, rfl⟩ := gains
      exact ordered.held x (List.mem_append_right _ (List.mem_cons_self ..))
    have one := (classOf_eq_iff preorder among_x fits).mpr ties
    have missing := gains.notMem_classes preorder ordered
    have whole : c.classes among = insert (classOf c.compare among x) (c'.classes among) := by
      have compare_eq : c.compare = c'.compare := by
        obtain ⟨_, _, _, rfl⟩ := gains
        rfl
      rw [compare_eq]
      exact gains.classes_eq
    rw [whole, ← one, Set.insert_sdiff_self_of_notMem missing]
  | false =>
    have missing := mt shrinks.mpr Bool.false_ne_true
    rw [same rfl, Set.sdiff_singleton_eq_self missing]

end Classes

section Runs

/-- The same calls on a mathematical set of classes, and what each one answers. Of the values used
only null and undefined are refused, and these only when they are added. -/
inductive Course (classOf : Value → Set Value) (among : Value → Prop) :
    Set (Set Value) → List Change → List (Except Thrown Bool) → Set (Set Value) → Prop
  | done (S : Set (Set Value)) : Course classOf among S [] [] S
  | added {S T : Set (Set Value)} {v : Value} {grew : Bool} {rest : List Change}
      {answers : List (Except Thrown Bool)} (grows : grew = true ↔ classOf v ∉ S)
      (course : Course classOf among (insert (classOf v) S) rest answers T) :
      Course classOf among S (.add v :: rest) (.ok grew :: answers) T
  | removed {S T : Set (Set Value)} {v : Value} {shrank : Bool} {rest : List Change}
      {answers : List (Except Thrown Bool)} (shrinks : shrank = true ↔ classOf v ∈ S)
      (course : Course classOf among (S \ {classOf v}) rest answers T) :
      Course classOf among S (.remove v :: rest) (.ok shrank :: answers) T
  | refused {S T : Set (Set Value)} {change : Change} {e : Thrown} {rest : List Change}
      {answers : List (Except Thrown Bool)}
      (unfit : among change.value → ∃ v, change = .add v ∧ v.isNullish = true)
      (course : Course classOf among S rest answers T) :
      Course classOf among S (change :: rest) (.error e :: answers) T

/-- Each call is given one of the values used, or throws where it is made. -/
def Suited (among : Value → Prop) (c : SortedSet) : List Change → Prop
  | [] => True
  | change :: rest => (among change.value ∨ ∃ e, c.call change = .error e) ∧
      (c.step change).2.Suited among rest

theorem step_same (change : Change) :
    (c.step change).2.name = c.name ∧ (c.step change).2.order = c.order := by
  unfold step
  cases result : c.call change with
  | error e => exact ⟨rfl, rfl⟩
  | ok answer =>
    obtain ⟨answer, c'⟩ := answer
    cases change with
    | add v =>
      rw [call, SortedSet.add] at result
      split at result
      · cases result
      · split at result <;> cases result <;> exact ⟨rfl, rfl⟩
    | remove v =>
      rw [call, SortedSet.remove] at result
      split at result <;> cases result <;> exact ⟨rfl, rfl⟩

theorem fits_of_call {change : Change} {answer : Bool × SortedSet}
    (suits : among change.value ∨ ∃ e, c.call change = .error e)
    (answered : c.call change = .ok answer) : among change.value := by
  rcases suits with fits | ⟨e, thrown⟩
  · exact fits
  · cases thrown.symm.trans answered

theorem Ordered.step (ordered : c.Ordered among) {change : Change}
    (suits : among change.value ∨ ∃ e, c.call change = .error e) :
    (c.step change).2.Ordered among := by
  unfold SortedSet.step
  cases result : c.call change with
  | error e => exact ordered
  | ok answer =>
    obtain ⟨answer, c'⟩ := answer
    have fits := fits_of_call suits result
    cases change with
    | add v => exact ordered.add (fun _ => fits) result
    | remove v => exact ordered.remove result

theorem step_course (preorder : c.compare.TotalPreorder among) (ordered : c.Ordered among)
    {change : Change} (suits : among change.value ∨ ∃ e, c.call change = .error e)
    {rest : List Change} {answers : List (Except Thrown Bool)} {T : Set (Set Value)}
    (course : Course (classOf c.compare among) among ((c.step change).2.classes among) rest answers
      T) :
    Course (classOf c.compare among) among (c.classes among) (change :: rest)
      ((c.step change).1 :: answers) T := by
  unfold SortedSet.step at course ⊢
  cases result : c.call change with
  | error e =>
    rw [result] at course
    refine .refused (fun fits => ?_) course
    cases change with
    | add v =>
      refine ⟨v, rfl, ?_⟩
      by_contra some
      obtain ⟨_, _, added, _⟩ :=
        exists_add preorder ordered fits ((Bool.not_eq_true _).mp some)
      cases added.symm.trans result
    | remove v =>
      obtain ⟨_, _, removed, _⟩ := exists_remove preorder ordered fits
      cases removed.symm.trans result
  | ok answer =>
    obtain ⟨answer, c'⟩ := answer
    rw [result] at course
    have fits := fits_of_call suits result
    cases change with
    | add v =>
      obtain ⟨grows, whole⟩ := classes_of_add preorder ordered fits result
      exact .added grows (whole ▸ course)
    | remove v =>
      obtain ⟨shrinks, whole⟩ := classes_of_remove preorder ordered fits result
      exact .removed shrinks (whole ▸ course)

/-- What holds of a set in one state, whatever is called next. -/
structure Exact (among : Value → Prop) (c : SortedSet) : Prop where
  ascending : c.elements.Pairwise fun a b => c.compare.Answers a b .lt
  searched {v : Value} (fits : among v) : ∃ i, i ≤ c.elements.length ∧ c.search v = .ok i ∧
    ∀ j x, c.elements[j]? = some x → (c.compare.Answers x v .lt ↔ j < i)
  added {v : Value} (fits : among v) (some : v.isNullish = false) :
    ∃ grew c', c.add v = .ok (grew, c') ∧
      (grew = true ↔ ∀ x ∈ c.elements, ¬ c.compare.Answers x v .eq) ∧
      (grew = true → c.Gains v c') ∧ (grew = false → c' = c)
  removed {v : Value} (fits : among v) : ∃ shrank c', c.remove v = .ok (shrank, c') ∧
    (shrank = true ↔ ∃ x ∈ c.elements, c.compare.Answers x v .eq) ∧
    (shrank = true → ∃ x, c.compare.Answers x v .eq ∧ c'.Gains x c) ∧ (shrank = false → c' = c)
  counted (b : Bench) : c.subject.size b = .ok (.int (c.classes among).ncard) b
  refused {change : Change} {e : Thrown} {c' : SortedSet} :
    c.step change = (.error e, c') ↔ c.Refuses change e ∧ c' = c

theorem step_error_iff {change : Change} :
    c.step change = (.error e, c') ↔ c.Refuses change e ∧ c' = c := by
  rw [← call_error_iff, SortedSet.step]
  cases c.call change with
  | error e' => simp [eq_comm]
  | ok answer => simp

theorem Ordered.exact (preorder : c.compare.TotalPreorder among) (ordered : c.Ordered among) :
    c.Exact among where
  ascending := ordered.ascending
  searched fits := by
    obtain ⟨i, upto, searched⟩ := exists_search preorder ordered fits
    exact ⟨i, upto, searched, fun j x here => ordered.lt_iff fits searched here⟩
  added fits some := exists_add preorder ordered fits some
  removed fits := exists_remove preorder ordered fits
  counted b := by
    rw [ncard_classes preorder ordered]
    rfl
  refused := step_error_iff

variable {order : Option (Comparator Value)}

theorem run_course (preorder : (order.getD naturalOrder).TotalPreorder among)
    (ordered : c.Ordered among) (same : c.order = order) {changes : List Change}
    (suited : c.Suited among changes) :
    (c.run changes).2.Ordered among ∧
      ((c.run changes).2.name = c.name ∧ (c.run changes).2.order = order) ∧
      Course (classOf (order.getD naturalOrder) among) among (c.classes among) changes
        (c.run changes).1 ((c.run changes).2.classes among) := by
  induction changes generalizing c with
  | nil => exact ⟨ordered, ⟨rfl, same⟩, .done _⟩
  | cons change rest ih =>
    obtain ⟨suits, suited⟩ := suited
    obtain ⟨name, order'⟩ := step_same (c := c) change
    subst same
    obtain ⟨ordered', ⟨name', same'⟩, course⟩ := ih (ordered.step suits) order' suited
    exact ⟨ordered', ⟨name'.trans name, same'⟩, step_course preorder ordered suits course⟩

theorem addAll_classes (preorder : (order.getD naturalOrder).TotalPreorder among)
    (ordered : c.Ordered among) (same : c.order = order) {elements : List Value}
    (fit : ∀ v ∈ elements, among v) (added : c.addAll elements = .ok c') :
    (c'.name = c.name ∧ c'.order = order) ∧
      c'.classes among =
        c.classes among ∪ classOf (order.getD naturalOrder) among '' {v | v ∈ elements} := by
  induction elements generalizing c with
  | nil =>
    cases added
    exact ⟨⟨rfl, same⟩, by simp⟩
  | cons v rest ih =>
    rw [List.forall_mem_cons] at fit
    unfold SortedSet.addAll at added
    split at added
    · rename_i grew c'' first
      have kept := step_same (c := c) (.add v)
      have stepped : (c.step (.add v)).2 = c'' := by
        simp only [SortedSet.step, call, first]
      rw [stepped] at kept
      subst same
      obtain ⟨⟨name, order'⟩, whole⟩ := ih (ordered.add (fun _ => fit.1) first) kept.2 fit.2 added
      refine ⟨⟨name.trans kept.1, order'⟩, ?_⟩
      have one := (classes_of_add preorder ordered fit.1 first).2
      have more : {x | x ∈ v :: rest} = insert v {x | x ∈ rest} :=
        Set.ext fun _ => List.mem_cons
      rw [whole, one, more, Set.image_insert_eq, Set.insert_union, Set.union_insert]
      rfl
    · cases added

/-- A sorted set made of values that its order is a total preorder of, and brought through any calls
with such values or calls that throw, is exact in the state it comes to. Its classes come from those
of the elements it was made of by the same calls on a mathematical set. -/
theorem run_exact {name : String} {elements : List Value}
    (preorder : (order.getD naturalOrder).TotalPreorder among) (fit : ∀ v ∈ elements, among v)
    (created : create name elements order = .ok c) {changes : List Change}
    (suited : c.Suited among changes) :
    (c.run changes).2.Exact among ∧
      ((c.run changes).2.name = name ∧ (c.run changes).2.order = order) ∧
      Course (classOf (order.getD naturalOrder) among) among
        (classOf (order.getD naturalOrder) among '' {v | v ∈ elements}) changes (c.run changes).1
        ((c.run changes).2.classes among) := by
  have empty : SortedSet.Ordered among ⟨name, [], order⟩ :=
    ⟨preorder.consistent, fun _ none => (List.not_mem_nil none).elim, .nil⟩
  have ordered := empty.addAll (fun v here _ => fit v here) created
  obtain ⟨⟨name', order'⟩, whole⟩ := addAll_classes preorder empty rfl fit created
  obtain ⟨ordered', same, course⟩ := run_course preorder ordered order' suited
  have start : c.classes among = classOf (order.getD naturalOrder) among '' {v | v ∈ elements} := by
    rw [whole, classes]
    simp
  rw [start] at course
  refine ⟨ordered'.exact ?_, ⟨same.1.trans name', same.2⟩, course⟩
  rw [compare, same.2]
  exact preorder

def day (n : Int) (identity : Nat) : Value := .date (some (n * 86400000)) identity

def days : SortedSet := ⟨"days", [day 10 2, day 20 1], none⟩

/-- Days are added and removed by others of the same time, and by what has no order with days. -/
def changesOfDays : List Change :=
  [.add (day 10 4), .add (day 15 5), .add .null, .remove (day 20 6), .remove (day 99 7),
    .remove (.string "day 15")]

def IsDay (v : Value) : Prop := Value.kindred (day 0 0) v = true ∧ Value.hasRank v = true

theorem run_exact_days :
    create "days" [day 20 1, day 10 2, day 20 3] none = .ok days ∧
      days.run changesOfDays =
        ([.ok false, .ok true, .error (.violation (.nullElement "days")), .ok true, .ok false,
          .error (.violation (.incomparable "Date" "string"))],
        ⟨"days", [day 10 2, day 15 5], none⟩) ∧
      (days.run changesOfDays).2.Exact IsDay := by
  have preorder : (Option.getD none naturalOrder).TotalPreorder IsDay :=
    Value.naturalOrder_totalPreorder (day 0 0)
  have fit : ∀ v ∈ [day 20 1, day 10 2, day 20 3], IsDay v := by
    unfold IsDay
    decide
  have created : create "days" [day 20 1, day 10 2, day 20 3] none = .ok days := rfl
  have suited : days.Suited IsDay changesOfDays :=
    ⟨.inl ⟨rfl, rfl⟩, .inl ⟨rfl, rfl⟩, .inr ⟨_, rfl⟩, .inl ⟨rfl, rfl⟩, .inl ⟨rfl, rfl⟩,
      .inr ⟨_, rfl⟩, trivial⟩
  exact ⟨created, rfl, (run_exact preorder fit created suited).1⟩

end Runs

end SplitTraversal.SortedSet
