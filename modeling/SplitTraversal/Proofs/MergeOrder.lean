import SplitTraversal.Proofs.SortTotality

/-! Merging runs in order whose comparisons agree with an order. A search cuts a run into what goes
before an element and what goes after it, and a merge takes from either run what goes before all that
is left of the other. -/

namespace SplitTraversal

section Searches

variable {ε α : Type}

/-- The last step goes from a position at which the test holds to one that misses it, or to the end.
Each position is at least one further, so there is fuel for all. -/
theorem stride_bounds {test : Nat → Except ε Bool} {length fuel reached next last missed : Nat}
    (onward : reached < next) (inside : reached < length) (holds : test reached = .ok true)
    (enough : length ≤ next + fuel)
    (strode : stride test length fuel reached next = .ok (last, missed)) :
    last < missed ∧ missed ≤ length ∧ test last = .ok true ∧
      (missed < length → test missed = .ok false) := by
  induction fuel generalizing reached next with
  | zero =>
    cases strode
    exact ⟨by omega, Nat.min_le_right _ _, holds, by omega⟩
  | succ fuel ih =>
    by_cases further : next < length
    · rw [stride, if_pos further] at strode
      split at strode
      · cases strode
      · rename_i asked
        exact ih (by omega) further asked (by omega) strode
      · rename_i asked
        cases strode
        exact ⟨onward, by omega, holds, fun _ => asked⟩
    · rw [stride, if_neg further] at strode
      cases strode
      exact ⟨inside, Nat.le_refl _, holds, fun more => absurd more (Nat.lt_irrefl _)⟩

/-- Galloping ends where halving does. -/
theorem gallop_bounds {middle : Middle} {test : α → Except ε Bool} {xs : List α} {n : Nat}
    (galloped : gallop middle test xs = .ok n) :
    n ≤ xs.length ∧ (∀ x, 0 < n → xs[n - 1]? = some x → test x = .ok true) ∧
      ∀ x, xs[n]? = some x → test x = .ok false := by
  have at_element {i : Nat} {x : α} {held : Bool} (here : xs[i]? = some x)
      (asked : elementTest test xs i = .ok held) : test x = .ok held := by
    simpa only [elementTest, here] using asked
  unfold gallop at galloped
  split at galloped
  · cases galloped
  · rename_i refused
    cases galloped
    exact ⟨Nat.zero_le _, fun _ none => absurd none (Nat.lt_irrefl _), fun x here =>
      at_element here refused⟩
  · rename_i first
    have inside : 0 < xs.length := by
      refine List.length_pos_iff.mpr fun none => ?_
      rw [none] at first
      cases first
    split at galloped
    · cases galloped
    · rename_i last missed strode
      obtain ⟨after, within, holds, misses⟩ :=
        stride_bounds Nat.zero_lt_one inside first (by omega) strode
      obtain ⟨from', upto, left, here⟩ := bisect_bounds after (by omega) galloped
      refine ⟨by omega, fun x some at_x => at_element at_x ?_, fun x at_x => at_element at_x ?_⟩
      · by_cases later : last + 1 < n
        · exact left later
        · rwa [show n - 1 = last by omega]
      · have inside := (List.getElem?_eq_some_iff.mp at_x).1
        by_cases before : n < missed
        · exact here before
        · rw [show n = missed by omega]
          exact misses (by omega)

end Searches

theorem map_not_eq_ok {ε : Type} {result : Except ε Bool} {b : Bool}
    (negated : result.map not = .ok b) : result = .ok !b := by
  cases result with
  | error e => cases negated
  | ok less =>
    cases negated
    rw [Bool.not_not]

/-- Comparing these elements agrees with an order. -/
structure Agrees {ε α : Type} (before : α → α → Except ε Bool) (R : α → α → Prop)
    (all : List α) : Prop where
  decided : Decided before all
  less {a b : α} (left : a ∈ all) (right : b ∈ all) (asked : before a b = .ok true) : R a b
  notLess {a b : α} (left : a ∈ all) (right : b ∈ all) (asked : before a b = .ok false) : R b a
  trans {a b c : α} (left : a ∈ all) (middle : b ∈ all) (right : c ∈ all) (first : R a b)
    (next : R b c) : R a c

namespace Agrees

variable {ε α : Type} {before : α → α → Except ε Bool} {R : α → α → Prop} {all xs ys : List α}
  {a b x : α} {n : Nat} (agrees : Agrees before R all)

include agrees

theorem swap : Agrees (fun a b => before b a) (fun a b => R b a) all where
  decided a left b right := agrees.decided b right a left
  less left right := agrees.less right left
  notLess left right := agrees.notLess right left
  trans left middle right first next := agrees.trans right middle left next first

theorem refl (member : a ∈ all) : R a a := by
  obtain ⟨less, asked⟩ := agrees.decided a member a member
  cases less with
  | true => exact agrees.less member member asked
  | false => exact agrees.notLess member member asked

section Ascending

variable (members : xs ⊆ all) (ascending : xs.Pairwise R)

include members ascending

theorem first_le (first : xs.head? = some a) (here : x ∈ xs) : R a x := by
  cases xs with
  | nil => cases first
  | cons a' rest =>
    cases first
    rcases List.mem_cons.mp here with rfl | later
    · exact agrees.refl (members here)
    · exact (List.pairwise_cons.mp ascending).1 x later

theorem le_last (last : xs.getLast? = some b) (here : x ∈ xs) : R x b := by
  have turned : xs.reverse ⊆ all := List.Subset.trans (List.reverse_perm xs).subset members
  refine agrees.swap.first_le turned (List.pairwise_reverse.mpr ascending) ?_
    (List.mem_reverse.mpr here)
  rw [List.head?_reverse, last]

/-- Two neighbours between which an element goes stand for all before and all after it. -/
theorem parts (member : a ∈ all) (left : ∀ x, 0 < n → xs[n - 1]? = some x → R x a)
    (right : ∀ x, xs[n]? = some x → R a x) (upto : n ≤ xs.length) :
    (∀ x ∈ xs.take n, R x a) ∧ ∀ x ∈ xs.drop n, R a x := by
  constructor
  · intro x here
    have members' := List.Subset.trans (List.take_subset n xs) members
    have positive : 0 < n := by
      refine Nat.pos_of_ne_zero fun none => ?_
      rw [none, List.take_zero] at here
      exact List.not_mem_nil here
    have inside : n - 1 < xs.length := by omega
    have last : (xs.take n).getLast? = some xs[n - 1] := by
      rw [List.getLast?_take, if_neg (by omega), List.getElem?_eq_getElem inside, Option.some_or]
    have atMost := agrees.le_last members' (ascending.sublist (List.take_sublist n xs)) last here
    exact agrees.trans (members' here) (members (List.getElem_mem inside)) member atMost
      (left _ positive (List.getElem?_eq_getElem inside))
  · intro x here
    have members' := List.Subset.trans (List.drop_subset n xs) members
    obtain ⟨y, first⟩ : ∃ y, (xs.drop n).head? = some y := by
      cases rest : xs.drop n with
      | nil =>
        rw [rest] at here
        exact absurd here List.not_mem_nil
      | cons y ys => exact ⟨y, rfl⟩
    have atMost := agrees.first_le members' (ascending.sublist (List.drop_sublist n xs)) first here
    rw [List.head?_drop] at first
    exact agrees.trans member (members (List.mem_of_getElem? first)) (members' here)
      (right y first) atMost

theorem gallop_parts {middle : Middle} (member : a ∈ all)
    (galloped : gallop middle (fun x => before x a) xs = .ok n) :
    (∀ x ∈ xs.take n, R x a) ∧ ∀ x ∈ xs.drop n, R a x := by
  obtain ⟨upto, left, right⟩ := gallop_bounds galloped
  refine agrees.parts members ascending member (fun x some here => ?_) (fun x here => ?_) upto
  · exact agrees.less (members (List.mem_of_getElem? here)) member (left x some here)
  · exact agrees.notLess (members (List.mem_of_getElem? here)) member (right x here)

theorem gallop_not_parts {middle : Middle} (member : a ∈ all)
    (galloped : gallop middle (fun x => (before a x).map not) xs = .ok n) :
    (∀ x ∈ xs.take n, R x a) ∧ ∀ x ∈ xs.drop n, R a x := by
  obtain ⟨upto, left, right⟩ := gallop_bounds galloped
  refine agrees.parts members ascending member (fun x some here => ?_) (fun x here => ?_) upto
  · exact agrees.notLess member (members (List.mem_of_getElem? here))
      (map_not_eq_ok (left x some here))
  · exact agrees.less member (members (List.mem_of_getElem? here)) (map_not_eq_ok (right x here))

end Ascending

end Agrees

namespace Merging

variable {ε α : Type} {rule : MergeRule ε α} {R : α → α → Prop} {all : List α} {m m' : Merging α}
  {n : Nat}

/-- What has been taken goes before all that is left, and either run is in order. The other run has
nothing that goes after the last held element. -/
structure Ordered (R : α → α → Prop) (all : List α) (m : Merging α) : Prop where
  members : m.result ⊆ all
  held : (m.taken.reverse ++ m.held).Pairwise R
  other : (m.taken.reverse ++ m.other).Pairwise R
  last : ∀ h, m.held.getLast? = some h → ∀ o ∈ m.other, R o h

namespace Ordered

variable (ordered : m.Ordered R all)

include ordered

theorem result_of_isOver (ended : m.isOver = true) : m.result.Pairwise R := by
  rw [isOver, Bool.or_eq_true, List.isEmpty_iff, decide_eq_true_eq] at ended
  unfold result
  rcases ended with none | few
  · rw [none, List.append_nil]
    exact ordered.held
  · cases held : m.held with
    | nil =>
      rw [List.append_nil]
      exact ordered.other
    | cons h hs =>
      rw [held, List.length_cons] at few
      obtain rfl := List.length_eq_zero_iff.mp (show hs.length = 0 by omega)
      refine List.pairwise_append.mpr ⟨ordered.other, List.pairwise_singleton .., ?_⟩
      intro x here y there
      obtain rfl := List.mem_singleton.mp there
      rcases List.mem_append.mp here with taken | left
      · have held' := ordered.held
        rw [held] at held'
        exact (List.pairwise_append.mp held').2.2 x taken y (List.mem_singleton_self y)
      · exact ordered.last y (by rw [held]; rfl) x left

theorem takeHeld (less : ∀ h ∈ m.held.take n, ∀ o ∈ m.other, R h o) :
    (m.takeHeld n).Ordered R all := by
  have taken : (m.takeHeld n).taken.reverse = m.taken.reverse ++ m.held.take n := by
    rw [Merging.takeHeld, List.reverse_append, List.reverse_reverse]
  have whole := ordered.held
  constructor
  case members => exact List.Subset.trans (m.takeHeld_perm n).subset ordered.members
  case held =>
    rw [taken, Merging.takeHeld, List.append_assoc, List.take_append_drop]
    exact whole
  case other =>
    rw [← List.take_append_drop n m.held, ← List.append_assoc] at whole
    obtain ⟨-, other, cross⟩ := List.pairwise_append.mp ordered.other
    rw [taken]
    refine List.pairwise_append.mpr ⟨(List.pairwise_append.mp whole).1, other, ?_⟩
    intro x here y there
    rcases List.mem_append.mp here with before | now
    · exact cross x before y there
    · exact less x now y there
  case last =>
    intro h ending
    refine ordered.last h ?_
    have ending' : (m.held.drop n).getLast? = some h := ending
    rw [List.getLast?_drop] at ending'
    split at ending'
    · cases ending'
    · exact ending'

theorem takeOther (less : ∀ o ∈ m.other.take n, ∀ h ∈ m.held, R o h) :
    (m.takeOther n).Ordered R all := by
  have taken : (m.takeOther n).taken.reverse = m.taken.reverse ++ m.other.take n := by
    rw [Merging.takeOther, List.reverse_append, List.reverse_reverse]
  have whole := ordered.other
  constructor
  case members => exact List.Subset.trans (m.takeOther_perm n).subset ordered.members
  case held =>
    rw [← List.take_append_drop n m.other, ← List.append_assoc] at whole
    obtain ⟨-, held, cross⟩ := List.pairwise_append.mp ordered.held
    rw [taken]
    refine List.pairwise_append.mpr ⟨(List.pairwise_append.mp whole).1, held, ?_⟩
    intro x here y there
    rcases List.mem_append.mp here with before | now
    · exact cross x before y there
    · exact less x now y there
  case other =>
    rw [taken, Merging.takeOther, List.append_assoc, List.take_append_drop]
    exact whole
  case last =>
    intro h ending o here
    exact ordered.last h ending o (List.mem_of_mem_drop here)

theorem held_mem {h : α} (here : h ∈ m.held) : h ∈ all := ordered.members (m.held_subset here)

theorem other_mem {o : α} (here : o ∈ m.other) : o ∈ all := ordered.members (m.other_subset here)

theorem held_pairwise : m.held.Pairwise R := (List.pairwise_append.mp ordered.held).2.1

theorem other_pairwise : m.other.Pairwise R := (List.pairwise_append.mp ordered.other).2.1

end Ordered

theorem takeHeld_size (n : Nat) (m : Merging α) : (m.takeHeld n).size ≤ m.size := by
  simp only [takeHeld, size, List.length_drop]
  omega

theorem takeOther_size (n : Nat) (m : Merging α) : (m.takeOther n).size ≤ m.size := by
  simp only [takeOther, size, List.length_drop]
  omega

section Rule

variable (agrees : Agrees (fun o h => rule.otherFirst h o) R all)

include agrees

theorem takeOther_first {h o : α} {hs os : List α} (ordered : m.Ordered R all)
    (held : m.held = h :: hs) (other : m.other = o :: os) (first : R o h) :
    (m.takeOther 1).Ordered R all := by
  refine ordered.takeOther fun o' here h' there => ?_
  rw [other] at here
  obtain rfl := List.mem_singleton.mp here
  have head : m.held.head? = some h := by rw [held, List.head?_cons]
  have oMember := ordered.other_mem (other ▸ List.mem_cons_self ..)
  have hMember := ordered.held_mem (held ▸ List.mem_cons_self ..)
  have members : m.held ⊆ all := fun _ => ordered.held_mem
  exact agrees.trans oMember hMember (members there) first
    (agrees.first_le members ordered.held_pairwise head there)

theorem takeHeld_first {h o : α} {hs os : List α} (ordered : m.Ordered R all)
    (held : m.held = h :: hs) (other : m.other = o :: os) (first : R h o) :
    (m.takeHeld 1).Ordered R all := by
  refine ordered.takeHeld fun h' here o' there => ?_
  rw [held] at here
  obtain rfl := List.mem_singleton.mp here
  have head : m.other.head? = some o := by rw [other, List.head?_cons]
  have oMember := ordered.other_mem (other ▸ List.mem_cons_self ..)
  have hMember := ordered.held_mem (held ▸ List.mem_cons_self ..)
  have members : m.other ⊆ all := fun _ => ordered.other_mem
  exact agrees.trans hMember oMember (members there) first
    (agrees.first_le members ordered.other_pairwise head there)

theorem oneByOne_ordered {threshold fuel fromHeld fromOther : Nat} (ordered : m.Ordered R all)
    (ran : oneByOne rule threshold fuel fromHeld fromOther m = .ok m') :
    m'.Ordered R all ∧ m'.size ≤ m.size ∧
      (0 < fuel → m.held ≠ [] → m.other ≠ [] → m'.size < m.size) := by
  induction fuel generalizing fromHeld fromOther m with
  | zero =>
    cases ran
    exact ⟨ordered, Nat.le_refl _, fun none => absurd none (Nat.lt_irrefl _)⟩
  | succ fuel ih =>
    have onward {m₁ : Merging α} {stop : Bool} {fromHeld fromOther : Nat} (next : m₁.Ordered R all)
        (smaller : m₁.size < m.size)
        (ran : (if stop then .ok m₁ else oneByOne rule threshold fuel fromHeld fromOther m₁) =
          .ok m') : m'.Ordered R all ∧ m'.size < m.size := by
      cases stop with
      | true =>
        cases ran
        exact ⟨next, smaller⟩
      | false =>
        obtain ⟨ordered', fewer, -⟩ := ih next ran
        exact ⟨ordered', Nat.lt_of_le_of_lt fewer smaller⟩
    simp only [oneByOne] at ran
    split at ran
    · rename_i h hs o os held other
      have oMember := ordered.other_mem (other ▸ List.mem_cons_self ..)
      have hMember := ordered.held_mem (held ▸ List.mem_cons_self ..)
      suffices m'.Ordered R all ∧ m'.size < m.size from
        ⟨this.1, Nat.le_of_lt this.2, fun _ _ _ => this.2⟩
      split at ran
      · cases ran
      · rename_i asked
        refine onward ?_ ?_ ran
        · exact takeOther_first agrees ordered held other (agrees.less oMember hMember asked)
        · simp only [takeOther, size, other, List.length_drop, List.length_cons]
          omega
      · rename_i asked
        refine onward ?_ ?_ ran
        · exact takeHeld_first agrees ordered held other (agrees.notLess oMember hMember asked)
        · simp only [takeHeld, size, held, List.length_drop, List.length_cons]
          omega
    · rename_i unlike
      cases ran
      refine ⟨ordered, Nat.le_refl _, fun _ held other => ?_⟩
      obtain ⟨h, hs, held⟩ := List.exists_cons_of_ne_nil held
      obtain ⟨o, os, other⟩ := List.exists_cons_of_ne_nil other
      exact absurd other (unlike h hs o os held)

theorem gallopHeld_ordered (ordered : m.Ordered R all) (ran : gallopHeld rule m = .ok (n, m')) :
    m'.Ordered R all ∧ m'.size ≤ m.size := by
  simp only [gallopHeld] at ran
  split at ran
  · cases ran
    exact ⟨ordered, Nat.le_refl _⟩
  · rename_i o os other
    have oMember := ordered.other_mem (other ▸ List.mem_cons_self ..)
    have head : m.other.head? = some o := by rw [other, List.head?_cons]
    split at ran
    · cases ran
    · rename_i k galloped
      obtain ⟨before, after⟩ := agrees.gallop_not_parts (fun _ => ordered.held_mem)
        ordered.held_pairwise oMember galloped
      have next : (m.takeHeld k).Ordered R all := by
        refine ordered.takeHeld fun h here o' there => ?_
        exact agrees.trans (ordered.held_mem (List.mem_of_mem_take here)) oMember
          (ordered.other_mem there) (before h here)
          (agrees.first_le (fun _ => ordered.other_mem) ordered.other_pairwise head there)
      have smaller := m.takeHeld_size k
      split at ran
      · cases ran
        exact ⟨next, smaller⟩
      · cases ran
        refine ⟨next.takeOther fun o' here h there => ?_, ?_⟩
        · have here' : o' ∈ m.other.take 1 := here
          rw [other] at here'
          obtain rfl := List.mem_singleton.mp here'
          exact after h there
        · exact Nat.le_trans (Merging.takeOther_size 1 _) smaller

theorem gallopOther_ordered (ordered : m.Ordered R all) (ran : gallopOther rule m = .ok (n, m')) :
    m'.Ordered R all ∧ m'.size ≤ m.size := by
  simp only [gallopOther] at ran
  split at ran
  · cases ran
    exact ⟨ordered, Nat.le_refl _⟩
  · rename_i h hs held
    have hMember := ordered.held_mem (held ▸ List.mem_cons_self ..)
    have head : m.held.head? = some h := by rw [held, List.head?_cons]
    split at ran
    · cases ran
    · rename_i k galloped
      obtain ⟨before, after⟩ := agrees.gallop_parts (fun _ => ordered.other_mem)
        ordered.other_pairwise hMember galloped
      have next : (m.takeOther k).Ordered R all := by
        refine ordered.takeOther fun o here h' there => ?_
        exact agrees.trans (ordered.other_mem (List.mem_of_mem_take here)) hMember
          (ordered.held_mem there) (before o here)
          (agrees.first_le (fun _ => ordered.held_mem) ordered.held_pairwise head there)
      have smaller := m.takeOther_size k
      split at ran
      · cases ran
        exact ⟨next, smaller⟩
      · cases ran
        refine ⟨next.takeHeld fun h' here o there => ?_, ?_⟩
        · have here' : h' ∈ m.held.take 1 := here
          rw [held] at here'
          obtain rfl := List.mem_singleton.mp here'
          exact after o there
        · exact Nat.le_trans (Merging.takeHeld_size 1 _) smaller

theorem round_ordered {gained : Bool} (ordered : m.Ordered R all)
    (ran : round rule m = .ok (gained, m')) : m'.Ordered R all ∧ m'.size ≤ m.size := by
  have either (heldFirst : Bool) {n : Nat} {m m' : Merging α} (ordered : m.Ordered R all)
      (ran : (if heldFirst then gallopHeld rule m else gallopOther rule m) = .ok (n, m')) :
      m'.Ordered R all ∧ m'.size ≤ m.size := by
    cases heldFirst with
    | true => exact gallopHeld_ordered agrees ordered ran
    | false => exact gallopOther_ordered agrees ordered ran
  unfold round at ran
  split at ran
  · cases ran
  · rename_i led
    obtain ⟨first, fewer⟩ := either _ ordered led
    split at ran
    · cases ran
      exact ⟨first, fewer⟩
    · split at ran
      · cases ran
      · rename_i followed
        cases ran
        obtain ⟨second, fewer'⟩ := either (!rule.heldLeads) first (by
          simpa only [Bool.not_eq_true', ← Bool.not_eq_true, ite_not] using followed)
        exact ⟨second, Nat.le_trans fewer' fewer⟩

theorem rounds_ordered {fuel threshold threshold' : Nat} (ordered : m.Ordered R all)
    (ran : rounds rule fuel threshold m = .ok (threshold', m')) :
    m'.Ordered R all ∧ m'.size ≤ m.size := by
  induction fuel generalizing threshold m with
  | zero =>
    cases ran
    exact ⟨ordered, Nat.le_refl _⟩
  | succ fuel ih =>
    rw [rounds] at ran
    split at ran
    · cases ran
    · rename_i went
      obtain ⟨first, fewer⟩ := round_ordered agrees ordered went
      split at ran
      · cases ran
        exact ⟨first, fewer⟩
      · split at ran
        · obtain ⟨later, fewer'⟩ := ih first ran
          exact ⟨later, Nat.le_trans fewer' fewer⟩
        · cases ran
          exact ⟨first, fewer⟩

/-- Each repetition takes at least one element, so the merge comes to its end. -/
theorem finish_pairwise {fuel threshold threshold' : Nat} {ys : List α} (ordered : m.Ordered R all)
    (enough : m.size ≤ fuel) (ran : finish rule fuel threshold m = .ok (threshold', ys)) :
    ys.Pairwise R := by
  induction fuel generalizing threshold m with
  | zero =>
    cases ran
    refine ordered.result_of_isOver ?_
    have none : m.held.length ≤ 1 := by
      unfold size at enough
      omega
    rw [isOver, decide_eq_true none, Bool.or_true]
  | succ fuel ih =>
    rw [finish] at ran
    split at ran
    · rename_i ended
      cases ran
      exact ordered.result_of_isOver ended
    · rename_i more
      rw [isOver, Bool.or_eq_true, List.isEmpty_iff, decide_eq_true_eq, not_or] at more
      have held : m.held ≠ [] := by
        intro none
        rw [none] at more
        exact more.2 (Nat.zero_le 1)
      have positive : 0 < m.size := by
        unfold size
        have := List.length_pos_iff.mpr held
        omega
      split at ran
      · cases ran
      · rename_i went
        obtain ⟨first, -, fewer⟩ := oneByOne_ordered agrees ordered went
        have fewer := fewer positive held more.1
        split at ran
        · rename_i ended
          cases ran
          exact first.result_of_isOver ended
        · split at ran
          · cases ran
          · rename_i galloped
            obtain ⟨second, fewer'⟩ := rounds_ordered agrees first galloped
            exact ih second (by omega) ran

theorem merge_pairwise {threshold threshold' : Nat} {held other ys : List α}
    (members : held ++ other ⊆ all) (heldOrdered : held.Pairwise R)
    (otherOrdered : other.Pairwise R)
    (first : ∀ o, other.head? = some o → ∀ h ∈ held, R o h)
    (last : ∀ h, held.getLast? = some h → ∀ o ∈ other, R o h)
    (ran : merge rule threshold held other = .ok (threshold', ys)) : ys.Pairwise R := by
  have start : (⟨[], held, other⟩ : Merging α).Ordered R all :=
    ⟨List.Subset.trans List.perm_append_comm.subset members, heldOrdered, otherOrdered, last⟩
  refine finish_pairwise agrees (start.takeOther fun o here h there => ?_) (Nat.le_refl _) ran
  cases other with
  | nil => exact absurd here List.not_mem_nil
  | cons o' os =>
    obtain rfl := List.mem_singleton.mp here
    exact first o rfl h there

end Rule

end Merging

end SplitTraversal
