import SplitTraversal.Proofs.OrderVerdicts
import SplitTraversal.Proofs.SortOrder

/-! What a failure of sortedness shows as expected. These are the visited elements in the order of
the comparator, but for undefined ones, which the sort puts last without asking the comparator. -/

namespace SplitTraversal

namespace Comparator

variable {compare : Comparator Value} {among : Value → Prop} {xs ys : List Value}

theorem TotalPreorder.isOrdered_iff (preorder : compare.TotalPreorder among)
    (members : ∀ x ∈ xs, among x) :
    compare.isOrdered xs = .ok true ↔ xs.IsChain compare.AtMost := by
  obtain ⟨ordered, told, chain⟩ := exists_isOrdered fun a left b right =>
    preorder.total (members a left) (members b right)
  rw [told, Except.ok.injEq, chain]

theorem eq_undefined_of_mem_filter {v : Value} (here : v ∈ xs.filter Value.isUndefined) :
    v = .undefined := by
  have isUndefined := (List.mem_filter.mp here).2
  cases v <;> first | rfl | cases isUndefined

theorem head?_filter_undefined (held : .undefined ∈ xs) :
    (xs.filter Value.isUndefined).head? = some .undefined := by
  have inside : Value.undefined ∈ xs.filter Value.isUndefined :=
    List.mem_filter.mpr ⟨held, rfl⟩
  have first := List.head?_eq_some_head (List.ne_nil_of_mem inside)
  rwa [eq_undefined_of_mem_filter (List.mem_of_head? first)] at first

theorem TotalPreorder.isChain_undefined_iff (preorder : compare.TotalPreorder (· ∈ xs))
    {defined : List Value} (perm : defined.Perm (xs.filter (!·.isUndefined)))
    (ascending : defined.Pairwise compare.AtMost) :
    (defined ++ xs.filter Value.isUndefined).IsChain compare.AtMost ↔
      (.undefined ∈ xs → ∀ v ∈ xs, compare.AtMost v .undefined) := by
  have agrees : Agrees compare.sortsBefore compare.AtMost xs := preorder.agrees fun _ here => here
  have members : defined ⊆ xs := fun v here => List.mem_of_mem_filter (perm.mem_iff.mp here)
  rw [List.isChain_append]
  constructor
  · rintro ⟨-, -, border⟩ held v here
    cases isUndefined : v.isUndefined with
    | true =>
      rw [eq_undefined_of_mem_filter (List.mem_filter.mpr ⟨here, isUndefined⟩)]
      exact agrees.refl held
    | false =>
      have inside : v ∈ defined := perm.mem_iff.mpr
        (List.mem_filter.mpr ⟨here, by rw [isUndefined]; rfl⟩)
      have ending := List.getLast?_eq_some_getLast (List.ne_nil_of_mem inside)
      have atMost := agrees.le_last members ascending ending inside
      exact agrees.trans here (members (List.mem_of_getLast? ending)) held atMost
        (border _ ending _ (head?_filter_undefined held))
  · intro every
    have toUndefined {v u : Value} (here : v ∈ xs) (there : u ∈ xs.filter Value.isUndefined) :
        compare.AtMost v u := by
      obtain rfl := eq_undefined_of_mem_filter there
      exact every (List.mem_of_mem_filter there) v here
    refine ⟨ascending.isChain, List.Pairwise.isChain (List.pairwise_of_forall_mem_list ?_), ?_⟩
    · exact fun v here u there => toUndefined (List.mem_of_mem_filter here) there
    · exact fun v ending u beginning => toUndefined (members (List.mem_of_getLast? ending))
        (List.mem_of_head? beginning)

/-- What is shown as the order of `xs`. Undefined elements stand at its end, which is in order just
where the comparator has them there too. -/
structure Arranges (compare : Comparator Value) (xs ys : List Value) : Prop where
  perm : ys.Perm xs
  defined : ∃ defined, ys = defined ++ xs.filter Value.isUndefined ∧
    compare.isOrdered defined = .ok true
  ordered_iff : compare.isOrdered ys = .ok true ↔
    (.undefined ∈ xs → ∀ v ∈ xs, compare.AtMost v .undefined)

theorem TotalPreorder.arranges (preorder : compare.TotalPreorder (· ∈ xs))
    (sorted : compare.sortValues xs = .ok ys) : compare.Arranges xs ys := by
  obtain ⟨ys', made, perm⟩ := preorder.exists_sortValues fun _ here => here
  cases made.symm.trans sorted
  obtain ⟨defined, rfl, permDefined, ascending⟩ :=
    preorder.sortValues_eq_ok (fun _ here => here) sorted
  have members : ∀ v ∈ defined, v ∈ xs :=
    fun v here => List.mem_of_mem_filter (permDefined.mem_iff.mp here)
  refine ⟨perm, ⟨defined, rfl, (preorder.isOrdered_iff members).mpr ascending.isChain⟩, ?_⟩
  rw [preorder.isOrdered_iff fun x here => perm.subset here]
  exact preorder.isChain_undefined_iff permDefined ascending

end Comparator

namespace NamedOrder

theorem nullsFirst_answers_iff {a b : Value} {sign : Ordering} :
    nullsFirst.compare.Answers a b sign ↔
      match a.isNullish, b.isNullish with
      | true, true => sign = .eq
      | true, false => sign = .lt
      | false, true => sign = .gt
      | false, false => naturalOrder.Answers a b sign := by
  have constant (i : Int) : Value.orderOfNumbers (.integer i) (.integer 0) = some sign ↔
      sign = Ord.compare i 0 := by
    rw [Value.orderOfNumbers_integer, Option.some_inj, eq_comm]
  have answered {i : Int} (answer : nullsFirst.compare a b = .ok (.int i)) :
      nullsFirst.compare.Answers a b sign ↔ sign = Ord.compare i 0 := by
    rw [← constant]
    constructor
    · rintro ⟨n, answer', shown⟩
      cases answer.symm.trans answer'
      exact shown
    · exact fun shown => ⟨_, answer, shown⟩
  cases left : a.isNullish <;> cases right : b.isNullish
  · have natural : nullsFirst.compare a b = naturalOrder a b := by
      simp only [compare, left, right]
    simp only [Comparator.Answers, natural]
  · exact answered (i := 1) (by simp only [compare, left, right])
  · exact answered (i := -1) (by simp only [compare, left, right])
  · exact answered (i := 0) (by simp only [compare, left, right])

theorem nullsFirst_totalPreorder (kind : Value) :
    nullsFirst.compare.TotalPreorder fun v =>
      v.isNullish = true ∨ Value.kindred kind v = true ∧ Value.hasRank v = true := by
  have natural := Value.naturalOrder_totalPreorder kind
  have ordinary {v : Value} (among : v.isNullish = true ∨ Value.kindred kind v = true ∧
      Value.hasRank v = true) (proper : v.isNullish = false) :
      Value.kindred kind v = true ∧ Value.hasRank v = true :=
    among.resolve_left (proper ▸ Bool.false_ne_true)
  constructor
  case total =>
    intro a b left right
    simp only [nullsFirst_answers_iff]
    cases first : a.isNullish <;> cases second : b.isNullish
    · exact natural.total (ordinary left first) (ordinary right second)
    · exact ⟨_, rfl⟩
    · exact ⟨_, rfl⟩
    · exact ⟨_, rfl⟩
  case swap =>
    intro a b sign left right answers
    rw [nullsFirst_answers_iff] at answers ⊢
    cases first : a.isNullish <;> cases second : b.isNullish <;>
      simp only [first, second] at answers ⊢
    · exact natural.swap (ordinary left first) (ordinary right second) answers
    · rw [answers]; rfl
    · rw [answers]; rfl
    · rw [answers]; rfl
  case trans =>
    intro a b c sign sign' left middle right below above atMost atMost'
    simp only [nullsFirst_answers_iff] at below above ⊢
    -- What is at most null or undefined is one of them, and these are at most everything.
    cases first : a.isNullish <;> cases second : b.isNullish <;> cases third : c.isNullish <;>
      simp only [first, second, third] at below above ⊢
    · exact natural.trans (ordinary left first) (ordinary middle second) (ordinary right third)
        below above atMost atMost'
    all_goals first
      | exact ⟨_, rfl, rfl⟩
      | (subst below; cases atMost)
      | (subst above; cases atMost')

end NamedOrder

namespace BuiltIn

variable {σ ω κ : Type} {c : CheckContext σ ω}

theorem underEach_eq_ok {act : Strategy → Activity ω κ}
    {examine : Strategy → Activity ω (Option Failure)}
    {finding : Strategy → κ → Option Failure → Prop} {strategies : List Strategy}
    {failures : List Failure} {u w : ω}
    (examined : ∀ {strategy x found y}, examine strategy x = .ok found y →
      ∃ k, act strategy x = .ok k y ∧ finding strategy k found)
    (ran : underEach examine strategies u = .ok failures w) :
    ∃ ks, Rounds act strategies u ks w ∧ Findings finding strategies ks failures := by
  induction strategies generalizing u failures with
  | nil =>
    cases ran
    exact ⟨[], .nil _, .nil⟩
  | cons strategy rest ih =>
    rw [underEach] at ran
    split at ran
    · cases ran
    · rename_i found v first
      split at ran
      · rename_i failures v' later
        cases ran
        obtain ⟨k, acted, shown⟩ := examined first
        obtain ⟨ks, rounds, findings⟩ := ih later
        exact ⟨k :: ks, .cons acted rounds, .cons shown findings⟩
      · cases ran

theorem Findings.exists_round {finding : Strategy → κ → Option Failure → Prop}
    {strategies : List Strategy} {ks : List κ} {failures : List Failure} {failure : Failure}
    (findings : Findings finding strategies ks failures) (member : failure ∈ failures) :
    ∃ strategy k, (strategy, k) ∈ strategies.zip ks ∧ finding strategy k (some failure) := by
  induction findings with
  | nil => exact absurd member List.not_mem_nil
  | @cons strategy _ k _ found _ first _ ih =>
    rcases List.mem_append.mp member with now | later
    · obtain rfl := Option.mem_toList.mp now
      exact ⟨strategy, k, List.mem_cons_self .., first⟩
    · obtain ⟨strategy', k', inside, shown⟩ := ih later
      exact ⟨strategy', k', List.mem_cons_of_mem _ inside, shown⟩

theorem Stall.failure_code {check : String} {strategy : Strategy} {stall : Stall}
    {failure : Failure} (told : stall.failure check strategy = .ok failure) :
    failure.code = .splitNotShrinking := by
  unfold Stall.failure stallFailure at told
  split at told
  · cases told
    rfl
  · unfold notShrinkingFailure at told
    split at told
    · cases told
    · cases told
    · cases told
      rfl

theorem judge_eq_ok {check : String} {strategy : Strategy} {t : Traversal Value}
    {verdict : List Value → Except Thrown (Option Failure)} {found : Option Failure} {u w : ω}
    (ran : judge check strategy t verdict u = .ok found w) :
    u = w ∧ ((∃ stall failure, t = .stalled stall ∧ stall.failure check strategy = .ok failure ∧
        found = some failure) ∨
      ∃ actual, t = .complete actual ∧ verdict actual = .ok found) := by
  cases t with
  | stalled stall =>
    cases told : stall.failure check strategy with
    | error e =>
      simp only [judge, Action.lift, Action.ofExcept, told, Except.map] at ran
      cases ran
    | ok failure =>
      rw [judge_stalled told] at ran
      cases ran
      exact ⟨rfl, .inl ⟨stall, failure, rfl, told, rfl⟩⟩
  | complete actual =>
    cases told : verdict actual with
    | error e =>
      simp only [judge, Action.lift, Action.ofExcept, told] at ran
      cases ran
    | ok found' =>
      rw [judge_complete told] at ran
      cases ran
      exact ⟨rfl, .inr ⟨actual, rfl, told⟩⟩

inductive Unsorted (natural : Comparator Value) (strategy : Strategy) :
    Option (Comparator Value) × Traversal Value → Failure → Prop
  | intro {order : Option (Comparator Value)} {actual sorted : List Value}
      (told : (order.getD natural).isOrdered actual = .ok false)
      (made : (order.getD natural).sortValues actual = .ok sorted) :
      Unsorted natural strategy (order, .complete actual) (sortFailure strategy sorted actual)

theorem examineSorted_eq_ok {strategy : Strategy} {u w : ω} {found : Option Failure}
    (ran : examineSorted c strategy u = .ok found w) :
    ∃ round, traverseSorted c strategy u = .ok round w ∧ ∀ failure, found = some failure →
      failure.code = .notSorted → Unsorted c.naturalComparator strategy round failure := by
  unfold examineSorted at ran
  cases made : c.subject.splitSource u with
  | error e v =>
    simp only [made, reduceCtorEq] at ran
  | ok own v =>
    simp only [made] at ran
    cases asked : c.protocol.comparator ⟨own, v⟩ with
    | error e s =>
      simp only [asked, reduceCtorEq] at ran
    | ok order s =>
      simp only [asked] at ran
      cases traversed : c.protocol.traverse c.rounds strategy s with
      | error halt s' =>
        simp only [traversed, reduceCtorEq] at ran
      | ok t s' =>
        simp only [traversed] at ran
        have round : traverseSorted c strategy u = .ok (order, t) s'.shared := by
          simp only [traverseSorted, made, asked, traversed]
        obtain ⟨rfl, stalled | complete⟩ := judge_eq_ok ran
        · obtain ⟨stall, failure, rfl, told, rfl⟩ := stalled
          refine ⟨_, round, fun other same code => ?_⟩
          cases same
          exact absurd (code.symm.trans (Stall.failure_code told)) (by decide)
        · obtain ⟨actual, rfl, verdict⟩ := complete
          refine ⟨_, round, fun failure same code => ?_⟩
          subst same
          unfold sortVerdict at verdict
          split at verdict
          · cases verdict
          · cases verdict
          · rename_i told
            split at verdict
            · cases verdict
            · rename_i sorted
              cases verdict
              exact .intro told sorted

theorem examineUnsorted_code {failures : List Failure} {failure : Failure} {u w : ω}
    (ran : examineUnsorted c u = .ok failures w) (member : failure ∈ failures) :
    failure.code = .comparatorNotRejected := by
  unfold examineUnsorted at ran
  split at ran
  · cases ran
    rw [List.mem_singleton.mp member]
    rfl
  · simp only at ran
    split at ran
    · cases ran
      exact absurd member List.not_mem_nil
    · cases ran
      rw [List.mem_singleton.mp member]
      rfl

/-- A failure of sortedness comes from one round: a traversal under one of the strategies, of a source
that reported a comparator or none, and visited elements out of this order. It shows these elements
as they are sorted under the comparator. Where that is a total preorder of the visited elements, they
are in order, and so are others than the visited ones, unless an undefined element was visited that
the comparator does not put last. -/
theorem comparator_expects (c : CheckContext σ ω) {u w : ω} {failures : List Failure}
    (ran : comparator.run c u = .ok failures w) {failure : Failure} (reported : failure ∈ failures)
    (code : failure.code = .notSorted) :
    ∃ v rounds, askFresh c.subject (c.protocol.hasCharacteristics (.ofFlag .sorted)) u =
        .ok true v ∧ Rounds (traverseSorted c) c.strategies v rounds w ∧
      ∃ strategy order actual sorted,
        (strategy, order, .complete actual) ∈ c.strategies.zip rounds ∧
        failure = sortFailure strategy sorted actual ∧
        (order.getD c.naturalComparator).isOrdered actual = .ok false ∧
        ((order.getD c.naturalComparator).TotalPreorder (· ∈ actual) →
          (order.getD c.naturalComparator).Arranges actual sorted ∧
            ((order.getD c.naturalComparator).isOrdered sorted = .ok true → sorted ≠ actual)) := by
  simp only [comparator] at ran
  split at ran
  · cases ran
  · rename_i v asked
    obtain ⟨rounds, traversals, findings⟩ := underEach_eq_ok examineSorted_eq_ok ran
    obtain ⟨strategy, round, inside, shown⟩ := findings.exists_round reported
    cases shown failure rfl code with
    | @intro order actual sorted told made =>
      refine ⟨v, rounds, asked, traversals, strategy, order, actual, sorted, inside, rfl, told,
        fun preorder => ⟨preorder.arranges made, ?_⟩⟩
      rintro ordered rfl
      cases told.symm.trans ordered
  · exact absurd (code.symm.trans (examineUnsorted_code ran reported)) (by decide)

/-- One traversal of a source in natural order that visits numbers out of order. -/
def unsortedNumbers : CheckContext Node Bench :=
  { wavering (.int 4) [.ofList [.int 2, .int 3, .int 1] (.int 4)] with strategies := [.bulkDrain] }

theorem comparator_expects_numbers :
    (∃ w, comparator.run unsortedNumbers ⟨#[], #[], #[0]⟩ =
      .ok [sortFailure .bulkDrain [.int 1, .int 2, .int 3] [.int 2, .int 3, .int 1]] w) ∧
    naturalOrder.Arranges [.int 2, .int 3, .int 1] [.int 1, .int 2, .int 3] := by
  have ran : comparator.run unsortedNumbers ⟨#[], #[], #[0]⟩ =
      .ok [sortFailure .bulkDrain [.int 1, .int 2, .int 3] [.int 2, .int 3, .int 1]]
        ⟨#[], #[], #[2]⟩ := rfl
  refine ⟨⟨_, ran⟩, ?_⟩
  obtain ⟨v, rounds, asked, traversals, strategy, order, actual, sorted, inside, same, told,
    shows⟩ := comparator_expects unsortedNumbers ran (List.mem_cons_self ..) rfl
  have asked' : askFresh unsortedNumbers.subject
      (unsortedNumbers.protocol.hasCharacteristics (.ofFlag .sorted)) ⟨#[], #[], #[0]⟩ =
        .ok true ⟨#[], #[], #[1]⟩ := rfl
  cases asked'.symm.trans asked
  have traversed : traverseSorted unsortedNumbers .bulkDrain ⟨#[], #[], #[1]⟩ =
      .ok (none, .complete [.int 2, .int 3, .int 1]) ⟨#[], #[], #[2]⟩ := rfl
  obtain _ | ⟨first, ⟨⟩⟩ := traversals
  cases traversed.symm.trans first
  cases List.mem_singleton.mp inside
  obtain rfl : sorted = [.int 1, .int 2, .int 3] := by
    have expected := congrArg Failure.expected same
    simpa [sortFailure, Value.list] using expected.symm
  refine (shows ?_).1
  exact (Value.naturalOrder_totalPreorder (.int 0)).restrict (by decide)

/-- One traversal of a source that visits the undefined element last, where its order has it first. -/
def undefinedLast : CheckContext Node Bench :=
  { wavering (.int 4) [.indexed .none (.int 3) (.named (.table #[.int 1, .int 2, .undefined]))
      (some { characteristics := .int 4, order := some NamedOrder.nullsFirst.compare })] with
    strategies := [.bulkDrain] }

/-- The failure shows the visited elements again, as if they were in order. -/
theorem comparator_expects_undefined_last :
    let visited : List Value := [.int 1, .int 2, .undefined]
    (∃ w, comparator.run undefinedLast ⟨#[], #[], #[0]⟩ =
      .ok [sortFailure .bulkDrain visited visited] w) ∧
    (∃ v w, traverseSorted undefinedLast .bulkDrain v =
      .ok (some NamedOrder.nullsFirst.compare, .complete visited) w) ∧
    NamedOrder.nullsFirst.compare.TotalPreorder (· ∈ visited) ∧
    NamedOrder.nullsFirst.compare.isOrdered visited = .ok false ∧
    NamedOrder.nullsFirst.compare.isOrdered [.undefined, .int 1, .int 2] = .ok true := by
  refine ⟨⟨⟨#[], #[], #[2]⟩, rfl⟩, ⟨⟨#[], #[], #[1]⟩, ⟨#[], #[], #[2]⟩, rfl⟩, ?_, rfl, rfl⟩
  exact (NamedOrder.nullsFirst_totalPreorder (.int 0)).restrict (by decide)

end BuiltIn

end SplitTraversal
