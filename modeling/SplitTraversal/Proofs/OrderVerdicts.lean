import Mathlib.Data.List.Forall2
import SplitTraversal.Proofs.DeclaredTraits
import SplitTraversal.Proofs.ElementsVerdicts
import SplitTraversal.Proofs.SortTotality

/-! What the known order check and the comparator check report, whatever sources they are given: one
failure for each traversal that stalls, and for each that visits the elements in another order than
the expected one, or than the comparator's. Both run one examination for each strategy; what an
examination finds is said by a relation, and the run collects what is found. -/

namespace SplitTraversal

namespace Matching

variable {α : Type} {same : α → α → Bool} {expected actual : List α} {i : Nat}

/-- The first position where two sequences differ: either two elements are apart there, or exactly
one of the sequences has ended. -/
structure DiffersAt (same : α → α → Bool) (expected actual : List α) (i : Nat) : Prop where
  before : ∀ j < i, ∃ a b, expected[j]? = some a ∧ actual[j]? = some b ∧ same a b = true
  here : (∃ a b, expected[i]? = some a ∧ actual[i]? = some b ∧ same a b = false) ∨
    expected.length ≠ actual.length ∧ i = min expected.length actual.length

theorem differsAt_zero
    (here : (∃ a b, expected[0]? = some a ∧ actual[0]? = some b ∧ same a b = false) ∨
      expected.length ≠ actual.length ∧ 0 = min expected.length actual.length) :
    DiffersAt same expected actual 0 where
  before j less := absurd less (Nat.not_lt_zero j)
  here := here

theorem DiffersAt.cons {a b : α} (agree : same a b = true)
    (differs : DiffersAt same expected actual i) :
    DiffersAt same (a :: expected) (b :: actual) (i + 1) where
  before j less := by
    cases j with
    | zero => exact ⟨a, b, rfl, rfl, agree⟩
    | succ j => exact differs.before j (Nat.lt_of_succ_lt_succ less)
  here := by
    rcases differs.here with apart | ⟨unequal, ended⟩
    · exact .inl apart
    · refine .inr ⟨by simpa using unequal, ?_⟩
      rw [List.length_cons, List.length_cons, Nat.succ_min_succ, ended]

theorem DiffersAt.not_agree (differs : DiffersAt same expected actual i) :
    ¬List.Forall₂ (same · · = true) expected actual := by
  intro agree
  rcases differs.here with ⟨a, b, left, right, apart⟩ | ⟨unequal, _⟩
  · obtain ⟨inside, rfl⟩ := List.getElem?_eq_some_iff.mp left
    obtain ⟨inside', rfl⟩ := List.getElem?_eq_some_iff.mp right
    have agreed := agree.get inside inside'
    exact Bool.false_ne_true (apart.symm.trans agreed)
  · exact unequal agree.length_eq

theorem firstDifferenceFrom_decided (same : α → α → Bool) (position : Nat)
    (expected actual : List α) :
    (List.Forall₂ (same · · = true) expected actual ∧
      firstDifferenceFrom (decided same) position expected actual = .ok none) ∨
    ∃ i, DiffersAt same expected actual i ∧
      firstDifferenceFrom (decided same) position expected actual = .ok (some (position + i)) := by
  induction expected generalizing actual position with
  | nil =>
    cases actual with
    | nil => exact .inl ⟨.nil, rfl⟩
    | cons b bs =>
      exact .inr ⟨0, differsAt_zero (.inr ⟨(Nat.succ_ne_zero _).symm, (Nat.zero_min _).symm⟩), rfl⟩
  | cons a as ih =>
    cases actual with
    | nil =>
      exact .inr ⟨0, differsAt_zero (.inr ⟨Nat.succ_ne_zero _, (Nat.min_zero _).symm⟩), rfl⟩
    | cons b bs =>
      cases agree : same a b with
      | false =>
        refine .inr ⟨0, differsAt_zero (.inl ⟨a, b, rfl, rfl, agree⟩), ?_⟩
        simp only [firstDifferenceFrom, decided, agree, Nat.add_zero]
      | true =>
        simp only [firstDifferenceFrom, decided, agree]
        rcases ih (position + 1) bs with ⟨rest, told⟩ | ⟨i, differs, told⟩
        · exact .inl ⟨.cons agree rest, told⟩
        · refine .inr ⟨i + 1, differs.cons agree, told.trans ?_⟩
          rw [Nat.add_assoc, Nat.add_comm 1 i]

end Matching

namespace Comparator

variable {compare : Comparator Value} {among : Value → Prop} {xs : List Value}

def Disordered (compare : Comparator Value) (xs : List Value) : Prop :=
  ∃ (i j : Nat) (a b : Value), i < j ∧ xs[i]? = some a ∧ xs[j]? = some b ∧ compare.Answers a b .gt

theorem not_disordered_of_short (short : xs.length ≤ 1) : ¬compare.Disordered xs := by
  rintro ⟨i, j, a, b, less, -, right, -⟩
  have inside := (List.getElem?_eq_some_iff.mp right).1
  omega

/-- Only neighbours are compared. An element that is at most its neighbour is, by transitivity, at
most every later one that the neighbour is not greater than. -/
theorem TotalPreorder.disordered_cons_cons (preorder : compare.TotalPreorder among) {a b : Value}
    {rest : List Value} (members : ∀ x ∈ a :: b :: rest, among x) {sign : Ordering}
    (answers : compare.Answers a b sign) (atMost : sign.isLE) :
    compare.Disordered (a :: b :: rest) ↔ compare.Disordered (b :: rest) := by
  have member {k : Nat} {x : Value} (at_k : (b :: rest)[k]? = some x) : among x :=
    members x (List.mem_cons_of_mem a (List.mem_of_getElem? at_k))
  constructor
  · rintro ⟨i, j, x, y, less, left, right, greater⟩
    cases j with
    | zero => exact absurd less (Nat.not_lt_zero i)
    | succ j =>
      cases i with
      | succ i => exact ⟨i, j, x, y, Nat.lt_of_succ_lt_succ less, left, right, greater⟩
      | zero =>
        rw [List.getElem?_cons_zero, Option.some.injEq] at left
        subst left
        rw [List.getElem?_cons_succ] at right
        cases j with
        | zero =>
          rw [List.getElem?_cons_zero, Option.some.injEq] at right
          subst right
          cases answers.unique greater
          cases atMost
        | succ j =>
          -- If `b` were at most `y` too, then so would be `a`.
          have first := members a (List.mem_cons_self ..)
          have second := member (k := 0) rfl
          obtain ⟨next, between⟩ := preorder.total second (member right)
          by_cases most : next.isLE = true
          · obtain ⟨last, through, atMost'⟩ :=
              preorder.trans first second (member right) answers between atMost most
            cases through.unique greater
            cases atMost'
          · cases next with
            | gt => exact ⟨0, j + 1, b, y, Nat.succ_pos j, rfl, right, between⟩
            | lt => exact absurd rfl most
            | eq => exact absurd rfl most
  · rintro ⟨i, j, x, y, less, left, right, greater⟩
    exact ⟨i + 1, j + 1, x, y, Nat.succ_lt_succ less, left, right, greater⟩

theorem TotalPreorder.reversed (preorder : compare.TotalPreorder among) :
    compare.reversed.TotalPreorder among where
  total left right := preorder.total right left
  swap left right answers := preorder.swap right left answers
  trans left middle right below above atMost atMost' :=
    preorder.trans right middle left above below atMost' atMost

theorem TotalPreorder.isOrdered_cases (preorder : compare.TotalPreorder among)
    (members : ∀ x ∈ xs, among x) :
    (¬compare.Disordered xs ∧ compare.isOrdered xs = .ok true) ∨
      compare.Disordered xs ∧ compare.isOrdered xs = .ok false := by
  induction xs with
  | nil => exact .inl ⟨not_disordered_of_short (Nat.zero_le 1), rfl⟩
  | cons a xs ih =>
    cases xs with
    | nil => exact .inl ⟨not_disordered_of_short (Nat.le_refl 1), rfl⟩
    | cons b rest =>
      obtain ⟨sign, answers⟩ := preorder.total (members a (List.mem_cons_self ..))
        (members b (List.mem_cons_of_mem a (List.mem_cons_self ..)))
      by_cases atMost : sign.isLE = true
      · have onward : compare.isOrdered (a :: b :: rest) = compare.isOrdered (b :: rest) := by
          have below : (sign == .gt) = false := by
            cases sign <;> first | rfl | cases atMost
          simp only [isOrdered, answers.follows_eq, below]
        rw [preorder.disordered_cons_cons members answers atMost, onward]
        exact ih fun x here => members x (List.mem_cons_of_mem a here)
      · cases sign with
        | gt =>
          refine .inr ⟨⟨0, 1, a, b, Nat.one_pos, rfl, rfl, answers⟩, ?_⟩
          simp only [isOrdered, answers.follows_eq]
          rfl
        | lt => exact absurd rfl atMost
        | eq => exact absurd rfl atMost

end Comparator

namespace BuiltIn

variable {σ ω κ : Type}

/-- An activity carried out under one strategy after the other, and what came of it each time. -/
inductive Rounds (act : Strategy → Activity ω κ) : List Strategy → ω → List κ → ω → Prop
  | nil (w : ω) : Rounds act [] w [] w
  | cons {strategy : Strategy} {rest : List Strategy} {k : κ} {ks : List κ} {u v w : ω}
      (first : act strategy u = .ok k v) (later : Rounds act rest v ks w) :
      Rounds act (strategy :: rest) u (k :: ks) w

/-- What is found in each round, at most one failure a round, in the order of the strategies. -/
inductive Findings (finding : Strategy → κ → Option Failure → Prop) :
    List Strategy → List κ → List Failure → Prop
  | nil : Findings finding [] [] []
  | cons {strategy : Strategy} {strategies : List Strategy} {k : κ} {ks : List κ}
      {found : Option Failure} {failures : List Failure} (first : finding strategy k found)
      (later : Findings finding strategies ks failures) :
      Findings finding (strategy :: strategies) (k :: ks) (found.toList ++ failures)

theorem underEach_findings {act : Strategy → Activity ω κ}
    {examine : Strategy → Activity ω (Option Failure)}
    {finding : Strategy → κ → Option Failure → Prop} {strategies : List Strategy} {ks : List κ}
    {u w : ω} (rounds : Rounds act strategies u ks w)
    (examined : ∀ {strategy k v v'}, k ∈ ks → act strategy v = .ok k v' →
      ∃ found, examine strategy v = .ok found v' ∧ finding strategy k found) :
    ∃ failures, underEach examine strategies u = .ok failures w ∧
      Findings finding strategies ks failures := by
  induction rounds with
  | nil w => exact ⟨[], rfl, .nil⟩
  | cons first later ih =>
    obtain ⟨found, told, shown⟩ := examined (List.mem_cons_self ..) first
    obtain ⟨failures, ran, findings⟩ := ih fun here => examined (List.mem_cons_of_mem _ here)
    simp only [underEach, told, ran]
    exact ⟨_, rfl, .cons shown findings⟩

theorem exists_judged {check : String} {strategy : Strategy} {t : Traversal Value}
    {verdict : List Value → Except Thrown (Option Failure)} {shows : Option Failure → Prop}
    (stalled : ∀ stall, t = .stalled stall →
      (∃ sized before after splits,
        Protocol.stall? sized before after splits = .ok (some stall)) ∧
      ∀ failure : Failure, failure.Reports check strategy .splitNotShrinking → shows (some failure))
    (complete : ∀ actual, t = .complete actual → ∃ found, verdict actual = .ok found ∧ shows found)
    (w : ω) : ∃ found, judge check strategy t verdict w = .ok found w ∧ shows found := by
  cases t with
  | stalled stall =>
    obtain ⟨⟨_, _, _, _, raised⟩, reported⟩ := stalled stall rfl
    obtain ⟨failure, told, reports⟩ := Stall.exists_failure raised check strategy
    exact ⟨some failure, judge_stalled told verdict w, reported failure reports⟩
  | complete actual =>
    obtain ⟨found, told, shown⟩ := complete actual rfl
    exact ⟨found, judge_complete told w, shown⟩

variable {c : CheckContext σ ω} {same : Value → Value → Bool}

theorem Traversals.rounds {strategies : List Strategy} {ts : List (Traversal Value)} {u w : ω}
    (traversals : Traversals c strategies u ts w) : Rounds (traverseFresh c) strategies u ts w := by
  induction traversals with
  | nil w => exact .nil w
  | cons first _ ih => exact .cons first ih

inductive OrderFinding (same : Value → Value → Bool) (expected : List Value) (strategy : Strategy) :
    Traversal Value → Option Failure → Prop
  | stalled {stall : Stall} {failure : Failure}
      (reports : failure.Reports "knownOrder" strategy .splitNotShrinking) :
      OrderFinding same expected strategy (.stalled stall) (some failure)
  | agrees {actual : List Value} (agree : List.Forall₂ (same · · = true) expected actual) :
      OrderFinding same expected strategy (.complete actual) none
  | differs {actual : List Value} {failure : Failure} {position : Nat} {told : String}
      (apart : ¬List.Forall₂ (same · · = true) expected actual)
      (first : Matching.DiffersAt same expected actual position)
      (reports : failure.Reports "knownOrder" strategy .orderMismatch)
      (wanted : failure.expected = some (.list expected))
      (visited : failure.actual = some (.list actual))
      (message : failure.message = told ++ s!"(first difference at position {position})") :
      OrderFinding same expected strategy (.complete actual) (some failure)

theorem orderVerdict_finding (strategy : Strategy) (expected actual : List Value) :
    ∃ found, orderVerdict (Matching.decided same) strategy expected actual = .ok found ∧
      OrderFinding same expected strategy (.complete actual) found := by
  rcases Matching.firstDifferenceFrom_decided same 0 expected actual with
    ⟨agree, told⟩ | ⟨i, differs, told⟩
  · refine ⟨none, ?_, .agrees agree⟩
    simp only [orderVerdict, Matching.firstDifference, told]
  · rw [Nat.zero_add] at told
    refine ⟨some (orderFailure strategy expected actual i), ?_,
      .differs differs.not_agree differs ⟨rfl, rfl, rfl⟩ rfl rfl rfl⟩
    simp only [orderVerdict, Matching.firstDifference, told]

/-- The known order check asks one source whether it is ordered. If so, it fails the collection once
for each strategy whose traversal stalls or visits other elements than the expected ones or in
another order, and for nothing else. Each traversal may be of another source. -/
theorem knownOrder_findings (c : CheckContext σ ω) (same : Value → Value → Bool)
    (agrees : c.equivalence = Matching.decided same) {ordered : Bool} {u v : ω}
    (asked : askFresh c.subject (c.protocol.hasCharacteristics (.ofFlag .ordered)) u =
      .ok ordered v) :
    (ordered = false → knownOrder.run c u = .ok [] v) ∧
    (ordered = true → ∀ {expected : List Value} {v' w : ω} {ts : List (Traversal Value)},
      c.subject.orderedElements v = .ok expected v' → Traversals c c.strategies v' ts w →
      ∃ failures, knownOrder.run c u = .ok failures w ∧
        Findings (OrderFinding same expected) c.strategies ts failures) := by
  constructor
  · rintro rfl
    simp only [knownOrder, asked]
  · rintro rfl expected v' w ts listed traversals
    simp only [knownOrder, asked, listed]
    refine underEach_findings traversals.rounds ?_
    intro strategy t x y _ traversed
    simp only [traversed, agrees]
    refine exists_judged ?_ ?_ y
    · rintro stall rfl
      have alone := Traversals.cons traversed (.nil y)
      exact ⟨alone.exists_stall? (List.mem_cons_self ..), fun _ reports => .stalled reports⟩
    · rintro actual rfl
      exact orderVerdict_finding strategy expected actual

/-- Hands out an empty source to be asked, then these sources, then one that never shrinks. -/
def wavering (declared : Value) (sources : List Blueprint) : CheckContext Node Bench where
  protocol := Node.protocol
  rounds := 9
  subject := Custom.subject
    { name := "wavering"
      features := []
      elements := [.int 1, .int 2, .int 3]
      factory := Blueprint.factory 0 (.ofList [] declared :: sources ++
        [.indexed .neverShrinking (.int 3) .identity (some { characteristics := declared })])
      size := .int 3 }
  strategies := [.bulkDrain, .bulkDrain, .maximumSplit, .maximumSplit]
  equivalence := NamedEquivalence.sameValueZero.holds
  naturalComparator := naturalOrder

theorem knownOrder_findings_wavering :
    let c := wavering (.int 0) [.ofList [.int 1, .int 2, .int 3] (.int 0),
      .ofList [.int 1, .int 2] (.int 0), .ofList [.int 1, .int 3, .int 2] (.int 0)]
    ∃ failures w, knownOrder.run c ⟨#[], #[], #[0]⟩ = .ok failures w ∧
      failures.map (fun f => (f.strategy, f.code)) =
        [(some "BULK_DRAIN", .orderMismatch), (some "MAXIMUM_SPLIT", .orderMismatch),
          (some "MAXIMUM_SPLIT", .splitNotShrinking)] := by
  intro c
  have asked : askFresh c.subject (c.protocol.hasCharacteristics (.ofFlag .ordered))
      ⟨#[], #[], #[0]⟩ = .ok true ⟨#[], #[], #[1]⟩ := rfl
  have first : traverseFresh c .bulkDrain ⟨#[], #[], #[1]⟩ =
      .ok (.complete [.int 1, .int 2, .int 3]) ⟨#[], #[], #[2]⟩ := rfl
  have second : traverseFresh c .bulkDrain ⟨#[], #[], #[2]⟩ =
      .ok (.complete [.int 1, .int 2]) ⟨#[], #[], #[3]⟩ := rfl
  have third : traverseFresh c .maximumSplit ⟨#[], #[], #[3]⟩ =
      .ok (.complete [.int 1, .int 3, .int 2]) ⟨#[], #[], #[4]⟩ := rfl
  have fourth : traverseFresh c .maximumSplit ⟨#[], #[], #[4]⟩ =
      .ok (.stalled ⟨.notShrinking, .int 3, .int 3, 1⟩) ⟨#[], #[], #[5]⟩ := rfl
  obtain ⟨failures, ran, findings⟩ :=
    (knownOrder_findings c Value.sameValueZero rfl asked).2 rfl rfl
      (.cons first (.cons second (.cons third (.cons fourth (.nil _)))))
  refine ⟨failures, _, ran, ?_⟩
  rcases findings with _ | ⟨one, _ | ⟨two, _ | ⟨three, _ | ⟨four, ⟨⟩⟩⟩⟩⟩
  cases one with
  | differs apart => exact absurd (List.forall₂_same.mpr fun a _ => a.sameValueZero_self) apart
  | agrees =>
    cases two with
    | agrees agree => cases agree.length_eq
    | differs _ _ shorter =>
      cases three with
      | agrees agree =>
        rcases agree with _ | ⟨_, _ | ⟨same, _⟩⟩
        cases same
      | differs _ _ turned =>
        cases four with
        | stalled stalls =>
          simp only [Option.toList_none, Option.toList_some, List.nil_append, List.cons_append,
            List.append_nil, List.map_cons, List.map_nil, shorter.strategy, shorter.code,
            turned.strategy, turned.code, stalls.strategy, stalls.code]
          rfl

def traverseSorted (c : CheckContext σ ω) (strategy : Strategy) :
    Activity ω (Option (Comparator Value) × Traversal Value) := fun w =>
  match c.subject.splitSource w with
  | .error e w => .error (.threw e) w
  | .ok own w =>
    match c.protocol.comparator ⟨own, w⟩ with
    | .error e s => .error (.threw e) s.shared
    | .ok order s =>
      match c.protocol.traverse c.rounds strategy s with
      | .error h s => .error h s.shared
      | .ok t s => .ok (order, t) s.shared

/-- What one traversal shows of a sorted source. A source without a comparator has natural order. -/
inductive SortedFinding (natural : Comparator Value) (strategy : Strategy) :
    Option (Comparator Value) × Traversal Value → Option Failure → Prop
  | stalled {order : Option (Comparator Value)} {stall : Stall} {failure : Failure}
      (reports : failure.Reports "comparator" strategy .splitNotShrinking) :
      SortedFinding natural strategy (order, .stalled stall) (some failure)
  | ordered {order : Option (Comparator Value)} {actual : List Value}
      (ordered : ¬(order.getD natural).Disordered actual) :
      SortedFinding natural strategy (order, .complete actual) none
  | disordered {order : Option (Comparator Value)} {actual sorted : List Value} {failure : Failure}
      (disordered : (order.getD natural).Disordered actual)
      (reports : failure.Reports "comparator" strategy .notSorted)
      (visited : failure.actual = some (.list actual))
      (wanted : failure.expected = some (.list sorted)) (perm : sorted.Perm actual) :
      SortedFinding natural strategy (order, .complete actual) (some failure)

theorem sortVerdict_finding {natural : Comparator Value} {order : Option (Comparator Value)}
    {actual : List Value} (preorder : (order.getD natural).TotalPreorder (· ∈ actual))
    (strategy : Strategy) :
    ∃ found, sortVerdict (order.getD natural) strategy actual = .ok found ∧
      SortedFinding natural strategy (order, .complete actual) found := by
  rcases preorder.isOrdered_cases fun _ here => here with ⟨ordered, told⟩ | ⟨disordered, told⟩
  · refine ⟨none, ?_, .ordered ordered⟩
    simp only [sortVerdict, told]
  · obtain ⟨sorted, made, perm⟩ := preorder.exists_sortValues fun _ here => here
    refine ⟨some (sortFailure strategy sorted actual), ?_,
      .disordered disordered ⟨rfl, rfl, rfl⟩ rfl rfl perm⟩
    simp only [sortVerdict, told, made]

section

variable {strategy : Strategy} {u v : ω} {order : Option (Comparator Value)} {t : Traversal Value}

theorem traverseSorted_eq_ok (ran : traverseSorted c strategy u = .ok (order, t) v) :
    ∃ (own : σ) (w : ω) (s s' : Site σ ω), c.subject.splitSource u = .ok own w ∧
      c.protocol.comparator ⟨own, w⟩ = .ok order s ∧
      c.protocol.traverse c.rounds strategy s = .ok t s' ∧ s'.shared = v := by
  rw [traverseSorted] at ran
  split at ran
  · cases ran
  · rename_i made
    split at ran
    · cases ran
    · rename_i asked
      split at ran
      · cases ran
      · rename_i traversed
        cases ran
        exact ⟨_, _, _, _, made, asked, traversed, rfl⟩

theorem examineSorted_eq (ran : traverseSorted c strategy u = .ok (order, t) v) :
    examineSorted c strategy u =
      judge "comparator" strategy t (sortVerdict (order.getD c.naturalComparator) strategy) v := by
  obtain ⟨own, w, s, s', made, asked, traversed, rfl⟩ := traverseSorted_eq_ok ran
  simp only [examineSorted, made, asked, traversed]

end

/-- The comparator check, when the source that it asks is sorted, fails the collection once for each
strategy whose traversal stalls or visits an element before one that it is greater than, neighbours
or not, and for nothing else. Each source is judged by its own comparator. -/
theorem comparator_findings (c : CheckContext σ ω) {u v w : ω}
    (asked : askFresh c.subject (c.protocol.hasCharacteristics (.ofFlag .sorted)) u = .ok true v)
    {rounds : List (Option (Comparator Value) × Traversal Value)}
    (traversals : Rounds (traverseSorted c) c.strategies v rounds w)
    (preorders : ∀ order actual, (order, .complete actual) ∈ rounds →
      (order.getD c.naturalComparator).TotalPreorder (· ∈ actual)) :
    ∃ failures, comparator.run c u = .ok failures w ∧
      Findings (SortedFinding c.naturalComparator) c.strategies rounds failures := by
  simp only [comparator, asked]
  refine underEach_findings traversals ?_
  rintro strategy ⟨order, t⟩ x y here traversed
  rw [examineSorted_eq traversed]
  refine exists_judged ?_ ?_ y
  · rintro stall rfl
    obtain ⟨_, _, _, _, _, _, ended, _⟩ := traverseSorted_eq_ok traversed
    exact ⟨Protocol.stall?_of_traverse ended, fun _ reports => .stalled reports⟩
  · rintro actual rfl
    exact sortVerdict_finding (preorders order actual here) strategy

theorem comparator_findings_wavering :
    let c := wavering (.int 4) [.ofList [.int 1, .int 2, .int 2] (.int 4),
      .ofList [.int 2, .int 3, .int 1] (.int 4), .indexed .none (.int 3) .identity
        (some { characteristics := .int 4, order := some (Comparator.reversed naturalOrder) })]
    ∃ failures w, comparator.run c ⟨#[], #[], #[0]⟩ = .ok failures w ∧
      failures.map (fun f => (f.strategy, f.code)) =
        [(some "BULK_DRAIN", .notSorted), (some "MAXIMUM_SPLIT", .notSorted),
          (some "MAXIMUM_SPLIT", .splitNotShrinking)] := by
  intro c
  have asked : askFresh c.subject (c.protocol.hasCharacteristics (.ofFlag .sorted))
      ⟨#[], #[], #[0]⟩ = .ok true ⟨#[], #[], #[1]⟩ := rfl
  have first : traverseSorted c .bulkDrain ⟨#[], #[], #[1]⟩ =
      .ok (none, .complete [.int 1, .int 2, .int 2]) ⟨#[], #[], #[2]⟩ := rfl
  have second : traverseSorted c .bulkDrain ⟨#[], #[], #[2]⟩ =
      .ok (none, .complete [.int 2, .int 3, .int 1]) ⟨#[], #[], #[3]⟩ := rfl
  have third : traverseSorted c .maximumSplit ⟨#[], #[], #[3]⟩ =
      .ok (some (Comparator.reversed naturalOrder), .complete [.int 0, .int 1, .int 2])
        ⟨#[], #[], #[4]⟩ := rfl
  have fourth : traverseSorted c .maximumSplit ⟨#[], #[], #[4]⟩ =
      .ok (none, .stalled ⟨.notShrinking, .int 3, .int 3, 1⟩) ⟨#[], #[], #[5]⟩ := rfl
  have numbers (actual : List Value)
      (ranked : ∀ v ∈ actual, Value.kindred (.int 0) v = true ∧ Value.hasRank v = true) :
      naturalOrder.TotalPreorder (· ∈ actual) :=
    (Value.naturalOrder_totalPreorder (.int 0)).restrict ranked
  have ascending := numbers [.int 1, .int 2, .int 2] (by decide)
  obtain ⟨failures, ran, findings⟩ := comparator_findings c asked
    (.cons first (.cons second (.cons third (.cons fourth (.nil _))))) (by
      intro order actual here
      simp only [List.mem_cons, List.not_mem_nil, Prod.mk.injEq, Traversal.complete.injEq,
        reduceCtorEq, and_false, or_false] at here
      rcases here with ⟨rfl, rfl⟩ | ⟨rfl, rfl⟩ | ⟨rfl, rfl⟩
      · exact ascending
      · exact numbers _ (by decide)
      · exact (numbers _ (by decide)).reversed)
  refine ⟨failures, _, ran, ?_⟩
  rcases findings with _ | ⟨one, _ | ⟨two, _ | ⟨three, _ | ⟨four, ⟨⟩⟩⟩⟩⟩
  cases one with
  | disordered disordered =>
    rcases ascending.isOrdered_cases fun _ here => here with ⟨ordered, _⟩ | ⟨_, told⟩
    · exact absurd disordered ordered
    · cases told
  | ordered =>
    cases two with
    | ordered ordered =>
      exact absurd ⟨1, 2, .int 3, .int 1, by decide, rfl, rfl, _, rfl, rfl⟩ ordered
    | disordered _ natural =>
      cases three with
      | ordered ordered =>
        exact absurd ⟨0, 1, .int 0, .int 1, by decide, rfl, rfl, _, rfl, rfl⟩ ordered
      | disordered _ backward =>
        cases four with
        | stalled stalls =>
          simp only [Option.toList_none, Option.toList_some, List.nil_append, List.cons_append,
            List.append_nil, List.map_cons, List.map_nil, natural.strategy, natural.code,
            backward.strategy, backward.code, stalls.strategy, stalls.code]
          rfl

end BuiltIn
end SplitTraversal
