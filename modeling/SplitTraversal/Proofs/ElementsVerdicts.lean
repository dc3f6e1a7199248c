import SplitTraversal.Collection.Basic
import SplitTraversal.Conformance.BuiltIn
import SplitTraversal.Proofs.MultisetDifference

/-! What the elements check reports: one failure for each traversal that stalls or that visits
anything but a rearrangement of the expected elements, whatever sources it is given, and nothing
else. -/

namespace SplitTraversal

namespace Value

theorem exists_text_of_objectPrimitive {fields : List (String × Value)} {p : Value} (id : Nat)
    (made : objectPrimitive .number fields = .ok p) : ∃ s, (object fields id).text = .ok s := by
  show ∃ s, textWithin (.object fields id) = .ok s
  simp only [textWithin, objectPrimitive] at made ⊢
  cases method : fields.lookup "toString" with
  | none => exact ⟨_, rfl⟩
  | some f =>
    simp only [method] at made ⊢
    split at made
    · rename_i callable
      rw [if_pos callable]
      exact ⟨_, rfl⟩
    · cases made

theorem exists_text_of_primitive {v p : Value} (plain : v.primitive .number = .ok p) :
    ∃ s, v.text = .ok s := by
  cases v with
  | array items id =>
    show ∃ s, textWithin (.array items id) = .ok s
    rw [primitive] at plain
    cases written : textWithin (.array items id) with
    | ok s => exact ⟨s, rfl⟩
    | error e =>
      rw [written] at plain
      cases plain
  | object fields id => exact exists_text_of_objectPrimitive id plain
  | _ => exact ⟨_, rfl⟩

theorem exists_texts_of_isAtMost {a b : Value} {answer : Bool}
    (compared : a.isAtMost b = .ok answer) :
    ∃ s t, a.text = .ok s ∧ b.text = .ok t := by
  rw [isAtMost, order?] at compared
  cases left : a.primitive .number with
  | error e =>
    rw [left] at compared
    cases compared
  | ok x =>
    cases right : b.primitive .number with
    | error e =>
      rw [left, right] at compared
      cases compared
    | ok y =>
      obtain ⟨s, writtenLeft⟩ := exists_text_of_primitive left
      obtain ⟨t, writtenRight⟩ := exists_text_of_primitive right
      exact ⟨s, t, writtenLeft, writtenRight⟩

end Value

namespace Protocol

variable {σ ω α : Type} {p : Protocol σ ω α} {stall : Stall}

theorem stall?_of_splitGuarded {sized : Bool} {rounds : Nat} {x u : Site σ ω × Tally α}
    (stalled : p.splitGuarded sized rounds x = .ok (some stall) u) :
    ∃ sized before after splits, stall? sized before after splits = .ok (some stall) := by
  induction rounds generalizing sized x u with
  | zero => cases stalled
  | succ rounds ih =>
    obtain ⟨s, t⟩ := x
    rw [splitGuarded] at stalled
    split at stalled
    · cases stalled
    · split at stalled
      · cases stalled
      · split at stalled <;> cases stalled
      · split at stalled
        · cases stalled
        · simp only at stalled
          split at stalled
          · cases stalled
          · rename_i judged
            cases stalled
            exact ⟨_, _, _, _, judged⟩
          · split at stalled
            · cases stalled
            · split at stalled
              · cases stalled
              · rename_i ended
                cases stalled
                exact ih ended
              · exact ih stalled

theorem stall?_of_traverse {rounds : Nat} {strategy : Strategy} {s u : Site σ ω}
    (stalled : p.traverse rounds strategy s = .ok (.stalled stall) u) :
    ∃ sized before after splits, stall? sized before after splits = .ok (some stall) := by
  cases strategy with
  | maximumSplit =>
    simp only [traverse] at stalled
    split at stalled
    · cases stalled
    · split at stalled
      · cases stalled
      · rename_i ended
        cases stalled
        exact stall?_of_splitGuarded ended
      · cases stalled
  | _ =>
    simp only [traverse] at stalled
    split at stalled <;> cases stalled

end Protocol

structure Failure.Reports (failure : Failure) (check : String) (strategy : Strategy)
    (code : FailureCode) : Prop where
  check : failure.check = check
  strategy : failure.strategy = some strategy.name
  code : failure.code = code

/-- Whatever the guard stopped at can be reported: estimates that were compared have texts. -/
theorem Stall.exists_failure {sized : Bool} {before after : Value} {splits : Nat} {stall : Stall}
    (raised : Protocol.stall? sized before after splits = .ok (some stall)) (check : String)
    (strategy : Strategy) :
    ∃ failure, stall.failure check strategy = .ok failure ∧
      failure.Reports check strategy .splitNotShrinking := by
  cases sized with
  | false =>
    by_cases many : unsizedSplitLimit < splits
    · simp only [Protocol.stall?, if_pos many] at raised
      cases raised
      exact ⟨_, rfl, ⟨rfl, rfl, rfl⟩⟩
    · simp only [Protocol.stall?, if_neg many] at raised
      cases raised
  | true =>
    simp only [Protocol.stall?, if_true] at raised
    cases compared : before.isAtMost after with
    | error e =>
      rw [compared] at raised
      cases raised
    | ok stuck =>
      obtain ⟨size, rest, writtenSize, writtenRest⟩ := Value.exists_texts_of_isAtMost compared
      rw [compared] at raised
      cases stuck with
      | false => cases raised
      | true =>
        cases raised
        have told : ∃ failure, notShrinkingFailure check (some strategy.name) before after =
            .ok failure ∧ failure.Reports check strategy .splitNotShrinking := by
          rw [notShrinkingFailure, writtenSize, writtenRest]
          exact ⟨_, rfl, ⟨rfl, rfl, rfl⟩⟩
        exact told

namespace BuiltIn

variable {σ ω : Type} {c : CheckContext σ ω} {same : Value → Value → Bool}

/-- Fresh sources traversed under one strategy after the other, and what each traversal came to. -/
inductive Traversals (c : CheckContext σ ω) :
    List Strategy → ω → List (Traversal Value) → ω → Prop
  | nil (w : ω) : Traversals c [] w [] w
  | cons {strategy : Strategy} {rest : List Strategy} {t : Traversal Value}
      {ts : List (Traversal Value)} {u v w : ω} (first : traverseFresh c strategy u = .ok t v)
      (later : Traversals c rest v ts w) : Traversals c (strategy :: rest) u (t :: ts) w

/-- One failure for each traversal that is at fault, in the order of the strategies. -/
inductive Faults (same : Value → Value → Bool) (expected : List Value) :
    List Strategy → List (Traversal Value) → List Failure → Prop
  | nil : Faults same expected [] [] []
  | matched {strategy : Strategy} {strategies : List Strategy} {actual : List Value}
      {ts : List (Traversal Value)} {failures : List Failure}
      (rearranged : Matching.Rearranged same expected actual)
      (later : Faults same expected strategies ts failures) :
      Faults same expected (strategy :: strategies) (.complete actual :: ts) failures
  | mismatched {strategy : Strategy} {strategies : List Strategy} {actual : List Value}
      {ts : List (Traversal Value)} {failure : Failure} {failures : List Failure}
      (differs : ¬Matching.Rearranged same expected actual)
      (reports : failure.Reports "elements" strategy .elementsMismatch)
      (wanted : failure.expected = some (.list expected))
      (visited : failure.actual = some (.list actual))
      (later : Faults same expected strategies ts failures) :
      Faults same expected (strategy :: strategies) (.complete actual :: ts) (failure :: failures)
  | stalled {strategy : Strategy} {strategies : List Strategy} {stall : Stall}
      {ts : List (Traversal Value)} {failure : Failure} {failures : List Failure}
      (reports : failure.Reports "elements" strategy .splitNotShrinking)
      (later : Faults same expected strategies ts failures) :
      Faults same expected (strategy :: strategies) (.stalled stall :: ts) (failure :: failures)

theorem Traversals.exists_stall? {strategies : List Strategy} {ts : List (Traversal Value)}
    {u w : ω} (traversals : Traversals c strategies u ts w) {stall : Stall}
    (here : .stalled stall ∈ ts) :
    ∃ sized before after splits, Protocol.stall? sized before after splits = .ok (some stall) := by
  induction traversals with
  | nil => exact (List.not_mem_nil here).elim
  | cons first _ ih =>
    rcases List.mem_cons.mp here with rfl | later
    · rw [traverseFresh] at first
      split at first
      · cases first
      · split at first
        · rename_i traversed
          cases first
          exact Protocol.stall?_of_traverse traversed
        · cases first
    · exact ih later

theorem judge_complete {check : String} {strategy : Strategy} {actual : List Value}
    {verdict : List Value → Except Thrown (Option Failure)} {found : Option Failure}
    (told : verdict actual = .ok found) (w : ω) :
    judge check strategy (.complete actual) verdict w = .ok found w := by
  simp only [judge, Action.lift, Action.ofExcept, told]

theorem judge_stalled {check : String} {strategy : Strategy} {stall : Stall} {failure : Failure}
    (told : stall.failure check strategy = .ok failure)
    (verdict : List Value → Except Thrown (Option Failure)) (w : ω) :
    judge check strategy (.stalled stall) verdict w = .ok (some failure) w := by
  simp only [judge, Action.lift, Action.ofExcept, told]
  rfl

theorem elementsVerdict_unmatched {expected actual missing unexpected : List Value}
    (compared : Matching.multisetDiff (Matching.decided same) expected actual =
      .ok (missing, unexpected))
    (unmatched : ¬(missing = [] ∧ unexpected = [])) (strategy : Strategy) :
    elementsVerdict (Matching.decided same) strategy expected actual =
      .ok (some (elementsFailure strategy expected actual missing unexpected)) := by
  rw [elementsVerdict, compared]
  cases missing with
  | nil =>
    cases unexpected with
    | nil => exact absurd ⟨rfl, rfl⟩ unmatched
    | cons b more => rfl
  | cons a more => rfl

section Equivalences

variable {s : Setoid Value} (decides : ∀ a b, same a b = true ↔ s a b)

include decides

theorem elementsVerdict_cases (strategy : Strategy) (expected actual : List Value) :
    (Matching.Rearranged same expected actual ∧
      elementsVerdict (Matching.decided same) strategy expected actual = .ok none) ∨
    ¬Matching.Rearranged same expected actual ∧ ∃ missing unexpected,
      elementsVerdict (Matching.decided same) strategy expected actual =
        .ok (some (elementsFailure strategy expected actual missing unexpected)) := by
  obtain ⟨missing, unexpected, compared, claims⟩ :=
    Matching.exists_claims same expected actual
  have exact := claims.nil_iff decides
  by_cases nothing : missing = [] ∧ unexpected = []
  · left
    refine ⟨exact.mp nothing, ?_⟩
    obtain ⟨rfl, rfl⟩ := nothing
    rw [elementsVerdict, compared]
  · right
    exact ⟨fun rearranged => nothing (exact.mpr rearranged), missing, unexpected,
      elementsVerdict_unmatched compared nothing strategy⟩

theorem underEach_faults (agrees : c.equivalence = Matching.decided same) (expected : List Value)
    {strategies : List Strategy} {ts : List (Traversal Value)} {u w : ω}
    (traversals : Traversals c strategies u ts w) :
    ∃ failures, underEach (fun strategy w =>
        match traverseFresh c strategy w with
        | .error h w => .error h w
        | .ok t w =>
          judge "elements" strategy t (elementsVerdict c.equivalence strategy expected) w)
        strategies u = .ok failures w ∧ Faults same expected strategies ts failures := by
  rw [agrees]
  induction traversals with
  | nil w => exact ⟨[], rfl, .nil⟩
  | @cons strategy rest t ts u v w first later ih =>
    obtain ⟨failures, ran, faults⟩ := ih
    cases t with
    | stalled stall =>
      obtain ⟨_, _, _, _, raised⟩ :=
        (Traversals.cons first later).exists_stall? (List.mem_cons_self ..)
      obtain ⟨failure, told, reports⟩ := Stall.exists_failure raised "elements" strategy
      refine ⟨failure :: failures, ?_, .stalled reports faults⟩
      simp only [underEach, first, judge_stalled told, ran, Option.toList_some,
        List.cons_append, List.nil_append]
    | complete actual =>
      rcases elementsVerdict_cases decides strategy expected actual with
        ⟨rearranged, told⟩ | ⟨differs, missing, unexpected, told⟩
      · refine ⟨failures, ?_, .matched rearranged faults⟩
        simp only [underEach, first, judge_complete told, ran, Option.toList_none,
          List.nil_append]
      · refine ⟨elementsFailure strategy expected actual missing unexpected :: failures, ?_,
          .mismatched differs ⟨rfl, rfl, rfl⟩ rfl rfl faults⟩
        simp only [underEach, first, judge_complete told, ran, Option.toList_some,
          List.cons_append, List.nil_append]

end Equivalences

theorem Faults.nil_iff {expected : List Value} {strategies : List Strategy}
    {ts : List (Traversal Value)} {failures : List Failure}
    (faults : Faults same expected strategies ts failures) :
    failures = [] ↔
      ∀ t ∈ ts, ∃ actual, t = .complete actual ∧ Matching.Rearranged same expected actual := by
  induction faults with
  | nil => exact iff_of_true rfl fun t none => (List.not_mem_nil none).elim
  | @matched _ _ actual _ _ rearranged _ ih =>
    rw [List.forall_mem_cons, ih]
    exact (and_iff_right ⟨actual, rfl, rearranged⟩).symm
  | mismatched differs =>
    refine iff_of_false (List.cons_ne_nil _ _) ?_
    intro clean
    obtain ⟨actual, visited, rearranged⟩ := clean _ (List.mem_cons_self ..)
    cases visited
    exact differs rearranged
  | stalled =>
    refine iff_of_false (List.cons_ne_nil _ _) ?_
    intro clean
    obtain ⟨actual, visited, _⟩ := clean _ (List.mem_cons_self ..)
    cases visited

/-- The elements check fails a collection once for each strategy whose traversal stalls or visits
something else than the expected elements in some order, and for nothing else. Each traversal may be
of another source. -/
theorem elements_faults (c : CheckContext σ ω) {s : Setoid Value}
    (decides : ∀ a b, same a b = true ↔ s a b) (agrees : c.equivalence = Matching.decided same)
    {expected : List Value} {u v w : ω} (sampled : c.subject.sampleElements u = .ok expected v)
    {ts : List (Traversal Value)} (traversals : Traversals c c.strategies v ts w) :
    ∃ failures, elements.run c u = .ok failures w ∧
      Faults same expected c.strategies ts failures ∧
      (failures = [] ↔
        ∀ t ∈ ts, ∃ actual, t = .complete actual ∧ Matching.Rearranged same expected actual) := by
  obtain ⟨failures, ran, faults⟩ := underEach_faults decides agrees expected traversals
  refine ⟨failures, ?_, faults, faults.nil_iff⟩
  simp only [elements, sampled]
  exact ran

/-- Hands out a list in another order, then a source whose parts overlap, then one that never
shrinks. -/
def fickle : CheckContext Node Bench where
  protocol := Node.protocol
  rounds := 9
  subject := Custom.subject
    { name := "fickle"
      features := []
      elements := [.int 1, .int 2, .int 2]
      factory := Blueprint.factory 0 [.ofList [.int 2, .int 1, .int 2] (.int 0),
        .overlapping [.int 1, .int 2, .int 2],
        .indexed .neverShrinking (.int 3) .identity (some { characteristics := .int 0 })]
      size := .int 3 }
  strategies := [.bulkDrain, .maximumSplit, .maximumSplit]
  equivalence := NamedEquivalence.sameValueZero.holds
  naturalComparator := naturalOrder

theorem elements_faults_fickle :
    let bench : Bench := ⟨#[], #[], #[0]⟩
    ∃ ts w failures, Traversals fickle fickle.strategies bench ts w ∧
      elements.run fickle bench = .ok failures w ∧
      failures.map (fun f => (f.strategy, f.code)) =
        [(some "MAXIMUM_SPLIT", .elementsMismatch), (some "MAXIMUM_SPLIT", .splitNotShrinking)] := by
  intro bench
  have first : traverseFresh fickle .bulkDrain bench =
      .ok (.complete [.int 2, .int 1, .int 2]) ⟨#[], #[], #[1]⟩ := rfl
  have second : traverseFresh fickle .maximumSplit ⟨#[], #[], #[1]⟩ =
      .ok (.complete [.int 1, .int 2, .int 2, .int 2]) ⟨#[], #[], #[2]⟩ := rfl
  have third : traverseFresh fickle .maximumSplit ⟨#[], #[], #[2]⟩ =
      .ok (.stalled ⟨.notShrinking, .int 3, .int 3, 1⟩) ⟨#[], #[], #[3]⟩ := rfl
  have traversals : Traversals fickle fickle.strategies bench
      [.complete [.int 2, .int 1, .int 2], .complete [.int 1, .int 2, .int 2, .int 2],
        .stalled ⟨.notShrinking, .int 3, .int 3, 1⟩] ⟨#[], #[], #[3]⟩ :=
    .cons first (.cons second (.cons third (.nil _)))
  obtain ⟨failures, ran, faults, _⟩ := elements_faults fickle Value.sameValueZero_iff_sameness
    rfl rfl traversals
  refine ⟨_, _, failures, traversals, ran, ?_⟩
  cases faults with
  | mismatched differs =>
    have turned : List.Perm [Value.int 1, .int 2, .int 2] [.int 2, .int 1, .int 2] := .swap _ _ _
    exact absurd ⟨_, turned, List.forall₂_same.mpr fun a _ => a.sameValueZero_self⟩ differs
  | matched _ faults =>
    cases faults with
    | matched rearranged => cases rearranged.length_eq
    | mismatched _ mismatch _ _ faults =>
      cases faults with
      | stalled stall faults =>
        cases faults
        rw [List.map_cons, List.map_singleton, mismatch.strategy, mismatch.code, stall.strategy,
          stall.code]
        rfl

end BuiltIn
end SplitTraversal
