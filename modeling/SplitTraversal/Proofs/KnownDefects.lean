import SplitTraversal.Proofs.ForeseenReports
import SplitTraversal.Proofs.GuardedEnds
import SplitTraversal.Proofs.OrderVerdicts
import SplitTraversal.Proofs.OverlappingSplits
import SplitTraversal.Proofs.UnshrinkingSplits

/-! The defects that a harness is known to find: splits that overlap, splits that leave as much as
there was, and such splits of a source without a size. Each is found in collections of any size, and
nothing else is found with it. -/

namespace SplitTraversal

theorem Matching.decided_self {α : Type} {same : α → α → Bool} (reflexive : ∀ a, same a a = true)
    (a : α) : decided same a a = .ok true := congrArg Except.ok (reflexive a)

namespace BuiltIn

section Longer

variable (same : Value → Value → Bool) {expected actual : List Value}

theorem elementsVerdict_longer (longer : expected.length < actual.length) (strategy : Strategy) :
    ∃ missing unexpected,
      Matching.multisetDiff (Matching.decided same) expected actual = .ok (missing, unexpected) ∧
      elementsVerdict (Matching.decided same) strategy expected actual =
        .ok (some (elementsFailure strategy expected actual missing unexpected)) := by
  obtain ⟨missing, unexpected, compared, claims⟩ := Matching.exists_claims same expected actual
  refine ⟨missing, unexpected, compared, elementsVerdict_unmatched compared ?_ strategy⟩
  rintro ⟨-, rfl⟩
  have level := claims.leftover.length_eq
  rw [List.length_nil] at level
  omega

theorem orderVerdict_longer (longer : expected.length < actual.length) (strategy : Strategy) :
    ∃ position,
      Matching.firstDifference (Matching.decided same) expected actual = .ok (some position) ∧
      orderVerdict (Matching.decided same) strategy expected actual =
        .ok (some (orderFailure strategy expected actual position)) := by
  rcases Matching.firstDifferenceFrom_decided same 0 expected actual with
    ⟨agree, _⟩ | ⟨position, _, told⟩
  · exact absurd agree.length_eq (Nat.ne_of_lt longer)
  · rw [Nat.zero_add] at told
    refine ⟨position, told, ?_⟩
    simp only [orderVerdict, Matching.firstDifference, told]

end Longer

def overlapFailure (size : Nat) : Failure where
  check := "estimateSize"
  code := .subsizeMismatch
  expected := some (.int size)
  actual := some (.int (size + 1))
  message :=
    let part := (Number.integer (size / 2 + 1 : Nat)).text
    let rest := (Number.integer (size - size / 2 : Nat)).text
    s!"after one split, prefix {part} + remainder {rest} " ++
      s!"does not add up to the pre-split size {(Number.integer size).text}"

def stuckFailure (check : String) (strategy : Option String) (size : Number) : Failure where
  check
  code := .splitNotShrinking
  strategy
  expected := some (.string ("< " ++ size.text))
  actual := some (.number size)
  message :=
    s!"trySplit() returned a prefix but the remainder stayed at {size.text} of {size.text}"

def endlessFailure : Failure where
  check := "elements"
  code := .splitNotShrinking
  strategy := some "MAXIMUM_SPLIT"
  expected := some (.string "at most 1000000 splits")
  actual := some (.int 1000001)
  message := "trySplit() kept returning prefixes past 1000000 splits"

end BuiltIn

open BuiltIn

variable {ω η β : Type} {rounds : Nat}

namespace Overlapping

variable {elements : List Value}

theorem shows (several : 3 ≤ elements.length) (enough : elements.length < rounds) :
    (protocol : Protocol (Overlapping Value) ω Value).Shows rounds (ofList elements) flags elements
      (.complete (neighbours elements)) where
  unsorted := by decide
  characteristics _ := rfl
  hasCharacteristics sought _ := Source.hasFlags_eq rfl sought
  comparator w := ⟨_, _, rfl, rfl⟩
  traverse {strategy} whole w := by
    cases strategy with
    | bulkDrain =>
      obtain ⟨t, drained⟩ := forEachRemaining_visits (s := ofList elements) (Nat.le_refl _) w #[]
      rw [remaining_ofList, Array.empty_append] at drained
      have collected : protocol.decompose rounds .bulkDrain .collecting (⟨ofList elements, w⟩, #[]) =
          .ok () (⟨t, w⟩, elements.toArray) :=
        (Protocol.bulkDrain_eq protocol .collecting _ _).trans (congrArg Outcome.halting drained)
      exact ⟨⟨t, w⟩, by simp only [Protocol.traverse, Protocol.collect, collected]⟩
    | stepAdvance =>
      obtain ⟨t, drained⟩ := stepAdvance_visits (s := ofList elements) (Nat.le_refl _) w #[] rounds
        (by rwa [remaining_ofList])
      rw [remaining_ofList, Array.empty_append] at drained
      have collected : protocol.decompose rounds .stepAdvance .collecting
          (⟨ofList elements, w⟩, #[]) = .ok () (⟨t, w⟩, elements.toArray) := drained
      exact ⟨⟨t, w⟩, by simp only [Protocol.traverse, Protocol.collect, collected]⟩
    | maximumSplit => exact absurd rfl whole
  split w := traverse_visits (by omega) enough w

theorem splitVerdict_overlap {size : Nat} (several : 3 ≤ size) (small : size < Number.maxSafe) :
    splitVerdict (.int size) (.int (size - size / 2 : Nat)) (some (.int (size / 2 + 1 : Nat))) =
      .ok [overlapFailure size] := by
  have sum : (Value.int (size / 2 + 1 : Nat)).add (.int (size - size / 2 : Nat)) =
      .ok (.int (size + 1)) := by
    rw [Value.add_int (by omega)]
    congr 2
    omega
  have more : (Value.int (size + 1)).strictEquals (.int size) = false := by
    have apart : (size : Int) + 1 ≠ size := by omega
    exact beq_eq_false_iff_ne.mpr apart
  have less : (Value.int size).isAtMost (.int (size - size / 2 : Nat)) = .ok false := by
    rw [Value.isAtMost_int, decide_eq_false (by omega)]
  simp only [splitVerdict, Option.getD_some, sumVerdict, sum, more, shrinkVerdict, less]
  rfl

theorem examineSplit_overlap {s : Overlapping Value} {size : Nat}
    (counted : s.limit - s.position = size) (several : 3 ≤ size) (small : size < Number.maxSafe)
    (w : ω) : ∃ t, examineSplit protocol (.int size) ⟨s, w⟩ = .ok [overlapFailure size] t := by
  have left : (s.limit : Int) - ((s.position + size / 2 : Nat) : Int) =
      ((size - size / 2 : Nat) : Int) := by omega
  have part : ((s.position + size / 2 + 1 : Nat) : Int) - s.position =
      ((size / 2 + 1 : Nat) : Int) := by omega
  have judged := splitVerdict_overlap several small
  rw [← left, ← part] at judged
  simp only [examineSplit, trySplit_some counted several, estimateSize_eq, judged, Action.ofExcept]
  exact ⟨_, rfl⟩

end Overlapping

namespace Flawed

variable {s : Indexed ω Value} {f : Nat → Value}

theorem estimate_counts (accepted : s.Accepted) :
    (Value.number s.estimate).Counts s.remaining.length := by
  refine ⟨s.estimate, rfl, ?_⟩
  have same := Indexed.estimate_same (f := fun _ => Value.undefined) accepted
  rwa [Indexed.view, List.length_map] at same

theorem estimate_stuck (accepted : s.Accepted) :
    (Value.number s.estimate).isAtMost (.number s.estimate) = .ok true := by
  rw [(estimate_counts accepted).isAtMost (estimate_counts accepted), decide_eq_true (Nat.le_refl _)]

theorem shows_neverShrinking (accepted : s.Accepted) (reads : s.Reads f)
    (enough : s.remaining.length < rounds) (unsorted : s.characteristics.contains .sorted = false) :
    (protocol .undefined : Protocol (Flawed ω Value) ω Value).Shows rounds ⟨s, .neverShrinking⟩
      s.characteristics (s.remaining.map f)
      (.stalled ⟨.notShrinking, .number s.estimate, .number s.estimate, 1⟩) where
  unsorted := by rw [← Characteristics.contains_eq_hasAll, unsorted]
  characteristics _ := rfl
  hasCharacteristics sought _ := Source.hasFlags_eq rfl sought
  comparator w := ⟨_, _, if_neg (Bool.eq_false_iff.mp unsorted), rfl⟩
  traverse whole w := traverse_whole _ reads enough .neverShrinking whole w
  split w :=
    traverse_stuck _ (estimate_stuck accepted) (accepted.hasAll (by decide)) (Nat.zero_lt_of_lt enough) w

/-- The parts add up, since one of them is empty. -/
theorem sum_same (accepted : s.Accepted) :
    ((Number.integer 0).add s.estimate).same s.estimate = true := by
  cases minus : s.minusZero with
  | true =>
    rw [Indexed.estimate, if_pos minus]
    decide +kernel
  | false =>
    have small := accepted.limit_le
    have within := accepted.offset_le
    have sum : (Number.integer 0).add (.integer ((s.limit : Int) - s.offset)) =
        .integer (0 + ((s.limit : Int) - s.offset)) := if_pos (by omega)
    simp only [Indexed.estimate, minus, Bool.false_eq_true, if_false, sum, Number.same, Int.zero_add,
      BEq.rfl]

theorem examineSplit_stuck (accepted : s.Accepted) (w : ω) :
    ∃ t, examineSplit (protocol .undefined) (.number s.estimate) ⟨⟨s, .neverShrinking⟩, w⟩ =
      .ok [stuckFailure "estimateSize" none s.estimate] t := by
  have cut : (protocol .undefined).trySplit ⟨⟨s, .neverShrinking⟩, w⟩ =
      .ok (some (piece .undefined)) ⟨⟨s, .neverShrinking⟩, w⟩ := rfl
  have left : (protocol .undefined).estimateSize ⟨⟨s, .neverShrinking⟩, w⟩ =
      .ok (.number s.estimate) ⟨⟨s, .neverShrinking⟩, w⟩ := rfl
  have off : (protocol .undefined).estimateSize ⟨(piece .undefined : Flawed ω Value), w⟩ =
      .ok (.int 0) ⟨piece .undefined, w⟩ := rfl
  have sum : (Value.int 0).add (.number s.estimate) =
      .ok (.number ((Number.integer 0).add s.estimate)) := rfl
  have same : (Value.number ((Number.integer 0).add s.estimate)).strictEquals
      (.number s.estimate) = true := sum_same accepted
  have told : notShrinkingFailure "estimateSize" none (.number s.estimate) (.number s.estimate) =
      .ok (stuckFailure "estimateSize" none s.estimate) := rfl
  simp only [examineSplit, cut, left, off, splitVerdict, Option.getD_some, sumVerdict, sum, same,
    if_true, Option.isSome_some, shrinkVerdict, estimate_stuck accepted, told]
  exact ⟨_, rfl⟩

theorem shows_unsized (reads : s.Reads f) (enough : s.remaining.length < rounds)
    (endless : unsizedSplitLimit < rounds) (unsorted : s.characteristics.contains .sorted = false) :
    (protocol .undefined : Protocol (Flawed ω Value) ω Value).Shows rounds
      ⟨s, .unsizedNeverShrinking⟩ .none (s.remaining.map f)
      (.stalled ⟨.splitLimit, .number s.estimate, .number s.estimate, unsizedSplitLimit + 1⟩) where
  unsorted := by decide
  characteristics _ := rfl
  hasCharacteristics sought _ := Source.hasFlags_eq rfl sought
  comparator w := ⟨_, _, if_neg (Bool.eq_false_iff.mp unsorted), rfl⟩
  traverse whole w := traverse_whole _ reads enough .unsizedNeverShrinking whole w
  split w := traverse_endless _ endless w

end Flawed

namespace Harness

variable {σ : Type} {audience : Audience EventKind η Event β} {calm : Bus EventKind η × β → Prop}
  {same : Value → Value → Bool} {strategies : List Strategy}

/-- On a collection without features whose fresh sources are like this one and that expects these
elements, a run with the built-in checks under these strategies reports just these failures. -/
def Finds (p : Protocol σ ω Value) (rounds : Nat) (audience : Audience EventKind η Event β)
    (calm : Bus EventKind η × β → Prop) (same : Value → Value → Bool) (strategies : List Strategy)
    (s : σ) (expected : List Value) (failures : List Failure) : Prop :=
  ∃ h : Harness σ ω,
    create p rounds .withDefaults
        { strategies := .only (strategies.map Strategy.name)
          equivalence := Matching.decided same } = .ok h ∧
      ∀ (name : String) (factory : Action ω σ), (∀ w, ∃ v, factory w = .ok s v) →
        ∀ t : Stage η β ω, calm (t.bus, t.memory) →
          ∃ report u,
            h.run audience (Custom.expecting name expected factory).subject t = .ok report u ∧
              report.failures = failures

theorem finds_of_checks {p : Protocol σ ω Value} {s : σ} {flags : Characteristics}
    {expected : List Value} {split : Traversal Value} (hears : audience.Hears rounds calm)
    (nonempty : strategies ≠ []) (shows : p.Shows rounds s flags expected split)
    (first second third : List Failure)
    (found : ∀ (name : String) (factory : Action ω σ), (∀ w, ∃ v, factory w = .ok s v) →
      let c := (crossing p rounds (Matching.decided same) naturalOrder strategies).context
        (Custom.expecting name expected factory).subject
      (∀ w, ∃ v, BuiltIn.elements.run c w = .ok first v) ∧
        (∀ w, ∃ v, BuiltIn.knownOrder.run c w = .ok second v) ∧
        ∀ w, ∃ v, BuiltIn.estimateSize.run c w = .ok third v) :
    Finds p rounds audience calm same strategies s expected (first ++ (second ++ third)) := by
  refine ⟨_, create_crossing nonempty, fun name factory fresh t now => ?_⟩
  obtain ⟨visits, order, sizes⟩ := found name factory fresh
  exact run_expecting hears shows fresh now visits order sizes

section Defects

variable (hears : audience.Hears rounds calm) (reflexive : ∀ v, same v v = true)
  (nonempty : strategies ≠ [])

include hears reflexive nonempty

theorem finds_overlapping {elements : List Value} (several : 3 ≤ elements.length)
    (small : elements.length < Number.maxSafe) (enough : elements.length < rounds) :
    ∃ missing unexpected position,
      Matching.multisetDiff (Matching.decided same) elements (neighbours elements) =
          .ok (missing, unexpected) ∧
        Matching.firstDifference (Matching.decided same) elements (neighbours elements) =
          .ok (some position) ∧
        Finds (ω := ω) Overlapping.protocol rounds audience calm same strategies
          (.ofList elements) elements
          (List.replicate (strategies.count .maximumSplit)
              (elementsFailure .maximumSplit elements (neighbours elements) missing unexpected) ++
            (List.replicate (strategies.count .maximumSplit)
              (orderFailure .maximumSplit elements (neighbours elements) position) ++
              [overlapFailure elements.length])) := by
  have longer := length_lt_neighbours several
  obtain ⟨missing, unexpected, compared, unmatched⟩ :=
    elementsVerdict_longer same longer .maximumSplit
  obtain ⟨position, differs, disordered⟩ := orderVerdict_longer same longer .maximumSplit
  refine ⟨missing, unexpected, position, compared, differs, ?_⟩
  have shows := Overlapping.shows (ω := ω) several enough
  have counted : (Overlapping.ofList elements).limit - (Overlapping.ofList elements).position =
      elements.length := Nat.sub_zero _
  refine finds_of_checks hears nonempty shows _ _ _ fun name factory fresh => ⟨?_, ?_, ?_⟩
  · exact elements_splits shows fresh (fun _ => rfl) (Matching.decided_self reflexive)
      (judge_complete unmatched)
  · exact knownOrder_splits shows fresh (by decide) (fun _ => rfl) (Matching.decided_self reflexive)
      (judge_complete disordered)
  · have estimated (w : ω) : Overlapping.protocol.estimateSize ⟨Overlapping.ofList elements, w⟩ =
        .ok (.int elements.length) ⟨Overlapping.ofList elements, w⟩ := by
      rw [Overlapping.estimateSize_eq]
      rfl
    have known (w : ω) : Overlapping.protocol.exactSizeIfKnown ⟨Overlapping.ofList elements, w⟩ =
        .ok (.int elements.length) ⟨Overlapping.ofList elements, w⟩ := by
      have declared : Overlapping.declared ⟨Overlapping.ofList elements, w⟩ =
          .ok Overlapping.flags.toValue ⟨Overlapping.ofList elements, w⟩ := rfl
      exact Source.exactSize_eq declared (estimated w)
    exact estimateSize_splits shows fresh (by decide) (by decide) (fun _ => rfl) estimated known
      (Value.strictEquals_int _) (Overlapping.examineSplit_overlap counted several small)

variable {s : Indexed ω Value} {f : Nat → Value}

theorem finds_neverShrinking (accepted : s.Accepted) (reads : s.Reads f)
    (enough : s.remaining.length < rounds) (unordered : s.characteristics.contains .ordered = false)
    (unsorted : s.characteristics.contains .sorted = false) :
    Finds (Flawed.protocol .undefined) rounds audience calm same strategies ⟨s, .neverShrinking⟩
      (s.remaining.map f)
      (List.replicate (strategies.count .maximumSplit)
          (stuckFailure "elements" (some "MAXIMUM_SPLIT") s.estimate) ++
        [stuckFailure "estimateSize" none s.estimate]) := by
  have shows := Flawed.shows_neverShrinking accepted reads enough unsorted
  have equal : (Value.number s.estimate).strictEquals (.int (s.remaining.map f).length) = true :=
    Indexed.estimate_same (f := f) accepted
  have told : Stall.failure "elements" .maximumSplit
      ⟨.notShrinking, .number s.estimate, .number s.estimate, 1⟩ =
        .ok (stuckFailure "elements" (some "MAXIMUM_SPLIT") s.estimate) := rfl
  have known (w : ω) : (Flawed.protocol .undefined).exactSizeIfKnown ⟨⟨s, .neverShrinking⟩, w⟩ =
      .ok (.number s.estimate) ⟨⟨s, .neverShrinking⟩, w⟩ := by
    have declared : Flawed.declared (⟨⟨s, .neverShrinking⟩, w⟩ : Site (Flawed ω Value) ω) =
        .ok s.characteristics.toValue ⟨⟨s, .neverShrinking⟩, w⟩ := rfl
    have estimated : Flawed.estimateSize (⟨⟨s, .neverShrinking⟩, w⟩ : Site (Flawed ω Value) ω) =
        .ok (.number s.estimate) ⟨⟨s, .neverShrinking⟩, w⟩ := rfl
    refine (Source.exactSize_eq declared estimated).trans ?_
    rw [accepted.hasAll (by decide), if_pos rfl]
  rw [Characteristics.contains_eq_hasAll] at unordered
  refine finds_of_checks hears nonempty shows _ [] _ fun name factory fresh => ⟨?_, ?_, ?_⟩
  · exact elements_splits shows fresh (fun _ => rfl) (Matching.decided_self reflexive)
      (judge_stalled told _)
  · exact knownOrder_unordered shows fresh unordered
  · exact estimateSize_splits shows fresh (accepted.hasAll (by decide))
      (accepted.hasAll (by decide)) (fun _ => rfl) (fun _ => rfl) known equal
      (Flawed.examineSplit_stuck accepted)

theorem finds_unsized (reads : s.Reads f) (enough : s.remaining.length < rounds)
    (endless : unsizedSplitLimit < rounds) (unsorted : s.characteristics.contains .sorted = false) :
    Finds (Flawed.protocol .undefined) rounds audience calm same strategies
      ⟨s, .unsizedNeverShrinking⟩ (s.remaining.map f)
      (List.replicate (strategies.count .maximumSplit) endlessFailure) := by
  have shows := Flawed.shows_unsized reads enough endless unsorted
  have told : Stall.failure "elements" .maximumSplit
      ⟨.splitLimit, .number s.estimate, .number s.estimate, unsizedSplitLimit + 1⟩ =
        .ok endlessFailure := rfl
  rw [← List.append_nil (List.replicate _ _)]
  refine finds_of_checks hears nonempty shows _ [] [] fun name factory fresh => ⟨?_, ?_, ?_⟩
  · exact elements_splits shows fresh (fun _ => rfl) (Matching.decided_self reflexive)
      (judge_stalled told _)
  · exact knownOrder_unordered shows fresh (by decide)
  · exact estimateSize_unsized shows fresh (by decide)

end Defects

structure CatchesDefects (rounds : Nat) (ω : Type) (audience : Audience EventKind η Event β)
    (calm : Bus EventKind η × β → Prop) (same : Value → Value → Bool)
    (strategies : List Strategy) : Prop where
  /-- Every element but the first and the last is visited twice, with the guard and without it. No
  array is so long that its length is not safe. -/
  overlapping (first last : Value) {middle elements visited : List Value} (inner : middle ≠ [])
    (whole : elements = first :: (middle ++ [last]))
    (twice : visited = first :: (middle.flatMap (fun e => [e, e]) ++ [last]))
    (small : elements.length < Number.maxSafe) (enough : elements.length < rounds) :
    (∀ w : ω, ∃ t, Overlapping.protocol.collect rounds .maximumSplit ⟨.ofList elements, w⟩ =
        .ok visited t) ∧
      (∀ w : ω, ∃ t, Overlapping.protocol.traverse rounds .maximumSplit ⟨.ofList elements, w⟩ =
        .ok (.complete visited) t) ∧
      ∃ missing unexpected position,
        Matching.multisetDiff (Matching.decided same) elements visited =
            .ok (missing, unexpected) ∧
          Matching.firstDifference (Matching.decided same) elements visited =
            .ok (some position) ∧
          Finds (ω := ω) Overlapping.protocol rounds audience calm same strategies
            (.ofList elements) elements
            (List.replicate (strategies.count .maximumSplit)
                (elementsFailure .maximumSplit elements visited missing unexpected) ++
              (List.replicate (strategies.count .maximumSplit)
                  (orderFailure .maximumSplit elements visited position) ++
                [overlapFailure elements.length]))
  /-- The estimate is the number of elements. -/
  neverShrinking {s : Indexed ω Value} {f : Nat → Value} (accepted : s.Accepted)
    (reads : s.Reads f) (enough : s.remaining.length < rounds)
    (unordered : s.characteristics.contains .ordered = false)
    (unsorted : s.characteristics.contains .sorted = false) :
    (Value.number s.estimate).Counts s.remaining.length ∧
      Finds (Flawed.protocol .undefined) rounds audience calm same strategies
        ⟨s, .neverShrinking⟩ (s.remaining.map f)
        (List.replicate (strategies.count .maximumSplit)
            (stuckFailure "elements" (some "MAXIMUM_SPLIT") s.estimate) ++
          [stuckFailure "estimateSize" none s.estimate])
  unsized {s : Indexed ω Value} {f : Nat → Value} (reads : s.Reads f)
    (enough : s.remaining.length < rounds) (endless : unsizedSplitLimit < rounds)
    (unsorted : s.characteristics.contains .sorted = false) :
    Finds (Flawed.protocol .undefined) rounds audience calm same strategies
      ⟨s, .unsizedNeverShrinking⟩ (s.remaining.map f)
      (List.replicate (strategies.count .maximumSplit) endlessFailure)

/-- Under any strategies, and with any equivalence that is reflexive, the defective sources are
found in what their splits do, and nothing else is reported of them. -/
theorem catches_defects (ω : Type) (hears : audience.Hears rounds calm)
    (reflexive : ∀ v, same v v = true) (nonempty : strategies ≠ []) :
    CatchesDefects rounds ω audience calm same strategies where
  overlapping first last middle elements visited inner whole twice small enough := by
    have several : 3 ≤ elements.length := by
      have more := List.length_pos_of_ne_nil inner
      rw [whole, List.length_cons, List.length_append, List.length_singleton]
      omega
    have visits : visited = neighbours elements := by rw [whole, twice, neighbours_ends]
    rw [visits]
    exact ⟨Overlapping.collect_visits (Nat.le_of_succ_le several) enough,
      Overlapping.traverse_visits (Nat.le_of_succ_le several) enough,
      finds_overlapping hears reflexive nonempty several small enough⟩
  neverShrinking accepted reads enough unordered unsorted :=
    ⟨Flawed.estimate_counts accepted,
      finds_neverShrinking hears reflexive nonempty accepted reads enough unordered unsorted⟩
  unsized reads enough endless unsorted :=
    finds_unsized hears reflexive nonempty reads enough endless unsorted

/-- The first natural numbers, without an order; every reading of one is counted. -/
def tallied (limit : Nat) : Indexed Nat Value where
  read i := fun readings => .ok (.int i) (readings + 1)
  offset := 0
  limit
  characteristics := Indexed.sizedFlags
  order := none
  minusZero := false

theorem catches_defects_tallied :
    let strategies : List Strategy := [.maximumSplit, .bulkDrain, .maximumSplit]
    let calm : Bus EventKind Nat × List Event → Prop := fun t => t.1 = Bus.empty
    let elements : List Value := [.int 1, .int 2, .int 3]
    let visited : List Value := [.int 1, .int 2, .int 2, .int 3]
    throwingZero.Hears 1000001 calm ∧ (∀ v, Value.sameValueZero v v = true) ∧ strategies ≠ [] ∧
      Finds (ω := Nat) Overlapping.protocol 1000001 throwingZero calm Value.sameValueZero strategies
        (.ofList elements) elements
        [elementsFailure .maximumSplit elements visited [] [.int 2],
          elementsFailure .maximumSplit elements visited [] [.int 2],
          orderFailure .maximumSplit elements visited 2,
          orderFailure .maximumSplit elements visited 2, overlapFailure 3] ∧
      Finds (Flawed.protocol .undefined) 1000001 throwingZero calm Value.sameValueZero strategies
        ⟨tallied 2, .neverShrinking⟩ [.int 0, .int 1]
        [stuckFailure "elements" (some "MAXIMUM_SPLIT") (.integer 2),
          stuckFailure "elements" (some "MAXIMUM_SPLIT") (.integer 2),
          stuckFailure "estimateSize" none (.integer 2)] ∧
      Finds (Flawed.protocol .undefined) 1000001 throwingZero calm Value.sameValueZero strategies
        ⟨tallied 0, .unsizedNeverShrinking⟩ [] [endlessFailure, endlessFailure] := by
  intro strategies calm elements visited
  have hears := throwingZero_hears 1000001 (by decide)
  have reads (limit : Nat) : (tallied limit).Reads fun i => .int i := fun _ _ => ⟨_, rfl⟩
  have caught := catches_defects Nat hears Value.sameValueZero_self
    (List.cons_ne_nil Strategy.maximumSplit [.bulkDrain, .maximumSplit])
  refine ⟨hears, Value.sameValueZero_self, List.cons_ne_nil _ _, ?_, ?_, ?_⟩
  · obtain ⟨-, -, missing, unexpected, position, compared, differs, finds⟩ :=
      caught.overlapping (.int 1) (.int 3) (List.cons_ne_nil (.int 2) []) rfl rfl (by decide)
        (by decide)
    have leftover : Matching.multisetDiff (Matching.decided Value.sameValueZero) elements visited =
        .ok ([], [.int 2]) := rfl
    have first : Matching.firstDifference (Matching.decided Value.sameValueZero) elements visited =
        .ok (some 2) := rfl
    cases leftover.symm.trans compared
    cases first.symm.trans differs
    exact finds
  · exact (caught.neverShrinking (s := tallied 2) ⟨by decide, by decide, by decide, nofun⟩
      (reads 2) (by decide) (by decide) (by decide)).2
  · exact caught.unsized (s := tallied 0) (reads 0) (by decide) (by decide) (by decide)

end Harness
end SplitTraversal
