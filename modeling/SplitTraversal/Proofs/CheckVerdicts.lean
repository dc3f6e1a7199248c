import Mathlib.Data.List.Forall2
import SplitTraversal.Proofs.HarnessRun
import SplitTraversal.Proofs.NodeContract

/-! What the built-in checks find in a collection whose sources keep the contract and declare no more
than is true of it: nothing. The elements are compared with themselves only, so the equivalence has
to be reflexive and nothing else. -/

namespace SplitTraversal

namespace Matching

variable {α : Type} {equivalence : Equivalence α}

/-- Each expected element claims itself, which is the first one that is left. -/
theorem multisetDiff_self (reflexive : ∀ a, equivalence a a = .ok true) (xs : List α) :
    multisetDiff equivalence xs xs = .ok ([], []) := by
  induction xs with
  | nil => rfl
  | cons x xs ih => simp only [multisetDiff, takeFirst, reflexive, ih]

theorem firstDifference_self (reflexive : ∀ a, equivalence a a = .ok true) (xs : List α) :
    firstDifference equivalence xs xs = .ok none := by
  have from' (position : Nat) : firstDifferenceFrom equivalence position xs xs = .ok none := by
    induction xs generalizing position with
    | nil => rfl
    | cons x xs ih => simp only [firstDifferenceFrom, reflexive, ih]
  exact from' 0

end Matching

namespace Value

theorem add_int {i j : Int} (small : (i + j).natAbs ≤ Number.maxSafe) :
    (int i).add (int j) = .ok (int (i + j)) := by
  have sum : (Number.integer i).add (.integer j) = .integer (i + j) := if_pos small
  exact congrArg (fun n => Except.ok (number n)) sum

theorem strictEquals_int (i : Int) : (int i).strictEquals (int i) = true := beq_self_eq_true i

end Value

variable {σ ω : Type}

/-- A collection whose sources are ordered and sized, keep the contract, and hold just what the
collection says that it holds. What its sources declare is true of it. -/
structure CheckContext.Faithful (c : CheckContext σ ω) (v : View σ Value) (s : σ) : Prop where
  contract : Contract c.protocol v
  sized : ∀ t, v.obeys t → v.sized t = true
  obeys : v.obeys s
  ordered : v.ordered s = true
  splitSource (w : ω) : c.subject.splitSource w = .ok s w
  sampleElements (w : ω) : c.subject.sampleElements w = .ok (v.remaining s) w
  orderedElements (w : ω) : c.subject.orderedElements w = .ok (v.remaining s) w
  size (w : ω) : c.subject.size w = .ok (.int (v.remaining s).length) w
  measured : c.protocol.Measured s (v.remaining s).length
  hasCharacteristics (flags : Characteristics) (w : ω) :
    c.protocol.hasCharacteristics flags ⟨s, w⟩ = .ok ((v.flags s).hasAll flags) ⟨s, w⟩
  characteristics (w : ω) : c.protocol.characteristics ⟨s, w⟩ = .ok (v.flags s).toValue ⟨s, w⟩
  sorted : (v.flags s).hasAll (.ofFlag .sorted) = true →
    ∃ order, (∀ w, c.protocol.comparator ⟨s, w⟩ = .ok order ⟨s, w⟩) ∧
      (order.getD c.naturalComparator).isOrdered (v.remaining s) = .ok true
  unsorted : (v.flags s).hasAll (.ofFlag .sorted) = false →
    ∀ w, ∃ e t, c.protocol.comparator ⟨s, w⟩ = .error e t ∧ BuiltIn.isIllegalState e = true
  nonnull : .allowsNullValues ∈ c.subject.features → (v.flags s).contains .nonnull = false
  immutable : .supportsAdd ∈ c.subject.features ∨ .supportsRemove ∈ c.subject.features →
    (v.flags s).contains .immutable = false

namespace Check

def Quiet (check : Check σ ω) (c : CheckContext σ ω) : Prop := ∀ w, ∃ w', check.run c w = .ok [] w'

/-- The check comes to an end, and finds nothing unless its gate keeps the collection out. -/
structure Clears (check : Check σ ω) (c : CheckContext σ ω) : Prop where
  settles : check.Settles c
  quiet (w : ω) (applies : ¬check.Excludes c.subject w) : check.Quiet c

theorem Quiet.clears {check : Check σ ω} {c : CheckContext σ ω} (quiet : check.Quiet c) :
    check.Clears c :=
  ⟨fun w => .inl ⟨[], quiet w⟩, fun _ _ => quiet⟩

theorem mem_of_not_excludes (check : Check σ ω) {subject : Subject σ ω} {w : ω} {f : Feature}
    (applies : ¬check.Excludes subject w) (required : f ∈ check.requires.getD []) :
    f ∈ subject.features := by
  refine Classical.not_not.mp fun absent => ?_
  exact applies (.inl ⟨f, required, absent⟩)

end Check

namespace BuiltIn

variable {c : CheckContext σ ω} {v : View σ Value} {s : σ}

section Asking

variable (faithful : c.Faithful v s)

include faithful

theorem askFresh_eq {ρ : Type} {ask : Action (Site σ ω) ρ} {a : ρ} {w : ω}
    (asked : ask ⟨s, w⟩ = .ok a ⟨s, w⟩) : askFresh c.subject ask w = .ok a w := by
  simp only [askFresh, faithful.splitSource, asked]

theorem askFresh_hasCharacteristics (flags : Characteristics) (w : ω) :
    askFresh c.subject (c.protocol.hasCharacteristics flags) w =
      .ok ((v.flags s).hasAll flags) w :=
  askFresh_eq faithful (faithful.hasCharacteristics flags w)

/-- Every strategy visits what the collection holds, in order. -/
theorem traverse_eq (enough : (v.remaining s).length < c.rounds) (strategy : Strategy) (w : ω) :
    ∃ u, c.protocol.traverse c.rounds strategy ⟨s, w⟩ = .ok (.complete (v.remaining s)) u := by
  obtain ⟨elements, u, traversed, same⟩ := faithful.contract.traverse_sized faithful.sized
    faithful.obeys c.rounds w enough strategy
  exact ⟨u, by rw [traversed, same.2 faithful.ordered]⟩

end Asking

theorem underEach_found {examine : Strategy → Activity ω (Option Failure)}
    {found : Strategy → Option Failure}
    (each : ∀ strategy w, ∃ w', examine strategy w = .ok (found strategy) w')
    (strategies : List Strategy) (w : ω) :
    ∃ w', underEach examine strategies w =
      .ok (strategies.flatMap fun strategy => (found strategy).toList) w' := by
  induction strategies generalizing w with
  | nil => exact ⟨w, rfl⟩
  | cons strategy rest ih =>
    obtain ⟨u, first⟩ := each strategy w
    obtain ⟨w', later⟩ := ih u
    exact ⟨w', by simp only [underEach, first, later, List.flatMap_cons]⟩

theorem underEach_quiet {examine : Strategy → Activity ω (Option Failure)}
    (calm : ∀ strategy w, ∃ w', examine strategy w = .ok none w') (strategies : List Strategy)
    (w : ω) : ∃ w', underEach examine strategies w = .ok [] w' := by
  obtain ⟨w', ran⟩ := underEach_found calm strategies w
  have nothing : (strategies.flatMap fun _ => (none : Option Failure).toList) = [] :=
    List.flatMap_eq_nil_iff.mpr fun _ _ => rfl
  rw [nothing] at ran
  exact ⟨w', ran⟩

section Traversing

variable (faithful : c.Faithful v s) (enough : (v.remaining s).length < c.rounds)

include faithful enough

theorem traverseFresh_eq (strategy : Strategy) (w : ω) :
    ∃ w', traverseFresh c strategy w = .ok (.complete (v.remaining s)) w' := by
  obtain ⟨u, traversed⟩ := traverse_eq faithful enough strategy w
  exact ⟨u.shared, by simp only [traverseFresh, faithful.splitSource, traversed]⟩

theorem elements_quiet (reflexive : ∀ a, c.equivalence a a = .ok true) : elements.Quiet c := by
  intro w
  simp only [elements, faithful.sampleElements]
  refine underEach_quiet (fun strategy w => ?_) c.strategies w
  obtain ⟨w', traversed⟩ := traverseFresh_eq faithful enough strategy w
  have matched := Matching.multisetDiff_self reflexive (v.remaining s)
  refine ⟨w', ?_⟩
  simp only [traversed, judge, elementsVerdict, matched]
  rfl

theorem knownOrder_quiet (reflexive : ∀ a, c.equivalence a a = .ok true) :
    knownOrder.Quiet c := by
  intro w
  have ordered : (v.flags s).hasAll (.ofFlag .ordered) = true := faithful.ordered
  simp only [knownOrder, askFresh_hasCharacteristics faithful, ordered, faithful.orderedElements]
  refine underEach_quiet (fun strategy w => ?_) c.strategies w
  obtain ⟨w', traversed⟩ := traverseFresh_eq faithful enough strategy w
  have matched := Matching.firstDifference_self reflexive (v.remaining s)
  refine ⟨w', ?_⟩
  simp only [traversed, judge, orderVerdict, matched]
  rfl

theorem comparator_quiet : comparator.Quiet c := by
  intro w
  simp only [comparator, askFresh_hasCharacteristics faithful]
  cases sorted : (v.flags s).hasAll (.ofFlag .sorted) with
  | true =>
    obtain ⟨order, asked, inOrder⟩ := faithful.sorted sorted
    refine underEach_quiet (fun strategy w => ?_) c.strategies w
    obtain ⟨u, traversed⟩ := traverse_eq faithful enough strategy w
    refine ⟨u.shared, ?_⟩
    simp only [examineSorted, faithful.splitSource, asked, traversed, judge, sortVerdict, inOrder]
    rfl
  | false =>
    obtain ⟨e, t, refused, kind⟩ := faithful.unsorted sorted w
    refine ⟨t.shared, ?_⟩
    simp only [examineUnsorted, askFresh, faithful.splitSource, refused, kind, if_true]

end Traversing

section Sizes

variable {p : Protocol σ ω Value} {count : Nat}

/-- After a split of a measured source the parts add up, and less remains than before. -/
theorem examineSplit_quiet (measured : p.Measured s count) (small : count ≤ Number.maxSafe)
    (w : ω) : ∃ t, examineSplit p (.int count) ⟨s, w⟩ = .ok [] t := by
  have equal := Value.strictEquals_int (count : Int)
  rcases measured.trySplit w with ⟨t, stayed, asked⟩ |
    ⟨piece, t, part, rest, cut, some, adds, askedRest, askedPart⟩
  · have sum : (Value.int 0).add (.int count) = .ok (.int count) := by
      rw [Value.add_int (by omega), Int.zero_add]
    refine ⟨t, ?_⟩
    simp only [examineSplit, stayed, asked, splitVerdict, Option.getD_none, sumVerdict, sum, equal]
    rfl
  · have sum : (Value.int part).add (.int rest) = .ok (.int count) := by
      rw [Value.add_int (by omega), ← adds, Int.natCast_add]
    have less : (Value.int count).isAtMost (.int rest) = .ok false := by
      rw [Value.isAtMost_int, decide_eq_false (by omega)]
    refine ⟨t, ?_⟩
    simp only [examineSplit, cut, askedRest, askedPart, splitVerdict, Option.getD_some, sumVerdict,
      sum, equal, shrinkVerdict, less]
    rfl

theorem estimateSize_parts {w v : ω} {size estimate : Value} {failures : List Failure}
    {t : Site σ ω} (fresh : c.subject.splitSource w = .ok s v)
    (sized : c.protocol.hasCharacteristics (.ofFlag .sized) ⟨s, v⟩ = .ok true ⟨s, v⟩)
    (held : c.subject.size v = .ok size v)
    (estimated : c.protocol.estimateSize ⟨s, v⟩ = .ok estimate ⟨s, v⟩)
    (known : c.protocol.exactSizeIfKnown ⟨s, v⟩ = .ok estimate ⟨s, v⟩)
    (same : estimate.strictEquals size = true)
    (parts : examineParts c.protocol estimate ⟨s, v⟩ = .ok failures t) :
    estimateSize.run c w = .ok failures t.shared := by
  simp only [estimateSize, fresh, sized, held, examineSizes, estimated, sizeVerdict, same, if_true,
    examineExact, known, parts, List.nil_append]

theorem estimateSize_quiet (faithful : c.Faithful v s)
    (small : (v.remaining s).length ≤ Number.maxSafe) : estimateSize.Quiet c := by
  intro w
  have asked := faithful.hasCharacteristics
  have sized : (v.flags s).hasAll (.ofFlag .sized) = true := faithful.sized s faithful.obeys
  have parts : ∃ t, examineParts c.protocol (.int (v.remaining s).length) ⟨s, w⟩ = .ok [] t := by
    cases subsized : (v.flags s).hasAll (.ofFlag .subsized) with
    | false => exact ⟨⟨s, w⟩, by simp only [examineParts, asked, subsized]⟩
    | true =>
      obtain ⟨t, split⟩ := examineSplit_quiet faithful.measured small w
      exact ⟨t, by simp only [examineParts, asked, subsized, split]⟩
  obtain ⟨t, parts⟩ := parts
  have asked := asked (.ofFlag .sized) w
  rw [sized] at asked
  exact ⟨t.shared, estimateSize_parts (faithful.splitSource w) asked (faithful.size w)
    (faithful.measured.estimateSize w) (faithful.measured.exactSizeIfKnown w)
    (Value.strictEquals_int _) parts⟩

end Sizes

theorem undeclared_eq {flags : Characteristics} {w w' : ω}
    (asked : askFresh c.subject c.protocol.characteristics w = .ok flags.toValue w') (name : String)
    (flag : Characteristic) (code : FailureCode) (message : String → String) :
    undeclared name flag code message c w =
      .ok (if flags.contains flag then
        [{ check := name
           code
           expected := some (.string (flag.name ++ " absent"))
           actual := some (.string flags.format)
           message := message c.subject.name }] else []) w' := by
  simp only [undeclared, asked, Characteristics.ofValue_toValue]
  cases flags.contains flag <;> rfl

theorem undeclared_clears (faithful : c.Faithful v s) {name description : String} {f : Feature}
    {absentSizes : Option (List SizeClass)} {flag : Characteristic} {code : FailureCode}
    {message : String → String}
    (absent : f ∈ c.subject.features → (v.flags s).contains flag = false) :
    Check.Clears { name, description, requires := some [f], absentSizes
                   run := undeclared name flag code message } c := by
  have asked (w : ω) := askFresh_eq faithful (faithful.characteristics w)
  refine ⟨fun w => .inl ⟨_, w, undeclared_eq (asked w) ..⟩, fun w applies u => ⟨u, ?_⟩⟩
  have declared := Check.mem_of_not_excludes _ applies (List.mem_singleton_self f)
  refine (undeclared_eq (asked u) ..).trans ?_
  rw [absent declared]
  rfl

theorem nullable_clears (faithful : c.Faithful v s) : nullable.Clears c :=
  undeclared_clears faithful faithful.nonnull

theorem notImmutable_clears (faithful : c.Faithful v s) (name : String) {f : Feature}
    (operation : String) (changes : f = .supportsAdd ∨ f = .supportsRemove) :
    (notImmutable name f operation).Clears c := by
  refine undeclared_clears faithful fun here => faithful.immutable ?_
  rcases changes with rfl | rfl
  · exact .inl here
  · exact .inr here

/-- No built-in check finds anything in a collection that it applies to. -/
theorem all_clear (faithful : c.Faithful v s) (enough : (v.remaining s).length < c.rounds)
    (small : (v.remaining s).length ≤ Number.maxSafe)
    (reflexive : ∀ a, c.equivalence a a = .ok true) :
    ∀ check ∈ (all : List (Check σ ω)), check.Clears c := by
  intro check here
  simp only [all, List.mem_cons, List.not_mem_nil, or_false] at here
  rcases here with rfl | rfl | rfl | rfl | rfl | rfl | rfl
  · exact (elements_quiet faithful enough reflexive).clears
  · exact (knownOrder_quiet faithful enough reflexive).clears
  · exact (comparator_quiet faithful enough).clears
  · exact (estimateSize_quiet faithful small).clears
  · exact nullable_clears faithful
  · exact notImmutable_clears faithful _ _ (.inl rfl)
  · exact notImmutable_clears faithful _ _ (.inr rfl)

end BuiltIn

theorem Check.excludes_iff {σ ω : Type} (check : Check σ ω) {subject : Subject σ ω} {size : Value}
    (sized : ∀ w, subject.size w = .ok size w) (w : ω) :
    check.Excludes subject w ↔ (∃ f ∈ check.requires.getD [], f ∉ subject.features) ∨
      SizeClass.ofValue size ∈ check.absentSizes.getD [] := by
  refine or_congr_right ⟨?_, fun absent => ⟨size, w, sized w, absent⟩⟩
  rintro ⟨other, u, asked, absent⟩
  cases (sized w).symm.trans asked
  exact absent

namespace Harness

variable {σ ω : Type} {h : Harness σ ω} {subject : Subject σ ω} {check : Check σ ω}
  {checks : List (Check σ ω)} {outcome : CheckOutcome} {outcomes : List CheckOutcome} {w u v : ω}

structure Cleared (subject : Subject σ ω) (w : ω) (check : Check σ ω) (outcome : CheckOutcome) :
    Prop where
  name : outcome.check = check.name
  skipped : outcome.status = .skipped ↔ check.Excludes subject w
  passed : outcome.status = .passed ↔ ¬check.Excludes subject w

theorem Cleared.not_failed (cleared : Cleared subject w check outcome) :
    outcome.status ≠ .failed := by
  intro failed
  by_cases excluded : check.Excludes subject w
  · cases failed.symm.trans (cleared.skipped.mpr excluded)
  · cases failed.symm.trans (cleared.passed.mpr excluded)

theorem Verdict.cleared (verdict : h.Verdict subject check w outcome v)
    (clears : check.Clears (h.context subject)) : Cleared subject w check outcome := by
  cases verdict with
  | skipped excluded => exact ⟨rfl, iff_of_true rfl excluded, iff_of_false nofun (absurd excluded)⟩
  -- A check that applies is quiet, so that it neither threw nor found anything.
  | threw applies _ ran =>
    obtain ⟨w', quiet⟩ := clears.quiet _ applies _
    cases ran.symm.trans quiet
  | failed applies _ ran some =>
    obtain ⟨w', quiet⟩ := clears.quiet _ applies _
    cases ran.symm.trans quiet
    exact absurd rfl some
  | passed applies => exact ⟨rfl, iff_of_false nofun applies, iff_of_true rfl applies⟩

theorem Course.cleared {size : Value} (course : h.Course subject checks w outcomes v)
    (sized : ∀ w, subject.size w = .ok size w)
    (clear : ∀ check ∈ checks, check.Clears (h.context subject)) (start : ω) :
    List.Forall₂ (Cleared subject start) checks outcomes := by
  induction course with
  | nil => exact .nil
  | @cons check _ _ _ w _ _ first _ ih =>
    rw [List.forall_mem_cons] at clear
    -- The state changes from check to check, but not what the gates look at.
    have steady := (check.excludes_iff sized w).trans (check.excludes_iff sized start).symm
    have here := first.cleared clear.1
    exact .cons ⟨here.name, here.skipped.trans steady, here.passed.trans (not_congr steady)⟩
      (ih clear.2)

theorem Course.passed (course : h.Course subject checks w outcomes v)
    (cleared : List.Forall₂ (Cleared subject w) checks outcomes) (name : String) :
    (Report.build name outcomes).passed = true ∧ (Report.build name outcomes).failures = [] := by
  have never : ∀ o ∈ outcomes, o.status ≠ .failed := by
    clear course
    induction cleared with
    | nil => exact fun _ none => (List.not_mem_nil none).elim
    | cons first _ ih => exact List.forall_mem_cons.mpr ⟨first.not_failed, ih⟩
  have passed : (Report.build name outcomes).passed = true := by
    simpa [Report.build] using never
  exact ⟨passed, (course.count_failed_iff name).mp ((passed_iff_count name outcomes).mp passed)⟩

end Harness

end SplitTraversal
