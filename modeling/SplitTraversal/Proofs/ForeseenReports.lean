import SplitTraversal.Collection.Basic
import SplitTraversal.Proofs.CheckVerdicts
import SplitTraversal.Proofs.ElementsVerdicts
import SplitTraversal.Proofs.StrategyVerdicts

/-! Reports that can be foreseen. A collection without features holds what its sources visit at once
and step by step, and its sources do the same in every state. Then a run reports what splitting them
comes to, once for each time that the strategies name it, and what one split does to their sizes. -/

namespace SplitTraversal

theorem Always.of_ok {ε S ρ : Type} {activity : EStateM ε S ρ} {a : ρ}
    (ran : ∀ s, ∃ t, activity s = .ok a t) : Always (fun _ => True) activity (.ok a) := by
  intro s _
  obtain ⟨t, ended⟩ := ran s
  rw [ended]
  exact ⟨rfl, trivial⟩

variable {σ ω η β : Type}

def Custom.expecting (name : String) (elements : List Value) (factory : Action ω σ) :
    Custom σ ω where
  name
  features := []
  elements
  factory
  size := .int elements.length

/-- What a source shows in every state: it is not sorted, declares these flags, and visits these
elements but where it is split. -/
structure Protocol.Shows (p : Protocol σ ω Value) (rounds : Nat) (s : σ) (flags : Characteristics)
    (elements : List Value) (split : Traversal Value) : Prop where
  unsorted : flags.hasAll (.ofFlag .sorted) = false
  characteristics (w : ω) : p.characteristics ⟨s, w⟩ = .ok flags.toValue ⟨s, w⟩
  hasCharacteristics (sought : Characteristics) (w : ω) :
    p.hasCharacteristics sought ⟨s, w⟩ = .ok (flags.hasAll sought) ⟨s, w⟩
  comparator (w : ω) : ∃ e t, p.comparator ⟨s, w⟩ = .error e t ∧ BuiltIn.isIllegalState e = true
  traverse {strategy : Strategy} (whole : strategy ≠ .maximumSplit) (w : ω) :
    ∃ t, p.traverse rounds strategy ⟨s, w⟩ = .ok (.complete elements) t
  split (w : ω) : ∃ t, p.traverse rounds .maximumSplit ⟨s, w⟩ = .ok split t

namespace BuiltIn

variable {c : CheckContext σ ω} {s : σ} {flags : Characteristics} {elements : List Value}
  {split : Traversal Value}

theorem flatMap_maximumSplit (failure : Failure) (strategies : List Strategy) :
    (strategies.flatMap fun strategy =>
      (if strategy = .maximumSplit then some failure else none).toList) =
        List.replicate (strategies.count .maximumSplit) failure := by
  induction strategies with
  | nil => rfl
  | cons strategy rest ih =>
    rw [List.flatMap_cons, ih, List.count_cons]
    by_cases split : strategy = .maximumSplit
    · rw [if_pos split, if_pos (beq_iff_eq.mpr split), List.replicate_succ]
      rfl
    · rw [if_neg split, if_neg (mt beq_iff_eq.mp split)]
      rfl

theorem askFresh_ok {ρ : Type} {ask : Action (Site σ ω) ρ} {a : ρ}
    (fresh : ∀ w, ∃ v, c.subject.splitSource w = .ok s v)
    (asked : ∀ w, ∃ t, ask ⟨s, w⟩ = .ok a t) (w : ω) :
    ∃ v, askFresh c.subject ask w = .ok a v := by
  obtain ⟨v, made⟩ := fresh w
  obtain ⟨t, told⟩ := asked v
  exact ⟨t.shared, by simp only [askFresh, made, told]⟩

section Shown

variable (shows : c.protocol.Shows c.rounds s flags elements split)
  (fresh : ∀ w, ∃ v, c.subject.splitSource w = .ok s v)

include shows fresh

theorem askFresh_declared (flag : Characteristic) (w : ω) :
    ∃ v, askFresh c.subject (c.protocol.hasCharacteristics (.ofFlag flag)) w =
      .ok (flags.hasAll (.ofFlag flag)) v :=
  askFresh_ok fresh (fun w => ⟨_, shows.hasCharacteristics _ w⟩) w

theorem judging_splits {check : String}
    {verdict : Strategy → List Value → Except Thrown (Option Failure)} {failure : Failure}
    (clean : ∀ strategy, verdict strategy elements = .ok none)
    (found : ∀ w : ω, judge check .maximumSplit split (verdict .maximumSplit) w =
      .ok (some failure) w) (strategies : List Strategy) (w : ω) :
    ∃ v, underEach (judging c check verdict) strategies w =
      .ok (List.replicate (strategies.count .maximumSplit) failure) v := by
  rw [← flatMap_maximumSplit]
  refine underEach_found (fun strategy w => ?_) strategies w
  obtain ⟨v, made⟩ := fresh w
  by_cases whole : strategy = .maximumSplit
  · subst whole
    obtain ⟨t, traversed⟩ := shows.split v
    have visited : traverseFresh c .maximumSplit w = .ok split t.shared := by
      simp only [traverseFresh, made, traversed]
    exact ⟨_, by rw [judging, bind_ok visited, found, if_pos rfl]⟩
  · obtain ⟨t, traversed⟩ := shows.traverse whole v
    have visited : traverseFresh c strategy w = .ok (.complete elements) t.shared := by
      simp only [traverseFresh, made, traversed]
    exact ⟨_, by rw [judging, bind_ok visited, judge_complete (clean strategy), if_neg whole]⟩

theorem elements_splits (sampled : ∀ w, c.subject.sampleElements w = .ok elements w)
    (reflexive : ∀ a, c.equivalence a a = .ok true) {failure : Failure}
    (found : ∀ w : ω, judge "elements" .maximumSplit split
      (elementsVerdict c.equivalence .maximumSplit elements) w = .ok (some failure) w) (w : ω) :
    ∃ v, BuiltIn.elements.run c w =
      .ok (List.replicate (c.strategies.count .maximumSplit) failure) v := by
  rw [elements_eq, bind_ok (lift_ok (sampled w))]
  refine judging_splits shows fresh (fun strategy => ?_) found c.strategies w
  rw [elementsVerdict, Matching.multisetDiff_self reflexive]

theorem knownOrder_splits (ordered : flags.hasAll (.ofFlag .ordered) = true)
    (listed : ∀ w, c.subject.orderedElements w = .ok elements w)
    (reflexive : ∀ a, c.equivalence a a = .ok true) {failure : Failure}
    (found : ∀ w : ω, judge "knownOrder" .maximumSplit split
      (orderVerdict c.equivalence .maximumSplit elements) w = .ok (some failure) w) (w : ω) :
    ∃ v, knownOrder.run c w =
      .ok (List.replicate (c.strategies.count .maximumSplit) failure) v := by
  obtain ⟨v, asked⟩ := askFresh_declared shows fresh .ordered w
  rw [ordered] at asked
  rw [knownOrder_eq, bind_ok (lift_ok asked), if_pos rfl, bind_ok (lift_ok (listed v))]
  refine judging_splits shows fresh (fun strategy => ?_) found c.strategies v
  rw [orderVerdict, Matching.firstDifference_self reflexive]

theorem knownOrder_unordered (unordered : flags.hasAll (.ofFlag .ordered) = false) (w : ω) :
    ∃ v, knownOrder.run c w = .ok [] v := by
  obtain ⟨v, asked⟩ := askFresh_declared shows fresh .ordered w
  rw [unordered] at asked
  exact ⟨v, by rw [knownOrder_eq, bind_ok (lift_ok asked)]; rfl⟩

theorem comparator_refused (w : ω) : ∃ v, comparator.run c w = .ok [] v := by
  obtain ⟨u, asked⟩ := askFresh_declared shows fresh .sorted w
  rw [shows.unsorted] at asked
  obtain ⟨v, made⟩ := fresh u
  obtain ⟨e, t, refused, kind⟩ := shows.comparator v
  refine ⟨t.shared, ?_⟩
  rw [comparator_eq, bind_ok (lift_ok asked)]
  simp only [Bool.false_eq_true, if_false, examineUnsorted, askFresh, made, refused, kind, if_true]

theorem estimateSize_unsized (unsized : flags.hasAll (.ofFlag .sized) = false) (w : ω) :
    ∃ v, estimateSize.run c w = .ok [] v := by
  obtain ⟨v, made⟩ := fresh w
  have asked := shows.hasCharacteristics (.ofFlag .sized) v
  rw [unsized] at asked
  exact ⟨v, by simp only [estimateSize, made, asked]⟩

theorem estimateSize_splits (sized : flags.hasAll (.ofFlag .sized) = true)
    (subsized : flags.hasAll (.ofFlag .subsized) = true) {size estimate : Value}
    (held : ∀ w, c.subject.size w = .ok size w)
    (estimated : ∀ w, c.protocol.estimateSize ⟨s, w⟩ = .ok estimate ⟨s, w⟩)
    (known : ∀ w, c.protocol.exactSizeIfKnown ⟨s, w⟩ = .ok estimate ⟨s, w⟩)
    (same : estimate.strictEquals size = true) {failures : List Failure}
    (found : ∀ w, ∃ t, examineSplit c.protocol estimate ⟨s, w⟩ = .ok failures t) (w : ω) :
    ∃ v, estimateSize.run c w = .ok failures v := by
  obtain ⟨v, made⟩ := fresh w
  have asked := shows.hasCharacteristics (.ofFlag .sized) v
  have askedParts := shows.hasCharacteristics (.ofFlag .subsized) v
  rw [sized] at asked
  rw [subsized] at askedParts
  obtain ⟨t, parts⟩ := found v
  refine ⟨t.shared, estimateSize_parts made asked (held v) (estimated v) (known v) same ?_⟩
  simp only [examineParts, askedParts, parts]

theorem exists_undeclared {check : Check σ ω} (here : check ∈
      ([nullable, notImmutableWhenAddSupported, notImmutableWhenRemoveSupported] :
        List (Check σ ω))) :
    ∃ failures, ∀ w, ∃ v, check.run c w = .ok failures v := by
  have asked := askFresh_ok fresh fun w => ⟨_, shows.characteristics w⟩
  have told (name : String) (flag : Characteristic) (code : FailureCode)
      (message : String → String) :
      ∃ failures, ∀ w, ∃ v, undeclared name flag code message c w = .ok failures v := by
    choose v declared using asked
    exact ⟨_, fun w => ⟨v w, undeclared_eq (declared w) ..⟩⟩
  simp only [List.mem_cons, List.not_mem_nil, or_false] at here
  rcases here with rfl | rfl | rfl
  · simp only [nullable]
    exact told ..
  · simp only [notImmutableWhenAddSupported, notImmutable]
    exact told ..
  · simp only [notImmutableWhenRemoveSupported, notImmutable]
    exact told ..

end Shown

end BuiltIn

namespace Harness

variable {audience : Audience EventKind η Event β}
  {calm : Bus EventKind η × β → Prop} {among : ω → Prop} {h : Harness σ ω} {subject : Subject σ ω}
  {check : Check σ ω}

theorem run_of_outcomes (hears : audience.Hears h.rounds calm) {outcomes : List CheckOutcome}
    (each : List.Forall₂ (fun check o =>
      Always (Stage.Among calm among) (h.runOne audience subject check) (.ok o))
        h.checksToRun outcomes) :
    Always (Stage.Among calm among) (h.run audience subject)
      (.ok (.build subject.name outcomes)) := by
  intro s now
  have told : h.checksToRun.mapM (fun check => Outcome.answer (h.runOne audience subject check s)) =
      .ok outcomes := mapM_ok_iff.mpr (each.imp fun _ _ always => (always s now).1)
  have always : ∀ check ∈ h.checksToRun, Always (Stage.Among calm among)
      (h.runOne audience subject check)
      (Outcome.answer (h.runOne audience subject check s)) := by
    intro check here
    obtain ⟨o, _, always⟩ := exists_of_forall₂_left each here
    rw [(always s now).1]
    exact always
  have ran := run_always hears always s now
  rw [told] at ran
  exact ran

theorem outcomeOf_failures (check : String) (failures : List Failure) :
    (outcomeOf check failures).failures = failures := by
  cases failures <;> rfl

variable {rounds : Nat} {p : Protocol σ ω Value} {equivalence : Equivalence Value}
  {naturalComparator : Comparator Value} {strategies : List Strategy} {name : String}
  {elements : List Value} {factory : Action ω σ} {s : σ} {flags : Characteristics}
  {split : Traversal Value}

/-- The checks that ask for a feature are skipped, and no comparator is found fault with. -/
theorem run_expecting (hears : audience.Hears rounds calm)
    (shows : p.Shows rounds s flags elements split) (fresh : ∀ w, ∃ v, factory w = .ok s v)
    {first second third : List Failure} {t : Stage η β ω} (now : calm (t.bus, t.memory)) :
    let h := crossing p rounds equivalence naturalComparator strategies
    let subject := (Custom.expecting name elements factory).subject
    (∀ w, ∃ v, BuiltIn.elements.run (h.context subject) w = .ok first v) →
    (∀ w, ∃ v, BuiltIn.knownOrder.run (h.context subject) w = .ok second v) →
    (∀ w, ∃ v, BuiltIn.estimateSize.run (h.context subject) w = .ok third v) →
    ∃ report u, h.run audience subject t = .ok report u ∧
      report.failures = first ++ (second ++ third) := by
  intro h subject visits order sizes
  have applies (check : Check σ ω) {failures : List Failure}
      (gate : ∀ w, check.skipReason subject w = .ok none w)
      (ran : ∀ w, ∃ v, check.run (h.context subject) w = .ok failures v) :
      Always (Stage.Among calm fun _ => True) (h.runOne audience subject check)
        (.ok (outcomeOf check.name failures)) :=
    runOne_always hears (.of_ok fun w => ⟨w, gate w⟩) (runGuarded_always (.of_ok ran))
  have excluded (check : Check σ ω) {reason : String}
      (gate : ∀ w, check.skipReason subject w = .ok (some reason) w) {failures : List Failure}
      (ran : ∀ w, ∃ v, check.run (h.context subject) w = .ok failures v) :
      Always (Stage.Among calm fun _ => True) (h.runOne audience subject check)
        (.ok (.skipped check.name reason)) :=
    runOne_always hears (.of_ok fun w => ⟨w, gate w⟩) (runGuarded_always (.of_ok ran))
  obtain ⟨_, nullable⟩ := BuiltIn.exists_undeclared (c := h.context subject) shows fresh (.head _)
  obtain ⟨_, adds⟩ :=
    BuiltIn.exists_undeclared (c := h.context subject) shows fresh (.tail _ (.head _))
  obtain ⟨_, removes⟩ :=
    BuiltIn.exists_undeclared (c := h.context subject) shows fresh (.tail _ (.tail _ (.head _)))
  have each : List.Forall₂ (fun check o => Always (Stage.Among calm fun _ => True)
      (h.runOne audience subject check) (.ok o)) h.checksToRun _ :=
    .cons (applies BuiltIn.elements (fun _ => rfl) visits)
    (.cons (applies BuiltIn.knownOrder (fun _ => rfl) order)
    (.cons (applies BuiltIn.comparator (fun _ => rfl) (BuiltIn.comparator_refused shows fresh))
    (.cons (applies BuiltIn.estimateSize (fun _ => rfl) sizes)
    (.cons (excluded BuiltIn.nullable (fun _ => rfl) nullable)
    (.cons (excluded BuiltIn.notImmutableWhenAddSupported (fun _ => rfl) adds)
    (.cons (excluded BuiltIn.notImmutableWhenRemoveSupported (fun _ => rfl) removes) .nil))))))
  obtain ⟨u, _, ran⟩ := (run_of_outcomes (h := h) hears each).ok_eq ⟨now, trivial⟩
  have skipped (check reason : String) : (CheckOutcome.skipped check reason).failures = [] := rfl
  refine ⟨_, u, ran, ?_⟩
  simp only [Report.build, List.flatMap_cons, List.flatMap_nil, outcomeOf_failures, skipped,
    List.nil_append, List.append_nil]

end Harness
end SplitTraversal
