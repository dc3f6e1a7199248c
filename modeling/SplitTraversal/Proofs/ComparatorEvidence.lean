import SplitTraversal.Proofs.PlanAgreement
import SplitTraversal.Source.Indexed

/-! On what evidence an unsorted collection passes for one that refuses to give a comparator. The
source that is asked is a second one, produced where what throws is caught: an error of the wrong
state counts as a refusal whether that source threw it, or the collection that failed to produce the
source and was asked nothing. -/

namespace SplitTraversal

variable {σ ω : Type}

/-- What a collection shows of its comparator. Where no source is produced, none is asked. -/
inductive Evidence where
  | unproduced (thrown : Thrown)
  | refused (thrown : Thrown)
  | answered

namespace Evidence

def thrown? : Evidence → Option Thrown
  | .unproduced thrown | .refused thrown => some thrown
  | .answered => none

def Acquits (evidence : Evidence) : Prop :=
  ∃ thrown, evidence.thrown? = some thrown ∧ BuiltIn.isIllegalState thrown = true

def account (evidence : Evidence) : String :=
  match evidence.thrown? with
  | some thrown => thrown.thrownName
  | none => "no error"

/-- A failure that holds the evidence against the collection. -/
structure Charged (evidence : Evidence) (failure : Failure) : Prop where
  check : failure.check = "comparator"
  code : failure.code = .comparatorNotRejected
  strategy : failure.strategy = none
  expected : failure.expected = some (.string "IllegalStateError")
  actual : failure.actual = some (.string evidence.account)

end Evidence

/-- What a collection shows when it is asked for the comparator of a fresh source, and the state that
this leads to. -/
def Subject.shown (subject : Subject σ ω) (p : Protocol σ ω Value) (v : ω) : Evidence × ω :=
  match subject.splitSource v with
  | .error thrown u => (.unproduced thrown, u)
  | .ok own u =>
    match p.comparator ⟨own, u⟩ with
    | .error thrown s => (.refused thrown, s.shared)
    | .ok _ s => (.answered, s.shared)

namespace BuiltIn

variable {c : CheckContext σ ω} {evidence : Evidence} {v u : ω}

theorem charged_notRejected (evidence : Evidence) (message : String) :
    evidence.Charged (notRejected evidence.account message) :=
  ⟨rfl, rfl, rfl, rfl, rfl⟩

theorem askFresh_shown (shown : c.subject.shown c.protocol v = (evidence, u)) :
    (∃ thrown, evidence.thrown? = some thrown ∧
      askFresh c.subject c.protocol.comparator v = .error thrown u) ∨
    evidence.thrown? = none ∧ ∃ order, askFresh c.subject c.protocol.comparator v = .ok order u := by
  cases produced : c.subject.splitSource v with
  | error thrown u =>
    simp only [Subject.shown, produced] at shown
    cases shown
    exact .inl ⟨thrown, rfl, by simp only [askFresh, produced]⟩
  | ok own u =>
    cases asked : c.protocol.comparator ⟨own, u⟩ with
    | error thrown s =>
      simp only [Subject.shown, produced, asked] at shown
      cases shown
      exact .inl ⟨thrown, rfl, by simp only [askFresh, produced, asked]⟩
    | ok order s =>
      simp only [Subject.shown, produced, asked] at shown
      cases shown
      exact .inr ⟨rfl, order, by simp only [askFresh, produced, asked]⟩

theorem examineUnsorted_shown (shown : c.subject.shown c.protocol v = (evidence, u)) :
    (evidence.Acquits ∧ examineUnsorted c v = .ok [] u) ∨
    ¬evidence.Acquits ∧ ∃ failure, evidence.Charged failure ∧
      examineUnsorted c v = .ok [failure] u := by
  rcases askFresh_shown shown with ⟨thrown, held, threw⟩ | ⟨nothing, order, answered⟩
  · cases illegal : isIllegalState thrown with
    | true =>
      refine .inl ⟨⟨thrown, held, illegal⟩, ?_⟩
      simp only [examineUnsorted, threw, illegal, if_true]
    | false =>
      have account : evidence.account = thrown.thrownName := by rw [Evidence.account, held]
      have returned : ∃ message,
          examineUnsorted c v = .ok [notRejected thrown.thrownName message] u :=
        ⟨_, by simp only [examineUnsorted, threw, illegal]; rfl⟩
      rw [← account] at returned
      obtain ⟨message, returned⟩ := returned
      refine .inr ⟨?_, _, charged_notRejected evidence message, returned⟩
      rintro ⟨other, also, acquits⟩
      cases held.symm.trans also
      exact Bool.noConfusion (illegal.symm.trans acquits)
  · have account : evidence.account = "no error" := by rw [Evidence.account, nothing]
    have returned : ∃ message, examineUnsorted c v = .ok [notRejected "no error" message] u :=
      ⟨_, by simp only [examineUnsorted, answered]; rfl⟩
    rw [← account] at returned
    obtain ⟨message, returned⟩ := returned
    refine .inr ⟨?_, _, charged_notRejected evidence message, returned⟩
    rintro ⟨thrown, held, _⟩
    cases nothing.symm.trans held

end BuiltIn

namespace Harness

variable {η β : Type} [DecidableEq η]

theorem runCheck_guarded {h : Harness σ ω} {audience : Audience EventKind η Event β}
    {subject : Subject σ ω} {check : Check σ ω} {s : Stage η β ω} {failures : List Failure} {u v : ω}
    (attended : h.Attended audience s.bus) (registered : check ∈ h.registry.checks)
    (asked : check.skipReason subject s.world = .ok none u)
    (guarded : h.runGuarded subject check u = .ok failures v) :
    h.runCheck audience subject check.name s = .ok (outcomeOf check.name failures)
      { s.hearing audience ((outcomeOf check.name failures).events subject.name) with
        world := v } := by
  simp only [runCheck, h.registry.get?_name registered]
  exact runOne_guarded attended asked guarded

/-- The comparator check of a collection whose first source is not sorted passes just where an error
of the wrong state is thrown, be it by the next source on being asked or by the collection in place of
that source. Any other evidence makes one failure, and what is thrown never passes as thrown by the
check. -/
theorem comparator_acquits_iff (h : Harness σ ω) (audience : Audience EventKind η Event β)
    (subject : Subject σ ω) (stage : Stage η β ω) (attended : h.Attended audience stage.bus)
    (registered : BuiltIn.comparator ∈ h.registry.checks) {size : Value} {w v : ω}
    (sized : subject.size stage.world = .ok size w)
    (unsorted : BuiltIn.askFresh subject (h.protocol.hasCharacteristics (.ofFlag .sorted)) w =
      .ok false v) :
    ∃ evidence failures u, subject.shown h.protocol v = (evidence, u) ∧
      BuiltIn.comparator.run (h.context subject) w = .ok failures u ∧
      h.runCheck audience subject "comparator" stage = .ok (outcomeOf "comparator" failures)
        { stage.hearing audience ((outcomeOf "comparator" failures).events subject.name) with
          world := u } ∧
      (failures = [] ↔ evidence.Acquits) ∧
      (failures ≠ [] ↔ ∃ failure, failures = [failure] ∧ evidence.Charged failure) := by
  obtain ⟨⟨evidence, u⟩, shown⟩ : ∃ shown, subject.shown h.protocol v = shown := ⟨_, rfl⟩
  have ran : BuiltIn.comparator.run (h.context subject) w =
      BuiltIn.examineUnsorted (h.context subject) v := by
    have unsorted' : BuiltIn.askFresh (h.context subject).subject
        ((h.context subject).protocol.hasCharacteristics (.ofFlag .sorted)) w = .ok false v :=
      unsorted
    simp only [BuiltIn.comparator, unsorted']
  have asked : BuiltIn.comparator.skipReason subject stage.world = .ok none w := by
    simp only [Check.skipReason, BuiltIn.comparator, Option.getD_none, List.find?_nil, sized]
    rfl
  -- What the check returns is what its run on the stage comes to.
  have outcome {failures : List Failure}
      (returned : BuiltIn.examineUnsorted (h.context subject) v = .ok failures u) :=
    have guarded : h.runGuarded subject BuiltIn.comparator w = .ok failures u := by
      simp only [runGuarded, ran, returned]
    runCheck_guarded attended registered asked guarded
  rcases BuiltIn.examineUnsorted_shown (c := h.context subject) shown with
    ⟨acquits, returned⟩ | ⟨charges, failure, charged, returned⟩
  · refine ⟨evidence, [], u, shown, ran.trans returned, outcome returned, iff_of_true rfl acquits,
      iff_of_false (fun some => some rfl) ?_⟩
    rintro ⟨_, impossible, _⟩
    cases impossible
  · have some := List.cons_ne_nil failure []
    exact ⟨evidence, [failure], u, shown, ran.trans returned, outcome returned,
      iff_of_false some charges, iff_of_true some ⟨failure, rfl, charged⟩⟩

/-- An empty collection whose sources are not sorted at first; `later` is what it gives after that. -/
def changing (later : Action Nat (Indexed Nat Value)) : Subject (Indexed Nat Value) Nat where
  name := "Changing"
  features := []
  splitSource
    | 0 => .ok (.empty .undefined) 1
    | n + 1 => later (n + 1)
  sampleElements := fun n => .ok [] n
  orderedElements := fun n => .ok [] n
  size := fun n => .ok (.int 0) n

def draining : Harness (Indexed Nat Value) Nat where
  protocol := Indexed.protocol
  rounds := 1
  registry := .withDefaults
  strategies := [.bulkDrain]
  equivalence := NamedEquivalence.sameValueZero.holds
  naturalComparator := naturalOrder
  selected := none

def unheard : Stage Nat (List Event) Nat := ⟨.empty, [], 0⟩

theorem comparator_acquits_iff_answered :
    draining.Attended throwingZero unheard.bus ∧
    let subject := changing fun n => .ok (.ofList [] .undefined (.ofFlags [.sorted])) (n + 1)
    subject.size 0 = .ok (.int 0) 0 ∧
    BuiltIn.askFresh subject (draining.protocol.hasCharacteristics (.ofFlag .sorted)) 0 =
      .ok false 1 ∧
    ∃ failure t, Evidence.answered.Charged failure ∧
      draining.runCheck throwingZero subject "comparator" unheard =
        .ok (.failed "comparator" [failure]) t := by
  have attended : draining.Attended throwingZero unheard.bus :=
    ⟨throwingZero_considerate, .empty, by decide⟩
  refine ⟨attended, rfl, rfl, ?_⟩
  obtain ⟨evidence, failures, u, shown, ran, checked, acquitted, charged⟩ :=
    comparator_acquits_iff draining throwingZero
      (changing fun n => .ok (.ofList [] .undefined (.ofFlags [.sorted])) (n + 1)) unheard attended
      (List.mem_of_getElem (show BuiltIn.all[2] = BuiltIn.comparator from rfl)) rfl rfl
  have answered : evidence = .answered := (congrArg Prod.fst shown).symm
  subst answered
  have some : failures ≠ [] := by
    intro none
    obtain ⟨thrown, held, _⟩ := acquitted.mp none
    cases held
  obtain ⟨failure, rfl, charge⟩ := charged.mp some
  exact ⟨failure, _, charge, checked⟩

/-- A collection that cannot produce its second source is acquitted or charged for what it throws,
while no source has been asked for its comparator. -/
theorem comparator_unasked :
    let failing (kind : FaultKind) := changing fun n => .error (.fault (.raised kind "closed")) n
    ((failing .illegalState).shown draining.protocol 1).1 =
        .unproduced (.fault (.raised .illegalState "closed")) ∧
      (∃ t, draining.runCheck throwingZero (failing .illegalState) "comparator" unheard =
        .ok (.passed "comparator") t) ∧
    ((failing .type).shown draining.protocol 1).1 =
        .unproduced (.fault (.raised .type "closed")) ∧
      ∃ failure t, failure.code = .comparatorNotRejected ∧
        draining.runCheck throwingZero (failing .type) "comparator" unheard =
          .ok (.failed "comparator" [failure]) t :=
  ⟨rfl, ⟨_, rfl⟩, rfl, _, _, rfl, rfl⟩

end Harness
end SplitTraversal
