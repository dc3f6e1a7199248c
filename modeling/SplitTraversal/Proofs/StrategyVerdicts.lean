import SplitTraversal.Proofs.AloofSources
import SplitTraversal.Proofs.SteadyRuns

/-! Verdicts under several strategies. A check that traverses does so under one strategy after the
other and finds nothing just where it finds nothing under each alone; the others do not look at the
strategies. So a run passes under several strategies just where it passes under each of them. -/

namespace SplitTraversal

variable {σ ω η β : Type} {among : ω → Prop}

/-- What is found under some strategies, in their order. The first one that throws ends it. -/
def gathered (found : Strategy → Except Halt (Option Failure)) (strategies : List Strategy) :
    Except Halt (List Failure) :=
  (strategies.mapM found).map fun parts => parts.flatMap Option.toList

/-- What comes under some strategies does not depend on them, or it is what is found under each. -/
def Gathers (among : ω → Prop) (family : List Strategy → Activity ω (List Failure)) : Prop :=
  ∀ w, among w →
    (∃ result, ∀ strategies, Outcome.answer (family strategies w) = result) ∨
    ∃ found, ∀ strategies, Outcome.answer (family strategies w) = gathered found strategies

/-- Nothing is found under some strategies just where nothing is found under each. -/
def Conjunctive (among : ω → Prop) (family : List Strategy → Activity ω (List Failure)) : Prop :=
  ∀ strategies ≠ [], ∀ w, among w →
    (Outcome.answer (family strategies w) = .ok [] ↔
      ∀ strategy ∈ strategies, Outcome.answer (family [strategy] w) = .ok [])

section Gathered

variable {found : Strategy → Except Halt (Option Failure)} {strategies : List Strategy}

theorem gathered_singleton (strategy : Strategy) :
    gathered found [strategy] = (found strategy).map Option.toList := by
  unfold gathered
  rw [List.mapM_cons, List.mapM_nil]
  cases found strategy with
  | error h => rfl
  | ok part => simp [Bind.bind, Except.bind, Pure.pure, Except.pure, Except.map]

theorem gathered_nil :
    gathered found strategies = .ok [] ↔ ∀ strategy ∈ strategies, found strategy = .ok none := by
  constructor
  · intro gathered
    cases mapped : strategies.mapM found with
    | error h =>
      rw [SplitTraversal.gathered, mapped] at gathered
      cases gathered
    | ok parts =>
      rw [SplitTraversal.gathered, mapped] at gathered
      have none : ∀ part ∈ parts, part.toList = [] :=
        List.flatMap_eq_nil_iff.mp (Except.ok.inj gathered)
      intro strategy here
      obtain ⟨part, there, told⟩ := exists_of_forall₂_left (mapM_ok_iff.mp mapped) here
      rw [told, Option.toList_eq_nil_iff.mp (none part there)]
  · intro each
    have nothing (x : Strategy) (here : x ∈ strategies) :
        ∃ part, found x = .ok part ∧ part = none := ⟨none, each x here, rfl⟩
    obtain ⟨parts, mapped, none⟩ := exists_mapM_ok nothing
    rw [gathered, mapped]
    refine congrArg Except.ok (List.flatMap_eq_nil_iff.mpr fun part here => ?_)
    obtain ⟨_, _, empty⟩ := exists_of_forall₂_right none here
    rw [empty]
    rfl

end Gathered

namespace Gathers

theorem const (act : Activity ω (List Failure)) : Gathers among fun _ => act :=
  fun w _ => .inl ⟨Outcome.answer (act w), fun _ => rfl⟩

theorem bind {ρ : Type} {act : Activity ω ρ} {next : ρ → List Strategy → Activity ω (List Failure)}
    (first : Repeats among act) (rest : ∀ a, Gathers among (next a)) :
    Gathers among fun strategies => act >>= fun a => next a strategies := by
  intro w now
  obtain ⟨result, always⟩ := first
  cases result with
  -- An error that comes before the strategies comes under any of them.
  | error h =>
    obtain ⟨v, later, ran⟩ := always.error_eq now
    simp only [bind_error ran]
    exact .inl ⟨.error h, fun _ => rfl⟩
  | ok a =>
    obtain ⟨v, later, ran⟩ := always.ok_eq now
    simp only [bind_ok ran]
    exact rest a v later

theorem underEach {examine : Strategy → Activity ω (Option Failure)}
    (each : ∀ strategy, Repeats among (examine strategy)) :
    Gathers among (BuiltIn.underEach examine) := by
  intro w now
  choose found always using each
  refine .inr ⟨found, fun strategies => ?_⟩
  rw [BuiltIn.underEach_eq]
  exact (((Always.mapM fun strategy _ => always strategy).map _) w now).1

theorem conjunctive {family : List Strategy → Activity ω (List Failure)}
    (gathers : Gathers among family) : Conjunctive among family := by
  intro strategies some w now
  rcases gathers w now with ⟨result, same⟩ | ⟨found, told⟩
  · simp only [same]
    refine ⟨fun clean _ _ => clean, fun each => ?_⟩
    obtain ⟨strategy, here⟩ := List.exists_mem_of_ne_nil strategies some
    exact each strategy here
  · simp only [told, gathered_nil, List.forall_mem_singleton]

end Gathers

namespace BuiltIn

def traversing : List (Check σ ω) := [elements, knownOrder, comparator]

theorem traversing_gather {c : CheckContext σ ω} (steady : c.subject.Steady c.protocol among) :
    ∀ check ∈ (traversing : List (Check σ ω)),
      Gathers among fun strategies => check.run { c with strategies } := by
  intro check here
  simp only [traversing, List.mem_cons, List.not_mem_nil, or_false] at here
  rcases here with rfl | rfl | rfl
  · have crossing := funext fun strategies => elements_eq { c with strategies }
    rw [crossing]
    have each (expected : List Value) : Gathers among (underEach (judging c "elements"
        fun strategy => elementsVerdict c.equivalence strategy expected)) :=
      .underEach (repeats_judging steady _ _)
    exact .bind steady.sampleElements.lift each
  · have crossing := funext fun strategies => knownOrder_eq { c with strategies }
    rw [crossing]
    refine .bind (repeats_askFresh steady (.hasCharacteristics _)) fun ordered => ?_
    cases ordered with
    | false => exact .const (pure [])
    | true =>
      have each (expected : List Value) : Gathers among (underEach (judging c "knownOrder"
          fun strategy => orderVerdict c.equivalence strategy expected)) :=
        .underEach (repeats_judging steady _ _)
      exact .bind steady.orderedElements.lift each
  · have crossing := funext fun strategies => comparator_eq { c with strategies }
    rw [crossing]
    refine .bind (repeats_askFresh steady (.hasCharacteristics _)) fun sorted => ?_
    cases sorted with
    | false => exact .const (examineUnsorted c)
    | true => exact .underEach (repeats_examineSorted steady)

theorem all_conjunctive {c : CheckContext σ ω} (steady : c.subject.Steady c.protocol among) :
    ∀ check ∈ (BuiltIn.all : List (Check σ ω)),
      Conjunctive among fun strategies => check.run { c with strategies } := by
  have traverses {check : Check σ ω} (here : check ∈ (traversing : List (Check σ ω))) :
      Conjunctive among fun strategies => check.run { c with strategies } :=
    (traversing_gather steady check here).conjunctive
  intro check here
  simp only [all, List.mem_cons, List.not_mem_nil, or_false] at here
  rcases here with rfl | rfl | rfl | rfl | rfl | rfl | rfl
  · exact traverses (by simp [traversing])
  · exact traverses (by simp [traversing])
  · exact traverses (by simp [traversing])
  -- The others do not look at the strategies.
  · exact (Gathers.const (estimateSize.run c)).conjunctive
  · exact (Gathers.const (nullable.run c)).conjunctive
  · exact (Gathers.const (notImmutableWhenAddSupported.run c)).conjunctive
  · exact (Gathers.const (notImmutableWhenRemoveSupported.run c)).conjunctive

end BuiltIn

namespace Harness

def Passes (h : Harness σ ω) (audience : Audience EventKind η Event β) (subject : Subject σ ω)
    (s : Stage η β ω) : Prop :=
  ∃ report t, h.run audience subject s = .ok report t ∧ report.passed = true

variable {audience : Audience EventKind η Event β} {calm : Bus EventKind η × β → Prop}
  {h : Harness σ ω} {subject : Subject σ ω} {s : Stage η β ω}

theorem passes_iff (hears : audience.Hears h.rounds calm)
    {outcome : Check σ ω → Except Halt CheckOutcome}
    (each : ∀ check ∈ h.checksToRun,
      Always (Stage.Among calm among) (h.runOne audience subject check) (outcome check))
    (now : s.Among calm among) :
    h.Passes audience subject s ↔
      ∀ check ∈ h.checksToRun, ∃ o, outcome check = .ok o ∧ o.status ≠ .failed := by
  obtain ⟨answered, _⟩ := run_always hears each s now
  constructor
  · rintro ⟨report, t, ran, passed⟩ check here
    rw [ran] at answered
    cases mapped : h.checksToRun.mapM outcome with
    | error halt =>
      rw [mapped] at answered
      cases answered
    | ok outcomes =>
      rw [mapped] at answered
      cases answered
      obtain ⟨o, there, told⟩ := exists_of_forall₂_left (mapM_ok_iff.mp mapped) here
      refine ⟨o, told, ?_⟩
      simp only [Report.build, List.all_eq_true, bne_iff_ne] at passed
      exact passed o there
  · intro clean
    obtain ⟨outcomes, mapped, all⟩ := exists_mapM_ok clean
    rw [mapped] at answered
    cases ran : h.run audience subject s with
    | error halt t =>
      rw [ran] at answered
      cases answered
    | ok report t =>
      rw [ran] at answered
      cases answered
      refine ⟨_, t, ran, ?_⟩
      simp only [Report.build, List.all_eq_true, bne_iff_ne]
      intro o here
      obtain ⟨_, _, passed⟩ := exists_of_forall₂_right all here
      exact passed

theorem concluded_clean {check : String} {gate : Except Thrown (Option String)}
    {found : Except Halt (List Failure)} :
    (∃ o, concluded check gate (guarded check found) = .ok o ∧ o.status ≠ .failed) ↔
      ∃ reason, gate = .ok reason ∧ (reason = none → found = .ok []) := by
  cases gate with
  | error e =>
    refine iff_of_false ?_ ?_
    · rintro ⟨_, told, _⟩
      cases told
    · rintro ⟨_, told, _⟩
      cases told
  | ok reason =>
    cases reason with
    | some reason =>
      refine iff_of_true ⟨_, rfl, ?_⟩ ⟨_, rfl, ?_⟩
      · intro failed
        cases failed
      · intro none
        cases none
    | none =>
      constructor
      · rintro ⟨o, told, clean⟩
        refine ⟨none, rfl, fun _ => ?_⟩
        cases found with
        | ok failures =>
          cases failures with
          | nil => rfl
          | cons failure more =>
            cases told
            exact absurd rfl clean
        | error halt =>
          cases halt with
          | outOfRounds => cases told
          | threw e =>
            simp only [concluded, guarded] at told
            cases described : e.describe with
            | error e =>
              rw [described] at told
              cases told
            | ok description =>
              rw [described] at told
              cases told
              exact absurd rfl clean
      · rintro ⟨reason, told, clean⟩
        cases told
        rw [clean rfl]
        refine ⟨_, rfl, ?_⟩
        intro failed
        cases failed

def crossing (p : Protocol σ ω Value) (rounds : Nat) (equivalence : Equivalence Value)
    (naturalComparator : Comparator Value) (strategies : List Strategy) : Harness σ ω where
  protocol := p
  rounds
  registry := .withDefaults
  strategies
  equivalence
  naturalComparator
  selected := none

variable {p : Protocol σ ω Value} {rounds : Nat} {equivalence : Equivalence Value}
  {naturalComparator : Comparator Value} {strategies : List Strategy}

theorem create_crossing (some : strategies ≠ []) :
    create p rounds .withDefaults
        { strategies := .only (strategies.map Strategy.name), equivalence, naturalComparator } =
      .ok (crossing p rounds equivalence naturalComparator strategies) := by
  simp only [create, resolveStrategies_names some]
  rfl

theorem crossing_passes_iff (hears : audience.Hears rounds calm)
    (steady : subject.Steady p among) {w : ω} (moment : among w) (now : s.Among calm among) :
    (crossing p rounds equivalence naturalComparator strategies).Passes audience subject s ↔
      ∀ check ∈ (BuiltIn.all : List (Check σ ω)),
        ∃ reason, Outcome.answer (check.skipReason subject w) = .ok reason ∧
          (reason = none → Outcome.answer (check.run
            ((crossing p rounds equivalence naturalComparator strategies).context subject) w) =
              .ok []) := by
  let h := crossing p rounds equivalence naturalComparator strategies
  have each : ∀ check ∈ h.checksToRun, Always (Stage.Among calm among)
      (h.runOne audience subject check)
      (concluded check.name (Outcome.answer (check.skipReason subject w))
        (guarded check.name (Outcome.answer (check.run (h.context subject) w)))) := by
    intro check here
    have ran : Repeats among (check.run (h.context subject)) :=
      BuiltIn.all_repeat steady check here
    exact runOne_always hears ((check.skipReason_repeats steady.size).always_at moment)
      (runGuarded_always (ran.always_at moment))
  refine (passes_iff hears each now).trans (forall₂_congr fun check _ => ?_)
  exact concluded_clean

theorem crossing_passes_iff_each (hears : audience.Hears rounds calm)
    (steady : subject.Steady p among) (some : strategies ≠ []) {s' : Stage η β ω}
    (now : s.Among calm among) (now' : s'.Among calm among) :
    (crossing p rounds equivalence naturalComparator strategies).Passes audience subject s ↔
      ∀ strategy ∈ strategies, (crossing p rounds equivalence naturalComparator
        [strategy]).Passes audience subject s' := by
  have conjunctive := BuiltIn.all_conjunctive (c :=
    (crossing p rounds equivalence naturalComparator strategies).context subject) steady
  have alone (strategy : Strategy) :
      (crossing p rounds equivalence naturalComparator [strategy]).Passes audience subject s' ↔ _ :=
    crossing_passes_iff hears steady now.world now'
  rw [crossing_passes_iff hears steady now.world now]
  simp only [alone]
  constructor
  · intro clean strategy here check built
    obtain ⟨reason, told, nothing⟩ := clean check built
    refine ⟨reason, told, fun none => ?_⟩
    exact (conjunctive check built strategies some s.world now.world).mp (nothing none)
      strategy here
  · intro each check built
    obtain ⟨first, here⟩ := List.exists_mem_of_ne_nil strategies some
    obtain ⟨reason, told, _⟩ := each first here check built
    refine ⟨reason, told, fun none => ?_⟩
    refine (conjunctive check built strategies some s.world now.world).mpr fun strategy here => ?_
    obtain ⟨same, again, nothing⟩ := each strategy here check built
    cases told.symm.trans again
    exact nothing none

/-- On a collection whose fresh sources behave the same, a run with the built-in checks passes under
several strategies just where it passes under each of them alone, whatever it finds or throws under
some. So order and repetition do not count, and no strategy makes up for another one. -/
theorem verdict_by_strategy (p : Protocol σ ω Value) (rounds : Nat)
    (equivalence : Equivalence Value) (naturalComparator : Comparator Value)
    (audience : Audience EventKind η Event β) (subject : Subject σ ω)
    (steady : subject.Steady p among) (hears : audience.Hears rounds calm) :
    ∃ h : List Strategy → Harness σ ω,
      (∀ strategies ≠ [], create p rounds .withDefaults
        { strategies := .only (strategies.map Strategy.name), equivalence, naturalComparator } =
          .ok (h strategies)) ∧
      ∀ strategies ≠ [], ∀ s s' : Stage η β ω, s.Among calm among → s'.Among calm among →
        ((h strategies).Passes audience subject s ↔
          ∀ strategy ∈ strategies, (h [strategy]).Passes audience subject s') ∧
        (∀ others, (∀ strategy, strategy ∈ others ↔ strategy ∈ strategies) →
          ((h others).Passes audience subject s ↔ (h strategies).Passes audience subject s')) ∧
        ∀ fewer ≠ [], fewer ⊆ strategies →
          (h strategies).Passes audience subject s → (h fewer).Passes audience subject s' := by
  refine ⟨crossing p rounds equivalence naturalComparator, fun _ some => create_crossing some, ?_⟩
  intro strategies some s s' now now'
  have each {strategies : List Strategy} (some : strategies ≠ []) {s : Stage η β ω}
      (now : s.Among calm among) :
      (crossing p rounds equivalence naturalComparator strategies).Passes audience subject s ↔ _ :=
    crossing_passes_iff_each hears steady some now now'
  refine ⟨each some now, fun others same => ?_, fun fewer left subset passes => ?_⟩
  · have left : others ≠ [] := by
      obtain ⟨first, here⟩ := List.exists_mem_of_ne_nil strategies some
      exact List.ne_nil_of_mem ((same first).mpr here)
    rw [each left now, each some now']
    simp only [same]
  · refine (each left now').mpr fun strategy here => ?_
    exact (each some now).mp passes strategy (subset here)

theorem verdict_by_strategy_recounted :
    Overlapping.recounted.Steady Overlapping.protocol (fun _ => True) ∧
      throwingZero.Hears 5 (fun t => t.1 = Bus.empty) ∧
      ∃ h : List Strategy → Harness (Overlapping Value) Nat,
        create Overlapping.protocol 5 .withDefaults
          { strategies := .only ["BULK_DRAIN", "MAXIMUM_SPLIT"] } =
            .ok (h [.bulkDrain, .maximumSplit]) ∧
        ∀ s s' : Stage Nat (List Event) Nat, s.bus = Bus.empty → s'.bus = Bus.empty →
          ((h [.bulkDrain, .maximumSplit]).Passes throwingZero Overlapping.recounted s ↔
            (h [.bulkDrain]).Passes throwingZero Overlapping.recounted s' ∧
            (h [.maximumSplit]).Passes throwingZero Overlapping.recounted s') := by
  have hears := throwingZero_hears 5 (by decide)
  obtain ⟨h, created, verdict⟩ := verdict_by_strategy Overlapping.protocol 5
    NamedEquivalence.sameValueZero.holds naturalOrder throwingZero Overlapping.recounted
    Overlapping.recounted_steady hears
  refine ⟨Overlapping.recounted_steady, hears, h,
    created [.bulkDrain, .maximumSplit] (List.cons_ne_nil _ _), fun s s' quiet quiet' => ?_⟩
  obtain ⟨each, _⟩ := verdict [.bulkDrain, .maximumSplit] (List.cons_ne_nil _ _) s s'
    ⟨quiet, trivial⟩ ⟨quiet', trivial⟩
  rw [each, List.forall_mem_cons, List.forall_mem_singleton]

end Harness

/-- Two elements, and what is said of their order by how many sources have been handed out. -/
def Scripted.telling (ordered : Nat → List Value) : Subject Scripted Nat where
  name := "Telling"
  features := []
  splitSource := fun n => .ok (.create
    { elements := #[.int 1, .int 2]
      throwAt := []
      thrown := .undefined
      style := .none
      partEmptySplits := 0
      claim := .offBy (.integer 0)
      flags := (Characteristics.ofFlag .ordered).toValue
      exact := none
      comparator := .refuse } 0) (n + 1)
  sampleElements := fun n => .ok [.int 1, .int 2] n
  orderedElements := fun n => .ok (ordered n) n
  size := fun n => .ok (.int 2) n

namespace Harness

/-- Handlers throw at a run under more than one strategy, and nobody takes what they throw. -/
def singleMinded : Audience EventKind Nat Event Unit where
  kindOf := Event.kind
  respond _ event := fun s =>
    match event with
    | .runStarted _ _ (_ :: _ :: _) => .error .undefined s
    | _ => .ok () s
  onError thrown _ := fun s => .error thrown s

/-- Though all sources behave the same, a strategy that passes fails where it is named twice, if what
is said of the order changes as more sources are handed out, or if a listener objects. -/
theorem verdict_by_repetition :
    let h := crossing Scripted.protocol 3 NamedEquivalence.sameValueZero.holds naturalOrder
    let same := Scripted.telling fun _ => [.int 1, .int 2]
    let changing := Scripted.telling fun n => if n ≤ 2 then [.int 1, .int 2] else [.int 2, .int 1]
    (∀ q, Aloof (Scripted.protocol.reply (ω := Nat) q)) ∧
    (∀ ordered, ∃ own, ∀ n, (Scripted.telling ordered).splitSource n = .ok own (n + 1)) ∧
    ((h [.bulkDrain]).Passes throwingZero changing ⟨Bus.empty, [], 0⟩ ∧
      ∃ report t, (h [.bulkDrain, .bulkDrain]).run throwingZero changing ⟨Bus.empty, [], 0⟩ =
        .ok report t ∧ report.passed = false) ∧
    (h [.bulkDrain]).Passes singleMinded same ⟨Bus.empty.onAny 0, (), 0⟩ ∧
      ∃ t, (h [.bulkDrain, .bulkDrain]).run singleMinded same ⟨Bus.empty.onAny 0, (), 0⟩ =
        .error (.threw .undefined) t :=
  ⟨Scripted.reply_aloof, fun _ => ⟨_, fun _ => rfl⟩,
    ⟨⟨_, _, rfl, rfl⟩, _, _, rfl, rfl⟩, ⟨_, _, rfl, rfl⟩, _, rfl⟩

end Harness
end SplitTraversal
