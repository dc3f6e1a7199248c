import SplitTraversal.Conformance.Harness
import SplitTraversal.Proofs.Announcements
import SplitTraversal.Source.Indexed

/-! The run of a harness as a protocol. Every selected check comes to one verdict, which depends on
its gate and on what running it gives; report, counts and announcements all follow from the verdicts,
and nothing that a check or a subscriber throws ends the run. -/

namespace SplitTraversal

variable {σ ω η β : Type}

namespace Check

/-- The gate keeps a collection out that lacks a required feature, or whose size is of an absent
class. -/
def Excludes (check : Check σ ω) (subject : Subject σ ω) (w : ω) : Prop :=
  (∃ f ∈ check.requires.getD [], f ∉ subject.features) ∨
    ∃ size v, subject.size w = .ok size v ∧ SizeClass.ofValue size ∈ check.absentSizes.getD []

def Settles (check : Check σ ω) (context : CheckContext σ ω) : Prop :=
  ∀ w, (∃ failures v, check.run context w = .ok failures v) ∨
    ∃ thrown description v, check.run context w = .error (.threw thrown) v ∧
      thrown.describe = .ok description

theorem skipReason_cases (check : Check σ ω) {subject : Subject σ ω} {w : ω}
    (sized : ∃ size v, subject.size w = .ok size v) :
    (check.Excludes subject w ∧ ∃ reason v, check.skipReason subject w = .ok (some reason) v) ∨
      (¬check.Excludes subject w ∧ ∃ v, check.skipReason subject w = .ok none v) := by
  obtain ⟨size, v, asked⟩ := sized
  cases missing : (check.requires.getD []).find? fun f => !subject.features.contains f with
  | some f =>
    have required := List.mem_of_find?_eq_some missing
    have absent : f ∉ subject.features := by simpa using List.find?_some missing
    refine .inl ⟨.inl ⟨f, required, absent⟩, s!"requires feature {f.name}", w, ?_⟩
    simp only [skipReason, missing]
  | none =>
    have declared : ∀ f ∈ check.requires.getD [], f ∈ subject.features := by
      simpa using List.find?_eq_none.mp missing
    cases absent : (check.absentSizes.getD []).contains (SizeClass.ofValue size) with
    | true =>
      refine .inl ⟨.inr ⟨size, v, asked, by simpa using absent⟩,
        s!"not applicable to collection size {(SizeClass.ofValue size).name}", v, ?_⟩
      simp only [skipReason, missing, asked, absent, if_true]
    | false =>
      refine .inr ⟨?_, v, by simp only [skipReason, missing, asked, absent]; rfl⟩
      rintro (⟨f, required, lacking⟩ | ⟨other, u, also, excluded⟩)
      · exact lacking (declared f required)
      · cases asked.symm.trans also
        exact absurd excluded (by simpa using absent)

end Check

namespace CheckOutcome

def events (subject : String) : CheckOutcome → List Event
  | .passed check => [.checkStarted subject check, .checkPassed subject check]
  | .failed check failures => [.checkStarted subject check, .checkFailed subject check failures]
  | .skipped check reason => [.checkSkipped subject check reason]

end CheckOutcome

namespace Stage

def hearing (audience : Audience EventKind η Event β) (events : List Event) (s : Stage η β ω) :
    Stage η β ω :=
  { s with memory := audience.heard s.bus (events.flatMap (audience.calls s.bus)) s.memory }

theorem hearing_append (audience : Audience EventKind η Event β) (first next : List Event)
    (s : Stage η β ω) :
    s.hearing audience (first ++ next) = (s.hearing audience first).hearing audience next := by
  simp only [hearing, List.flatMap_append, Audience.heard_append]

end Stage

namespace Harness

theorem strategiesOfNames_map (strategies : List Strategy) :
    strategiesOfNames (strategies.map Strategy.name) = .ok strategies := by
  induction strategies with
  | nil => rfl
  | cons strategy rest ih =>
    have known : Strategy.ofName? strategy.name = some strategy := by cases strategy <;> decide
    simp only [List.map_cons, strategiesOfNames, known, ih]

theorem resolveStrategies_names {strategies : List Strategy} (some : strategies ≠ []) :
    resolveStrategies (.only (strategies.map Strategy.name)) = .ok strategies := by
  cases strategies with
  | nil => exact absurd rfl some
  | cons strategy rest => exact strategiesOfNames_map (strategy :: rest)

def alarm (check : String) (thrown : Thrown) (description : String) : Failure :=
  { check, code := .checkThrew, actual := some thrown, message := "check threw " ++ description }

/-- The outcome of a check on a collection, and what it does to what collections share. -/
inductive Verdict (h : Harness σ ω) (subject : Subject σ ω) (check : Check σ ω) (w : ω) :
    CheckOutcome → ω → Prop
  | skipped {reason : String} {v : ω} (excluded : check.Excludes subject w)
      (asked : check.skipReason subject w = .ok (some reason) v) :
      Verdict h subject check w (.skipped check.name reason) v
  | threw {u v : ω} {thrown : Thrown} {description : String}
      (applies : ¬check.Excludes subject w) (asked : check.skipReason subject w = .ok none u)
      (ran : check.run (h.context subject) u = .error (.threw thrown) v)
      (described : thrown.describe = .ok description) :
      Verdict h subject check w (.failed check.name [alarm check.name thrown description]) v
  | failed {u v : ω} {failures : List Failure} (applies : ¬check.Excludes subject w)
      (asked : check.skipReason subject w = .ok none u)
      (ran : check.run (h.context subject) u = .ok failures v) (some : failures ≠ []) :
      Verdict h subject check w (.failed check.name failures) v
  | passed {u v : ω} (applies : ¬check.Excludes subject w)
      (asked : check.skipReason subject w = .ok none u)
      (ran : check.run (h.context subject) u = .ok [] v) :
      Verdict h subject check w (.passed check.name) v

/-- One verdict for each check, each check finding things as the one before has left them. -/
inductive Course (h : Harness σ ω) (subject : Subject σ ω) :
    List (Check σ ω) → ω → List CheckOutcome → ω → Prop
  | nil (w : ω) : Course h subject [] w [] w
  | cons {check : Check σ ω} {checks : List (Check σ ω)} {outcome : CheckOutcome}
      {outcomes : List CheckOutcome} {w u v : ω} (first : Verdict h subject check w outcome u)
      (rest : Course h subject checks u outcomes v) :
      Course h subject (check :: checks) w (outcome :: outcomes) v

/-- The registered names that are selected, in the order of their registration. -/
def selectedNames (h : Harness σ ω) : List String :=
  h.registry.names.filter fun name => h.selected.all (·.contains name)

def events (h : Harness σ ω) (subject : Subject σ ω) (outcomes : List CheckOutcome) :
    List Event :=
  .runStarted subject.name h.selectedNames (h.strategies.map Strategy.name) ::
    outcomes.flatMap (CheckOutcome.events subject.name) ++
    [.runCompleted subject.name (Report.build subject.name outcomes).passed
      (Report.count outcomes .passed) (Report.count outcomes .failed)
      (Report.count outcomes .skipped)]

/-- The audience leaves the subscriptions alone, and rounds suffice to call all of it. -/
structure Attended [DecidableEq η] (h : Harness σ ω) (audience : Audience EventKind η Event β)
    (bus : Bus EventKind η) : Prop where
  considerate : audience.Considerate
  built : bus.Built
  few : bus.typed.length < h.rounds ∧ bus.wild.length < h.rounds

variable {h : Harness σ ω} {subject : Subject σ ω} {check : Check σ ω} {checks : List (Check σ ω)}
  {outcome : CheckOutcome} {outcomes : List CheckOutcome} {w u v : ω}

theorem names_checksToRun (h : Harness σ ω) : h.checksToRun.map Check.name = h.selectedNames := by
  unfold checksToRun selectedNames
  cases h.selected with
  | none => exact (List.filter_eq_self.mpr fun _ _ => rfl).symm
  | some names => rw [Registry.names, List.filter_map]; rfl

theorem nodup_selectedNames (h : Harness σ ω) : h.selectedNames.Nodup :=
  h.registry.nodup.filter _

theorem verdict_returned {failures : List Failure} (applies : ¬check.Excludes subject w)
    (asked : check.skipReason subject w = .ok none u)
    (ran : check.run (h.context subject) u = .ok failures v) :
    h.Verdict subject check w (outcomeOf check.name failures) v := by
  cases failures with
  | nil => exact .passed applies asked ran
  | cons failure more => exact .failed applies asked ran (List.cons_ne_nil failure more)

theorem events_outcomeOf (subject check : String) (failures : List Failure) :
    (outcomeOf check failures).events subject =
      [.checkStarted subject check] ++ [ending subject check failures] := by
  cases failures <;> rfl

namespace Verdict

theorem name (verdict : h.Verdict subject check w outcome v) : outcome.check = check.name := by
  cases verdict <;> rfl

/-- No check fails for nothing. -/
theorem failed_iff (verdict : h.Verdict subject check w outcome v) :
    outcome.status = .failed ↔ outcome.failures ≠ [] := by
  cases verdict with
  | skipped => simp [CheckOutcome.status, CheckOutcome.failures]
  | threw => simp [CheckOutcome.status, CheckOutcome.failures]
  | failed _ _ _ some => simp [CheckOutcome.status, CheckOutcome.failures, some]
  | passed => simp [CheckOutcome.status, CheckOutcome.failures]

end Verdict

namespace Course

theorem names (course : h.Course subject checks w outcomes v) :
    outcomes.map CheckOutcome.check = checks.map Check.name := by
  induction course with
  | nil => rfl
  | cons first _ ih => rw [List.map_cons, List.map_cons, first.name, ih]

theorem failed_iff (course : h.Course subject checks w outcomes v) :
    ∀ o ∈ outcomes, o.status = .failed ↔ o.failures ≠ [] := by
  induction course with
  | nil => exact fun _ none => (List.not_mem_nil none).elim
  | cons first _ ih => exact List.forall_mem_cons.mpr ⟨first.failed_iff, ih⟩

end Course

section Running

variable [DecidableEq η] {audience : Audience EventKind η Event β}

theorem announce_eq {s : Stage η β ω} (attended : h.Attended audience s.bus) (event : Event) :
    h.announce audience event s = .ok () (s.hearing audience [event]) := by
  have emitted := attended.considerate.emit_eq attended.built h.rounds attended.few event s.memory
  simp only [announce, Focus.run, Stage.audience, emitted, Stage.hearing, List.flatMap_singleton]

theorem runOne_guarded {s : Stage η β ω} {failures : List Failure}
    (attended : h.Attended audience s.bus)
    (asked : check.skipReason subject s.world = .ok none u)
    (guarded : h.runGuarded subject check u = .ok failures v) :
    h.runOne audience subject check s = .ok (outcomeOf check.name failures)
      { s.hearing audience ((outcomeOf check.name failures).events subject.name) with
        world := v } := by
  have announced (world : ω) (memory : β) (event : Event) :=
    announce_eq (s := { s with world, memory }) attended event
  rw [events_outcomeOf, Stage.hearing_append]
  simp only [runOne, Focus.run, Stage.collections, asked, announced, Stage.hearing, guarded]

theorem runOne_eq {s : Stage η β ω} (attended : h.Attended audience s.bus)
    (sized : ∀ w, ∃ size v, subject.size w = .ok size v)
    (settles : check.Settles (h.context subject)) :
    ∃ outcome v, h.Verdict subject check s.world outcome v ∧
      h.runOne audience subject check s =
        .ok outcome { s.hearing audience (outcome.events subject.name) with world := v } := by
  rcases check.skipReason_cases (sized s.world) with ⟨excluded, reason, v, asked⟩ |
    ⟨applies, u, asked⟩
  · refine ⟨_, v, .skipped excluded asked, ?_⟩
    have announced := announce_eq (s := { s with world := v }) attended
      (.checkSkipped subject.name check.name reason)
    simp only [runOne, Focus.run, Stage.collections, asked, announced]
    rfl
  · rcases settles u with ⟨failures, v, ran⟩ | ⟨thrown, description, v, ran, described⟩
    · refine ⟨_, v, verdict_returned applies asked ran, runOne_guarded attended asked ?_⟩
      simp only [runGuarded, ran]
    · have guarded : h.runGuarded subject check u =
          .ok [alarm check.name thrown description] v := by
        simp only [runGuarded, ran, described]
        rfl
      exact ⟨_, v, .threw applies asked ran described, runOne_guarded attended asked guarded⟩

theorem runEach_eq {s : Stage η β ω} (attended : h.Attended audience s.bus)
    (sized : ∀ w, ∃ size v, subject.size w = .ok size v)
    (settles : ∀ check ∈ checks, check.Settles (h.context subject)) :
    ∃ outcomes v, h.Course subject checks s.world outcomes v ∧
      h.runEach audience subject checks s =
        .ok outcomes { s.hearing audience (outcomes.flatMap (CheckOutcome.events subject.name))
          with world := v } := by
  induction checks generalizing s with
  | nil => exact ⟨[], s.world, .nil s.world, rfl⟩
  | cons check rest ih =>
    rw [List.forall_mem_cons] at settles
    obtain ⟨outcome, u, verdict, first⟩ := runOne_eq attended sized settles.1
    obtain ⟨outcomes, v, course, later⟩ := ih
      (s := { s.hearing audience (outcome.events subject.name) with world := u }) attended settles.2
    refine ⟨outcome :: outcomes, v, .cons verdict course, ?_⟩
    rw [List.flatMap_cons, Stage.hearing_append]
    simp only [runEach, first, later]
    rfl

theorem run_eq {s : Stage η β ω} (attended : h.Attended audience s.bus)
    (sized : ∀ w, ∃ size v, subject.size w = .ok size v)
    (settles : ∀ check ∈ h.checksToRun, check.Settles (h.context subject)) :
    ∃ outcomes v, h.Course subject h.checksToRun s.world outcomes v ∧
      h.run audience subject s = .ok (Report.build subject.name outcomes)
        { s.hearing audience (h.events subject outcomes) with world := v } := by
  let started := Event.runStarted subject.name (h.checksToRun.map Check.name)
    (h.strategies.map Strategy.name)
  have start := announce_eq attended started
  obtain ⟨outcomes, v, course, ran⟩ :=
    runEach_eq (s := s.hearing audience [started]) attended sized settles
  have finish := announce_eq (s := { (s.hearing audience [started]).hearing audience
    (outcomes.flatMap (CheckOutcome.events subject.name)) with world := v }) attended
    (completion (Report.build subject.name outcomes))
  refine ⟨outcomes, v, course, ?_⟩
  rw [events, ← names_checksToRun, ← List.singleton_append, Stage.hearing_append,
    Stage.hearing_append]
  simp only [run, started, start, ran, finish]
  rfl

end Running

section Counts

theorem count_cons (outcome : CheckOutcome) (rest : List CheckOutcome) (status : CheckStatus) :
    Report.count (outcome :: rest) status =
      Report.count rest status + if outcome.status = status then 1 else 0 := by
  simp only [Report.count, List.filter_cons, beq_iff_eq]
  split <;> rfl

theorem count_statuses (outcomes : List CheckOutcome) :
    Report.count outcomes .passed + Report.count outcomes .failed +
      Report.count outcomes .skipped = outcomes.length := by
  induction outcomes with
  | nil => rfl
  | cons outcome rest ih =>
    simp only [count_cons, List.length_cons]
    cases outcome.status <;> simp only [reduceCtorEq, if_true, if_false] <;> omega

theorem passed_iff_count (name : String) (outcomes : List CheckOutcome) :
    (Report.build name outcomes).passed = true ↔ Report.count outcomes .failed = 0 := by
  simp [Report.build, Report.count, List.filter_eq_nil_iff]

theorem Course.count_failed_iff (course : h.Course subject checks w outcomes v) (name : String) :
    Report.count outcomes .failed = 0 ↔ (Report.build name outcomes).failures = [] := by
  have failing := course.failed_iff
  simp only [Report.count, Report.build, List.length_eq_zero_iff, List.filter_eq_nil_iff,
    beq_iff_eq, List.flatMap_eq_nil_iff]
  refine forall₂_congr fun o here => ?_
  rw [failing o here, ne_eq, Classical.not_not]

theorem require_iff (report : Report) : report.require = .ok () ↔ report.passed = true := by
  cases h : report.passed <;> simp [Report.require, h]

end Counts

/-- What a handler of all kinds is called with, in this order: each event, and twice the events of
the kinds that it is subscribed to besides. -/
theorem Attended.received [DecidableEq η] {audience : Audience EventKind η Event β}
    {bus : Bus EventKind η} (attended : h.Attended audience bus) {handler : η}
    (wild : handler ∈ bus.wild.map Subscription.handler) (events : List Event) :
    ((events.flatMap (audience.calls bus)).filter (·.1 = handler)).map Prod.snd =
      events.flatMap fun event =>
        if ∃ s ∈ bus.typed, s.kind = audience.kindOf event ∧ s.handler = handler
        then [event, event] else [event] := by
  induction events with
  | nil => rfl
  | cons event rest ih =>
    have heard := attended.built.listeners_wild wild (audience.kindOf event)
    have here : (audience.calls bus event).filter (·.1 = handler) =
        ((bus.listeners (audience.kindOf event)).filter (· = handler)).map (·, event) :=
      List.filter_map
    rw [List.flatMap_cons, List.filter_append, here, heard, List.map_append, ih, List.flatMap_cons]
    split <;> rfl

/-- A run returns a report with one outcome for each selected check, whatever checks and subscribers
throw; it announces these outcomes and nothing else, and report, counts and outcomes agree. -/
theorem run_announces [DecidableEq η] (h : Harness σ ω)
    (audience : Audience EventKind η Event β) (subject : Subject σ ω) (s : Stage η β ω)
    (sized : ∀ w, ∃ size v, subject.size w = .ok size v)
    (settles : ∀ check ∈ h.checksToRun, check.Settles (h.context subject))
    (attended : h.Attended audience s.bus) :
    ∃ outcomes v,
      let report := Report.build subject.name outcomes
      let events := h.events subject outcomes
      h.run audience subject s = .ok report { s.hearing audience events with world := v } ∧
      h.Course subject h.checksToRun s.world outcomes v ∧
      h.checksToRun.Sublist h.registry.checks ∧
      outcomes.map CheckOutcome.check = h.selectedNames ∧ h.selectedNames.Nodup ∧
      (∀ handler ∈ s.bus.wild.map Subscription.handler,
        ((events.flatMap (audience.calls s.bus)).filter (·.1 = handler)).map Prod.snd =
          events.flatMap fun event =>
            if ∃ t ∈ s.bus.typed, t.kind = audience.kindOf event ∧ t.handler = handler
            then [event, event] else [event]) ∧
      Report.count outcomes .passed + Report.count outcomes .failed +
        Report.count outcomes .skipped = h.selectedNames.length ∧
      (report.passed = true ↔ Report.count outcomes .failed = 0) ∧
      (Report.count outcomes .failed = 0 ↔ report.failures = []) ∧
      (report.passed = true ↔ report.require = .ok ()) := by
  obtain ⟨outcomes, v, course, ran⟩ := run_eq attended sized settles
  have names : outcomes.map CheckOutcome.check = h.selectedNames :=
    course.names.trans h.names_checksToRun
  have length : outcomes.length = h.selectedNames.length := by
    simpa only [List.length_map] using congrArg List.length names
  have selected : h.checksToRun.Sublist h.registry.checks := by
    unfold checksToRun
    split
    · exact .refl _
    · exact List.filter_sublist
  exact ⟨outcomes, v, ran, course, selected, names, h.nodup_selectedNames,
    fun handler wild => attended.received wild _,
    (count_statuses outcomes).trans length, passed_iff_count _ outcomes,
    course.count_failed_iff _, (require_iff _).symm⟩

def emptyBox : Subject (Indexed Unit Value) Unit where
  name := "Box"
  features := []
  splitSource := fun w => .ok (.empty .undefined) w
  sampleElements := fun w => .ok [] w
  orderedElements := fun w => .ok [] w
  size := fun w => .ok (.int 0) w

def mixedChecks : Harness (Indexed Unit Value) Unit where
  protocol := Indexed.protocol
  rounds := 3
  registry := ⟨[
    { name := "growing", description := "", requires := some [.supportsAdd]
      run := fun _ w => .ok [] w },
    { name := "throwing", description := "", run := fun _ w => .error (.threw .null) w },
    { name := "clean", description := "", run := fun _ w => .ok [] w }], by decide⟩
  strategies := Strategy.all
  equivalence := NamedEquivalence.sameValueZero.holds
  naturalComparator := naturalOrder
  selected := none

def throwingZero : Audience EventKind Nat Event (List Event) where
  kindOf := Event.kind
  respond handler event := fun s =>
    if handler = 0 then .error .undefined s else .ok () (s.1, s.2 ++ [event])
  onError _ _ := fun s => .ok () s

theorem throwingZero_considerate : throwingZero.Considerate := by
  refine ⟨fun handler event bus m => ?_, fun _ _ _ m => ⟨m, rfl⟩⟩
  simp only [throwingZero]
  split <;> rfl

def listening : Stage Nat (List Event) Unit :=
  ⟨(Bus.empty.on ⟨"check:failed"⟩ 0).onAny 1, [], ()⟩

theorem run_announces_throwing :
    (∀ w, ∃ size v, emptyBox.size w = .ok size v) ∧
      (∀ check ∈ mixedChecks.checksToRun, check.Settles (mixedChecks.context emptyBox)) ∧
      mixedChecks.Attended throwingZero listening.bus ∧
      ∃ outcomes v, mixedChecks.run throwingZero emptyBox listening =
          .ok (Report.build "Box" outcomes) { listening.hearing throwingZero
            (mixedChecks.events emptyBox outcomes) with world := v } ∧
        outcomes.map CheckOutcome.check = ["growing", "throwing", "clean"] := by
  have sized : ∀ w, ∃ size v, emptyBox.size w = .ok size v := fun w => ⟨_, w, rfl⟩
  have settles : ∀ check ∈ mixedChecks.checksToRun,
      check.Settles (mixedChecks.context emptyBox) := by
    refine List.forall_mem_cons.mpr ⟨fun w => .inl ⟨_, w, rfl⟩, List.forall_mem_cons.mpr
      ⟨fun w => .inr ⟨_, "null", w, rfl, rfl⟩, List.forall_mem_singleton.mpr
        fun w => .inl ⟨_, w, rfl⟩⟩⟩
  have attended : mixedChecks.Attended throwingZero listening.bus :=
    ⟨throwingZero_considerate, .onAny (.on .empty _ _) _, by decide⟩
  obtain ⟨outcomes, v, ran, _, _, names, _⟩ :=
    run_announces mixedChecks throwingZero emptyBox listening sized settles attended
  exact ⟨sized, settles, attended, outcomes, v, ran, names⟩

/-- Handler zero throws, any other keeps the events. What is thrown takes handler one off. -/
def silencing : Audience EventKind Nat Event (List Event) :=
  { throwingZero with onError := fun _ _ s => .ok () (s.1.offAny 1, s.2) }

/-- Every handler throws, and what is thrown brings in one handler more. -/
def multiplying : Audience EventKind Nat Event Unit where
  kindOf := Event.kind
  respond _ _ := fun s => .error .undefined s
  onError _ _ := fun s => .ok () (s.1.onAny s.1.clock, s.2)

theorem wild_multiplied {bus : Bus EventKind Nat} (begun : ∀ s ∈ bus.wild, s.handler < bus.clock) :
    (bus.onAny bus.clock).wild = bus.wild ++ [⟨(), bus.clock, bus.clock⟩] := by
  have new : ∀ s ∈ bus.wild, s.handler ≠ bus.clock := fun s here => Nat.ne_of_lt (begun s here)
  simpa [Bus.onAny, Bus.subscribe] using new

theorem deliver_multiplying (event : Event) (rounds moment : Nat) (bus : Bus EventKind Nat)
    (waiting : ∃ s ∈ bus.wild, moment ≤ s.since)
    (begun : ∀ s ∈ bus.wild, s.since < bus.clock ∧ s.handler < bus.clock) :
    ∃ t, multiplying.deliver Bus.nextWild event rounds moment (bus, ()) =
      .error .outOfRounds t := by
  induction rounds generalizing moment bus with
  | zero => exact ⟨_, rfl⟩
  | succ rounds ih =>
    obtain ⟨next, found⟩ : ∃ next, Bus.nextWild moment bus = some next :=
      Option.isSome_iff_exists.mp (List.find?_isSome.mpr (by simpa using waiting))
    have here : next ∈ bus.wild := List.mem_of_find?_eq_some found
    have grown := wild_multiplied fun s there => (begun s there).2
    have later : ∀ s ∈ (bus.onAny bus.clock).wild,
        s.since < bus.clock + 1 ∧ s.handler < bus.clock + 1 := by
      rw [grown]
      refine List.forall_mem_append.mpr ⟨fun s there => ?_, ?_⟩
      · exact ⟨Nat.lt_succ_of_lt (begun s there).1, Nat.lt_succ_of_lt (begun s there).2⟩
      · exact List.forall_mem_singleton.mpr ⟨Nat.lt_succ_self _, Nat.lt_succ_self _⟩
    have last : (⟨(), bus.clock, bus.clock⟩ : Subscription Unit Nat) ∈
        (bus.onAny bus.clock).wild := by
      rw [grown]
      exact List.mem_concat_self
    obtain ⟨t, onward⟩ := ih (next.since + 1) (bus.onAny bus.clock)
      ⟨_, last, (begun next here).1⟩ later
    refine ⟨t, ?_⟩
    rw [← onward]
    simp only [Audience.deliver, found]
    rfl

theorem run_multiplying (h : Harness σ ω) (subject : Subject σ ω) (w : ω) :
    ∃ t, h.run multiplying subject ⟨Bus.empty.onAny 0, (), w⟩ = .error .outOfRounds t := by
  have announced (event : Event) : ∃ t, h.announce multiplying event
      ⟨Bus.empty.onAny 0, (), w⟩ = .error .outOfRounds t := by
    obtain ⟨t, endless⟩ : ∃ t, multiplying.emit h.rounds event (Bus.empty.onAny 0, ()) =
        .error .outOfRounds t := by
      cases h.rounds with
      | zero => exact ⟨_, rfl⟩
      | succ rounds =>
        exact deliver_multiplying event (rounds + 1) 0 (Bus.empty.onAny 0)
          ⟨_, List.mem_cons_self, Nat.zero_le _⟩ (by decide)
    exact ⟨_, by simp only [announce, Focus.run, Stage.audience, endless]; rfl⟩
  obtain ⟨t, announced⟩ := announced (.runStarted subject.name (h.checksToRun.map Check.name)
    (h.strategies.map Strategy.name))
  exact ⟨t, by simp only [run, announced]⟩

/-- A listener that takes a handler off keeps all events from it; one that brings in handler after
handler keeps the run from ending; and a handler that is subscribed to a kind besides hears the
events of that kind twice. -/
theorem run_announces_unevenly :
    (silencing.Quiet ∧ ∃ outcomes t, mixedChecks.run silencing emptyBox
        ⟨(Bus.empty.on ⟨"harness:started"⟩ 0).onAny 1, [], ()⟩ =
          .ok (Report.build "Box" outcomes) t ∧ t.memory = []) ∧
    (multiplying.Quiet ∧ ∀ rounds, ∃ t, { mixedChecks with rounds }.run multiplying emptyBox
        ⟨Bus.empty.onAny 0, (), ()⟩ = .error .outOfRounds t) ∧
    throwingZero.Considerate ∧ ∃ outcomes t, mixedChecks.run throwingZero emptyBox
        ⟨(Bus.empty.on ⟨"harness:started"⟩ 1).onAny 1, [], ()⟩ =
          .ok (Report.build "Box" outcomes) t ∧
      t.memory.map (EventKind.name ∘ Event.kind) =
        ["harness:started", "harness:started", "check:skipped", "check:started", "check:failed",
          "check:started", "check:passed", "harness:completed"] := by
  have silencing_quiet : silencing.Quiet :=
    ⟨throwingZero_considerate.respond, fun _ _ _ => ⟨_, rfl⟩⟩
  have multiplying_quiet : multiplying.Quiet := ⟨fun _ _ _ _ => rfl, fun _ _ _ => ⟨_, rfl⟩⟩
  exact ⟨⟨silencing_quiet, _, _, rfl, rfl⟩,
    ⟨multiplying_quiet, fun _ => run_multiplying _ _ _⟩, throwingZero_considerate, _, _, rfl, rfl⟩

end Harness
end SplitTraversal
