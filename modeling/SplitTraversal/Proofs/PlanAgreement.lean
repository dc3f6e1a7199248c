import Mathlib.Data.List.Nodup
import SplitTraversal.Conformance.Suite
import SplitTraversal.Proofs.AloofSources
import SplitTraversal.Proofs.SteadyRuns

/-! Plan, run, single checks, the list of tests and the suite of a harness, each of which goes by
gates and selection for itself. On a steady collection they agree. -/

namespace SplitTraversal

variable {σ ω η β : Type} {among : ω → Prop}

namespace Registry

def gates (subject : Subject σ ω) (checks : List (Check σ ω)) :
    Action ω (List (Check σ ω × Option String)) :=
  checks.mapM fun check => (check, ·) <$> check.skipReason subject

theorem enabled_eq_gates (subject : Subject σ ω) (checks : List (Check σ ω)) :
    enabled subject checks =
      (fun rows => (rows.filter (·.2.isNone)).map Prod.fst) <$> gates subject checks := by
  induction checks with
  | nil => rfl
  | cons check rest ih =>
    funext w
    simp only [enabled, gates, ih, List.mapM_cons, Functor.map, Bind.bind, EStateM.map,
      EStateM.bind]
    cases check.skipReason subject w with
    | error e w => rfl
    | ok reason w =>
      simp only
      cases rest.mapM (fun check => (check, ·) <$> check.skipReason subject) w with
      | error e w => rfl
      | ok rows w => cases reason <;> rfl

theorem gates_checks {subject : Subject σ ω} {checks : List (Check σ ω)}
    {rows : List (Check σ ω × Option String)} {w w' : ω}
    (known : gates subject checks w = .ok rows w') : rows.map Prod.fst = checks := by
  induction checks generalizing rows w with
  | nil =>
    cases known
    rfl
  | cons check rest ih =>
    rw [gates, List.mapM_cons] at known
    obtain ⟨row, v, gated, more⟩ := bind_eq_ok known
    obtain ⟨others, v', told, last⟩ := bind_eq_ok more
    obtain ⟨reason, _, rfl⟩ := map_eq_ok gated
    cases last
    exact congrArg (check :: ·) (ih told)

theorem get?_name (r : Registry σ ω) {check : Check σ ω} (here : check ∈ r.checks) :
    r.get? check.name = some check := by
  unfold get?
  cases found : r.checks.find? (·.name == check.name) with
  | none =>
    have other := List.find?_eq_none.mp found check here
    exact absurd (beq_self_eq_true check.name) other
  | some other =>
    have named := List.find?_some found
    exact congrArg some (List.inj_on_of_nodup_map r.nodup (List.mem_of_find?_eq_some found) here
      (eq_of_beq named))

end Registry

namespace Harness

structure Foretells (c : PlannedCheck) (o : CheckOutcome) : Prop where
  name : o.check = c.name
  skipped : o.status = .skipped ↔ c.enabled = false
  skipReason : o.skipReason? = c.skipReason

structure Suits (outcomes : List CheckOutcome) (test : ConformanceTest) (result : TestResult) :
    Prop where
  title : result.title = test.title
  fails : ∃ o ∈ outcomes, o.check = test.check ∧ (result.passed = false ↔ o.status = .failed)

def resultOf (test : ConformanceTest) (o : CheckOutcome) : TestResult :=
  ⟨test.title, o.failures.map Failure.format⟩

/-- How the paths of a harness go by the same gates and the same single checks, whatever is
registered, and whatever the collection and the audience do. -/
structure Interlocked (h : Harness σ ω) (audience : Audience EventKind η Event β)
    (subject : Subject σ ω) : Prop where
  /-- No source is built for a plan: it is the same whatever building one would do. -/
  unbuilt (splitSource : Action ω σ) : h.plan { subject with splitSource } = h.plan subject
  names : ∀ w cs w', h.plan subject w = .ok cs w' → cs.map PlannedCheck.name = h.selectedNames
  once : h.selectedNames.Nodup
  tests : h.conformanceTests subject =
    (fun cs => (cs.filter PlannedCheck.enabled).map testOf) <$> h.plan subject
  enabled : h.selected = none → h.conformanceTests subject =
    (List.map fun check => ⟨s!"{check.name}: {check.description}", check.name⟩) <$>
      h.registry.enabledFor subject
  run : h.run audience subject =
    h.announce audience (.runStarted subject.name h.selectedNames
        (h.strategies.map Strategy.name)) >>= fun _ =>
      h.selectedNames.mapM (h.runCheck audience subject) >>= fun outcomes =>
        h.announce audience (completion (.build subject.name outcomes)) >>= fun _ =>
          pure (.build subject.name outcomes)
  suite : h.describeConformance audience subject =
    Action.lift (Stage.collections.run (h.conformanceTests subject)) >>= fun tests =>
      (tests.mapM fun test => resultOf test <$> h.runCheck audience subject test.check) >>=
        fun results => pure ⟨s!"{subject.name} conformance", results⟩

structure Reported (h : Harness σ ω) (audience : Audience EventKind η Event β)
    (subject : Subject σ ω) (calm : Bus EventKind η × β → Prop) (among : ω → Prop)
    (planned : List PlannedCheck) (outcomes : List CheckOutcome) (results : List TestResult) :
    Prop where
  foretold : List.Forall₂ Foretells planned outcomes
  single : ∀ o ∈ outcomes,
    Always (Stage.Among calm among) (h.runCheck audience subject o.check) (.ok o)
  suite : Always (Stage.Among calm among) (h.describeConformance audience subject)
    (.ok ⟨s!"{subject.name} conformance", results⟩)
  suits : List.Forall₂ (Suits outcomes) ((planned.filter PlannedCheck.enabled).map testOf) results
  passed : (∀ result ∈ results, result.passed = true) ↔
    (Report.build subject.name outcomes).passed = true

/-- What a plan lists and what each single check comes to say all that a harness does with a
collection: its run, its tests, and its suite. -/
structure Agreement (h : Harness σ ω) (audience : Audience EventKind η Event β)
    (subject : Subject σ ω) (calm : Bus EventKind η × β → Prop) (among : ω → Prop)
    (planned : Except Thrown (List PlannedCheck)) (outcome : String → Except Halt CheckOutcome) :
    Prop where
  plan : Always among (h.plan subject) planned
  tests : Always among (h.conformanceTests subject)
    (planned.map fun cs => (cs.filter PlannedCheck.enabled).map testOf)
  single (name : String) :
    Always (Stage.Among calm among) (h.runCheck audience subject name) (outcome name)
  run : Always (Stage.Among calm among) (h.run audience subject)
    ((h.selectedNames.mapM outcome).map (Report.build subject.name))
  reported : ∀ outcomes, h.selectedNames.mapM outcome = .ok outcomes →
    ∃ cs results, planned = .ok cs ∧ h.Reported audience subject calm among cs outcomes results

theorem mem_of_checksToRun {h : Harness σ ω} {check : Check σ ω} (here : check ∈ h.checksToRun) :
    check ∈ h.registry.checks := by
  unfold checksToRun at here
  cases selected : h.selected with
  | none =>
    rw [selected] at here
    exact here
  | some names =>
    rw [selected] at here
    exact (List.mem_filter.mp here).1

section Gates

variable {h : Harness σ ω} {subject : Subject σ ω}

def plannedOf (row : Check σ ω × Option String) : PlannedCheck :=
  ⟨row.1.name, row.1.description, row.2⟩

theorem planOf_eq_gates (subject : Subject σ ω) (checks : List (Check σ ω)) :
    planOf subject checks = List.map plannedOf <$> Registry.gates subject checks := by
  induction checks with
  | nil => rfl
  | cons check rest ih =>
    funext w
    simp only [planOf, Registry.gates, ih, List.mapM_cons, Functor.map, Bind.bind, EStateM.map,
      EStateM.bind]
    cases check.skipReason subject w with
    | error e w => rfl
    | ok reason w =>
      simp only
      cases rest.mapM (fun check => (check, ·) <$> check.skipReason subject) w <;> rfl

theorem conformanceTests_eq (h : Harness σ ω) (subject : Subject σ ω) :
    h.conformanceTests subject =
      (fun cs => (cs.filter PlannedCheck.enabled).map testOf) <$> h.plan subject := by
  funext w
  simp only [conformanceTests, Functor.map, EStateM.map]
  cases h.plan subject w <;> rfl

theorem foretells {check : Check σ ω} {reason : Option String}
    {found : Except Halt (List Failure)} {o : CheckOutcome}
    (concluding : concluded check.name (.ok reason) found = .ok o) :
    Foretells (plannedOf (check, reason)) o ∧ (o.status = .failed ↔ o.failures ≠ []) := by
  cases reason with
  | some reason =>
    cases concluding
    exact ⟨⟨rfl, iff_of_true rfl rfl, rfl⟩, iff_of_false nofun (absurd rfl)⟩
  | none =>
    cases found with
    | error halt => cases concluding
    | ok failures =>
      cases concluding
      cases failures with
      | nil => exact ⟨⟨rfl, iff_of_false nofun nofun, rfl⟩, iff_of_false nofun (absurd rfl)⟩
      | cons failure more =>
        exact ⟨⟨rfl, iff_of_false nofun nofun, rfl⟩, iff_of_true rfl (List.cons_ne_nil _ _)⟩

def gated (gate : Check σ ω → Except Thrown (Option String)) (checks : List (Check σ ω)) :
    Except Thrown (List (Check σ ω × Option String)) :=
  checks.mapM fun check => (gate check).map (check, ·)

theorem gates_always {gate : Check σ ω → Except Thrown (Option String)}
    (always : ∀ check, Always among (check.skipReason subject) (gate check))
    (checks : List (Check σ ω)) :
    Always among (Registry.gates subject checks) (gated gate checks) :=
  Always.mapM fun check _ => (always check).map (check, ·)

theorem plan_always {gate : Check σ ω → Except Thrown (Option String)}
    (always : ∀ check, Always among (check.skipReason subject) (gate check)) :
    Always among (h.plan subject) ((gated gate h.checksToRun).map (List.map plannedOf)) := by
  rw [plan, planOf_eq_gates]
  exact (gates_always always _).map _

theorem tests_of_enabled (rows : List (Check σ ω × Option String)) :
    ((rows.map plannedOf).filter PlannedCheck.enabled).map testOf =
      ((rows.filter (·.2.isNone)).map Prod.fst).map fun check =>
        ⟨s!"{check.name}: {check.description}", check.name⟩ := by
  rw [List.filter_map, List.map_map, List.map_map]
  rfl

theorem plan_names {cs : List PlannedCheck} {w w' : ω} (planned : h.plan subject w = .ok cs w') :
    cs.map PlannedCheck.name = h.selectedNames := by
  rw [plan, planOf_eq_gates] at planned
  obtain ⟨rows, known, rfl⟩ := map_eq_ok planned
  rw [← names_checksToRun, ← Registry.gates_checks known, List.map_map, List.map_map]
  rfl

theorem conformanceTests_unselected (unselected : h.selected = none) :
    h.conformanceTests subject =
      (List.map fun check => ⟨s!"{check.name}: {check.description}", check.name⟩) <$>
        h.registry.enabledFor subject := by
  have all : h.checksToRun = h.registry.checks := by
    unfold checksToRun
    rw [unselected]
  rw [conformanceTests_eq, plan, planOf_eq_gates, all, Registry.enabledFor,
    Registry.enabled_eq_gates, Functor.map_map, Functor.map_map]
  exact congrArg (· <$> _) (funext tests_of_enabled)

end Gates

section Suite

variable {audience : Audience EventKind η Event β} {calm : Bus EventKind η × β → Prop}
  {h : Harness σ ω} {subject : Subject σ ω}

theorem runTests_eq_mapM (h : Harness σ ω) (audience : Audience EventKind η Event β)
    (subject : Subject σ ω) (tests : List ConformanceTest) :
    h.runTests audience subject tests =
      tests.mapM fun test => resultOf test <$> h.runCheck audience subject test.check := by
  induction tests with
  | nil => rfl
  | cons test rest ih =>
    funext s
    rw [List.mapM_cons, ← ih]
    simp only [runTests, Functor.map, Bind.bind, EStateM.map, EStateM.bind]
    cases h.runCheck audience subject test.check s with
    | error e s => rfl
    | ok outcome s =>
      simp only
      cases h.runTests audience subject rest s <;> rfl

theorem describeConformance_eq (h : Harness σ ω) (audience : Audience EventKind η Event β)
    (subject : Subject σ ω) :
    h.describeConformance audience subject =
      Action.lift (Stage.collections.run (h.conformanceTests subject)) >>= fun tests =>
        (tests.mapM fun test => resultOf test <$> h.runCheck audience subject test.check) >>=
          fun results => pure ⟨s!"{subject.name} conformance", results⟩ := by
  funext s
  simp only [describeConformance, Action.lift, Bind.bind, EStateM.bind]
  cases Stage.collections.run (h.conformanceTests subject) s with
  | error e s => rfl
  | ok tests s =>
    simp only [← runTests_eq_mapM]
    cases h.runTests audience subject tests s <;> rfl

theorem describe_always {tests : List ConformanceTest} {results : List TestResult}
    (listed : Always among (h.conformanceTests subject) (.ok tests))
    (ran : Always (Stage.Among calm among) (h.runTests audience subject tests) (.ok results)) :
    Always (Stage.Among calm among) (h.describeConformance audience subject)
      (.ok ⟨s!"{subject.name} conformance", results⟩) := by
  intro s now
  obtain ⟨w, later, told⟩ := listed.ok_eq now.world
  have gone : Stage.Among calm among { s with world := w } := ⟨now.calm, later⟩
  obtain ⟨t, next, run⟩ := ran.ok_eq gone
  simp only [describeConformance, Focus.run, Stage.collections, told, run]
  exact ⟨rfl, next⟩

theorem resultOf_passed (test : ConformanceTest) {o : CheckOutcome}
    (sound : o.status = .failed ↔ o.failures ≠ []) :
    (resultOf test o).passed = false ↔ o.status = .failed := by
  rw [sound, resultOf, TestResult.passed, List.isEmpty_map]
  exact List.isEmpty_eq_false_iff

/-- The tests of the enabled checks show what the outcomes say: one fails just where its check has
failed, so that all of them pass just where the report does. -/
theorem suite_of_outcomes {cs : List PlannedCheck} {outcomes : List CheckOutcome}
    {outcome : String → Except Halt CheckOutcome} (foretold : List.Forall₂ Foretells cs outcomes)
    (single : ∀ o ∈ outcomes, outcome o.check = .ok o)
    (sound : ∀ o ∈ outcomes, o.status = .failed ↔ o.failures ≠ []) (name : String) :
    ∃ results, (((cs.filter PlannedCheck.enabled).map testOf).mapM fun test =>
        (outcome test.check).map (resultOf test)) = .ok results ∧
      List.Forall₂ (Suits outcomes) ((cs.filter PlannedCheck.enabled).map testOf) results ∧
      ((∀ result ∈ results, result.passed = true) ↔
        (Report.build name outcomes).passed = true) := by
  have each : ∀ test ∈ (cs.filter PlannedCheck.enabled).map testOf,
      ∃ result, (outcome test.check).map (resultOf test) = .ok result ∧
        Suits outcomes test result := by
    intro test here
    obtain ⟨c, planned, rfl⟩ := List.mem_map.mp here
    obtain ⟨o, there, told⟩ := exists_of_forall₂_left foretold (List.mem_filter.mp planned).1
    have ran : outcome (testOf c).check = .ok o := by
      rw [← single o there, told.name]
      rfl
    refine ⟨resultOf (testOf c) o, by rw [ran]; rfl, rfl, o, there, told.name, ?_⟩
    exact resultOf_passed _ (sound o there)
  obtain ⟨results, mapped, suits⟩ := exists_mapM_ok each
  refine ⟨results, mapped, suits, ?_⟩
  simp only [Report.build, List.all_eq_true, bne_iff_ne]
  constructor
  · intro pass o here failed
    obtain ⟨c, planned, told⟩ := exists_of_forall₂_right foretold here
    have enabled : c.enabled = true := by
      rw [← Bool.not_eq_false, ← told.skipped, failed]
      decide
    have test : testOf c ∈ (cs.filter PlannedCheck.enabled).map testOf :=
      List.mem_map_of_mem (List.mem_filter.mpr ⟨planned, enabled⟩)
    obtain ⟨result, there, suit⟩ := exists_of_forall₂_left suits test
    obtain ⟨other, also, same, fails⟩ := suit.fails
    -- One name has one outcome, so that the test is about the outcome that failed.
    have named : other.check = o.check := same.trans told.name.symm
    have equal : other = o := by
      have first := single other also
      rw [named, single o here] at first
      exact (Except.ok.inj first).symm
    rw [equal] at fails
    exact Bool.noConfusion ((pass result there).symm.trans (fails.mpr failed))
  · intro passed result here
    obtain ⟨test, there, suit⟩ := exists_of_forall₂_right suits here
    obtain ⟨o, also, _, fails⟩ := suit.fails
    rw [← Bool.not_eq_false, fails]
    exact passed o also

end Suite

theorem runCheck_selected (h : Harness σ ω) (audience : Audience EventKind η Event β)
    (subject : Subject σ ω) :
    h.selectedNames.mapM (h.runCheck audience subject) =
      h.checksToRun.mapM (h.runOne audience subject) := by
  rw [← names_checksToRun, List.mapM_map]
  refine mapM_congr fun check here => funext fun s => ?_
  simp only [Function.comp, runCheck, h.registry.get?_name (mem_of_checksToRun here)]

theorem interlocked (h : Harness σ ω) (audience : Audience EventKind η Event β)
    (subject : Subject σ ω) : h.Interlocked audience subject where
  unbuilt splitSource := by
    simp only [plan, planOf_eq_gates]
    rfl
  names _ _ _ planned := plan_names planned
  once := h.nodup_selectedNames
  tests := h.conformanceTests_eq subject
  enabled unselected := conformanceTests_unselected unselected
  run := by
    rw [runCheck_selected, ← names_checksToRun]
    exact h.run_eq_mapM audience subject
  suite := h.describeConformance_eq audience subject

section Agreeing

variable {audience : Audience EventKind η Event β} {calm : Bus EventKind η × β → Prop}
  {h : Harness σ ω} {subject : Subject σ ω}

def outcomeNamed (h : Harness σ ω) (gate : Check σ ω → Except Thrown (Option String))
    (reported : Check σ ω → Except Halt (List Failure)) (name : String) :
    Except Halt CheckOutcome :=
  match h.registry.get? name with
  | none => .error (.threw (.violation (.unknownCheck name h.registry.names)))
  | some check => concluded check.name (gate check) (reported check)

variable {gate : Check σ ω → Except Thrown (Option String)}
  {reported : Check σ ω → Except Halt (List Failure)}

theorem runCheck_always
    (each : ∀ check ∈ h.registry.checks, Always (Stage.Among calm among)
      (h.runOne audience subject check) (concluded check.name (gate check) (reported check)))
    (name : String) :
    Always (Stage.Among calm among) (h.runCheck audience subject name)
      (h.outcomeNamed gate reported name) := by
  intro s now
  unfold runCheck outcomeNamed
  cases found : h.registry.get? name with
  | none => exact ⟨rfl, now⟩
  | some check => exact each check (List.mem_of_find?_eq_some found) s now

theorem outcomeNamed_selected :
    h.selectedNames.mapM (h.outcomeNamed gate reported) =
      h.checksToRun.mapM fun check => concluded check.name (gate check) (reported check) := by
  rw [← names_checksToRun, List.mapM_map]
  refine mapM_congr fun check here => ?_
  simp only [Function.comp, outcomeNamed, h.registry.get?_name (mem_of_checksToRun here)]

theorem outcomeNamed_check {name : String} {o : CheckOutcome}
    (told : h.outcomeNamed gate reported name = .ok o) : o.check = name := by
  unfold outcomeNamed at told
  cases found : h.registry.get? name with
  | none =>
    rw [found] at told
    cases told
  | some check =>
    rw [found] at told
    change concluded check.name (gate check) (reported check) = .ok o at told
    have named := List.find?_some found
    simp only [beq_iff_eq] at named
    cases gated : gate check with
    | error e =>
      rw [gated] at told
      cases told
    | ok reason =>
      rw [gated] at told
      rw [(foretells told).1.name, ← named]
      rfl

theorem planned_of_outcomes {checks : List (Check σ ω)} {outcomes : List CheckOutcome}
    (ran : (checks.mapM fun check => concluded check.name (gate check) (reported check)) =
      .ok outcomes) :
    ∃ rows, gated gate checks = .ok rows ∧
      List.Forall₂ Foretells (rows.map plannedOf) outcomes ∧
      ∀ o ∈ outcomes, o.status = .failed ↔ o.failures ≠ [] := by
  have each := mapM_ok_iff.mp ran
  clear ran
  induction each with
  | nil => exact ⟨[], rfl, .nil, fun _ none => (List.not_mem_nil none).elim⟩
  | @cons check o checks outcomes first _ ih =>
    obtain ⟨rows, known, foretold, sound⟩ := ih
    cases told : gate check with
    | error e =>
      rw [told] at first
      cases first
    | ok reason =>
      rw [told] at first
      obtain ⟨here, fails⟩ := foretells first
      refine ⟨(check, reason) :: rows, ?_, .cons here foretold,
        List.forall_mem_cons.mpr ⟨fails, sound⟩⟩
      unfold gated at known ⊢
      rw [List.mapM_cons, known, told]
      rfl

theorem agreement_of_always
    (gates : ∀ check, Always among (check.skipReason subject) (gate check))
    (each : ∀ check ∈ h.registry.checks, Always (Stage.Among calm among)
      (h.runOne audience subject check) (concluded check.name (gate check) (reported check)))
    (hears : audience.Hears h.rounds calm) :
    h.Agreement audience subject calm among ((gated gate h.checksToRun).map (List.map plannedOf))
      (h.outcomeNamed gate reported) := by
  have planned := plan_always gates (h := h)
  have tests := planned.map fun cs => (cs.filter PlannedCheck.enabled).map testOf
  rw [← conformanceTests_eq] at tests
  refine ⟨planned, tests, runCheck_always each, ?_, ?_⟩
  · rw [outcomeNamed_selected]
    exact run_always hears fun check here => each check (mem_of_checksToRun here)
  · intro outcomes ran
    have single : ∀ o ∈ outcomes, h.outcomeNamed gate reported o.check = .ok o := by
      intro o here
      obtain ⟨name, _, told⟩ := exists_of_forall₂_right (mapM_ok_iff.mp ran) here
      rw [outcomeNamed_check told, told]
    rw [outcomeNamed_selected] at ran
    obtain ⟨rows, known, foretold, sound⟩ := planned_of_outcomes ran
    obtain ⟨results, mapped, suits, passes⟩ :=
      suite_of_outcomes foretold single sound subject.name
    rw [known] at tests
    refine ⟨rows.map plannedOf, results, by rw [known]; rfl, foretold, fun o here => ?_, ?_, suits,
      passes⟩
    · rw [← single o here]
      exact runCheck_always each o.check
    · refine describe_always tests ?_
      rw [runTests_eq_mapM, ← mapped]
      exact Always.mapM fun test _ => (runCheck_always each test.check).map _

/-- Plan, run, single checks, tests and suite of a harness go by the same gates and single checks.
On a collection whose fresh sources behave the same they agree, as long as what is registered beside
the built-in checks finds the same whenever it is run. -/
theorem steady_agreement (h : Harness σ ω) (audience : Audience EventKind η Event β)
    (subject : Subject σ ω) :
    h.Interlocked audience subject ∧
      ∀ (among : ω → Prop) (calm : Bus EventKind η × β → Prop),
        subject.Steady h.protocol among →
        (∀ check ∈ h.registry.checks,
          check ∈ BuiltIn.all ∨ Repeats among (check.run (h.context subject))) →
        audience.Hears h.rounds calm →
        ∃ planned outcome, h.Agreement audience subject calm among planned outcome := by
  refine ⟨h.interlocked audience subject, fun among calm steady registered hears => ?_⟩
  have repeats : ∀ check, ∃ found, check ∈ h.registry.checks →
      Always among (check.run (h.context subject)) found := by
    intro check
    by_cases here : check ∈ h.registry.checks
    · have found : Repeats among (check.run (h.context subject)) := by
        rcases registered check here with builtIn | custom
        · exact BuiltIn.all_repeat steady check builtIn
        · exact custom
      obtain ⟨found, always⟩ := found
      exact ⟨found, fun _ => always⟩
    · exact ⟨.ok [], fun there => absurd there here⟩
  choose gate gates using fun check : Check σ ω => check.skipReason_repeats steady.size
  choose found always using repeats
  exact ⟨_, _, agreement_of_always gates
    (fun check here => runOne_always hears (gates check) (runGuarded_always (always check here)))
    hears⟩

/-- Checks by description beside a built-in one, selected with repetition and in another order. -/
def picky : Harness (Overlapping Value) Nat where
  protocol := Overlapping.protocol
  rounds := 5
  registry := ⟨[BuiltIn.elements,
    CheckPlan.build ⟨"growing", "", some [.supportsAdd], none, .report []⟩,
    CheckPlan.build ⟨"throwing", "", none, some [.zero], .throwing .null⟩], by decide⟩
  strategies := Strategy.all
  equivalence := NamedEquivalence.sameValueZero.holds
  naturalComparator := naturalOrder
  selected := some ["throwing", "growing", "elements", "throwing"]

theorem steady_agreement_picky :
    Overlapping.recounted.Steady picky.protocol (fun _ => True) ∧
      (∀ check ∈ picky.registry.checks, check ∈ BuiltIn.all ∨
        Repeats (fun _ => True) (check.run (picky.context Overlapping.recounted))) ∧
      throwingZero.Hears picky.rounds (fun t => t.1 = Bus.empty) ∧
      picky.selectedNames = ["elements", "growing", "throwing"] ∧
      ∃ planned outcome, picky.Agreement throwingZero Overlapping.recounted
        (fun t => t.1 = Bus.empty) (fun _ => True) planned outcome := by
  have steady : Overlapping.recounted.Steady picky.protocol fun _ => True :=
    Overlapping.recounted_steady
  have registered : ∀ check ∈ picky.registry.checks, check ∈ BuiltIn.all ∨
      Repeats (fun _ => True) (check.run (picky.context Overlapping.recounted)) :=
    List.forall_mem_cons.mpr ⟨.inl List.mem_cons_self, List.forall_mem_cons.mpr
      ⟨.inr (CheckPlan.build_repeats steady _), List.forall_mem_singleton.mpr
        (.inr (CheckPlan.build_repeats steady _))⟩⟩
  have hears := throwingZero_hears picky.rounds (by decide)
  exact ⟨steady, registered, hears, by decide,
    (steady_agreement picky throwingZero Overlapping.recounted).2 _ _ steady registered hears⟩

def single (check : Check (Overlapping Value) Nat) : Harness (Overlapping Value) Nat :=
  { picky with registry := ⟨[check], List.nodup_singleton check.name⟩, selected := none }

/-- Finds nothing when it is run for the first time. -/
def tiring : Check (Overlapping Value) Nat where
  name := "tiring"
  description := ""
  run := fun _ n => .ok (if n = 0 then [] else [alarm "tiring" .null "null"]) (n + 1)

def inhabited : Check (Overlapping Value) Nat where
  name := "inhabited"
  description := ""
  absentSizes := some [.zero]
  run := fun _ n => .ok [] n

/-- Says a larger size each time, and always hands out the same source. -/
def swelling : Subject (Overlapping Value) Nat :=
  { Overlapping.recounted with size := fun n => .ok (.int n) (n + 1) }

/-- Nobody takes what the handlers throw. -/
def unforgiving : Audience EventKind Nat Event (List Event) :=
  { throwingZero with onError := fun thrown _ s => .error thrown s }

/-- A registered check need not find the same again, a collection need not say the same size again
though its sources behave the same, and a listener that throws ends the run. -/
theorem agreement_lost :
    (Overlapping.recounted.Steady (single tiring).protocol (fun _ => True) ∧
      ∃ report t failures u,
        (single tiring).run throwingZero Overlapping.recounted ⟨Bus.empty, [], 0⟩ =
          .ok report t ∧ report.outcomes = [.passed "tiring"] ∧
        (single tiring).runCheck throwingZero Overlapping.recounted "tiring" t =
          .ok (.failed "tiring" failures) u) ∧
    ((∀ q, Aloof ((single inhabited).protocol.reply q)) ∧
      (∃ own, ∀ n, swelling.splitSource n = .ok own (n + 1)) ∧
      ∃ c report t, (single inhabited).plan swelling 0 = .ok [c] 1 ∧ c.enabled = false ∧
        (single inhabited).run throwingZero swelling ⟨Bus.empty, [], 1⟩ = .ok report t ∧
        report.outcomes = [.passed "inhabited"]) ∧
    ∃ c t, (single inhabited).plan Overlapping.recounted 0 = .ok [c] 0 ∧
      (single inhabited).run unforgiving Overlapping.recounted ⟨Bus.empty.onAny 0, [], 0⟩ =
        .error (.threw .undefined) t :=
  ⟨⟨Overlapping.recounted_steady, _, _, _, _, rfl, rfl, rfl⟩,
    ⟨Overlapping.reply_aloof, ⟨_, fun _ => rfl⟩, _, _, _, rfl, rfl, rfl, rfl⟩, _, _, rfl, rfl⟩

end Agreeing

end Harness
end SplitTraversal
