import Mathlib.Data.List.Forall2
import SplitTraversal.Proofs.HarnessRun
import SplitTraversal.Proofs.SteadyChecks

/-! Runs of a harness on a steady collection. Gate and findings of each check are the same at every
moment, and so are its outcome and the report of a whole run, whatever is announced to whom on the
way. -/

namespace SplitTraversal

section Lists

variable {α β ε : Type}

theorem mapM_congr {m : Type → Type} [Monad m] [LawfulMonad m] {f g : α → m β} {xs : List α}
    (same : ∀ x ∈ xs, f x = g x) : xs.mapM f = xs.mapM g := by
  induction xs with
  | nil => rfl
  | cons x xs ih =>
    rw [List.forall_mem_cons] at same
    rw [List.mapM_cons, List.mapM_cons, same.1, ih same.2]

theorem mapM_ok_iff {f : α → Except ε β} {xs : List α} {ys : List β} :
    xs.mapM f = .ok ys ↔ List.Forall₂ (fun x y => f x = .ok y) xs ys := by
  induction xs generalizing ys with
  | nil =>
    rw [List.mapM_nil, List.forall₂_nil_left_iff]
    exact ⟨fun same => (Except.ok.inj same).symm, fun none => congrArg Except.ok none.symm⟩
  | cons x xs ih =>
    rw [List.mapM_cons, List.forall₂_cons_left_iff]
    constructor
    · intro mapped
      cases first : f x with
      | error e =>
        rw [first] at mapped
        cases mapped
      | ok y =>
        cases rest : xs.mapM f with
        | error e =>
          rw [first, rest] at mapped
          cases mapped
        | ok ys =>
          rw [first, rest] at mapped
          cases mapped
          exact ⟨y, ys, rfl, ih.mp rest, rfl⟩
    · rintro ⟨y, rest, first, mapped, rfl⟩
      rw [first, ih.mpr mapped]
      rfl

theorem exists_mapM_ok {f : α → Except ε β} {holds : α → β → Prop} {xs : List α}
    (each : ∀ x ∈ xs, ∃ y, f x = .ok y ∧ holds x y) :
    ∃ ys, xs.mapM f = .ok ys ∧ List.Forall₂ holds xs ys := by
  induction xs with
  | nil => exact ⟨[], rfl, .nil⟩
  | cons x xs ih =>
    rw [List.forall_mem_cons] at each
    obtain ⟨⟨y, first, here⟩, more⟩ := each
    obtain ⟨ys, rest, all⟩ := ih more
    refine ⟨y :: ys, ?_, .cons here all⟩
    rw [List.mapM_cons, first, rest]
    rfl

theorem exists_of_forall₂_left {holds : α → β → Prop} {xs : List α} {ys : List β}
    (all : List.Forall₂ holds xs ys) {x : α} (here : x ∈ xs) : ∃ y ∈ ys, holds x y := by
  induction all with
  | nil => cases here
  | cons first _ ih =>
    rcases List.mem_cons.mp here with rfl | later
    · exact ⟨_, List.mem_cons_self, first⟩
    · obtain ⟨y, there, held⟩ := ih later
      exact ⟨y, List.mem_cons_of_mem _ there, held⟩

theorem exists_of_forall₂_right {holds : α → β → Prop} {xs : List α} {ys : List β}
    (all : List.Forall₂ holds xs ys) {y : β} (here : y ∈ ys) : ∃ x ∈ xs, holds x y :=
  exists_of_forall₂_left (List.Forall₂.flip all) here

end Lists

variable {σ ω η β : Type} {among : ω → Prop}

/-- Whatever is announced to the audience while it is calm comes to an end, and leaves it calm. -/
def Audience.Hears {κ η E β : Type} [DecidableEq κ] (audience : Audience κ η E β) (rounds : Nat)
    (calm : Bus κ η × β → Prop) : Prop :=
  ∀ event t, calm t → ∃ t', audience.emit rounds event t = .ok () t' ∧ calm t'

/-- The audience is calm, and what collections share is at one of these moments. -/
structure Stage.Among (calm : Bus EventKind η × β → Prop) (among : ω → Prop) (s : Stage η β ω) :
    Prop where
  calm : calm (s.bus, s.memory)
  world : among s.world

theorem Check.skipReason_repeats {subject : Subject σ ω} (sized : Repeats among subject.size)
    (check : Check σ ω) : Repeats among (check.skipReason subject) := by
  cases required : (check.requires.getD []).find? fun f => !subject.features.contains f with
  | some f =>
    have asking : check.skipReason subject = pure (some s!"requires feature {f.name}") := by
      funext w
      simp only [skipReason, required]
      rfl
    rw [asking]
    exact .pure _
  | none =>
    have asking : check.skipReason subject = subject.size >>= fun size =>
        pure (if (check.absentSizes.getD []).contains (SizeClass.ofValue size) then
          some s!"not applicable to collection size {(SizeClass.ofValue size).name}"
          else none) := by
      funext w
      simp only [skipReason, required]
      cases asked : subject.size w with
      | error e w => rw [bind_error asked]
      | ok size w =>
        rw [bind_ok asked]
        change (if _ then EStateM.Result.ok _ w else .ok _ w) = .ok (if _ then _ else _) w
        cases (check.absentSizes.getD []).contains (SizeClass.ofValue size) <;> rfl
    rw [asking]
    exact sized.bind fun size => .pure _

namespace Harness

def guarded (check : String) : Except Halt (List Failure) → Except Halt (List Failure)
  | .ok failures => .ok failures
  | .error .outOfRounds => .error .outOfRounds
  | .error (.threw e) =>
    match e.describe with
    | .error e => .error (.threw e)
    | .ok description => .ok [alarm check e description]

def concluded (check : String) (gate : Except Thrown (Option String))
    (reported : Except Halt (List Failure)) : Except Halt CheckOutcome :=
  match gate with
  | .error e => .error (.threw e)
  | .ok (some reason) => .ok (.skipped check reason)
  | .ok none => reported.map (outcomeOf check)

variable {h : Harness σ ω} {subject : Subject σ ω} {check : Check σ ω}

theorem runGuarded_always {found : Except Halt (List Failure)}
    (ran : Always among (check.run (h.context subject)) found) :
    Always among (h.runGuarded subject check) (guarded check.name found) := by
  intro w now
  cases found with
  | ok failures =>
    obtain ⟨v, later, run⟩ := ran.ok_eq now
    simp only [runGuarded, run]
    exact ⟨rfl, later⟩
  | error halt =>
    obtain ⟨v, later, run⟩ := ran.error_eq now
    cases halt with
    | outOfRounds =>
      simp only [runGuarded, run]
      exact ⟨rfl, later⟩
    | threw e =>
      simp only [runGuarded, run, guarded]
      cases e.describe with
      | error e => exact ⟨rfl, later⟩
      | ok description => exact ⟨rfl, later⟩

section Running

variable {audience : Audience EventKind η Event β} {calm : Bus EventKind η × β → Prop}

theorem announce_ok (hears : audience.Hears h.rounds calm) {s : Stage η β ω}
    (now : s.Among calm among) (event : Event) :
    ∃ t, h.announce audience event s = .ok () t ∧ t.Among calm among := by
  obtain ⟨t, emitted, calmer⟩ := hears event _ now.calm
  refine ⟨{ s with bus := t.1, memory := t.2 }, ?_, calmer, now.world⟩
  simp only [announce, Focus.run, Stage.audience, emitted]

theorem runOne_always (hears : audience.Hears h.rounds calm)
    {gate : Except Thrown (Option String)} (gated : Always among (check.skipReason subject) gate)
    {reported : Except Halt (List Failure)}
    (ran : Always among (h.runGuarded subject check) reported) :
    Always (Stage.Among calm among) (h.runOne audience subject check)
      (concluded check.name gate reported) := by
  intro s now
  cases gate with
  | error e =>
    obtain ⟨w, later, asked⟩ := gated.error_eq now.world
    simp only [runOne, Focus.run, Stage.collections, asked]
    exact ⟨rfl, now.calm, later⟩
  | ok reason =>
    obtain ⟨w, later, asked⟩ := gated.ok_eq now.world
    have gone : Stage.Among calm among { s with world := w } := ⟨now.calm, later⟩
    cases reason with
    | some reason =>
      obtain ⟨t, told, next⟩ :=
        announce_ok hears gone (.checkSkipped subject.name check.name reason)
      simp only [runOne, Focus.run, Stage.collections, asked, told]
      exact ⟨rfl, next⟩
    | none =>
      obtain ⟨t, told, next⟩ := announce_ok hears gone (.checkStarted subject.name check.name)
      cases reported with
      | error halt =>
        obtain ⟨v, last, run⟩ := ran.error_eq next.world
        simp only [runOne, Focus.run, Stage.collections, asked, told, run]
        exact ⟨rfl, next.calm, last⟩
      | ok failures =>
        obtain ⟨v, last, run⟩ := ran.ok_eq next.world
        have found : Stage.Among calm among { t with world := v } := ⟨next.calm, last⟩
        obtain ⟨u, ended, end'⟩ := announce_ok hears found
          (ending subject.name check.name failures)
        simp only [runOne, Focus.run, Stage.collections, asked, told, run, ended]
        exact ⟨rfl, end'⟩

theorem runEach_eq_mapM (h : Harness σ ω) (audience : Audience EventKind η Event β)
    (subject : Subject σ ω) (checks : List (Check σ ω)) :
    h.runEach audience subject checks = checks.mapM (h.runOne audience subject) := by
  induction checks with
  | nil => rfl
  | cons check rest ih =>
    funext s
    rw [List.mapM_cons, ← ih]
    simp only [runEach, Bind.bind, EStateM.bind]
    cases h.runOne audience subject check s with
    | error e s => rfl
    | ok outcome s =>
      simp only
      cases h.runEach audience subject rest s <;> rfl

theorem run_eq_mapM (h : Harness σ ω) (audience : Audience EventKind η Event β)
    (subject : Subject σ ω) :
    h.run audience subject =
      h.announce audience (.runStarted subject.name (h.checksToRun.map Check.name)
          (h.strategies.map Strategy.name)) >>= fun _ =>
        h.checksToRun.mapM (h.runOne audience subject) >>= fun outcomes =>
          h.announce audience (completion (.build subject.name outcomes)) >>= fun _ =>
            pure (.build subject.name outcomes) := by
  funext s
  rw [← runEach_eq_mapM]
  simp only [Harness.run, Bind.bind, EStateM.bind]
  cases h.announce audience _ s with
  | error e s => rfl
  | ok told s =>
    simp only
    cases h.runEach audience subject h.checksToRun s with
    | error e s => rfl
    | ok outcomes s =>
      simp only
      cases h.announce audience _ s <;> rfl

theorem run_always (hears : audience.Hears h.rounds calm)
    {outcome : Check σ ω → Except Halt CheckOutcome}
    (each : ∀ check ∈ h.checksToRun,
      Always (Stage.Among calm among) (h.runOne audience subject check) (outcome check)) :
    Always (Stage.Among calm among) (h.run audience subject)
      ((h.checksToRun.mapM outcome).map (Report.build subject.name)) := by
  have told (event : Event) :
      Always (Stage.Among calm among) (h.announce audience event) (.ok ()) := by
    intro s now
    obtain ⟨t, announced, next⟩ := announce_ok hears now event
    rw [announced]
    exact ⟨rfl, next⟩
  have ran := (told (.runStarted subject.name (h.checksToRun.map Check.name)
    (h.strategies.map Strategy.name))).bind fun _ _ => (Always.mapM each).bind fun outcomes _ =>
      (told (completion (.build subject.name outcomes))).bind fun _ _ =>
        Always.pure (Report.build subject.name outcomes)
  rw [← run_eq_mapM] at ran
  cases mapped : h.checksToRun.mapM outcome with
  | error halt =>
    rw [mapped] at ran
    exact ran
  | ok outcomes =>
    rw [mapped] at ran
    exact ran

theorem Attended.hears [DecidableEq η] {bus : Bus EventKind η}
    (attended : h.Attended audience bus) :
    audience.Hears h.rounds (fun t => t.1 = bus) := by
  rintro event ⟨_, memory⟩ rfl
  exact ⟨_, attended.considerate.emit_eq attended.built h.rounds attended.few event memory, rfl⟩

theorem throwingZero_hears (rounds : Nat) (some : 0 < rounds) :
    throwingZero.Hears rounds (fun t => t.1 = Bus.empty) := by
  have attended : Attended { mixedChecks with rounds } throwingZero Bus.empty :=
    ⟨throwingZero_considerate, .empty, some, some⟩
  exact attended.hears

end Running

end Harness
end SplitTraversal
