import SplitTraversal.Proofs.StrategyVerdicts

/-! Reports under several strategies. A check that returns under each of them reports under all
together just what it reports under each. Where it throws under one of them, it reports what was
thrown and nothing else: what it found under the others is lost. -/

namespace SplitTraversal

variable {σ ω : Type} {among : ω → Prop}

section Gathered

variable {found : Strategy → Except Halt (Option Failure)} {strategies : List Strategy}

theorem gathered_singleton_ok {strategy : Strategy} {own : List Failure}
    (told : gathered found [strategy] = .ok own) :
    ∃ part, found strategy = .ok part ∧ own = part.toList := by
  rw [gathered_singleton] at told
  cases first : found strategy with
  | error halt =>
    rw [first] at told
    cases told
  | ok part =>
    rw [first] at told
    cases told
    exact ⟨part, rfl, rfl⟩

theorem gathered_singleton_error {strategy : Strategy} {halt : Halt}
    (thrown : gathered found [strategy] = .error halt) : found strategy = .error halt := by
  rw [gathered_singleton] at thrown
  cases first : found strategy with
  | error halt' =>
    rw [first] at thrown
    cases thrown
    rfl
  | ok part =>
    rw [first] at thrown
    cases thrown

theorem exists_parts
    (returns : ∀ strategy ∈ strategies, ∃ own, gathered found [strategy] = .ok own) :
    ∃ parts, strategies.mapM found = .ok parts ∧
      List.Forall₂ (fun strategy part => gathered found [strategy] = .ok part.toList)
        strategies parts := by
  refine exists_mapM_ok fun strategy here => ?_
  obtain ⟨own, told⟩ := returns strategy here
  obtain ⟨part, first, rfl⟩ := gathered_singleton_ok told
  exact ⟨part, first, told⟩

theorem exists_gathered
    (returns : ∀ strategy ∈ strategies, ∃ own, gathered found [strategy] = .ok own) :
    ∃ failures, gathered found strategies = .ok failures ∧ ∀ failure, failure ∈ failures ↔
      ∃ strategy ∈ strategies, ∃ own, gathered found [strategy] = .ok own ∧ failure ∈ own := by
  obtain ⟨parts, mapped, all⟩ := exists_parts returns
  refine ⟨parts.flatMap Option.toList, by rw [gathered, mapped]; rfl, fun failure => ?_⟩
  rw [List.mem_flatMap]
  constructor
  · rintro ⟨part, there, inside⟩
    obtain ⟨strategy, here, told⟩ := exists_of_forall₂_right all there
    exact ⟨strategy, here, _, told, inside⟩
  · rintro ⟨strategy, here, own, told, inside⟩
    obtain ⟨part, there, told'⟩ := exists_of_forall₂_left all here
    cases told'.symm.trans told
    exact ⟨part, there, inside⟩

theorem gathered_error {before after : List Strategy} {strategy : Strategy} {halt : Halt}
    (returns : ∀ other ∈ before, ∃ own, gathered found [other] = .ok own)
    (thrown : gathered found [strategy] = .error halt) :
    gathered found (before ++ strategy :: after) = .error halt := by
  obtain ⟨parts, mapped, -⟩ := exists_parts returns
  rw [gathered, List.mapM_append, mapped, List.mapM_cons, gathered_singleton_error thrown]
  rfl

end Gathered

/-- Hands out sources that lack an element and throw when they are split. -/
def Scripted.unsplittable : Subject Scripted Nat where
  name := "Unsplittable"
  features := []
  splitSource := fun n => .ok (.create
    { elements := #[.int 1, .int 2]
      throwAt := []
      thrown := .string "boom"
      style := .throwing
      partEmptySplits := 0
      claim := .offBy (.integer 0)
      flags := .int 0
      exact := none
      comparator := .refuse } 0) (n + 1)
  sampleElements := fun n => .ok [.int 1, .int 2, .int 3] n
  orderedElements := fun n => .ok [.int 1, .int 2, .int 3] n
  size := fun n => .ok (.int 3) n

theorem Scripted.unsplittable_steady : unsplittable.Steady protocol fun _ => True :=
  .of_aloof reply_aloof ⟨_, fun _ _ => ⟨rfl, trivial⟩⟩ ⟨_, fun _ _ => ⟨rfl, trivial⟩⟩
    ⟨_, fun _ _ => ⟨rfl, trivial⟩⟩ ⟨_, fun _ _ => ⟨rfl, trivial⟩⟩

namespace Harness

/-- What a check reports under several strategies, by what it finds and reports under each alone. -/
structure Pools (strategies : List Strategy) (found alone : Strategy → Except Halt (List Failure))
    (whole : Except Halt (List Failure)) : Prop where
  kept (returns : ∀ strategy ∈ strategies, ∃ own, found strategy = .ok own) :
    ∃ failures, whole = .ok failures ∧ ∀ failure, failure ∈ failures ↔
      ∃ strategy ∈ strategies, ∃ own, alone strategy = .ok own ∧ failure ∈ own
  lost {before after : List Strategy} {strategy : Strategy} {halt : Halt}
    (parts : strategies = before ++ strategy :: after)
    (returns : ∀ other ∈ before, ∃ own, found other = .ok own)
    (thrown : found strategy = .error halt) :
    whole = alone strategy ∧
      ∀ failures, whole = .ok failures → ∀ failure ∈ failures, failure.code = .checkThrew

variable {p : Protocol σ ω Value} {rounds : Nat} {equivalence : Equivalence Value}
  {naturalComparator : Comparator Value} {subject : Subject σ ω} {check : Check σ ω}

theorem guarded_error {name : String} {halt : Halt} {failures : List Failure}
    (reported : guarded name (.error halt) = .ok failures) {failure : Failure}
    (member : failure ∈ failures) : failure.code = .checkThrew := by
  cases halt with
  | outOfRounds => cases reported
  | threw e =>
    simp only [guarded] at reported
    split at reported
    · cases reported
    · cases reported
      rw [List.mem_singleton.mp member]
      rfl

/-- On a collection whose fresh sources behave the same, a traversing check that returns under each
strategy reports under several of them what it reports under each, and nothing else. A check that
throws under one of them reports that, and none of what it found under the others. -/
theorem report_pools (p : Protocol σ ω Value) (rounds : Nat) (equivalence : Equivalence Value)
    (naturalComparator : Comparator Value) (steady : subject.Steady p among)
    (traverses : check ∈ (BuiltIn.traversing : List (Check σ ω))) {strategies : List Strategy}
    (nonempty : strategies ≠ []) (w w' : ω) (moment : among w) (moment' : among w') :
    let h := crossing p rounds equivalence naturalComparator
    Pools strategies
      (fun strategy => Outcome.answer (check.run ((h [strategy]).context subject) w'))
      (fun strategy => Outcome.answer ((h [strategy]).runGuarded subject check w'))
      (Outcome.answer ((h strategies).runGuarded subject check w)) := by
  intro h
  have gathers := BuiltIn.traversing_gather (c := (h strategies).context subject) steady check
    traverses w' moment'
  have built : check ∈ (BuiltIn.all : List (Check σ ω)) := by
    simp only [BuiltIn.traversing, List.mem_cons, List.not_mem_nil, or_false] at traverses
    rcases traverses with rfl | rfl | rfl <;> simp [BuiltIn.all]
  have report (strategies : List Strategy) {v : ω} (now : among v) :
      Outcome.answer ((h strategies).runGuarded subject check v) =
        guarded check.name (Outcome.answer (check.run ((h strategies).context subject) w')) := by
    have ran : Repeats among (check.run ((h strategies).context subject)) :=
      BuiltIn.all_repeat steady check built
    exact (runGuarded_always (ran.always_at moment') v now).1
  simp only [report _ moment, report _ moment']
  rcases gathers with ⟨result, same⟩ | ⟨found, told⟩
  · have same (strategies : List Strategy) :
        Outcome.answer (check.run ((h strategies).context subject) w') = result := same strategies
    simp only [same]
    constructor
    case kept =>
      intro returns
      obtain ⟨first, here⟩ := List.exists_mem_of_ne_nil strategies nonempty
      obtain ⟨own, rfl⟩ := returns first here
      refine ⟨own, rfl, fun failure => ⟨fun inside => ⟨first, here, own, rfl, inside⟩, ?_⟩⟩
      rintro ⟨_, _, _, reported, inside⟩
      cases reported
      exact inside
    case lost =>
      rintro before after strategy halt _ _ rfl
      exact ⟨rfl, fun failures reported failure => guarded_error reported⟩
  · have told (strategies : List Strategy) :
        Outcome.answer (check.run ((h strategies).context subject) w') =
          gathered found strategies := told strategies
    simp only [told]
    constructor
    case kept =>
      intro returns
      obtain ⟨failures, whole, members⟩ := exists_gathered returns
      refine ⟨failures, by rw [whole]; rfl, fun failure => (members failure).trans ?_⟩
      refine exists_congr fun strategy => and_congr_right fun here => ?_
      obtain ⟨own, alone⟩ := returns strategy here
      rw [alone]
      rfl
    case lost =>
      rintro before after strategy halt rfl returns thrown
      rw [gathered_error returns thrown, thrown]
      exact ⟨rfl, fun failures reported failure => guarded_error reported⟩

def counting (p : Protocol σ Nat Value) : List Strategy → Harness σ Nat :=
  crossing p 5 NamedEquivalence.sameValueZero.holds naturalOrder

theorem report_pools_recounted :
    ∃ failures,
      Outcome.answer ((counting Overlapping.protocol [.bulkDrain, .maximumSplit]).runGuarded
        Overlapping.recounted BuiltIn.elements 0) = .ok failures ∧
      BuiltIn.elementsFailure .maximumSplit [.int 1, .int 2, .int 3]
        [.int 1, .int 2, .int 2, .int 3] [] [.int 2] ∈ failures := by
  have traverses : BuiltIn.elements ∈
      (BuiltIn.traversing : List (Check (Overlapping Value) Nat)) := List.mem_cons_self ..
  have pools := report_pools Overlapping.protocol 5 NamedEquivalence.sameValueZero.holds
    naturalOrder Overlapping.recounted_steady traverses
    (List.cons_ne_nil .bulkDrain [.maximumSplit]) 0 7 trivial trivial
  obtain ⟨failures, whole, members⟩ := pools.kept (by
    rw [List.forall_mem_cons, List.forall_mem_singleton]
    exact ⟨⟨_, rfl⟩, ⟨_, rfl⟩⟩)
  refine ⟨failures, whole, (members _).mpr ?_⟩
  exact ⟨.maximumSplit, List.mem_cons_of_mem _ (List.mem_cons_self ..), _, rfl,
    List.mem_cons_self ..⟩

/-- Alone, the first strategy reports the missing element. Together with one that throws it reports
only what was thrown. -/
theorem report_lost_unsplittable :
    Scripted.unsplittable.Steady Scripted.protocol (fun _ => True) ∧
    ∃ failure own whole, failure.code = .elementsMismatch ∧
      Outcome.answer ((counting Scripted.protocol [.bulkDrain]).runGuarded Scripted.unsplittable
        BuiltIn.elements 0) = .ok own ∧ failure ∈ own ∧
      Outcome.answer ((counting Scripted.protocol [.bulkDrain, .maximumSplit]).runGuarded
        Scripted.unsplittable BuiltIn.elements 0) = .ok whole ∧ failure ∉ whole := by
  refine ⟨Scripted.unsplittable_steady, BuiltIn.elementsFailure .bulkDrain
    [.int 1, .int 2, .int 3] [.int 1, .int 2] [.int 3] [], [_],
    [alarm "elements" (.string "boom") "boom"], rfl, rfl, List.mem_cons_self .., rfl, ?_⟩
  intro inside
  have same := congrArg Failure.code (List.mem_singleton.mp inside)
  exact absurd same (by decide)

end Harness

end SplitTraversal
