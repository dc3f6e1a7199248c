import SplitTraversal.Proofs.FreshSources
import SplitTraversal.Trial.CheckPlan

/-! The built-in checks on steady collections. Each works on fresh sources and asks the collection
what it holds, so that it finds the same whenever it is run. -/

namespace SplitTraversal

variable {σ ω ρ τ : Type} {p : Protocol σ ω Value} {subject : Subject σ ω} {among : ω → Prop}

theorem lift_bind {S : Type} (act : Action S ρ) (next : ρ → Action S τ) :
    (act >>= next).lift = act.lift >>= fun a => (next a).lift := by
  funext s
  simp only [Action.lift, Bind.bind, EStateM.bind]
  cases act s <;> rfl

namespace BuiltIn

section Sizes

variable (p) (estimate count : Value)

theorem examineSplit_eq :
    (examineSplit p estimate).lift =
      p.trySplit.lift >>= fun piece => piece.elim
        (p.estimateSize.lift >>= fun rest =>
          (Action.ofExcept (splitVerdict estimate rest none)).lift)
        fun piece => p.estimateSize.lift >>= fun rest =>
          aside piece p.estimateSize.lift >>= fun part =>
            (Action.ofExcept (splitVerdict estimate rest (some part))).lift := by
  funext s
  cases cut : p.trySplit s with
  | error e s => simp only [Action.lift, examineSplit, cut, Bind.bind, EStateM.bind]
  | ok piece s =>
    rw [bind_ok (lift_ok cut)]
    cases piece with
    | none =>
      rw [Option.elim_none]
      cases after : p.estimateSize s with
      | error e s =>
        simp only [Action.lift, examineSplit, cut, after, Bind.bind, EStateM.bind]
      | ok rest s =>
        rw [bind_ok (lift_ok after)]
        simp only [Action.lift, examineSplit, cut, after]
    | some piece =>
      rw [Option.elim_some]
      cases after : p.estimateSize s with
      | error e s =>
        simp only [Action.lift, examineSplit, cut, after, Bind.bind, EStateM.bind]
      | ok rest s =>
        rw [bind_ok (lift_ok after)]
        cases asked : p.estimateSize ⟨piece, s.shared⟩ with
        | error e t =>
          rw [bind_error (aside_error (lift_error asked))]
          simp only [Action.lift, examineSplit, cut, after, asked]
        | ok part t =>
          rw [bind_ok (aside_ok (lift_ok asked))]
          simp only [Action.lift, examineSplit, cut, after, asked]

theorem examineParts_eq :
    examineParts p estimate =
      p.hasCharacteristics (.ofFlag .subsized) >>= fun subsized =>
        if subsized then examineSplit p estimate else pure [] := by
  funext s
  simp only [examineParts, Bind.bind, EStateM.bind]
  cases p.hasCharacteristics (.ofFlag .subsized) s with
  | error e s => rfl
  | ok subsized s => cases subsized <;> rfl

theorem examineExact_eq :
    examineExact p count estimate =
      p.exactSizeIfKnown >>= fun exact =>
        Action.ofExcept (sizeVerdict .exactSizeMismatch "exactSizeIfKnown()" count exact) >>=
          fun found => examineParts p estimate >>= fun more => pure (found ++ more) := by
  funext s
  simp only [examineExact, Bind.bind, EStateM.bind, Action.ofExcept]
  cases p.exactSizeIfKnown s with
  | error e s => rfl
  | ok exact s =>
    simp only
    cases sizeVerdict .exactSizeMismatch "exactSizeIfKnown()" count exact with
    | error e => rfl
    | ok found =>
      simp only
      cases examineParts p estimate s <;> rfl

theorem examineSizes_eq :
    examineSizes p count =
      p.estimateSize >>= fun estimate =>
        Action.ofExcept (sizeVerdict .sizeMismatch "estimateSize()" count estimate) >>=
          fun found => examineExact p count estimate >>= fun more => pure (found ++ more) := by
  funext s
  simp only [examineSizes, Bind.bind, EStateM.bind, Action.ofExcept]
  cases p.estimateSize s with
  | error e s => rfl
  | ok estimate s =>
    simp only
    cases sizeVerdict .sizeMismatch "estimateSize()" count estimate with
    | error e => rfl
    | ok found =>
      simp only
      cases examineExact p count estimate s <;> rfl

theorem blind_examineSizes : Blind p subject among (examineSizes p count).lift := by
  have split (estimate : Value) : Blind p subject among (examineSplit p estimate).lift := by
    rw [examineSplit_eq]
    refine .split (.bind .estimateSize fun rest => .ofExcept _) ?_
    exact .bind .estimateSize fun rest => .aside .estimateSize fun part => .ofExcept _
  have parts (estimate : Value) : Blind p subject among (examineParts p estimate).lift := by
    rw [examineParts_eq, lift_bind]
    refine .bind (.hasCharacteristics _) fun subsized => ?_
    cases subsized with
    | true => exact split estimate
    | false => exact .pure []
  have exact' (estimate : Value) :
      Blind p subject among (examineExact p count estimate).lift := by
    rw [examineExact_eq, lift_bind]
    refine .bind .exactSizeIfKnown fun found => ?_
    rw [lift_bind]
    refine .bind (.ofExcept _) fun found => ?_
    rw [lift_bind]
    exact (parts estimate).map _
  rw [examineSizes_eq, lift_bind]
  refine .bind .estimateSize fun estimate => ?_
  rw [lift_bind]
  refine .bind (.ofExcept _) fun found => ?_
  rw [lift_bind]
  exact (exact' estimate).map _

end Sizes

section Fresh

variable (c : CheckContext σ ω) (strategy : Strategy)

theorem askFresh_lift (subject : Subject σ ω) (ask : Action (Site σ ω) ρ) :
    (askFresh subject ask).lift = subject.onFresh ask.lift := by
  funext w
  simp only [Action.lift, askFresh, Subject.onFresh]
  cases subject.splitSource w with
  | error e w => rfl
  | ok own w =>
    simp only
    cases ask ⟨own, w⟩ <;> rfl

theorem traverseFresh_onFresh :
    traverseFresh c strategy = c.subject.onFresh (c.protocol.traverse c.rounds strategy) := by
  funext w
  simp only [traverseFresh, Subject.onFresh]
  cases c.subject.splitSource w with
  | error e w => rfl
  | ok own w =>
    simp only
    cases c.protocol.traverse c.rounds strategy ⟨own, w⟩ <;> rfl

theorem judge_shared (check : String) (t : Traversal Value)
    (verdict : List Value → Except Thrown (Option Failure)) (s : Site σ ω) :
    judge check strategy t verdict s.shared =
      Outcome.mapState Site.shared (judge check strategy t verdict s) := by
  simp only [judge, Action.lift, Action.ofExcept]
  cases t with
  | stalled stall =>
    simp only
    cases (stall.failure check strategy).map some <;> rfl
  | complete actual =>
    simp only
    cases verdict actual <;> rfl

theorem examineSorted_onFresh :
    examineSorted c strategy =
      c.subject.onFresh (c.protocol.comparator.lift >>= fun own =>
        c.protocol.traverse c.rounds strategy >>= fun t =>
          judge "comparator" strategy t
            (sortVerdict (own.getD c.naturalComparator) strategy)) := by
  funext w
  simp only [examineSorted, Subject.onFresh]
  cases c.subject.splitSource w with
  | error e w => rfl
  | ok own w =>
    simp only
    cases asked : c.protocol.comparator ⟨own, w⟩ with
    | error e s => rw [bind_error (lift_error asked)]; rfl
    | ok order s =>
      rw [bind_ok (lift_ok asked)]
      simp only
      cases traversed : c.protocol.traverse c.rounds strategy s with
      | error h s => rw [bind_error traversed]; rfl
      | ok t s =>
        rw [bind_ok traversed]
        exact judge_shared ..

theorem estimateSize_onFresh :
    estimateSize.run c =
      c.subject.onFresh ((c.protocol.hasCharacteristics (.ofFlag .sized)).lift >>= fun sized =>
        if sized then
          (Action.lift (Site.world.run c.subject.size)) >>= fun count =>
            (examineSizes c.protocol count).lift
        else pure []) := by
  funext w
  simp only [estimateSize, Subject.onFresh]
  cases c.subject.splitSource w with
  | error e w => rfl
  | ok own w =>
    simp only
    cases asked : c.protocol.hasCharacteristics (.ofFlag .sized) ⟨own, w⟩ with
    | error e s => rw [bind_error (lift_error asked)]; rfl
    | ok sized s =>
      rw [bind_ok (lift_ok asked)]
      cases sized with
      | false => rfl
      | true =>
        simp only [if_true, Action.lift, Focus.run, Site.world, Bind.bind, EStateM.bind]
        cases c.subject.size s.shared with
        | error e w => rfl
        | ok count w =>
          simp only
          cases examineSizes c.protocol count ⟨s.own, w⟩ <;> rfl

end Fresh

theorem underEach_eq (examine : Strategy → Activity ω (Option Failure))
    (strategies : List Strategy) :
    underEach examine strategies =
      (fun found => found.flatMap Option.toList) <$> strategies.mapM examine := by
  induction strategies with
  | nil => rfl
  | cons strategy rest ih =>
    funext w
    rw [List.mapM_cons]
    simp only [underEach, ih, Functor.map, Bind.bind, Pure.pure, EStateM.map, EStateM.bind,
      EStateM.pure]
    cases examine strategy w with
    | error h w => rfl
    | ok found w =>
      simp only
      cases rest.mapM examine w <;> rfl

theorem repeats_underEach {examine : Strategy → Activity ω (Option Failure)}
    (each : ∀ strategy, Repeats among (examine strategy)) (strategies : List Strategy) :
    Repeats among (underEach examine strategies) := by
  rw [underEach_eq]
  exact ⟨_, (Always.mapM fun strategy _ => (each strategy).choose_spec).map _⟩

section Judging

variable (c : CheckContext σ ω)

def judging (check : String) (verdict : Strategy → List Value → Except Thrown (Option Failure))
    (strategy : Strategy) : Activity ω (Option Failure) :=
  traverseFresh c strategy >>= fun t => judge check strategy t (verdict strategy)

theorem elements_eq :
    elements.run c = c.subject.sampleElements.lift >>= fun expected =>
      underEach (judging c "elements" fun strategy =>
        elementsVerdict c.equivalence strategy expected) c.strategies := by
  funext w
  cases asked : c.subject.sampleElements w with
  | error e w => simp only [elements, asked, bind_error (lift_error asked)]
  | ok expected w =>
    simp only [elements, asked, bind_ok (lift_ok asked)]
    congr 1
    funext strategy v
    simp only [judging, Bind.bind, EStateM.bind]
    cases traverseFresh c strategy v <;> rfl

theorem knownOrder_eq :
    knownOrder.run c =
      (askFresh c.subject (c.protocol.hasCharacteristics (.ofFlag .ordered))).lift >>=
        fun ordered => if ordered then
          c.subject.orderedElements.lift >>= fun expected =>
            underEach (judging c "knownOrder" fun strategy =>
              orderVerdict c.equivalence strategy expected) c.strategies
          else pure [] := by
  funext w
  cases told : askFresh c.subject (c.protocol.hasCharacteristics (.ofFlag .ordered)) w with
  | error e w => simp only [knownOrder, told, bind_error (lift_error told)]
  | ok ordered w =>
    cases ordered with
    | false => simp only [knownOrder, told, bind_ok (lift_ok told)]; rfl
    | true =>
      cases asked : c.subject.orderedElements w with
      | error e w =>
        simp only [knownOrder, told, asked, bind_ok (lift_ok told), if_true,
          bind_error (lift_error asked)]
      | ok expected w =>
        simp only [knownOrder, told, asked, bind_ok (lift_ok told), if_true,
          bind_ok (lift_ok asked)]
        congr 1
        funext strategy v
        simp only [judging, Bind.bind, EStateM.bind]
        cases traverseFresh c strategy v <;> rfl

theorem comparator_eq :
    comparator.run c =
      (askFresh c.subject (c.protocol.hasCharacteristics (.ofFlag .sorted))).lift >>=
        fun sorted => if sorted then underEach (examineSorted c) c.strategies
          else examineUnsorted c := by
  funext w
  simp only [comparator, Action.lift, Bind.bind, EStateM.bind]
  cases askFresh c.subject (c.protocol.hasCharacteristics (.ofFlag .sorted)) w with
  | error e w => rfl
  | ok sorted w => cases sorted <;> rfl

end Judging

section Steady

variable {c : CheckContext σ ω} (steady : c.subject.Steady c.protocol among)

include steady

theorem repeats_askFresh {ask : Action (Site σ ω) ρ}
    (blind : Blind c.protocol c.subject among ask.lift) :
    Repeats among (askFresh c.subject ask).lift := by
  rw [askFresh_lift]
  exact blind.repeats steady

theorem repeats_judging (check : String)
    (verdict : Strategy → List Value → Except Thrown (Option Failure)) (strategy : Strategy) :
    Repeats among (judging c check verdict strategy) := by
  refine .bind ?_ fun t => (Repeats.ofExcept _).lift
  rw [traverseFresh_onFresh]
  exact (Blind.traverse c.rounds strategy).repeats steady

theorem repeats_examineSorted (strategy : Strategy) :
    Repeats among (examineSorted c strategy) := by
  rw [examineSorted_onFresh]
  refine Blind.repeats (.bind .comparator fun order => ?_) steady
  exact .bind (.traverse c.rounds strategy) fun t => .ofExcept _

theorem repeats_examineUnsorted : Repeats among (examineUnsorted c) := by
  -- No sequence of activities: what the source throws is caught and looked at.
  obtain ⟨result, always⟩ := repeats_askFresh steady .comparator
  refine .of_pairs fun w w' now now' => ?_
  obtain ⟨answered, later⟩ := always w now
  obtain ⟨answered', _⟩ := always w' now'
  rw [← answered'] at answered
  simp only [Action.lift] at answered later
  simp only [examineUnsorted]
  cases asked : askFresh c.subject c.protocol.comparator w with
  | ok order v =>
    rw [asked] at answered later
    cases asked' : askFresh c.subject c.protocol.comparator w' with
    | ok order' v' => exact ⟨rfl, later⟩
    | error e v' =>
      rw [asked'] at answered
      cases answered
  | error e v =>
    rw [asked] at answered later
    cases asked' : askFresh c.subject c.protocol.comparator w' with
    | ok order' v' =>
      rw [asked'] at answered
      cases answered
    | error e' v' =>
      rw [asked'] at answered
      cases answered
      simp only
      cases isIllegalState e <;> exact ⟨rfl, later⟩

theorem repeats_undeclared (name : String) (flag : Characteristic) (code : FailureCode)
    (message : String → String) : Repeats among (undeclared name flag code message c) := by
  have asking : undeclared name flag code message c =
      (askFresh c.subject c.protocol.characteristics).lift >>= fun declared =>
        (Action.ofExcept (Characteristics.ofValue declared)).lift >>= fun set =>
          pure (if set.contains flag then
            [{ check := name
               code
               expected := some (.string (flag.name ++ " absent"))
               actual := some (.string set.format)
               message := message c.subject.name }] else []) := by
    funext w
    cases asked : askFresh c.subject c.protocol.characteristics w with
    | error e w => simp only [undeclared, asked, bind_error (lift_error asked)]
    | ok declared w =>
      simp only [undeclared, asked, bind_ok (lift_ok asked)]
      cases Characteristics.ofValue declared with
      | error e => rfl
      | ok set =>
        change (if set.contains flag then EStateM.Result.ok [_] w else .ok [] w) =
          .ok (if set.contains flag then [_] else []) w
        cases set.contains flag <;> rfl
  rw [asking]
  refine (repeats_askFresh steady .characteristics).bind fun declared => ?_
  exact (Repeats.ofExcept _).lift.bind fun set => .pure _

theorem all_repeat : ∀ check ∈ (all : List (Check σ ω)), Repeats among (check.run c) := by
  intro check here
  simp only [all, List.mem_cons, List.not_mem_nil, or_false] at here
  rcases here with rfl | rfl | rfl | rfl | rfl | rfl | rfl
  · rw [elements_eq]
    exact steady.sampleElements.lift.bind fun expected =>
      repeats_underEach (repeats_judging steady _ _) _
  · rw [knownOrder_eq]
    refine (repeats_askFresh steady (.hasCharacteristics _)).bind fun ordered => ?_
    cases ordered with
    | false => exact .pure []
    | true =>
      exact steady.orderedElements.lift.bind fun expected =>
        repeats_underEach (repeats_judging steady _ _) _
  · rw [comparator_eq]
    refine (repeats_askFresh steady (.hasCharacteristics _)).bind fun sorted => ?_
    cases sorted with
    | false => exact repeats_examineUnsorted steady
    | true => exact repeats_underEach (repeats_examineSorted steady) _
  · rw [estimateSize_onFresh]
    refine Blind.repeats (.bind (.hasCharacteristics _) fun sized => ?_) steady
    cases sized with
    | false => exact .pure []
    | true => exact .bind .size fun count => blind_examineSizes _ count
  · simp only [nullable]
    exact repeats_undeclared steady ..
  · simp only [notImmutableWhenAddSupported, notImmutable]
    exact repeats_undeclared steady ..
  · simp only [notImmutableWhenRemoveSupported, notImmutable]
    exact repeats_undeclared steady ..

end Steady

end BuiltIn

def CheckPlan.contextVerdict (check : String) (c : CheckContext σ ω) (a b size : Value) :
    Except Thrown (List Failure) :=
  match c.equivalence a b with
  | .error e => .error e
  | .ok equal =>
    match c.naturalComparator a b with
    | .error e => .error e
    | .ok order =>
      match order.text with
      | .error e => .error e
      | .ok sign =>
        let same := if equal then "true" else "false"
        .ok [{ check
               code := .sizeMismatch
               expected := some (.list (c.strategies.map fun s => .string s.name))
               actual := some size
               message := s!"{c.subject.name} {same} {sign}" }]

theorem CheckPlan.build_repeats {c : CheckContext σ ω} (steady : c.subject.Steady c.protocol among)
    (plan : CheckPlan) : Repeats among (plan.build.run c) := by
  simp only [build]
  cases plan.action with
  | report failures => exact .pure failures
  | throwing thrown => exact .throw (Halt.threw thrown)
  | builtIn name =>
    simp only [run]
    cases found : (BuiltIn.named? name : Option (Check σ ω)) with
    | none => exact .throw (Halt.threw (.misuse (.noFieldOf "undefined" "run")))
    | some check => exact BuiltIn.all_repeat steady check (List.mem_of_find?_eq_some found)
  | context a b =>
    have asking : contextFailure plan.name c a b =
        c.subject.size >>= fun size => Action.ofExcept (contextVerdict plan.name c a b size) := by
      funext w
      cases asked : c.subject.size w with
      | error e w => simp only [contextFailure, asked, bind_error asked]
      | ok size w =>
        simp only [contextFailure, asked, bind_ok asked, contextVerdict, Action.ofExcept]
        cases c.equivalence a b with
        | error e => rfl
        | ok equal =>
          simp only
          cases c.naturalComparator a b with
          | error e => rfl
          | ok order =>
            simp only
            cases order.text <;> rfl
    refine Repeats.lift ?_
    rw [asking]
    exact steady.size.bind fun size => .ofExcept _

end SplitTraversal
