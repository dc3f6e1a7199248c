import SplitTraversal.Proofs.FreshSources
import SplitTraversal.Source.Defective
import SplitTraversal.Source.Scripted

/-! Sources that neither look at what is shared nor change it. A collection that always hands out
the same such source is steady, whatever handing it out does to what is shared. -/

namespace SplitTraversal

variable {σ ω ρ τ : Type}

/-- What is answered, and what becomes of the source, goes by the source alone. -/
def Aloof (act : Action (Site σ ω) ρ) : Prop :=
  ∀ own, ∃ answer own', ∀ w, Outcome.answer (act ⟨own, w⟩) = answer ∧
    Outcome.state (act ⟨own, w⟩) = ⟨own', w⟩

theorem Aloof.map {act : Action (Site σ ω) ρ} (aloof : Aloof act) (f : ρ → τ) :
    Aloof (f <$> act) := by
  intro own
  obtain ⟨answer, own', same⟩ := aloof own
  refine ⟨answer.map f, own', fun w => ?_⟩
  obtain ⟨answered, left⟩ := same w
  simp only [Functor.map, EStateM.map]
  cases ran : act ⟨own, w⟩ with
  | ok a s =>
    rw [ran] at answered left
    cases answered
    exact ⟨rfl, left⟩
  | error e s =>
    rw [ran] at answered left
    cases answered
    exact ⟨rfl, left⟩

namespace Lineage

variable {p : Protocol σ ω Value} {subject : Subject σ ω} {among : ω → Prop}

theorem answer_aloof (aloof : ∀ q, Aloof (p.reply q)) (sized : Repeats among subject.size)
    (members : List σ) {v w : ω} (now : among v) (now' : among w) (query : Query) :
    ∃ found members' v' w', among v' ∧ among w' ∧
      answer p subject ⟨members, v⟩ query = (found, ⟨members', v'⟩) ∧
      answer p subject ⟨members, w⟩ query = (found, ⟨members', w'⟩) := by
  cases query with
  | size =>
    obtain ⟨result, always⟩ := sized
    cases result with
    | ok size =>
      obtain ⟨v', later, asked⟩ := always.ok_eq now
      obtain ⟨w', later', asked'⟩ := always.ok_eq now'
      exact ⟨some (.ok (.value size)), members, v', w', later, later',
        by simp only [answer, asked], by simp only [answer, asked']⟩
    | error e =>
      obtain ⟨v', later, asked⟩ := always.error_eq now
      obtain ⟨w', later', asked'⟩ := always.error_eq now'
      exact ⟨some (.error e), members, v', w', later, later',
        by simp only [answer, asked], by simp only [answer, asked']⟩
  | source i q =>
    cases here : members[i]? with
    | none =>
      exact ⟨none, members, v, w, now, now', by simp only [answer, here],
        by simp only [answer, here]⟩
    | some own =>
      obtain ⟨result, own', same⟩ := aloof q own
      cases result with
      | ok found =>
        have replied (u : ω) : p.reply q ⟨own, u⟩ = .ok found ⟨own', u⟩ := by
          obtain ⟨answered, left⟩ := same u
          rw [← left]
          exact Outcome.eq_ok_of_answer answered
        simp only [answer, here, replied]
        exact ⟨_, _, v, w, now, now', rfl, rfl⟩
      | error e =>
        have replied (u : ω) : p.reply q ⟨own, u⟩ = .error e ⟨own', u⟩ := by
          obtain ⟨answered, left⟩ := same u
          rw [← left]
          exact Outcome.eq_error_of_answer answered
        simp only [answer, here, replied]
        exact ⟨_, _, v, w, now, now', rfl, rfl⟩

theorem interview_aloof (aloof : ∀ q, Aloof (p.reply q)) (sized : Repeats among subject.size)
    (queries : List Query) (members : List σ) {v w : ω} (now : among v) (now' : among w) :
    (interview p subject queries ⟨members, v⟩).1 = (interview p subject queries ⟨members, w⟩).1 ∧
      among (interview p subject queries ⟨members, v⟩).2.shared := by
  induction queries generalizing members v w with
  | nil => exact ⟨rfl, now⟩
  | cons query rest ih =>
    obtain ⟨found, members', v', w', later, later', here, there⟩ :=
      answer_aloof aloof sized members now now' query
    obtain ⟨more, left⟩ := ih members' later later'
    simp only [interview, here, there]
    exact ⟨congrArg (found :: ·) more, left⟩

end Lineage

/-- Handing out may change what is shared, as long as it hands out the same. -/
theorem Subject.Steady.of_aloof {p : Protocol σ ω Value} {subject : Subject σ ω}
    {among : ω → Prop} (aloof : ∀ q, Aloof (p.reply q))
    (splitSource : Repeats among subject.splitSource) (size : Repeats among subject.size)
    (sampleElements : Repeats among subject.sampleElements)
    (orderedElements : Repeats among subject.orderedElements) : subject.Steady p among := by
  refine ⟨size, sampleElements, orderedElements, fun queries => ?_⟩
  obtain ⟨made, always⟩ := splitSource
  cases made with
  | error e =>
    refine ⟨.error e, fun w now => ?_⟩
    obtain ⟨v, later, threw⟩ := always.error_eq now
    simp only [Subject.interview, threw]
    exact ⟨rfl, later⟩
  | ok own =>
    by_cases moment : ∃ w, among w
    · obtain ⟨w, now⟩ := moment
      refine ⟨.ok (Lineage.interview p subject queries ⟨[own], w⟩).1, fun w' now' => ?_⟩
      obtain ⟨v, later, made⟩ := always.ok_eq now'
      obtain ⟨same, left⟩ := Lineage.interview_aloof aloof size queries [own] later now
      simp only [Subject.interview, made]
      exact ⟨congrArg Except.ok same, left⟩
    · exact ⟨.ok [], fun w now => absurd ⟨w, now⟩ moment⟩

namespace Overlapping

theorem drain_aloof (count : Nat) (own : Overlapping Value) (seen : Array Value) :
    ∃ own' seen', ∀ w : ω, (drain count ⟨own, w⟩).play Visitor.collecting.visit seen =
      .ok () (⟨own', w⟩, seen') := by
  induction count generalizing own seen with
  | zero => exact ⟨own, seen, fun w => rfl⟩
  | succ count ih =>
    simp only [drain]
    by_cases done : own.limit ≤ own.position
    · exact ⟨own, seen, fun w => by rw [if_pos done]; rfl⟩
    · cases next : own.elements[own.position]? with
      | none => exact ⟨own, seen, fun w => by rw [if_neg done]; rfl⟩
      | some a =>
        obtain ⟨own', seen', rest⟩ := ih own.advanced (seen.push a)
        exact ⟨own', seen', fun w => by rw [if_neg done]; exact rest w⟩

theorem tryAdvance_aloof (own : Overlapping Value) :
    ∃ more own' seen, ∀ w : ω, (tryAdvance ⟨own, w⟩).play Visitor.collecting.visit #[] =
      .ok more (⟨own', w⟩, seen) := by
  simp only [tryAdvance]
  by_cases done : own.limit ≤ own.position
  · exact ⟨false, own, #[], fun w => by rw [if_pos done]; rfl⟩
  · cases next : own.elements[own.position]? with
    | none => exact ⟨false, own, #[], fun w => by rw [if_neg done]; rfl⟩
    | some a => exact ⟨true, own.advanced, #[a], fun w => by rw [if_neg done]; rfl⟩

theorem reply_aloof (q : Question) :
    Aloof ((protocol : Protocol (Overlapping Value) ω Value).reply q) := by
  have told : ∀ s : Site (Overlapping Value) ω, declared s = .ok flags.toValue s := fun _ => rfl
  cases q with
  | tryAdvance =>
    refine Aloof.map (fun own => ?_) _
    obtain ⟨more, own', seen, played⟩ := tryAdvance_aloof (ω := ω) own
    refine ⟨.ok (more, seen.toList), own', fun w => ?_⟩
    have ran : Protocol.play Visitor.collecting protocol.tryAdvance ⟨own, w⟩ #[] =
        .ok more (⟨own', w⟩, seen) := played w
    rw [Protocol.visiting_ok ran]
    exact ⟨rfl, rfl⟩
  | forEachRemaining =>
    refine Aloof.map (fun own => ?_) _
    obtain ⟨own', seen, played⟩ := drain_aloof (ω := ω) (own.limit - own.position) own #[]
    refine ⟨.ok ((), seen.toList), own', fun w => ?_⟩
    have ran : Protocol.play Visitor.collecting protocol.forEachRemaining ⟨own, w⟩ #[] =
        .ok () (⟨own', w⟩, seen) := played w
    rw [Protocol.visiting_ok ran]
    exact ⟨rfl, rfl⟩
  | trySplit =>
    refine Aloof.map (fun own => ?_) _
    exact ⟨.ok own.split.1, own.split.2, fun w => ⟨rfl, rfl⟩⟩
  | estimateSize =>
    refine Aloof.map (fun own => ?_) _
    exact ⟨.ok (.int ((own.limit : Int) - own.position)), own, fun w => ⟨rfl, rfl⟩⟩
  | exactSizeIfKnown =>
    refine Aloof.map (fun own => ?_) _
    refine ⟨.ok (.int ((own.limit : Int) - own.position)), own, fun w => ?_⟩
    have sized : flags.hasAll (.ofFlag .sized) = true := by decide
    simp only [protocol, Source.exactSize, Source.hasFlags_eq (told ⟨own, w⟩), sized]
    exact ⟨rfl, rfl⟩
  | characteristics =>
    refine Aloof.map (fun own => ?_) _
    exact ⟨.ok flags.toValue, own, fun w => ⟨rfl, rfl⟩⟩
  | hasCharacteristics set =>
    refine Aloof.map (fun own => ?_) _
    refine ⟨.ok (flags.hasAll set), own, fun w => ?_⟩
    simp only [protocol, Source.hasFlags_eq (told ⟨own, w⟩)]
    exact ⟨rfl, rfl⟩
  | comparator =>
    refine Aloof.map (fun own => ?_) _
    exact ⟨.error (.violation (.noComparator "OverlappingSource")), own, fun w => ⟨rfl, rfl⟩⟩

/-- Counts how often it hands out a source, which splits with an overlap. -/
def recounted : Subject (Overlapping Value) Nat where
  name := "Recounted"
  features := []
  splitSource := fun n => .ok (.ofList [.int 1, .int 2, .int 3]) (n + 1)
  sampleElements := fun n => .ok [.int 1, .int 2, .int 3] n
  orderedElements := fun n => .ok [.int 1, .int 2, .int 3] n
  size := fun n => .ok (.int 3) n

theorem recounted_steady : recounted.Steady protocol fun _ => True :=
  .of_aloof reply_aloof ⟨_, fun _ _ => ⟨rfl, trivial⟩⟩ ⟨_, fun _ _ => ⟨rfl, trivial⟩⟩
    ⟨_, fun _ _ => ⟨rfl, trivial⟩⟩ ⟨_, fun _ _ => ⟨rfl, trivial⟩⟩

end Overlapping

theorem Source.hasFlags_aloof {declared : Action (Site σ ω) Value} (aloof : Aloof declared)
    (flags : Characteristics) : Aloof (hasFlags declared flags) := by
  intro own
  obtain ⟨answer, own', same⟩ := aloof own
  cases answer with
  | error e =>
    refine ⟨.error e, own', fun w => ?_⟩
    obtain ⟨answered, left⟩ := same w
    rw [hasFlags, Outcome.eq_error_of_answer answered]
    exact ⟨rfl, left⟩
  | ok value =>
    refine ⟨(Characteristics.ofValue value).map (·.hasAll flags), own', fun w => ?_⟩
    obtain ⟨answered, left⟩ := same w
    rw [hasFlags, Outcome.eq_ok_of_answer answered, left]
    cases described : Characteristics.ofValue value <;> simp only [described] <;> exact ⟨rfl, rfl⟩

theorem Source.exactSize_aloof {declared estimateSize : Action (Site σ ω) Value}
    (flags : Aloof declared) (size : Aloof estimateSize) :
    Aloof (exactSize declared estimateSize) := by
  intro own
  obtain ⟨answer, own', same⟩ := hasFlags_aloof flags (.ofFlag .sized) own
  cases answer with
  | error e =>
    refine ⟨.error e, own', fun w => ?_⟩
    obtain ⟨answered, left⟩ := same w
    rw [exactSize, Outcome.eq_error_of_answer answered]
    exact ⟨rfl, left⟩
  | ok sized =>
    cases sized with
    | false =>
      refine ⟨.ok (.int (-1)), own', fun w => ?_⟩
      obtain ⟨answered, left⟩ := same w
      rw [exactSize, Outcome.eq_ok_of_answer answered]
      exact ⟨rfl, left⟩
    | true =>
      obtain ⟨answer', own'', same'⟩ := size own'
      refine ⟨answer', own'', fun w => ?_⟩
      obtain ⟨answered, left⟩ := same w
      rw [exactSize, Outcome.eq_ok_of_answer answered, left]
      exact same' w

def AloofTurn (turn : Site σ ω → Turn (Site σ ω) Value ρ) : Prop :=
  ∀ own seen, ∃ result own' seen', ∀ w,
    Outcome.answer ((turn ⟨own, w⟩).play Visitor.collecting.visit seen) = result ∧
      Outcome.state ((turn ⟨own, w⟩).play Visitor.collecting.visit seen) = (⟨own', w⟩, seen')

theorem AloofTurn.visiting {turn : Callee → Site σ ω → Turn (Site σ ω) Value ρ}
    (aloof : AloofTurn (turn (Visitor.collecting : Visitor ω (Array Value) Value).callee)) :
    Aloof (Protocol.visiting turn) := by
  intro own
  obtain ⟨result, own', seen, same⟩ := aloof own #[]
  refine ⟨result.map fun a => (a, seen.toList), own', fun w => ?_⟩
  obtain ⟨answered, left⟩ := same w
  cases result with
  | error e =>
    have played : Protocol.play Visitor.collecting turn ⟨own, w⟩ #[] =
        .error e (⟨own', w⟩, seen) := left ▸ Outcome.eq_error_of_answer answered
    simp only [Protocol.visiting, played]
    exact ⟨rfl, rfl⟩
  | ok a =>
    have played : Protocol.play Visitor.collecting turn ⟨own, w⟩ #[] =
        .ok a (⟨own', w⟩, seen) := left ▸ Outcome.eq_ok_of_answer answered
    simp only [Protocol.visiting, played]
    exact ⟨rfl, rfl⟩

namespace Scripted

theorem drain_aloof (count : Nat) : AloofTurn (ω := ω) (drain count) := by
  induction count with
  | zero => exact fun own seen => ⟨.ok (), own, seen, fun w => ⟨rfl, rfl⟩⟩
  | succ count ih =>
    intro own seen
    simp only [drain]
    by_cases done : own.limit ≤ own.position
    · exact ⟨.ok (), own, seen, fun w => by rw [if_pos done]; exact ⟨rfl, rfl⟩⟩
    · cases throws : own.plan.throwAt.contains own.position with
      | true =>
        exact ⟨.error own.plan.thrown, own.advanced, seen, fun w => by
          rw [if_neg done]
          exact ⟨rfl, rfl⟩⟩
      | false =>
        obtain ⟨result, own', seen', same⟩ := ih own.advanced (seen.push own.element)
        exact ⟨result, own', seen', fun w => by
          rw [if_neg done]
          exact same w⟩

theorem tryAdvance_aloof : AloofTurn (ω := ω) tryAdvance := by
  intro own seen
  simp only [tryAdvance]
  by_cases done : own.limit ≤ own.position
  · exact ⟨.ok false, own, seen, fun w => by rw [if_pos done]; exact ⟨rfl, rfl⟩⟩
  · cases throws : own.plan.throwAt.contains own.position with
    | true =>
      exact ⟨.error own.plan.thrown, own.advanced, seen, fun w => by
        rw [if_neg done]
        exact ⟨rfl, rfl⟩⟩
    | false =>
      exact ⟨.ok true, own.advanced, seen.push own.element, fun w => by
        rw [if_neg done]
        exact ⟨rfl, rfl⟩⟩

theorem trySplit_aloof : Aloof (ω := ω) trySplit := by
  intro own
  simp only [trySplit]
  cases parted : own.split with
  | error e => exact ⟨.error e, own, fun w => ⟨rfl, rfl⟩⟩
  | ok parts => exact ⟨.ok parts.1, parts.2, fun w => ⟨rfl, rfl⟩⟩

theorem estimateSize_aloof : Aloof (ω := ω) estimateSize :=
  fun own => ⟨.ok own.estimate, own, fun _ => ⟨rfl, rfl⟩⟩

theorem declared_aloof : Aloof (ω := ω) declared :=
  fun own => ⟨.ok own.plan.flags, own, fun _ => ⟨rfl, rfl⟩⟩

theorem exactSizeIfKnown_aloof : Aloof (ω := ω) exactSizeIfKnown := by
  intro own
  simp only [exactSizeIfKnown]
  cases exact : own.plan.exact with
  | some v => exact ⟨.ok v, own, fun w => ⟨rfl, rfl⟩⟩
  | none => exact Source.exactSize_aloof declared_aloof estimateSize_aloof own

theorem comparator_aloof : Aloof (ω := ω) comparator := by
  intro own
  simp only [comparator]
  cases own.plan.comparator with
  | refuse => exact ⟨.error (.violation (.noComparator "ScriptedSource")), own, fun w => ⟨rfl, rfl⟩⟩
  | throwing thrown => exact ⟨.error thrown, own, fun w => ⟨rfl, rfl⟩⟩
  | order order => exact ⟨.ok order, own, fun w => ⟨rfl, rfl⟩⟩

theorem reply_aloof (q : Question) :
    Aloof ((protocol : Protocol Scripted ω Value).reply q) := by
  cases q with
  | tryAdvance => exact Aloof.map (AloofTurn.visiting tryAdvance_aloof) _
  | forEachRemaining =>
    have drains : AloofTurn (ω := ω) (forEachRemaining .callable) :=
      fun own => drain_aloof (own.limit - own.position) own
    exact Aloof.map (AloofTurn.visiting drains) _
  | trySplit => exact Aloof.map trySplit_aloof _
  | estimateSize => exact Aloof.map estimateSize_aloof _
  | exactSizeIfKnown => exact Aloof.map exactSizeIfKnown_aloof _
  | characteristics => exact Aloof.map declared_aloof _
  | hasCharacteristics set => exact Aloof.map (Source.hasFlags_aloof declared_aloof set) _
  | comparator => exact Aloof.map comparator_aloof _

end Scripted
end SplitTraversal
