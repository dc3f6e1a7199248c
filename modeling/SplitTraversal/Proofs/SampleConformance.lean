import SplitTraversal.Proofs.CheckVerdicts
import SplitTraversal.Proofs.ListSources
import SplitTraversal.Proofs.SortedSets
import SplitTraversal.Proofs.ValueIdentity

/-! The sample collections conform in every state that they can be brought into: a harness with the
built-in checks passes them under all strategies and every reflexive equivalence. -/

namespace SplitTraversal

/-- A collection that hands out indexed sources over the elements that it says it holds. -/
structure Subject.Snapshots (subject : Subject Node Bench) (elements : List Value)
    (flags : Characteristics) (order : Option (Comparator Value)) : Prop where
  splitSource (b : Bench) :
    subject.splitSource b = .ok (.holding elements flags order) b
  sampleElements (b : Bench) : subject.sampleElements b = .ok elements b
  orderedElements (b : Bench) : subject.orderedElements b = .ok elements b
  size (b : Bench) : subject.size b = .ok (.int elements.length) b

namespace Harness

variable (rounds : Nat) (strategies : List Strategy) (equivalence : Equivalence Value)

def builtIn : Harness Node Bench where
  protocol := Node.protocol
  rounds
  registry := .withDefaults
  strategies
  equivalence
  naturalComparator := naturalOrder
  selected := none

theorem create_builtIn (some : strategies ≠ []) :
    create Node.protocol rounds .withDefaults
        { strategies := .only (strategies.map Strategy.name), equivalence } =
      .ok (builtIn rounds strategies equivalence) := by
  simp only [create, resolveStrategies_names some]
  rfl

end Harness

def Collection.elements : Collection → List Value
  | .arrayList c => c.elements
  | .immutableList c => c.elements
  | .sortedSet c => c.elements
  | .single c => [c.value]
  | .custom c _ => c.elements

section Faithful

variable {rounds : Nat} {strategies : List Strategy} {equivalence : Equivalence Value}

theorem Subject.Snapshots.faithful {subject : Subject Node Bench} {elements : List Value}
    {flags : Characteristics} {order : Option (Comparator Value)}
    (snapshots : subject.Snapshots elements flags order)
    (small : elements.length ≤ Number.maxSafe)
    (ordered : (flags.union Indexed.sizedFlags).hasAll (.ofFlag .ordered) = true)
    (sorted : (flags.union Indexed.sizedFlags).contains .sorted = true →
      (order.getD naturalOrder).isOrdered elements = .ok true)
    (nonnull : .allowsNullValues ∈ subject.features →
      (flags.union Indexed.sizedFlags).contains .nonnull = false)
    (immutable : .supportsAdd ∈ subject.features ∨ .supportsRemove ∈ subject.features →
      (flags.union Indexed.sizedFlags).contains .immutable = false) :
    ((Harness.builtIn rounds strategies equivalence).context subject).Faithful
      (Node.listing elements) (.holding elements flags order) where
  contract := Node.listing_contract elements
  sized _ := Node.listing_sized
  obeys := Node.holding_obeys small
  ordered := by rwa [View.ordered, Node.holding_flags]
  splitSource := snapshots.splitSource
  sampleElements := by
    rw [Node.holding_remaining]
    exact snapshots.sampleElements
  orderedElements := by
    rw [Node.holding_remaining]
    exact snapshots.orderedElements
  size := by
    rw [Node.holding_remaining]
    exact snapshots.size
  measured := by
    rw [Node.holding_remaining]
    exact Node.holding_measured
  hasCharacteristics := Node.listing_hasCharacteristics (Node.holding_obeys small)
  characteristics := Node.holding_characteristics
  sorted := by
    rw [Node.holding_flags, Node.holding_remaining, ← Characteristics.contains_eq_hasAll]
    exact fun isSorted =>
      ⟨order, fun b => (Node.holding_comparator b).trans (if_pos isSorted), sorted isSorted⟩
  unsorted := by
    rw [Node.holding_flags, ← Characteristics.contains_eq_hasAll]
    intro notSorted b
    refine ⟨_, _, (Node.holding_comparator b).trans (if_neg (Bool.eq_false_iff.mp notSorted)), ?_⟩
    rfl
  nonnull := by rwa [Node.holding_flags]
  immutable := by rwa [Node.holding_flags]

theorem ArrayList.snapshots (a : ArrayList) :
    a.subject.Snapshots a.elements (Characteristics.none.union (.ofFlag .ordered)) none :=
  ⟨fun _ => rfl, fun _ => rfl, fun _ => rfl, fun _ => rfl⟩

theorem ImmutableList.snapshots (l : ImmutableList) :
    l.subject.Snapshots l.elements ImmutableList.flags none :=
  ⟨fun _ => rfl, fun _ => rfl, fun _ => rfl, fun _ => rfl⟩

theorem SortedSet.snapshots (t : SortedSet) :
    t.subject.Snapshots t.elements SortedSet.flags t.order :=
  ⟨fun _ => rfl, fun _ => rfl, fun _ => rfl, fun _ => rfl⟩

theorem Single.faithful (c : Single) :
    ((Harness.builtIn rounds strategies equivalence).context c.subject).Faithful
      (Singleton.view.through Node.singleton Node.singleton?) (.singleton ⟨some c.value⟩) where
  contract := Singleton.contract.through Node.singleton_embeds Node.singleton?_singleton
  sized := by
    rintro _ ⟨s, rfl, _⟩
    exact (show Singleton.flags.hasAll (.ofFlag .sized) = true by decide)
  obeys := ⟨_, rfl, trivial⟩
  ordered := show Singleton.flags.hasAll (.ofFlag .ordered) = true by decide
  splitSource _ := rfl
  sampleElements _ := rfl
  orderedElements _ := rfl
  size _ := rfl
  measured := ⟨fun _ => rfl, fun _ => rfl, fun _ => .inl ⟨_, rfl, rfl⟩⟩
  hasCharacteristics flags b :=
    (Node.singleton_embeds.hasCharacteristics flags ⟨⟨some c.value⟩, b⟩).trans
      (congrArg (Outcome.mapState _) (Source.hasFlags_eq rfl flags))
  characteristics _ := rfl
  sorted declared :=
    absurd (show Singleton.flags.hasAll (.ofFlag .sorted) = true from declared) (by decide)
  unsorted _ _ := ⟨_, _, rfl, rfl⟩
  nonnull _ := show Singleton.flags.contains .nonnull = false by decide
  immutable changes :=
    absurd (show .supportsAdd ∈ [Feature.allowsNullValues] ∨
      .supportsRemove ∈ [Feature.allowsNullValues] from changes) (by decide)

variable (rounds strategies equivalence) in
theorem Collection.Sound.faithful {among : Value → Prop} {c : Collection} (sound : c.Sound among)
    (small : c.elements.length ≤ Number.maxSafe) :
    ∃ v s, ((Harness.builtIn rounds strategies equivalence).context c.subject).Faithful v s ∧
      v.remaining s = c.elements := by
  cases c with
  | arrayList a =>
    exact ⟨_, _, a.snapshots.faithful small (by decide) (absurd · (by decide)) (fun _ => by decide)
      (fun _ => by decide), Node.holding_remaining⟩
  | immutableList l =>
    refine ⟨_, _, l.snapshots.faithful small (by decide) (absurd · (by decide)) ?_ ?_,
      Node.holding_remaining⟩
    · exact fun allows => (List.not_mem_nil allows).elim
    · rintro (changes | changes) <;> exact (List.not_mem_nil changes).elim
  | sortedSet t =>
    refine ⟨_, _, t.snapshots.faithful small (by decide) (fun _ => sound.isOrdered) ?_
      (fun _ => by decide), Node.holding_remaining⟩
    exact (absurd · (show .allowsNullValues ∉ SortedSet.features by decide))
  | single one => exact ⟨_, _, one.faithful, rfl⟩
  | custom => exact sound.elim

end Faithful

namespace Collection

/-- A harness with the built-in checks passes every sample collection in every state, under any
strategies and any reflexive equivalence: there is no failure, and just the checks whose gates keep
the collection out are skipped. Subscribers may throw, as long as they leave the subscriptions
alone. -/
theorem Sample.run_passes {η β : Type} [DecidableEq η] {among : Value → Prop} {c : Collection}
    (sample : c.Sample among) (small : c.elements.length ≤ Number.maxSafe)
    {strategies : List Strategy} (some : strategies ≠ []) {equivalence : Equivalence Value}
    (reflexive : ∀ v, equivalence v v = .ok true) {rounds : Nat} (enough : c.elements.length < rounds)
    {audience : Audience EventKind η Event β} (s : Stage η β Bench)
    (attended : (Harness.builtIn rounds strategies equivalence).Attended audience s.bus) :
    ∃ h report t,
      Harness.create Node.protocol rounds .withDefaults
        { strategies := .only (strategies.map Strategy.name), equivalence } = .ok h ∧
      h.run audience c.subject s = .ok report t ∧ report.passed = true ∧ report.failures = [] ∧
      List.Forall₂ (Harness.Cleared c.subject s.world) BuiltIn.all report.outcomes := by
  obtain ⟨v, source, faithful, held⟩ :=
    Sound.faithful rounds strategies equivalence sample.sound small
  rw [← held] at small enough
  have clear := BuiltIn.all_clear faithful enough small reflexive
  have sized : ∀ w, ∃ size u, c.subject.size w = .ok size u := fun w => ⟨_, w, faithful.size w⟩
  obtain ⟨outcomes, w, course, ran⟩ :=
    Harness.run_eq attended sized fun check here => (clear check here).settles
  have cleared := course.cleared faithful.size clear s.world
  obtain ⟨passed, clean⟩ := course.passed cleared c.subject.name
  exact ⟨_, _, _, Harness.create_builtIn rounds strategies equivalence some, ran, passed, clean,
    cleared⟩

/-- Four numbers, one of which took the place of another that tied with NaN. It has refused NaN and
thrown at two texts. -/
def unsettled : Collection :=
  let c : Collection := .sortedSet ⟨"Sorted", [.int 1, .int 3, .int 5, .int 7], none⟩
  let c : Collection := c.after (c.add (.number .nan))
  let c : Collection := c.after (c.remove (.number .nan))
  let c : Collection := c.after (c.add (.string "x"))
  let c : Collection := c.after (c.add (.int 4))
  c.after (c.remove (.string "y"))

theorem unsettled_sample : unsettled.Sample fun _ => True := by
  have created : SortedSet.create "Sorted" [.int 5, .int 1, .int 7, .int 3] none =
      .ok ⟨"Sorted", [.int 1, .int 3, .int 5, .int 7], none⟩ := rfl
  have natural : SortedSet.Lawful (fun _ => True) none := fun _ none => by cases none
  have start := Sample.sortedSet natural (fun _ _ _ => trivial) created
  have tied := Sample.removed (.added start (.number .nan) fun _ => trivial) (.number .nan)
  exact .removed (.added (.added tied (.string "x") fun _ => trivial) (.int 4) fun _ => trivial)
    (.string "y")

def inattentive : Audience EventKind Nat Event Unit where
  kindOf := Event.kind
  respond _ _ := fun s => .ok () s
  onError _ _ := fun s => .ok () s

theorem Sample.run_passes_unsettled :
    unsettled.Sample (fun _ => True) ∧ unsettled.elements = [.int 3, .int 4, .int 5, .int 7] ∧
      (∀ v, NamedEquivalence.sameValueZero.holds v v = .ok true) ∧
      ∃ h report t,
        Harness.create Node.protocol 5 .withDefaults
          { strategies := .only ["BULK_DRAIN", "MAXIMUM_SPLIT", "BULK_DRAIN"] } = .ok h ∧
        h.run inattentive unsettled.subject ⟨.empty, (), .empty⟩ = .ok report t ∧
        report.passed = true ∧ report.failures = [] := by
  have held : unsettled.elements = [.int 3, .int 4, .int 5, .int 7] := rfl
  have reflexive : ∀ v, NamedEquivalence.sameValueZero.holds v v = .ok true :=
    fun v => congrArg Except.ok v.sameValueZero_self
  have attended : (Harness.builtIn 5 [.bulkDrain, .maximumSplit, .bulkDrain]
      NamedEquivalence.sameValueZero.holds).Attended inattentive Bus.empty :=
    ⟨⟨fun _ _ _ _ => rfl, fun _ _ _ _ => ⟨_, rfl⟩⟩, .empty, by decide⟩
  obtain ⟨h, report, t, created, ran, passed, clean, _⟩ := unsettled_sample.run_passes
    (by rw [held]; decide) (List.cons_ne_nil _ _) reflexive
    (by rw [held]; decide) ⟨.empty, (), .empty⟩ attended
  exact ⟨unsettled_sample, held, reflexive, h, report, t, created, ran, passed, clean⟩

end Collection
end SplitTraversal
