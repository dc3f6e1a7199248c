import SplitTraversal.Conformance.Subject
import SplitTraversal.Traversal.Decompose

/-! Activities that have one result at every moment, and collections whose fresh sources behave the
same whenever they are handed out. Sources may keep things in a state that they share, and so change
it each time; that they behave the same means that the same questions get the same answers, asked of
a fresh source and of all that is split off it. -/

namespace SplitTraversal

namespace Outcome

variable {ε S ρ : Type}

def answer : Outcome ε S ρ → Except ε ρ
  | .ok a _ => .ok a
  | .error e _ => .error e

variable {o : Outcome ε S ρ}

theorem eq_ok_of_answer {a : ρ} (answered : answer o = .ok a) : o = .ok a (state o) := by
  cases o with
  | ok b s =>
    cases answered
    rfl
  | error e s => cases answered

theorem eq_error_of_answer {e : ε} (answered : answer o = .error e) :
    o = .error e (state o) := by
  cases o with
  | ok b s => cases answered
  | error e s =>
    cases answered
    rfl

end Outcome

section Moments

variable {ε S ρ τ : Type}

/-- At each of these moments the activity ends with this result, and leaves one of the moments. -/
def Always (among : S → Prop) (activity : EStateM ε S ρ) (result : Except ε ρ) : Prop :=
  ∀ s, among s → Outcome.answer (activity s) = result ∧ among (Outcome.state (activity s))

def Repeats (among : S → Prop) (activity : EStateM ε S ρ) : Prop :=
  ∃ result, Always among activity result

variable {among : S → Prop} {activity : EStateM ε S ρ} {result : Except ε ρ}

namespace Always

theorem ok_eq {a : ρ} (always : Always among activity (.ok a)) {s : S} (now : among s) :
    ∃ t, among t ∧ activity s = .ok a t := by
  obtain ⟨answered, later⟩ := always s now
  exact ⟨_, later, Outcome.eq_ok_of_answer answered⟩

theorem error_eq {e : ε} (always : Always among activity (.error e)) {s : S} (now : among s) :
    ∃ t, among t ∧ activity s = .error e t := by
  obtain ⟨answered, later⟩ := always s now
  exact ⟨_, later, Outcome.eq_error_of_answer answered⟩

theorem pure (a : ρ) : Always among (Pure.pure a : EStateM ε S ρ) (.ok a) :=
  fun _ now => ⟨rfl, now⟩

theorem bind {next : ρ → EStateM ε S τ} {then' : ρ → Except ε τ}
    (first : Always among activity result)
    (rest : ∀ a, result = .ok a → Always among (next a) (then' a)) :
    Always among (activity >>= next) (result >>= then') := by
  intro s now
  cases result with
  | error e =>
    obtain ⟨t, later, ran⟩ := first.error_eq now
    have both : (activity >>= next) s = .error e t := by
      simp only [Bind.bind, EStateM.bind, ran]
    rw [both]
    exact ⟨rfl, later⟩
  | ok a =>
    obtain ⟨t, later, ran⟩ := first.ok_eq now
    have both : (activity >>= next) s = next a t := by
      simp only [Bind.bind, EStateM.bind, ran]
    rw [both]
    exact rest a rfl t later

theorem map (f : ρ → τ) (always : Always among activity result) :
    Always among (f <$> activity) (result.map f) := by
  have mapped : Always among (activity >>= fun a => Pure.pure (f a))
      (result >>= fun a => .ok (f a)) := always.bind fun a _ => pure (f a)
  rw [bind_pure_comp] at mapped
  exact mapped

theorem mapM {α : Type} {act : α → EStateM ε S τ} {results : α → Except ε τ} {xs : List α}
    (each : ∀ x ∈ xs, Always among (act x) (results x)) :
    Always among (xs.mapM act) (xs.mapM results) := by
  induction xs with
  | nil => exact pure []
  | cons x xs ih =>
    rw [List.forall_mem_cons] at each
    rw [List.mapM_cons, List.mapM_cons]
    exact each.1.bind fun a _ => (ih each.2).bind fun as _ => pure (a :: as)

end Always

namespace Repeats

theorem always_at (repeats : Repeats among activity) {s : S} (now : among s) :
    Always among activity (Outcome.answer (activity s)) := by
  obtain ⟨result, always⟩ := repeats
  rw [(always s now).1]
  exact always

theorem bind {next : ρ → EStateM ε S τ} (first : Repeats among activity)
    (rest : ∀ a, Repeats among (next a)) : Repeats among (activity >>= next) := by
  obtain ⟨result, always⟩ := first
  exact ⟨result >>= fun a => (rest a).choose, always.bind fun a _ => (rest a).choose_spec⟩

theorem pure (a : ρ) : Repeats among (Pure.pure a : EStateM ε S ρ) :=
  ⟨.ok a, .pure a⟩

theorem throw (e : ε) : Repeats among (fun s => .error e s : EStateM ε S ρ) :=
  ⟨.error e, fun _ now => ⟨rfl, now⟩⟩

theorem ofExcept (result : Except Thrown ρ) : Repeats among (Action.ofExcept result) := by
  cases result with
  | ok a => exact pure a
  | error e => exact throw e

theorem of_pairs [Inhabited ε] {activity : EStateM ε S ρ}
    (agree : ∀ s t, among s → among t →
      Outcome.answer (activity s) = Outcome.answer (activity t) ∧
        among (Outcome.state (activity s))) : Repeats among activity := by
  by_cases some : ∃ s, among s
  · obtain ⟨s, now⟩ := some
    exact ⟨Outcome.answer (activity s), fun t later =>
      ⟨(agree t s later now).1, (agree t s later now).2⟩⟩
  · exact ⟨.error default, fun s now => absurd ⟨s, now⟩ some⟩

theorem lift {action : Action S ρ} (repeats : Repeats among action) :
    Repeats among action.lift := by
  obtain ⟨result, always⟩ := repeats
  cases result with
  | ok a =>
    refine ⟨.ok a, fun s now => ?_⟩
    obtain ⟨t, later, ran⟩ := always.ok_eq now
    have lifted : action.lift s = .ok a t := by simp only [Action.lift, ran]
    rw [lifted]
    exact ⟨rfl, later⟩
  | error e =>
    refine ⟨.error (.threw e), fun s now => ?_⟩
    obtain ⟨t, later, ran⟩ := always.error_eq now
    have lifted : action.lift s = .error (.threw e) t := by simp only [Action.lift, ran]
    rw [lifted]
    exact ⟨rfl, later⟩

end Repeats

end Moments

inductive Question where
  | tryAdvance
  | forEachRemaining
  | trySplit
  | estimateSize
  | exactSizeIfKnown
  | characteristics
  | hasCharacteristics (flags : Characteristics)
  | comparator

inductive Finding where
  | advanced (more : Bool) (visited : List Value)
  | drained (visited : List Value)
  | parted (split : Bool)
  | value (v : Value)
  | flag (b : Bool)
  | order (compare : Option (Comparator Value))

namespace Protocol

variable {σ ω ρ : Type}

def visiting (turn : Callee → Site σ ω → Turn (Site σ ω) Value ρ) :
    Action (Site σ ω) (ρ × List Value) := fun s =>
  match play Visitor.collecting turn s #[] with
  | .ok a (s, seen) => .ok (a, seen.toList) s
  | .error e (s, _) => .error e s

def reply (p : Protocol σ ω Value) : Question → Action (Site σ ω) (Finding × Option σ)
  | .tryAdvance => (fun found => (.advanced found.1 found.2, none)) <$> visiting p.tryAdvance
  | .forEachRemaining => (fun found => (.drained found.2, none)) <$> visiting p.forEachRemaining
  | .trySplit => (fun piece => (.parted piece.isSome, piece)) <$> p.trySplit
  | .estimateSize => (fun v => (.value v, none)) <$> p.estimateSize
  | .exactSizeIfKnown => (fun v => (.value v, none)) <$> p.exactSizeIfKnown
  | .characteristics => (fun v => (.value v, none)) <$> p.characteristics
  | .hasCharacteristics flags => (fun b => (.flag b, none)) <$> p.hasCharacteristics flags
  | .comparator => (fun order => (.order order, none)) <$> p.comparator

end Protocol

inductive Query where
  | source (member : Nat) (question : Question)
  | size

/-- A source and all that was split off it, in order of creation, in the state that they share. -/
structure Lineage (σ ω : Type) where
  members : List σ
  shared : ω

namespace Lineage

variable {σ ω : Type} (p : Protocol σ ω Value) (subject : Subject σ ω)

def after (l : Lineage σ ω) (member : Nat) (s : Site σ ω) (piece : Option σ) : Lineage σ ω :=
  ⟨l.members.set member s.own ++ piece.toList, s.shared⟩

def answer (l : Lineage σ ω) : Query → Option (Except Thrown Finding) × Lineage σ ω
  | .size =>
    match subject.size l.shared with
    | .ok size w => (some (.ok (.value size)), { l with shared := w })
    | .error e w => (some (.error e), { l with shared := w })
  | .source member question =>
    match l.members[member]? with
    | none => (none, l)
    | some own =>
      match p.reply question ⟨own, l.shared⟩ with
      | .ok (finding, piece) s => (some (.ok finding), l.after member s piece)
      | .error e s => (some (.error e), l.after member s none)

def interview : List Query → Lineage σ ω → List (Option (Except Thrown Finding)) × Lineage σ ω
  | [], l => ([], l)
  | query :: rest, l =>
    let (found, l) := l.answer p subject query
    let (more, l) := interview rest l
    (found :: more, l)

end Lineage

namespace Subject

variable {σ ω : Type}

def interview (p : Protocol σ ω Value) (subject : Subject σ ω) (queries : List Query) :
    Action ω (List (Option (Except Thrown Finding))) := fun w =>
  match subject.splitSource w with
  | .error e w => .error e w
  | .ok own w =>
    let (answers, l) := Lineage.interview p subject queries ⟨[own], w⟩
    .ok answers l.shared

/-- The collection says the same of itself at each of these moments, and its fresh sources answer
the same to whatever they are asked. -/
structure Steady (subject : Subject σ ω) (p : Protocol σ ω Value) (among : ω → Prop) : Prop where
  size : Repeats among subject.size
  sampleElements : Repeats among subject.sampleElements
  orderedElements : Repeats among subject.orderedElements
  fresh (queries : List Query) : Repeats among (subject.interview p queries)

end Subject
end SplitTraversal
