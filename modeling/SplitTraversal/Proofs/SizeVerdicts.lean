import SplitTraversal.Conformance.BuiltIn
import SplitTraversal.Source.Scripted

/-! What the size check finds in a source that answers with numbers, honest or not. Each promise that
a sized source breaks is reported once, and nothing else is. A source that is not sized is asked
nothing more: what it promises of its splits is not looked at, whatever it declares. -/

namespace SplitTraversal

variable {σ ω : Type}

theorem Number.not_same_of_lt {m n : Number} (less : n.lt m = true) : m.same n = false := by
  obtain ⟨a, b, keyN, keyM, below⟩ := Number.lt_iff.mp less
  refine Bool.eq_false_iff.mpr fun same => ?_
  obtain ⟨k, keyM', keyN'⟩ := Number.same_iff.mp same
  have equal : a = b := Option.some.inj (keyN.symm.trans (keyN'.trans (keyM'.symm.trans keyM)))
  omega

theorem Value.isAtMost_number (m n : Number) :
    (Value.number m).isAtMost (.number n) = .ok (m.le n) := by
  have order : (Value.number m).isAtMost (.number n) =
      .ok (orderOfNumbers m n == some .lt || orderOfNumbers m n == some .eq) := rfl
  rw [order, orderOfNumbers, Number.le]
  cases less : m.lt n with
  | true => rfl
  | false =>
    cases more : n.lt m with
    | true => rw [Number.not_same_of_lt more]; rfl
    | false => cases m.same n <;> rfl

/-- What is said of sizes: by a source that is not sized nothing, and by one that is not subsized
nothing of a split, for which the sizes of the remainder and of the piece stand. -/
inductive Readings where
  | unsized
  | sized (count estimate exact : Number) (split : Option (Number × Option Number))

namespace Protocol

/-- One split, with the sizes that the remainder and the piece then report. -/
inductive Splits (p : Protocol σ ω Value) :
    Site σ ω → Number × Option Number → Site σ ω → Prop
  | whole {s t u : Site σ ω} {rest : Number} (stays : p.trySplit s = .ok none t)
      (left : p.estimateSize t = .ok (.number rest) u) : Splits p s (rest, none) u
  | parted {s t u v : Site σ ω} {piece : σ} {rest part : Number}
      (cut : p.trySplit s = .ok (some piece) t) (left : p.estimateSize t = .ok (.number rest) u)
      (off : p.estimateSize ⟨piece, u.shared⟩ = .ok (.number part) v) :
      Splits p s (rest, some part) { u with shared := v.shared }

/-- What a source says to the questions about sizes, and how it is left. The collection is asked for
its size in between. -/
inductive Tells (p : Protocol σ ω Value) (size : Action ω Value) :
    Site σ ω → Readings → Site σ ω → Prop
  | unsized {s t : Site σ ω} (sized : p.hasCharacteristics (.ofFlag .sized) s = .ok false t) :
      Tells p size s .unsized t
  | sized {s t t₁ t₂ t₃ : Site σ ω} {w : ω} {count estimate exact : Number}
      (sized : p.hasCharacteristics (.ofFlag .sized) s = .ok true t)
      (held : size t.shared = .ok (.number count) w)
      (estimated : p.estimateSize ⟨t.own, w⟩ = .ok (.number estimate) t₁)
      (known : p.exactSizeIfKnown t₁ = .ok (.number exact) t₂)
      (subsized : p.hasCharacteristics (.ofFlag .subsized) t₂ = .ok false t₃) :
      Tells p size s (.sized count estimate exact none) t₃
  | subsized {s t t₁ t₂ t₃ u : Site σ ω} {w : ω} {count estimate exact : Number}
      {split : Number × Option Number}
      (sized : p.hasCharacteristics (.ofFlag .sized) s = .ok true t)
      (held : size t.shared = .ok (.number count) w)
      (estimated : p.estimateSize ⟨t.own, w⟩ = .ok (.number estimate) t₁)
      (known : p.exactSizeIfKnown t₁ = .ok (.number exact) t₂)
      (subsized : p.hasCharacteristics (.ofFlag .subsized) t₂ = .ok true t₃)
      (splits : p.Splits t₃ split u) :
      Tells p size s (.sized count estimate exact (some split)) u

end Protocol

/-- What a source may be charged with, and whether it holds. -/
structure Charge where
  code : FailureCode
  expected : Value
  actual : Value
  holds : Prop

/-- The failure that the size check reports where a charge holds. -/
structure Charge.Filed (charge : Charge) (failure : Failure) : Prop where
  check : failure.check = "estimateSize"
  code : failure.code = charge.code
  strategy : failure.strategy = none
  expected : failure.expected = some charge.expected
  actual : failure.actual = some charge.actual

namespace Readings

/-- The sum is that of numbers, exact as long as it is safe. -/
def splitCharges (estimate : Number) : Number × Option Number → List Charge
  | (rest, piece) =>
    let sum := (piece.getD (.integer 0)).add rest
    [⟨.subsizeMismatch, .number estimate, .number sum, sum.same estimate = false⟩,
      ⟨.splitNotShrinking, .string ("< " ++ estimate.text), .number rest,
        piece.isSome = true ∧ estimate.le rest = true⟩]

def charges : Readings → List Charge
  | .unsized => []
  | .sized count estimate exact split =>
    ⟨.sizeMismatch, .number count, .number estimate, estimate.same count = false⟩ ::
      ⟨.exactSizeMismatch, .number count, .number exact, exact.same count = false⟩ ::
      split.toList.flatMap (splitCharges estimate)

theorem nodup_codes (readings : Readings) : (readings.charges.map Charge.code).Nodup := by
  rcases readings with _ | ⟨count, estimate, exact, _ | split⟩
  · exact List.nodup_nil
  · exact (by decide : [FailureCode.sizeMismatch, .exactSizeMismatch].Nodup)
  · exact (by decide : [FailureCode.sizeMismatch, .exactSizeMismatch, .subsizeMismatch,
      .splitNotShrinking].Nodup)

end Readings

namespace BuiltIn

/-- The failures that stand for those charges that hold, one for each and in their order. -/
inductive Ledger : List Charge → List Failure → Prop
  | nil : Ledger [] []
  | upheld {charge : Charge} {charges : List Charge} {failure : Failure} {failures : List Failure}
      (holds : charge.holds) (filed : charge.Filed failure) (later : Ledger charges failures) :
      Ledger (charge :: charges) (failure :: failures)
  | dropped {charge : Charge} {charges : List Charge} {failures : List Failure}
      (fails : ¬charge.holds) (later : Ledger charges failures) :
      Ledger (charge :: charges) failures

namespace Ledger

variable {charges more : List Charge} {failures later : List Failure}

theorem append (first : Ledger charges failures) (second : Ledger more later) :
    Ledger (charges ++ more) (failures ++ later) := by
  induction first with
  | nil => exact second
  | upheld holds filed _ ih => exact .upheld holds filed ih
  | dropped fails _ ih => exact .dropped fails ih

theorem codes_sublist (ledger : Ledger charges failures) :
    (failures.map Failure.code).Sublist (charges.map Charge.code) := by
  induction ledger with
  | nil => exact .slnil
  | upheld _ filed _ ih =>
    rw [List.map_cons, List.map_cons, filed.code]
    exact ih.cons_cons _
  | dropped _ _ ih => exact ih.cons _

theorem mem_codes_iff (ledger : Ledger charges failures) (code : FailureCode) :
    code ∈ failures.map Failure.code ↔ ∃ charge ∈ charges, charge.code = code ∧ charge.holds := by
  induction ledger with
  | nil => simp
  | @upheld charge _ _ _ holds filed _ ih =>
    have own : code = charge.code ↔ charge.code = code ∧ charge.holds :=
      ⟨fun same => ⟨same.symm, holds⟩, fun same => same.1.symm⟩
    simp only [List.map_cons, List.mem_cons, ih, filed.code, or_and_right, exists_or,
      exists_eq_left, own]
  | dropped fails _ ih =>
    simp only [List.mem_cons, ih, or_and_right, exists_or, exists_eq_left, fails, and_false,
      false_or]

end Ledger

section Verdicts

/-- A test that makes a failure where it is not passed, and the charge that it tries. -/
theorem exists_ledger {charge : Charge} {clear : Bool} (holds : charge.holds ↔ clear = false)
    {drawn : Except Thrown Failure} {failure : Failure} (returned : drawn = .ok failure)
    (filed : charge.Filed failure) :
    ∃ failures, (if clear then .ok [] else drawn.map ([·])) = .ok failures ∧
      Ledger [charge] failures := by
  cases clear with
  | true => exact ⟨[], rfl, .dropped (fun charged => Bool.noConfusion (holds.mp charged)) .nil⟩
  | false => exact ⟨[failure], by rw [returned]; rfl, .upheld (holds.mpr rfl) filed .nil⟩

theorem sizeVerdict_ledger (code : FailureCode) (operation : String) (count found : Number) :
    ∃ failures, sizeVerdict code operation (.number count) (.number found) = .ok failures ∧
      Ledger [⟨code, .number count, .number found, found.same count = false⟩] failures :=
  exists_ledger .rfl rfl ⟨rfl, rfl, rfl, rfl, rfl⟩

theorem sumVerdict_ledger (estimate rest part : Number) :
    ∃ failures, sumVerdict (.number estimate) (.number part) (.number rest) = .ok failures ∧
      Ledger [⟨.subsizeMismatch, .number estimate, .number (part.add rest),
        (part.add rest).same estimate = false⟩] failures :=
  exists_ledger .rfl rfl ⟨rfl, rfl, rfl, rfl, rfl⟩

theorem shrinkVerdict_ledger (estimate rest : Number) (piece : Option Number) :
    ∃ failures, (if piece.isSome then shrinkVerdict (.number estimate) (.number rest)
      else .ok []) = .ok failures ∧
      Ledger [⟨.splitNotShrinking, .string ("< " ++ estimate.text), .number rest,
        piece.isSome = true ∧ estimate.le rest = true⟩] failures := by
  have decided : (if piece.isSome then shrinkVerdict (.number estimate) (.number rest)
      else .ok []) = if !(piece.isSome && estimate.le rest) then .ok []
      else (notShrinkingFailure "estimateSize" none (.number estimate) (.number rest)).map
        ([·]) := by
    rw [shrinkVerdict, Value.isAtMost_number]
    cases piece.isSome <;> cases estimate.le rest <;> rfl
  rw [decided]
  exact exists_ledger (by simp) rfl ⟨rfl, rfl, rfl, rfl, rfl⟩

theorem splitVerdict_ledger (estimate rest : Number) (piece : Option Number) :
    ∃ failures,
      splitVerdict (.number estimate) (.number rest) (piece.map Value.number) = .ok failures ∧
        Ledger (Readings.splitCharges estimate (rest, piece)) failures := by
  obtain ⟨sums, added, first⟩ :=
    sumVerdict_ledger estimate rest (piece.getD (.integer 0))
  obtain ⟨stuck, shrunk, second⟩ := shrinkVerdict_ledger estimate rest piece
  have part : (piece.map Value.number).getD (.int 0) = .number (piece.getD (.integer 0)) := by
    cases piece <;> rfl
  refine ⟨sums ++ stuck, ?_, first.append second⟩
  rw [splitVerdict, part, added, Option.isSome_map, shrunk]
  rfl

end Verdicts

section Examined

variable {p : Protocol σ ω Value} {s t u : Site σ ω}

theorem examineSplit_ledger (estimate : Number) {split : Number × Option Number}
    (splits : p.Splits s split u) :
    ∃ failures, examineSplit p (.number estimate) s = .ok failures u ∧
      Ledger (Readings.splitCharges estimate split) failures := by
  cases splits with
  | @whole t _ rest stays left =>
    obtain ⟨failures, judged, ledger⟩ := splitVerdict_ledger estimate rest none
    refine ⟨failures, ?_, ledger⟩
    rw [Option.map_none] at judged
    simp only [examineSplit, stays, left, judged, Action.ofExcept]
  | @parted t u v piece rest part cut left off =>
    obtain ⟨failures, judged, ledger⟩ := splitVerdict_ledger estimate rest (some part)
    refine ⟨failures, ?_, ledger⟩
    rw [Option.map_some] at judged
    simp only [examineSplit, cut, left, off, judged, Action.ofExcept]

/-- A source that answers with numbers is reported for the charges that hold, each of which has a code
of its own, and for nothing else. -/
theorem estimateSize_charges {c : CheckContext σ ω} {w v : ω} {own : σ} {readings : Readings}
    (fresh : c.subject.splitSource w = .ok own v)
    (told : c.protocol.Tells c.subject.size ⟨own, v⟩ readings s) :
    ∃ failures, estimateSize.run c w = .ok failures s.shared ∧
      Ledger readings.charges failures ∧ (failures.map Failure.code).Nodup ∧
      ∀ code, code ∈ failures.map Failure.code ↔
        ∃ charge ∈ readings.charges, charge.code = code ∧ charge.holds := by
  have examined : ∃ failures, estimateSize.run c w = .ok failures s.shared ∧
      Ledger readings.charges failures := by
    cases told with
    | unsized sized =>
      exact ⟨[], by simp only [estimateSize, fresh, sized], .nil⟩
    | @sized t t₁ t₂ _ w count estimate exact sized held estimated known subsized =>
      obtain ⟨first, sizeJudged, ledger⟩ :=
        sizeVerdict_ledger .sizeMismatch "estimateSize()" count estimate
      obtain ⟨second, exactJudged, ledger'⟩ :=
        sizeVerdict_ledger .exactSizeMismatch "exactSizeIfKnown()" count exact
      refine ⟨first ++ (second ++ []), ?_, ledger.append (ledger'.append .nil)⟩
      simp only [estimateSize, fresh, sized, held, examineSizes, estimated, sizeJudged,
        examineExact, known, exactJudged, examineParts, subsized]
    | @subsized t t₁ t₂ t₃ _ w count estimate exact split sized held estimated known subsized
        splits =>
      obtain ⟨first, sizeJudged, ledger⟩ :=
        sizeVerdict_ledger .sizeMismatch "estimateSize()" count estimate
      obtain ⟨second, exactJudged, ledger'⟩ :=
        sizeVerdict_ledger .exactSizeMismatch "exactSizeIfKnown()" count exact
      obtain ⟨third, splitJudged, ledger''⟩ := examineSplit_ledger estimate splits
      refine ⟨first ++ (second ++ third), ?_, ledger.append (ledger'.append ledger'')⟩
      simp only [estimateSize, fresh, sized, held, examineSizes, estimated, sizeJudged,
        examineExact, known, exactJudged, examineParts, subsized, splitJudged]
  obtain ⟨failures, ran, ledger⟩ := examined
  exact ⟨failures, ran, ledger, ledger.codes_sublist.nodup readings.nodup_codes, ledger.mem_codes_iff⟩

end Examined

end BuiltIn

namespace Scripted

/-- Three elements, of which the first split loses one. -/
def losing (flags : Characteristics) : Scripted :=
  .create
    { elements := #[.int 1, .int 2, .int 3]
      throwAt := []
      thrown := .undefined
      style := .drop
      partEmptySplits := 0
      claim := .offBy (.integer 0)
      flags := flags.toValue
      exact := none
      comparator := .refuse } 0

/-- The size check of a collection that claims to hold four elements. -/
def miscounted (flags : Characteristics) : CheckContext Scripted Unit where
  protocol := protocol
  rounds := 1
  subject :=
    { name := "Miscounted"
      features := []
      splitSource := fun w => .ok (losing flags) w
      sampleElements := fun w => .ok [.int 1, .int 2, .int 3] w
      orderedElements := fun w => .ok [.int 1, .int 2, .int 3] w
      size := fun w => .ok (.int 4) w }
  strategies := [.bulkDrain]
  equivalence := NamedEquivalence.sameValueZero.holds
  naturalComparator := naturalOrder

end Scripted

namespace BuiltIn

open Scripted

theorem splits_losing (flags : Characteristics) :
    ∃ s, protocol.Splits ⟨losing flags, ()⟩ (.integer 1, some (.integer 1)) s := by
  have cut : protocol.trySplit ⟨losing flags, ()⟩ =
      .ok (some ((losing flags).part 0 1)) ⟨{ losing flags with position := 2 }, ()⟩ := by
    simp [protocol, trySplit, split, losing, create]
  exact ⟨_, .parted cut rfl rfl⟩

/-- All is wrong but that the split leaves less than before. -/
theorem estimateSize_charges_losing :
    let c := miscounted (.ofFlags [.sized, .subsized])
    ∃ own s, c.subject.splitSource () = .ok own () ∧
      c.protocol.Tells c.subject.size ⟨own, ()⟩
        (.sized (.integer 4) (.integer 3) (.integer 3) (some (.integer 1, some (.integer 1)))) s ∧
      ∃ failures, estimateSize.run c () = .ok failures () ∧
        .sizeMismatch ∈ failures.map Failure.code ∧
        .exactSizeMismatch ∈ failures.map Failure.code ∧
        .subsizeMismatch ∈ failures.map Failure.code ∧
        .splitNotShrinking ∉ failures.map Failure.code := by
  intro c
  obtain ⟨s, splits⟩ := splits_losing (.ofFlags [.sized, .subsized])
  have told : c.protocol.Tells c.subject.size ⟨losing (.ofFlags [.sized, .subsized]), ()⟩
      (.sized (.integer 4) (.integer 3) (.integer 3) (some (.integer 1, some (.integer 1)))) s :=
    .subsized rfl rfl rfl rfl rfl splits
  refine ⟨_, s, rfl, told, ?_⟩
  obtain ⟨failures, ran, _, _, codes⟩ := estimateSize_charges (c := c) rfl told
  refine ⟨failures, ran, (codes _).mpr ⟨_, .head _, rfl, rfl⟩,
    (codes _).mpr ⟨_, .tail _ (.head _), rfl, rfl⟩,
    (codes _).mpr ⟨_, .tail _ (.tail _ (.head _)), rfl, rfl⟩, fun stuck => ?_⟩
  obtain ⟨charge, here, same, holds⟩ := (codes _).mp stuck
  simp only [Readings.charges, Readings.splitCharges, Option.toList_some, List.flatMap_singleton,
    List.mem_cons, List.not_mem_nil, or_false] at here
  rcases here with rfl | rfl | rfl | rfl
  · exact absurd same (by decide)
  · exact absurd same (by decide)
  · exact absurd same (by decide)
  · exact absurd holds.2 (by decide)

/-- A source that is subsized and not sized is not asked for its parts, which do not add up. -/
theorem estimateSize_unsized_unheard :
    let c := miscounted (.ofFlags [.subsized])
    c.subject.splitSource () = .ok (losing (.ofFlags [.subsized])) () ∧
      (∀ s, c.protocol.hasCharacteristics (.ofFlag .subsized) ⟨losing (.ofFlags [.subsized]), s⟩ =
        .ok true ⟨losing (.ofFlags [.subsized]), s⟩) ∧
      c.protocol.estimateSize ⟨losing (.ofFlags [.subsized]), ()⟩ =
        .ok (.int 3) ⟨losing (.ofFlags [.subsized]), ()⟩ ∧
      (∃ s, c.protocol.Splits ⟨losing (.ofFlags [.subsized]), ()⟩
        (.integer 1, some (.integer 1)) s) ∧
      ((Number.integer 1).add (.integer 1)).same (.integer 3) = false ∧
      estimateSize.run c () = .ok [] () :=
  ⟨rfl, fun _ => rfl, rfl, splits_losing _, by decide, rfl⟩

end BuiltIn
end SplitTraversal
