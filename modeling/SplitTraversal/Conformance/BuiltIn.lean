import SplitTraversal.Conformance.Check
import SplitTraversal.Conformance.Matching
import SplitTraversal.Display.Elements

/-! The seven checks of every harness. Each drains fresh sources and compares what they visit, or
asks a fresh source what it declares. -/

namespace SplitTraversal

def notShrinkingFailure (check : String) (strategy : Option String) (before after : Value) :
    Except Thrown Failure :=
  match before.text, after.text with
  | .error e, _ => .error e
  | _, .error e => .error e
  | .ok size, .ok rest =>
    .ok { check
          code := .splitNotShrinking
          strategy
          expected := some (.string s!"< {size}")
          actual := some after
          message := s!"trySplit() returned a prefix but the remainder stayed at {rest} of {size}" }

def stallFailure (check strategy : String) (reason : StallReason) (before after splits : Value) :
    Except Thrown Failure :=
  match reason with
  | .splitLimit =>
    .ok { check
          code := .splitNotShrinking
          strategy := some strategy
          expected := some (.string s!"at most {unsizedSplitLimit} splits")
          actual := some splits
          message := s!"trySplit() kept returning prefixes past {unsizedSplitLimit} splits" }
  | .notShrinking => notShrinkingFailure check (some strategy) before after

def Stall.failure (check : String) (strategy : Strategy) (stall : Stall) : Except Thrown Failure :=
  stallFailure check strategy.name stall.reason stall.before stall.after (.int stall.splits)

namespace BuiltIn

variable {σ ω : Type}

/-- Ask a new source; what becomes of the source is of no interest afterwards. -/
def askFresh {ρ : Type} (subject : Subject σ ω) (ask : Action (Site σ ω) ρ) : Action ω ρ := fun w =>
  match subject.splitSource w with
  | .error e w => .error e w
  | .ok own w =>
    match ask ⟨own, w⟩ with
    | .ok a s => .ok a s.shared
    | .error e s => .error e s.shared

def traverseFresh (c : CheckContext σ ω) (strategy : Strategy) : Activity ω (Traversal Value) :=
  fun w =>
    match c.subject.splitSource w with
    | .error e w => .error (.threw e) w
    | .ok own w =>
      match c.protocol.traverse c.rounds strategy ⟨own, w⟩ with
      | .ok t s => .ok t s.shared
      | .error h s => .error h s.shared

/-- The failures found under each strategy, in strategy order. An examination that throws ends
them all. -/
def underEach (examine : Strategy → Activity ω (Option Failure)) :
    List Strategy → Activity ω (List Failure)
  | [], w => .ok [] w
  | strategy :: rest, w =>
    match examine strategy w with
    | .error h w => .error h w
    | .ok found w =>
      match underEach examine rest w with
      | .ok failures w => .ok (found.toList ++ failures) w
      | .error h w => .error h w

def judge (check : String) (strategy : Strategy) (traversal : Traversal Value)
    (verdict : List Value → Except Thrown (Option Failure)) : Activity ω (Option Failure) :=
  Action.lift (.ofExcept (match traversal with
    | .stalled stall => (stall.failure check strategy).map some
    | .complete actual => verdict actual))

def elementsFailure (strategy : Strategy) (expected actual missing unexpected : List Value) :
    Failure :=
  let visited := Display.elements actual
  let wanted := Display.elements expected
  let lacking := Display.elements missing
  let extra := Display.elements unexpected
  { check := "elements"
    code := .elementsMismatch
    strategy := some strategy.name
    expected := some (.list expected)
    actual := some (.list actual)
    message := s!"visited {visited}, expected {wanted} in any order " ++
      s!"(missing {lacking}, unexpected {extra})" }

def elementsVerdict (equivalence : Equivalence Value) (strategy : Strategy)
    (expected actual : List Value) : Except Thrown (Option Failure) :=
  match Matching.multisetDiff equivalence expected actual with
  | .error e => .error e
  | .ok ([], []) => .ok none
  | .ok (missing, unexpected) =>
    .ok (some (elementsFailure strategy expected actual missing unexpected))

def elements : Check σ ω where
  name := "elements"
  description := "every strategy visits the expected elements exactly once each"
  run := fun c w =>
    match c.subject.sampleElements w with
    | .error e w => .error (.threw e) w
    | .ok expected w =>
      underEach (fun strategy w =>
        match traverseFresh c strategy w with
        | .error h w => .error h w
        | .ok t w =>
          judge "elements" strategy t (elementsVerdict c.equivalence strategy expected) w)
        c.strategies w

def orderFailure (strategy : Strategy) (expected actual : List Value) (position : Nat) : Failure :=
  let visited := Display.elements actual
  let wanted := Display.elements expected
  { check := "knownOrder"
    code := .orderMismatch
    strategy := some strategy.name
    expected := some (.list expected)
    actual := some (.list actual)
    message := s!"visited {visited}, expected {wanted} in order " ++
      s!"(first difference at position {position})" }

def orderVerdict (equivalence : Equivalence Value) (strategy : Strategy)
    (expected actual : List Value) : Except Thrown (Option Failure) :=
  match Matching.firstDifference equivalence expected actual with
  | .error e => .error e
  | .ok none => .ok none
  | .ok (some position) => .ok (some (orderFailure strategy expected actual position))

def knownOrder : Check σ ω where
  name := "knownOrder"
  description := "an ORDERED source visits elements in iteration order under every strategy"
  run := fun c w =>
    match askFresh c.subject (c.protocol.hasCharacteristics (.ofFlag .ordered)) w with
    | .error e w => .error (.threw e) w
    | .ok false w => .ok [] w
    | .ok true w =>
      match c.subject.orderedElements w with
      | .error e w => .error (.threw e) w
      | .ok expected w =>
        underEach (fun strategy w =>
          match traverseFresh c strategy w with
          | .error h w => .error h w
          | .ok t w =>
            judge "knownOrder" strategy t (orderVerdict c.equivalence strategy expected) w)
          c.strategies w

def sortFailure (strategy : Strategy) (sorted actual : List Value) : Failure :=
  let visited := Display.elements actual
  { check := "comparator"
    code := .notSorted
    strategy := some strategy.name
    expected := some (.list sorted)
    actual := some (.list actual)
    message := s!"visited {visited}, which is not in non-decreasing comparator order" }

/-- Visited elements have to be in order; what is expected otherwise are the same elements sorted. -/
def sortVerdict (compare : Comparator Value) (strategy : Strategy) (actual : List Value) :
    Except Thrown (Option Failure) :=
  match compare.isOrdered actual with
  | .error e => .error e
  | .ok true => .ok none
  | .ok false =>
    match compare.sortValues actual with
    | .error e => .error e
    | .ok sorted => .ok (some (sortFailure strategy sorted actual))

def examineSorted (c : CheckContext σ ω) (strategy : Strategy) : Activity ω (Option Failure) :=
  fun w =>
    match c.subject.splitSource w with
    | .error e w => .error (.threw e) w
    | .ok own w =>
      match c.protocol.comparator ⟨own, w⟩ with
      | .error e s => .error (.threw e) s.shared
      | .ok own s =>
        let compare := own.getD c.naturalComparator
        match c.protocol.traverse c.rounds strategy s with
        | .error h s => .error h s.shared
        | .ok t s => judge "comparator" strategy t (sortVerdict compare strategy) s.shared

def notRejected (actual message : String) : Failure :=
  { check := "comparator"
    code := .comparatorNotRejected
    expected := some (.string "IllegalStateError")
    actual := some (.string actual)
    message }

def isIllegalState : Thrown → Bool
  | .fault f => f.kind == .illegalState
  | _ => false

/-- A source that is not sorted has to refuse to give a comparator. Producing the source is part of
what may throw. -/
def examineUnsorted (c : CheckContext σ ω) : Activity ω (List Failure) := fun w =>
  match askFresh c.subject c.protocol.comparator w with
  | .ok _ w =>
    .ok [notRejected "no error"
      "comparator() on a source without SORTED returned instead of throwing IllegalStateError"] w
  | .error e w =>
    if isIllegalState e then .ok [] w
    else
      let name := e.thrownName
      .ok [notRejected name
        s!"comparator() on a source without SORTED threw {name} instead of IllegalStateError"] w

def comparator : Check σ ω where
  name := "comparator"
  description := "SORTED sources visit in comparator order; others reject comparator()"
  run := fun c w =>
    match askFresh c.subject (c.protocol.hasCharacteristics (.ofFlag .sorted)) w with
    | .error e w => .error (.threw e) w
    | .ok true w => underEach (examineSorted c) c.strategies w
    | .ok false w => examineUnsorted c w

def sizeFailure (code : FailureCode) (operation : String) (count found : Value) :
    Except Thrown Failure :=
  match found.text, count.text with
  | .error e, _ => .error e
  | _, .error e => .error e
  | .ok reported, .ok held =>
    .ok { check := "estimateSize"
          code
          expected := some count
          actual := some found
          message := s!"{operation} is {reported} but the collection holds {held} element(s)" }

def sizeVerdict (code : FailureCode) (operation : String) (count found : Value) :
    Except Thrown (List Failure) :=
  if found.strictEquals count then .ok []
  else (sizeFailure code operation count found).map ([·])

def subsizeFailure (estimate part rest sum : Value) : Except Thrown Failure :=
  match part.text, rest.text, estimate.text with
  | .error e, _, _ => .error e
  | _, .error e, _ => .error e
  | _, _, .error e => .error e
  | .ok first, .ok second, .ok total =>
    .ok { check := "estimateSize"
          code := .subsizeMismatch
          expected := some estimate
          actual := some sum
          message := s!"after one split, prefix {first} + remainder {second} " ++
            s!"does not add up to the pre-split size {total}" }

def sumVerdict (estimate part rest : Value) : Except Thrown (List Failure) :=
  match part.add rest with
  | .error e => .error e
  | .ok sum =>
    if sum.strictEquals estimate then .ok []
    else (subsizeFailure estimate part rest sum).map ([·])

def shrinkVerdict (estimate rest : Value) : Except Thrown (List Failure) :=
  match estimate.isAtMost rest with
  | .error e => .error e
  | .ok false => .ok []
  | .ok true => (notShrinkingFailure "estimateSize" none estimate rest).map ([·])

def bothVerdicts (first second : Except Thrown (List Failure)) : Except Thrown (List Failure) :=
  match first with
  | .error e => .error e
  | .ok found => second.map (found ++ ·)

/-- The verdicts on a split, where none stands for a source that did not split. -/
def splitVerdict (estimate rest : Value) (part : Option Value) : Except Thrown (List Failure) :=
  bothVerdicts (sumVerdict estimate (part.getD (.int 0)) rest)
    (if part.isSome then shrinkVerdict estimate rest else .ok [])

/-- Split once and weigh both parts. The remainder is asked before the part split off. -/
def examineSplit (p : Protocol σ ω Value) (estimate : Value) : Action (Site σ ω) (List Failure) :=
  fun s =>
    match p.trySplit s with
    | .error e s => .error e s
    | .ok piece s =>
      match p.estimateSize s with
      | .error e s => .error e s
      | .ok rest s =>
        match piece with
        | none => Action.ofExcept (splitVerdict estimate rest none) s
        | some piece =>
          match p.estimateSize ⟨piece, s.shared⟩ with
          | .error e t => .error e { s with shared := t.shared }
          | .ok size t =>
            Action.ofExcept (splitVerdict estimate rest (some size))
              { s with shared := t.shared }

def examineParts (p : Protocol σ ω Value) (estimate : Value) : Action (Site σ ω) (List Failure) :=
  fun s =>
    match p.hasCharacteristics (.ofFlag .subsized) s with
    | .error e s => .error e s
    | .ok false s => .ok [] s
    | .ok true s => examineSplit p estimate s

def examineExact (p : Protocol σ ω Value) (count estimate : Value) :
    Action (Site σ ω) (List Failure) := fun s =>
  match p.exactSizeIfKnown s with
  | .error e s => .error e s
  | .ok exact s =>
    match sizeVerdict .exactSizeMismatch "exactSizeIfKnown()" count exact with
    | .error e => .error e s
    | .ok found =>
      match examineParts p estimate s with
      | .error e s => .error e s
      | .ok more s => .ok (found ++ more) s

def examineSizes (p : Protocol σ ω Value) (count : Value) : Action (Site σ ω) (List Failure) :=
  fun s =>
    match p.estimateSize s with
    | .error e s => .error e s
    | .ok estimate s =>
      match sizeVerdict .sizeMismatch "estimateSize()" count estimate with
      | .error e => .error e s
      | .ok found =>
        match examineExact p count estimate s with
        | .error e s => .error e s
        | .ok more s => .ok (found ++ more) s

def estimateSize : Check σ ω where
  name := "estimateSize"
  description := "SIZED sources report the exact count; SUBSIZED splits preserve it"
  run := fun c w =>
    match c.subject.splitSource w with
    | .error e w => .error (.threw e) w
    | .ok own w =>
      match c.protocol.hasCharacteristics (.ofFlag .sized) ⟨own, w⟩ with
      | .error e s => .error (.threw e) s.shared
      | .ok false s => .ok [] s.shared
      | .ok true s =>
        match c.subject.size s.shared with
        | .error e w => .error (.threw e) w
        | .ok count w =>
          match examineSizes c.protocol count ⟨s.own, w⟩ with
          | .error e s => .error (.threw e) s.shared
          | .ok failures s => .ok failures s.shared

def undeclared (name : String) (flag : Characteristic) (code : FailureCode)
    (message : String → String) (c : CheckContext σ ω) : Activity ω (List Failure) := fun w =>
  match askFresh c.subject c.protocol.characteristics w with
  | .error e w => .error (.threw e) w
  | .ok declared w =>
    match Characteristics.ofValue declared with
    | .error e => .error (.threw e) w
    | .ok set =>
      if set.contains flag then
        .ok [{ check := name
               code
               expected := some (.string (flag.name ++ " absent"))
               actual := some (.string set.format)
               message := message c.subject.name }] w
      else .ok [] w

def nullable : Check σ ω where
  name := "nullable"
  description := "a collection that allows nulls does not declare NONNULL"
  requires := some [.allowsNullValues]
  absentSizes := some [.zero]
  run := undeclared "nullable" .nonnull .nonnullDeclared fun subject =>
    s!"source declares NONNULL but {subject} allows null elements"

def notImmutable (name : String) (feature : Feature) (operation : String) : Check σ ω where
  name
  description := s!"a collection that supports {operation} does not declare IMMUTABLE"
  requires := some [feature]
  run := undeclared name .immutable .immutableDeclared fun subject =>
    s!"source declares IMMUTABLE but {subject} supports {operation}"

def notImmutableWhenAddSupported : Check σ ω :=
  notImmutable "notImmutableWhenAddSupported" .supportsAdd "add"

def notImmutableWhenRemoveSupported : Check σ ω :=
  notImmutable "notImmutableWhenRemoveSupported" .supportsRemove "remove"

def all : List (Check σ ω) :=
  [elements, knownOrder, comparator, estimateSize, nullable, notImmutableWhenAddSupported,
    notImmutableWhenRemoveSupported]

def named? (name : String) : Option (Check σ ω) := all.find? (·.name == name)

end BuiltIn
end SplitTraversal
