import Mathlib.Data.List.Chain
import SplitTraversal.Proofs.ComparatorSigns

/-! The laws of natural order on all values. Two values of one kind compare, and any other two are
refused. Being at most something is transitive through every value but NaN and invalid dates, which
tie with all of their kind. So a list of one kind is found in order just where each element is at
most every later one that it is not separated from by such a value. -/

namespace SplitTraversal

namespace Comparator

variable {α : Type} {compare : Comparator α} {a b : α} {sign : Ordering} {xs : List α}

def AtMost (compare : Comparator α) (a b : α) : Prop :=
  ∃ sign, compare.Answers a b sign ∧ sign.isLE = true

theorem Answers.atMost_iff (answers : compare.Answers a b sign) :
    compare.AtMost a b ↔ sign.isLE = true := by
  constructor
  · rintro ⟨other, also, atMost⟩
    rwa [answers.unique also]
  · intro atMost
    exact ⟨sign, answers, atMost⟩

/-- Only neighbours are compared. -/
theorem exists_isOrdered (total : ∀ a ∈ xs, ∀ b ∈ xs, ∃ sign, compare.Answers a b sign) :
    ∃ ordered, compare.isOrdered xs = .ok ordered ∧
      (ordered = true ↔ xs.IsChain compare.AtMost) := by
  induction xs with
  | nil => exact ⟨true, rfl, iff_of_true rfl .nil⟩
  | cons a xs ih =>
    cases xs with
    | nil => exact ⟨true, rfl, iff_of_true rfl (.singleton a)⟩
    | cons b rest =>
      obtain ⟨sign, answers⟩ := total a (List.mem_cons_self ..) b
        (List.mem_cons_of_mem a (List.mem_cons_self ..))
      have follows := answers.follows_eq
      rw [List.isChain_cons_cons, answers.atMost_iff]
      cases sign with
      | gt =>
        refine ⟨false, ?_, iff_of_false Bool.false_ne_true fun chain => ?_⟩
        · simp only [isOrdered, follows]
          rfl
        · cases chain.1
      | lt | eq =>
        obtain ⟨ordered, told, chain⟩ := ih fun x here y there =>
          total x (List.mem_cons_of_mem a here) y (List.mem_cons_of_mem a there)
        refine ⟨ordered, ?_, chain.trans (and_iff_right rfl).symm⟩
        simp only [isOrdered, follows]
        exact told

end Comparator

section Chains

variable {α : Type} {R : α → α → Prop} {through : α → Prop} {xs : List α}

/-- Everything strictly between two positions of a list is such. -/
def AllBetween (through : α → Prop) (xs : List α) (i j : Nat) : Prop :=
  ∀ k v, i < k → k < j → xs[k]? = some v → through v

theorem AllBetween.shorten {i j j' : Nat} (between : AllBetween through xs i j) (upto : j' ≤ j) :
    AllBetween through xs i j' :=
  fun k v after before here => between k v after (Nat.lt_of_lt_of_le before upto) here

/-- A relation of neighbours that is transitive through some elements reaches as far as these go. -/
theorem isChain_iff_between
    (trans : ∀ {a b c}, through b → R a b → R b c → R a c) :
    xs.IsChain R ↔ ∀ i j a b, i < j → xs[i]? = some a → xs[j]? = some b →
      AllBetween through xs i j → R a b := by
  rw [List.isChain_iff_getElem]
  constructor
  · intro neighbours i j a b less left right between
    induction j generalizing b with
    | zero => exact absurd less (Nat.not_lt_zero i)
    | succ j ih =>
      obtain ⟨inside, rfl⟩ := List.getElem?_eq_some_iff.mp right
      by_cases last : i = j
      · subst last
        obtain ⟨_, rfl⟩ := List.getElem?_eq_some_iff.mp left
        exact neighbours i inside
      · have here : xs[j]? = some xs[j] := List.getElem?_eq_getElem (by omega)
        have before := ih xs[j] (by omega) here (between.shorten (Nat.le_succ j))
        have middle := between j xs[j] (by omega) (Nat.lt_succ_self j) here
        exact trans middle before (neighbours j inside)
  · intro reach i inside
    refine reach i (i + 1) _ _ (Nat.lt_succ_self i) (List.getElem?_eq_getElem _)
      (List.getElem?_eq_getElem inside) ?_
    intro k _ after before
    omega

end Chains

namespace Value

variable {a b c : Value}

theorem naturalOrder_strange (strange : kindred a b = false) :
    naturalOrder a b =
      .error (violation (.incomparable (naturalOrder.operand a) (naturalOrder.operand b))) := by
  cases a <;> cases b <;> first | rfl | cases strange

theorem atMost_iff : naturalOrder.AtMost a b ↔ kindred a b = true ∧ before b a = false := by
  constructor
  · rintro ⟨sign, answers, atMost⟩
    obtain ⟨kin, rfl⟩ := naturalOrder_answers_iff.mp answers
    exact ⟨kin, naturalSign_isLE_iff.mp atMost⟩
  · rintro ⟨kin, notLess⟩
    exact ⟨_, naturalOrder_answers_iff.mpr ⟨kin, rfl⟩, naturalSign_isLE_iff.mpr notLess⟩

theorem ties_iff :
    naturalOrder.Answers a b .eq ↔ naturalOrder.AtMost a b ∧ naturalOrder.AtMost b a := by
  rw [naturalOrder_answers_iff, atMost_iff, atMost_iff, kindred_symm b a, naturalSign]
  cases before a b <;> cases before b a <;> simp

theorem atMost_trans (rank : hasRank b = true) (below : naturalOrder.AtMost a b)
    (above : naturalOrder.AtMost b c) : naturalOrder.AtMost a c := by
  rw [atMost_iff] at below above ⊢
  refine ⟨kindred_trans below.1 above.1, Bool.eq_false_iff.mpr fun less => ?_⟩
  rcases before_or_before rank ((kindred_symm c b).trans above.1) less with back | back
  · cases back.symm.trans above.2
  · cases back.symm.trans below.2

theorem tie_trans (rank : hasRank b = true) (below : naturalOrder.Answers a b .eq)
    (above : naturalOrder.Answers b c .eq) : naturalOrder.Answers a c .eq := by
  rw [ties_iff] at below above ⊢
  exact ⟨atMost_trans rank below.1 above.1, atMost_trans rank above.2 below.2⟩

theorem hasRank_of_before (less : before a b = true) : hasRank a = true ∧ hasRank b = true := by
  unfold before at less
  split at less
  · obtain ⟨i, j, left, right, _⟩ := Number.lt_iff.mp less
    simp only [hasRank, left, right, Option.isSome_some, and_self]
  · exact ⟨rfl, rfl⟩
  · exact ⟨rfl, rfl⟩
  · exact ⟨rfl, rfl⟩
  · rename_i s _ t _
    cases s <;> cases t <;> first | cases less | exact ⟨rfl, rfl⟩
  · cases less

theorem ties_of_unranked (kin : kindred a b = true)
    (unranked : hasRank a = false ∨ hasRank b = false) : naturalOrder.Answers a b .eq := by
  have notBefore {x y : Value} (unranked : hasRank x = false ∨ hasRank y = false) :
      before x y = false := by
    refine Bool.eq_false_iff.mpr fun less => ?_
    obtain ⟨left, right⟩ := hasRank_of_before less
    rcases unranked with none | none
    · cases left.symm.trans none
    · cases right.symm.trans none
  refine naturalOrder_answers_iff.mpr ⟨kin, ?_⟩
  rw [naturalSign, notBefore unranked, notBefore unranked.symm]
  rfl

/-- Order reaches past what has no rank only where it holds anyway. -/
theorem atMost_trans_iff (left : kindred a b = true) (right : kindred b c = true) :
    (naturalOrder.AtMost a b → naturalOrder.AtMost b c → naturalOrder.AtMost a c) ↔
      hasRank b = true ∨ naturalOrder.AtMost a c := by
  constructor
  · intro reach
    cases rank : hasRank b with
    | true => exact .inl rfl
    | false =>
      have below := (ties_iff.mp (ties_of_unranked left (.inr rank))).1
      have above := (ties_iff.mp (ties_of_unranked right (.inl rank))).1
      exact .inr (reach below above)
  · rintro (rank | atMost) below above
    · exact atMost_trans rank below above
    · exact atMost

theorem tie_trans_iff (left : kindred a b = true) (right : kindred b c = true) :
    (naturalOrder.Answers a b .eq → naturalOrder.Answers b c .eq → naturalOrder.Answers a c .eq) ↔
      hasRank b = true ∨ naturalOrder.Answers a c .eq := by
  constructor
  · intro reach
    cases rank : hasRank b with
    | true => exact .inl rfl
    | false =>
      exact .inr (reach (ties_of_unranked left (.inr rank)) (ties_of_unranked right (.inl rank)))
  · rintro (rank | tie) below above
    · exact tie_trans rank below above
    · exact tie

theorem isOrdered_total {kind : Value} {xs : List Value}
    (members : ∀ v ∈ xs, kindred kind v = true) :
    ∀ a ∈ xs, ∀ b ∈ xs, ∃ sign, naturalOrder.Answers a b sign := by
  intro a here b there
  have kin := kindred_trans ((kindred_symm a kind).trans (members a here)) (members b there)
  exact ⟨_, naturalOrder_answers_iff.mpr ⟨kin, rfl⟩⟩

/-- The laws that an order of the values of each kind has, said of three values and a list, where NaN
and invalid dates are compared with the others of their kind. -/
structure OrdersKinds (compare : Comparator Value) (a b c : Value) (xs : List Value) : Prop where
  answers (kin : kindred a b = true) : ∃ sign, compare.Answers a b sign
  refuses (strange : kindred a b = false) :
    ∃ cause, compare a b = .error (violation cause) ∧ cause.kind = .invalidArgument
  swap {sign : Ordering} (answers : compare.Answers a b sign) : compare.Answers b a sign.swap
  unranked (kin : kindred a b = true) (unranked : hasRank a = false ∨ hasRank b = false) :
    compare.Answers a b .eq
  trans (left : kindred a b = true) (right : kindred b c = true) :
    (compare.AtMost a b → compare.AtMost b c → compare.AtMost a c) ↔
      hasRank b = true ∨ compare.AtMost a c
  tie_trans (left : kindred a b = true) (right : kindred b c = true) :
    (compare.Answers a b .eq → compare.Answers b c .eq → compare.Answers a c .eq) ↔
      hasRank b = true ∨ compare.Answers a c .eq
  isOrdered (members : ∀ v ∈ xs, kindred a v = true) :
    ∃ ordered, compare.isOrdered xs = .ok ordered ∧
      (ordered = true ↔ ∀ i j v w, i < j → xs[i]? = some v → xs[j]? = some w →
        AllBetween (hasRank · = true) xs i j → compare.AtMost v w) ∧
      ((∀ v ∈ xs, hasRank v = true) → (ordered = true ↔ xs.Pairwise compare.AtMost))

/-- Natural order is a total order of each kind, but for the values without a rank: they tie with all
of their kind, and order does not reach past them. -/
theorem naturalOrder_ordersKinds (a b c : Value) (xs : List Value) :
    OrdersKinds naturalOrder a b c xs where
  answers kin := ⟨_, naturalOrder_answers_iff.mpr ⟨kin, rfl⟩⟩
  refuses strange := ⟨_, naturalOrder_strange strange, rfl⟩
  swap answers := naturalOrder_consistent.swap trivial trivial answers
  unranked := ties_of_unranked
  trans := atMost_trans_iff
  tie_trans := tie_trans_iff
  isOrdered members := by
    obtain ⟨ordered, told, chain⟩ := Comparator.exists_isOrdered (isOrdered_total members)
    have reach := chain.trans (isChain_iff_between atMost_trans)
    refine ⟨ordered, told, reach, fun ranked => ⟨fun inOrder => ?_, fun sorted => ?_⟩⟩
    · refine List.pairwise_iff_getElem.mpr fun i j here there less => ?_
      refine reach.mp inOrder i j _ _ less (List.getElem?_eq_getElem here)
        (List.getElem?_eq_getElem there) ?_
      exact fun k v _ _ at_k => ranked v (List.mem_of_getElem? at_k)
    · exact chain.mpr sorted.isChain

/-- NaN ties with 2 and with 1, though 2 is more than 1; and a list in which it stands between them
is found in order. -/
theorem naturalOrder_past_nan :
    naturalOrder.Answers (.int 2) (.number .nan) .eq ∧
      naturalOrder.Answers (.number .nan) (.int 1) .eq ∧
      naturalOrder.Answers (.int 2) (.int 1) .gt ∧
      naturalOrder.isOrdered [.int 2, .number .nan, .int 1] = .ok true ∧
      ¬∀ a b c, naturalOrder.AtMost a b → naturalOrder.AtMost b c → naturalOrder.AtMost a c := by
  have first : naturalOrder.Answers (.int 2) (.number .nan) .eq :=
    naturalOrder_answers_iff.mpr ⟨rfl, rfl⟩
  have second : naturalOrder.Answers (.number .nan) (.int 1) .eq :=
    naturalOrder_answers_iff.mpr ⟨rfl, rfl⟩
  have past : naturalOrder.Answers (.int 2) (.int 1) .gt :=
    naturalOrder_answers_iff.mpr ⟨rfl, rfl⟩
  refine ⟨first, second, past, rfl, fun trans => ?_⟩
  have atMost := trans _ _ _ (first.atMost_iff.mpr rfl) (second.atMost_iff.mpr rfl)
  cases past.atMost_iff.mp atMost

end Value
end SplitTraversal
