import SplitTraversal.Source.Indexed

/-! What holds of every indexed source that its constructor accepts, and goes on to hold while its
positions are consumed and its range is divided. -/

namespace SplitTraversal

namespace Number

theorem safeInteger?_integer {i : Int} (small : i.natAbs ≤ maxSafe) :
    (integer i).safeInteger? = some i := by
  have whole : (integer i).shape.whole? = some i := by
    simp only [shape, Shape.whole?, Int.le_refl, if_true, Int.toNat_zero, Nat.shiftLeft_zero,
      signed]
    by_cases negative : i < 0
    · simp only [negative, decide_true, if_true]
      congr 1
      omega
    · simp only [negative, decide_false, Bool.false_eq_true, if_false]
      congr 1
      omega
  simp only [safeInteger?, whole, if_pos small]

@[simp] theorem safeInteger?_minusZero : minusZero.safeInteger? = some 0 := by
  decide +kernel

theorem natAbs_le_of_safeInteger? {n : Number} {i : Int} (h : n.safeInteger? = some i) :
    i.natAbs ≤ maxSafe := by
  unfold safeInteger? at h
  split at h
  · split at h
    · cases h
      assumption
    · cases h
  · cases h

end Number

namespace Indexed

variable {ω α : Type}

/-- The range lies within the safe whole numbers, the declared flags include those of every indexed
source, and only an empty source from zero on has a limit with a minus sign. -/
structure Accepted (s : Indexed ω α) : Prop where
  offset_le : s.offset ≤ s.limit
  limit_le : s.limit ≤ Number.maxSafe
  flags : s.characteristics.union sizedFlags = s.characteristics
  minusZero : s.minusZero = true → s.limit = 0

theorem requireOffset_le {length offset : Value} {limit start : Nat} {zero : Number}
    (h : requireOffset length limit offset = .ok (start, zero)) : start ≤ limit := by
  have refused (v w : Value) :
      (outside v w : Except Thrown (Nat × Number)) ≠ .ok (start, zero) := by
    unfold outside
    cases v.text with
    | error e => simp
    | ok limit => cases w.text <;> simp
  unfold requireOffset at h
  split at h
  · split at h
    · exact absurd h (refused _ _)
    · split at h
      · exact absurd h (refused _ _)
      · cases h
        omega
  · exact absurd h (refused _ _)

theorem requireCount_eq {subject : String} {v : Value} {count : Nat}
    (h : requireCount subject v = .ok count) :
    v.safeInteger? = some (count : Int) ∧ count ≤ Number.maxSafe := by
  unfold requireCount at h
  split at h
  · rename_i i found
    cases h
    obtain ⟨safe, natural⟩ := Option.filter_eq_some_iff.mp found
    have natural : 0 ≤ i := by simpa using natural
    refine ⟨by rw [safe, Int.toNat_of_nonneg natural], ?_⟩
    cases v with
    | number n =>
      have := Number.natAbs_le_of_safeInteger? safe
      omega
    | _ => cases safe
  · split at h <;> cases h

theorem limit_eq_zero {subject : String} {v : Value} {count : Nat}
    (h : requireCount subject v = .ok count) (minus : isMinusZero v = true) : count = 0 := by
  have safe := (requireCount_eq h).1
  cases v with
  | number n =>
    have zero : n = Number.minusZero := by simpa [isMinusZero, Number.isMinusZero] using minus
    rw [zero, Value.safeInteger?, Number.safeInteger?_minusZero] at safe
    simpa using safe.symm
  | _ => cases safe

theorem create_eq {length : Value} {index : Number → Action ω α} {options : Option (Options α)}
    {s : Indexed ω α} (accepted : create length (some index) options = .ok s) :
    requireCount "IndexedSource: length" length = .ok s.limit ∧ s.offset ≤ s.limit ∧
      (∃ declared : Characteristics, s.characteristics = declared.union sizedFlags) ∧
      (s.minusZero = true → isMinusZero length = true) := by
  unfold create at accepted
  split at accepted
  · cases accepted
  · cases accepted
  · rename_i limit options counted
    split at accepted
    · cases accepted
    · rename_i offset zero within
      cases flags : Characteristics.ofValue options.characteristics with
      | error e => simp only [flags, reduceCtorEq] at accepted
      | ok declared =>
        simp only [flags, Except.ok.injEq] at accepted
        subst accepted
        refine ⟨counted, requireOffset_le within, ⟨declared, rfl⟩, fun minus => ?_⟩
        exact (Bool.and_eq_true_iff.mp minus).1

theorem create_accepted {length : Value} {index : Number → Action ω α}
    {options : Option (Options α)} {s : Indexed ω α}
    (accepted : create length (some index) options = .ok s) : s.Accepted := by
  obtain ⟨counted, within, ⟨declared, flags⟩, minus⟩ := create_eq accepted
  refine ⟨within, (requireCount_eq counted).2, ?_, fun h => limit_eq_zero counted (minus h)⟩
  rw [flags, Characteristics.union_assoc, Characteristics.union_self]

theorem requireCount_int {subject : String} {count : Nat} (small : count ≤ Number.maxSafe) :
    requireCount subject (.int count) = .ok count := by
  have safe : (Value.int count).safeInteger? = some (count : Int) :=
    Number.safeInteger?_integer (by simpa using small)
  have natural : (some (count : Int)).filter (0 ≤ ·) = some (count : Int) := by simp
  simp only [requireCount, safe, natural, Int.toNat_natCast]

theorem requireOffset_int {length : Value} {limit start : Nat} (within : start ≤ limit)
    (small : limit ≤ Number.maxSafe) :
    requireOffset length limit (.int start) = .ok (start, .integer start) := by
  have safe : (Number.integer start).safeInteger? = some (start : Int) :=
    Number.safeInteger?_integer (by simpa using Nat.le_trans within small)
  have inside : ¬((start : Int) < 0 ∨ (limit : Int) < start) := by omega
  simp only [requireOffset, Value.int, safe, if_neg inside, Int.toNat_natCast]

theorem create_int {limit start : Nat} (within : start ≤ limit) (small : limit ≤ Number.maxSafe)
    (index : Number → Action ω α) (flags : Characteristics) (order : Option (Comparator α)) :
    create (.int limit) (some index) (some ⟨flags.toValue, .int start, order⟩) =
      .ok ⟨fun i => index (.integer i), start, limit, flags.union sizedFlags, order, false⟩ := by
  have given (i : Int) : (Value.int i).isNullish = false := rfl
  have plus (i : Int) : (Number.integer i).isMinusZero = false := rfl
  have length (i : Int) : isMinusZero (.int i) = false := rfl
  simp only [create, requireCount_int small, given, Bool.false_eq_true, if_false,
    requireOffset_int within small, Characteristics.ofValue_toValue, plus, and_false, length,
    Bool.false_and]

theorem split_cases (s : Indexed ω α) :
    (s.limit < s.offset + 2 ∧ s.split = (none, s)) ∨
      ∃ mid, s.offset < mid ∧ mid < s.limit ∧
        s.split = (some { s with limit := mid }, { s with offset := mid }) := by
  by_cases few : s.limit < s.offset + 2
  · left
    have none := (split_eq_none_iff s).mpr few
    exact ⟨few, Prod.ext none (split_snd_of_none none)⟩
  · right
    refine ⟨s.offset + (s.limit - s.offset) / 2, by omega, by omega, ?_⟩
    simp only [split, if_neg (show ¬s.offset + (s.limit - s.offset) / 2 ≤ s.offset by omega)]

theorem trySplit_cases (s : Indexed ω α) (w : ω) :
    protocol.trySplit ⟨s, w⟩ = .ok none ⟨s, w⟩ ∨
      ∃ mid, s.offset < mid ∧ mid < s.limit ∧ protocol.trySplit ⟨s, w⟩ =
        .ok (some { s with limit := mid }) ⟨{ s with offset := mid }, w⟩ := by
  rcases split_cases s with ⟨_, cut⟩ | ⟨mid, left, right, cut⟩
  · left
    simp only [protocol, trySplit, cut]
  · right
    refine ⟨mid, left, right, ?_⟩
    simp only [protocol, trySplit, cut]

/-- The index function over the numbers that positions are. The other zero stands for position
zero. -/
def indexFunction (s : Indexed ω α) : Number → Action ω α
  | .integer i => s.read i.toNat
  | .double _ => s.read 0

namespace Accepted

variable {s : Indexed ω α} {mid : Nat}

theorem plus (accepted : s.Accepted) (some : 0 < s.limit) : s.minusZero = false := by
  cases h : s.minusZero with
  | false => rfl
  | true => have := accepted.minusZero h; omega

/-- The constructor accepts what a split hands to it, and gives the piece. -/
theorem create_piece (accepted : s.Accepted) (after : s.offset < mid) (before : mid < s.limit) :
    create (.int mid) (some s.indexFunction)
      (some ⟨s.characteristics.toValue, .int s.offset, s.order⟩) = .ok { s with limit := mid } := by
  have small := accepted.limit_le
  rw [create_int (by omega) (by omega), accepted.flags, ← accepted.plus (by omega)]
  rfl

theorem piece (accepted : s.Accepted) (after : s.offset < mid) (before : mid < s.limit) :
    ({ s with limit := mid } : Indexed ω α).Accepted where
  offset_le := Nat.le_of_lt after
  limit_le := Nat.le_trans (Nat.le_of_lt before) accepted.limit_le
  flags := accepted.flags
  minusZero h := by
    have := accepted.minusZero h
    omega

/-- The rest of a split, and what is left when positions have been consumed. -/
theorem rest (accepted : s.Accepted) (within : mid ≤ s.limit) :
    ({ s with offset := mid } : Indexed ω α).Accepted where
  offset_le := within
  limit_le := accepted.limit_le
  flags := accepted.flags
  minusZero := accepted.minusZero

end Accepted
end Indexed
end SplitTraversal
