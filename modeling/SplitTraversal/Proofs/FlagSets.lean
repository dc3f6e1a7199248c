import Mathlib.Data.Int.Bitwise
import SplitTraversal.Characteristics

/-! Sets of flags as sets of bits. Numbers are combined bit by bit, whatever they are: a fraction is
cut at the point, and no bit beyond the first 32 counts. Having all flags of a set, the names that a
set is described by and the text that it is shown as are told by the bits alone. -/

namespace SplitTraversal

namespace Number

/-- Whether a number, cut at the point and written in two's complement, has the bit at a place. -/
def bit (n : Number) (place : Nat) : Bool := n.truncated?.any (·.testBit place)

theorem getLsbD_ofInt (width : Nat) (k : Int) (i : Nat) :
    (BitVec.ofInt width k).getLsbD i = (decide (i < width) && k.testBit i) := by
  cases k with
  | ofNat n =>
    rw [Int.ofNat_eq_natCast, BitVec.ofInt_natCast, BitVec.getLsbD_ofNat]
    rfl
  | negSucc n =>
    rw [BitVec.ofInt_negSucc_eq_not_ofNat, BitVec.getLsbD_not, BitVec.getLsbD_ofNat]
    by_cases inside : i < width <;> simp [inside, Int.testBit]

theorem getLsbD_toBits32 (n : Number) (i : Nat) :
    n.toBits32.getLsbD i = (decide (i < 32) && n.bit i) := by
  unfold toBits32 bit
  cases n.truncated? with
  | none => simp
  | some k => exact getLsbD_ofInt 32 k i

end Number

namespace Characteristics

variable {a b set : Characteristics}

theorem bit_toNumber (set : Characteristics) {i : Nat} (inside : i < 32) :
    set.toNumber.bit i = set.bits.getLsbD i := by
  have back : set.toNumber.toBits32 = set.bits := BitVec.ofInt_toInt
  rw [← back, Number.getLsbD_toBits32, decide_eq_true inside, Bool.true_and]

theorem eq_of_bits (same : ∀ i < 32, a.bits.getLsbD i = b.bits.getLsbD i) : a = b := by
  obtain ⟨bits⟩ := a
  exact congrArg mk (BitVec.eq_of_getLsbD_eq same)

theorem eq_of_toNumber (same : a.toNumber = b.toNumber) : a = b := by
  refine eq_of_bits fun i inside => ?_
  rw [← bit_toNumber a inside, ← bit_toNumber b inside, same]

theorem hasAll_iff {flags : Characteristics} :
    set.hasAll flags = true ↔
      ∀ i < 32, flags.bits.getLsbD i = true → set.bits.getLsbD i = true := by
  rw [hasAll, beq_iff_eq]
  constructor
  · intro all i inside here
    rw [← all, inter, BitVec.getLsbD_and, Bool.and_eq_true] at here
    exact here.1
  · intro all
    refine eq_of_bits fun i inside => ?_
    rw [inter, BitVec.getLsbD_and]
    cases here : flags.bits.getLsbD i with
    | false => rw [Bool.and_false]
    | true => rw [all i inside here, Bool.true_and]

theorem hasAllValue_toValue (set flags : Characteristics) :
    hasAllValue set.toValue flags.toValue = .ok (set.hasAll flags) := by
  have back (c : Characteristics) : (⟨c.toNumber.toBits32⟩ : Characteristics) = c :=
    congrArg mk BitVec.ofInt_toInt
  have common : commonValue set.toValue flags.toValue = .ok (set.inter flags).toValue := by
    show Except.ok (inter ⟨set.toNumber.toBits32⟩ ⟨flags.toNumber.toBits32⟩).toValue = _
    rw [back, back]
  have equal :
      (set.inter flags).toValue.strictEquals flags.toValue = (set.inter flags == flags) := by
    rw [Bool.eq_iff_iff, beq_iff_eq]
    show ((set.inter flags).toNumber.same flags.toNumber) = true ↔ _
    rw [toNumber, toNumber, Number.same, beq_iff_eq]
    exact ⟨fun same => eq_of_toNumber (congrArg Number.integer same), fun same => by rw [same]⟩
  rw [hasAllValue, common, Except.map, equal, hasAll]

theorem withValues_numbers (set : Characteristics) (xs : List Number) :
    ∃ combined, set.withValues (xs.map .number) = .ok combined ∧
      ∀ i < 32, combined.bits.getLsbD i = true ↔
        set.bits.getLsbD i = true ∨ ∃ x ∈ xs, x.bit i = true := by
  induction xs generalizing set with
  | nil => exact ⟨set, rfl, fun i _ => by simp⟩
  | cons x xs ih =>
    obtain ⟨combined, made, bits⟩ := ih (set.union ⟨x.toBits32⟩)
    refine ⟨combined, made, fun i inside => ?_⟩
    rw [bits i inside, union, BitVec.getLsbD_or, Number.getLsbD_toBits32, decide_eq_true inside,
      Bool.true_and, Bool.or_eq_true, or_assoc]
    simp only [List.mem_cons, exists_eq_or_imp]

/-- What a list of numbers is combined to: a signed 32-bit number whose bits are those of any of the
numbers. -/
structure Combines (xs : List Number) (set : Characteristics) : Prop where
  combined : ofValues (xs.map .number) = .ok set
  signed : ∃ k : Int, set.toNumber = .integer k ∧ -2147483648 ≤ k ∧ k ≤ 2147483647
  bits : ∀ i < 32, set.toNumber.bit i = true ↔ ∃ x ∈ xs, x.bit i = true

theorem toNumber_signed (set : Characteristics) :
    ∃ k : Int, set.toNumber = .integer k ∧ -2147483648 ≤ k ∧ k ≤ 2147483647 := by
  have least := BitVec.le_toInt set.bits
  have most := BitVec.toInt_lt (x := set.bits)
  refine ⟨set.bits.toInt, rfl, ?_, ?_⟩ <;> omega

theorem exists_combines (xs : List Number) : ∃ set, Combines xs set := by
  obtain ⟨set, made, bits⟩ := withValues_numbers none xs
  refine ⟨set, made, toNumber_signed set, fun i inside => ?_⟩
  rw [bit_toNumber set inside, bits i inside]
  simp [none]

theorem combines_toNumber (set : Characteristics) : Combines [set.toNumber] set := by
  obtain ⟨again, combines⟩ := exists_combines [set.toNumber]
  have equal : again = set := by
    refine eq_of_bits fun i inside => Bool.eq_iff_iff.mpr ?_
    rw [← bit_toNumber again inside, combines.bits i inside, ← bit_toNumber set inside]
    simp only [List.mem_singleton, exists_eq_left]
  rwa [equal] at combines

namespace Combines

variable {xs ys : List Number}

theorem getLsbD_iff (combines : Combines xs set) {i : Nat} (inside : i < 32) :
    set.bits.getLsbD i = true ↔ ∃ x ∈ xs, x.bit i = true := by
  rw [← bit_toNumber set inside, combines.bits i inside]

theorem unique (left : Combines xs a) (right : Combines ys b)
    (same : ∀ i < 32, (∃ x ∈ xs, x.bit i = true) ↔ ∃ y ∈ ys, y.bit i = true) : a = b := by
  refine eq_of_bits fun i inside => Bool.eq_iff_iff.mpr ?_
  rw [left.getLsbD_iff inside, right.getLsbD_iff inside, same i inside]

theorem append (left : Combines xs a) (right : Combines ys b) :
    Combines (xs ++ ys) (a.union b) := by
  obtain ⟨set, both⟩ := exists_combines (xs ++ ys)
  have union : set = a.union b := by
    refine eq_of_bits fun i inside => Bool.eq_iff_iff.mpr ?_
    rw [both.getLsbD_iff inside, Characteristics.union, BitVec.getLsbD_or, Bool.or_eq_true,
      left.getLsbD_iff inside, right.getLsbD_iff inside]
    simp only [List.mem_append, or_and_right, exists_or]
  rwa [union] at both

theorem of_mem_iff (combines : Combines xs set) (same : ∀ n, n ∈ ys ↔ n ∈ xs) :
    Combines ys set := by
  obtain ⟨set', other⟩ := exists_combines ys
  have equal : set' = set := other.unique combines fun i _ => by simp only [same]
  rwa [equal] at other

theorem hasAll_iff (left : Combines xs a) (right : Combines ys b) :
    a.hasAll b = true ↔ ∀ i < 32, (∃ y ∈ ys, y.bit i = true) → ∃ x ∈ xs, x.bit i = true := by
  rw [Characteristics.hasAll_iff]
  refine forall₂_congr fun i inside => ?_
  rw [right.getLsbD_iff inside, left.getLsbD_iff inside]

theorem hasAll_each (left : Combines xs a) (right : Combines ys b) :
    a.hasAll b = true ↔
      ∀ y ∈ ys, ∃ c, Combines [y] c ∧ hasAllValue a.toValue c.toValue = .ok true := by
  rw [left.hasAll_iff right]
  constructor
  · intro all y here
    obtain ⟨c, single⟩ := exists_combines [y]
    refine ⟨c, single, ?_⟩
    rw [hasAllValue_toValue, (left.hasAll_iff single).mpr]
    rintro i inside ⟨y', only, bit⟩
    rw [List.mem_singleton.mp only] at bit
    exact all i inside ⟨y, here, bit⟩
  · rintro each i inside ⟨y, here, bit⟩
    obtain ⟨c, single, found⟩ := each y here
    rw [hasAllValue_toValue, Except.ok.injEq] at found
    exact (left.hasAll_iff single).mp found i inside ⟨y, List.mem_singleton_self y, bit⟩

end Combines

section Names

theorem position_lt (c : Characteristic) : c.position < 32 := by cases c <;> decide

theorem getLsbD_ofFlag (c : Characteristic) (i : Nat) :
    (ofFlag c).bits.getLsbD i = decide (c.position = i) := by
  have flag : (ofFlag c).bits = BitVec.twoPow 32 c.position := by cases c <;> rfl
  rw [flag, BitVec.getLsbD_twoPow, decide_eq_true (position_lt c), Bool.true_and]

theorem contains_eq (set : Characteristics) (c : Characteristic) :
    set.contains c = set.bits.getLsbD c.position := by
  have flag : (ofFlag c).bits = BitVec.twoPow 32 c.position := by cases c <;> rfl
  have some : BitVec.twoPow 32 c.position ≠ 0#32 := by cases c <;> decide
  rw [contains, flag, BitVec.and_twoPow]
  cases set.bits.getLsbD c.position with
  | true => exact bne_iff_ne.mpr some
  | false => rfl

def flags (set : Characteristics) : List Characteristic :=
  Characteristic.all.filter set.contains

theorem names_eq (set : Characteristics) : set.names = set.flags.map Characteristic.name := rfl

theorem mem_flags {c : Characteristic} : c ∈ set.flags ↔ set.contains c = true := by
  have known : c ∈ Characteristic.all := by cases c <;> decide
  rw [flags, List.mem_filter, and_iff_right known]

theorem flags_ascending (set : Characteristics) :
    set.flags.Pairwise fun c d => c.position < d.position := by
  have all : Characteristic.all.Pairwise fun c d => c.position < d.position := by decide
  exact all.filter _

theorem name_injective {c d : Characteristic} (same : c.name = d.name) : c = d := by
  revert same
  cases c <;> cases d <;> decide

def vocabulary : Characteristics := ofFlags Characteristic.all

theorem getLsbD_vocabulary {i : Nat} (inside : i < 32) :
    vocabulary.bits.getLsbD i = true ↔ ∃ c : Characteristic, c.position = i := by
  have each : ∀ i < 32, vocabulary.bits.getLsbD i = true ↔
      ∃ c ∈ Characteristic.all, c.position = i := by decide
  rw [each i inside]
  exact ⟨fun ⟨c, _, here⟩ => ⟨c, here⟩, fun ⟨c, here⟩ => ⟨c, by cases c <;> decide, here⟩⟩

theorem flags_combines (set : Characteristics) :
    Combines (set.flags.map fun c => (ofFlag c).toNumber) (set.inter vocabulary) := by
  obtain ⟨again, combines⟩ := exists_combines (set.flags.map fun c => (ofFlag c).toNumber)
  have named : again = set.inter vocabulary := by
    refine eq_of_bits fun i inside => Bool.eq_iff_iff.mpr ?_
    rw [combines.getLsbD_iff inside, inter, BitVec.getLsbD_and, Bool.and_eq_true,
      getLsbD_vocabulary inside]
    simp only [List.mem_map, exists_exists_and_eq_and, mem_flags, contains_eq,
      bit_toNumber _ inside, getLsbD_ofFlag, decide_eq_true_eq]
    constructor
    · rintro ⟨c, here, rfl⟩
      exact ⟨here, c, rfl⟩
    · rintro ⟨here, c, rfl⟩
      exact ⟨c, here, rfl⟩
  rwa [named] at combines

end Names

section Text

/-- Names without a blank can be read off the text that shows them. -/
theorem splitOn_intercalate {names : List String} (some : names ≠ [])
    (plain : ∀ name ∈ names, ' ' ∉ name.toList ∧ name.toList ≠ ['|']) :
    ((" | ".intercalate names).toList.splitOn ' ').filter (· ≠ ['|']) =
      names.map String.toList := by
  induction names with
  | nil => exact absurd rfl some
  | cons name rest ih =>
    rw [List.forall_mem_cons] at plain
    obtain ⟨⟨unbroken, word⟩, others⟩ := plain
    cases rest with
    | nil =>
      rw [String.intercalate_singleton, List.splitOn_eq_singleton unbroken]
      simpa using word
    | cons next rest =>
      have text : (" | ".intercalate (name :: next :: rest)).toList =
          name.toList ++ ' ' :: (['|'] ++ ' ' :: (" | ".intercalate (next :: rest)).toList) := by
        rw [String.intercalate_cons_cons, String.toList_append, String.toList_append]
        simp
      rw [text, List.splitOn_append_cons_self_of_not_mem unbroken,
        List.splitOn_append_cons_self_of_not_mem (by decide), List.filter_cons_of_pos (by simpa),
        List.filter_cons_of_neg (by decide), ih (List.cons_ne_nil _ _) others]
      rfl

def words (set : Characteristics) : List String :=
  if set.names = [] then ["none"] else set.names

theorem format_eq (set : Characteristics) : set.format = " | ".intercalate set.words := by
  unfold format words
  cases set.names with
  | nil => rfl
  | cons name rest => rfl

theorem words_plain (set : Characteristics) :
    set.words ≠ [] ∧ ∀ word ∈ set.words, ' ' ∉ word.toList ∧ word.toList ≠ ['|'] := by
  have plain (c : Characteristic) : ' ' ∉ c.name.toList ∧ c.name.toList ≠ ['|'] := by
    cases c <;> decide
  unfold words
  split
  · decide
  · refine ⟨‹_›, fun word here => ?_⟩
    rw [names_eq, List.mem_map] at here
    obtain ⟨c, -, rfl⟩ := here
    exact plain c

theorem names_of_words (same : a.words = b.words) : a.names = b.names := by
  have named (set : Characteristics) : "none" ∉ set.names := by
    rw [names_eq, List.mem_map]
    rintro ⟨c, -, none⟩
    revert none
    cases c <;> decide
  unfold words at same
  split at same <;> split at same
  · rename_i left right
    rw [left, right]
  · rename_i left right
    exact absurd (same ▸ List.mem_singleton_self "none") (named b)
  · rename_i left right
    exact absurd (same ▸ List.mem_singleton_self "none") (named a)
  · exact same

theorem names_eq_iff : a.names = b.names ↔ ∀ c, a.contains c = b.contains c := by
  constructor
  · intro same c
    have flags : a.flags = b.flags :=
      (List.map_inj_right fun _ _ => name_injective).mp same
    rw [Bool.eq_iff_iff, ← mem_flags, flags, mem_flags]
  · intro same
    rw [names_eq, names_eq, Characteristics.flags, Characteristics.flags, funext same]

theorem format_eq_iff : a.format = b.format ↔ ∀ c, a.contains c = b.contains c := by
  rw [← names_eq_iff]
  constructor
  · intro same
    rw [format_eq, format_eq] at same
    have left := splitOn_intercalate a.words_plain.1 a.words_plain.2
    rw [same, splitOn_intercalate b.words_plain.1 b.words_plain.2] at left
    exact names_of_words ((List.map_inj_right fun _ _ => String.toList_inj.mp).mp left.symm)
  · intro same
    rw [format, format, same]

end Text

/-- What the sets `a` and `b` that two lists of numbers are combined to have to do with the bits of
these numbers. -/
structure Faithful (xs ys : List Number) (a b : Characteristics) : Prop where
  left : Combines xs a
  right : Combines ys b
  append : Combines (xs ++ ys) (a.union b)
  union : ofValues [a.toValue, b.toValue] = .ok (a.union b)
  /-- Neither the order of the numbers nor how often each of them comes makes a difference. -/
  same (zs : List Number) (elements : ∀ n, n ∈ zs ↔ n ∈ xs) : Combines zs a
  hasAll : ∃ all, hasAllValue a.toValue b.toValue = .ok all ∧
    (all = true ↔ ∀ i < 32, (∃ y ∈ ys, y.bit i = true) → ∃ x ∈ xs, x.bit i = true) ∧
    (all = true ↔ ∀ y ∈ ys, ∃ c, Combines [y] c ∧ hasAllValue a.toValue c.toValue = .ok true)
  names : ∃ flags : List Characteristic,
    (ofValue a.toValue).map Characteristics.names = .ok (flags.map Characteristic.name) ∧
    (flags.Pairwise fun c d => c.position < d.position) ∧
    (∀ c, c ∈ flags ↔ ∃ x ∈ xs, x.bit c.position = true) ∧
    Combines (flags.map fun c => (ofFlag c).toNumber) (a.inter vocabulary)
  format : (ofValue a.toValue).map Characteristics.format =
      (ofValue b.toValue).map Characteristics.format ↔
    ∀ c : Characteristic, a.toNumber.bit c.position = b.toNumber.bit c.position

/-- Sets of flags are faithful to the bits of the numbers that they are combined of. -/
theorem exists_faithful (xs ys : List Number) : ∃ a b, Faithful xs ys a b := by
  obtain ⟨a, left⟩ := exists_combines xs
  obtain ⟨b, right⟩ := exists_combines ys
  have numbers := (combines_toNumber a).append (combines_toNumber b)
  refine ⟨a, b, left, right, left.append right, numbers.combined, fun zs => left.of_mem_iff,
    ?_, ?_, ?_⟩
  · refine ⟨a.hasAll b, hasAllValue_toValue a b, left.hasAll_iff right,
      left.hasAll_each right⟩
  · refine ⟨a.flags, by rw [ofValue_toValue]; rfl, a.flags_ascending, fun c => ?_, a.flags_combines⟩
    rw [mem_flags, contains_eq, left.getLsbD_iff (position_lt c)]
  · rw [ofValue_toValue, ofValue_toValue]
    show Except.ok a.format = Except.ok b.format ↔ _
    rw [Except.ok.injEq, format_eq_iff]
    simp only [contains_eq, bit_toNumber _ (position_lt _)]

/-- Four and a half, more than 32 bits and less than any number come to two named flags, in any order
and however often. -/
theorem exists_faithful_fractions :
    let xs : List Number := [.double 0x4012000000000000, .integer 4294967360, .infinity true]
    let zs := xs ++ xs.reverse
    (∀ n, n ∈ zs ↔ n ∈ xs) ∧
      ∃ a b, Faithful xs [.integer (-2147483648)] a b ∧ ofValues (zs.map .number) = .ok a ∧
        a.format = "SORTED | SIZED" ∧ b.toNumber = .integer (-2147483648) ∧
        a.hasAll b = false := by
  intro xs zs
  have elements : ∀ n, n ∈ zs ↔ n ∈ xs := fun n => by
    rw [List.mem_append, List.mem_reverse, or_self]
  obtain ⟨a, b, faithful⟩ := exists_faithful xs [.integer (-2147483648)]
  have again := (faithful.same zs elements).combined
  have first : ofValues (xs.map .number) = .ok ⟨68⟩ := rfl
  have second : ofValues ([Number.integer (-2147483648)].map .number) = .ok ⟨0x80000000⟩ := rfl
  cases first.symm.trans faithful.left.combined
  cases second.symm.trans faithful.right.combined
  exact ⟨elements, _, _, faithful, again, by decide, by decide, by decide⟩

end Characteristics
end SplitTraversal
