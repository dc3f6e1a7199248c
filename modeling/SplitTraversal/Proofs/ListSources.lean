import SplitTraversal.Proofs.NodeContract

/-! Indexed sources over the elements of a list, as nodes: they keep the contract, report what the
list holds, and give the comparator that they were made with. -/

namespace SplitTraversal

namespace Characteristics

theorem contains_eq_hasAll (set : Characteristics) (c : Characteristic) :
    set.contains c = set.hasAll (.ofFlag c) := by
  have bit : (ofFlag c).bits = BitVec.twoPow 32 c.position := by cases c <;> rfl
  have some : BitVec.twoPow 32 c.position ≠ 0 := by cases c <;> decide
  have flag : ofFlag c = ⟨BitVec.twoPow 32 c.position⟩ := congrArg mk bit
  rw [Bool.eq_iff_iff, contains, hasAll, inter, bne_iff_ne, beq_iff_eq, flag, mk.injEq,
    BitVec.and_twoPow]
  split
  · exact iff_of_true some rfl
  · exact iff_of_false (fun differ => differ rfl) some.symm

theorem hasAll_union (a : Characteristics) {b flags : Characteristics}
    (all : b.hasAll flags = true) : (a.union b).hasAll flags = true := by
  simp only [hasAll, inter, union, beq_iff_eq] at all ⊢
  obtain ⟨bits⟩ := flags
  rw [mk.injEq] at all ⊢
  rw [BitVec.and_or_distrib_right, all]
  ext i inside
  simp

end Characteristics

namespace Indexed

variable {ω : Type}

def holding (elements : List Value) (flags : Characteristics) (order : Option (Comparator Value)) :
    Indexed ω Value :=
  { ofList elements .undefined flags with order }

def elementAt (elements : List Value) (i : Nat) : Value := elements.toArray[i]?.getD .undefined

variable {elements : List Value} {flags : Characteristics} {order : Option (Comparator Value)}

theorem holding_remaining :
    (view (elementAt elements)).remaining (holding elements flags order : Indexed ω Value) =
      elements := by
  refine List.ext_getElem (view_length.trans (by simp [holding, ofList])) fun i _ inside => ?_
  simp [view, remaining, holding, ofList, elementAt, inside]

theorem holding_obeys (small : elements.length ≤ Number.maxSafe) :
    (view (elementAt elements)).obeys (holding elements flags order : Indexed ω Value) := by
  refine ⟨⟨Nat.zero_le _, ?_, ?_, nofun⟩, fun i w => ⟨w, rfl⟩⟩
  · simpa [holding, ofList] using small
  · simp only [holding, ofList, Characteristics.union_assoc, Characteristics.union_self]

theorem view_sized {f : Nat → Value} {s : Indexed ω Value} (obeys : (view f).obeys s) :
    (view f).sized s = true := by
  have flags : (view f).flags s = s.characteristics.union sizedFlags := obeys.1.flags.symm
  rw [View.sized, flags]
  exact Characteristics.hasAll_union _ (by decide)

theorem measured {s : Indexed ω Value} (plus : s.minusZero = false) (within : s.offset ≤ s.limit)
    (sized : s.characteristics.hasAll (.ofFlag .sized) = true) :
    protocol.Measured s (s.limit - s.offset) := by
  have estimate (t : Indexed ω Value) (plus : t.minusZero = false) (within : t.offset ≤ t.limit)
      (w : ω) : protocol.estimateSize ⟨t, w⟩ = .ok (.int (t.limit - t.offset : Nat)) ⟨t, w⟩ := by
    simp only [protocol, estimateSize, Indexed.estimate, plus, Bool.false_eq_true, if_false,
      Value.int, Int.ofNat_sub within]
  refine ⟨estimate s plus within, fun w => ?_, fun w => ?_⟩
  · refine (Source.exactSize_eq (declared_eq s w) (estimate s plus within w)).trans ?_
    rw [sized, if_pos rfl]
  · rcases trySplit_cases s w with stayed | ⟨mid, after, before, cut⟩
    · exact .inl ⟨_, stayed, estimate s plus within w⟩
    · exact .inr ⟨_, _, mid - s.offset, s.limit - mid, cut, by omega, by omega,
        estimate { s with offset := mid } plus (Nat.le_of_lt before) w,
        estimate { s with limit := mid } plus (Nat.le_of_lt after) w⟩

theorem holding_measured :
    protocol.Measured (holding elements flags order : Indexed ω Value) elements.length := by
  have whole := measured (s := (holding elements flags order : Indexed ω Value)) rfl
    (Nat.zero_le _) (Characteristics.hasAll_union _ (by decide))
  rwa [← view_length (f := elementAt elements), holding_remaining] at whole

end Indexed

namespace Node

def holding (elements : List Value) (flags : Characteristics)
    (order : Option (Comparator Value)) : Node :=
  plain (.holding elements flags order)

def listing (elements : List Value) : View Node Value :=
  (Indexed.view (Indexed.elementAt elements)).through plain plain?

theorem listing_contract (elements : List Value) : Contract Node.protocol (listing elements) :=
  (Indexed.contract _).through plain_embeds plain?_plain

theorem listing_hasCharacteristics {elements : List Value} {n : Node}
    (obeys : (listing elements).obeys n) (flags : Characteristics) (b : Bench) :
    Node.protocol.hasCharacteristics flags ⟨n, b⟩ =
      .ok (((listing elements).flags n).hasAll flags) ⟨n, b⟩ := by
  obtain ⟨s, rfl, obeys⟩ := obeys
  rw [listing, View.through_flags plain?_plain]
  refine (plain_embeds.hasCharacteristics flags ⟨s, b⟩).trans ?_
  exact congrArg (Outcome.mapState _) (Source.hasFlags_eq (Indexed.declared_eq s b) flags)

theorem listing_sized {elements : List Value} {n : Node} (obeys : (listing elements).obeys n) :
    (listing elements).sized n = true := by
  obtain ⟨s, rfl, obeys⟩ := obeys
  exact (View.through_sized plain?_plain s).trans (Indexed.view_sized obeys)

variable {elements : List Value} {flags : Characteristics} {order : Option (Comparator Value)}

theorem holding_obeys (small : elements.length ≤ Number.maxSafe) :
    (listing elements).obeys (holding elements flags order) :=
  ⟨_, rfl, Indexed.holding_obeys small⟩

theorem holding_remaining : (listing elements).remaining (holding elements flags order) = elements :=
  (View.through_remaining plain?_plain _).trans Indexed.holding_remaining

theorem holding_flags :
    (listing elements).flags (holding elements flags order) = flags.union Indexed.sizedFlags :=
  View.through_flags plain?_plain _

theorem holding_characteristics (b : Bench) :
    Node.protocol.characteristics ⟨holding elements flags order, b⟩ =
      .ok ((listing elements).flags (holding elements flags order)).toValue
        ⟨holding elements flags order, b⟩ := by
  rw [holding_flags]
  exact plain_embeds.characteristics ⟨.holding elements flags order, b⟩

theorem holding_measured :
    Node.protocol.Measured (holding elements flags order) elements.length :=
  Indexed.holding_measured.through plain_embeds

theorem holding_comparator (b : Bench) :
    Node.protocol.comparator ⟨holding elements flags order, b⟩ =
      if (flags.union Indexed.sizedFlags).contains .sorted then
        .ok order ⟨holding elements flags order, b⟩
      else .error (.violation (.noComparator "IndexedSource")) ⟨holding elements flags order, b⟩ := by
  refine (plain_embeds.comparator ⟨.holding elements flags order, b⟩).trans ?_
  show Outcome.mapState _ (if (flags.union Indexed.sizedFlags).contains .sorted then _ else _) = _
  split <;> rfl

end Node

end SplitTraversal
