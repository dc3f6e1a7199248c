import SplitTraversal.Value.Arithmetic

/-! Traits that a source declares about the elements it has not yet visited: eight independent bits
of a signed 32-bit set. No flag implies another. -/

namespace SplitTraversal

inductive Characteristic where
  | distinct
  | sorted
  | ordered
  | sized
  | nonnull
  | immutable
  | concurrent
  | subsized
deriving DecidableEq, Repr

namespace Characteristic

def all : List Characteristic :=
  [distinct, sorted, ordered, sized, nonnull, immutable, concurrent, subsized]

def name : Characteristic → String
  | .distinct => "DISTINCT"
  | .sorted => "SORTED"
  | .ordered => "ORDERED"
  | .sized => "SIZED"
  | .nonnull => "NONNULL"
  | .immutable => "IMMUTABLE"
  | .concurrent => "CONCURRENT"
  | .subsized => "SUBSIZED"

def position : Characteristic → Nat
  | .distinct => 0
  | .sorted => 2
  | .ordered => 4
  | .sized => 6
  | .nonnull => 8
  | .immutable => 10
  | .concurrent => 12
  | .subsized => 14

end Characteristic

/-- A set of flags; bits without a name are kept. -/
structure Characteristics where
  bits : BitVec 32
deriving DecidableEq, Repr, Inhabited

namespace Characteristics

def none : Characteristics := ⟨0⟩

def union (a b : Characteristics) : Characteristics := ⟨a.bits ||| b.bits⟩

def inter (a b : Characteristics) : Characteristics := ⟨a.bits &&& b.bits⟩

def ofFlag (c : Characteristic) : Characteristics := ⟨1 <<< c.position⟩

def ofFlags (cs : List Characteristic) : Characteristics :=
  cs.foldl (fun set c => set.union (ofFlag c)) none

/-- The set whose bits a value has as a number. The bits of a bigint are of another kind. -/
def ofValue : Value → Except Thrown Characteristics
  | .number n => .ok ⟨n.toBits32⟩
  | v =>
    match v.toNumeric with
    | .ok (.number n) => .ok ⟨n.toBits32⟩
    | .ok (.bigint _) => .error (.misuse .mixedBigint)
    | .error e => .error e

def withValues (set : Characteristics) : List Value → Except Thrown Characteristics
  | [] => .ok set
  | v :: rest =>
    match ofValue v with
    | .ok flags => (set.union flags).withValues rest
    | .error e => .error e

def ofValues (vs : List Value) : Except Thrown Characteristics := none.withValues vs

def toNumber (set : Characteristics) : Number := .integer (Int32.ofBitVec set.bits).toInt

def toValue (set : Characteristics) : Value := .number set.toNumber

@[simp] theorem ofValue_toValue (set : Characteristics) : ofValue set.toValue = .ok set := by
  show Except.ok (⟨BitVec.ofInt 32 set.bits.toInt⟩ : Characteristics) = .ok set
  rw [BitVec.ofInt_toInt]

def contains (set : Characteristics) (c : Characteristic) : Bool :=
  set.bits &&& (ofFlag c).bits != 0

theorem union_comm (a b : Characteristics) : a.union b = b.union a := by
  simp only [union, BitVec.or_comm]

theorem union_assoc (a b c : Characteristics) : (a.union b).union c = a.union (b.union c) := by
  simp only [union, BitVec.or_assoc]

@[simp] theorem union_self (a : Characteristics) : a.union a = a := by simp [union]

def hasAll (set flags : Characteristics) : Bool := set.inter flags == flags

def names (set : Characteristics) : List String :=
  (Characteristic.all.filter set.contains).map Characteristic.name

def format (set : Characteristics) : String :=
  match set.names with
  | [] => "none"
  | names => " | ".intercalate names

def commonBits (i j : Int) : Int :=
  let width := max i.natAbs.log2 j.natAbs.log2 + 2
  (BitVec.ofInt width i &&& BitVec.ofInt width j).toInt

/-- The common bits of two values as a signed number, or as a bigint. -/
def commonValue (set flags : Value) : Except Thrown Value :=
  match Value.numerics set flags with
  | .ok (.inl (m, n)) => .ok (inter ⟨m.toBits32⟩ ⟨n.toBits32⟩).toValue
  | .ok (.inr (i, j)) => .ok (.bigint (commonBits i j))
  | .error e => .error e

/-- Whether the common bits of both values are the very value `flags`. A value that is no signed
32-bit number and no bigint is never found. -/
def hasAllValue (set flags : Value) : Except Thrown Bool :=
  (commonValue set flags).map (·.strictEquals flags)

end Characteristics
end SplitTraversal
