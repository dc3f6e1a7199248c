import SplitTraversal.Value.Basic

/-! Detected defects. -/

namespace SplitTraversal

structure FailureCode where
  name : String
deriving DecidableEq, Repr, Inhabited

namespace FailureCode

def elementsMismatch : FailureCode := ⟨"ELEMENTS_MISMATCH"⟩
def orderMismatch : FailureCode := ⟨"ORDER_MISMATCH"⟩
def notSorted : FailureCode := ⟨"NOT_SORTED"⟩
def comparatorNotRejected : FailureCode := ⟨"COMPARATOR_NOT_REJECTED"⟩
def sizeMismatch : FailureCode := ⟨"SIZE_MISMATCH"⟩
def exactSizeMismatch : FailureCode := ⟨"EXACT_SIZE_MISMATCH"⟩
def subsizeMismatch : FailureCode := ⟨"SUBSIZE_MISMATCH"⟩
def splitNotShrinking : FailureCode := ⟨"SPLIT_NOT_SHRINKING"⟩
def nonnullDeclared : FailureCode := ⟨"NONNULL_DECLARED"⟩
def immutableDeclared : FailureCode := ⟨"IMMUTABLE_DECLARED"⟩
def checkThrew : FailureCode := ⟨"CHECK_THREW"⟩

end FailureCode

/-- One defect: which check found it, under which strategy if any, what was expected and what was
found instead. -/
structure Failure where
  check : String
  code : FailureCode
  message : String
  strategy : Option String := none
  expected : Option Value := none
  actual : Option Value := none
deriving Inhabited

def Failure.format (f : Failure) : String :=
  let place := match f.strategy with
    | some strategy => " " ++ strategy
    | none => ""
  s!"[{f.check}]{place} {f.code.name}: {f.message}"

end SplitTraversal
