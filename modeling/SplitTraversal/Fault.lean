import SplitTraversal.Text.Units

/-! The errors that can leave an operation, by cause. `Violation` lists what the library itself
objects to, with the wording of each in `Violation.message`, and `Misuse` what a value cannot be used
for. A `Fault` is one of these, an error that a producer or subscriber raised, or the verdict of a
failed conformance run. -/

namespace SplitTraversal

/-- Whether an argument was unusable, or the call does not fit what the source declares. -/
inductive FaultCode where
  | invalidArgument
  | illegalState
deriving DecidableEq, Repr, Inhabited

def FaultCode.text : FaultCode → String
  | .invalidArgument => "INVALID_ARGUMENT"
  | .illegalState => "ILLEGAL_STATE"

inductive FaultKind where
  | general
  | type
  | range
  | protocol (code : FaultCode)
  | invalidArgument
  | illegalState
  | nonconformance
deriving DecidableEq, Repr, Inhabited

namespace FaultKind

def name : FaultKind → String
  | .general => "Error"
  | .type => "TypeError"
  | .range => "RangeError"
  | .protocol _ => "SplitSourceError"
  | .invalidArgument => "InvalidArgumentError"
  | .illegalState => "IllegalStateError"
  | .nonconformance => "ConformanceError"

def code? : FaultKind → Option FaultCode
  | .protocol code => some code
  | .invalidArgument => some .invalidArgument
  | .illegalState => some .illegalState
  | _ => none

end FaultKind

/-- What the library objects to. Offending values appear as their text. -/
inductive Violation where
  | notCallable (found : String)
  | notACount (subject found : String)
  | offsetOutside (limit found : String)
  | notAnIndexFunction
  | noComparator (source : String)
  | incomparable (left right : String)
  | leafSize
  | splitDepth
  | nullElement (collection : String)
  | nullElementAt (collection : String) (index : Nat)
  | unnamedCheck
  | duplicateCheck (name : String)
  | unknownCheck (name : String) (registered : List String)
  | unknownChecks (names registered : List String)
  | noStrategy
  | unknownStrategy (name : String) (known : List String)
deriving DecidableEq, Repr

namespace Violation

def kind : Violation → FaultKind
  | .noComparator _ => .illegalState
  | _ => .invalidArgument

def message : Violation → String
  | .notCallable found => s!"Expected a visit function, got {found}"
  | .notACount subject found => s!"{subject} must be a non-negative integer, got {found}"
  | .offsetOutside limit found =>
    s!"IndexedSource: offset must be an integer in [0, {limit}], got {found}"
  | .notAnIndexFunction => "IndexedSource: indexFunction must be a function"
  | .noComparator source => s!"{source}: comparator() requires the SORTED characteristic"
  | .incomparable left right =>
    s!"No natural ordering between {left} and {right}; supply a comparator"
  | .leafSize => "Leaf size must be at least 1"
  | .splitDepth => "Split depth must be a non-negative integer"
  | .nullElement collection => s!"{collection} does not accept null elements"
  | .nullElementAt collection index =>
    s!"{collection} does not accept null elements (found one at index {index})"
  | .unnamedCheck => "Check name must not be empty"
  | .duplicateCheck name => s!"A check named '{name}' is already registered"
  | .unknownCheck name registered =>
    let known := ", ".intercalate registered
    s!"Unknown check '{name}'. Registered: {known}"
  | .unknownChecks names registered =>
    let asked := ", ".intercalate names
    let known := ", ".intercalate registered
    s!"Unknown check(s): {asked}. Registered: {known}"
  | .noStrategy => "At least one decomposition strategy is required"
  | .unknownStrategy name known =>
    let expected := ", ".intercalate known
    s!"Unknown decomposition strategy '{name}'. Expected one of: {expected}"

end Violation

/-- Why a value cannot be used the way it is used. Fields, operations and places appear by name. -/
inductive Misuse where
  | textOfSymbol
  | numberOfSymbol
  | numberOfBigint
  | mixedBigint
  | divisionByZero
  /-- Neither a text nor a number can be made of an object. -/
  | noPrimitive
  | noFieldOf (found key : String)
  | cannotSet (found key : String)
  | notIterable (place : String)
  | notAFunction (place : String)
deriving DecidableEq, Repr

namespace Misuse

def kind : Misuse → FaultKind
  | .divisionByZero => .range
  | _ => .type

def message : Misuse → String
  | .textOfSymbol => "Cannot convert a Symbol value to a string"
  | .numberOfSymbol => "Cannot convert a Symbol value to a number"
  | .numberOfBigint => "Cannot convert a BigInt value to a number"
  | .mixedBigint => "Cannot mix BigInt and other types, use explicit conversions"
  | .divisionByZero => "Division by zero"
  | .noPrimitive => "Cannot convert object to primitive value"
  | .noFieldOf found key => s!"Cannot read properties of {found} (reading '{key}')"
  | .cannotSet found key => s!"Cannot set properties of {found} (setting '{key}')"
  | .notIterable place => s!"{place} is not iterable"
  | .notAFunction place => s!"{place} is not a function"

end Misuse

inductive Fault where
  | violation (cause : Violation)
  | misuse (cause : Misuse)
  | raised (kind : FaultKind) (message : String)
  | nonconforming (collection : String) (failures : List String)
deriving DecidableEq, Repr

namespace Fault

def kind : Fault → FaultKind
  | .violation cause => cause.kind
  | .misuse cause => cause.kind
  | .raised kind _ => kind
  | .nonconforming _ _ => .nonconformance

def name (f : Fault) : String := f.kind.name

def message : Fault → String
  | .violation cause => cause.message
  | .misuse cause => cause.message
  | .raised _ message => message
  | .nonconforming collection failures =>
    let count := failures.length
    let lines := "\n".intercalate (failures.map ("  - " ++ ·))
    s!"{collection} failed {count} conformance assertion(s):\n{lines}"

end Fault
end SplitTraversal
