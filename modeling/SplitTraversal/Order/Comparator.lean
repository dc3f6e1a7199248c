import SplitTraversal.Order.Sort
import SplitTraversal.Value.Arithmetic

/-! Comparators and what is decided with them: whether a list is in order, and the stable order of
its elements. A comparator answers with a value that stands for a negative, zero or positive number,
and may throw. -/

namespace SplitTraversal

abbrev Comparator (α : Type) := α → α → Except Thrown Value

namespace Comparator

variable {α : Type}

def precedes (compare : Comparator α) (a b : α) : Except Thrown Bool :=
  match compare a b with
  | .ok sign => sign.isLess (.int 0)
  | .error e => .error e

def follows (compare : Comparator α) (a b : α) : Except Thrown Bool :=
  match compare a b with
  | .ok sign => (Value.int 0).isLess sign
  | .error e => .error e

def ties (compare : Comparator α) (a b : α) : Except Thrown Bool :=
  match compare a b with
  | .ok sign => .ok (sign.strictEquals (.int 0))
  | .error e => .error e

def isOrdered (compare : Comparator α) : List α → Except Thrown Bool
  | a :: b :: rest =>
    match compare.follows a b with
    | .error e => .error e
    | .ok true => .ok false
    | .ok false => isOrdered compare (b :: rest)
  | _ => .ok true

/-- Whether `a` is sorted strictly before `b`. For a sort the answer has to be a number. -/
def sortsBefore (compare : Comparator α) (a b : α) : Except Thrown Bool :=
  match compare a b with
  | .error e => .error e
  | .ok sign =>
    match sign.toNumber with
    | .ok n => .ok (n.lt (.integer 0))
    | .error e => .error e

def sort (compare : Comparator α) (xs : List α) : Except Thrown (List α) :=
  Sorting.sort compare.sortsBefore xs

/-- Stable sort of values. Undefined elements come last and are not compared. -/
def sortValues (compare : Comparator Value) (xs : List Value) : Except Thrown (List Value) :=
  match compare.sort (xs.filter (!·.isUndefined)) with
  | .error e => .error e
  | .ok sorted => .ok (sorted ++ xs.filter Value.isUndefined)

def reversed (compare : Comparator α) : Comparator α := fun a b => compare b a

end Comparator

def compareBy {β : Type} (lt : β → β → Bool) (a b : β) : Value :=
  if lt a b then .int (-1) else if lt b a then .int 1 else .int 0

/-- Natural order of two numbers, texts, bigints, booleans or dates. No other two values have one:
not null or undefined, not two of different kinds, not objects. An invalid date is neither before
nor after any date. -/
def naturalOrder : Comparator Value
  | .number a, .number b => .ok (compareBy Number.lt a b)
  | .string a, .string b => .ok (compareBy Text.before a b)
  | .bigint a, .bigint b => .ok (compareBy (fun x y => decide (x < y)) a b)
  | .boolean a, .boolean b => .ok (.int (a.toInt - b.toInt))
  | .date a _, .date b _ => .ok (compareBy beforeDate a b)
  | a, b => .error (.violation (.incomparable (operand a) (operand b)))
where
  beforeDate : Option Int → Option Int → Bool
    | some a, some b => a < b
    | _, _ => false
  operand : Value → String
    | .null => "null"
    | .date .. => "Date"
    | v => v.typeName

end SplitTraversal
