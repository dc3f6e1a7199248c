import SplitTraversal.Order.Comparator
import SplitTraversal.Value.Fields

/-! Comparators, equivalences and index functions that are given by name. -/

namespace SplitTraversal

namespace Value

def caseless : Value → Value
  | .string s => .string (Text.lowerAscii s)
  | v => v

def both {β : Type} (f : Value → Except Thrown Value) (combine : Value → Value → Except Thrown β)
    (a b : Value) : Except Thrown β :=
  match f a with
  | .error e => .error e
  | .ok x =>
    match f b with
    | .ok y => combine x y
    | .error e => .error e

end Value

inductive NamedOrder where
  | natural
  | reverse
  | ascending
  | descending
  | magnitude
  | length
  | caseless
  | nullsFirst
  | remainder (modulus : Value)
  | byField (key : String)
  | constant (answer : Value)
  | raising (thrown : Thrown)

def NamedOrder.compare : NamedOrder → Comparator Value
  | .natural => naturalOrder
  | .reverse => Comparator.reversed naturalOrder
  | .ascending => Value.sub
  | .descending => fun a b => b.sub a
  | .magnitude => Value.both Value.abs Value.sub
  | .length => Value.both (Value.field "length") Value.sub
  | .caseless => fun a b => naturalOrder a.caseless b.caseless
  | .nullsFirst => fun a b =>
    match a.isNullish, b.isNullish with
    | true, true => .ok (.int 0)
    | true, false => .ok (.int (-1))
    | false, true => .ok (.int 1)
    | false, false => naturalOrder a b
  | .remainder modulus => Value.both (·.rem modulus) Value.sub
  | .byField key => Value.both (Value.field key) naturalOrder
  | .constant answer => fun _ _ => .ok answer
  | .raising thrown => fun _ _ => .error thrown

abbrev Equivalence (α : Type) := α → α → Except Thrown Bool

inductive NamedEquivalence where
  | sameValueZero
  | always
  | never
  | atMost
  | caseless
  | alike
  | remainder (modulus : Value)
  | within (distance : Value)
  | byField (key : String)
  | raising (thrown : Thrown)

def Value.isWithin (distance a b : Value) : Except Thrown Bool :=
  match a.sub b with
  | .error e => .error e
  | .ok gap =>
    match gap.abs with
    | .ok size => size.isAtMost distance
    | .error e => .error e

def NamedEquivalence.holds : NamedEquivalence → Equivalence Value
  | .sameValueZero => fun a b => .ok (a.sameValueZero b)
  | .always => fun _ _ => .ok true
  | .never => fun _ _ => .ok false
  | .atMost => Value.isAtMost
  | .caseless => fun a b => .ok (a.caseless.strictEquals b.caseless)
  | .alike => fun a b => .ok (a.alike b)
  | .remainder modulus => Value.both (·.rem modulus) fun x y => .ok (x.strictEquals y)
  | .within distance => Value.isWithin distance
  | .byField key => Value.both (Value.field key) fun x y => .ok (x.sameValueZero y)
  | .raising thrown => fun _ _ => .error thrown

/-- Functions from positions to elements. A table is undefined beyond its end. -/
inductive IndexFunction where
  | identity
  | square
  | affine (factor offset : Number)
  | remainder (modulus : Number)
  | labelled (label : String)
  | record (factor offset : Number)
  | constant (value : Value)
  | table (values : Array Value)
  | failing (positions : List Number) (thrown : Thrown) (otherwise : IndexFunction)

def IndexFunction.apply : IndexFunction → Number → Except Thrown Value
  | .identity, i => .ok (.number i)
  | .square, i => .ok (.number (i.mul i))
  | .affine factor offset, i => .ok (.number ((factor.mul i).add offset))
  | .remainder modulus, i => .ok (.number (i.rem modulus))
  | .labelled label, i => .ok (.string (label ++ i.text))
  | .record factor offset, i => .ok (.object [("id", .number ((factor.mul i).add offset))] 0)
  | .constant value, _ => .ok value
  | .table values, i =>
    .ok ((i.safeInteger?.bind fun n => values[n.toNat]?).getD .undefined)
  | .failing positions thrown otherwise, i =>
    if positions.any (·.same i) then .error thrown else otherwise.apply i

end SplitTraversal
