import SplitTraversal.Text.Timestamp
import SplitTraversal.Value.Basic

/-! The texts of values, and the plain values that stand for composite ones in texts and sums. -/

namespace SplitTraversal
namespace Value

inductive Purpose where
  | text
  | number
  /-- For a sum, which may be of either kind. -/
  | sum
deriving DecidableEq, Repr

/-- An object stands for what its own method gives, of which all that can be called give undefined,
or for a fixed text where it has none. It has to have one or the other. -/
def objectPrimitive (purpose : Purpose) (fields : List (String × Value)) :
    Except Thrown Value :=
  let own := (fields.lookup "valueOf").filter isFunction
  match fields.lookup "toString" with
  | none =>
    if purpose ≠ .text ∧ own.isSome then .ok .undefined else .ok (.string "[object Object]")
  | some method =>
    if method.isFunction || own.isSome then .ok .undefined else .error (misuse .noPrimitive)

def plainText : Value → Except Thrown String
  | .undefined => .ok "undefined"
  | .null => .ok "null"
  | .boolean b => .ok (if b then "true" else "false")
  | .number n => .ok n.text
  | .string s => .ok s
  | .bigint i => .ok (toString i)
  | .symbol .. => .error (misuse .textOfSymbol)
  | .date time _ => .ok (match time with | some ms => Text.timestamp ms | none => "Invalid Date")
  | .function _ => .ok "function"
  | .array .. => .ok ""
  | .object .. => .ok "[object Object]"
  | .fault f => .ok (if f.message.isEmpty then f.name else f.name ++ ": " ++ f.message)

mutual
/-- The text of a value inside other text. Arrays are written as their elements' texts with commas,
whatever the nesting. -/
def textWithin : Value → Except Thrown String
  | .array items _ =>
    match elementTexts items with
    | .ok texts => .ok (",".intercalate texts)
    | .error e => .error e
  | .object fields _ =>
    match objectPrimitive .text fields with
    | .ok v => v.plainText
    | .error e => .error e
  | v => v.plainText

/-- An element that is null or undefined has the empty text. -/
def elementTexts : List Value → Except Thrown (List String)
  | [] => .ok []
  | v :: rest =>
    match (if v.isNullish then .ok "" else v.textWithin) with
    | .error e => .error e
    | .ok text =>
      match elementTexts rest with
      | .ok texts => .ok (text :: texts)
      | .error e => .error e
end

/-- The text of a value by itself. A symbol is shown by its description. -/
def text : Value → Except Thrown String
  | .symbol description _ => .ok s!"Symbol({description})"
  | v => v.textWithin

def primitive (purpose : Purpose) : Value → Except Thrown Value
  | .date time id =>
    match purpose with
    | .number => .ok (match time with | some ms => int ms | none => .number .nan)
    | _ => (plainText (.date time id)).map .string
  | .object fields _ => objectPrimitive purpose fields
  | .array items id => (textWithin (.array items id)).map .string
  | .function id => (plainText (.function id)).map .string
  | .fault f => (plainText (.fault f)).map .string
  | v => .ok v

def describe : Thrown → Except Thrown String
  | .fault f => .ok s!"{f.name}: {f.message}"
  | v => v.text

end Value

def requireCount (subject : String) (v : Value) : Except Thrown Nat :=
  match v.safeInteger?.filter (0 ≤ ·) with
  | some i => .ok i.toNat
  | none =>
    match v.text with
    | .ok found => .error (.violation (.notACount subject found))
    | .error e => .error e

end SplitTraversal
