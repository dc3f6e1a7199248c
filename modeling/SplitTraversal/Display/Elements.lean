import SplitTraversal.Display.Columns
import SplitTraversal.Text.Quoted
import SplitTraversal.Text.Timestamp
import SplitTraversal.Value.Basic

/-! Elements as they are shown in messages: nested values to a depth of four, at most fifty elements
of each list, and long lists in columns. -/

namespace SplitTraversal.Display

def maxDepth : Nat := 3
def maxItems : Nat := 50
def maxText : Nat := 10000

def compactLevels : Nat := 3

def plural (n : Nat) (unit : String) : String :=
  let ending := if n = 1 then "" else "s"
  s!"... {n} more {unit}{ending}"

def shownText (s : String) : String :=
  let (kept, cut, left) := Text.takeUnits maxText s.toList
  Text.quoteCut kept cut ++ (if left = 0 then "" else plural left "character")

def isWordStart (c : Char) : Bool := c.isAlpha || c == '_'

/-- A key that is a plain word needs no quotes, except one that has a meaning of its own. -/
def shownKey (key : String) : String :=
  if key = "__proto__" then "['__proto__']"
  else match key.toList with
  | c :: rest =>
    if isWordStart c && rest.all fun c => isWordStart c || c.isDigit then key else Text.quote key
  | [] => Text.quote key

def isNumeric : Value → Bool
  | .number _ | .bigint _ => true
  | _ => false

def atom : Value → String
  | .undefined => "undefined"
  | .null => "null"
  | .boolean b => if b then "true" else "false"
  | .number n => if n.isMinusZero then "-0" else n.text
  | .string s => shownText s
  | .bigint i => s!"{i}n"
  | .symbol description _ => s!"Symbol({description})"
  | .date time _ => match time with | some ms => Text.timestamp ms | none => "Invalid Date"
  | .function _ => "[Function (anonymous)]"
  | .array .. => "[]"
  | .object .. => "\x7b\x7d"
  | .fault f => s!"[{f.name}: {f.message}]"

def enclose (opening closing : String) (level current indent : Nat) (count : Nat)
    (entries : List String) : String :=
  let inline := current - level < compactLevels && entries.length == count &&
    !entries.any (·.contains '\n')
  if inline then opening ++ " " ++ ", ".intercalate entries ++ " " ++ closing
  else
    let line := "\n" ++ spaces indent
    opening ++ line ++ "  " ++ (("," ++ line ++ "  ").intercalate entries) ++ line ++ closing

mutual
/-- A value at a nesting level and an indentation. The second number is the level of the container
entered last, before and after. -/
def shown : Value → Nat → Nat → Nat → String × Nat
  | .array items id, level, indent, current =>
    if items.isEmpty then (atom (.array items id), current)
    else if level > maxDepth then ("[Array]", current)
    else
      let level := level + 1
      let (entries, current) := shownItems items maxItems level (indent + 2) level
      let left := items.length - maxItems
      let more := if left = 0 then none else some (plural left "item")
      let count := entries.length + more.toList.length
      let arranged :=
        if count > 6 then group entries more ((items.take count).all isNumeric)
        else entries ++ more.toList
      (enclose "[" "]" level current indent count arranged, current)
  | .object fields id, level, indent, current =>
    if fields.isEmpty then (atom (.object fields id), current)
    else if level > maxDepth then ("[Object]", current)
    else
      let level := level + 1
      let (entries, current) := shownFields fields level (indent + 2) level
      (enclose "\x7b" "\x7d" level current indent entries.length entries, current)
  | v, _, _, current => (atom v, current)

def shownItems : List Value → Nat → Nat → Nat → Nat → List String × Nat
  | [], _, _, _, current => ([], current)
  | _ :: _, 0, _, _, current => ([], current)
  | v :: rest, limit + 1, level, indent, current =>
    let (entry, current) := shown v level indent current
    let (entries, current) := shownItems rest limit level indent current
    (entry :: entries, current)

def shownFields : List (String × Value) → Nat → Nat → Nat → List String × Nat
  | [], _, _, current => ([], current)
  | (key, v) :: rest, level, indent, current =>
    let (entry, current) := shown v level indent current
    let (entries, current) := shownFields rest level indent current
    ((shownKey key ++ ": " ++ entry) :: entries, current)
end

def elements (items : List Value) : String := (shown (.list items) 0 0 0).1

end SplitTraversal.Display
