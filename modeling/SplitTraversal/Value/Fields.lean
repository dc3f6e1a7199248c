import SplitTraversal.Text.Units
import SplitTraversal.Value.Basic

/-! What a value has under a name: an object its fields, a text or an array its length and its
parts by position, and every value the methods of its kind and the holder of these methods. -/

namespace SplitTraversal
namespace Value

/-- The position that a name stands for: digits without leading zeros. -/
def position? (key : String) : Option Nat :=
  key.toNat?.filter fun n => toString n = key && n < 0xffffffff

/-- Fields named by positions come first and in order of position, then all others as they were
given. A name that is given again keeps its place and takes the later value. -/
def ofFields (given : List (String × Value)) (identity : Nat) : Value :=
  let put (fields : List (String × Value)) (entry : String × Value) :=
    if fields.any (·.1 == entry.1) then
      fields.map fun field => if field.1 == entry.1 then entry else field
    else fields ++ [entry]
  let fields := given.foldl put []
  let positions := fields.filterMap fun field => (position? field.1).map fun n => (n, field)
  let sorted := positions.mergeSort fun a b => a.1 ≤ b.1
  .object (sorted.map (·.2) ++ fields.filter fun field => (position? field.1).isNone) identity

inductive MethodOwner where
  | any
  | boolean
  | number
  | string
  | bigint
  | symbol
  | date
  | function
  | array
  | fault
deriving DecidableEq, Repr

namespace MethodOwner

def ofValue : Value → MethodOwner
  | .boolean _ => .boolean
  | .number _ => .number
  | .string _ => .string
  | .bigint _ => .bigint
  | .symbol .. => .symbol
  | .date .. => .date
  | .function _ => .function
  | .array .. => .array
  | .fault _ => .fault
  | _ => .any

def methods : MethodOwner → List String
  | .any =>
    ["constructor", "hasOwnProperty", "isPrototypeOf", "propertyIsEnumerable", "toLocaleString",
      "toString", "valueOf", "__defineGetter__", "__defineSetter__", "__lookupGetter__",
      "__lookupSetter__"]
  | .boolean => ["constructor", "toString", "valueOf"]
  | .number =>
    ["constructor", "toExponential", "toFixed", "toLocaleString", "toPrecision", "toString",
      "valueOf"]
  | .string =>
    ["constructor", "anchor", "at", "big", "blink", "bold", "charAt", "charCodeAt", "codePointAt",
      "concat", "endsWith", "fixed", "fontcolor", "fontsize", "includes", "indexOf",
      "isWellFormed", "italics", "lastIndexOf", "link", "localeCompare", "match", "matchAll",
      "normalize", "padEnd", "padStart", "repeat", "replace", "replaceAll", "search", "slice",
      "small", "split", "startsWith", "strike", "sub", "substr", "substring", "sup",
      "toLocaleLowerCase", "toLocaleUpperCase", "toLowerCase", "toString", "toUpperCase",
      "toWellFormed", "trim", "trimEnd", "trimLeft", "trimRight", "trimStart", "valueOf"]
  | .bigint => ["constructor", "toLocaleString", "toString", "valueOf"]
  | .symbol => ["constructor", "toString", "valueOf"]
  | .date =>
    ["constructor", "getDate", "getDay", "getFullYear", "getHours", "getMilliseconds",
      "getMinutes", "getMonth", "getSeconds", "getTime", "getTimezoneOffset", "getUTCDate",
      "getUTCDay", "getUTCFullYear", "getUTCHours", "getUTCMilliseconds", "getUTCMinutes",
      "getUTCMonth", "getUTCSeconds", "getYear", "setDate", "setFullYear", "setHours",
      "setMilliseconds", "setMinutes", "setMonth", "setSeconds", "setTime", "setUTCDate",
      "setUTCFullYear", "setUTCHours", "setUTCMilliseconds", "setUTCMinutes", "setUTCMonth",
      "setUTCSeconds", "setYear", "toDateString", "toGMTString", "toISOString", "toJSON",
      "toLocaleDateString", "toLocaleString", "toLocaleTimeString", "toString", "toTimeString",
      "toUTCString", "valueOf"]
  | .function => ["constructor", "apply", "bind", "call", "toString"]
  | .array =>
    ["constructor", "at", "concat", "copyWithin", "entries", "every", "fill", "filter", "find",
      "findIndex", "findLast", "findLastIndex", "flat", "flatMap", "forEach", "includes",
      "indexOf", "join", "keys", "lastIndexOf", "map", "pop", "push", "reduce", "reduceRight",
      "reverse", "shift", "slice", "some", "sort", "splice", "toLocaleString", "toReversed",
      "toSorted", "toSpliced", "toString", "unshift", "values", "with"]
  | .fault => ["constructor", "toString"]

def rank : MethodOwner → Nat
  | .any => 0
  | .boolean => 1
  | .number => 2
  | .string => 3
  | .bigint => 4
  | .symbol => 5
  | .date => 6
  | .function => 7
  | .array => 8
  | .fault => 9

/-- The identity of what all values of a kind have under a name, beyond all that are counted. -/
def identity (owner : MethodOwner) (name : String) : Nat :=
  name.toList.foldl (fun n c => n * 0x200000 + c.toNat) (0x10000000000000000 + owner.rank)

def method (owner : MethodOwner) (name : String) : Value := .function (owner.identity name)

/-- What holds the methods of a kind. For functions it can be called itself. -/
def holder (owner : MethodOwner) : Value :=
  if owner = .function then .function (owner.identity "") else .object [] (owner.identity "")

def method? (owner : MethodOwner) (name : String) : Option Value :=
  if name = "__proto__" then some owner.holder
  else if owner.methods.contains name then some (owner.method name)
  else if MethodOwner.any.methods.contains name then some (MethodOwner.any.method name)
  else none

end MethodOwner

def ownField? (key : String) : Value → Option Value
  | .string s =>
    if key = "length" then some (int (Text.unitCount s))
    else (position? key).bind fun i => (Text.unitAt s i).map .string
  | .array items _ =>
    if key = "length" then some (int items.length)
    else (position? key).bind fun i => items[i]?
  | .function _ =>
    if key = "length" then some (int 0)
    else if key = "name" then some (.string "")
    else none
  | .symbol description _ => if key = "description" then some (.string description) else none
  | .object fields _ => fields.lookup key
  | .fault f =>
    if key = "message" then some (.string f.message)
    else if key = "name" then some (.string f.name)
    else none
  | _ => none

/-- What a value has under a name; undefined where there is nothing. Null and undefined cannot be
asked. -/
def field (key : String) (v : Value) : Except Thrown Value :=
  match v with
  | .null => .error (misuse (.noFieldOf "null" key))
  | .undefined => .error (misuse (.noFieldOf "undefined" key))
  | _ =>
    .ok (((v.ownField? key).or ((MethodOwner.ofValue v).method? key)).getD .undefined)

end Value
end SplitTraversal
