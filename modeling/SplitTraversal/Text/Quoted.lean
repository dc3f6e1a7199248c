import SplitTraversal.Text.Units

/-! Quoted text. Single quotes are preferred; double quotes and then backticks are used for text that
holds single quotes but not them. -/

namespace SplitTraversal.Text

def hexDigit (n : Nat) : Char := (Nat.digitChar n).toUpper

def escape (delimiter c : Char) : List Char :=
  if c = '\\' then ['\\', '\\']
  else if c = '\x27' ∧ delimiter = '\x27' then ['\\', '\x27']
  else
    let n := c.toNat
    if n = 8 then ['\\', 'b']
    else if n = 9 then ['\\', 't']
    else if n = 10 then ['\\', 'n']
    else if n = 12 then ['\\', 'f']
    else if n = 13 then ['\\', 'r']
    else if n < 32 ∨ (127 ≤ n ∧ n < 160) then ['\\', 'x', hexDigit (n / 16), hexDigit (n % 16)]
    else [c]

def opensPlaceholder : List Char → Bool
  | '$' :: '\x7b' :: _ => true
  | _ :: rest => opensPlaceholder rest
  | [] => false

def delimiter (cs : List Char) : Char :=
  if !cs.contains '\x27' then '\x27'
  else if !cs.contains '"' then '"'
  else if !cs.contains '\x60' && !opensPlaceholder cs then '\x60'
  else '\x27'

/-- Quoted characters, with a surrogate that was cut off its character written as an escape. -/
def quoteCut (cs : List Char) (cut : Option Nat) : String :=
  let d := delimiter cs
  let surrogate := match cut with
    | some unit => '\\' :: 'u' :: Nat.toDigits 16 unit
    | none => []
  String.ofList (d :: cs.flatMap (escape d) ++ surrogate ++ [d])

def quote (s : String) : String := quoteCut s.toList none

end SplitTraversal.Text
