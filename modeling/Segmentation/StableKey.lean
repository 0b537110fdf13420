import Segmentation.Json.Printer

/-!
# Stable keys

The stable key of a value is its JSON text with the members of every object in the order of their keys, and with
every whole binary64 number below `2 ^ 53` written like the equal integer.  Values that differ only in these two
respects share a key; all other values have different keys.
-/

namespace Segmentation.Json

/-- Below this magnitude a whole binary64 number and its two neighbours are exactly integers. -/
def exactIntegerBound : Nat := Nat.pow 2 53

/-- The integer that a binary64 number is written as in keys, if it is one. -/
def keyInteger? (x : Double) : Option Int :=
  x.toInt?.filter fun n => n.natAbs < exactIntegerBound

def floatKey (x : Double) : List Char :=
  match keyInteger? x with
  | some n => intText n
  | none => floatText x

mutual

def keyChars : Json → List Char
  | .null => chars .null
  | .bool b => chars (.bool b)
  | .int n => intText n
  | .float x => floatKey x
  | .str s => Text.quoted s.toList
  | .arr items => '[' :: Text.joined [','] (itemKeys items) ++ [']']
  | .obj members =>
    let keyed := (Keyed.ofList (memberKeys members)).map fun (k, t) => Text.quoted k.toList ++ ':' :: t
    '\x7b' :: Text.joined [','] keyed ++ ['\x7d']

def itemKeys : List Json → List (List Char)
  | [] => []
  | v :: vs => keyChars v :: itemKeys vs

/-- The keys of the members' values, each with the member's own key. -/
def memberKeys : List (String × Json) → List (String × List Char)
  | [] => []
  | (k, v) :: ms => (k, keyChars v) :: memberKeys ms

end

def stableKey (value : Json) : String := String.ofList value.keyChars

end Segmentation.Json
