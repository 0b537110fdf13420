import Segmentation.Json
import Segmentation.Double.Shortest
import Segmentation.Text.Quoted

/-!
# Writing JSON values

`Json.text` is the JSON document of a value and `Json.display` its text in messages, where every part carries the
name of its kind.  Both write numbers in `Json.floatStyle`.
-/

namespace Segmentation.Json

/-- A fraction always shows: whole numbers end in `.0`, and the point is set while it stands after at most
sixteen digits, or before at most four zeros. -/
def floatStyle : NumberStyle := ⟨.toEven, some (-5, 16), true⟩

def floatText (x : Double) : List Char := floatStyle.text x

def intText (n : Int) : List Char :=
  if n < 0 then '-' :: Nat.toDigits 10 n.natAbs else Nat.toDigits 10 n.natAbs

mutual

def chars : Json → List Char
  | .null => ['n', 'u', 'l', 'l']
  | .bool true => ['t', 'r', 'u', 'e']
  | .bool false => ['f', 'a', 'l', 's', 'e']
  | .int n => intText n
  | .float x => floatText x
  | .str s => Text.quoted s.toList
  | .arr items => '[' :: Text.joined [','] (itemChars items) ++ [']']
  | .obj members => '\x7b' :: Text.joined [','] (memberChars members) ++ ['\x7d']

def itemChars : List Json → List (List Char)
  | [] => []
  | v :: vs => chars v :: itemChars vs

def memberChars : List (String × Json) → List (List Char)
  | [] => []
  | (k, v) :: ms => (Text.quoted k.toList ++ ':' :: chars v) :: memberChars ms

end

/-- The JSON document of a value. -/
def text (value : Json) : String := String.ofList value.chars

mutual

def displayChars : Json → List Char
  | .null => "Null".toList
  | .bool b => "Bool(".toList ++ chars (.bool b) ++ [')']
  | .int n => "Number(".toList ++ intText n ++ [')']
  | .float x => "Number(".toList ++ floatText x ++ [')']
  | .str s => "String(".toList ++ Text.displayed s.toList ++ [')']
  | .arr items => "Array [".toList ++ Text.joined [',', ' '] (itemDisplays items) ++ [']']
  | .obj members =>
    "Object ".toList ++ '\x7b' :: Text.joined [',', ' '] (memberDisplays members) ++ ['\x7d']

def itemDisplays : List Json → List (List Char)
  | [] => []
  | v :: vs => displayChars v :: itemDisplays vs

def memberDisplays : List (String × Json) → List (List Char)
  | [] => []
  | (k, v) :: ms => (Text.displayed k.toList ++ ':' :: ' ' :: displayChars v) :: memberDisplays ms

end

/-- The text of a value in messages. -/
def display (value : Json) : String := String.ofList value.displayChars

end Segmentation.Json
