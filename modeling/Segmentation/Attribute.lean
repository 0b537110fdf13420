import Segmentation.Json.Printer

/-!
# Attributes of spans

An attribute is a text, a truth value, a whole number or a binary64 number; the last may also be infinite or no
number at all.  `Attribute.display` writes it without quotes, and numbers without an exponent.
-/

namespace Segmentation

/-- Any binary64 number. -/
inductive Real64 where
  | finite (value : Double)
  | infinite (negative : Bool)
  | nan
  deriving DecidableEq

/-- All digits of a number, whole numbers without a point; a half goes up. -/
def Real64.style : NumberStyle := ⟨.up, none, false⟩

def Real64.display : Real64 → String
  | .finite x => String.ofList (style.text x)
  | .infinite false => "inf"
  | .infinite true => "-inf"
  | .nan => "NaN"

inductive Attribute where
  | string (text : String)
  | bool (value : Bool)
  | int (value : Int)
  | float (value : Real64)
  deriving DecidableEq

namespace Attribute

def typeName : Attribute → String
  | .string _ => "string"
  | .bool _ => "bool"
  | .int _ => "int"
  | .float _ => "float"

def display : Attribute → String
  | .string text => text
  | .bool true => "true"
  | .bool false => "false"
  | .int n => String.ofList (Json.intText n)
  | .float x => x.display

end Attribute

end Segmentation
