import Segmentation.Double
import Segmentation.Keyed

/-!
# JSON values

Whole numbers and binary64 numbers are different values even where they are numerically equal (`1` is not `1.0`).
The members of an object are kept in the order of their keys by `Json.object`; `Json.same` compares member by
member, so that for such objects the order in which they were written has no meaning.
-/

namespace Segmentation

inductive Json where
  | null
  | bool (value : Bool)
  | int (value : Int)
  | float (value : Double)
  | str (text : String)
  | arr (items : List Json)
  | obj (members : List (String × Json))
  deriving Inhabited

namespace Json

/-- The name of the kind of a value. -/
def typeName : Json → String
  | .null => "null"
  | .bool _ => "bool"
  | .int _ => "number"
  | .float _ => "number"
  | .str _ => "string"
  | .arr _ => "array"
  | .obj _ => "object"

/-- An object, its members in the order of their keys. -/
def object (members : List (String × Json)) : Json := .obj (Keyed.ofList members)

mutual

/-- Equality of values: the two zeros of binary64 are equal, whole and binary64 numbers never. -/
def same : Json → Json → Bool
  | .null, .null => true
  | .bool a, .bool b => a == b
  | .int a, .int b => a == b
  | .float a, .float b => a.same b
  | .str a, .str b => a == b
  | .arr a, .arr b => sameItems a b
  | .obj a, .obj b => sameMembers a b
  | _, _ => false

def sameItems : List Json → List Json → Bool
  | [], [] => true
  | a :: as, b :: bs => same a b && sameItems as bs
  | _, _ => false

def sameMembers : List (String × Json) → List (String × Json) → Bool
  | [], [] => true
  | (k, a) :: as, (l, b) :: bs => k == l && same a b && sameMembers as bs
  | _, _ => false

end

instance : BEq Json := ⟨same⟩

/-- The member of an object. -/
def get? (value : Json) (key : String) : Option Json :=
  match value with
  | .obj members => members.lookup key
  | _ => none

/-- The value below a list of keys; whatever is missing on the way is null. -/
def atPath (value : Json) (path : List String) : Json :=
  path.foldl (fun v key => (v.get? key).getD .null) value

/-- The value, or null where there is none. -/
def ofOption : Option Json → Json
  | none => .null
  | some value => value

end Json

end Segmentation
