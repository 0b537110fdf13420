import Segmentation.Schema

/-!
# Record schemas

A record has named fields of fixed kinds.  `Record.read` takes one from an object, whose members it visits in the
order of their keys, or from an array of the fields in order.  It gives the record written back with all its
fields, or the message of the first thing that is wrong; unknown members are skipped.
-/

namespace Segmentation

/-- What a field may hold. -/
inductive FieldKind where
  /-- A whole number between two bounds, under the name of its type. -/
  | whole (typeName : String) (lowest highest : Int)
  | text
  | flag
  | texts
  /-- Null, or what another kind holds. -/
  | nullable (kind : FieldKind)

/-- What a field is when a record does not give it. -/
inductive Absence where
  | missing
  | defaultsTo (value : Json)
  /-- A default that arrays do not have. -/
  | defaultsInObjects (value : Json)

structure Field where
  name : String
  kind : FieldKind
  absence : Absence

structure Record where
  name : String
  fields : List Field

namespace Record

/-- A value as messages name it. -/
def describe : Json → String
  | .null => "null"
  | .bool b => "boolean `" ++ (Json.bool b).text ++ "`"
  | .int n => "integer `" ++ (Json.int n).text ++ "`"
  | .float x => "floating point `" ++ (Json.float x).text ++ "`"
  | .str s => "string " ++ String.ofList (Text.displayed s.toList)
  | .arr _ => "sequence"
  | .obj _ => "map"

def wrongType (value : Json) (expected : String) : String :=
  "invalid type: " ++ describe value ++ ", expected " ++ expected

/-- The kind in messages. -/
def expectation : FieldKind → String
  | .whole typeName _ _ => typeName
  | .text => "a string"
  | .flag => "a boolean"
  | .texts => "a sequence"
  | .nullable kind => expectation kind

def readText (value : Json) : Except String Json :=
  match value with
  | .str s => .ok (.str s)
  | _ => .error (wrongType value (expectation .text))

/-- The value of a field, if it is of the field's kind. -/
def readField : FieldKind → Json → Except String Json
  | .whole typeName lowest highest, .int n =>
    if lowest ≤ n ∧ n ≤ highest then .ok (.int n)
    else .error ("invalid value: integer `" ++ (Json.int n).text ++ "`, expected " ++ typeName)
  | .text, value => readText value
  | .flag, .bool b => .ok (.bool b)
  | .texts, .arr items => (items.mapM readText).map .arr
  | .nullable _, .null => .ok .null
  | .nullable kind, value => readField kind value
  | kind, value => .error (wrongType value (expectation kind))

/-- The members that are fields, read in the order in which they stand. -/
def readMembers (fields : List Field) : List (String × Json) → Except String (List (String × Json))
  | [] => .ok []
  | (key, value) :: rest =>
    match fields.find? (·.name = key) with
    | none => readMembers fields rest
    | some field => do
      let value ← readField field.kind value
      let rest ← readMembers fields rest
      .ok ((key, value) :: rest)

/-- The field of an object of which `given` was read. -/
def complete (given : List (String × Json)) (field : Field) : Except String (String × Json) :=
  match given.lookup field.name, field.absence with
  | some value, _ => .ok (field.name, value)
  | none, .defaultsTo value => .ok (field.name, value)
  | none, .defaultsInObjects value => .ok (field.name, value)
  | none, .missing => .error ("missing field `" ++ field.name ++ "`")

/-- The number of elements and the record they belong to, in messages. -/
def lengthError (record : Record) (length : Nat) : String :=
  "invalid length " ++ (Json.int length).text ++ ", expected struct " ++ record.name ++ " with " ++
    (Json.int record.fields.length).text ++ " elements"

/-- The fields from the position `index` on, of an array of which `items` are left. -/
def readItems (record : Record) (index : Nat) : List Field → List Json → Except String (List (String × Json))
  | [], [] => .ok []
  | [], items =>
    .error ("invalid length " ++ (Json.int (index + items.length : Nat)).text ++
      ", expected fewer elements in array")
  | field :: fields, value :: items => do
    let value ← readField field.kind value
    let rest ← readItems record (index + 1) fields items
    .ok ((field.name, value) :: rest)
  | field :: fields, [] =>
    match field.absence with
    | .defaultsTo value => do
      let rest ← readItems record (index + 1) fields []
      .ok ((field.name, value) :: rest)
    | _ => .error (record.lengthError index)

def read (record : Record) : Json → Except String Json
  | .obj members => do
    let given ← readMembers record.fields members
    let all ← record.fields.mapM (complete given)
    .ok (Json.object all)
  | .arr items => do
    let all ← record.readItems 0 record.fields items
    .ok (Json.object all)
  | value => .error (wrongType value ("struct " ++ record.name))

/-- Accepts records, written back; the message of what is wrong is the one issue. -/
def schema (record : Record) : Schema := .ofCheck fun value =>
  match record.read value with
  | .ok written => .ok (.accepted written)
  | .error message => .ok (.rejected [⟨message, []⟩])

end Record

end Segmentation
