import Segmentation.Node

/-!
# Trees as JSON values

`Node.toJson` writes a tree as objects whose member `type` says which kind of node they are; `Node.ofJson?` reads
them.  A leaf without argument has no member `args`, and a null there is read as no argument.  The reader also
takes a node as an array: its kind, then its members in order; below the root a kind may be given by its number.
-/

namespace Segmentation.Node

inductive Kind where
  | leaf
  | and
  | or
  | not
  deriving DecidableEq

def Kind.name : Kind → String
  | .leaf => "matcher"
  | .and => "and"
  | .or => "or"
  | .not => "not"

def Kind.ofName? : String → Option Kind
  | "matcher" => some .leaf
  | "and" => some .and
  | "or" => some .or
  | "not" => some .not
  | _ => none

/-- The kind that a member `type` gives; numbers count from the leaf. -/
def Kind.ofJson? (nested : Bool) : Json → Option Kind
  | .str name => ofName? name
  | .int 0 => if nested then some .leaf else none
  | .int 1 => if nested then some .and else none
  | .int 2 => if nested then some .or else none
  | .int 3 => if nested then some .not else none
  | _ => none

mutual

def toJson : Node → Json
  | .leaf name none => .obj [("name", .str name), ("type", .str Kind.leaf.name)]
  | .leaf name (some args) => .obj [("args", args), ("name", .str name), ("type", .str Kind.leaf.name)]
  | .and children => .obj [("children", .arr (toJsons children)), ("type", .str Kind.and.name)]
  | .or children => .obj [("children", .arr (toJsons children)), ("type", .str Kind.or.name)]
  | .not child => .obj [("child", toJson child), ("type", .str Kind.not.name)]

def toJsons : List Node → List Json
  | [] => []
  | n :: ns => toJson n :: toJsons ns

end

/-- The argument that a member gives: null is none. -/
def boundArgs : Option Json → Option Json
  | some .null => none
  | args => args

mutual

def ofJson? (nested : Bool) : Json → Option Node
  | .obj members => do
    match ← Kind.ofJson? nested (← members.lookup "type") with
    | .leaf =>
      match members.lookup "name" with
      | some (.str name) => some (.leaf name (boundArgs (members.lookup "args")))
      | _ => none
    | .and => (childrenIn? members).map .and
    | .or => (childrenIn? members).map .or
    | .not => (childIn? members).map .not
  | .arr items => ofItems? nested items
  | _ => none

/-- A node given as its kind and its members in order. -/
def ofItems? (nested : Bool) : List Json → Option Node
  | [kind, first] =>
    match Kind.ofJson? nested kind with
    | some .leaf =>
      match first with
      | .str name => some (.leaf name none)
      | _ => none
    | some .and => (childrenOf? first).map .and
    | some .or => (childrenOf? first).map .or
    | some .not => (ofJson? true first).map .not
    | none => none
  | [kind, .str name, args] =>
    match Kind.ofJson? nested kind with
    | some .leaf => some (.leaf name (boundArgs (some args)))
    | _ => none
  | _ => none

def childrenOf? : Json → Option (List Node)
  | .arr items => ofJsons? items
  | _ => none

def ofJsons? : List Json → Option (List Node)
  | [] => some []
  | v :: vs => do
    let n ← ofJson? true v
    let ns ← ofJsons? vs
    some (n :: ns)

def childIn? : List (String × Json) → Option Node
  | [] => none
  | (key, v) :: rest => if key = "child" then ofJson? true v else childIn? rest

def childrenIn? : List (String × Json) → Option (List Node)
  | [] => none
  | (key, v) :: rest => if key = "children" then childrenOf? v else childrenIn? rest

end

end Segmentation.Node
