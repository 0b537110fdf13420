import Segmentation.StableKey

/-!
# Description of an expression tree

A `Node` is what an expression looks like from outside: leaves that name a matcher and its bound argument, joined
by AND, OR and NOT.  `Node.render` writes it with as few parentheses as keep the shape of the tree: an operand in
parentheses binds no tighter than its operator, except that `NOT` is not repeated in parentheses.
-/

namespace Segmentation

inductive Node where
  | leaf (name : String) (args : Option Json)
  | and (children : List Node)
  | or (children : List Node)
  | not (child : Node)
  deriving Inhabited

namespace Node

/-- Binding strength; a higher one binds tighter. -/
def precedence : Node → Nat
  | .or _ => 1
  | .and _ => 2
  | .not _ => 3
  | .leaf _ _ => 4

mutual

/-- Number of leaves, counting duplicates. -/
def leafCount : Node → Nat
  | .leaf _ _ => 1
  | .and children => leafCounts children
  | .or children => leafCounts children
  | .not child => leafCount child

def leafCounts : List Node → Nat
  | [] => 0
  | n :: ns => leafCount n + leafCounts ns

end

def parenthesized (needed : Bool) (text : List Char) : List Char :=
  if needed then '(' :: text ++ [')'] else text

/-- A leaf: the name of its matcher and the stable key of the argument. -/
def leafChars (name : String) : Option Json → List Char
  | none => name.toList
  | some args => name.toList ++ '(' :: args.keyChars ++ [')']

mutual

/-- The text of a node below an operator of the given strength. -/
def chars (outer : Nat) : Node → List Char
  | .leaf name args => leafChars name args
  | .and children => parenthesized (2 < outer) (Text.joined " AND ".toList (operandChars 3 children))
  | .or children => parenthesized (1 < outer) (Text.joined " OR ".toList (operandChars 2 children))
  | .not child => parenthesized (3 < outer) ("NOT ".toList ++ chars 3 child)

def operandChars (outer : Nat) : List Node → List (List Char)
  | [] => []
  | n :: ns => chars outer n :: operandChars outer ns

end

/-- The text of a tree. -/
def render (node : Node) : String := String.ofList (node.chars 0)

end Node

end Segmentation
