import Segmentation.Registry

/-!
# Expressions

An `Expr` joins definitions by AND, OR and NOT.  A segment is defined by a `Recipe`, which says for a subject how
its expression is put together from registered matchers; `Recipe.build` follows it from left to right and stops at
the first thing that fails.
-/

namespace Segmentation

inductive Expr where
  | leaf (definition : Definition)
  | and (operands : List Expr)
  | or (operands : List Expr)
  | not (operand : Expr)

namespace Expr

mutual

def toNode : Expr → Node
  | .leaf definition => definition.toNode
  | .and operands => .and (toNodes operands)
  | .or operands => .or (toNodes operands)
  | .not operand => .not (toNode operand)

def toNodes : List Expr → List Node
  | [] => []
  | e :: es => toNode e :: toNodes es

end

end Expr

/-- How a segment definition goes about its expression. -/
inductive Recipe where
  | matcher (name : String)
  | matcherWith (name : String) (args : Json)
  | and (operands : List Recipe)
  | or (operands : List Recipe)
  | not (operand : Recipe)
  /-- The definition returns an error. -/
  | fails (error : Error)
  | panics (payload : Payload)
  deriving Inhabited

/-- Why something was not built. -/
inductive BuildError where
  | returned (error : Error)
  | panicked (payload : Payload)

namespace Recipe

/-- Keeps the registry and refines the error of a look-up. -/
def asLeaf : Except Error Definition × Registry → Except BuildError Expr × Registry
  | (.ok definition, registry) => (.ok (.leaf definition), registry)
  | (.error error, registry) => (.error (.returned error), registry)

mutual

def build : Recipe → Registry → Except BuildError Expr × Registry
  | .matcher name, registry => asLeaf (registry.definition name)
  | .matcherWith name args, registry => asLeaf (registry.definitionWith name args)
  | .and operands, registry =>
    match buildAll operands registry with
    | (.ok operands, registry) => (.ok (.and operands), registry)
    | (.error error, registry) => (.error error, registry)
  | .or operands, registry =>
    match buildAll operands registry with
    | (.ok operands, registry) => (.ok (.or operands), registry)
    | (.error error, registry) => (.error error, registry)
  | .not operand, registry =>
    match build operand registry with
    | (.ok operand, registry) => (.ok (.not operand), registry)
    | (.error error, registry) => (.error error, registry)
  | .fails error, registry => (.error (.returned error), registry)
  | .panics payload, registry => (.error (.panicked payload), registry)

def buildAll : List Recipe → Registry → Except BuildError (List Expr) × Registry
  | [], registry => (.ok [], registry)
  | r :: rs, registry =>
    match build r registry with
    | (.error error, registry) => (.error error, registry)
    | (.ok e, registry) =>
      match buildAll rs registry with
      | (.error error, registry) => (.error error, registry)
      | (.ok es, registry) => (.ok (e :: es), registry)

end

end Recipe

end Segmentation
