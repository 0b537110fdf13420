import Segmentation.Keyed
import Segmentation.Matcher
import Segmentation.Memo
import Segmentation.Node

/-!
# Registered matchers and their definitions

A `Definition` is a matcher bound to its name and, if it takes one, an argument.  A `Registry` hands definitions
out: always the same one for a matcher without argument, and for a matcher with argument the one made for an
argument with the same stable key while the matcher's memo remembers it.  Definitions are told apart by their
serial number.
-/

namespace Segmentation

structure Definition where
  name : String
  /-- The argument as it was bound, before any validation. -/
  args : Option Json
  matcher : Matcher
  serial : Nat

namespace Definition

def toNode (definition : Definition) : Node := .leaf definition.name definition.args

/-- The key under which one evaluation keeps the outcome: the name, and the stable key of the argument in
parentheses. -/
def key (definition : Definition) : String := String.ofList (Node.leafChars definition.name definition.args)

/-- The text of a definition in messages. -/
def display (definition : Definition) : String :=
  let args := match definition.args with
    | none => "None"
    | some args => "Some(" ++ args.display ++ ")"
  "MatcherDefinition \x7b name: " ++ String.ofList (Text.displayed definition.name.toList) ++
    ", args: " ++ args ++ " \x7d"

end Definition

/-- A registered matcher with the definitions it handed out. -/
structure Handle where
  name : String
  matcher : Matcher
  /-- The definition of a matcher without argument, once it was asked for. -/
  singleton : Option Definition
  memo : Memo Definition

structure Registry where
  handles : Keyed Handle
  /-- The serial number of the next definition. -/
  nextSerial : Nat

namespace Registry

/-- Registers matchers; of two with one name the last one counts. -/
def compile (matchers : List (String × Matcher)) (memoCapacity : Nat) : Registry where
  handles := (Keyed.ofList matchers).map fun (name, matcher) =>
    (name, ⟨name, matcher, none, .empty memoCapacity⟩)
  nextSerial := 0

def names (registry : Registry) : List String := registry.handles.keys

def get? (registry : Registry) (name : String) : Option Handle := registry.handles.get? name

/-- Number of definitions that a matcher with argument remembers. -/
def memoized? (registry : Registry) (name : String) : Option Nat := (registry.get? name).map (·.memo.size)

/-- Makes a definition and puts it where the handle keeps it. -/
def define (registry : Registry) (handle : Handle) (args : Option Json) : Definition × Registry :=
  let definition : Definition := ⟨handle.name, args, handle.matcher, registry.nextSerial⟩
  let keep (handle : Handle) : Handle :=
    match args with
    | none => { handle with singleton := some definition }
    | some args => { handle with memo := handle.memo.insert args.stableKey definition }
  (definition, ⟨registry.handles.modify handle.name keep, registry.nextSerial + 1⟩)

/-- The definition of a matcher without argument. -/
def definition (registry : Registry) (name : String) : Except Error Definition × Registry :=
  match registry.get? name with
  | none => (.error (.unknownMatcher name), registry)
  | some handle =>
    if handle.matcher.takesArgs then (.error (.matcherArity name "requires an argument"), registry)
    else
      match handle.singleton with
      | some definition => (.ok definition, registry)
      | none =>
        let (definition, registry) := registry.define handle none
        (.ok definition, registry)

/-- The definition of a matcher bound to an argument. -/
def definitionWith (registry : Registry) (name : String) (args : Json) : Except Error Definition × Registry :=
  match registry.get? name with
  | none => (.error (.unknownMatcher name), registry)
  | some handle =>
    if !handle.matcher.takesArgs then (.error (.matcherArity name "takes no arguments"), registry)
    else
      let key := args.stableKey
      match handle.memo.find? key with
      | some definition =>
        let refresh (handle : Handle) : Handle := { handle with memo := handle.memo.insert key definition }
        (.ok definition, { registry with handles := registry.handles.modify name refresh })
      | none =>
        let (definition, registry) := registry.define handle (some args)
        (.ok definition, registry)

end Registry

end Segmentation
