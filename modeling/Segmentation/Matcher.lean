import Segmentation.Schema
import Segmentation.StableKey

/-!
# Matchers

A matcher decides whether a subject has some property.  Its evaluator is single, called once for each decision,
or batched, called once for many requests.  A matcher with a schema takes exactly one argument.

Evaluators are told how often they were called before, so that one that keeps a count is a function too; a pure
evaluator ignores the number.
-/

namespace Segmentation

/-- What an evaluator decides on: the subject and the argument, if the matcher takes one. -/
structure Request where
  subject : Json
  args : Option Json

/-- The key of a request among all requests; an absent argument is written like a null one. -/
def Request.stableKey (request : Request) : String :=
  (Json.obj [("args", .ofOption request.args), ("subject", request.subject)]).stableKey

/-- What a batched evaluator does with its entries, which it names by their position in the batch. -/
inductive BatchTask where
  | done (ending : Ending Unit)
  | sleep (ticks : Nat) (rest : BatchTask)
  | resolve (entry : Nat) (answer : Bool) (rest : BatchTask)
  /-- Hands the resolver of an entry to a timer. -/
  | resolveLater (ticks : Nat) (entry : Nat) (answer : Bool) (rest : BatchTask)
  /-- Keeps the resolver of an entry beyond the end of the batch. -/
  | keep (entry : Nat) (rest : BatchTask)
  /-- Queues a request with another matcher that has a queue, or with the same one if none is named. -/
  | loadInto (peer : Option String) (request : Request) (rest : BatchTask)

/-- Queues a request with the same matcher. -/
def BatchTask.load (request : Request) (rest : BatchTask) : BatchTask := .loadInto none request rest

abbrev SingleEvaluator := Nat → Request → Launch (Task (Ending Bool))

abbrev BatchEvaluator := Nat → List Request → Launch BatchTask

inductive Evaluator where
  | single (evaluate : SingleEvaluator)
  | batch (evaluate : BatchEvaluator)

structure Matcher where
  schema : Option Schema
  evaluator : Evaluator

/-- The four kinds of matchers. -/
inductive Shape where
  | plain
  | batched
  | withArgs
  | batchedWithArgs
  deriving DecidableEq

def Shape.name : Shape → String
  | .plain => "Plain"
  | .batched => "Batched"
  | .withArgs => "WithArgs"
  | .batchedWithArgs => "BatchedWithArgs"

namespace Matcher

def takesArgs (matcher : Matcher) : Bool := matcher.schema.isSome

def isBatched (matcher : Matcher) : Bool :=
  match matcher.evaluator with
  | .single _ => false
  | .batch _ => true

def shape (matcher : Matcher) : Shape :=
  match matcher.takesArgs, matcher.isBatched with
  | false, false => .plain
  | false, true => .batched
  | true, false => .withArgs
  | true, true => .batchedWithArgs

/-- The text of a matcher in messages. -/
def display (matcher : Matcher) : String := "MatcherConfig \x7b shape: " ++ matcher.shape.name ++ " \x7d"

/-- A matcher as it is described, before it is known to have an evaluator. -/
structure Draft where
  schema : Option Schema
  single : Option SingleEvaluator
  batch : Option BatchEvaluator

/-- Whether a draft has an evaluator too many. -/
def Draft.isAmbiguous (draft : Draft) : Bool := draft.single.isSome && draft.batch.isSome

/-- Of two evaluators the batched one is used. -/
def Draft.build (draft : Draft) : Except Error Matcher :=
  match draft.single, draft.batch with
  | _, some evaluate => .ok ⟨draft.schema, .batch evaluate⟩
  | some evaluate, none => .ok ⟨draft.schema, .single evaluate⟩
  | none, none => .error (.invalidMatcher "a matcher needs an evaluate or evaluate_batch function")

end Matcher

end Segmentation
