import Segmentation.Json

/-!
# Errors

`Error` says why a segment could not be evaluated.  Its text is `Error.message`; `Error.chain` also lists the
causes below it.  What user code fails with is a `Fault`, any error that has a text and may name another one as its
source.  A `Cause` is the handle through which an `Error` holds a fault.  The handle is a fault as well, with the text
and the source of the one it holds.  A panic is turned into a cause without source.
-/

namespace Segmentation

/-- What a panic carries: a text, or something that has none. -/
inductive Payload where
  | text (message : String)
  | other
  deriving DecidableEq, Inhabited

def Payload.message : Payload → String
  | .text message => message
  | .other => "panic with a non-string payload"

/-- Any error as it is seen from outside: what it says, and what the errors below it say, each the source of the one
before. -/
structure Fault where
  text : String
  sources : List String
  deriving DecidableEq, Inhabited

namespace Fault

/-- An error that says `text` and names the given source. -/
def ofSource (text : String) : Option Fault → Fault
  | none => ⟨text, []⟩
  | some source => ⟨text, source.text :: source.sources⟩

/-- The error that an error names as its source. -/
def source? (fault : Fault) : Option Fault :=
  match fault.sources with
  | [] => none
  | text :: sources => some ⟨text, sources⟩

end Fault

/-- Why user code failed: a handle to the fault it failed with. -/
structure Cause where
  fault : Fault
  deriving DecidableEq, Inhabited

namespace Cause

def ofMessage (message : String) : Cause := ⟨.ofSource message none⟩

def ofPanic (payload : Payload) : Cause := ofMessage payload.message

def message (cause : Cause) : String := cause.fault.text

/-- The handle takes the place of the fault and is not above it: the source is that of the fault, not the fault. -/
def source? (cause : Cause) : Option Fault := cause.fault.source?

/-- The handle as a fault, for others to hold or to name as their source. -/
def toFault (cause : Cause) : Fault := .ofSource cause.message cause.source?

end Cause

/-- What kind of thing went wrong. -/
inductive ErrorKind where
  | matcherArgument
  | matcherEvaluation
  | structural
  | segmentDefinition
  | unexpected
  deriving DecidableEq

def ErrorKind.name : ErrorKind → String
  | .matcherArgument => "MatcherArgumentError"
  | .matcherEvaluation => "MatcherEvaluationError"
  | .structural => "StructuralError"
  | .segmentDefinition => "SegmentDefinitionError"
  | .unexpected => "UnexpectedError"

inductive Error where
  /-- The schema of a matcher refused its argument. -/
  | matcherArgument (matcher segment message : String) (subject : Option Json)
  /-- The evaluator of a matcher failed or panicked. -/
  | matcherEvaluation (matcher segment : String) (subject : Json) (args : Option Json) (cause : Cause)
  | unknownSegment (name : String)
  | unknownMatcher (name : String)
  /-- A matcher was used with an argument it does not take, or without one it needs. -/
  | matcherArity (matcher message : String)
  | invalidMatcher (message : String)
  | missingBatchContext (matcher segment : String)
  /-- A batch ended without answering a request. -/
  | unansweredRequest (matcher segment : String)
  /-- The definition of a segment panicked. -/
  | segmentDefinition (segment : String) (cause : Cause)
  | unexpected (message : String)
  deriving Inhabited

namespace Error

def ofPanic (payload : Payload) : Error := .unexpected payload.message

def kind : Error → ErrorKind
  | .matcherArgument .. => .matcherArgument
  | .matcherEvaluation .. => .matcherEvaluation
  | .unansweredRequest .. => .matcherEvaluation
  | .unknownSegment .. => .structural
  | .unknownMatcher .. => .structural
  | .matcherArity .. => .structural
  | .invalidMatcher .. => .structural
  | .missingBatchContext .. => .structural
  | .segmentDefinition .. => .segmentDefinition
  | .unexpected .. => .unexpected

def matcherName? : Error → Option String
  | .matcherArgument matcher _ _ _ => some matcher
  | .matcherEvaluation matcher _ _ _ _ => some matcher
  | .matcherArity matcher _ => some matcher
  | .missingBatchContext matcher _ => some matcher
  | .unansweredRequest matcher _ => some matcher
  | .unknownMatcher name => some name
  | _ => none

def segmentName? : Error → Option String
  | .matcherArgument _ segment _ _ => some segment
  | .matcherEvaluation _ segment _ _ _ => some segment
  | .missingBatchContext _ segment => some segment
  | .unansweredRequest _ segment => some segment
  | .segmentDefinition segment _ => some segment
  | .unknownSegment name => some name
  | _ => none

def message : Error → String
  | .matcherArgument matcher segment message _ =>
    "Invalid arguments for matcher '" ++ matcher ++ "' in segment '" ++ segment ++ "': " ++ message
  | .matcherEvaluation matcher segment _ _ cause =>
    "Matcher '" ++ matcher ++ "' failed in segment '" ++ segment ++ "': " ++ cause.message
  | .unknownSegment name => "Segment '" ++ name ++ "' is not registered"
  | .unknownMatcher name => "Matcher '" ++ name ++ "' is not registered"
  | .matcherArity matcher message => "Matcher '" ++ matcher ++ "' " ++ message
  | .invalidMatcher message => "Invalid matcher configuration: " ++ message
  | .missingBatchContext matcher segment =>
    "Batched matcher '" ++ matcher ++ "' was evaluated in segment '" ++ segment ++
      "' without an active batch context"
  | .unansweredRequest matcher segment =>
    "Batch evaluator for matcher '" ++ matcher ++ "' in segment '" ++ segment ++
      "' dropped a request without resolving it"
  | .segmentDefinition segment cause => "Segment '" ++ segment ++ "' definition failed: " ++ cause.message
  | .unexpected message => "Unexpected error: " ++ message

/-- The cause that user code gave, if the error has one. -/
def cause? : Error → Option Cause
  | .matcherEvaluation _ _ _ _ cause => some cause
  | .segmentDefinition _ cause => some cause
  | _ => none

/-- The error below: the handle to the cause, for an error that has one. -/
def source? (error : Error) : Option Fault := error.cause?.map Cause.toFault

/-- An error as a fault, which user code may fail with in turn. -/
def toFault (error : Error) : Fault := .ofSource error.message error.source?

/-- Adds a line for `fault` to the text, then one for its source, and so on down. -/
def withSources (text : String) : Option Fault → String
  | none => text
  | some fault => withSources (text ++ "\n  caused by: " ++ fault.text) fault.source?
termination_by below => below.elim 0 fun fault => fault.sources.length + 1
decreasing_by
  obtain ⟨_, _ | _⟩ := fault <;> simp [Fault.source?]

/-- The message, then one line for each error below. -/
def chain (error : Error) : String := withSources error.message error.source?

end Error

end Segmentation
