import Segmentation.Error
import Segmentation.Matcher
import Segmentation.Span

/-!
# The journal

Everything that happens is written into one journal in the order in which it happens, each entry with its
instant.  What loggers, observers, tracers and subscribers see is read off the journal afterwards; they cannot act
on what happens.  The journal also tells how often a matcher was invoked before, and how many alarms were set.
-/

namespace Segmentation

inductive Level where
  | error
  | warn
  | info
  | debug
  | trace
  deriving DecidableEq

def Level.name : Level → String
  | .error => "ERROR"
  | .warn => "WARN"
  | .info => "INFO"
  | .debug => "DEBUG"
  | .trace => "TRACE"

def Level.all : List Level := [.error, .warn, .info, .debug, .trace]

/-- Greater for levels that say more. -/
def Level.verbosity : Level → Nat
  | .error => 1
  | .warn => 2
  | .info => 3
  | .debug => 4
  | .trace => 5

/-- Which tracer an engine has, in messages. -/
inductive TracerKind where
  | disabled
  | enabled
  | custom
  deriving DecidableEq

def TracerKind.name : TracerKind → String
  | .disabled => "Disabled"
  | .enabled => "Enabled"
  | .custom => "Custom"

/-- What is of interest to whoever looks after a program. -/
inductive Notice where
  | ambiguousMatcher
  | matcherCompiled (matcher : String) (shape : Shape)
  | engineBuilt (matchers segments : Nat) (tracer : TracerKind)
  | subjectRejected (issues : Nat)
  | cacheHit (segment key : String)
  | batchFlushed (matcher : String) (size : Nat)
  | batchFailed (matcher : String) (size pending : Nat) (error : String)
  | segmentEvaluated (segment : String) (invocations flushed : Nat)
  | fallbackFailed (segment error : String)
  | message (level : Level) (text : String)

inductive Event where
  /-- The schema of a matcher was asked about an argument. -/
  | argumentChecked (matcher : String) (argument : Json)
  /-- An invocation queued a request, or joined the one that is queued already. -/
  | requested (matcher : String) (args : Option Json)
  /-- A single evaluator was called. -/
  | invoked (matcher : String) (args : Option Json)
  /-- A batched evaluator was called. -/
  | batchInvoked (matcher : String) (args : List (Option Json))
  /-- An evaluator that was called has ended, in whatever way. -/
  | evaluatorEnded (matcher : String)
  /-- An evaluator was dropped while it slept. -/
  | evaluatorDropped (matcher : String)
  | span (event : SpanEvent)
  /-- An error was handed to the logger and the observer. -/
  | errorReported (error : Error) (segment : String) (subject : Json)
  /-- A fallback was asked. -/
  | fallbackAsked (errors : List Error)
  | noticed (notice : Notice)

structure Journal where
  now : Nat
  /-- Number of alarms set so far. -/
  alarms : Nat
  entries : List (Nat × Event)

namespace Journal

def empty : Journal := ⟨0, 0, []⟩

/-- The journal at another instant. -/
def moveTo (now : Nat) (journal : Journal) : Journal := { journal with now }

/-- Counts an alarm that is set. -/
def countAlarm (journal : Journal) : Journal := { journal with alarms := journal.alarms + 1 }

def record (journal : Journal) (event : Event) : Journal :=
  { journal with entries := journal.entries ++ [(journal.now, event)] }

def recordAll (journal : Journal) (events : List Event) : Journal :=
  { journal with entries := journal.entries ++ events.map (journal.now, ·) }

def notice (journal : Journal) (notice : Notice) : Journal := journal.record (.noticed notice)

def events (journal : Journal) : List Event := journal.entries.map (·.2)

/-- How often a single or batched evaluator was called. -/
def invocations (journal : Journal) (matcher : String) : Nat :=
  journal.events.countP fun
    | .invoked name _ => name == matcher
    | .batchInvoked name _ => name == matcher
    | _ => false

def spanCount (journal : Journal) : Nat :=
  journal.events.countP fun
    | .span (.started _ _ _) => true
    | _ => false

def contextCount (journal : Journal) : Nat :=
  journal.events.countP fun
    | .span (.contextTaken _) => true
    | _ => false

end Journal

end Segmentation
