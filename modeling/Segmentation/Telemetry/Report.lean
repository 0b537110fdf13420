import Segmentation.Telemetry

/-!
# Reports

A `Report` says what happened between two states of the journal: the calls of user code, and what loggers,
observers, tracers and subscribers saw.  Instants are counted from the beginning of that time.
-/

namespace Segmentation

/-- An error as a logger or observer receives it. -/
structure ReportedError where
  error : Error
  segment : String
  subject : Json

structure Diagnostic where
  level : Level
  text : String
  fields : List (String × Json)

structure Report where
  /-- The calls of single evaluators: instant, matcher and argument. -/
  calls : List (Nat × String × Option Json)
  /-- The calls of batched evaluators: matcher, instant and arguments. -/
  batches : List (String × Nat × List (Option Json))
  fallbacks : List (Nat × List Error)
  logged : List ReportedError
  observed : List ReportedError
  spanCalls : List (Nat × SpanCall)
  traces : List (Nat × TraceEntry)
  diagnostics : List Diagnostic
  elapsed : Nat
  /-- Number of evaluators that were dropped while they slept. -/
  dropped : Nat

namespace Telemetry

/-- Lets everybody read on from one state of the journal to a later one. -/
def readOn (t : Telemetry) (earlier later : Journal) : Report × Telemetry :=
  let entries := later.entries.drop earlier.entries.length
  let t := { t with sightings := [] }.seeAll (entries.map fun (entry : Nat × Event) => entry.2)
  ({ calls := entries.filterMap fun
      | (instant, .invoked matcher args) => some (instant - earlier.now, matcher, args)
      | _ => none
     batches := entries.filterMap fun
      | (instant, .batchInvoked matcher args) => some (matcher, instant - earlier.now, args)
      | _ => none
     fallbacks := entries.filterMap fun
      | (instant, .fallbackAsked errors) => some (instant - earlier.now, errors)
      | _ => none
     logged := t.sightings.filterMap fun
      | .logged error segment subject => some ⟨error, segment, subject⟩
      | _ => none
     observed := t.sightings.filterMap fun
      | .observed error segment subject => some ⟨error, segment, subject⟩
      | _ => none
     spanCalls := t.sightings.filterMap fun
      | .spanCall span call => some (span, call)
      | _ => none
     traces := t.sightings.filterMap fun
      | .trace span entry => some (span, entry)
      | _ => none
     diagnostics := t.sightings.filterMap fun
      | .diagnostic level text fields => some ⟨level, text, fields⟩
      | _ => none
     elapsed := later.now - earlier.now
     dropped := entries.countP fun
      | (_, .evaluatorDropped _) => true
      | _ => false }, t)

end Telemetry

end Segmentation
