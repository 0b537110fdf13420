import Segmentation.Engine
import Segmentation.Gathering
import Segmentation.Session

/-!
# Asking whether a subject belongs to a segment

A `Call` builds the expression of a segment, evaluates it in a session of its own, and answers.  It never fails: an
error is reported and then answered with false, or with what the fallback says.  `Party` runs calls at once on one
engine; they share nothing but the registry, the journal and the clock.
-/

namespace Segmentation

/-- Decides when an evaluation fails. -/
abbrev Fallback := List Error → Launch (Task (Ending Bool))

inductive CallStage where
  | waiting
  /-- The expression is evaluated, under a span and the context taken from it. -/
  | driving (span context : Nat) (hub : Hub) (drive : Drive Evaluation)
  /-- There is an outcome; the queues are emptied. -/
  | flushing (span context : Nat) (hub : Hub) (outcome : Outcome) (invocations : Nat) (flush : Flush)
  /-- The fallback is asleep; `alarm` is the number of its alarm. -/
  | recovering (span : Nat) (deadline alarm : Nat) (rest : Task (Ending Bool))
  | answered (value : Bool)

structure Call where
  subject : Json
  target : Target
  fallback : Option Fallback
  stage : CallStage
  /-- The alarms that its evaluation left set; they find nobody. -/
  strays : List Nat

namespace Call

def start (subject : Json) (target : Target) (fallback : Option Fallback) : Call :=
  ⟨subject, target, fallback, .waiting, []⟩

def answer? (call : Call) : Option Bool :=
  match call.stage with
  | .answered value => some value
  | _ => none

variable (call : Call)

/-- Gives the answer and ends the span. -/
def finish (span : Nat) (value : Bool) (journal : Journal) : Call × Journal :=
  ({ call with stage := .answered value },
    journal.recordAll [.span (.attributed span "segment.result" (.bool value)), .span (.ended span)])

/-- Takes the answer of a fallback; if it fails the answer is false. -/
def recovered (span : Nat) (running : Running (Ending Bool)) (journal : Journal) : Call × Journal :=
  match running with
  | .asleep deadline rest =>
    ({ call with stage := .recovering span deadline journal.alarms rest }, journal.countAlarm)
  | .ended ending =>
    match ending.contained with
    | .ok value => call.finish span value journal
    | .error cause => call.finish span false (journal.notice (.fallbackFailed call.target.name cause.message))

/-- Answers for an outcome: a value as it is, an error after it was reported. -/
def conclude (span : Nat) (outcome : Outcome) (journal : Journal) : Call × Journal :=
  match outcome with
  | .ok value => call.finish span value (journal.record (.span (.statusSet span ⟨.ok, none⟩)))
  | .error error =>
    let journal := journal.recordAll ((SpanEvent.ofError span error).map .span)
    let journal := journal.record (.errorReported error call.target.name call.subject)
    match call.fallback with
    | none => call.finish span false journal
    | some fallback =>
      let journal := journal.record (.fallbackAsked [error])
      call.recovered span ((fallback [error]).start journal.now .panicked) journal

/-- Empties the queues; then the evaluation is over. -/
def flushQueues (span context : Nat) (outcome : Outcome) (invocations : Nat) (flush : Flush) (scene : Scene) :
    Call × Journal :=
  let (flush, scene) := flush.pass scene
  if flush.finished then
    let journal := scene.journal.notice (.segmentEvaluated call.target.name invocations flush.flushed)
    { call with strays := scene.hub.answerAlarms }.conclude span outcome
      (journal.record (.span (.contextReleased context)))
  else
    ({ call with stage := .flushing span context scene.hub outcome invocations flush }, scene.journal)

/-- Drives the evaluation on. -/
def driveOn (span context : Nat) (drive : Drive Evaluation) (scene : Scene) : Call × Journal :=
  let (drive, scene) := drive.pass scene
  match drive.finished, drive.client.outcome? with
  | true, some outcome =>
    call.flushQueues span context outcome drive.client.session.invocations.length .start scene
  | _, _ => ({ call with stage := .driving span context scene.hub drive }, scene.journal)

/-- Starts the span, builds the expression and begins to evaluate it. -/
def begins (segments : Keyed SegmentDefinition) (registry : Registry) (journal : Journal) :
    Call × Registry × Journal :=
  let span := journal.spanCount
  let context := journal.contextCount
  let name := call.target.name
  let journal := journal.recordAll
    [.span (.started 0 ("segment:" ++ name) none), .span (.attributed span "segment.name" (.string name)),
      .span (.contextTaken span)]
  match Engine.buildExpr segments registry call.subject call.target with
  | (.error error, registry) =>
    let (call, journal) := call.conclude span (.error error) (journal.record (.span (.contextReleased context)))
    (call, registry, journal)
  | (.ok expr, registry) =>
    let session := Session.start ⟨call.subject, name, true, 0, some (.taken context)⟩
    let (evaluation, scene) := Evaluation.start session expr ⟨.empty, journal⟩
    let (call, journal) := call.driveOn span context (.start evaluation) scene
    (call, registry, journal)

def poll (segments : Keyed SegmentDefinition) (registry : Registry) (journal : Journal) : Call × Registry × Journal :=
  match call.stage with
  | .waiting => call.begins segments registry journal
  | .driving span context hub drive =>
    let (call, journal) := call.driveOn span context drive ⟨hub, journal⟩
    (call, registry, journal)
  | .flushing span context hub outcome invocations flush =>
    let (call, journal) := call.flushQueues span context outcome invocations flush ⟨hub, journal⟩
    (call, registry, journal)
  | .recovering span deadline _ rest =>
    if deadline ≤ journal.now then
      let (call, journal) := call.recovered span (rest.start journal.now) journal
      (call, registry, journal)
    else (call, registry, journal)
  | .answered _ => (call, registry, journal)

/-- Whether polling the call at an instant makes progress. -/
def awake (now : Nat) : Bool :=
  match call.stage with
  | .waiting => true
  | .driving _ _ hub drive => drive.awake hub
  | .flushing _ _ _ _ _ flush => flush.awake now
  | .recovering _ deadline _ _ => deadline ≤ now
  | .answered _ => false

/-- The instants of the alarms of the call. -/
def alarms : List Nat :=
  call.strays ++
    match call.stage with
    | .waiting => []
    | .driving _ _ hub _ => hub.alarms.map (·.deadline)
    | .flushing _ _ hub _ _ _ => hub.alarms.map (·.deadline)
    | .recovering _ deadline _ _ => [deadline]
    | .answered _ => []

/-- The alarms that stay set when the call is over or dropped. -/
def leftovers : List Nat :=
  call.strays ++
    match call.stage with
    | .driving _ _ hub _ => hub.answerAlarms
    | .flushing _ _ hub _ _ _ => hub.answerAlarms
    | _ => []

/-- The number of the first alarm due at an instant that wakes the call. -/
def firstRousing (now : Nat) : Option Nat :=
  match call.stage with
  | .waiting => none
  | .driving _ _ hub _ => hub.firstRousing now
  | .flushing _ _ hub _ _ _ => hub.firstRousing now
  | .recovering _ deadline alarm _ => if deadline ≤ now then some alarm else none
  | .answered _ => none

/-- Lets the alarms due at an instant go off. -/
def advance (now : Nat) : Call :=
  let strays := call.strays.filter (now < ·)
  match call.stage with
  | .driving span context hub drive =>
    let (drive, hub) := drive.advance hub now
    { call with strays, stage := .driving span context hub drive }
  | .flushing span context hub outcome invocations flush =>
    { call with strays, stage := .flushing span context (hub.advance now) outcome invocations flush }
  | _ => { call with strays }

/-- Drops a call that has not answered: its evaluators, its batches and its spans. -/
def drop (journal : Journal) : Journal :=
  match call.stage with
  | .waiting => journal
  | .driving span context hub drive =>
    let journal := (drive.drop ⟨hub, journal⟩).journal
    let journal := drive.client.session.drop journal
    journal.recordAll [.span (.contextReleased context), .span (.ended span)]
  | .flushing span context hub _ _ flush =>
    let journal := (flush.drop ⟨hub, journal⟩).journal
    journal.recordAll [.span (.contextReleased context), .span (.ended span)]
  | .recovering span _ _ _ => journal.record (.span (.ended span))
  | .answered _ => journal

end Call

/-- Calls that run at once. -/
structure Party where
  segments : Keyed SegmentDefinition
  registry : Registry
  journal : Journal
  calls : List Call
  /-- The calls that were woken, in this order. -/
  woken : List Nat

namespace Party

/-- Polls one call, if it can go on. -/
def pollCall (party : Party) (index : Nat) : Party :=
  match party.calls[index]? with
  | none => party
  | some call =>
    if !call.awake party.journal.now then party
    else
      let (call, registry, journal) := call.poll party.segments party.registry party.journal
      { party with calls := party.calls.set index call, registry, journal }

/-- Polls the calls that have a turn. -/
def poll (party : Party) : Party :=
  let turns := Gathering.turns party.calls.length party.woken
  let party := turns.foldl pollCall party
  { party with woken := turns.filter fun i => (party.calls[i]?.map (·.awake party.journal.now)).getD false }

/-- The calls that the alarms due at an instant wake, in the order in which they do. -/
def roused (party : Party) (now : Nat) : List Nat :=
  Gathering.ranked (party.calls.zipIdx.filterMap fun (call, index) => (call.firstRousing now).map (·, index))

instance : Machine Party where
  poll := poll
  finished party := party.calls.all fun call => call.answer?.isSome
  awake party := party.calls.any fun call => call.awake party.journal.now
  nextAlarm party := (party.calls.flatMap Call.alarms).min?
  advance now party :=
    { party with
      journal := party.journal.moveTo now
      calls := party.calls.map (·.advance now)
      woken := party.woken ++ (party.roused now).filter (· ∉ party.woken) }

def answers (party : Party) : List (Option Bool) := party.calls.map (·.answer?)

/-- The alarms that stay set after the calls. -/
def leftovers (party : Party) : List Nat := party.calls.flatMap Call.leftovers

def drop (party : Party) : Journal := party.calls.foldl (fun journal call => call.drop journal) party.journal

end Party

namespace Engine

/-- Calls for one subject each, ready to run. -/
def party (engine : Engine) (journal : Journal) (calls : List Call) : Party :=
  ⟨engine.segments, engine.registry, journal, calls, List.range calls.length⟩

/-- The calls that ask for every registered segment, in the order of their names. -/
def callsForAll (engine : Engine) (subject : Json) : List Call :=
  engine.segmentNames.map fun name => .start subject (.named name) none

/-- The names whose calls were answered with true. -/
def matching (engine : Engine) (answers : List (Option Bool)) : List String :=
  ((engine.segmentNames.zip answers).filter (·.2 = some true)).map (·.1)

end Engine

end Segmentation
