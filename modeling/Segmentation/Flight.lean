import Segmentation.Hub

/-!
# Batches in flight

A `Flight` is a batch that was handed to its evaluator.  It is polled when it starts and when its alarm went off.
When it has landed, its resolvers are given up: a ticket without an answer that nobody else can answer is lost.  If
the evaluator failed, `Flight.landContained` answers every open ticket with false before that.
-/

namespace Segmentation

inductive FlightStage where
  | boarding
  | asleep (deadline : Nat) (rest : BatchTask)

structure Flight where
  id : Nat
  matcher : String
  tickets : List Nat
  stage : FlightStage

/-- How far a batch came. -/
inductive FlightProgress where
  | asleep (deadline : Nat) (rest : BatchTask)
  | ended (ending : Ending Unit)

namespace BatchTask

/-- The load that an entry of a batch stands for. -/
def entryLoad? (matcher : String) (tickets : List Nat) (entry : Nat) : Option Load :=
  tickets[entry]?.map (⟨matcher, ·⟩)

/-- Runs a batch until its next sleep. -/
def run (matcher : String) (tickets : List Nat) : BatchTask → Scene → FlightProgress × Scene
  | .done ending, scene => (.ended ending, scene)
  | .sleep 0 rest, scene => rest.run matcher tickets scene
  | .sleep (ticks + 1) rest, scene => (.asleep (scene.journal.now + (ticks + 1)) rest, scene)
  | .resolve entry value rest, scene =>
    rest.run matcher tickets (match entryLoad? matcher tickets entry with
      | some target => { scene with hub := (scene.hub.resolve target value).2 }
      | none => scene)
  | .resolveLater ticks entry value rest, scene =>
    rest.run matcher tickets (match entryLoad? matcher tickets entry with
      | some target => scene.answerAt (scene.journal.now + ticks) target value
      | none => scene)
  | .keep entry rest, scene =>
    rest.run matcher tickets (match entryLoad? matcher tickets entry with
      | some target => { scene with hub := scene.hub.keep target }
      | none => scene)
  | .loadInto peer request rest, scene =>
    let (target, hub) := scene.hub.load (peer.getD matcher) request
    rest.run matcher tickets { scene with hub := { hub with reloads := hub.reloads ++ [target] } }

end BatchTask

namespace Flight

def loads (flight : Flight) : List Load := flight.tickets.map (⟨flight.matcher, ·⟩)

/-- Notes in the journal if the evaluator has ended. -/
def noteEnd (flight : Flight) : FlightProgress × Scene → FlightProgress × Scene
  | (.ended ending, scene) =>
    (.ended ending, { scene with journal := scene.journal.record (.evaluatorEnded flight.matcher) })
  | (.asleep deadline rest, scene) => (.asleep deadline rest, scene)

/-- Calls the evaluator with the requests of the batch. -/
def board (flight : Flight) (scene : Scene) : FlightProgress × Scene :=
  match scene.hub.queue? flight.matcher with
  | none => (.ended (.value ()), scene)
  | some queue =>
    let requests := queue.coalescer.requests flight.tickets
    let number := scene.journal.invocations flight.matcher
    let journal := scene.journal.record (.batchInvoked flight.matcher (requests.map (·.args)))
    match queue.evaluate number requests with
    | .panics payload => (.ended (.panicked payload), ⟨scene.hub, journal⟩)
    | .starts task => task.run flight.matcher flight.tickets ⟨scene.hub, journal⟩

/-- Whether a batch can go on at an instant. -/
def isDue (flight : Flight) (now : Nat) : Bool :=
  match flight.stage with
  | .boarding => true
  | .asleep deadline _ => deadline ≤ now

/-- Starts a batch or goes on with it. -/
def advance (flight : Flight) (scene : Scene) : FlightProgress × Scene :=
  flight.noteEnd <|
    match flight.stage with
    | .boarding => flight.board scene
    | .asleep _ rest => rest.run flight.matcher flight.tickets scene

/-- The batch asleep, its alarm set. -/
def sleepUntil (flight : Flight) (deadline : Nat) (rest : BatchTask) (scene : Scene) : Flight × Scene :=
  ({ flight with stage := .asleep deadline rest }, scene.setAlarm deadline (.resumeBatch flight.id))

/-- Ends a batch whose failure must not spread: it answers what is still open with false. -/
def landContained (flight : Flight) (ending : Ending Unit) (scene : Scene) : Scene :=
  match ending.contained with
  | .ok () => { scene with hub := scene.hub.releaseAll flight.loads }
  | .error cause =>
    let (pending, hub) := scene.hub.resolveAll flight.loads false
    ⟨hub.releaseAll flight.loads,
      scene.journal.notice (.batchFailed flight.matcher flight.tickets.length pending cause.message)⟩

/-- The note that a batch whose failure must not spread was taken. -/
def announce (flight : Flight) (scene : Scene) : Scene :=
  match flight.stage with
  | .boarding =>
    { scene with journal := scene.journal.notice (.batchFlushed flight.matcher flight.tickets.length) }
  | .asleep _ _ => scene

/-- Polls a batch whose failure must not spread, if it can go on; `none` when it has landed. -/
def pollContained (flight : Flight) (scene : Scene) : Option Flight × Scene :=
  if !flight.isDue scene.journal.now then (some flight, scene) else
  match flight.advance (flight.announce scene) with
  | (.asleep deadline rest, scene) =>
    let (flight, scene) := flight.sleepUntil deadline rest scene
    (some flight, scene)
  | (.ended ending, scene) => (none, flight.landContained ending scene)

/-- Whether the evaluator of a batch is asleep. -/
def isAsleep (flight : Flight) : Bool :=
  match flight.stage with
  | .boarding => false
  | .asleep _ _ => true

/-- Drops a batch that has not landed. -/
def drop (flight : Flight) (scene : Scene) : Scene :=
  let journal := if flight.isAsleep then scene.journal.record (.evaluatorDropped flight.matcher) else scene.journal
  let alarms := scene.hub.alarms.filter fun alarm =>
    match alarm.purpose with
    | .resumeBatch id => id != flight.id
    | _ => true
  ⟨{ scene.hub with alarms := alarms }.releaseAll flight.loads, journal⟩

end Flight

namespace Hub

/-- Takes one batch from every queue that is not empty. -/
def takeFlights (hub : Hub) : List Flight × Hub :=
  hub.queues.foldl (fun (flights, hub) (matcher, _) =>
    match (hub.coalescer matcher).takeBatch with
    | none => (flights, hub)
    | some (tickets, coalescer) =>
      (flights ++ [⟨hub.nextFlight, matcher, tickets, .boarding⟩],
        { hub.modifyCoalescer matcher (fun _ => coalescer) with nextFlight := hub.nextFlight + 1 }))
    ([], hub)

end Hub

end Segmentation
