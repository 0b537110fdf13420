import Segmentation.Flight
import Segmentation.Machine

/-!
# Driving a client and its batches

A `Client` is a computation that queues requests at the hub while it is polled.  `Drive.pass` polls it, hands
every queue that is not empty to its evaluator, and lets the batches in flight go on; requests queued in one pass
thus form one batch for each matcher.  A drive has finished when the client has settled and no batch is in
flight.  Until then it passes whenever the client or a batch was woken, and once more when it has woken itself.
`Flush` empties the queues without a client, round after round, until none is left.
-/

namespace Segmentation

class Client (κ : Type) where
  poll : κ → Scene → κ × Scene
  settled : κ → Bool
  /-- Whether something the client waits for has happened, or it has woken itself, since its last poll began. -/
  stirred : κ → Hub → Bool

structure Drive (κ : Type) where
  client : κ
  flights : List Flight
  /-- The batches that can go on, in the order in which they were woken. -/
  ready : List Nat
  /-- Whether the drive has woken itself. -/
  again : Bool

namespace Drive

variable {κ : Type} [Client κ]

def start (client : κ) : Drive κ := ⟨client, [], [], false⟩

/-- Polls the client, unless it has settled.  A client that was stirred by its own poll wakes the drive again. -/
def pollClient (drive : Drive κ) (scene : Scene) : Drive κ × Scene :=
  if Client.settled drive.client then ({ drive with again := false }, scene)
  else
    let (client, scene) := Client.poll drive.client scene
    ({ drive with client, again := Client.stirred client scene.hub }, scene)

/-- Takes a batch from every queue. -/
def takeBatches (drive : Drive κ) (scene : Scene) : Drive κ × Scene :=
  let (taken, hub) := scene.hub.takeFlights
  ({ drive with flights := drive.flights ++ taken, ready := drive.ready ++ taken.map (·.id) }, { scene with hub })

/-- Lets one batch go on. -/
def pollFlight (flights : List Flight) (scene : Scene) (id : Nat) : List Flight × Scene :=
  match flights.find? (·.id = id) with
  | none => (flights, scene)
  | some flight =>
    match flight.pollContained scene with
    | (none, scene) => (flights.filter (·.id ≠ id), scene)
    | (some later, scene) => (flights.map fun f => if f.id = id then later else f, scene)

/-- Lets the given batches go on.  Tells, too, whether since a batch landed as many of them went on as there are in
flight; `polled` is the number of those that already did. -/
def pollReady (flights : List Flight) (polled : Nat) : List Nat → Scene → List Flight × Bool × Scene
  | [], scene => (flights, false, scene)
  | id :: ids, scene =>
    let (later, scene) := pollFlight flights scene id
    let polled := if later.length < flights.length then 0 else polled + 1
    let (final, all, scene) := pollReady later polled ids scene
    (final, all || (polled != 0 && polled == later.length), scene)

/-- Lets all batches that can go on do so.  The drive wakes itself if none of those in flight was left out. -/
def pollFlights (drive : Drive κ) (scene : Scene) : Drive κ × Scene :=
  let (flights, again, scene) := pollReady drive.flights 0 drive.ready scene
  ({ drive with flights, ready := [], again := drive.again || again }, scene)

def pass (drive : Drive κ) (scene : Scene) : Drive κ × Scene :=
  let (drive, scene) := drive.pollClient scene
  let (drive, scene) := drive.takeBatches scene
  drive.pollFlights scene

def finished (drive : Drive κ) : Bool := Client.settled drive.client && drive.flights.isEmpty

def awake (drive : Drive κ) (hub : Hub) : Bool :=
  drive.again || (!Client.settled drive.client && Client.stirred drive.client hub) || !drive.ready.isEmpty

/-- Lets the alarms due at an instant go off, in the order in which they were set. -/
def advance (drive : Drive κ) (hub : Hub) (now : Nat) : Drive κ × Hub :=
  let (due, hub) := hub.takeDue now
  due.foldl (fun (drive, hub) alarm =>
    match alarm.purpose with
    | .resumeBatch id => ({ drive with ready := drive.ready ++ [id] }, hub)
    | purpose => (drive, hub.goOff purpose)) (drive, hub)

/-- Drops the batches in flight. -/
def drop (drive : Drive κ) (scene : Scene) : Scene :=
  drive.flights.foldl (fun scene flight => flight.drop scene) scene

end Drive

/-- The queues being emptied: the batches of the current round, and how many were taken in all. -/
structure Flush where
  flights : List Flight
  flushed : Nat
  /-- Whether the last round found all queues empty. -/
  finished : Bool

namespace Flush

/-- Lets the batches of a round go on, in the order in which they were taken. -/
def pollFlights (flights : List Flight) (scene : Scene) : List Flight × Scene :=
  flights.foldl (fun (rest, scene) flight =>
    let (later, scene) := flight.pollContained scene
    (rest ++ later.toList, scene)) ([], scene)

/-- Takes the next round, or ends. -/
def nextRound (flush : Flush) (scene : Scene) : Flush × Scene :=
  match scene.hub.takeFlights with
  | ([], hub) => ({ flush with finished := true }, { scene with hub })
  | (taken, hub) =>
    let (flights, scene) := pollFlights taken { scene with hub }
    ({ flush with flights, flushed := flush.flushed + taken.length }, scene)

/-- Lets the batches of the round go on; after the last of them a new round begins. -/
def pass (flush : Flush) (scene : Scene) : Flush × Scene :=
  if flush.finished then (flush, scene)
  else
    match pollFlights flush.flights scene with
    | ([], scene) => nextRound { flush with flights := [] } scene
    | (flights, scene) => ({ flush with flights }, scene)

def start : Flush := ⟨[], 0, false⟩

def awake (flush : Flush) (now : Nat) : Bool := flush.flights.isEmpty || flush.flights.any (·.isDue now)

def drop (flush : Flush) (scene : Scene) : Scene :=
  flush.flights.foldl (fun scene flight => flight.drop scene) scene

end Flush

end Segmentation
