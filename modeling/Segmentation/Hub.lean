import Segmentation.Coalescer
import Segmentation.Journal

/-!
# The hub of an evaluation

The matchers of one evaluation meet in a `Hub`.  It has one queue for each batched matcher, made when it is first
used, the alarms that were set, and the list of those who were woken, in order.  An alarm wakes somebody, lets a
batch go on, or answers a ticket.  `Scene` is a hub together with the journal.
-/

namespace Segmentation

/-- A batched evaluator and the requests queued for it. -/
structure BatchQueue where
  evaluate : BatchEvaluator
  coalescer : Coalescer Request

/-- A ticket of a matcher's queue. -/
structure Load where
  matcher : String
  ticket : Nat
  deriving DecidableEq

/-- What an alarm does when it goes off. -/
inductive Purpose where
  | wake (waiter : Place)
  | resumeBatch (flight : Nat)
  | answer (load : Load) (value : Bool)

structure Alarm where
  deadline : Nat
  /-- Alarms are numbered in the order in which they are set, by whomever. -/
  number : Nat
  purpose : Purpose

/-- Puts an alarm behind all those that go off no later. -/
def Alarm.insert (alarm : Alarm) : List Alarm → List Alarm
  | [] => [alarm]
  | other :: others =>
    if alarm.deadline < other.deadline then alarm :: other :: others else other :: alarm.insert others

structure Hub where
  queues : List (String × BatchQueue)
  /-- In the order in which they go off: by their deadlines, and as they were set. -/
  alarms : List Alarm
  woken : List Place
  /-- Resolvers that batches kept, in the order in which they did. -/
  kept : List Load
  /-- Requests that batches queued, in the order in which they did. -/
  reloads : List Load
  /-- Number of the next batch. -/
  nextFlight : Nat

structure Scene where
  hub : Hub
  journal : Journal

namespace Hub

def empty : Hub := ⟨[], [], [], [], [], 0⟩

def queue? (hub : Hub) (matcher : String) : Option BatchQueue := hub.queues.lookup matcher

/-- Makes the queue of a matcher, unless there is one. -/
def openQueue (hub : Hub) (matcher : String) (evaluate : BatchEvaluator) : Hub :=
  if (hub.queue? matcher).isSome then hub
  else { hub with queues := hub.queues ++ [(matcher, ⟨evaluate, .empty⟩)] }

def modifyCoalescer (hub : Hub) (matcher : String) (f : Coalescer Request → Coalescer Request) : Hub :=
  { hub with
    queues := hub.queues.map fun (name, queue) =>
      if name = matcher then (name, { queue with coalescer := f queue.coalescer }) else (name, queue) }

/-- The coalescer of a matcher; an empty one if there is none. -/
def coalescer (hub : Hub) (matcher : String) : Coalescer Request :=
  ((hub.queue? matcher).map (·.coalescer)).getD .empty

/-- Number of requests in all queues. -/
def pending (hub : Hub) : Nat := hub.queues.foldl (fun n entry => n + entry.2.coalescer.pending) 0

def state (hub : Hub) (load : Load) : TicketState := (hub.coalescer load.matcher).state load.ticket

/-- Queues a request under a key. -/
def loadKeyed (hub : Hub) (matcher key : String) (request : Request) : Load × Hub :=
  let (ticket, coalescer) := (hub.coalescer matcher).load key request
  (⟨matcher, ticket⟩, hub.modifyCoalescer matcher fun _ => coalescer)

/-- Queues a request under its own key. -/
def load (hub : Hub) (matcher : String) (request : Request) : Load × Hub :=
  hub.loadKeyed matcher request.stableKey request

def await (hub : Hub) (load : Load) (waiter : Place) : Hub :=
  hub.modifyCoalescer load.matcher (·.await load.ticket waiter)

def wakeAll (hub : Hub) (waiters : List Place) : Hub := { hub with woken := hub.woken ++ waiters }

/-- Those who wait for a load. -/
def waiters (hub : Hub) (load : Load) : List Place := (hub.coalescer load.matcher).waiters load.ticket

/-- Tells a waiter of the state of a load that is no longer open.  The first one to be told wakes itself once more;
from then on nobody waits for the load. -/
def tell (hub : Hub) (load : Load) (waiter : Place) : Hub :=
  if (hub.waiters load).isEmpty then hub
  else (hub.modifyCoalescer load.matcher (·.dismiss load.ticket)).wakeAll [waiter]

/-- Answers a load and wakes those who wait for it; gives whether this was the first answer. -/
def resolve (hub : Hub) (load : Load) (value : Bool) : Bool × Hub :=
  if hub.state load = .waiting then
    (true, (hub.modifyCoalescer load.matcher fun c => (c.resolve load.ticket value).2).wakeAll (hub.waiters load))
  else (false, hub)

/-- Makes a further resolver of a load. -/
def retain (hub : Hub) (load : Load) : Hub := hub.modifyCoalescer load.matcher (·.retain load.ticket)

/-- Gives up a resolver of a load and wakes those who wait for it if it is lost by that. -/
def release (hub : Hub) (load : Load) : Hub :=
  let released := hub.modifyCoalescer load.matcher (·.release load.ticket)
  if hub.state load = .waiting ∧ released.state load = .lost then released.wakeAll (hub.waiters load) else released

def releaseAll (hub : Hub) (loads : List Load) : Hub := loads.foldl release hub

/-- Gives the same answer to all loads that have none yet; gives their number. -/
def resolveAll (hub : Hub) (loads : List Load) (value : Bool) : Nat × Hub :=
  loads.foldl (fun (count, hub) load =>
    let (first, hub) := hub.resolve load value
    (if first then count + 1 else count, hub)) (0, hub)

/-- Keeps a resolver beyond the end of its batch. -/
def keep (hub : Hub) (load : Load) : Hub :=
  let hub := hub.retain load
  { hub with kept := hub.kept ++ [load] }

/-- Gives up all kept resolvers. -/
def releaseKept (hub : Hub) : Hub := { hub.releaseAll hub.kept with kept := [] }

def nextAlarm (hub : Hub) : Option Nat := hub.alarms.head?.map (·.deadline)

/-- The alarms due at an instant, and the hub without them. -/
def takeDue (hub : Hub) (now : Nat) : List Alarm × Hub :=
  (hub.alarms.filter (·.deadline ≤ now), { hub with alarms := hub.alarms.filter (now < ·.deadline) })

/-- Lets an alarm go off; one that concerns a batch does nothing here. -/
def goOff (hub : Hub) : Purpose → Hub
  | .wake waiter => hub.wakeAll [waiter]
  | .resumeBatch _ => hub
  | .answer load value => (hub.resolve load value).2.release load

/-- Whether an alarm wakes anybody when it goes off. -/
def rouses (hub : Hub) (alarm : Alarm) : Bool :=
  match alarm.purpose with
  | .answer load _ => hub.state load = .waiting && !(hub.waiters load).isEmpty
  | _ => true

/-- The number of the first alarm due at an instant that wakes anybody. -/
def firstRousing (hub : Hub) (now : Nat) : Option Nat := ((hub.takeDue now).1.find? hub.rouses).map (·.number)

/-- Lets the alarms due at an instant go off where nobody drives batches. -/
def advance (hub : Hub) (now : Nat) : Hub :=
  let (due, hub) := hub.takeDue now
  due.foldl (fun hub alarm => hub.goOff alarm.purpose) hub

/-- The instants of the alarms that answer a ticket; they stay set when nobody is left to wake. -/
def answerAlarms (hub : Hub) : List Nat :=
  hub.alarms.filterMap fun alarm =>
    match alarm.purpose with
    | .answer _ _ => some alarm.deadline
    | _ => none

end Hub

namespace Scene

def setAlarm (scene : Scene) (deadline : Nat) (purpose : Purpose) : Scene :=
  ⟨{ scene.hub with alarms := Alarm.insert ⟨deadline, scene.journal.alarms, purpose⟩ scene.hub.alarms },
    scene.journal.countAlarm⟩

/-- Lets time pass; without ticks nothing happens. -/
def wait (scene : Scene) (ticks : Nat) : Scene :=
  if ticks = 0 then scene
  else
    let now := scene.journal.now + ticks
    ⟨scene.hub.advance now, scene.journal.moveTo now⟩

/-- Hands a resolver to an alarm. -/
def answerAt (scene : Scene) (deadline : Nat) (load : Load) (value : Bool) : Scene :=
  { scene with hub := scene.hub.retain load }.setAlarm deadline (.answer load value)

end Scene

end Segmentation
