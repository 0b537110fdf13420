import Segmentation.Drive
import Segmentation.Gathering

/-!
# Programs of requests

A `Program` queues requests and waits for their answers, sleeps, and does things one after the other or at once.
It is a `Client`; what is under way is a program, too.  Whatever waits is woken under its place in the program.

Parallel parts are all gone on with whenever the program is, as long as they are few.  Many of them form a crowd,
of which only those go on that were woken, in this order.
-/

namespace Segmentation

/-- What a program ends with. -/
inductive Received where
  | answer (value : Bool)
  /-- The request was lost. -/
  | lost
  /-- Only time has passed. -/
  | nothing
  | all (results : List Received)
  deriving Inhabited

inductive Program where
  /-- Queues a request and waits for the answer. -/
  | load (matcher : String) (request : Request)
  | sleep (ticks : Nat)
  /-- What is left of a series, after its results so far. -/
  | series (results : List Received) (parts : List Program)
  | parallel (parts : List Program)
  /-- Many parallel parts under way, with those that were woken. -/
  | crowd (queue : List Nat) (parts : List Program)
  | awaiting (load : Load)
  | asleep (deadline : Nat)
  | ended (result : Received)
  deriving Inhabited

namespace Program

def result? : Program → Option Received
  | .ended result => some result
  | _ => none

def hasEnded (program : Program) : Bool := program.result?.isSome

/-- Parallel parts together: ended, once all of them are. -/
def join (parts : List Program) (otherwise : Program) : Program :=
  if parts.all hasEnded then .ended (.all (parts.filterMap result?)) else otherwise

mutual

/-- How deeply programs are nested. -/
def depth : Program → Nat
  | .series _ parts => depthOfAll parts + 1
  | .parallel parts => depthOfAll parts + 1
  | .crowd _ parts => depthOfAll parts + 1
  | _ => 1

def depthOfAll : List Program → Nat
  | [] => 0
  | part :: parts => max (depth part) (depthOfAll parts)

end

/-- Wakes what waits at a place of the program; of a crowd, the part that has to go on for it. -/
def wake : Place → Program → Program
  | i :: place, .series results (part :: parts) =>
    .series results (if i = results.length then wake place part :: parts else part :: parts)
  | i :: place, .parallel parts => .parallel (parts.modify i (wake place))
  | i :: place, .crowd queue parts =>
    .crowd (if i ∈ queue then queue else queue ++ [i]) (parts.modify i (wake place))
  | _, program => program

section Parts

variable (step : Nat → Program → Scene → Program × Scene)

/-- Goes through a series as far as it has ended. -/
def pollSeries (results : List Received) : List Program → Scene → Program × Scene
  | [], scene => (.ended (.all results), scene)
  | part :: parts, scene =>
    match step results.length part scene with
    | (.ended result, scene) => pollSeries (results ++ [result]) parts scene
    | (part, scene) => (.series results (part :: parts), scene)

/-- Goes on with all parts; the first of them has the given index. -/
def pollAll (index : Nat) : List Program → Scene → List Program × Scene
  | [], scene => ([], scene)
  | part :: parts, scene =>
    let (part, scene) := step index part scene
    let (parts, scene) := pollAll (index + 1) parts scene
    (part :: parts, scene)

/-- Goes on with the parts of a crowd that were woken, at most `turns` times.  A part that was told something may
have to go on again.  The crowd pauses, and wakes itself for the rest, when two parts were told something and have
not ended, and when as many parts went on as have not ended; both counts start anew with each part that ends. -/
def pollCrowd (place : Place) : (turns : Nat) → (queue : List Nat) → List Program → (eager polled : Nat) →
    Scene → Program × Scene
  | 0, queue, parts, _, _, scene => (.crowd queue parts, scene)
  | _ + 1, [], parts, _, _, scene => (join parts (.crowd [] parts), scene)
  | turns + 1, i :: queue, parts, eager, polled, scene =>
    match parts[i]? with
    | none => pollCrowd place turns queue parts eager polled scene
    | some (.ended _) => pollCrowd place turns queue parts eager polled scene
    | some part =>
      let (part, later) := step i part scene
      let stirred := scene.hub.woken.length < later.hub.woken.length
      let queue := if stirred then queue ++ [i] else queue
      let parts := parts.set i part
      if part.hasEnded then pollCrowd place turns queue parts 0 0 later
      else
        let eager := if stirred then eager + 1 else eager
        let polled := polled + 1
        if eager = 2 ∨ polled = parts.countP (!·.hasEnded) then
          (.crowd queue parts, { later with hub := later.hub.wakeAll [place] })
        else pollCrowd place turns queue parts eager polled later

end Parts

/-- Goes on with a program that is nested at most `depth` deep, as far as possible. -/
def pollWithin : (depth : Nat) → Place → Program → Scene → Program × Scene
  | 0, _, program, scene => (program, scene)
  | depth + 1, place, program, scene =>
    let step (index : Nat) : Program → Scene → Program × Scene := pollWithin depth (place ++ [index])
    let gather (queue : List Nat) (parts : List Program) : Program × Scene :=
      pollCrowd step place ((parts.length + 1) * (parts.length + 1)) queue parts 0 0 scene
    match program with
    | .load matcher request =>
      let (target, hub) := scene.hub.load matcher request
      (.awaiting target, { scene with hub := hub.await target place })
    | .awaiting target =>
      match scene.hub.state target with
      | .waiting => (.awaiting target, scene)
      | .answered value => (.ended (.answer value), { scene with hub := scene.hub.tell target place })
      | .lost => (.ended .lost, { scene with hub := scene.hub.tell target place })
    | .sleep ticks =>
      if ticks = 0 then (.ended .nothing, scene)
      else
        let deadline := scene.journal.now + ticks
        (.asleep deadline, scene.setAlarm deadline (.wake place))
    | .asleep deadline => (if deadline ≤ scene.journal.now then .ended .nothing else .asleep deadline, scene)
    | .series results parts => pollSeries step results parts scene
    | .parallel parts =>
      if Gathering.isSmall parts.length then
        let (parts, scene) := pollAll step 0 parts scene
        (join parts (.parallel parts), scene)
      else gather (List.range parts.length) parts
    | .crowd queue parts => gather queue parts
    | .ended result => (.ended result, scene)

/-- Goes on with a program as far as possible. -/
def poll (place : Place) (program : Program) (scene : Scene) : Program × Scene :=
  program.pollWithin program.depth place scene

end Program

/-- A program under way; its places begin with its number. -/
structure Performance where
  program : Program
  number : Nat
  /-- How many of those woken at the hub it was told of. -/
  seen : Nat
  /-- Whether it has woken itself. -/
  again : Bool

namespace Performance

def start (program : Program) (number : Nat) (hub : Hub) : Performance := ⟨program, number, hub.woken.length, false⟩

/-- The places in the program that were woken at the hub since it was told. -/
def news (performance : Performance) (hub : Hub) : List Place :=
  (hub.woken.drop performance.seen).filterMap fun
    | number :: place => if number = performance.number then some place else none
    | [] => none

instance : Client Performance where
  poll performance scene :=
    let program := (performance.news scene.hub).foldl (fun program place => program.wake place) performance.program
    let (program, later) := program.poll [performance.number] scene
    (⟨program, performance.number, later.hub.woken.length, scene.hub.woken.length < later.hub.woken.length⟩, later)
  settled performance := performance.program.hasEnded
  stirred performance hub := performance.again || !(performance.news hub).isEmpty

/-- Takes the alarms back that were to wake a program. -/
def drop (performance : Performance) (hub : Hub) : Hub :=
  { hub with
    alarms := hub.alarms.filter fun alarm =>
      match alarm.purpose with
      | .wake place => place.head? != some performance.number
      | _ => true }

end Performance

end Segmentation
