import Segmentation.Flight
import Segmentation.Machine

/-!
# A batch on its own

An `Alone` is one batch that is run until its evaluator has ended.  A success gives up the resolvers.  A failure
leaves them to whoever ran the batch, who may answer what is still open before giving them up.
-/

namespace Segmentation

/-- The cause of a failed batch, and what the batch was to answer. -/
structure BatchFailure where
  cause : Cause
  loads : List Load

namespace BatchFailure

/-- Gives one answer to all that is open; tells how much that was. -/
def resolveAll (failure : BatchFailure) (value : Bool) (hub : Hub) : Nat × Hub := hub.resolveAll failure.loads value

/-- Gives up the resolvers. -/
def release (failure : BatchFailure) (hub : Hub) : Hub := hub.releaseAll failure.loads

end BatchFailure

structure Alone where
  flight : Flight
  ending : Option (Ending Unit)
  scene : Scene

namespace Alone

/-- A batch of tickets, ready to run. -/
def board (matcher : String) (tickets : List Nat) (scene : Scene) : Alone :=
  ⟨⟨scene.hub.nextFlight, matcher, tickets, .boarding⟩, none,
    { scene with hub := { scene.hub with nextFlight := scene.hub.nextFlight + 1 } }⟩

def poll (alone : Alone) : Alone :=
  if alone.ending.isSome || !alone.flight.isDue alone.scene.journal.now then alone
  else
    match alone.flight.advance alone.scene with
    | (.asleep deadline rest, scene) =>
      let (flight, scene) := alone.flight.sleepUntil deadline rest scene
      { alone with flight, scene }
    | (.ended ending, scene) => { alone with ending := some ending, scene }

instance : Machine Alone where
  poll := poll
  finished alone := alone.ending.isSome
  awake alone := alone.flight.isDue alone.scene.journal.now
  nextAlarm alone := alone.scene.hub.nextAlarm
  advance now alone := { alone with scene := ⟨alone.scene.hub.advance now, alone.scene.journal.moveTo now⟩ }

/-- What came of a batch that has ended. -/
def result (alone : Alone) : Except BatchFailure Unit × Scene :=
  match alone.ending.map Ending.contained with
  | some (.error cause) => (.error ⟨cause, alone.flight.loads⟩, alone.scene)
  | _ => (.ok (), { alone.scene with hub := alone.scene.hub.releaseAll alone.flight.loads })

end Alone

namespace Scene

/-- Runs a batch of tickets by itself. -/
def runBatch (scene : Scene) (moves : Nat) (matcher : String) (tickets : List Nat) :
    Except BatchFailure Unit × Scene :=
  (Machine.run none moves (Alone.board matcher tickets scene)).2.result

end Scene

end Segmentation
