import Segmentation.Engine.Call
import Segmentation.Solo

/-!
# An engine at work

A `Service` is an engine with its journal.  It receives subjects and answers calls, one step after the other; of
one step nothing is left for the next but the registry, the journal, and alarms that nobody waits for.
-/

namespace Segmentation

structure Service where
  engine : Engine
  journal : Journal
  /-- Alarms that nobody waits for. -/
  strays : List Nat

/-- What became of a subject. -/
inductive Reception where
  | accepted (subject : Json)
  | refused (issues : List Issue)
  /-- The schema panicked before there was a validation. -/
  | panicked (payload : Payload)

namespace Service

variable (service : Service) (moves : Nat)

/-- Validates a subject. -/
def receive (input : Json) : Option Reception × Service :=
  match service.engine.receive input with
  | .panics payload => (some (.panicked payload), service)
  | .starts task =>
    let (_, final) := Machine.run none moves
      (⟨Solo.start service.journal task, service.strays⟩ : Beside (Solo Checked))
    let journal := final.machine.journal
    match final.machine.result? with
    | none => (none, { service with journal, strays := final.others })
    | some checked =>
      let reception := match Engine.judge checked with
        | .ok subject => Reception.accepted subject
        | .error issues => .refused issues
      (some reception, { service with journal := Engine.noteChecked journal checked, strays := final.others })

/-- Runs calls at once.  Unless all of them end they are dropped. -/
def ask (limit : Option Nat) (calls : List Call) : Verdict × List (Option Bool) × Service :=
  let (verdict, final) := Machine.run limit moves
    (⟨service.engine.party service.journal calls, service.strays⟩ : Beside Party)
  let party := final.machine
  (verdict, party.answers,
    { engine := { service.engine with registry := party.registry }
      journal := if verdict = .finished then party.journal else party.drop
      strays := final.others ++ party.leftovers })

end Service

end Segmentation
