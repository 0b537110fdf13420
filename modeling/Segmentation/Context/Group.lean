import Segmentation.Context
import Segmentation.Drive.Run

/-!
# Contexts on one clock

A `ContextGroup` holds contexts that share a journal, and with it the clock: alarms of one context go off while
another one is busy.  An expression is evaluated to its end, or started and resumed later.
-/

namespace Segmentation

structure ContextGroup where
  journal : Journal
  contexts : List Context
  /-- The evaluations put aside, each with its context, as long as nobody took them up again. -/
  paused : List (Option (Nat × PausedEvaluation))

namespace ContextGroup

def add (group : ContextGroup) (scope : Scope) : ContextGroup :=
  { group with contexts := group.contexts ++ [.start scope] }

variable (group : ContextGroup) (moves : Nat)

/-- The alarms of all contexts but one. -/
def otherAlarms (index : Nat) : List Nat :=
  (group.contexts.eraseIdx index).flatMap fun context => context.hub.alarms.map (·.deadline)

/-- Puts a context back.  Alarms of the others went off meanwhile, unless one that is due is still `left` among
them: then all those due were set at this very instant, and the clock has not got to them. -/
def putBack (index : Nat) (context : Context) (journal : Journal) (left : List Nat) : ContextGroup :=
  let contexts :=
    if left.any (· ≤ journal.now) then group.contexts
    else group.contexts.map fun other => { other with hub := other.hub.advance journal.now }
  { group with contexts := contexts.set index context, journal }

/-- Runs an evaluation whose requests stay in the queues; without an outcome it has stalled. -/
def runUnaided (index : Nat) (evaluation : Evaluation) (scene : Scene) : Option Outcome × ContextGroup :=
  let (_, final) := Machine.run none moves
    (⟨⟨evaluation, scene⟩, group.otherAlarms index⟩ : Beside (Unaided Evaluation))
  let scene := final.machine.scene
  (final.machine.client.outcome?, group.putBack index (.without final.machine.client scene.hub) scene.journal
    final.others)

/-- Runs an evaluation and its batches; without an outcome it has stalled. -/
def runDriven (index : Nat) (evaluation : Evaluation) (scene : Scene) : Option Outcome × ContextGroup :=
  let (verdict, final) := Machine.run none moves
    (⟨(Drive.start evaluation, scene), group.otherAlarms index⟩ : Beside (Drive Evaluation × Scene))
  let (drive, scene) := final.machine
  let (outcome, scene) := if verdict = .finished then (drive.client.outcome?, scene) else (none, drive.drop scene)
  (outcome, group.putBack index (.without drive.client scene.hub) scene.journal final.others)

/-- Evaluates an expression in a context to its end. -/
def evaluate (index : Nat) (context : Context) (expr : Expr) : Option Outcome × ContextGroup :=
  let (evaluation, scene) := context.begin expr group.journal
  if context.session.scope.batching then group.runDriven moves index evaluation scene
  else group.runUnaided moves index evaluation scene

/-- Evaluates an expression as far as it comes at once.  Without an outcome it is put aside under the next number. -/
def launch (index : Nat) (context : Context) (expr : Expr) : Option Outcome × ContextGroup :=
  let (evaluation, scene) := context.begin expr group.journal
  let final := Machine.settle moves (⟨evaluation, scene⟩ : Unaided Evaluation)
  let group := group.putBack index (.after final.client final.scene.hub) final.scene.journal
    (group.otherAlarms index)
  match final.client.outcome? with
  | some outcome => (some outcome, group)
  | none => (none, { group with paused := group.paused ++ [some (index, Context.pause final.client)] })

/-- The evaluation put aside under a number. -/
def paused? (number : Nat) : Option (Nat × PausedEvaluation) := group.paused[number]?.join

/-- Takes an evaluation that was put aside off the list. -/
def forget (number : Nat) : ContextGroup := { group with paused := group.paused.set number none }

/-- Gives up an evaluation that was put aside. -/
def giveUp (number : Nat) : ContextGroup :=
  match group.paused? number with
  | none => group
  | some (index, paused) =>
    let contexts := group.contexts.modify index fun context =>
      { context with session := context.session.leave paused.progress.seats }
    { group.forget number with contexts }

/-- Takes up an evaluation that was put aside; without an outcome it has stalled. -/
def resume (number : Nat) : Option Outcome × ContextGroup :=
  match group.paused? number with
  | none => (none, group)
  | some (index, paused) =>
    match group.contexts[index]? with
    | none => (none, group)
    | some context =>
      let (evaluation, scene) := context.resume paused group.journal
      (group.forget number).runUnaided moves index evaluation scene

/-- Empties the queues of a context; gives the number of batches. -/
def flush (index : Nat) (context : Context) : Nat × ContextGroup :=
  let (_, final) := Machine.run none moves
    (⟨(Flush.start, ⟨context.hub, group.journal⟩), group.otherAlarms index⟩ : Beside (Flush × Scene))
  let (flush, scene) := final.machine
  (flush.flushed, group.putBack index { context with hub := scene.hub } scene.journal final.others)

end ContextGroup

end Segmentation
