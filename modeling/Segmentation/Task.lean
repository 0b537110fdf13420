import Segmentation.Error

/-!
# Tasks

User code is known by what it does.  Calling it gives a `Launch`: a panic before there is a task, or a task.  A
`Task` sleeps any number of times and then has a result.  `Task.start` runs one until its next sleep; a sleep of no
ticks does not suspend it.
-/

namespace Segmentation

/-- How an evaluator ends. -/
inductive Ending (α : Type) where
  | value (a : α)
  | failed (fault : Fault)
  | panicked (payload : Payload)

/-- A panic counts as a failure. -/
def Ending.contained {α : Type} : Ending α → Except Cause α
  | .value a => .ok a
  | .failed fault => .error ⟨fault⟩
  | .panicked payload => .error (.ofPanic payload)

inductive Task (ρ : Type) where
  | done (result : ρ)
  | sleep (ticks : Nat) (rest : Task ρ)

/-- What calling user code gives. -/
inductive Launch (τ : Type) where
  | panics (payload : Payload)
  | starts (task : τ)

/-- A task that was started: it has a result, or sleeps until an instant. -/
inductive Running (ρ : Type) where
  | ended (result : ρ)
  | asleep (deadline : Nat) (rest : Task ρ)

namespace Task

variable {ρ σ : Type}

def start (now : Nat) : Task ρ → Running ρ
  | .done result => .ended result
  | .sleep 0 rest => rest.start now
  | .sleep (ticks + 1) rest => .asleep (now + (ticks + 1)) rest

def map (f : ρ → σ) : Task ρ → Task σ
  | .done result => .done (f result)
  | .sleep ticks rest => .sleep ticks (rest.map f)

end Task

/-- Runs what a call gave until its first sleep; a panic of the call ends it like a panic of the task. -/
def Launch.start {ρ : Type} (now : Nat) (ofPanic : Payload → ρ) : Launch (Task ρ) → Running ρ
  | .panics payload => .ended (ofPanic payload)
  | .starts task => task.start now

end Segmentation
