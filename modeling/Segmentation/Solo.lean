import Segmentation.Journal
import Segmentation.Machine
import Segmentation.Task

/-!
# A task on its own

A `Solo` performs one task until it has a result.
-/

namespace Segmentation

structure Solo (ρ : Type) where
  journal : Journal
  running : Running ρ

namespace Solo

variable {ρ : Type}

def start (journal : Journal) (task : Task ρ) : Solo ρ := ⟨journal, task.start journal.now⟩

def result? (solo : Solo ρ) : Option ρ :=
  match solo.running with
  | .ended result => some result
  | .asleep _ _ => none

def isDue (solo : Solo ρ) : Bool :=
  match solo.running with
  | .ended _ => false
  | .asleep deadline _ => deadline ≤ solo.journal.now

/-- Goes on with the task, if it has slept long enough. -/
def poll (solo : Solo ρ) : Solo ρ :=
  match solo.running with
  | .ended _ => solo
  | .asleep deadline rest =>
    if deadline ≤ solo.journal.now then { solo with running := rest.start solo.journal.now } else solo

instance : Machine (Solo ρ) where
  poll := poll
  finished solo := solo.result?.isSome
  awake := isDue
  nextAlarm solo := match solo.running with
    | .ended _ => none
    | .asleep deadline _ => some deadline
  advance now solo := { solo with journal := solo.journal.moveTo now }

end Solo

end Segmentation
