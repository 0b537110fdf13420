import Segmentation.Issue
import Segmentation.Task

/-!
# Schemas

A schema validates a value, perhaps after some time: it accepts it with a value of its own, reports success
without a value, or rejects it with issues.  It may also panic, in the call or later.
-/

namespace Segmentation

inductive Validation where
  | accepted (value : Json)
  | empty
  | rejected (issues : List Issue)

/-- The result of a validation that ran; a panic has no validation. -/
abbrev Checked := Except Payload Validation

def Schema := Json → Launch (Task Checked)

namespace Schema

/-- Validates at once. -/
def ofCheck (check : Json → Checked) : Schema := fun value => .starts (.done (check value))

/-- Accepts every value unchanged. -/
def any : Schema := ofCheck fun value => .ok (.accepted value)

instance : Inhabited Schema := ⟨any⟩

/-- Waits before it validates; a panic of the inner call is then one of the task. -/
def delayed (ticks : Nat) (inner : Schema) : Schema := fun value =>
  .starts (.sleep ticks (match inner value with
    | .panics payload => .done (.error payload)
    | .starts task => task))

end Schema

end Segmentation
