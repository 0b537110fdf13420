import Segmentation.Error
import Segmentation.Span

/-!
# Guards of spans

The owner of a span acts on it through a guard.  `GuardCall.events` says what a call means for the span; a guard
that is dropped ends its span.
-/

namespace Segmentation

/-- What a span is told of an error. -/
def SpanEvent.ofError (span : Nat) (error : Error) : List SpanEvent :=
  [.attributed span "error.kind" (.string error.kind.name),
    .attributed span "error.message" (.string error.message),
    .attributed span "error.stack" (.string error.chain),
    .statusSet span ⟨.error, some error.message⟩]

/-- What is done with a guard. -/
inductive GuardCall where
  | attribute (key : String) (value : Attribute)
  | status (status : SpanStatus)
  | failure (error : Error)
  | finish

def GuardCall.events (span : Nat) : GuardCall → List SpanEvent
  | .attribute key value => [.attributed span key value]
  | .status s => [.statusSet span s]
  | .failure error => SpanEvent.ofError span error
  | .finish => [.ended span]

end Segmentation
