import Segmentation.Attribute

/-!
# Spans

A span is a stretch of work with a name, attributes and a status.  `SpanEvent` lists what is done with spans, in
the words of their owners: what a tracer gets to see of it is another matter.  Spans and the contexts taken from
them are numbered from zero in the order in which they come up.
-/

namespace Segmentation

inductive StatusCode where
  | unset
  | ok
  | error
  deriving DecidableEq

structure SpanStatus where
  code : StatusCode
  message : Option String
  deriving DecidableEq

/-- What a span may have as its parent. -/
inductive ContextRef where
  /-- A context that refers to no span. -/
  | blank
  /-- A context taken from a span. -/
  | taken (context : Nat)
  /-- A context of some other origin. -/
  | foreign (name : String) (id : Nat)
  deriving DecidableEq

inductive SpanEvent where
  /-- A tracer was asked for a span; `tracer` tells which one, where there are several. -/
  | started (tracer : Nat) (name : String) (parent : Option ContextRef)
  | attributed (span : Nat) (key : String) (value : Attribute)
  | statusSet (span : Nat) (status : SpanStatus)
  | contextTaken (span : Nat)
  | ended (span : Nat)
  /-- The last copy of a context is gone. -/
  | contextReleased (context : Nat)
  deriving DecidableEq

end Segmentation
