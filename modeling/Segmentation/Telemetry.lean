import Segmentation.Journal

/-!
# What is seen of the journal

Loggers, error observers, tracers and subscribers are readers of the journal.  `Telemetry.see` lets them see one
entry after the other and collects what each of them receives as `Sighting`s.  Their own panics are contained
here: a span whose tracer panicked is disabled, and a notice says so.

A custom tracer receives the calls of each span.  The built-in tracer maps spans onto the subscriber's spans: the
attributes it knows become fields, all others become events inside the span, and a span closes when its guard and
every context taken from it are gone.
-/

namespace Segmentation

/-- A call that a tracer's span receives; the parent is the number of a span, zero for no span. -/
inductive SpanCall where
  | start (name : String) (parent : Option Nat)
  | attribute (key : String) (value : Attribute)
  | status (status : SpanStatus)
  | finish
  deriving DecidableEq

/-- A tracer of the user's own, known by when it panics: on a call, given the calls that the span received before
it, or when it is asked for a context. -/
structure CustomTracer where
  panics : List SpanCall → SpanCall → Bool
  panicsOnContext : List SpanCall → Bool

inductive Tracer where
  | disabled
  | builtIn
  | custom (tracer : CustomTracer)

def Tracer.kind : Tracer → TracerKind
  | .disabled => .disabled
  | .builtIn => .enabled
  | .custom _ => .custom

/-- Where errors go. -/
inductive Logger where
  /-- To the subscriber. -/
  | reporting
  | silent
  /-- To a callback, which may panic afterwards. -/
  | callback (panics : Bool)

/-- A callback for errors; it may panic after it was called. -/
structure ErrorObserver where
  panics : Bool

/-- An entry of a subscriber's span. -/
inductive TraceEntry where
  | opened (parent : Option Nat) (fields : List (String × Json))
  | recorded (field : String) (value : Json)
  | event (level : Level) (text : String) (fields : List (String × Json))
  | closed

inductive Sighting where
  | diagnostic (level : Level) (text : String) (fields : List (String × Json))
  | spanCall (span : Nat) (call : SpanCall)
  | trace (span : Nat) (entry : TraceEntry)
  | logged (error : Error) (segment : String) (subject : Json)
  | observed (error : Error) (segment : String) (subject : Json)

/-- What is known of a span. -/
structure SpanView where
  /-- The tracer that was asked for it. -/
  tracer : Nat
  name : String
  /-- Counts from one the spans of the same tracer. -/
  number : Nat
  /-- Whether the owner ended it. -/
  ended : Bool
  /-- Whether a panic disabled it. -/
  disabled : Bool
  /-- The calls that reached it. -/
  calls : List SpanCall
  /-- Number of the handles of the subscriber's span. -/
  handles : Nat

/-- What a context says of its span. -/
structure ContextView where
  name : String
  number : Nat
  /-- The subscriber's span behind it; `none` for a context without one. -/
  backing : Option Nat
  deriving DecidableEq

def ContextView.blank : ContextView := ⟨"", 0, none⟩

structure Telemetry where
  level : Option Level
  tracer : Tracer
  logger : Logger
  observer : Option ErrorObserver
  spans : List SpanView
  contexts : List ContextView
  sightings : List Sighting

namespace Notice

/-- The level, text and fields of a notice. -/
def render : Notice → Level × String × List (String × Json)
  | .ambiguousMatcher => (.warn, "matcher defines both evaluate and evaluate_batch, using evaluate_batch", [])
  | .matcherCompiled matcher shape =>
    (.debug, "compiled matcher", [("matcher", .str matcher), ("shape", .str shape.name)])
  | .engineBuilt matchers segments tracer =>
    (.debug, "segment engine built",
      [("matchers", .int matchers), ("segments", .int segments), ("tracer", .str tracer.name)])
  | .subjectRejected issues => (.debug, "subject failed validation", [("issues", .int issues)])
  | .cacheHit segment key => (.trace, "matcher cache hit", [("key", .str key), ("segment", .str segment)])
  | .batchFlushed matcher size => (.debug, "flushing batch", [("matcher", .str matcher), ("size", .int size)])
  | .batchFailed matcher size pending error =>
    (.warn, "batch evaluator failed, pending requests resolved to false",
      [("error", .str error), ("matcher", .str matcher), ("pending", .int pending), ("size", .int size)])
  | .segmentEvaluated segment invocations flushed =>
    (.trace, "segment evaluated",
      [("flushed", .int flushed), ("invocations", .int invocations), ("segment", .str segment)])
  | .fallbackFailed segment error =>
    (.warn, "fallback failed, resolving to false", [("error", .str error), ("segment", .str segment)])
  | .message level text => (level, text, [])

end Notice

namespace Telemetry

def start (level : Option Level) (tracer : Tracer) (logger : Logger) (observer : Option ErrorObserver) : Telemetry :=
  ⟨level, tracer, logger, observer, [], [], []⟩

/-- Whether the subscriber takes what has a level. -/
def takes (t : Telemetry) (level : Level) : Bool :=
  match t.level with
  | none => false
  | some most => level.verbosity ≤ most.verbosity

def sight (t : Telemetry) (s : Sighting) : Telemetry := { t with sightings := t.sightings ++ [s] }

def diagnose (t : Telemetry) (level : Level) (text : String) (fields : List (String × Json)) : Telemetry :=
  if t.takes level then t.sight (.diagnostic level text fields) else t

def modifySpan (t : Telemetry) (span : Nat) (f : SpanView → SpanView) : Telemetry :=
  { t with spans := t.spans.modify span f }

/-- The attributes that are fields of the built-in tracer's spans. -/
def knownFields : List String :=
  ["otel.name", "otel.status_code", "otel.status_message", "segment.name", "segment.result", "matcher.name",
    "matcher.args", "matcher.result", "error.kind", "error.message"]

/-- An attribute as a field; numbers that are not whole are written out. -/
def fieldValue : Attribute → Json
  | .string text => .str text
  | .bool value => .bool value
  | .int n => .int n
  | .float x => .str x.display

/-- Whether the built-in tracer's spans are taken. -/
def tracesSpans (t : Telemetry) : Bool := t.takes .info

def trace (t : Telemetry) (view : SpanView) (entry : TraceEntry) : Telemetry :=
  if t.tracesSpans then t.sight (.trace view.number entry) else t

/-- What the built-in tracer makes of a call. -/
def traceCall (t : Telemetry) (view : SpanView) : SpanCall → Telemetry
  | .start _ _ => t
  | .attribute key value =>
    if key ∈ knownFields then t.trace view (.recorded key (fieldValue value))
    else if t.takes .debug then
      t.trace view (.event .debug "span attribute" [("attribute", .str key), ("value", .str value.display)])
    else t
  | .status status =>
    let code := match status.code with
      | .unset => "UNSET"
      | .ok => "OK"
      | .error => "ERROR"
    let t := t.trace view (.recorded "otel.status_code" (.str code))
    match status.message with
    | some message => t.trace view (.recorded "otel.status_message" (.str message))
    | none => t
  | .finish => t

/-- Gives up a handle of a subscriber's span; the last one closes it. -/
def dropHandle (t : Telemetry) (span : Nat) : Telemetry :=
  match t.spans[span]? with
  | none => t
  | some view =>
    let t := t.modifySpan span fun v => { v with handles := v.handles - 1 }
    if view.handles = 1 then t.trace view .closed else t

/-- Lets a call reach a span, unless it has ended or is disabled. -/
def reach (t : Telemetry) (span : Nat) (call : SpanCall) : Telemetry :=
  match t.spans[span]? with
  | none => t
  | some view =>
    if view.ended || view.disabled then t
    else
      match t.tracer with
      | .disabled => t
      | .builtIn => t.traceCall view call
      | .custom tracer =>
        let panicked := tracer.panics view.calls call
        let t := t.sight (.spanCall view.number call)
        let t := t.modifySpan span fun v => { v with calls := v.calls ++ [call], disabled := panicked }
        if panicked then t.diagnose .warn "tracer span panicked, span disabled" [] else t

/-- What a reference to a context says. -/
def context (t : Telemetry) : ContextRef → ContextView
  | .blank => .blank
  | .taken context => t.contexts.getD context .blank
  | .foreign name id => ⟨name, id, none⟩

def startSpan (t : Telemetry) (tracer : Nat) (name : String) (parent : Option ContextRef) : Telemetry :=
  let number := t.spans.countP (·.tracer = tracer) + 1
  let parent := parent.map t.context
  let view : SpanView := ⟨tracer, name, number, false, false, [], 1⟩
  match t.tracer with
  | .disabled => { t with spans := t.spans ++ [view] }
  | .builtIn =>
    let parentSpan := (parent.bind (·.backing)).bind fun span => t.spans[span]?.map (·.number)
    { t with spans := t.spans ++ [view] }.trace view (.opened parentSpan [("otel.name", .str name)])
  | .custom tracer =>
    let call := SpanCall.start name (parent.map (·.number))
    let panicked := tracer.panics [] call
    let t := { t with spans := t.spans ++ [{ view with calls := [call], disabled := panicked }] }
    let t := t.sight (.spanCall number call)
    if panicked then t.diagnose .warn "tracer panicked while starting a span" [("span", .str name)] else t

/-- The context that a span gives. -/
def contextOf (t : Telemetry) (span : Nat) : ContextView :=
  match t.spans[span]?, t.tracer with
  | some view, .builtIn =>
    ⟨view.name, view.number, if view.ended then none else some span⟩
  | some view, .custom tracer =>
    if view.disabled || tracer.panicsOnContext view.calls then .blank else ⟨view.name, view.number, none⟩
  | _, _ => .blank

/-- Takes a context; one that is backed by a span is a handle of it. -/
def takeContext (t : Telemetry) (span : Nat) : Telemetry :=
  let context := t.contextOf span
  let t := { t with contexts := t.contexts ++ [context] }
  if context.backing.isSome then t.modifySpan span fun v => { v with handles := v.handles + 1 } else t

/-- Ends a span, if it was not ended; the guard's handle goes with it. -/
def endSpan (t : Telemetry) (span : Nat) : Telemetry :=
  match t.spans[span]? with
  | none => t
  | some view =>
    if view.ended then t
    else
      let t := (t.reach span .finish).modifySpan span fun v => { v with ended := true }
      match t.tracer with
      | .builtIn => t.dropHandle span
      | _ => t

def releaseContext (t : Telemetry) (context : Nat) : Telemetry :=
  match (t.contexts.getD context .blank).backing with
  | some span => t.dropHandle span
  | none => t

def seeSpan (t : Telemetry) : SpanEvent → Telemetry
  | .started tracer name parent => t.startSpan tracer name parent
  | .attributed span key value => t.reach span (.attribute key value)
  | .statusSet span status => t.reach span (.status status)
  | .contextTaken span => t.takeContext span
  | .ended span => t.endSpan span
  | .contextReleased context => t.releaseContext context

/-- Hands an error to the logger. -/
def log (t : Telemetry) (error : Error) (segment : String) (subject : Json) : Telemetry :=
  match t.logger with
  | .silent => t
  | .reporting =>
    t.diagnose .error "segment evaluation failed"
      [("error", .str error.chain), ("kind", .str error.kind.name),
        ("matcher", .str (error.matcherName?.getD "-")), ("segment", .str segment)]
  | .callback panics =>
    let t := t.sight (.logged error segment subject)
    if panics then t.diagnose .warn "logger panicked while reporting an error" [("segment", .str segment)] else t

/-- Hands an error to the observer. -/
def observe (t : Telemetry) (error : Error) (segment : String) (subject : Json) : Telemetry :=
  match t.observer with
  | none => t
  | some observer =>
    let t := t.sight (.observed error segment subject)
    if observer.panics then t.diagnose .warn "error observer panicked" [("segment", .str segment)] else t

def see (t : Telemetry) : Event → Telemetry
  | .span event => t.seeSpan event
  | .errorReported error segment subject => (t.log error segment subject).observe error segment subject
  | .noticed notice =>
    let (level, text, fields) := notice.render
    t.diagnose level text fields
  | _ => t

def seeAll (t : Telemetry) (events : List Event) : Telemetry := events.foldl see t

end Telemetry

end Segmentation
