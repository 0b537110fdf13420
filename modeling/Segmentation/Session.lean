import Segmentation.Drive
import Segmentation.Progress
import Segmentation.Span.Guard

/-!
# Evaluating one expression for one subject

A `Session` holds the invocations of one evaluation, at most one for each definition key, however often the
expression refers to it.  An invocation has a span of its own.  It validates its argument, then calls its
evaluator or queues a request, and settles with an outcome that all references share.  Every reference takes a seat
at its invocation; a seat that was given up is taken again before a new one.

A `Session` together with the `Progress` of an expression is a `Client`: polling it looks at the leaves that are
due and then takes up their outcomes.
-/

namespace Segmentation

/-- What the invocations of a session have in common. -/
structure Scope where
  subject : Json
  segment : String
  /-- Whether batched matchers may queue requests. -/
  batching : Bool
  /-- The tracer that is asked for spans. -/
  tracer : Nat
  /-- The parent of the spans; without one there are no spans. -/
  parent : Option ContextRef

inductive Stage where
  | fresh
  | validating (span : Nat) (deadline : Nat) (rest : Task Checked)
  | evaluating (span : Nat) (args : Option Json) (deadline : Nat) (rest : Task (Ending Bool))
  | awaiting (span : Nat) (load : Load)
  | settled (outcome : Outcome)

structure Invocation where
  definition : Definition
  stage : Stage
  /-- Number of seats that were ever taken. -/
  seats : Nat
  /-- The seats given up, the last one first. -/
  vacant : List Nat

structure Session where
  scope : Scope
  invocations : List Invocation

namespace Scope

/-- The events of a span, if there are spans. -/
def spanEvents (scope : Scope) (events : List SpanEvent) : List Event :=
  if scope.parent.isSome then events.map .span else []

def argumentError (scope : Scope) (matcher message : String) : Error :=
  .matcherArgument matcher scope.segment message (some scope.subject)

end Scope

namespace Invocation

/-- The start of the span of an invocation. -/
def opening (scope : Scope) (definition : Definition) (span : Nat) : List SpanEvent :=
  [.started scope.tracer ("matcher:" ++ definition.name) scope.parent,
    .attributed span "matcher.name" (.string definition.name),
    .attributed span "segment.name" (.string scope.segment)] ++
  (definition.args.map fun args => SpanEvent.attributed span "matcher.args" (.string args.stableKey)).toList

/-- The end of the span of an invocation. -/
def closing (span : Nat) : Outcome → List SpanEvent
  | .ok value => [.attributed span "matcher.result" (.bool value), .statusSet span ⟨.ok, none⟩, .ended span]
  | .error error => SpanEvent.ofError span error ++ [.ended span]

/-- What a validation means for the invocation. -/
def judge (scope : Scope) (matcher : String) : Checked → Except Error Json
  | .ok (.accepted value) => .ok value
  | .ok .empty => .error (scope.argumentError matcher "validator reported success without a value")
  | .ok (.rejected issues) => .error (scope.argumentError matcher (Issue.summary issues))
  | .error payload => .error (scope.argumentError matcher ("validator failed: " ++ payload.message))

/-- What the ending of a single evaluator means for the invocation. -/
def verdict (scope : Scope) (matcher : String) (args : Option Json) (ending : Ending Bool) : Outcome :=
  match ending.contained with
  | .ok value => .ok value
  | .error cause => .error (.matcherEvaluation matcher scope.segment scope.subject args cause)

variable (scope : Scope) (definition : Definition) (index : Nat)

/-- Settles an invocation and ends its span. -/
def settle (span : Nat) (outcome : Outcome) (scene : Scene) : Stage × Scene :=
  (.settled outcome, { scene with journal := scene.journal.recordAll (scope.spanEvents (closing span outcome)) })

/-- An evaluator that was started. -/
def evaluated (span : Nat) (args : Option Json) (running : Running (Ending Bool)) (scene : Scene) : Stage × Scene :=
  match running with
  | .ended ending =>
    let scene := { scene with journal := scene.journal.record (.evaluatorEnded definition.name) }
    settle scope span (verdict scope definition.name args ending) scene
  | .asleep deadline rest =>
    (.evaluating span args deadline rest, scene.setAlarm deadline (.wake [index]))

/-- Decides on a valid argument: by a call, or by a request in the queue of the matcher. -/
def dispatch (span : Nat) (args : Option Json) (scene : Scene) : Stage × Scene :=
  match definition.matcher.evaluator with
  | .single evaluate =>
    let launch := evaluate (scene.journal.invocations definition.name) ⟨scope.subject, args⟩
    let scene := { scene with journal := scene.journal.record (.invoked definition.name args) }
    evaluated scope definition index span args (launch.start scene.journal.now .panicked) scene
  | .batch evaluate =>
    if !scope.batching then
      settle scope span (.error (.missingBatchContext definition.name scope.segment)) scene
    else
      let hub := scene.hub.openQueue definition.name evaluate
      let (load, hub) := hub.loadKeyed definition.name ((args.map Json.stableKey).getD "") ⟨scope.subject, args⟩
      (.awaiting span load, ⟨hub.await load [index], scene.journal.record (.requested definition.name args)⟩)

/-- A validation that was started. -/
def validated (span : Nat) (running : Running Checked) (scene : Scene) : Stage × Scene :=
  match running with
  | .ended checked =>
    match judge scope definition.name checked with
    | .ok value => dispatch scope definition index span (some value) scene
    | .error error => settle scope span (.error error) scene
  | .asleep deadline rest =>
    (.validating span deadline rest, scene.setAlarm deadline (.wake [index]))

/-- Starts an invocation: its span, then the validation of its argument. -/
def begins (scene : Scene) : Stage × Scene :=
  let span := scene.journal.spanCount
  let scene := { scene with journal := scene.journal.recordAll (scope.spanEvents (opening scope definition span)) }
  match definition.matcher.schema, definition.args with
  | some schema, some raw =>
    let scene := { scene with journal := scene.journal.record (.argumentChecked definition.name raw) }
    validated scope definition index span ((schema raw).start scene.journal.now .error) scene
  | some _, none => settle scope span (.error (scope.argumentError definition.name "no arguments were bound")) scene
  | none, args => dispatch scope definition index span args scene

/-- Goes on with an invocation as far as it can now. -/
def advance (stage : Stage) (scene : Scene) : Stage × Scene :=
  match stage with
  | .fresh => begins scope definition index scene
  | .validating span deadline rest =>
    if scene.journal.now < deadline then (stage, scene)
    else validated scope definition index span (rest.start scene.journal.now) scene
  | .evaluating span args deadline rest =>
    if scene.journal.now < deadline then (stage, scene)
    else evaluated scope definition index span args (rest.start scene.journal.now) scene
  | .awaiting span load =>
    match scene.hub.state load with
    | .waiting => (stage, scene)
    | .answered value => settle scope span (.ok value) scene
    | .lost => settle scope span (.error (.unansweredRequest definition.name scope.segment)) scene
  | .settled _ => (stage, scene)

/-- Ends the span of an invocation that is dropped, and its evaluator if that sleeps. -/
def drop (invocation : Invocation) (journal : Journal) : Journal :=
  match invocation.stage with
  | .fresh => journal
  | .validating span _ _ => journal.recordAll (scope.spanEvents [.ended span])
  | .evaluating span _ _ _ =>
    (journal.record (.evaluatorDropped invocation.definition.name)).recordAll (scope.spanEvents [.ended span])
  | .awaiting span _ => journal.recordAll (scope.spanEvents [.ended span])
  | .settled _ => journal

end Invocation

namespace Session

def start (scope : Scope) : Session := ⟨scope, []⟩

/-- The outcome of an invocation, once it has one. -/
def outcome? (session : Session) (index : Nat) : Option Outcome :=
  match session.invocations[index]? with
  | some ⟨_, .settled outcome, _, _⟩ => some outcome
  | _ => none

/-- The invocation for a definition: the one with its key, or a new one. -/
def invocationFor (session : Session) (definition : Definition) (journal : Journal) : Nat × Session × Journal :=
  let key := definition.key
  match session.invocations.findIdx? (·.definition.key = key) with
  | some index => (index, session, journal.notice (.cacheHit session.scope.segment key))
  | none =>
    (session.invocations.length,
      { session with invocations := session.invocations ++ [⟨definition, .fresh, 0, []⟩] }, journal)

/-- Takes a seat at an invocation, the one that was given up last if there is one. -/
def takeSeat (session : Session) (index : Nat) : Nat × Session :=
  match session.invocations[index]? with
  | none => (0, session)
  | some invocation =>
    let (seat, taken) : Nat × Invocation := match invocation.vacant with
      | [] => (invocation.seats, { invocation with seats := invocation.seats + 1 })
      | seat :: vacant => (seat, { invocation with vacant })
    (seat, { session with invocations := session.invocations.set index taken })

/-- Gives seats at invocations up. -/
def leave (session : Session) (seats : List (Nat × Nat)) : Session :=
  seats.foldl (fun session (index, seat) =>
    { session with invocations := session.invocations.modify index fun i => { i with vacant := seat :: i.vacant } })
    session

mutual

/-- An expression whose leaves are invocations of the session. -/
def launch : Expr → Session → Journal → Progress × Session × Journal
  | .leaf definition, session, journal =>
    let (index, session, journal) := session.invocationFor definition journal
    let (seat, session) := session.takeSeat index
    (.leaf index seat, session, journal)
  | .and operands, session, journal =>
    let (ps, session, journal) := launchAll operands session journal
    (.group .and (List.range ps.length) (List.range ps.length) ps [] none, session, journal)
  | .or operands, session, journal =>
    let (ps, session, journal) := launchAll operands session journal
    (.group .or (List.range ps.length) (List.range ps.length) ps [] none, session, journal)
  | .not operand, session, journal =>
    let (p, session, journal) := launch operand session journal
    (.not p, session, journal)

def launchAll : List Expr → Session → Journal → List Progress × Session × Journal
  | [], session, journal => ([], session, journal)
  | e :: es, session, journal =>
    let (p, session, journal) := launch e session journal
    let (ps, session, journal) := launchAll es session journal
    (p :: ps, session, journal)

end

/-- Goes on with one invocation. -/
def advance (session : Session) (scene : Scene) (index : Nat) : Session × Scene :=
  match session.invocations[index]? with
  | none => (session, scene)
  | some invocation =>
    let (stage, scene) := Invocation.advance session.scope invocation.definition index invocation.stage scene
    ({ session with invocations := session.invocations.set index { invocation with stage } }, scene)

/-- Drops all invocations that have not settled. -/
def drop (session : Session) (journal : Journal) : Journal :=
  session.invocations.foldl (fun journal invocation => invocation.drop session.scope journal) journal

end Session

/-- An expression under evaluation in a session. -/
structure Evaluation where
  session : Session
  progress : Progress
  /-- How many of those woken at the hub the expression was told of. -/
  seen : Nat

namespace Evaluation

/-- Starts to evaluate an expression; nothing runs before the first poll. -/
def start (session : Session) (expr : Expr) (scene : Scene) : Evaluation × Scene :=
  let (progress, session, journal) := session.launch expr scene.journal
  (⟨session, progress, scene.hub.woken.length⟩, { scene with journal })

def outcome? (evaluation : Evaluation) : Option Outcome := evaluation.progress.outcome?

/-- The invocations woken of which the expression was not told yet. -/
def news (evaluation : Evaluation) (hub : Hub) : List Nat := (hub.woken.drop evaluation.seen).flatten

def poll (evaluation : Evaluation) (scene : Scene) : Evaluation × Scene :=
  let progress := evaluation.progress.wakeAll (evaluation.news scene.hub)
  let seen := scene.hub.woken.length
  let (session, scene) := progress.due.foldl (fun (session, scene) index => session.advance scene index)
    (evaluation.session, scene)
  (⟨session, progress.collect session.outcome?, seen⟩, scene)

/-- The session without the seats of an evaluation that is given up. -/
def giveUp (evaluation : Evaluation) : Session := evaluation.session.leave evaluation.progress.seats

instance : Client Evaluation where
  poll := poll
  settled evaluation := evaluation.progress.isSettled
  stirred evaluation hub := (evaluation.news hub).any fun index => evaluation.progress.awaits index

end Evaluation

end Segmentation
