import Segmentation.Proofs.Batching
import Segmentation.Proofs.Logbooks
import Segmentation.Proofs.Refusals

/-!
# Whom errors blame

An invocation fails because the schema of its matcher gave no value for the argument, because its single evaluator
failed or panicked in the call that was made, or because the batch of its request ended well without answering it
(`Definition.AtFault`).  So does an evaluation: its error is that of one of its leaves (`Drive.blames_of_run`), and there
is no other way to fail, as every argument that a matcher needs is bound and every call has batches.  What a call
reports is such an error, with its own segment and subject, or the reason why there was nothing to evaluate
(`Service.reports_blame`).
-/

namespace Segmentation

open Journal (Adds)

/-! ### Leaves at fault -/

/-- A single evaluator was called with an argument, after its matcher had been called so many times. -/
def CalledAs (events : List Event) (matcher : String) (args : Option Json) (count : Nat) : Prop :=
  ∃ (before : Journal) (after : List Event), events = before.events ++ .invoked matcher args :: after ∧
    count = before.invocations matcher

theorem CalledAs.mono {events later : List Event} {matcher : String} {args : Option Json} {count : Nat}
    (called : CalledAs events matcher args count) (grown : events <+: later) : CalledAs later matcher args count := by
  obtain ⟨before, after, rfl, count_eq⟩ := called
  obtain ⟨more, rfl⟩ := grown
  exact ⟨before, after ++ more, by rw [List.append_assoc, List.cons_append], count_eq⟩

/-- The batch of a load has ended well and has left the load without an answer. -/
def PassedOver (happened : List Happening) (load : Load) : Prop :=
  answers happened load = none ∧ ∃ flight loads, .landed flight loads false ∈ happened ∧ load ∈ loads

/-- An error is the fault of a definition: of its schema, of its single evaluator, or of its batched evaluator, of whose
batches `happened` tells. -/
inductive Definition.AtFault (scope : Scope) (events : List Event) (happened : List Happening) (hub : Hub)
    (definition : Definition) : Error → Prop
  | refused {schema : Schema} {raw : Json} {error : Error} (takes : definition.matcher.schema = some schema)
    (bound : definition.args = some raw)
    (judged : Invocation.judge scope definition.name ((schema raw).final .error) = .error error) :
    AtFault scope events happened hub definition error
  | failed {evaluate : SingleEvaluator} {args : Option Json} {count : Nat} {cause : Cause}
    (single : definition.matcher.evaluator = .single evaluate) (admitted : definition.admitted = some args)
    (called : CalledAs events definition.name args count)
    (ended : ((evaluate count ⟨scope.subject, args⟩).final .panicked).contained = .error cause) :
    AtFault scope events happened hub definition
      (.matcherEvaluation definition.name scope.segment scope.subject args cause)
  | unanswered {evaluate : BatchEvaluator} {load : Load} (batched : definition.matcher.evaluator = .batch evaluate)
    (requests : definition.Requests hub load) (passed : PassedOver happened load) :
    AtFault scope events happened hub definition (.unansweredRequest definition.name scope.segment)

/-- An error names the definition whose fault it is, and the segment. -/
theorem Definition.AtFault.names {scope : Scope} {events : List Event} {happened : List Happening} {hub : Hub}
    {definition : Definition} {error : Error} (fault : definition.AtFault scope events happened hub error) :
    error.matcherName? = some definition.name ∧ error.segmentName? = some scope.segment ∧
      (error.kind = .matcherArgument ∨ error.kind = .matcherEvaluation) := by
  cases fault with
  | failed => exact ⟨rfl, rfl, .inr rfl⟩
  | unanswered => exact ⟨rfl, rfl, .inr rfl⟩
  | @refused schema raw _ takes bound judged =>
    unfold Invocation.judge at judged
    split at judged
    · cases judged
    all_goals
      obtain rfl := Except.error.inj judged
      exact ⟨rfl, rfl, .inl rfl⟩

theorem Definition.AtFault.mono {scope : Scope} {events later : List Event} {happened : List Happening} {hub : Hub}
    {definition : Definition} {error : Error} (fault : definition.AtFault scope events happened hub error)
    (grown : events <+: later) : definition.AtFault scope later happened hub error := by
  cases fault with
  | refused takes bound judged => exact .refused takes bound judged
  | failed single admitted called ended => exact .failed single admitted (called.mono grown) ended
  | unanswered batched requests passed => exact .unanswered batched requests passed

/-! ### Invocations -/

/-- The error of an invocation is its own fault, unless its request was lost. -/
def Definition.Owns (scope : Scope) (events : List Event) (definition : Definition) (error : Error) : Prop :=
  (∃ evaluate, definition.matcher.evaluator = .batch evaluate ∧
    error = .unansweredRequest definition.name scope.segment) ∨
  ∀ happened hub, definition.AtFault scope events happened hub error

/-- If an invocation has failed it is to blame, and whatever it still waits for comes to what the schema and the
evaluator come to. -/
def Stage.Accountable (scope : Scope) (definition : Definition) (events : List Event) : Stage → Prop
  | .fresh => True
  | .validating _ _ rest => ∃ schema raw, definition.matcher.schema = some schema ∧ definition.args = some raw ∧
      rest.final = (schema raw).final .error
  | .evaluating _ args _ rest => ∃ evaluate count, definition.matcher.evaluator = .single evaluate ∧
      definition.admitted = some args ∧ CalledAs events definition.name args count ∧
      rest.final = (evaluate count ⟨scope.subject, args⟩).final .panicked
  | .awaiting _ _ => ∃ evaluate, definition.matcher.evaluator = .batch evaluate
  | .settled outcome => ∀ error, outcome = .error error → definition.Owns scope events error

theorem Stage.Accountable.mono {scope : Scope} {definition : Definition} {events later : List Event} {stage : Stage}
    (accountable : stage.Accountable scope definition events) (grown : events <+: later) :
    stage.Accountable scope definition later := by
  cases stage with
  | evaluating span args deadline rest =>
    obtain ⟨evaluate, count, single, admitted, called, comes⟩ := accountable
    exact ⟨evaluate, count, single, admitted, called.mono grown, comes⟩
  | settled outcome =>
    intro error failed
    exact (accountable error failed).imp_right fun fault happened hub => (fault happened hub).mono grown
  | _ => exact accountable

/-- What is written comes after what was written before. -/
theorem Journal.Adds.grown {P : Event → Prop} {before later : Journal} (adds : before.Adds P later) :
    before.events <+: later.events := by
  obtain ⟨written, dates, -⟩ := adds
  exact ⟨written, (dates.writes).symm⟩

namespace Invocation

variable (scope : Scope) (definition : Definition) (index span : Nat)

theorem evaluated_accountable {evaluate : SingleEvaluator} (single : definition.matcher.evaluator = .single evaluate)
    {args : Option Json} (admitted : definition.admitted = some args) {count : Nat} {scene : Scene}
    (called : CalledAs scene.journal.events definition.name args count) {running : Running (Ending Bool)}
    (comes : running.final = (evaluate count ⟨scope.subject, args⟩).final .panicked) :
    let r := evaluated scope definition index span args running scene
    r.1.Accountable scope definition r.2.journal.events := by
  intro r
  have called := called.mono (evaluated_stands scope definition index span args running scene).journal.grown
  cases running with
  | asleep deadline rest => exact ⟨evaluate, count, single, admitted, called, comes⟩
  | ended ending =>
    intro error failed
    have comes : ending = (evaluate count ⟨scope.subject, args⟩).final .panicked := comes
    have failed : verdict scope definition.name args ending = .error error := failed
    unfold verdict at failed
    cases contained : ending.contained with
    | ok value =>
      rw [contained] at failed
      cases failed
    | error cause =>
      rw [contained] at failed
      obtain rfl := Except.error.inj failed
      exact .inr fun _ _ => .failed single admitted called (comes ▸ contained)

theorem dispatch_accountable (batching : scope.batching = true) {args : Option Json}
    (admitted : definition.admitted = some args) (scene : Scene) :
    let r := dispatch scope definition index span args scene
    r.1.Accountable scope definition r.2.journal.events := by
  unfold dispatch
  cases evaluator : definition.matcher.evaluator with
  | single evaluate =>
    have called : CalledAs (scene.journal.record (.invoked definition.name args)).events definition.name args
        (scene.journal.invocations definition.name) := ⟨scene.journal, [], Journal.writes_record _ _, rfl⟩
    exact evaluated_accountable scope definition index span evaluator admitted called (Launch.final_start _ _ _)
  | batch evaluate =>
    rw [batching]
    exact ⟨evaluate, evaluator⟩

theorem validated_accountable (batching : scope.batching = true) {schema : Schema} {raw : Json}
    (takes : definition.matcher.schema = some schema) (bound : definition.args = some raw) {running : Running Checked}
    (comes : running.final = (schema raw).final .error) (scene : Scene) :
    let r := validated scope definition index span running scene
    r.1.Accountable scope definition r.2.journal.events := by
  cases running with
  | asleep deadline rest => exact ⟨schema, raw, takes, bound, comes⟩
  | ended checked =>
    have comes : checked = (schema raw).final .error := comes
    unfold validated
    cases judged : judge scope definition.name checked with
    | ok value =>
      simp only [judged]
      rw [comes] at judged
      refine dispatch_accountable scope definition index span batching ?_ scene
      rcases judge_eq scope definition takes bound with ⟨other, judged', admitted⟩ | ⟨error, judged', -⟩
      · rw [admitted, Except.ok.inj (judged.symm.trans judged')]
      · cases judged.symm.trans judged'
    | error error =>
      simp only [judged]
      rw [comes] at judged
      intro other same
      obtain rfl := Except.error.inj same
      exact .inr fun _ _ => .refused takes bound judged

/-- An argument that the matcher needs is bound, so it is not refused for being absent. -/
theorem begins_accountable (batching : scope.batching = true) (fits : definition.Fits) (scene : Scene) :
    let r := begins scope definition index scene
    r.1.Accountable scope definition r.2.journal.events := by
  unfold begins
  dsimp only
  cases takes : definition.matcher.schema with
  | none =>
    have admitted : definition.admitted = some definition.args := by rw [Definition.admitted, takes]
    exact dispatch_accountable scope definition index _ batching admitted _
  | some schema =>
    cases bound : definition.args with
    | none =>
      rw [Definition.Fits, Matcher.takesArgs, takes, bound] at fits
      cases fits
    | some raw => exact validated_accountable scope definition index _ batching takes bound (Launch.final_start _ _ _) _

/-- Wherever an invocation is, it stays accountable when it goes on. -/
theorem advance_accountable (batching : scope.batching = true) (fits : definition.Fits) {stage : Stage} {scene : Scene}
    (accountable : stage.Accountable scope definition scene.journal.events) :
    let r := advance scope definition index stage scene
    r.1.Accountable scope definition r.2.journal.events := by
  unfold advance
  cases stage with
  | fresh => exact begins_accountable scope definition index batching fits scene
  | validating span deadline rest =>
    dsimp only
    split
    · exact accountable
    · obtain ⟨schema, raw, takes, bound, comes⟩ := accountable
      exact validated_accountable scope definition index span batching takes bound ((Task.final_start _ _).trans comes)
        scene
  | evaluating span args deadline rest =>
    dsimp only
    split
    · exact accountable
    · obtain ⟨evaluate, count, single, admitted, called, comes⟩ := accountable
      exact evaluated_accountable scope definition index span single admitted called
        ((Task.final_start _ _).trans comes)
  | awaiting span load =>
    cases state : scene.hub.state load with
    | waiting =>
      simp only [state]
      exact accountable
    | answered value =>
      simp only [state]
      exact nofun
    | lost =>
      simp only [state]
      intro error failed
      obtain ⟨evaluate, batched⟩ := accountable
      exact .inl ⟨evaluate, batched, (Except.error.inj failed).symm⟩
  | settled outcome => exact accountable

end Invocation

/-! ### Sessions -/

namespace Session

/-- All invocations have the arguments that they need, and are accountable. -/
def Accountable (session : Session) (events : List Event) : Prop :=
  ∀ i ∈ session.invocations, i.definition.Fits ∧ i.stage.Accountable session.scope i.definition events

variable {session : Session}

theorem Accountable.mono {events later : List Event} (accountable : session.Accountable events)
    (grown : events <+: later) : session.Accountable later :=
  fun i mem => (accountable i mem).imp_right (·.mono grown)

theorem Accountable.advance (batching : session.scope.batching = true) {scene : Scene}
    (accountable : session.Accountable scene.journal.events) (index : Nat) :
    (session.advance scene index).1.Accountable (session.advance scene index).2.journal.events ∧
      (session.advance scene index).1.scope = session.scope := by
  have grown := (session.advance_stands scene index).journal.grown
  unfold Session.advance at grown ⊢
  cases here : session.invocations[index]? with
  | none => exact ⟨accountable, rfl⟩
  | some i =>
    simp only [here] at grown
    refine ⟨fun j mem => ?_, rfl⟩
    rcases List.mem_or_eq_of_mem_set mem with mem | rfl
    · exact (accountable j mem).imp_right (·.mono grown)
    · obtain ⟨fits, own⟩ := accountable i (List.mem_of_getElem? here)
      exact ⟨fits, Invocation.advance_accountable session.scope i.definition index batching fits own⟩

theorem Accountable.advanceAll (indices : List Nat) (batching : session.scope.batching = true) {scene : Scene}
    (accountable : session.Accountable scene.journal.events) :
    (advanceAll indices session scene).1.Accountable (Session.advanceAll indices session scene).2.journal.events := by
  induction indices generalizing session scene with
  | nil => exact accountable
  | cons index indices ih =>
    obtain ⟨accountable, scope_eq⟩ := accountable.advance batching index
    exact ih ((congrArg Scope.batching scope_eq).trans batching) accountable

/-- An expression that was only launched has no invocation that failed. -/
theorem accountable_launch {scope : Scope} {expr : Expr} (fits : ∀ d ∈ expr.leaves, d.Fits) (journal : Journal)
    (events : List Event) : ((Session.start scope).launch expr journal).2.1.Accountable events := by
  have unbegun := Unbegun.of_start scope expr journal
  intro i mem
  obtain ⟨fresh, leaf⟩ := unbegun.fresh i mem
  rw [fresh]
  exact ⟨fits i.definition leaf, trivial⟩

end Session

namespace Drive

/-- A pass keeps all invocations accountable. -/
theorem pass_accountable {drive : Drive Evaluation} (batching : drive.client.session.scope.batching = true)
    {scene : Scene} (accountable : drive.client.session.Accountable scene.journal.events) :
    (drive.pass scene).1.client.session.Accountable (drive.pass scene).2.journal.events := by
  have polled : (drive.pass scene).1.client.session.Accountable (drive.pollClient scene).2.journal.events := by
    rw [Evaluation.client_pass]
    have same : Client.settled drive.client = drive.client.progress.isSettled := rfl
    unfold pollClient
    rw [same]
    cases drive.client.progress.isSettled with
    | true => exact accountable
    | false => exact accountable.advanceAll _ batching
  exact polled.mono (drive.pass_stands scene).journal.grown

/-- A request that is lost was passed over by its batch. -/
theorem passedOver_of_lost {hub : Hub} {happened : List Happening} {load : Load}
    (lost : hub.fate happened load = .lost) : PassedOver happened load := by
  unfold Hub.fate at lost
  cases answered : answers happened load with
  | some value =>
    rw [answered] at lost
    cases lost
  | none =>
    simp only [answered, ite_eq_left_iff, reduceCtorEq, imp_false, not_not] at lost
    obtain ⟨happening, mem, lands⟩ := List.mem_flatMap.1 lost.1
    have silent : happening.answer? load = none := List.findSome?_eq_none_iff.1 answered happening mem
    cases happening with
    | landed flight loads failed =>
      cases failed with
      | false => exact ⟨answered, flight, loads, mem, lands⟩
      | true =>
        have lands : load ∈ loads := lands
        rw [Happening.answer?, if_pos lands] at silent
        cases silent
    | _ => cases lands

/-- The error of an evaluation is the fault of one of its leaves. -/
theorem blames_of_run {scope : Scope} (batching : scope.batching = true) {expr : Expr} {begun : Journal}
    {happened : List Happening} {drive : Drive Evaluation} {hub : Hub}
    (run : Run (Evaluation.start (.start scope) expr ⟨.empty, begun⟩).1 .empty happened drive hub) {events : List Event}
    (accountable : drive.client.session.Accountable events) {error : Error}
    (failed : drive.client.outcome? = some (.error error)) :
    ∃ d ∈ expr.leaves, d.AtFault scope events happened hub error := by
  obtain ⟨manned, informed⟩ := run.free.keeps batching
  have sound : Evaluation.Sound expr drive.client := by
    refine informed.stands.resolve_left fun same => ?_
    have waits := Evaluation.launched_waits (.start scope) expr ⟨.empty, begun⟩
    rw [← same, Progress.isSettled] at waits
    rw [Evaluation.outcome?] at failed
    rw [failed] at waits
    cases waits
  obtain ⟨-, leaf, leaf_mem, known⟩ := sound.concludes failed
  rw [Session.outcomeFor_eq (informed.keyed leaf leaf_mem), Session.outcome?_eq] at known
  obtain ⟨i, here, settled⟩ := Option.bind_eq_some_iff.1 known
  have stage : i.stage = .settled (.error error) := by
    split at settled
    · rename_i outcome stage
      rw [stage, Option.some.inj settled]
    · cases settled
  have i_mem := List.mem_of_getElem? here
  refine ⟨i.definition, informed.leaves _ (List.mem_map_of_mem i_mem), ?_⟩
  have own := (accountable i i_mem).2
  rw [stage, informed.scope_eq] at own
  rcases own error rfl with ⟨evaluate, batched, rfl⟩ | fault
  · -- the invocation has asked for an answer, and what became of its request is that it was lost
    have asks := informed.asks _ i here
    rw [stage, informed.scope_eq] at asks
    rcases asks with single | ⟨-, -, message, other⟩ | ⟨load, -, requests, became⟩
    · simp [Matcher.isBatched, batched] at single
    · cases other
    · obtain ⟨-, args, request, -, found⟩ := id requests
      have loaded := (List.getElem?_eq_some_iff.1 found).1
      rw [manned.accounted.state_eq_fate loaded] at became
      cases fate : hub.fate happened load with
      | lost => exact .unanswered batched requests (passedOver_of_lost fate)
      | waiting =>
        rw [fate] at became
        cases became
      | answered value =>
        rw [fate] at became
        cases became
  · exact fault happened hub

end Drive

/-! ### Calls -/

namespace Call

/-- The evaluation of the call is over, and this was told of it. -/
def Utters (call : Call) (told : List Event) (before : Journal) (r : Call × Journal) : Prop :=
  ∃ stage strays written, IsOver stage ∧ r.1 = { call with stage, strays } ∧ before.Writes written r.2 ∧
    appeals written = told

theorem Utters.after {call : Call} {first told : List Event} {before between : Journal} {r : Call × Journal}
    (utters : call.Utters told between r) (writes : before.Writes first between) :
    call.Utters (appeals first ++ told) before r := by
  obtain ⟨stage, strays, written, ended, same, writes', rfl⟩ := utters
  exact ⟨stage, strays, first ++ written, ended, same, writes.trans writes', appeals_append first written⟩

section

variable (call : Call) (span : Nat) (journal : Journal)

theorem finish_utters (value : Bool) : call.Utters [] journal (call.finish span value journal) :=
  ⟨.answered value, call.strays, _, trivial, rfl, Journal.writes_recordAll _ _, rfl⟩

theorem recovered_utters (running : Running (Ending Bool)) :
    call.Utters [] journal (call.recovered span running journal) := by
  cases running with
  | asleep deadline rest =>
    exact ⟨.recovering span deadline journal.alarms rest, call.strays, [], trivial, rfl, Journal.writes_nil rfl, rfl⟩
  | ended ending =>
    unfold recovered
    dsimp only
    split
    · exact call.finish_utters span journal _
    · exact (call.finish_utters span _ _).after (Journal.writes_notice journal _)

theorem conclude_utters (outcome : Outcome) : call.Utters (call.told outcome) journal (call.conclude span outcome journal) := by
  cases outcome with
  | ok value => exact (call.finish_utters span _ value).after (Journal.writes_record journal _)
  | error error =>
    have noted := Journal.writes_recordAll journal ((SpanEvent.ofError span error).map .span)
    have reported := Journal.writes_record (journal.recordAll ((SpanEvent.ofError span error).map .span))
      (.errorReported error call.target.name call.subject)
    unfold conclude told
    dsimp only
    cases call.fallback with
    | none => exact ((call.finish_utters span _ false).after reported).after noted
    | some fallback =>
      exact (((call.recovered_utters span _ _).after (Journal.writes_record _ (.fallbackAsked [error]))).after reported).after
        noted

end

section

variable (segments : Keyed SegmentDefinition) (matchers : String → Option Matcher)

/-- The evaluation of the call has failed with an error that names the segment of the call and a leaf of its expression,
whose fault it is.  All arguments that matchers need are bound, and every matcher was asked in company of batches. -/
def Blames (call : Call) (events : List Event) (error : Error) : Prop :=
  ∃ expr begun chronicle drive hub, call.Builds segments matchers (.ok expr) ∧
    call.Runs expr begun chronicle drive hub ∧ drive.client.outcome? = some (.error error) ∧
    (error.kind = .matcherArgument ∨ error.kind = .matcherEvaluation) ∧
    error.segmentName? = some call.target.name ∧ (∀ d ∈ expr.leaves, d.Fits) ∧
    ∃ d ∈ expr.leaves, error.matcherName? = some d.name ∧
      d.AtFault (call.scope begun) events (chronicle.map (·.2)) hub error

/-- The call comes to an outcome: a value that its evaluation has come to, an error of it with somebody to blame, or the
reason why there is nothing to evaluate. -/
def Comes (call : Call) (events : List Event) : Outcome → Prop
  | .ok value => ∃ expr begun chronicle drive hub, call.Builds segments matchers (.ok expr) ∧
      call.Runs expr begun chronicle drive hub ∧ drive.client.outcome? = some (.ok value)
  | .error error => call.Blames segments matchers events error ∨
      (∀ expr, ¬ call.Builds segments matchers (.ok expr)) ∧
        Engine.Refuses segments matchers call.subject call.target error

/-- What a call that is at some stage has told, and whence. -/
def Vouches (events : List Event) (call : Call) (log : List Event) : Prop :=
  match call.stage with
  | .waiting => log = []
  | .driving _ _ hub drive => appeals log = [] ∧ ∃ begun expr chronicle, call.Builds segments matchers (.ok expr) ∧
      drive.client.Underway (call.scope begun) expr log ∧ call.Runs expr begun chronicle drive hub ∧
      drive.client.session.Accountable events
  | .flushing _ _ _ outcome _ _ => appeals log = [] ∧ call.Comes segments matchers events outcome
  | _ => ∃ outcome, appeals log = call.told outcome ∧ call.Comes segments matchers events outcome

/-- What a call that is over, or was dropped, has told, and whence.  If it is answered it has told all. -/
def Attributes (events : List Event) (call : Call) (log : List Event) : Prop :=
  call.answer? = none ∧ appeals log = [] ∨
  ∃ outcome, appeals log = call.told outcome ∧ call.Comes segments matchers events outcome

/-- A step of a call after which it can say whence all comes that it has told. -/
def Reports (call : Call) (log : List Event) (before : Journal) (r : Call × Journal) : Prop :=
  ∃ written, before.Writes written r.2 ∧ r.1.Vouches segments matchers r.2.events (log ++ written) ∧
    r.1.request = call.request

variable {segments matchers} {call : Call} {log : List Event}

theorem Blames.mono {events later : List Event} {error : Error} (blames : call.Blames segments matchers events error)
    (grown : events <+: later) : call.Blames segments matchers later error := by
  obtain ⟨expr, begun, chronicle, drive, hub, builds, runs, failed, kind, segment, fits, d, mem, name, fault⟩ := blames
  exact ⟨expr, begun, chronicle, drive, hub, builds, runs, failed, kind, segment, fits, d, mem, name, fault.mono grown⟩

theorem Comes.mono {events later : List Event} {outcome : Outcome} (comes : call.Comes segments matchers events outcome)
    (grown : events <+: later) : call.Comes segments matchers later outcome := by
  cases outcome with
  | ok value => exact comes
  | error error => exact comes.imp_left (·.mono grown)

theorem Vouches.mono {events later : List Event} (vouches : call.Vouches segments matchers events log)
    (grown : events <+: later) : call.Vouches segments matchers later log := by
  unfold Vouches at vouches ⊢
  cases stage : call.stage with
  | waiting =>
    simp only [stage] at vouches ⊢
    exact vouches
  | driving span context hub drive =>
    simp only [stage] at vouches ⊢
    obtain ⟨quiet, begun, expr, chronicle, builds, underway, runs, accountable⟩ := vouches
    exact ⟨quiet, begun, expr, chronicle, builds, underway, runs, accountable.mono grown⟩
  | flushing span context hub outcome invocations flush =>
    simp only [stage] at vouches ⊢
    exact vouches.imp_right (·.mono grown)
  | recovering span deadline alarm rest =>
    simp only [stage] at vouches ⊢
    obtain ⟨outcome, told, comes⟩ := vouches
    exact ⟨outcome, told, comes.mono grown⟩
  | answered value =>
    simp only [stage] at vouches ⊢
    obtain ⟨outcome, told, comes⟩ := vouches
    exact ⟨outcome, told, comes.mono grown⟩

theorem Attributes.mono {events later : List Event} (attributes : call.Attributes segments matchers events log)
    (grown : events <+: later) : call.Attributes segments matchers later log :=
  attributes.imp_right fun ⟨outcome, told, comes⟩ => ⟨outcome, told, comes.mono grown⟩

/-- What the evaluation of a call has come to. -/
theorem comes_of_runs {expr : Expr} {begun : Journal} {chronicle : List (Nat × Happening)} {drive : Drive Evaluation}
    {hub : Hub} (builds : call.Builds segments matchers (.ok expr)) (runs : call.Runs expr begun chronicle drive hub)
    {events : List Event} (accountable : drive.client.session.Accountable events) {outcome : Outcome}
    (ended : drive.client.outcome? = some outcome) : call.Comes segments matchers events outcome := by
  cases outcome with
  | ok value => exact ⟨expr, begun, chronicle, drive, hub, builds, runs, ended⟩
  | error error =>
    have batching : (call.scope begun).batching = true := rfl
    obtain ⟨d, mem, fault⟩ := Drive.blames_of_run batching runs accountable ended
    obtain ⟨name, segment, kind⟩ := fault.names
    exact .inl ⟨expr, begun, chronicle, drive, hub, builds, runs, ended, kind, segment, builds.fits, d, mem, name, fault⟩

theorem Reports.after {first : List Event} {before between : Journal} {r : Call × Journal}
    (reports : Reports segments matchers call (log ++ first) between r) (writes : before.Writes first between) :
    Reports segments matchers call log before r := by
  obtain ⟨written, writes', vouches, same⟩ := reports
  exact ⟨first ++ written, writes.trans writes', by rwa [← List.append_assoc], same⟩

theorem Utters.reports {told : List Event} {before : Journal} {r : Call × Journal} (utters : call.Utters told before r)
    {outcome : Outcome} (all : appeals log ++ told = call.told outcome)
    (comes : call.Comes segments matchers before.events outcome) : Reports segments matchers call log before r := by
  obtain ⟨stage, strays, written, ended, same, writes, rfl⟩ := utters
  obtain ⟨later, journal⟩ := r
  obtain rfl := same
  have comes := comes.mono ⟨written, writes.symm⟩
  rw [← appeals_append] at all
  refine ⟨written, writes, ?_, rfl⟩
  cases stage with
  | recovering span deadline alarm rest => exact ⟨outcome, all, comes⟩
  | answered value => exact ⟨outcome, all, comes⟩
  | _ => exact absurd ended id

theorem flushQueues_reports (span context : Nat) {outcome : Outcome} (invocations : Nat) (flush : Flush) (scene : Scene)
    (quiet : appeals log = []) (comes : call.Comes segments matchers scene.journal.events outcome) :
    Reports segments matchers call log scene.journal
      (call.flushQueues span context outcome invocations flush scene) := by
  obtain ⟨noted, writes, -, silent⟩ := flush.pass_idles scene
  have comes := comes.mono ⟨noted, writes.symm⟩
  have quiet : appeals (log ++ noted) = [] := by rw [appeals_append, quiet, silent, List.append_nil]
  refine Reports.after ?_ writes
  unfold flushQueues
  generalize flush.pass scene = r at comes
  obtain ⟨flush, later⟩ := r
  dsimp only at comes ⊢
  split
  · have told := Journal.writes_notice later.journal (.segmentEvaluated call.target.name invocations flush.flushed)
    have released := Journal.writes_record
      (later.journal.notice (.segmentEvaluated call.target.name invocations flush.flushed))
      (.span (.contextReleased context))
    let closed : Call := { call with strays := later.hub.answerAlarms }
    have utters : closed.Utters (closed.told outcome) later.journal _ :=
      ((closed.conclude_utters span _ outcome).after released).after told
    have comes : closed.Comes segments matchers later.journal.events outcome := comes
    exact utters.reports (by rw [quiet, List.nil_append]) comes
  · refine ⟨[], Journal.writes_nil rfl, ?_, rfl⟩
    rw [List.append_nil]
    exact ⟨quiet, comes⟩

/-- A pass of a drive, after which the evaluation may be over. -/
theorem driveOn_reports (span context : Nat) {drive : Drive Evaluation} {scene : Scene} {begun : Journal} {expr : Expr}
    (builds : call.Builds segments matchers (.ok expr)) {chronicle : List (Nat × Happening)}
    (runs : call.Runs expr begun chronicle drive scene.hub) (batching : drive.client.session.scope.batching = true)
    (accountable : drive.client.session.Accountable scene.journal.events) {written : List Event}
    (writes : scene.journal.Writes written (drive.pass scene).2.journal) (quiet : appeals (log ++ written) = [])
    (underway : (drive.pass scene).1.client.Underway (call.scope begun) expr (log ++ written)) :
    Reports segments matchers call log scene.journal (call.driveOn span context drive scene) := by
  have accountable := Drive.pass_accountable batching accountable
  have runs : call.Runs expr begun (chronicle ++ (drive.happens scene).map (scene.journal.now, ·)) (drive.pass scene).1
      (drive.pass scene).2.hub := by
    rw [Runs, map_snd_append]
    exact Drive.Run.pass runs scene.journal
  refine Reports.after ?_ writes
  unfold driveOn
  generalize drive.pass scene = r at underway accountable runs
  obtain ⟨drive, later⟩ := r
  dsimp only at underway accountable runs ⊢
  split
  · rename_i outcome _ ended
    exact flushQueues_reports span context _ _ later quiet (comes_of_runs builds runs accountable ended)
  · refine ⟨[], Journal.writes_nil rfl, ?_, rfl⟩
    rw [List.append_nil]
    exact ⟨quiet, begun, expr, _, builds, underway, runs, accountable⟩

theorem begins_reports {registry : Registry} (holds : Service.Holds matchers registry) (journal : Journal) :
    let r := call.begins segments registry journal
    Reports segments matchers call [] journal (r.1, r.2.2) := by
  let opened := preface call.target.name journal
  obtain ⟨opening, opens, silent⟩ : ∃ opening, journal.Writes opening opened ∧ appeals opening = [] ∧
      deeds opening = [] := ⟨_, Journal.writes_recordAll _ _, rfl, rfl⟩
  dsimp only
  rcases call.begins_cases holds journal with ⟨error, builds, refused⟩ | ⟨expr, builds, starts⟩
  · rw [refused]
    have released := Journal.writes_record opened (.span (.contextReleased journal.contextCount))
    have comes : call.Comes segments matchers journal.events (.error error) := .inr ⟨builds.not_both, builds.refuses⟩
    refine (((call.conclude_utters journal.spanCount _ (.error error)).after released).after opens).reports ?_ comes
    rw [silent.1]
    rfl
  · rw [starts]
    obtain ⟨launched, launches, launch_quiet, performs⟩ := Evaluation.start_performs (call.scope journal) rfl rfl
      silent.2 expr ⟨.empty, opened⟩
    obtain ⟨written, writes, quiet, underway⟩ := Drive.first_pass_underway rfl performs
    have unbegun := Session.Unbegun.of_start (call.scope journal) expr opened
    have batching : ((Session.start (call.scope journal)).launch expr opened).2.1.scope.batching = true := by
      rw [unbegun.scope_eq]
      rfl
    have fresh : call.Runs expr journal [] (.start (Evaluation.start (.start (call.scope journal)) expr ⟨.empty, opened⟩).1)
        .empty := .start
    refine Reports.after (Reports.after ?_ launches) opens
    refine driveOn_reports _ _ builds fresh batching (Session.accountable_launch builds.fits opened _) writes ?_ underway
    rw [List.nil_append, appeals_append, appeals_append, silent.1, launch_quiet, quiet]
    rfl

/-- Every poll of a call leaves it able to say whence all comes that it has told, whatever others have done. -/
theorem Vouches.poll {journal : Journal} (vouches : call.Vouches segments matchers journal.events log)
    {registry : Registry} (holds : Service.Holds matchers registry) :
    let r := call.poll segments registry journal
    Reports segments matchers call log journal (r.1, r.2.2) := by
  have stays : Reports segments matchers call log journal (call, journal) := by
    refine ⟨[], Journal.writes_nil rfl, ?_, rfl⟩
    rwa [List.append_nil]
  unfold Call.poll
  unfold Vouches at vouches
  cases stage : call.stage with
  | waiting =>
    simp only [stage] at vouches ⊢
    rw [vouches]
    exact begins_reports holds journal
  | driving span context hub drive =>
    simp only [stage] at vouches ⊢
    obtain ⟨quiet, begun, expr, chronicle, builds, underway, runs, accountable⟩ := vouches
    have batching : drive.client.session.scope.batching = true :=
      (congrArg Scope.batching underway.performs.scope_eq).trans underway.performs.batching
    obtain ⟨written, writes, silent, later⟩ := Drive.pass_underway underway ⟨hub, journal⟩
    refine driveOn_reports span context builds runs batching accountable writes ?_ later
    rw [appeals_append, quiet, silent, List.append_nil]
  | flushing span context hub outcome invocations flush =>
    simp only [stage] at vouches ⊢
    exact flushQueues_reports span context invocations flush ⟨hub, journal⟩ vouches.1 vouches.2
  | recovering span deadline alarm rest =>
    simp only [stage] at vouches ⊢
    obtain ⟨outcome, told, comes⟩ := vouches
    split
    · exact (call.recovered_utters span journal _).reports ((List.append_nil _).trans told) comes
    · exact stays
  | answered value => exact stays

theorem Vouches.advance {events : List Event} (vouches : call.Vouches segments matchers events log) (now : Nat) :
    (call.advance now).Vouches segments matchers events log := by
  obtain ⟨subject, target, fallback, stage, strays⟩ := call
  cases stage with
  | driving span context hub drive =>
    obtain ⟨quiet, begun, expr, chronicle, builds, underway, runs, accountable⟩ := vouches
    have same := Evaluation.client_advance drive hub now
    refine ⟨quiet, begun, expr, chronicle ++ (hub.happensBy now).map (now, ·), builds, by rwa [← same] at underway, ?_,
      by rwa [← same] at accountable⟩
    rw [Runs, map_snd_append]
    exact Drive.Run.advance runs now
  | _ => exact vouches

/-- Whatever is left of a call that is dropped, it has told nothing else. -/
theorem Vouches.attributes {events : List Event} (vouches : call.Vouches segments matchers events log) :
    call.Attributes segments matchers events log := by
  obtain ⟨subject, target, fallback, stage, strays⟩ := call
  cases stage with
  | waiting => exact .inl ⟨rfl, congrArg appeals vouches⟩
  | driving span context hub drive => exact .inl ⟨rfl, vouches.1⟩
  | flushing span context hub outcome invocations flush => exact .inl ⟨rfl, vouches.1⟩
  | recovering span deadline alarm rest => exact .inr vouches
  | answered value => exact .inr vouches

end

end Call

/-! ### Services -/

section

variable (segments : Keyed SegmentDefinition) (matchers : String → Option Matcher)

/-- Calls that run at once can say of all that they tell whence it comes. -/
theorem blame_kept : Bookkeeping segments matchers (fun events call log => call.Vouches segments matchers events log)
    (fun events call log => call.Attributes segments matchers events log) (fun _ _ => True) where
  start _ _ _ _ := rfl
  kept_later more vouches := vouches.mono (List.prefix_append _ more)
  closed_later more attributes := attributes.mono (List.prefix_append _ more)
  poll holds journal call log vouches logs index whose _ := by
    obtain ⟨written, writes, vouches, same⟩ := vouches.poll holds
    exact ⟨written, writes, vouches, trivial, same⟩
  advance vouches now := vouches.advance now
  drop := by
    intro journal call log vouches logs index whose _
    obtain ⟨more, dates, partings⟩ := call.drop_adds journal
    have quiet : appeals more = [] :=
      (silent_of_all fun event mem => (partings event mem).silent).2
    refine ⟨more, dates.writes, ?_, trivial⟩
    have attributes := vouches.attributes.mono ⟨more, dates.writes.symm⟩
    unfold Call.Attributes at attributes ⊢
    rwa [appeals_append, quiet, List.append_nil]

end

/-- Everything that a call reports is an error of its own evaluation, for which a leaf is to blame, or the reason why
there was nothing to evaluate.  A call that is answered has told what it has come to. -/
def Transcript.Attributes (segments : Keyed SegmentDefinition) (matchers : String → Option Matcher) (events : List Event)
    (t : Transcript) : Prop :=
  (t.answer.isSome → ∃ outcome, t.call.Comes segments matchers events outcome ∧ appeals t.log = t.call.told outcome) ∧
  ∀ error segment subject, .errorReported error segment subject ∈ t.log →
    segment = t.call.target.name ∧ subject = t.call.subject ∧ t.call.Comes segments matchers events (.error error)

theorem Call.Attributes.transcript {segments : Keyed SegmentDefinition} {matchers : String → Option Matcher}
    {events : List Event} {call : Call} {log : List Event} (attributes : call.Attributes segments matchers events log) :
    Transcript.Attributes segments matchers events ⟨call.request, call.answer?, log⟩ := by
  constructor
  · intro answered
    rcases attributes with ⟨waits, -⟩ | ⟨outcome, told, comes⟩
    · rw [show call.answer? = none from waits] at answered
      cases answered
    · exact ⟨outcome, comes, told⟩
  · intro error segment subject reported
    have mem : .errorReported error segment subject ∈ appeals log := List.mem_filter.2 ⟨reported, rfl⟩
    rcases attributes with ⟨-, quiet⟩ | ⟨outcome, told, comes⟩
    · rw [quiet] at mem
      cases mem
    · rw [told] at mem
      cases outcome with
      | ok value => cases mem
      | error other =>
        rcases List.mem_cons.1 mem with same | mem
        · cases same
          exact ⟨rfl, rfl, comes⟩
        · cases asked : call.fallback with
          | none =>
            rw [asked] at mem
            cases mem
          | some fallback =>
            rw [asked] at mem
            cases List.mem_singleton.1 mem

namespace Service

/-- Whatever an engine was used for before, and however many calls run at once: an error that a call reports goes to the
segment and the subject of the call.  If the expression of the call was built, it is an error of a matcher: it names the
segment, and a leaf whose schema gave no value, whose single evaluator failed or panicked in a call that was made, or
whose request was passed over by a batch that ended well.  Otherwise it is the error of the definition, or the refusal of
a name that the definition uses. -/
theorem reports_blame {schema : Schema} {options : Options} {groups : List (List (String × Matcher.Draft))}
    {segments : List (String × SegmentDefinition)} {noted : Journal} {engine : Engine}
    (built : (Engine.build schema options groups segments noted).1 = .ok engine)
    (journal : Journal) (strays : List Nat) (history : List Usage) (moves : Nat) (limit : Option Nat)
    (requests : List (Json × Target × Option Fallback)) :
    let service := useAll ⟨engine, journal, strays⟩ history
    let asked := service.ask moves limit
      (requests.map fun (subject, target, fallback) => .start subject target fallback)
    ∃ (ts : List Transcript) (written : List Event), ts.map (·.request) = requests ∧
      ts.map (·.answer) = asked.2.1 ∧ service.journal.Writes written asked.2.2.journal ∧
      Woven (ts.map (·.log)) written ∧
      ∀ t ∈ ts, t.Attributes engine.segments engine.registry.matcher? asked.2.2.journal.events := by
  intro service asked
  obtain ⟨_, -, registry_eq⟩ := Engine.registry_of_build built
  have fresh : (⟨engine, journal, strays⟩ : Service).StemsFrom engine :=
    ⟨rfl, registry_eq ▸ Registry.sound_compile _ _, rfl⟩
  have stems : service.StemsFrom engine := fresh.useAll history
  have holds : Holds engine.registry.matcher? service.engine.registry := ⟨stems.sound, stems.matcher?_eq⟩
  obtain ⟨calls, logs, written, requests_eq, answers_eq, -, writes, woven, -, closed⟩ :=
    ask_logbooks (blame_kept engine.segments engine.registry.matcher?) stems.segments_eq holds moves limit requests trivial
  obtain ⟨ts, ts_requests, ts_answers, ts_logs, attributes⟩ :=
    transcripts_of_logs (fun attributes => attributes.transcript) closed
  exact ⟨ts, written, ts_requests.trans requests_eq, ts_answers.trans answers_eq, writes, ts_logs ▸ woven, attributes⟩

/-! A schema that rejects everything, an evaluator that panics, and a batched one that answers nobody. -/

def rejectAnything : Schema := .ofCheck fun _ => .ok (.rejected [⟨"too old", []⟩])

def answersNobody : BatchEvaluator := fun _ _ => .starts (.done (.value ()))

def faultyMatchers : List (List (String × Matcher.Draft)) :=
  [[("risky", ⟨none, some fun _ _ => .panics (.text "too risky"), none⟩), ("silent", ⟨none, none, some answersNobody⟩),
    ("strict", ⟨some rejectAnything, some fun _ _ => .starts (.done (.value true)), none⟩)]]

def faultySegments : List (String × SegmentDefinition) :=
  [("bold", fun _ => .not (.matcher "risky")), ("new", fun _ => .and [.matcherWith "strict" (.int 7)])]

/-- A new engine with these matchers and segments. -/
def faultyEngine : Engine :=
  ⟨.any, Keyed.ofList faultySegments,
    .compile [("risky", ⟨none, .single fun _ _ => .panics (.text "too risky")⟩), ("silent", ⟨none, .batch answersNobody⟩),
      ("strict", ⟨some rejectAnything, .single fun _ _ => .starts (.done (.value true))⟩)] defaultMemoCapacity, .default⟩

/-- Each of three calls at once reports the fault of its own leaf, in its own segment. -/
theorem faults_find_their_leaves :
    let requests : List (Json × Target × Option Fallback) :=
      [(.null, .named "new", none), (.null, .named "bold", none), (.null, .adHoc fun _ => .matcher "silent", none)]
    let names (event : Event) : Option (ErrorKind × Option String × Option String) :=
      match event with
      | .errorReported error _ _ => some (error.kind, error.matcherName?, error.segmentName?)
      | _ => none
    ∃ (ts : List Transcript) (written : List Event) (events : List Event), ts.map (·.request) = requests ∧
      ts.map (·.answer) = [some false, some false, some false] ∧ Woven (ts.map (·.log)) written ∧
      written.filterMap names =
        [(.matcherArgument, some "strict", some "new"), (.matcherEvaluation, some "risky", some "bold"),
          (.matcherEvaluation, some "silent", some "ad-hoc")] ∧
      ∀ t ∈ ts, t.Attributes faultyEngine.segments faultyEngine.registry.matcher? events := by
  intro requests names
  have built : (Engine.build .any .default faultyMatchers faultySegments .empty).1 = .ok faultyEngine := rfl
  let asked := (⟨faultyEngine, .empty, []⟩ : Service).ask 9 none
    (requests.map fun (subject, target, fallback) => .start subject target fallback)
  have same : (useAll ⟨faultyEngine, .empty, []⟩ []).ask 9 none
      (requests.map fun (subject, target, fallback) => .start subject target fallback) = asked := rfl
  obtain ⟨ts, written, requests_eq, answers_eq, writes, woven, attributes⟩ :=
    reports_blame built .empty [] [] 9 none requests
  rw [same] at answers_eq writes attributes
  have events_eq : asked.2.2.journal.events = written := writes
  have answered : asked.2.1 = [some false, some false, some false] := by decide +kernel
  have named : asked.2.2.journal.events.filterMap names =
      [(.matcherArgument, some "strict", some "new"), (.matcherEvaluation, some "risky", some "bold"),
        (.matcherEvaluation, some "silent", some "ad-hoc")] := by decide +kernel
  exact ⟨ts, written, asked.2.2.journal.events, requests_eq, answers_eq.trans answered, woven, events_eq ▸ named,
    attributes⟩

end Service

end Segmentation
