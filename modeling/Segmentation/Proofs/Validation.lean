import Segmentation.Proofs.Deeds
import Segmentation.Proofs.Effort

/-!
# Evaluators see validated arguments only

An invocation is visited again and again, and between two visits anything may happen to the hub and the journal
(`Invocation.Lives`).  Until its validation has ended it spares the evaluator and the queues.  Then the definition and
the scope alone rule (`Definition.ruling`) whether it settles with an error, or consults its evaluator, by one call or
by one request: with the subject of the scope and with the argument that the schema accepted
(`Invocation.consults_by_ruling`).
-/

namespace Segmentation

namespace Definition

/-- What is said of an argument that is not admitted. -/
def objection (definition : Definition) : String :=
  match definition.matcher.schema, definition.args with
  | some schema, some raw =>
    match (schema raw).final .error with
    | .ok (.rejected []) => "validation failed"
    | .ok (.rejected issues) => "; ".intercalate (issues.map Issue.render)
    | .ok _ => "validator reported success without a value"
    | .error payload => "validator failed: " ++ payload.message
  | _, _ => "no arguments were bound"

/-- What the evaluator is to decide on in a scope, or the error if it does not come to that: the argument is not
admitted, or the matcher is batched and there are no batches. -/
def ruling (scope : Scope) (definition : Definition) : Except Error (Option Json) :=
  match definition.admitted, definition.matcher.evaluator with
  | none, _ => .error (.matcherArgument definition.name scope.segment definition.objection (some scope.subject))
  | some args, .single _ => .ok args
  | some args, .batch _ =>
    if scope.batching then .ok args else .error (.missingBatchContext definition.name scope.segment)

end Definition

/-! ### What happens in a visit -/

/-- Whether an event notes a call of an evaluator, or a request. -/
def Event.consults : Event → Bool
  | .invoked _ _ => true
  | .batchInvoked _ _ => true
  | .requested _ _ => true
  | _ => false

/-- What is noted when the evaluator of a definition is consulted. -/
def Definition.consultation (definition : Definition) (args : Option Json) : Event :=
  match definition.matcher.evaluator with
  | .single _ => .invoked definition.name args
  | .batch _ => .requested definition.name args

namespace Scene

/-- Nothing happens to the queues, and no evaluator is consulted. -/
structure Spares (before after : Scene) : Prop where
  queues : after.hub.queues = before.hub.queues
  quiet : ∃ written, before.journal.Writes written after.journal ∧ written.filter Event.consults = []

/-- The load of a request for the subject of the scope. -/
def loaded (before : Scene) (scope : Scope) (definition : Definition) (evaluate : BatchEvaluator) (args : Option Json) :
    Load × Hub :=
  (before.hub.openQueue definition.name evaluate).loadKeyed definition.name ((args.map Json.stableKey).getD "")
    ⟨scope.subject, args⟩

/-- The evaluator is consulted on an argument, once; a batched one by a request in its queue.  Nothing else happens to
the queues, and no other evaluator is consulted. -/
structure Consults (before : Scene) (scope : Scope) (definition : Definition) (index : Nat) (args : Option Json)
    (after : Scene) : Prop where
  queues : after.hub.queues =
    match definition.matcher.evaluator with
    | .single _ => before.hub.queues
    | .batch evaluate =>
      let (load, hub) := before.loaded scope definition evaluate args
      (hub.await load [index]).queues
  once : ∃ written, before.journal.Writes written after.journal ∧
    written.filter Event.consults = [definition.consultation args]

namespace Spares

theorem of_writes {before after : Scene} (queues : after.hub.queues = before.hub.queues) {written : List Event}
    (writes : before.journal.Writes written after.journal) (quiet : ∀ event ∈ written, event.consults = false) :
    before.Spares after :=
  ⟨queues, written, writes, List.filter_eq_nil_iff.2 fun event mem => by simp [quiet event mem]⟩

theorem refl (scene : Scene) : scene.Spares scene := ⟨rfl, [], Journal.writes_nil rfl, rfl⟩

theorem trans {a b c : Scene} (first : a.Spares b) (second : b.Spares c) : a.Spares c where
  queues := second.queues.trans first.queues
  quiet := by
    obtain ⟨written, writes, quiet⟩ := first.quiet
    obtain ⟨written', writes', quiet'⟩ := second.quiet
    exact ⟨written ++ written', writes.trans writes', by rw [List.filter_append, quiet, quiet']; rfl⟩

theorem record (scene : Scene) {event : Event} (quiet : event.consults = false) :
    scene.Spares { scene with journal := scene.journal.record event } :=
  of_writes rfl (scene.journal.writes_record event) fun _ mem => List.mem_singleton.1 mem ▸ quiet

theorem recordSpans (scene : Scene) (scope : Scope) (events : List SpanEvent) :
    scene.Spares { scene with journal := scene.journal.recordAll (scope.spanEvents events) } := by
  refine of_writes rfl (scene.journal.writes_recordAll _) fun event mem => ?_
  unfold Scope.spanEvents at mem
  split at mem
  · obtain ⟨e, -, rfl⟩ := List.mem_map.1 mem
    rfl
  · cases mem

theorem setAlarm (scene : Scene) (deadline : Nat) (purpose : Purpose) :
    scene.Spares (scene.setAlarm deadline purpose) := ⟨rfl, [], Journal.writes_nil rfl, rfl⟩

/-- Whatever is spared does not change how often evaluators were called. -/
theorem invocations_eq {before after : Scene} (spares : before.Spares after) (matcher : String) :
    after.journal.invocations matcher = before.journal.invocations matcher := by
  obtain ⟨written, writes, quiet⟩ := spares.quiet
  have events_eq : after.journal.events = before.journal.events ++ written := writes
  rw [Journal.invocations, Journal.invocations, events_eq, List.countP_append, Nat.add_eq_left, List.countP_eq_zero]
  intro event mem called
  have silent := List.filter_eq_nil_iff.1 quiet event mem
  split at called
  · exact silent rfl
  · exact silent rfl
  · cases called

end Spares

theorem Spares.consults {a b c : Scene} (spares : a.Spares b) (hub_eq : b.hub = a.hub) {scope : Scope}
    {definition : Definition} {index : Nat} {args : Option Json} (consults : b.Consults scope definition index args c) :
    a.Consults scope definition index args c where
  queues := by
    have queues := consults.queues
    simp only [loaded, hub_eq] at queues ⊢
    exact queues
  once := by
    obtain ⟨written, writes, quiet⟩ := spares.quiet
    obtain ⟨written', writes', once⟩ := consults.once
    exact ⟨written ++ written', writes.trans writes', by rw [List.filter_append, quiet, once]; rfl⟩

end Scene

/-! ### Visits -/

/-- A visit to an invocation: the stage at which it is found, and the scenes before and after it. -/
structure Poll where
  stage : Stage
  before : Scene
  after : Scene

namespace Stage

/-- Whether the validation has not ended yet. -/
def Undecided : Stage → Prop
  | .fresh => True
  | .validating _ _ _ => True
  | _ => False

/-- Whether a visit finds the validation asleep no more. -/
def isDue (now : Nat) : Stage → Bool
  | .validating _ deadline _ => deadline ≤ now
  | _ => true

/-- The stage goes with an evaluator that was consulted in a scene: a single evaluator is at work on the argument and on
the subject of the scope, or has come to the outcome; the request to a batched one is waited for, or was found to be
answered or lost in a later visit. -/
def Answers (scope : Scope) (definition : Definition) (args : Option Json) (before : Scene) (later : List Poll)
    (stage : Stage) : Prop :=
  match definition.matcher.evaluator with
  | .single evaluate =>
    let ending := (evaluate (before.journal.invocations definition.name) ⟨scope.subject, args⟩).final .panicked
    (∃ span deadline rest, stage = .evaluating span args deadline rest ∧ rest.final = ending) ∨
      stage = .settled (Invocation.verdict scope definition.name args ending)
  | .batch evaluate =>
    let load := (before.loaded scope definition evaluate args).1
    (∃ span, stage = .awaiting span load) ∨
      ∃ visit ∈ later,
        (∃ value, visit.before.hub.state load = .answered value ∧ stage = .settled (.ok value)) ∨
        visit.before.hub.state load = .lost ∧
          stage = .settled (.error (.unansweredRequest definition.name scope.segment))

theorem Answers.decided {scope : Scope} {definition : Definition} {args : Option Json} {before : Scene}
    {later : List Poll} {stage : Stage} (answers : stage.Answers scope definition args before later) :
    ¬ stage.Undecided := by
  unfold Stage.Answers at answers
  split at answers
  · rcases answers with ⟨span, deadline, rest, rfl, -⟩ | rfl <;> exact id
  · rcases answers with ⟨span, rfl⟩ | ⟨visit, -, ⟨value, -, rfl⟩ | ⟨-, rfl⟩⟩ <;> exact id

end Stage

def Poll.isTimely (visit : Poll) : Bool := visit.stage.isDue visit.before.journal.now

/-- The visits to an invocation so far, the first one first, and its stage.  Between two visits the hub and the journal
may change in any way. -/
inductive Invocation.Lives (scope : Scope) (definition : Definition) (index : Nat) : List Poll → Stage → Prop
  | fresh : Lives scope definition index [] .fresh
  | visit {visits : List Poll} {stage : Stage} (lives : Lives scope definition index visits stage) (scene : Scene) :
    Lives scope definition index (visits ++ [⟨stage, scene, (advance scope definition index stage scene).2⟩])
      (advance scope definition index stage scene).1

/-! ### How often a validation sleeps -/

theorem Task.naps_asleep {ρ : Type} {task rest : Task ρ} {now deadline : Nat}
    (asleep : task.start now = .asleep deadline rest) : rest.naps < task.naps := by
  have few := Task.naps_start now task
  rwa [asleep] at few

/-- How often the validation of the argument sleeps. -/
def Definition.naps (definition : Definition) : Nat :=
  match definition.matcher.schema, definition.args with
  | some schema, some raw =>
    match schema raw with
    | .panics _ => 0
    | .starts task => task.naps
  | _, _ => 0

/-! ### One visit -/

namespace Stage

/-- A validation that has begun and not ended: it comes to what the schema says, and has fewer than so many naps
left. -/
def Validates (definition : Definition) (naps : Nat) : Stage → Prop
  | .validating _ _ rest => rest.naps < naps ∧ ∃ schema raw, definition.matcher.schema = some schema ∧
      definition.args = some raw ∧ rest.final = (schema raw).final .error
  | _ => False

theorem Validates.undecided {definition : Definition} {naps : Nat} {stage : Stage}
    (validates : stage.Validates definition naps) : stage.Undecided ∧ 0 < naps := by
  cases stage with
  | validating span deadline rest => exact ⟨trivial, Nat.zero_lt_of_lt validates.1⟩
  | _ => exact validates.elim

end Stage

namespace Invocation

/-- What a visit comes to from which the validation may have so many naps left: it has not ended, or the invocation does
as the ruling says. -/
def Rules (scope : Scope) (definition : Definition) (index naps : Nat) (before : Scene) (r : Stage × Scene) : Prop :=
  r.1.Validates definition naps ∧ before.Spares r.2 ∨
    match definition.ruling scope with
    | .error error => r.1 = .settled (.error error) ∧ before.Spares r.2
    | .ok args => before.Consults scope definition index args r.2 ∧ r.1.Answers scope definition args before []

variable {scope : Scope} {definition : Definition} {index naps : Nat}

theorem Rules.after {before between : Scene} (spares : before.Spares between) (hub_eq : between.hub = before.hub)
    {r : Stage × Scene} (rules : Rules scope definition index naps between r) :
    Rules scope definition index naps before r := by
  rcases rules with ⟨validates, spares'⟩ | rules
  · exact .inl ⟨validates, spares.trans spares'⟩
  · refine .inr ?_
    cases ruling : definition.ruling scope with
    | error error =>
      rw [ruling] at rules
      exact ⟨rules.1, spares.trans rules.2⟩
    | ok args =>
      rw [ruling] at rules
      refine ⟨spares.consults hub_eq rules.1, ?_⟩
      have answers := rules.2
      unfold Stage.Answers Scene.loaded at answers ⊢
      rwa [spares.invocations_eq, hub_eq] at answers

variable (span : Nat)

theorem settle_rules {error : Error} (ruling : definition.ruling scope = .error error) (scene : Scene) :
    Rules scope definition index naps scene (settle scope span (.error error) scene) := by
  refine .inr ?_
  rw [ruling]
  exact ⟨rfl, .recordSpans scene scope _⟩

/-- A call of the single evaluator, as far as it can go. -/
theorem evaluated_spares (args : Option Json) (running : Running (Ending Bool)) (scene : Scene) :
    scene.Spares (evaluated scope definition index span args running scene).2 := by
  cases running with
  | ended ending => exact (Scene.Spares.record scene rfl).trans (.recordSpans _ scope _)
  | asleep deadline rest => exact .setAlarm scene deadline _

theorem evaluated_answers {evaluate : SingleEvaluator} (single : definition.matcher.evaluator = .single evaluate)
    {args : Option Json} {running : Running (Ending Bool)} {before : Scene}
    (comes : running.final =
      (evaluate (before.journal.invocations definition.name) ⟨scope.subject, args⟩).final .panicked)
    (scene : Scene) (later : List Poll) :
    (evaluated scope definition index span args running scene).1.Answers scope definition args before later := by
  rw [Stage.Answers, single]
  cases running with
  | ended ending =>
    exact .inr (congrArg (fun ending => Stage.settled (verdict scope definition.name args ending)) comes)
  | asleep deadline rest => exact .inl ⟨span, deadline, rest, rfl, comes⟩

theorem dispatch_rules {args : Option Json} (admitted : definition.admitted = some args) (scene : Scene) :
    Rules scope definition index naps scene (dispatch scope definition index span args scene) := by
  unfold dispatch
  cases evaluator : definition.matcher.evaluator with
  | single evaluate =>
    have ruling : definition.ruling scope = .ok args := by rw [Definition.ruling, admitted, evaluator]
    let launch := evaluate (scene.journal.invocations definition.name) ⟨scope.subject, args⟩
    let called : Scene := { scene with journal := scene.journal.record (.invoked definition.name args) }
    have spares : called.Spares (evaluated scope definition index span args _ called).2 :=
      evaluated_spares span args (launch.start called.journal.now .panicked) called
    obtain ⟨written, writes, quiet⟩ := spares.quiet
    refine .inr ?_
    rw [ruling]
    refine ⟨⟨?_, .invoked definition.name args :: written, ?_, ?_⟩, ?_⟩
    · rw [evaluator]
      exact spares.queues
    · exact (scene.journal.writes_record _).trans writes
    · rw [List.filter_cons_of_pos rfl, quiet, Definition.consultation, evaluator]
    · exact evaluated_answers span evaluator (Launch.final_start _ _ _) called []
  | batch evaluate =>
    cases batching : scope.batching with
    | false =>
      have ruling : definition.ruling scope = .error (.missingBatchContext definition.name scope.segment) := by
        rw [Definition.ruling, admitted, evaluator]
        simp [batching]
      exact settle_rules span ruling scene
    | true =>
      have ruling : definition.ruling scope = .ok args := by
        rw [Definition.ruling, admitted, evaluator]
        simp [batching]
      refine .inr ?_
      rw [ruling]
      refine ⟨⟨?_, [.requested definition.name args], scene.journal.writes_record _, ?_⟩, ?_⟩
      · rw [evaluator]
        rfl
      · rw [List.filter_cons_of_pos rfl, Definition.consultation, evaluator]
        rfl
      · rw [Stage.Answers, evaluator]
        exact .inl ⟨span, rfl⟩

/-- What a schema comes to decides on what is admitted, and what is said if nothing is. -/
theorem judge_eq_objection (scope : Scope) {schema : Schema} {raw : Json}
    (takes : definition.matcher.schema = some schema) (bound : definition.args = some raw) :
    (∃ value, judge scope definition.name ((schema raw).final .error) = .ok value ∧
      definition.admitted = some (some value)) ∨
    judge scope definition.name ((schema raw).final .error) =
      .error (scope.argumentError definition.name definition.objection) ∧ definition.admitted = none := by
  simp only [Definition.admitted, Definition.objection, takes, bound]
  cases (schema raw).final .error with
  | error payload => exact .inr ⟨rfl, rfl⟩
  | ok validation =>
    cases validation with
    | accepted value => exact .inl ⟨value, rfl, rfl⟩
    | empty => exact .inr ⟨rfl, rfl⟩
    | rejected issues => cases issues <;> exact .inr ⟨rfl, rfl⟩

theorem ruling_of_not_admitted (scope : Scope) (refused : definition.admitted = none) :
    definition.ruling scope = .error (scope.argumentError definition.name definition.objection) := by
  rw [Definition.ruling, refused]
  rfl

theorem validated_rules {schema : Schema} {raw : Json} (takes : definition.matcher.schema = some schema)
    (bound : definition.args = some raw) {running : Running Checked} (comes : running.final = (schema raw).final .error)
    (few : ∀ deadline rest, running = .asleep deadline rest → rest.naps < naps) (scene : Scene) :
    Rules scope definition index naps scene (validated scope definition index span running scene) := by
  cases running with
  | asleep deadline rest =>
    exact .inl ⟨⟨few deadline rest rfl, schema, raw, takes, bound, comes⟩, .setAlarm scene deadline _⟩
  | ended checked =>
    have comes : checked = (schema raw).final .error := comes
    rcases judge_eq_objection scope takes bound with ⟨value, judged, admitted⟩ | ⟨judged, refused⟩
    · rw [← comes] at judged
      simp only [validated, judged]
      exact dispatch_rules span admitted scene
    · rw [← comes] at judged
      simp only [validated, judged]
      exact settle_rules span (ruling_of_not_admitted scope refused) scene

/-- The first visit begins the validation; it may sleep as often as the schema wants it to. -/
theorem begins_rules (scene : Scene) :
    Rules scope definition index definition.naps scene (begins scope definition index scene) := by
  have opened := Scene.Spares.recordSpans scene scope (opening scope definition scene.journal.spanCount)
  refine Rules.after opened rfl ?_
  unfold begins
  dsimp only
  cases takes : definition.matcher.schema with
  | none => exact dispatch_rules _ (by rw [Definition.admitted, takes]) _
  | some schema =>
    cases bound : definition.args with
    | none =>
      have refused : definition.admitted = none := by rw [Definition.admitted, takes, bound]
      have objection : definition.objection = "no arguments were bound" := by rw [Definition.objection, takes, bound]
      have ruling := ruling_of_not_admitted scope refused
      rw [objection] at ruling
      exact settle_rules _ ruling _
    | some raw =>
      refine Rules.after (.record _ rfl) rfl (validated_rules _ takes bound (Launch.final_start _ _ _) ?_ _)
      intro deadline rest asleep
      rw [Definition.naps, takes, bound]
      dsimp only
      cases launch : schema raw with
      | panics payload => rw [launch] at asleep; cases asleep
      | starts task => rw [launch] at asleep; exact Task.naps_asleep asleep

/-- A visit to a validation that has begun leaves it as it is, or goes on with it once it is due. -/
theorem validates_rules {stage : Stage} (validates : stage.Validates definition naps) (scene : Scene) :
    stage.isDue scene.journal.now = false ∧ advance scope definition index stage scene = (stage, scene) ∨
      ∃ left < naps, Rules scope definition index left scene (advance scope definition index stage scene) := by
  cases stage with
  | validating span deadline rest =>
    obtain ⟨few, schema, raw, takes, bound, comes⟩ := validates
    unfold advance
    dsimp only
    split
    · rename_i early
      exact .inl ⟨by simpa [Stage.isDue] using early, rfl⟩
    · exact .inr ⟨rest.naps, few, validated_rules span takes bound ((Task.final_start _ _).trans comes)
        (fun _ _ asleep => Task.naps_asleep asleep) scene⟩
  | _ => exact validates.elim

/-- Visits after the evaluator was consulted spare it. -/
theorem advance_answers {stage : Stage} {args : Option Json} {before : Scene} {later : List Poll}
    (answers : stage.Answers scope definition args before later) (scene : Scene) :
    let r := advance scope definition index stage scene
    r.1.Answers scope definition args before (later ++ [⟨stage, scene, r.2⟩]) ∧ scene.Spares r.2 := by
  intro r
  have kept (same : r = (stage, scene)) :
      r.1.Answers scope definition args before (later ++ [⟨stage, scene, r.2⟩]) ∧ scene.Spares r.2 := by
    rw [same]
    refine ⟨?_, .refl scene⟩
    unfold Stage.Answers at answers ⊢
    split at answers
    · exact answers
    · exact answers.imp_right fun ⟨visit, mem, found⟩ => ⟨visit, List.mem_append_left _ mem, found⟩
  cases evaluator : definition.matcher.evaluator with
  | single evaluate =>
    rw [Stage.Answers, evaluator] at answers
    rcases answers with ⟨span, deadline, rest, rfl, comes⟩ | rfl
    · by_cases early : scene.journal.now < deadline
      · exact kept (if_pos early)
      · rw [show r = evaluated scope definition index span args (rest.start scene.journal.now) scene from if_neg early]
        exact ⟨evaluated_answers span evaluator ((Task.final_start _ _).trans comes) scene _, evaluated_spares ..⟩
    · exact kept rfl
  | batch evaluate =>
    have answers' := answers
    rw [Stage.Answers, evaluator] at answers'
    rcases answers' with ⟨span, rfl⟩ | ⟨visit, mem, ⟨value, -, rfl⟩ | ⟨-, rfl⟩⟩
    · let load := (before.loaded scope definition evaluate args).1
      have settles {outcome : Outcome} (same : r = settle scope span outcome scene)
          (found : (∃ value, scene.hub.state load = .answered value ∧ outcome = .ok value) ∨
            scene.hub.state load = .lost ∧ outcome = .error (.unansweredRequest definition.name scope.segment)) :
          r.1.Answers scope definition args before (later ++ [⟨.awaiting span load, scene, r.2⟩]) ∧
            scene.Spares r.2 := by
        rw [Stage.Answers, evaluator, same]
        refine ⟨.inr ⟨_, List.mem_append_right _ (List.mem_singleton_self _), ?_⟩, .recordSpans scene scope _⟩
        exact found.imp (fun ⟨value, state, eq⟩ => ⟨value, state, congrArg Stage.settled eq⟩)
          (And.imp_right (congrArg Stage.settled))
      cases state : scene.hub.state load with
      | waiting => exact kept (by simp only [r, advance]; rw [state])
      | answered value => exact settles (by simp only [r, advance]; rw [state]) (.inl ⟨value, state, rfl⟩)
      | lost => exact settles (by simp only [r, advance]; rw [state]) (.inr ⟨state, rfl⟩)
    · exact kept rfl
    · exact kept rfl

/-! ### All visits -/

/-- An invocation has done as the ruling says: it has settled with the error, or there was one visit in which it
consulted the evaluator. -/
def Ruled (scope : Scope) (definition : Definition) (index : Nat) (visits : List Poll) (stage : Stage) : Prop :=
  match definition.ruling scope with
  | .error error => stage = .settled (.error error) ∧ ∀ visit ∈ visits, visit.before.Spares visit.after
  | .ok args => ∃ early visit later, visits = early ++ visit :: later ∧
      (∀ other ∈ early ++ later, other.before.Spares other.after) ∧
      visit.before.Consults scope definition index args visit.after ∧
      stage.Answers scope definition args visit.before later

/-- How it stands with an invocation after some visits: it was not visited, the validation has not ended and goes on at
every visit in time, or the invocation has done as the ruling says. -/
def Stands (scope : Scope) (definition : Definition) (index : Nat) (visits : List Poll) (stage : Stage) : Prop :=
  (stage = .fresh ∧ visits = []) ∨
  (∃ left, stage.Validates definition left ∧ visits.countP Poll.isTimely + left ≤ definition.naps + 1 ∧
    ∀ visit ∈ visits, visit.before.Spares visit.after) ∨
  Ruled scope definition index visits stage

/-- A visit that may end the validation. -/
theorem Rules.stands {visits : List Poll} {stage : Stage} {scene : Scene}
    (rules : Rules scope definition index naps scene (advance scope definition index stage scene))
    (spared : ∀ visit ∈ visits, visit.before.Spares visit.after)
    (few : visits.countP Poll.isTimely + naps ≤ definition.naps) :
    Stands scope definition index (visits ++ [⟨stage, scene, (advance scope definition index stage scene).2⟩])
      (advance scope definition index stage scene).1 := by
  rcases rules with ⟨validates, spares⟩ | ruled
  · refine .inr (.inl ⟨naps, validates, ?_, List.forall_mem_append.2 ⟨spared, by simpa using spares⟩⟩)
    rw [List.countP_append, List.countP_singleton]
    split <;> omega
  · refine .inr (.inr ?_)
    unfold Ruled
    cases ruling : definition.ruling scope with
    | error error =>
      rw [ruling] at ruled
      exact ⟨ruled.1, List.forall_mem_append.2 ⟨spared, by simpa using ruled.2⟩⟩
    | ok args =>
      rw [ruling] at ruled
      exact ⟨visits, _, [], rfl, by simpa using spared, ruled⟩

theorem Lives.stands {visits : List Poll} {stage : Stage} (lives : Lives scope definition index visits stage) :
    Stands scope definition index visits stage := by
  induction lives with
  | fresh => exact .inl ⟨rfl, rfl⟩
  | @visit visits stage lives scene ih =>
    rcases ih with ⟨rfl, rfl⟩ | ⟨left, validates, few, spared⟩ | ruled
    · exact (begins_rules scene).stands nofun (by simp)
    · rcases validates_rules validates scene with ⟨early, same⟩ | ⟨left', less, rules⟩
      · rw [same]
        refine .inr (.inl ⟨left, validates, ?_, List.forall_mem_append.2 ⟨spared, by simpa using .refl scene⟩⟩)
        simpa [List.countP_append, Poll.isTimely, early] using few
      · exact rules.stands spared (by omega)
    · refine .inr (.inr ?_)
      unfold Ruled at ruled ⊢
      cases ruling : definition.ruling scope with
      | error error =>
        rw [ruling] at ruled
        obtain ⟨rfl, spared⟩ := ruled
        exact ⟨rfl, List.forall_mem_append.2 ⟨spared, by simpa [advance] using Scene.Spares.refl scene⟩⟩
      | ok args =>
        rw [ruling] at ruled
        obtain ⟨early, visit, later, rfl, spared, consults, answers⟩ := ruled
        obtain ⟨answers', spares⟩ := advance_answers answers scene
        refine ⟨early, visit, later ++ [_], by simp, ?_, consults, answers'⟩
        rw [← List.append_assoc]
        exact List.forall_mem_append.2 ⟨spared, by simpa using spares⟩

/-- An invocation that is visited again and again, in whatever scenes, does as the ruling says once its validation has
ended.  It settles with the error and never touches an evaluator or a queue; or it consults its evaluator in one visit
and in no other one, on the argument of the ruling and the subject of the scope.  The validation has ended after one
visit in time more than it sleeps. -/
theorem consults_by_ruling {visits : List Poll} {stage : Stage} (lives : Lives scope definition index visits stage) :
    (match definition.ruling scope with
      | .error error => (stage.Undecided ∨ stage = .settled (.error error)) ∧
          ∀ visit ∈ visits, visit.before.Spares visit.after
      | .ok args => (stage.Undecided ∧ ∀ visit ∈ visits, visit.before.Spares visit.after) ∨
          ∃ early visit later, visits = early ++ visit :: later ∧
            (∀ other ∈ early ++ later, other.before.Spares other.after) ∧
            visit.before.Consults scope definition index args visit.after ∧
            stage.Answers scope definition args visit.before later) ∧
      (definition.naps < visits.countP Poll.isTimely → ¬ stage.Undecided) := by
  have open_or_ruled : (stage.Undecided ∧ visits.countP Poll.isTimely ≤ definition.naps ∧
      ∀ visit ∈ visits, visit.before.Spares visit.after) ∨ Ruled scope definition index visits stage := by
    rcases lives.stands with ⟨rfl, rfl⟩ | ⟨left, validates, few, spared⟩ | ruled
    · exact .inl ⟨trivial, Nat.zero_le _, nofun⟩
    · obtain ⟨undecided, pos⟩ := validates.undecided
      exact .inl ⟨undecided, by omega, spared⟩
    · exact .inr ruled
  rcases open_or_ruled with ⟨undecided, few, spared⟩ | ruled
  · refine ⟨?_, fun many => absurd few (Nat.not_le.2 many)⟩
    cases definition.ruling scope with
    | error error => exact ⟨.inl undecided, spared⟩
    | ok args => exact .inl ⟨undecided, spared⟩
  · unfold Ruled at ruled
    cases ruling : definition.ruling scope with
    | error error =>
      rw [ruling] at ruled
      obtain ⟨rfl, spared⟩ := ruled
      exact ⟨⟨.inr rfl, spared⟩, fun _ => id⟩
    | ok args =>
      rw [ruling] at ruled
      obtain ⟨early, visit, later, eq, spared, consults, answers⟩ := ruled
      exact ⟨.inr ⟨early, visit, later, eq, spared, consults, answers⟩, fun _ => answers.decided⟩

/-- A schema that makes seven of every argument, after a while: the evaluator is consulted on seven. -/
theorem consults_on_seven :
    let schema : Schema := .delayed 2 (.ofCheck fun _ => .ok (.accepted (.int 7)))
    let evaluate : SingleEvaluator := fun _ _ => .starts (.done (.value true))
    let definition : Definition := ⟨"lucky", some (.str "seven"), ⟨some schema, .single evaluate⟩, 0⟩
    let scope : Scope := ⟨.null, "s", false, 0, none⟩
    ∃ visits stage, Lives scope definition 0 visits stage ∧
      ∃ visit ∈ visits, visit.before.Consults scope definition 0 (some (.int 7)) visit.after := by
  intro schema evaluate definition scope
  have asleep : Lives scope definition 0 _ _ := Lives.fresh.visit ⟨.empty, .empty⟩
  have awake := asleep.visit ⟨.empty, Journal.empty.moveTo 2⟩
  obtain ⟨ruled, ends⟩ := consults_by_ruling awake
  have ruling : definition.ruling scope = .ok (some (.int 7)) := rfl
  rw [ruling] at ruled
  refine ⟨_, _, awake, ?_⟩
  rcases ruled with ⟨undecided, -⟩ | ⟨early, visit, later, eq, -, consults, -⟩
  · exact absurd undecided (ends (by decide))
  · exact ⟨visit, by rw [eq]; simp, consults⟩

end Invocation

end Segmentation
