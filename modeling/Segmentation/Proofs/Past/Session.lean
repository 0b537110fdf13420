import Segmentation.Proofs.Past.Flight
import Segmentation.Session

/-!
# Evaluations after a past

An evaluation of pure matchers goes the same way after every past (`Evaluation.poll_after`), and so does a drive of
one (`Drive.pass_after`): its invocations have the same outcomes and later deadlines.
-/

namespace Segmentation

variable (past : Past)

def Definition.after (definition : Definition) : Definition := { definition with serial := past.serial }

def Running.after {ρ : Type} : Running ρ → Running ρ
  | .ended result => .ended result
  | .asleep deadline rest => .asleep (past.journal.now + deadline) rest

theorem Task.start_after {ρ : Type} (now : Nat) (task : Task ρ) :
    task.start (past.journal.now + now) = (task.start now).after past := by
  induction task with
  | done result => rfl
  | sleep ticks rest ih =>
    cases ticks with
    | zero => exact ih
    | succ ticks => simp [Task.start, Running.after, Nat.add_assoc]

theorem Launch.start_after {ρ : Type} (now : Nat) (ofPanic : Payload → ρ) (launch : Launch (Task ρ)) :
    launch.start (past.journal.now + now) ofPanic = (launch.start now ofPanic).after past := by
  cases launch with
  | panics payload => rfl
  | starts task => exact Task.start_after past now task

/-! ### Pure matchers -/

/-- An evaluator gives the same however often it was called before. -/
def Evaluator.Pure : Evaluator → Prop
  | .single evaluate => IgnoresCount evaluate
  | .batch evaluate => IgnoresCount evaluate

def Matcher.Pure (matcher : Matcher) : Prop := matcher.evaluator.Pure

/-! ### Invocations -/

namespace Scope

def after (scope : Scope) : Scope := { scope with parent := scope.parent.map (·.after past) }

theorem spanEvents_after (scope : Scope) (events : List SpanEvent) :
    (scope.after past).spanEvents (events.map (·.after past)) = (scope.spanEvents events).map (·.after past) := by
  unfold spanEvents after
  cases scope.parent with
  | none => rfl
  | some parent => simp [Event.after]

end Scope

def Stage.after : Stage → Stage
  | .fresh => .fresh
  | .validating span deadline rest => .validating (past.journal.spanCount + span) (past.journal.now + deadline) rest
  | .evaluating span args deadline rest =>
    .evaluating (past.journal.spanCount + span) args (past.journal.now + deadline) rest
  | .awaiting span load => .awaiting (past.journal.spanCount + span) load
  | .settled outcome => .settled outcome

namespace Invocation

def after (invocation : Invocation) : Invocation :=
  { invocation with definition := invocation.definition.after past, stage := invocation.stage.after past }

variable (scope : Scope) (definition : Definition) (index span : Nat) (scene : Scene)

theorem opening_after :
    opening (scope.after past) (definition.after past) (past.journal.spanCount + span) =
      (opening scope definition span).map (·.after past) := by
  cases h : definition.args <;> simp [opening, Definition.after, Scope.after, SpanEvent.after, h]

theorem closing_after (outcome : Outcome) :
    closing (past.journal.spanCount + span) outcome = (closing span outcome).map (·.after past) := by
  cases outcome <;> simp [closing, SpanEvent.ofError, SpanEvent.after]

theorem settle_after (outcome : Outcome) :
    settle (scope.after past) (past.journal.spanCount + span) outcome (scene.after past) =
      ((settle scope span outcome scene).1.after past, (settle scope span outcome scene).2.after past) := by
  simp only [settle, closing_after, Scope.spanEvents_after, Scene.journal_after, Journal.recordAll_after]
  rfl

theorem evaluated_after (args : Option Json) (running : Running (Ending Bool)) :
    evaluated (scope.after past) (definition.after past) index (past.journal.spanCount + span) args
        (running.after past) (scene.after past) =
      ((evaluated scope definition index span args running scene).1.after past,
        (evaluated scope definition index span args running scene).2.after past) := by
  cases running with
  | ended ending =>
    simp only [evaluated, Running.after, Scene.journal_after]
    rw [Journal.record_same past _ _ (by rfl)]
    exact settle_after past scope span ⟨scene.hub, scene.journal.record _⟩ _
  | asleep deadline rest =>
    simp only [evaluated, Running.after, Scene.setAlarm_after]
    rfl

theorem dispatch_after (pure : definition.matcher.Pure) (args : Option Json) :
    dispatch (scope.after past) (definition.after past) index (past.journal.spanCount + span) args
        (scene.after past) =
      ((dispatch scope definition index span args scene).1.after past,
        (dispatch scope definition index span args scene).2.after past) := by
  unfold dispatch
  simp only [Matcher.Pure] at pure
  simp only [Definition.after]
  cases he : definition.matcher.evaluator with
  | single evaluate =>
    rw [he] at pure
    simp only [Scene.journal_after]
    rw [pure _ (scene.journal.invocations definition.name), Journal.record_same past _ _ (by rfl), Journal.now_after,
      Launch.start_after]
    exact evaluated_after past scope definition index span ⟨scene.hub, scene.journal.record _⟩ args _
  | batch evaluate =>
    have same_batching : (scope.after past).batching = scope.batching := rfl
    simp only [same_batching]
    by_cases batching : scope.batching = true
    · simp only [batching, Bool.not_true, Bool.false_eq_true, if_false, Scene.hub_after, Hub.openQueue_after,
        Hub.loadKeyed_after, Hub.await_after, Scene.journal_after]
      rw [Journal.record_same past _ _ (by rfl)]
      rfl
    · simp only [batching, Bool.not_false, if_true]
      exact settle_after past scope span scene _

theorem validated_after (pure : definition.matcher.Pure) (running : Running Checked) :
    validated (scope.after past) (definition.after past) index (past.journal.spanCount + span)
        (running.after past) (scene.after past) =
      ((validated scope definition index span running scene).1.after past,
        (validated scope definition index span running scene).2.after past) := by
  cases running with
  | ended checked =>
    have same : judge (scope.after past) (definition.after past).name checked = judge scope definition.name checked :=
      rfl
    simp only [validated, Running.after, same]
    cases judge scope definition.name checked with
    | ok value => exact dispatch_after past scope definition index span scene pure (some value)
    | error error => exact settle_after past scope span scene _
  | asleep deadline rest =>
    simp only [validated, Running.after, Scene.setAlarm_after]
    rfl

theorem begins_after (pure : definition.matcher.Pure) :
    begins (scope.after past) (definition.after past) index (scene.after past) =
      ((begins scope definition index scene).1.after past, (begins scope definition index scene).2.after past) := by
  unfold begins
  have opened := Journal.recordAll_after past scene.journal
    (scope.spanEvents (opening scope definition scene.journal.spanCount))
  rw [← Scope.spanEvents_after, ← opening_after, ← Journal.spanCount_after] at opened
  simp only [Scene.journal_after, opened]
  generalize hj : scene.journal.recordAll _ = journal
  simp only [Definition.after]
  cases definition.matcher.schema with
  | none =>
    simp only [Journal.spanCount_after]
    exact dispatch_after past scope definition index _ ⟨scene.hub, journal⟩ pure definition.args
  | some schema =>
    cases definition.args with
    | none =>
      simp only [Journal.spanCount_after]
      exact settle_after past scope _ ⟨scene.hub, journal⟩ _
    | some raw =>
      simp only [Journal.spanCount_after]
      rw [Journal.record_same past _ _ (by rfl), Journal.now_after, Launch.start_after]
      exact validated_after past scope definition index _ ⟨scene.hub, journal.record _⟩ pure _

theorem advance_after (pure : definition.matcher.Pure) (stage : Stage) :
    advance (scope.after past) (definition.after past) index (stage.after past) (scene.after past) =
      ((advance scope definition index stage scene).1.after past,
        (advance scope definition index stage scene).2.after past) := by
  cases stage with
  | fresh => exact begins_after past scope definition index scene pure
  | validating span deadline rest =>
    simp only [advance, Stage.after, Scene.journal_after, Journal.now_after, Nat.add_lt_add_iff_left,
      Task.start_after, validated_after past scope definition index span scene pure]
    split <;> rfl
  | evaluating span args deadline rest =>
    simp only [advance, Stage.after, Scene.journal_after, Journal.now_after, Nat.add_lt_add_iff_left,
      Task.start_after, evaluated_after]
    split <;> rfl
  | awaiting span load =>
    simp only [advance, Stage.after, Scene.hub_after, Hub.state_after]
    cases scene.hub.state load with
    | waiting => rfl
    | answered value => exact settle_after past scope span scene _
    | lost => exact settle_after past scope span scene _
  | settled outcome => rfl

/-! An invocation opens no queue but for its own matcher. -/

section

variable {scope definition index span} {P : BatchEvaluator → Prop} {hub : Hub} {journal : Journal}

theorem all_evaluated (all : hub.All P) (args : Option Json) (running : Running (Ending Bool)) :
    (evaluated scope definition index span args running ⟨hub, journal⟩).2.hub.All P := by
  cases running <;> exact all

variable (own : ∀ evaluate, definition.matcher.evaluator = .batch evaluate → P evaluate)

include own

theorem all_dispatch (all : hub.All P) (args : Option Json) :
    (dispatch scope definition index span args ⟨hub, journal⟩).2.hub.All P := by
  unfold dispatch
  cases evaluator : definition.matcher.evaluator with
  | single evaluate => exact all_evaluated all args _
  | batch evaluate =>
    simp only
    split
    · exact all
    · have opened := all.openQueue definition.name (own evaluate evaluator)
      exact (opened.of_eq (Hub.evaluators_modifyCoalescer _ _ _)).of_eq (Hub.evaluators_await _ _ _)

theorem all_validated (all : hub.All P) (running : Running Checked) :
    (validated scope definition index span running ⟨hub, journal⟩).2.hub.All P := by
  cases running with
  | ended checked =>
    simp only [validated]
    split
    · exact all_dispatch own all _
    · exact all
  | asleep deadline rest => exact all

theorem all_begins (all : hub.All P) : (begins scope definition index ⟨hub, journal⟩).2.hub.All P := by
  simp only [begins]
  split
  · exact all_validated own all _
  · exact all
  · exact all_dispatch own all _

end

variable {scope definition index scene} in
/-- If the evaluators of the queues have some property, and that of the matcher has, they do when an invocation has
gone on. -/
theorem all_advance {P : BatchEvaluator → Prop}
    (own : ∀ evaluate, definition.matcher.evaluator = .batch evaluate → P evaluate) (all : scene.hub.All P)
    (stage : Stage) : (advance scope definition index stage scene).2.hub.All P := by
  cases stage with
  | fresh => exact all_begins own all
  | validating span deadline rest =>
    simp only [advance]
    split
    · exact all
    · exact all_validated own all _
  | evaluating span args deadline rest =>
    simp only [advance]
    split
    · exact all
    · exact all_evaluated all _ _
  | awaiting span load =>
    simp only [advance]
    split <;> exact all
  | settled outcome => exact all

end Invocation

/-! ### Sessions -/

namespace Session

def after (session : Session) : Session := ⟨session.scope.after past, session.invocations.map (·.after past)⟩

/-- All matchers of the session are pure. -/
def Pure (session : Session) : Prop := ∀ i ∈ session.invocations, i.definition.matcher.Pure

variable (session : Session) (scene : Scene)

theorem outcome?_after : (session.after past).outcome? = session.outcome? := by
  funext index
  simp only [outcome?, after, List.getElem?_map]
  cases session.invocations[index]? with
  | none => rfl
  | some i =>
    obtain ⟨_, stage, _, _⟩ := i
    cases stage <;> rfl

theorem advance_after (pure : session.Pure) (index : Nat) :
    (session.after past).advance (scene.after past) index =
      ((session.advance scene index).1.after past, (session.advance scene index).2.after past) := by
  unfold advance
  simp only [after, List.getElem?_map]
  cases hi : session.invocations[index]? with
  | none => rfl
  | some i =>
    have advanced := Invocation.advance_after past session.scope i.definition index scene
      (pure i (List.mem_of_getElem? hi)) i.stage
    simp only [Option.map_some, Invocation.after, advanced, List.map_set]

theorem pure_advance (pure : session.Pure) (index : Nat) : (session.advance scene index).1.Pure := by
  unfold advance
  cases hi : session.invocations[index]? with
  | none => exact pure
  | some i =>
    intro j hj
    rcases List.mem_or_eq_of_mem_set hj with hj | rfl
    · exact pure j hj
    · exact pure i (List.mem_of_getElem? hi)

theorem all_advance {P : BatchEvaluator → Prop}
    (own : ∀ i ∈ session.invocations, ∀ evaluate, i.definition.matcher.evaluator = .batch evaluate → P evaluate)
    (all : scene.hub.All P) (index : Nat) : (session.advance scene index).2.hub.All P := by
  unfold advance
  cases hi : session.invocations[index]? with
  | none => exact all
  | some i => exact Invocation.all_advance (own i (List.mem_of_getElem? hi)) all i.stage

theorem pure_hub_advance (pure : session.Pure) (pure_hub : scene.hub.Pure) (index : Nat) :
    (session.advance scene index).2.hub.Pure := by
  refine all_advance session scene (fun i mem evaluate batched => ?_) pure_hub index
  have pure_matcher := pure i mem
  rwa [Matcher.Pure, batched] at pure_matcher

end Session

/-! ### Evaluations -/

namespace Evaluation

def after (evaluation : Evaluation) : Evaluation := { evaluation with session := evaluation.session.after past }

/-- The evaluation, and the hub at which it waits, know only pure evaluators. -/
def Pure (evaluation : Evaluation) (hub : Hub) : Prop := evaluation.session.Pure ∧ hub.Pure

variable (evaluation : Evaluation) (scene : Scene)

@[simp] theorem outcome?_after : (evaluation.after past).outcome? = evaluation.outcome? := rfl

@[simp] theorem news_after (hub : Hub) : (evaluation.after past).news (hub.after past) = evaluation.news hub := rfl

/-- Goes on with the invocations that are due. -/
private def advanceDue (due : List Nat) (r : Session × Scene) : Session × Scene :=
  due.foldl (fun r index => r.1.advance r.2 index) r

private theorem advanceDue_after (due : List Nat) (r : Session × Scene) (pure : r.1.Pure) (pure_hub : r.2.hub.Pure) :
    advanceDue due (r.1.after past, r.2.after past) =
      ((advanceDue due r).1.after past, (advanceDue due r).2.after past) := by
  induction due generalizing r with
  | nil => rfl
  | cons index due ih =>
    have next := ih (r.1.advance r.2 index) (Session.pure_advance r.1 r.2 pure index)
      (Session.pure_hub_advance r.1 r.2 pure pure_hub index)
    rw [← Session.advance_after past r.1 r.2 pure index] at next
    exact next

private theorem pure_advanceDue (due : List Nat) (r : Session × Scene) (pure : r.1.Pure) (pure_hub : r.2.hub.Pure) :
    (advanceDue due r).1.Pure ∧ (advanceDue due r).2.hub.Pure := by
  induction due generalizing r with
  | nil => exact ⟨pure, pure_hub⟩
  | cons index due ih =>
    exact ih (r.1.advance r.2 index) (Session.pure_advance r.1 r.2 pure index)
      (Session.pure_hub_advance r.1 r.2 pure pure_hub index)

private theorem poll_eq : evaluation.poll scene =
    let progress := evaluation.progress.wakeAll (evaluation.news scene.hub)
    let r := advanceDue progress.due (evaluation.session, scene)
    (⟨r.1, progress.collect r.1.outcome?, scene.hub.woken.length⟩, r.2) := rfl

theorem poll_after (pure : evaluation.Pure scene.hub) :
    (evaluation.after past).poll (scene.after past) =
      ((evaluation.poll scene).1.after past, (evaluation.poll scene).2.after past) := by
  have advanced := advanceDue_after past (evaluation.progress.wakeAll (evaluation.news scene.hub)).due
    (evaluation.session, scene) pure.1 pure.2
  rw [poll_eq, poll_eq]
  simp only [Scene.hub_after, news_after, Hub.woken_after]
  simp only [after] at advanced ⊢
  simp only [advanced, Session.outcome?_after]

theorem pure_poll (pure : evaluation.Pure scene.hub) : (evaluation.poll scene).1.Pure (evaluation.poll scene).2.hub :=
  pure_advanceDue _ (evaluation.session, scene) pure.1 pure.2

@[simp] theorem stirred_after (hub : Hub) :
    Client.stirred (evaluation.after past) (hub.after past) = Client.stirred evaluation hub := rfl

@[simp] theorem settled_after : Client.settled (evaluation.after past) = Client.settled evaluation := rfl

end Evaluation

/-! ### Drives of evaluations -/

namespace Drive

def after (drive : Drive Evaluation) : Drive Evaluation :=
  { drive with client := drive.client.after past, flights := drive.flights.map (·.after past) }

def Pure (drive : Drive Evaluation) (hub : Hub) : Prop := drive.client.Pure hub

variable (drive : Drive Evaluation) (scene : Scene)

theorem pollClient_after (pure : drive.Pure scene.hub) :
    (drive.after past).pollClient (scene.after past) =
      ((drive.pollClient scene).1.after past, (drive.pollClient scene).2.after past) := by
  unfold pollClient
  simp only [after, Evaluation.settled_after]
  by_cases settled : Client.settled drive.client = true
  · simp only [settled, if_true]
  · have polled := Evaluation.poll_after past drive.client scene pure
    simp only [settled, Bool.false_eq_true, if_false, Client.poll, polled, Scene.hub_after,
      Evaluation.stirred_after]

theorem pure_pollClient (pure : drive.Pure scene.hub) :
    (drive.pollClient scene).1.Pure (drive.pollClient scene).2.hub := by
  unfold pollClient
  split
  · exact pure
  · exact Evaluation.pure_poll drive.client scene pure

theorem takeBatches_after :
    (drive.after past).takeBatches (scene.after past) =
      ((drive.takeBatches scene).1.after past, (drive.takeBatches scene).2.after past) := by
  simp only [takeBatches, Scene.hub_after, Hub.takeFlights_after, after, List.map_append, List.map_map]
  rfl

theorem pure_takeBatches (pure : drive.Pure scene.hub) :
    (drive.takeBatches scene).1.Pure (drive.takeBatches scene).2.hub :=
  ⟨pure.1, pure.2.of_eq (Hub.evaluators_takeFlights scene.hub)⟩

theorem pollFlights_after (pure : drive.Pure scene.hub) :
    (drive.after past).pollFlights (scene.after past) =
      ((drive.pollFlights scene).1.after past, (drive.pollFlights scene).2.after past) := by
  simp only [pollFlights, after, pollReady_after past drive.flights scene pure.2]

theorem pure_pollFlights (pure : drive.Pure scene.hub) :
    (drive.pollFlights scene).1.Pure (drive.pollFlights scene).2.hub :=
  ⟨pure.1, pure.2.of_eq (evaluators_pollReady drive.flights scene 0 drive.ready)⟩

theorem pass_after (pure : drive.Pure scene.hub) :
    (drive.after past).pass (scene.after past) =
      ((drive.pass scene).1.after past, (drive.pass scene).2.after past) := by
  have polled := pure_pollClient drive scene pure
  have taken := pure_takeBatches _ _ polled
  simp only [pass, pollClient_after past drive scene pure, takeBatches_after,
    pollFlights_after past _ _ taken]

theorem pure_pass (pure : drive.Pure scene.hub) : (drive.pass scene).1.Pure (drive.pass scene).2.hub :=
  pure_pollFlights _ _ (pure_takeBatches _ _ (pure_pollClient drive scene pure))

@[simp] theorem finished_after : (drive.after past).finished = drive.finished := by
  simp [finished, after]

@[simp] theorem awake_after (hub : Hub) : (drive.after past).awake (hub.after past) = drive.awake hub := rfl

/-- Lets one alarm go off. -/
def rouse (r : Drive Evaluation × Hub) (alarm : Alarm) : Drive Evaluation × Hub :=
  match alarm.purpose with
  | .resumeBatch id => ({ r.1 with ready := r.1.ready ++ [id] }, r.2)
  | purpose => (r.1, r.2.goOff purpose)

theorem advance_eq (hub : Hub) (now : Nat) :
    drive.advance hub now = (hub.takeDue now).1.foldl rouse (drive, (hub.takeDue now).2) := rfl

private theorem rouse_after (r : Drive Evaluation × Hub) (alarm : Alarm) :
    rouse (r.1.after past, r.2.after past) (alarm.after past) =
      ((rouse r alarm).1.after past, (rouse r alarm).2.after past) := by
  obtain ⟨_, _, purpose⟩ := alarm
  cases purpose with
  | resumeBatch id => rfl
  | wake waiter => rfl
  | answer load value => simp only [rouse, Alarm.after, Hub.goOff_after]

theorem advance_after (hub : Hub) (now : Nat) :
    (drive.after past).advance (hub.after past) (past.journal.now + now) =
      ((drive.advance hub now).1.after past, (drive.advance hub now).2.after past) := by
  have all (due : List Alarm) (r : Drive Evaluation × Hub) :
      (due.map (·.after past)).foldl rouse (r.1.after past, r.2.after past) =
        ((due.foldl rouse r).1.after past, (due.foldl rouse r).2.after past) := by
    induction due generalizing r with
    | nil => rfl
    | cons alarm due ih => rw [List.map_cons, List.foldl_cons, rouse_after, ih, List.foldl_cons]
  rw [advance_eq, advance_eq, Hub.takeDue_after]
  exact all _ (drive, _)

theorem pure_advance {hub : Hub} (pure : drive.Pure hub) (now : Nat) :
    (drive.advance hub now).1.Pure (drive.advance hub now).2 := by
  have all (due : List Alarm) (r : Drive Evaluation × Hub) (pure : r.1.Pure r.2) :
      (due.foldl rouse r).1.Pure (due.foldl rouse r).2 := by
    induction due generalizing r with
    | nil => exact pure
    | cons alarm due ih =>
      refine ih _ ⟨?_, ?_⟩
      · obtain ⟨_, _, purpose⟩ := alarm
        cases purpose <;> exact pure.1
      · obtain ⟨_, _, purpose⟩ := alarm
        cases purpose with
        | resumeBatch id => exact pure.2
        | wake waiter => exact pure.2.of_eq (Hub.evaluators_goOff _ _)
        | answer load value => exact pure.2.of_eq (Hub.evaluators_goOff _ _)
  rw [advance_eq]
  exact all _ (drive, _) pure

end Drive

end Segmentation
