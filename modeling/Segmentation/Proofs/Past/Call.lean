import Segmentation.Engine.Call
import Segmentation.Proofs.Past.Session

/-!
# Calls after a past

A call that has begun goes the same way after every past, if its matchers are pure: it gives the same answer, and
writes the same behind what the past has written (`Call.poll_after`).
-/

namespace Segmentation

variable (past : Past)

def CallStage.after : CallStage → CallStage
  | .waiting => .waiting
  | .driving span context hub drive =>
    .driving (past.journal.spanCount + span) (past.journal.contextCount + context) (hub.after past) (drive.after past)
  | .flushing span context hub outcome invocations flush =>
    .flushing (past.journal.spanCount + span) (past.journal.contextCount + context) (hub.after past) outcome
      invocations (flush.after past)
  | .recovering span deadline alarm rest =>
    .recovering (past.journal.spanCount + span) (past.journal.now + deadline) (past.journal.alarms + alarm) rest
  | .answered value => .answered value

/-- The call knows only pure evaluators. -/
def CallStage.Pure : CallStage → Prop
  | .driving _ _ hub drive => drive.Pure hub
  | .flushing _ _ hub _ _ _ => hub.Pure
  | _ => True

namespace Call

/-- A call that goes on later.  Of its target only the name is kept; the definition is needed but to begin. -/
def after (call : Call) : Call :=
  { call with
    target := .named call.target.name
    stage := call.stage.after past
    strays := call.strays.map (past.journal.now + ·) }

variable (call : Call) (span context : Nat)

@[simp] theorem subject_after : (call.after past).subject = call.subject := rfl

@[simp] theorem target_after : (call.after past).target = .named call.target.name := rfl

@[simp] theorem fallback_after : (call.after past).fallback = call.fallback := rfl

@[simp] theorem stage_after : (call.after past).stage = call.stage.after past := rfl

@[simp] theorem answer?_after : (call.after past).answer? = call.answer? := by
  obtain ⟨_, _, _, stage, _⟩ := call
  cases stage <;> rfl

theorem finish_after (value : Bool) (journal : Journal) :
    (call.after past).finish (past.journal.spanCount + span) value (journal.after past) =
      ((call.finish span value journal).1.after past, (call.finish span value journal).2.after past) := by
  simp only [finish, ← Journal.recordAll_after]
  rfl

theorem recovered_after (running : Running (Ending Bool)) (journal : Journal) :
    (call.after past).recovered (past.journal.spanCount + span) (running.after past) (journal.after past) =
      ((call.recovered span running journal).1.after past, (call.recovered span running journal).2.after past) := by
  cases running with
  | asleep deadline rest => rfl
  | ended ending =>
    simp only [recovered, Running.after]
    cases ending.contained with
    | ok value => exact finish_after past call span value journal
    | error cause =>
      simp only [Journal.notice_after]
      exact finish_after past call span false _

theorem conclude_after (outcome : Outcome) (journal : Journal) :
    (call.after past).conclude (past.journal.spanCount + span) outcome (journal.after past) =
      ((call.conclude span outcome journal).1.after past, (call.conclude span outcome journal).2.after past) := by
  cases outcome with
  | ok value =>
    simp only [conclude]
    rw [← finish_after, ← Journal.record_after]
    rfl
  | error error =>
    have told : (SpanEvent.ofError (past.journal.spanCount + span) error).map Event.span =
        ((SpanEvent.ofError span error).map Event.span).map (·.after past) := rfl
    simp only [conclude, told, Journal.recordAll_after, fallback_after]
    rw [Journal.record_same past _ _ (by rfl)]
    cases call.fallback with
    | none => exact finish_after past call span false _
    | some fallback =>
      simp only
      rw [Journal.record_same past _ _ (by rfl), Journal.now_after, Launch.start_after]
      exact recovered_after past call span _ _

theorem flushQueues_after (outcome : Outcome) (invocations : Nat) (flush : Flush) (scene : Scene)
    (pure : scene.hub.Pure) :
    (call.after past).flushQueues (past.journal.spanCount + span) (past.journal.contextCount + context) outcome
        invocations (flush.after past) (scene.after past) =
      ((call.flushQueues span context outcome invocations flush scene).1.after past,
        (call.flushQueues span context outcome invocations flush scene).2.after past) := by
  unfold flushQueues
  simp only [Flush.pass_after past flush scene pure]
  obtain ⟨⟨flights, flushed, finished⟩, scene⟩ := flush.pass scene
  cases finished with
  | false => rfl
  | true =>
    simp only [Flush.after, if_true, Scene.journal_after, Journal.notice_after, Scene.hub_after,
      Hub.answerAlarms_after]
    rw [← conclude_after, ← Journal.record_after]
    rfl

theorem driveOn_after (drive : Drive Evaluation) (scene : Scene) (pure : drive.Pure scene.hub) :
    (call.after past).driveOn (past.journal.spanCount + span) (past.journal.contextCount + context)
        (drive.after past) (scene.after past) =
      ((call.driveOn span context drive scene).1.after past,
        (call.driveOn span context drive scene).2.after past) := by
  have passed_pure := Drive.pure_pass drive scene pure
  unfold driveOn
  simp only [Drive.pass_after past drive scene pure]
  generalize drive.pass scene = r at passed_pure ⊢
  obtain ⟨drive, scene⟩ := r
  have same_outcome : (drive.after past).client.outcome? = drive.client.outcome? := rfl
  have same_number : (drive.after past).client.session.invocations.length =
      drive.client.session.invocations.length := List.length_map _
  simp only [Drive.finished_after, same_outcome, same_number]
  cases drive.finished with
  | false => rfl
  | true =>
    cases drive.client.outcome? with
    | none => rfl
    | some outcome =>
      exact flushQueues_after past call span context outcome drive.client.session.invocations.length .start scene
        passed_pure.2

/-! The queues of a call keep pure evaluators. -/

theorem pure_recovered (running : Running (Ending Bool)) (journal : Journal) :
    (call.recovered span running journal).1.stage.Pure := by
  unfold recovered
  split
  · trivial
  · split <;> trivial

theorem pure_conclude (outcome : Outcome) (journal : Journal) :
    (call.conclude span outcome journal).1.stage.Pure := by
  unfold conclude
  split
  · trivial
  · split
    · trivial
    · exact pure_recovered _ _ _ _

theorem pure_flushQueues (outcome : Outcome) (invocations : Nat) (flush : Flush) (scene : Scene)
    (pure : scene.hub.Pure) : (call.flushQueues span context outcome invocations flush scene).1.stage.Pure := by
  unfold flushQueues
  simp only
  split
  · exact pure_conclude _ _ _ _
  · exact pure.of_eq (Flush.evaluators_pass flush scene)

theorem pure_driveOn (drive : Drive Evaluation) (scene : Scene) (pure : drive.Pure scene.hub) :
    (call.driveOn span context drive scene).1.stage.Pure := by
  have passed_pure := Drive.pure_pass drive scene pure
  unfold driveOn
  simp only
  split
  · exact pure_flushQueues _ _ _ _ _ _ _ passed_pure.2
  · exact passed_pure

/-- A call that has begun needs no registry any more. -/
theorem poll_after (segments : Keyed SegmentDefinition) (registry : Registry) (journal : Journal)
    (begun : call.stage ≠ .waiting) (pure : call.stage.Pure) :
    (call.after past).poll segments registry (journal.after past) =
      ((call.poll segments registry journal).1.after past, registry,
        (call.poll segments registry journal).2.2.after past) := by
  unfold poll
  rw [stage_after]
  cases stage : call.stage with
  | waiting => exact absurd stage begun
  | driving span context hub drive =>
    rw [stage] at pure
    have driven := driveOn_after past call span context drive ⟨hub, journal⟩ pure
    simp only [Scene.after] at driven
    simp only [CallStage.after, driven]
  | flushing span context hub outcome invocations flush =>
    rw [stage] at pure
    have flushed := flushQueues_after past call span context outcome invocations flush ⟨hub, journal⟩ pure
    simp only [Scene.after] at flushed
    simp only [CallStage.after, flushed]
  | recovering span deadline alarm rest =>
    simp only [CallStage.after, Journal.now_after, Nat.add_le_add_iff_left, Task.start_after, recovered_after]
    split <;> rfl
  | answered value => rfl

theorem pure_poll (segments : Keyed SegmentDefinition) (registry : Registry) (journal : Journal)
    (begun : call.stage ≠ .waiting) (pure : call.stage.Pure) :
    (call.poll segments registry journal).1.stage.Pure := by
  unfold poll
  cases stage : call.stage with
  | waiting => exact absurd stage begun
  | driving span context hub drive =>
    rw [stage] at pure
    exact pure_driveOn call span context drive ⟨hub, journal⟩ pure
  | flushing span context hub outcome invocations flush =>
    rw [stage] at pure
    exact pure_flushQueues call span context outcome invocations flush ⟨hub, journal⟩ pure
  | recovering span deadline alarm rest =>
    simp only
    split
    · exact pure_recovered call span _ journal
    · rw [stage]; trivial
  | answered value => rw [stage]; trivial

theorem awake_after (now : Nat) : (call.after past).awake (past.journal.now + now) = call.awake now := by
  unfold awake
  rw [stage_after]
  cases call.stage with
  | waiting => rfl
  | driving span context hub drive => rfl
  | flushing span context hub outcome invocations flush => exact Flush.awake_after past flush now
  | recovering span deadline alarm rest => simp [CallStage.after]
  | answered value => rfl

theorem alarms_after : (call.after past).alarms = call.alarms.map (past.journal.now + ·) := by
  unfold alarms
  rw [stage_after, List.map_append]
  congr 1
  cases call.stage <;> simp [CallStage.after, Hub.after, Alarm.after, Function.comp_def]

theorem advance_after (now : Nat) :
    (call.after past).advance (past.journal.now + now) = (call.advance now).after past := by
  have strays_eq : (call.after past).strays.filter (past.journal.now + now < ·) =
      (call.strays.filter (now < ·)).map (past.journal.now + ·) := by
    simp [after, List.filter_map, Function.comp_def]
  unfold advance
  simp only [strays_eq, stage_after]
  obtain ⟨_, _, _, stage, _⟩ := call
  cases stage with
  | driving span context hub drive =>
    simp only [CallStage.after, Drive.advance_after]
    rfl
  | flushing span context hub outcome invocations flush =>
    simp only [CallStage.after, Hub.advance_after]
    rfl
  | _ => rfl

theorem pure_advance (pure : call.stage.Pure) (now : Nat) : (call.advance now).stage.Pure := by
  obtain ⟨_, _, _, stage, _⟩ := call
  cases stage with
  | driving span context hub drive => exact Drive.pure_advance drive pure now
  | flushing span context hub outcome invocations flush => exact Hub.Pure.of_eq pure (Hub.evaluators_advance hub now)
  | _ => trivial

end Call

end Segmentation
