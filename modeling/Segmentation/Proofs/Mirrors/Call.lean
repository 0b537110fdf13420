import Segmentation.Proofs.Mirrors.Session
import Segmentation.Proofs.Past.Call

/-!
# Calls under other numbers

A call with pure matchers that has begun goes the same way whatever numbers its alarms have and whatever others write
meanwhile: it is awake at the same instants, sets alarms for the same instants, writes the same and answers alike
(`Call.Mirrors.poll`, `Call.Mirrors.advance`).
-/

namespace Segmentation

namespace CallStage

/-- Stages that are the same but for the numbers of alarms. -/
inductive Mirrors : CallStage → CallStage → Prop
  | driving {hub hub' : Hub} (hubs : hub.Mirrors hub') (span context : Nat) (drive : Drive Evaluation) :
    Mirrors (.driving span context hub drive) (.driving span context hub' drive)
  | flushing {hub hub' : Hub} (hubs : hub.Mirrors hub') (span context : Nat) (outcome : Outcome) (invocations : Nat)
    (flush : Flush) :
    Mirrors (.flushing span context hub outcome invocations flush) (.flushing span context hub' outcome invocations flush)
  | recovering (span deadline alarm alarm' : Nat) (rest : Task (Ending Bool)) :
    Mirrors (.recovering span deadline alarm rest) (.recovering span deadline alarm' rest)
  | answered (value : Bool) : Mirrors (.answered value) (.answered value)

/-- The call has begun, and so have all invocations of its evaluation. -/
def Started : CallStage → Prop
  | .waiting => False
  | .driving _ _ _ drive => drive.client.session.Begun
  | _ => True

theorem Mirrors.of_started {stage : CallStage} (begun : stage.Started) : stage.Mirrors stage := by
  cases stage with
  | waiting => exact begun.elim
  | driving span context hub drive => exact .driving (.refl hub) span context drive
  | flushing span context hub outcome invocations flush =>
    exact .flushing (.refl hub) span context outcome invocations flush
  | recovering span deadline alarm rest => exact .recovering span deadline alarm alarm rest
  | answered value => exact .answered value

end CallStage

namespace Call

/-- Calls that are the same but for the numbers of their alarms. -/
structure Mirrors (call call' : Call) : Prop where
  rest : call' = { call with stage := call'.stage }
  stage : call.stage.Mirrors call'.stage

theorem Mirrors.of_started {call : Call} (begun : call.stage.Started) : call.Mirrors call := ⟨rfl, .of_started begun⟩

/-- Calls that mirror each other, with journals that echo each other. -/
structure Reflects (p q : Journal) (r r' : Call × Journal) : Prop where
  calls : r.1.Mirrors r'.1
  journal : p.Echoes q r.2 r'.2

/-! ### Invocations have begun -/

section

variable (call : Call) (span context : Nat)

theorem started_recovered (running : Running (Ending Bool)) (journal : Journal) :
    (call.recovered span running journal).1.stage.Started := by
  unfold recovered
  split
  · trivial
  · split <;> trivial

theorem started_conclude (outcome : Outcome) (journal : Journal) :
    (call.conclude span outcome journal).1.stage.Started := by
  unfold conclude
  split
  · trivial
  · split
    · trivial
    · exact started_recovered _ _ _ _

theorem started_flushQueues (outcome : Outcome) (invocations : Nat) (flush : Flush) (scene : Scene) :
    (call.flushQueues span context outcome invocations flush scene).1.stage.Started := by
  unfold flushQueues
  simp only
  split
  · exact started_conclude _ _ _ _
  · trivial

theorem started_driveOn {drive : Drive Evaluation} {scene : Scene} (begun : (drive.pass scene).1.client.session.Begun) :
    (call.driveOn span context drive scene).1.stage.Started := by
  unfold driveOn
  simp only
  split
  · exact started_flushQueues _ _ _ _ _ _ _
  · exact begun

variable (segments : Keyed SegmentDefinition) (registry : Registry) (journal : Journal)

/-- A call begins with all its invocations. -/
theorem started_begins : (call.begins segments registry journal).1.stage.Started := by
  unfold begins
  dsimp only
  split
  · exact started_conclude _ _ _ _
  · exact started_driveOn _ _ _ (Drive.begun_first_pass _ _ _ _)

theorem started_poll (begun : call.stage.Started) : (call.poll segments registry journal).1.stage.Started := by
  unfold poll
  cases stage : call.stage with
  | waiting => exact started_begins call segments registry journal
  | driving span context hub drive =>
    rw [stage] at begun
    exact started_driveOn _ _ _ (Drive.begun_pass begun _)
  | flushing span context hub outcome invocations flush => exact started_flushQueues _ _ _ _ _ _ _
  | recovering span deadline alarm rest =>
    simp only
    split
    · exact started_recovered _ _ _ _
    · rw [stage]; trivial
  | answered value => rw [stage]; trivial

theorem started_advance {call : Call} (begun : call.stage.Started) (now : Nat) : (call.advance now).stage.Started := by
  obtain ⟨_, _, _, stage, _⟩ := call
  cases stage with
  | driving span context hub drive =>
    have client_eq := Evaluation.client_advance drive hub now
    change (drive.advance hub now).1.client.session.Begun
    rwa [client_eq]
  | waiting => exact begun.elim
  | _ => trivial

end

/-! ### Going on -/

section

variable {p q j k : Journal} (echoes : p.Echoes q j k) (call : Call) (span context : Nat)

include echoes

theorem finish_reflects (value : Bool) : Reflects p q (call.finish span value j) (call.finish span value k) :=
  ⟨⟨rfl, .answered value⟩, echoes.recordAll _⟩

theorem recovered_reflects (running : Running (Ending Bool)) :
    Reflects p q (call.recovered span running j) (call.recovered span running k) := by
  unfold recovered
  cases running with
  | asleep deadline rest => exact ⟨⟨rfl, .recovering span deadline j.alarms k.alarms rest⟩, echoes.countAlarm⟩
  | ended ending =>
    dsimp only
    cases ending.contained with
    | ok value => exact finish_reflects echoes call span value
    | error cause => exact finish_reflects (echoes.notice _) call span false

theorem conclude_reflects (outcome : Outcome) :
    Reflects p q (call.conclude span outcome j) (call.conclude span outcome k) := by
  unfold conclude
  cases outcome with
  | ok value => exact finish_reflects (echoes.record _) call span value
  | error error =>
    have reported := (echoes.recordAll ((SpanEvent.ofError span error).map .span)).record
      (.errorReported error call.target.name call.subject)
    dsimp only
    cases call.fallback with
    | none => exact finish_reflects reported call span false
    | some fallback =>
      have asked := reported.record (.fallbackAsked [error])
      dsimp only
      rw [asked.now]
      exact recovered_reflects asked call span _

omit echoes

variable {s t : Scene} (mirrors : s.Mirrors p q t)

include mirrors

theorem flushQueues_reflects (pure : s.hub.Pure) (outcome : Outcome) (invocations : Nat) (flush : Flush) :
    Reflects p q (call.flushQueues span context outcome invocations flush s)
      (call.flushQueues span context outcome invocations flush t) := by
  obtain ⟨flush, s, t, eq, eq', passed⟩ := (Flush.pass_reflects mirrors pure flush).cases
  simp only [flushQueues, eq, eq']
  cases flush.finished with
  | false => exact ⟨⟨rfl, .flushing passed.hub span context outcome invocations flush⟩, passed.journal⟩
  | true =>
    simp only [if_true, passed.hub.answerAlarms_eq]
    exact conclude_reflects ((passed.journal.notice _).record _) _ span outcome

theorem driveOn_reflects {drive : Drive Evaluation} (pure : drive.Pure s.hub)
    (begun : drive.client.session.Begun) :
    Reflects p q (call.driveOn span context drive s) (call.driveOn span context drive t) := by
  have pure_later := drive.pure_pass s pure
  obtain ⟨drive, s, t, eq, eq', passed⟩ := (Drive.pass_reflects mirrors pure begun).cases
  rw [eq] at pure_later
  simp only [driveOn, eq, eq']
  have drives : Reflects p q ({ call with stage := .driving span context s.hub drive }, s.journal)
      ({ call with stage := .driving span context t.hub drive }, t.journal) :=
    ⟨⟨rfl, .driving passed.hub span context drive⟩, passed.journal⟩
  cases drive.finished with
  | false => exact drives
  | true =>
    cases drive.client.outcome? with
    | none => exact drives
    | some outcome => exact flushQueues_reflects call span context passed pure_later.2 outcome _ .start

end

namespace Mirrors

variable {call call' : Call} (mirrors : call.Mirrors call')

include mirrors

theorem begun : call'.stage ≠ .waiting := by
  obtain ⟨_, _, _, stage, _⟩ := call
  obtain ⟨_, _, _, stage', _⟩ := call'
  obtain ⟨-, stages⟩ := mirrors
  cases stages <;> nofun

/-- Calls that mirror each other answer alike, are awake together and have alarms for the same instants. -/
theorem answer?_eq : call.answer? = call'.answer? := by
  obtain ⟨_, _, _, stage, _⟩ := call
  obtain ⟨_, _, _, stage', _⟩ := call'
  obtain ⟨-, stages⟩ := mirrors
  unfold answer?
  cases stages <;> rfl

theorem awake_eq (now : Nat) : call.awake now = call'.awake now := by
  obtain ⟨_, _, _, stage, _⟩ := call
  obtain ⟨_, _, _, stage', _⟩ := call'
  obtain ⟨-, stages⟩ := mirrors
  unfold awake
  cases stages with
  | driving hubs span context drive => exact Drive.awake_mirrors hubs drive
  | _ => rfl

theorem alarms_eq : call.alarms = call'.alarms := by
  obtain ⟨_, _, _, stage, _⟩ := call
  obtain ⟨_, _, _, stage', _⟩ := call'
  obtain ⟨rest, stages⟩ := mirrors
  cases rest
  refine congrArg (_ ++ ·) ?_
  cases stages with
  | driving hubs => exact hubs.deadlines_eq
  | flushing hubs => exact hubs.deadlines_eq
  | _ => rfl

theorem advance (now : Nat) : (call.advance now).Mirrors (call'.advance now) := by
  obtain ⟨subject, target, fallback, stage, strays⟩ := call
  obtain ⟨_, _, _, stage', _⟩ := call'
  obtain ⟨rest, stages⟩ := mirrors
  cases rest
  cases stages with
  | driving hubs span context drive =>
    obtain ⟨drive_eq, later⟩ := Drive.advance_mirrors hubs drive now
    refine ⟨rfl, ?_⟩
    simp only [Call.advance, drive_eq]
    exact .driving later span context _
  | flushing hubs span context outcome invocations flush =>
    exact ⟨rfl, .flushing (hubs.advance now) span context outcome invocations flush⟩
  | recovering span deadline alarm alarm' rest => exact ⟨rfl, .recovering span deadline alarm alarm' rest⟩
  | answered value => exact ⟨rfl, .answered value⟩

/-- Whatever registries they are given, and whatever was written before, calls that mirror each other write the same
when they go on, and mirror each other afterwards. -/
theorem poll (pure : call.stage.Pure) (begun : call.stage.Started) {p q j k : Journal} (echoes : p.Echoes q j k)
    (segments segments' : Keyed SegmentDefinition) (registry registry' : Registry) :
    Reflects p q ((call.poll segments registry j).1, (call.poll segments registry j).2.2)
      ((call'.poll segments' registry' k).1, (call'.poll segments' registry' k).2.2) := by
  obtain ⟨subject, target, fallback, stage, strays⟩ := call
  obtain ⟨_, _, _, stage', _⟩ := call'
  obtain ⟨rest, stages⟩ := mirrors
  cases rest
  cases stages with
  | driving hubs span context drive =>
    have scenes : Scene.Mirrors p q ⟨_, j⟩ ⟨_, k⟩ := ⟨hubs, echoes⟩
    exact driveOn_reflects _ span context scenes pure begun
  | flushing hubs span context outcome invocations flush =>
    have scenes : Scene.Mirrors p q ⟨_, j⟩ ⟨_, k⟩ := ⟨hubs, echoes⟩
    exact flushQueues_reflects _ span context scenes pure outcome invocations flush
  | recovering span deadline alarm alarm' rest =>
    simp only [Call.poll, echoes.now]
    split
    · exact recovered_reflects echoes _ span _
    · exact ⟨⟨rfl, .recovering span deadline alarm alarm' rest⟩, echoes⟩
  | answered value => exact ⟨⟨rfl, .answered value⟩, echoes⟩

end Mirrors

end Call

end Segmentation
