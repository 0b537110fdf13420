import Segmentation.Engine.Call
import Segmentation.Proofs.Lockstep
import Segmentation.Proofs.Twins.Session

/-!
# Calls beside twin journals

Calls beside twin journals answer alike and write the same (`Call.poll_twins`), and so do calls that run at once
(`Party.Twins.lockstep`), whether all of them end or they are dropped.
-/

namespace Segmentation

open Scene (Agree)

variable {p q j k : Journal}

/-! ### One call -/

namespace Call

variable (call : Call) (twins : p.Twins q j k)

include twins

theorem finish_agree (span : Nat) (value : Bool) :
    Journal.Agree p q (call.finish span value j) (call.finish span value k) :=
  ⟨rfl, twins.recordAll _⟩

theorem recovered_agree (span : Nat) (running : Running (Ending Bool)) :
    Journal.Agree p q (call.recovered span running j) (call.recovered span running k) := by
  unfold recovered
  cases running with
  | asleep deadline rest => exact ⟨by simp only [twins.alarms], twins.countAlarm⟩
  | ended ending =>
    dsimp only
    cases ending.contained with
    | ok value => exact call.finish_agree twins span value
    | error cause => exact call.finish_agree (twins.notice _) span false

theorem conclude_agree (span : Nat) (outcome : Outcome) :
    Journal.Agree p q (call.conclude span outcome j) (call.conclude span outcome k) := by
  unfold conclude
  cases outcome with
  | ok value => exact call.finish_agree (twins.record _) span value
  | error error =>
    have reported := (twins.recordAll ((SpanEvent.ofError span error).map .span)).record
      (.errorReported error call.target.name call.subject)
    dsimp only
    cases call.fallback with
    | none => exact call.finish_agree reported span false
    | some fallback =>
      have asked := reported.record (.fallbackAsked [error])
      dsimp only
      rw [asked.now]
      exact call.recovered_agree asked span _

theorem flushQueues_agree (alike : p.Alike q) (span context : Nat) (hub : Hub) (outcome : Outcome)
    (invocations : Nat) (flush : Flush) :
    Journal.Agree p q (call.flushQueues span context outcome invocations flush ⟨hub, j⟩)
      (call.flushQueues span context outcome invocations flush ⟨hub, k⟩) := by
  obtain ⟨flush, hub, j, k, eq, eq', passed⟩ := (flush.pass_agree hub twins alike).cases
  simp only [flushQueues, eq, eq']
  cases flush.finished with
  | false => exact ⟨rfl, passed⟩
  | true => exact conclude_agree _ ((passed.notice _).record _) span outcome

theorem driveOn_agree (alike : p.Alike q) (span context : Nat) (drive : Drive Evaluation) (hub : Hub) :
    Journal.Agree p q (call.driveOn span context drive ⟨hub, j⟩) (call.driveOn span context drive ⟨hub, k⟩) := by
  obtain ⟨drive, hub, j, k, eq, eq', passed⟩ := (Drive.pass_agree hub twins alike drive).cases
  simp only [driveOn, eq, eq']
  cases drive.finished with
  | false => exact ⟨rfl, passed⟩
  | true =>
    cases drive.client.outcome? with
    | none => exact ⟨rfl, passed⟩
    | some outcome => exact call.flushQueues_agree passed alike span context hub outcome _ .start

variable (segments : Keyed SegmentDefinition) (registry : Registry)

theorem begins_twins (alike : p.Alike q) :
    let r := call.begins segments registry j
    let r' := call.begins segments registry k
    r.1 = r'.1 ∧ r.2.1 = r'.2.1 ∧ p.Twins q r.2.2 r'.2.2 := by
  have started := twins.recordAll
    [.span (.started 0 ("segment:" ++ call.target.name) none),
      .span (.attributed k.spanCount "segment.name" (.string call.target.name)), .span (.contextTaken k.spanCount)]
  have counts := twins.alike alike
  simp only [begins, counts.spanCount, counts.contextCount]
  obtain ⟨_ | expr, registry⟩ := Engine.buildExpr segments registry call.subject call.target
  · rename_i error
    have concluded := call.conclude_agree (started.record (.span (.contextReleased k.contextCount))) k.spanCount
      (.error error)
    exact ⟨concluded.result, rfl, concluded.twins⟩
  · obtain ⟨evaluation, hub, j', k', eq, eq', launched⟩ := (Evaluation.start_agree .empty started
      (.start ⟨call.subject, call.target.name, true, 0, some (.taken k.contextCount)⟩) expr).cases
    have driven := call.driveOn_agree launched alike k.spanCount k.contextCount (.start evaluation) hub
    simp only [eq, eq']
    exact ⟨driven.result, trivial, driven.twins⟩

theorem poll_twins (alike : p.Alike q) :
    let r := call.poll segments registry j
    let r' := call.poll segments registry k
    r.1 = r'.1 ∧ r.2.1 = r'.2.1 ∧ p.Twins q r.2.2 r'.2.2 := by
  unfold poll
  cases call.stage with
  | waiting => exact call.begins_twins twins segments registry alike
  | driving span context hub drive =>
    have driven := call.driveOn_agree twins alike span context drive hub
    exact ⟨driven.result, rfl, driven.twins⟩
  | flushing span context hub outcome invocations flush =>
    have flushed := call.flushQueues_agree twins alike span context hub outcome invocations flush
    exact ⟨flushed.result, rfl, flushed.twins⟩
  | recovering span deadline alarm rest =>
    have recovered := call.recovered_agree twins span (rest.start k.now)
    dsimp only
    rw [twins.now]
    split
    · exact ⟨recovered.result, rfl, recovered.twins⟩
    · exact ⟨rfl, rfl, twins⟩
  | answered value => exact ⟨rfl, rfl, twins⟩

theorem drop_twins : p.Twins q (call.drop j) (call.drop k) := by
  unfold drop
  cases call.stage with
  | waiting => exact twins
  | driving span context hub drive =>
    have dropped := Flight.foldl_drop_twins drive.flights (s := ⟨hub, j⟩) (t := ⟨hub, k⟩) ⟨rfl, twins⟩
    exact (drive.client.session.drop_twins dropped.journal).recordAll _
  | flushing span context hub outcome invocations flush =>
    have dropped := Flight.foldl_drop_twins flush.flights (s := ⟨hub, j⟩) (t := ⟨hub, k⟩) ⟨rfl, twins⟩
    exact dropped.journal.recordAll _
  | recovering span deadline alarm rest => exact twins.record _
  | answered value => exact twins

end Call

/-! ### Calls at once -/

namespace Party

/-- The same calls on the same segments and registry, with twin journals. -/
structure Twins (p q : Journal) (party party' : Party) : Prop where
  segments : party.segments = party'.segments
  registry : party.registry = party'.registry
  calls : party.calls = party'.calls
  woken : party.woken = party'.woken
  journal : p.Twins q party.journal party'.journal

namespace Twins

variable {party party' : Party}

theorem pollCall (twins : party.Twins p q party') (alike : p.Alike q) (index : Nat) :
    (party.pollCall index).Twins p q (party'.pollCall index) := by
  unfold Party.pollCall
  rw [twins.calls]
  cases party'.calls[index]? with
  | none => exact twins
  | some call =>
    dsimp only
    rw [twins.journal.now]
    cases call.awake party'.journal.now with
    | false => exact twins
    | true =>
      obtain ⟨call_eq, registry_eq, journals⟩ :=
        call.poll_twins twins.journal party'.segments party'.registry alike
      simp only [twins.segments, twins.registry, Bool.not_true, Bool.false_eq_true, if_false]
      exact ⟨rfl, registry_eq, congrArg (party'.calls.set index) call_eq, twins.woken, journals⟩

theorem poll (twins : party.Twins p q party') (alike : p.Alike q) : party.poll.Twins p q party'.poll := by
  have polled (turns : List Nat) {party party' : Party} (twins : party.Twins p q party') :
      (turns.foldl Party.pollCall party).Twins p q (turns.foldl Party.pollCall party') := by
    induction turns generalizing party party' with
    | nil => exact twins
    | cons index turns ih => exact ih (twins.pollCall alike index)
  unfold Party.poll
  simp only [twins.calls, twins.woken]
  have later := polled (Gathering.turns party'.calls.length party'.woken) twins
  refine ⟨later.segments, later.registry, later.calls, ?_, later.journal⟩
  simp only [later.calls, later.journal.now]

theorem advance (twins : party.Twins p q party') (now : Nat) :
    (Machine.advance now party).Twins p q (Machine.advance now party') := by
  refine ⟨twins.segments, twins.registry, ?_, ?_, twins.journal.moveTo now⟩
  · simp only [Machine.advance, twins.calls]
  · simp only [Machine.advance, Party.roused, twins.calls, twins.woken]

theorem lockstep (alike : p.Alike q) : Machine.Lockstep id id (Twins p q) where
  finished twins := by simp only [Machine.finished, twins.calls]
  awake twins := by simp only [Machine.awake, twins.calls, twins.journal.now]
  nextAlarm twins := by simp only [Machine.nextAlarm, twins.calls]
  poll twins _ := twins.poll alike
  advance {_ _ u v} twins same := by
    obtain rfl : u = v := same
    exact twins.advance u

theorem drop (twins : party.Twins p q party') : p.Twins q party.drop party'.drop := by
  unfold Party.drop
  rw [twins.calls]
  have journals := twins.journal
  generalize party.journal = j, party'.journal = k at journals
  induction party'.calls generalizing j k with
  | nil => exact journals
  | cons call calls ih => exact ih _ _ (call.drop_twins journals)

end Twins

end Party

end Segmentation
