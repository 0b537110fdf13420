import Mathlib.Data.List.Basic
import Segmentation.Hub

/-!
# What happens after a past

A `Past` is a journal to go on from.  What happens after a past happens later, under higher numbers of alarms, spans
and contexts, and is written behind what the past has written; `after` says this of journals, hubs and scenes.  The
operations on hubs do not notice it.

They also never change which evaluators the queues have (`Hub.evaluators`).
-/

namespace Segmentation

/-- What happened before: a journal, and the serial number that definitions go by, which nothing depends on. -/
structure Past where
  journal : Journal
  serial : Nat

variable (past : Past)

def ContextRef.after : ContextRef → ContextRef
  | .taken context => .taken (past.journal.contextCount + context)
  | ref => ref

def SpanEvent.after : SpanEvent → SpanEvent
  | .started tracer name parent => .started tracer name (parent.map (·.after past))
  | .attributed span key value => .attributed (past.journal.spanCount + span) key value
  | .statusSet span status => .statusSet (past.journal.spanCount + span) status
  | .contextTaken span => .contextTaken (past.journal.spanCount + span)
  | .ended span => .ended (past.journal.spanCount + span)
  | .contextReleased context => .contextReleased (past.journal.contextCount + context)

def Event.after : Event → Event
  | .span event => .span (event.after past)
  | event => event

/-! ### Journals -/

namespace Journal

/-- A journal written behind another one. -/
def after (journal : Journal) : Journal where
  now := past.journal.now + journal.now
  alarms := past.journal.alarms + journal.alarms
  entries := past.journal.entries ++ journal.entries.map fun (t, event) => (past.journal.now + t, event.after past)

@[simp] theorem now_after (journal : Journal) : (journal.after past).now = past.journal.now + journal.now := rfl

@[simp] theorem alarms_after (journal : Journal) :
    (journal.after past).alarms = past.journal.alarms + journal.alarms := rfl

theorem events_after (journal : Journal) :
    (journal.after past).events = past.journal.events ++ journal.events.map (·.after past) := by
  simp [events, after, Function.comp_def]

@[simp] theorem spanCount_after (journal : Journal) :
    (journal.after past).spanCount = past.journal.spanCount + journal.spanCount := by
  unfold spanCount
  rw [events_after, List.countP_append, List.countP_map]
  congr 1
  refine List.countP_congr fun event _ => ?_
  cases event with
  | span event => cases event <;> simp [Event.after, SpanEvent.after]
  | _ => simp [Event.after]

@[simp] theorem contextCount_after (journal : Journal) :
    (journal.after past).contextCount = past.journal.contextCount + journal.contextCount := by
  unfold contextCount
  rw [events_after, List.countP_append, List.countP_map]
  congr 1
  refine List.countP_congr fun event _ => ?_
  cases event with
  | span event => cases event <;> simp [Event.after, SpanEvent.after]
  | _ => simp [Event.after]

theorem recordAll_after (journal : Journal) (events : List Event) :
    (journal.after past).recordAll (events.map (·.after past)) = (journal.recordAll events).after past := by
  simp [recordAll, after, Function.comp_def]

theorem record_after (journal : Journal) (event : Event) :
    (journal.after past).record (event.after past) = (journal.record event).after past := by
  simp [record, after]

/-- An event that has nothing to do with spans is written as it is. -/
theorem record_same (journal : Journal) (event : Event) (same : event.after past = event) :
    (journal.after past).record event = (journal.record event).after past := by
  rw [← record_after, same]

theorem notice_after (journal : Journal) (notice : Notice) :
    (journal.after past).notice notice = (journal.notice notice).after past :=
  record_same past journal (.noticed notice) rfl

theorem moveTo_after (journal : Journal) (now : Nat) :
    (journal.after past).moveTo (past.journal.now + now) = (journal.moveTo now).after past := rfl

end Journal

/-! ### Hubs -/

def Alarm.after (alarm : Alarm) : Alarm :=
  ⟨past.journal.now + alarm.deadline, past.journal.alarms + alarm.number, alarm.purpose⟩

theorem Alarm.insert_after (alarm : Alarm) (alarms : List Alarm) :
    (alarm.after past).insert (alarms.map (·.after past)) = (alarm.insert alarms).map (·.after past) := by
  induction alarms with
  | nil => rfl
  | cons other others ih =>
    simp only [List.map_cons, Alarm.insert, ih]
    by_cases earlier : alarm.deadline < other.deadline
    · simp [Alarm.after, earlier]
    · simp [Alarm.after, earlier]

namespace Hub

/-- A hub all of whose alarms were set later. -/
def after (hub : Hub) : Hub := { hub with alarms := hub.alarms.map (·.after past) }

variable (hub : Hub)

@[simp] theorem state_after (load : Load) : (hub.after past).state load = hub.state load := rfl

@[simp] theorem queue?_after (matcher : String) : (hub.after past).queue? matcher = hub.queue? matcher := rfl

@[simp] theorem waiters_after (load : Load) : (hub.after past).waiters load = hub.waiters load := rfl

@[simp] theorem woken_after : (hub.after past).woken = hub.woken := rfl

theorem modifyCoalescer_after (matcher : String) (f : Coalescer Request → Coalescer Request) :
    (hub.after past).modifyCoalescer matcher f = (hub.modifyCoalescer matcher f).after past := rfl

theorem openQueue_after (matcher : String) (evaluate : BatchEvaluator) :
    (hub.after past).openQueue matcher evaluate = (hub.openQueue matcher evaluate).after past := by
  unfold openQueue
  rw [queue?_after]
  split <;> rfl

theorem loadKeyed_after (matcher key : String) (request : Request) :
    (hub.after past).loadKeyed matcher key request =
      ((hub.loadKeyed matcher key request).1, (hub.loadKeyed matcher key request).2.after past) := rfl

theorem await_after (load : Load) (waiter : Place) :
    (hub.after past).await load waiter = (hub.await load waiter).after past := rfl

theorem resolve_after (load : Load) (value : Bool) :
    (hub.after past).resolve load value = ((hub.resolve load value).1, (hub.resolve load value).2.after past) := by
  unfold resolve
  rw [state_after]
  split <;> rfl

theorem release_after (load : Load) : (hub.after past).release load = (hub.release load).after past := by
  unfold release
  simp only [modifyCoalescer_after, state_after, waiters_after, apply_ite (after past)]
  rfl

theorem releaseAll_after (loads : List Load) :
    (hub.after past).releaseAll loads = (hub.releaseAll loads).after past := by
  unfold releaseAll
  induction loads generalizing hub with
  | nil => rfl
  | cons load loads ih => simp only [List.foldl_cons, release_after, ih]

theorem resolveAll_after (loads : List Load) (value : Bool) :
    (hub.after past).resolveAll loads value =
      ((hub.resolveAll loads value).1, (hub.resolveAll loads value).2.after past) := by
  unfold resolveAll
  generalize 0 = count
  induction loads generalizing hub count with
  | nil => rfl
  | cons load loads ih => simp only [List.foldl_cons, resolve_after, ih]

theorem answerAlarms_after : (hub.after past).answerAlarms = hub.answerAlarms.map (past.journal.now + ·) := by
  unfold answerAlarms after
  rw [List.filterMap_map, List.map_filterMap]
  refine List.filterMap_congr fun alarm _ => ?_
  obtain ⟨_, _, purpose⟩ := alarm
  cases purpose <;> rfl

theorem takeDue_after (now : Nat) :
    (hub.after past).takeDue (past.journal.now + now) =
      ((hub.takeDue now).1.map (·.after past), (hub.takeDue now).2.after past) := by
  simp [takeDue, after, Alarm.after, List.filter_map, Function.comp_def]

theorem goOff_after (purpose : Purpose) : (hub.after past).goOff purpose = (hub.goOff purpose).after past := by
  cases purpose with
  | wake waiter => rfl
  | resumeBatch flight => rfl
  | answer load value => simp only [goOff, resolve_after, release_after]

theorem advance_after (now : Nat) :
    (hub.after past).advance (past.journal.now + now) = (hub.advance now).after past := by
  unfold advance
  rw [takeDue_after]
  generalize hub.takeDue now = r
  obtain ⟨due, hub⟩ := r
  induction due generalizing hub with
  | nil => rfl
  | cons alarm due ih =>
    simpa only [List.map_cons, List.foldl_cons, Alarm.after, goOff_after] using ih (hub.goOff alarm.purpose)

theorem nextAlarm_after : (hub.after past).nextAlarm = hub.nextAlarm.map (past.journal.now + ·) := by
  simp [nextAlarm, after, Alarm.after, Function.comp_def]

end Hub

/-! ### Scenes -/

namespace Scene

def after (scene : Scene) : Scene := ⟨scene.hub.after past, scene.journal.after past⟩

variable (scene : Scene)

@[simp] theorem hub_after : (scene.after past).hub = scene.hub.after past := rfl

@[simp] theorem journal_after : (scene.after past).journal = scene.journal.after past := rfl

theorem setAlarm_after (deadline : Nat) (purpose : Purpose) :
    (scene.after past).setAlarm (past.journal.now + deadline) purpose =
      (scene.setAlarm deadline purpose).after past :=
  congrArg (fun alarms => (⟨{ scene.hub with alarms }, scene.journal.countAlarm.after past⟩ : Scene))
    (Alarm.insert_after past ⟨deadline, scene.journal.alarms, purpose⟩ scene.hub.alarms)

theorem answerAt_after (deadline : Nat) (load : Load) (value : Bool) :
    (scene.after past).answerAt (past.journal.now + deadline) load value =
      (scene.answerAt deadline load value).after past :=
  setAlarm_after past { scene with hub := scene.hub.retain load } deadline (.answer load value)

end Scene

/-! ### Evaluators -/

/-- An evaluator that gives the same however often it was called before. -/
def IgnoresCount {α β : Type} (evaluate : Nat → α → β) : Prop := ∀ m n a, evaluate m a = evaluate n a

namespace Hub

/-- The evaluators of the queues. -/
def evaluators (hub : Hub) : List (String × BatchEvaluator) :=
  hub.queues.map fun (name, queue) => (name, queue.evaluate)

/-- All evaluators of the queues have some property. -/
def All (P : BatchEvaluator → Prop) (hub : Hub) : Prop := ∀ entry ∈ hub.evaluators, P entry.2

theorem All.of_eq {P : BatchEvaluator → Prop} {hub later : Hub} (h : hub.All P)
    (same : later.evaluators = hub.evaluators) : later.All P := by
  rwa [All, same]

theorem All.queue? {P : BatchEvaluator → Prop} {hub : Hub} (h : hub.All P) {matcher : String} {queue : BatchQueue}
    (hq : hub.queue? matcher = some queue) : P queue.evaluate := by
  obtain ⟨before, behind, eq, -⟩ := List.lookup_eq_some_iff.1 hq
  exact h (matcher, queue.evaluate) (List.mem_map.2 ⟨(matcher, queue), by simp [eq], rfl⟩)

/-- All evaluators of the queues are pure. -/
def Pure (hub : Hub) : Prop := hub.All IgnoresCount

theorem Pure.of_eq {hub later : Hub} (h : hub.Pure) (same : later.evaluators = hub.evaluators) : later.Pure :=
  All.of_eq h same

theorem pure_empty : Hub.empty.Pure := by simp [Pure, All, evaluators, Hub.empty]

theorem Pure.queue? {hub : Hub} (h : hub.Pure) {matcher : String} {queue : BatchQueue}
    (hq : hub.queue? matcher = some queue) : IgnoresCount queue.evaluate := All.queue? h hq

variable (hub : Hub)

@[simp] theorem evaluators_modifyCoalescer (matcher : String) (f : Coalescer Request → Coalescer Request) :
    (hub.modifyCoalescer matcher f).evaluators = hub.evaluators := by
  simp only [evaluators, modifyCoalescer, List.map_map]
  refine List.map_congr_left fun entry _ => ?_
  simp only [Function.comp_def]
  split <;> rfl

@[simp] theorem evaluators_wakeAll (waiters : List Place) : (hub.wakeAll waiters).evaluators = hub.evaluators := rfl

@[simp] theorem evaluators_load (matcher : String) (request : Request) :
    (hub.load matcher request).2.evaluators = hub.evaluators := evaluators_modifyCoalescer hub _ _

@[simp] theorem evaluators_await (load : Load) (waiter : Place) :
    (hub.await load waiter).evaluators = hub.evaluators := evaluators_modifyCoalescer hub _ _

@[simp] theorem evaluators_resolve (load : Load) (value : Bool) :
    (hub.resolve load value).2.evaluators = hub.evaluators := by
  unfold resolve
  split <;> simp

@[simp] theorem evaluators_retain (load : Load) : (hub.retain load).evaluators = hub.evaluators :=
  evaluators_modifyCoalescer hub _ _

@[simp] theorem evaluators_keep (load : Load) : (hub.keep load).evaluators = hub.evaluators := by
  unfold keep
  exact evaluators_retain hub load

@[simp] theorem evaluators_release (load : Load) : (hub.release load).evaluators = hub.evaluators := by
  unfold release
  simp only
  split <;> simp

@[simp] theorem evaluators_releaseAll (loads : List Load) : (hub.releaseAll loads).evaluators = hub.evaluators := by
  unfold releaseAll
  induction loads generalizing hub with
  | nil => rfl
  | cons load loads ih => rw [List.foldl_cons, ih, evaluators_release]

@[simp] theorem evaluators_resolveAll (loads : List Load) (value : Bool) :
    (hub.resolveAll loads value).2.evaluators = hub.evaluators := by
  unfold resolveAll
  generalize 0 = count
  induction loads generalizing hub count with
  | nil => rfl
  | cons load loads ih => rw [List.foldl_cons, ih, evaluators_resolve]

@[simp] theorem evaluators_goOff (purpose : Purpose) : (hub.goOff purpose).evaluators = hub.evaluators := by
  cases purpose <;> simp [goOff]

@[simp] theorem evaluators_advance (now : Nat) : (hub.advance now).evaluators = hub.evaluators := by
  have goOff_all (due : List Alarm) (hub : Hub) :
      (due.foldl (fun hub alarm => hub.goOff alarm.purpose) hub).evaluators = hub.evaluators := by
    induction due generalizing hub with
    | nil => rfl
    | cons alarm due ih => rw [List.foldl_cons, ih, evaluators_goOff]
  exact goOff_all _ _

theorem All.openQueue {P : BatchEvaluator → Prop} {hub : Hub} (h : hub.All P) (matcher : String)
    {evaluate : BatchEvaluator} (new : P evaluate) : (hub.openQueue matcher evaluate).All P := by
  unfold Hub.openQueue
  split
  · exact h
  · intro entry mem
    rw [evaluators, List.map_append, List.mem_append] at mem
    rcases mem with mem | mem
    · exact h entry mem
    · obtain rfl := List.mem_singleton.1 mem
      exact new

end Hub

end Segmentation
