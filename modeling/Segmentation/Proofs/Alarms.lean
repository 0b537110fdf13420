import Mathlib.Data.List.Basic
import Segmentation.Drive

/-!
# Alarms of batches

While batches run, the clock stands and no alarm is taken away (`Scene.Grows`).  So every batch of a flush that
sleeps has an alarm of its own set for the instant at which it can go on (`Flush.Alarmed`).
-/

namespace Segmentation

namespace Hub

/-- The instants of the alarms. -/
def deadlines (hub : Hub) : List Nat := hub.alarms.map (·.deadline)

variable (hub : Hub)

theorem alarms_resolve (load : Load) (value : Bool) : (hub.resolve load value).2.alarms = hub.alarms := by
  unfold resolve
  split <;> rfl

theorem alarms_release (load : Load) : (hub.release load).alarms = hub.alarms := by
  unfold release
  simp only
  split <;> rfl

theorem alarms_releaseAll (loads : List Load) : (hub.releaseAll loads).alarms = hub.alarms := by
  unfold releaseAll
  induction loads generalizing hub with
  | nil => rfl
  | cons load loads ih => rw [List.foldl_cons, ih, alarms_release]

theorem alarms_resolveAll (loads : List Load) (value : Bool) :
    (hub.resolveAll loads value).2.alarms = hub.alarms := by
  unfold resolveAll
  generalize 0 = count
  induction loads generalizing hub count with
  | nil => rfl
  | cons load loads ih => rw [List.foldl_cons, ih, alarms_resolve]

theorem alarms_advance (now : Nat) : (hub.advance now).alarms = hub.alarms.filter (now < ·.deadline) := by
  have goOff_all (due : List Alarm) (hub : Hub) :
      (due.foldl (fun hub alarm => hub.goOff alarm.purpose) hub).alarms = hub.alarms := by
    induction due generalizing hub with
    | nil => rfl
    | cons alarm due ih =>
      rw [List.foldl_cons, ih]
      cases alarm.purpose with
      | wake waiter => rfl
      | resumeBatch flight => rfl
      | answer load value => exact (alarms_release _ _).trans (alarms_resolve _ _ _)
  exact goOff_all _ _

/-- Before the first alarm no alarm is due. -/
theorem takeDue_quiet {now : Nat} (quiet : ∀ t ∈ hub.deadlines, now < t) : hub.takeDue now = ([], hub) := by
  have ahead : ∀ alarm ∈ hub.alarms, now < alarm.deadline := fun alarm mem => quiet _ (List.mem_map_of_mem mem)
  simp only [takeDue, Prod.mk.injEq, List.filter_eq_nil_iff, decide_eq_true_eq, Nat.not_le]
  refine ⟨ahead, ?_⟩
  rw [List.filter_eq_self.2 fun alarm mem => decide_eq_true (ahead alarm mem)]

/-- The batches taken were not started, and no alarm is taken away with them. -/
theorem takeFlights_spec :
    (∀ flight ∈ hub.takeFlights.1, flight.stage = .boarding) ∧ hub.takeFlights.2.alarms = hub.alarms := by
  refine List.foldlRecOn hub.queues _ (motive := fun r : List Flight × Hub =>
    (∀ flight ∈ r.1, flight.stage = .boarding) ∧ r.2.alarms = hub.alarms)
    ⟨List.forall_mem_nil _, rfl⟩ fun r taken entry _ => ?_
  dsimp only
  split
  · exact taken
  · refine ⟨fun flight mem => ?_, taken.2⟩
    rcases List.mem_append.1 mem with mem | mem
    · exact taken.1 flight mem
    · rw [List.mem_singleton.1 mem]

end Hub

namespace Scene

/-- The clock stands, and no alarm is taken away. -/
def Grows (before later : Scene) : Prop :=
  later.journal.now = before.journal.now ∧ before.hub.alarms ⊆ later.hub.alarms

theorem Grows.trans {a b c : Scene} (first : a.Grows b) (second : b.Grows c) : a.Grows c :=
  ⟨second.1.trans first.1, List.Subset.trans first.2 second.2⟩

theorem Grows.of_eq {before later : Scene} (now : later.journal.now = before.journal.now)
    (alarms : later.hub.alarms = before.hub.alarms) : before.Grows later :=
  ⟨now, by rw [alarms]; exact List.Subset.refl _⟩

theorem mem_insert_alarm (alarm : Alarm) (alarms : List Alarm) (a : Alarm) :
    a ∈ alarm.insert alarms ↔ a = alarm ∨ a ∈ alarms := by
  induction alarms with
  | nil => simp [Alarm.insert]
  | cons other others ih =>
    unfold Alarm.insert
    split
    · simp
    · simp only [List.mem_cons, ih]
      exact or_left_comm

theorem setAlarm_grows (scene : Scene) (deadline : Nat) (purpose : Purpose) :
    scene.Grows (scene.setAlarm deadline purpose) :=
  ⟨rfl, fun _ mem => (mem_insert_alarm _ _ _).2 (.inr mem)⟩

theorem setAlarm_sets (scene : Scene) (deadline : Nat) (purpose : Purpose) :
    ∃ alarm ∈ (scene.setAlarm deadline purpose).hub.alarms, alarm.deadline = deadline ∧ alarm.purpose = purpose :=
  ⟨_, (mem_insert_alarm _ _ _).2 (.inl rfl), rfl, rfl⟩

theorem answerAt_grows (scene : Scene) (deadline : Nat) (load : Load) (value : Bool) :
    scene.Grows (scene.answerAt deadline load value) :=
  setAlarm_grows { scene with hub := scene.hub.retain load } deadline _

end Scene

open Scene (Grows)

theorem BatchTask.run_grows (matcher : String) (tickets : List Nat) (task : BatchTask) (scene : Scene) :
    scene.Grows (task.run matcher tickets scene).2 := by
  induction task generalizing scene with
  | done ending => exact .of_eq rfl rfl
  | sleep ticks rest ih =>
    cases ticks with
    | zero => exact ih scene
    | succ ticks => exact .of_eq rfl rfl
  | resolve entry value rest ih =>
    refine Grows.trans ?_ (ih _)
    split
    · exact .of_eq rfl (Hub.alarms_resolve _ _ _)
    · exact .of_eq rfl rfl
  | resolveLater ticks entry value rest ih =>
    refine Grows.trans ?_ (ih _)
    split
    · exact Scene.answerAt_grows _ _ _ _
    · exact .of_eq rfl rfl
  | keep entry rest ih =>
    refine Grows.trans ?_ (ih _)
    split <;> exact .of_eq rfl rfl
  | loadInto peer request rest ih => exact Grows.trans (.of_eq rfl rfl) (ih _)

namespace Flight

/-- If the batch sleeps on, it has an alarm for the instant at which it can go on. -/
def Alarmed (flight : Flight) (scene : Scene) : Prop :=
  ∀ deadline rest, flight.stage = .asleep deadline rest → scene.journal.now < deadline →
    ∃ alarm ∈ scene.hub.alarms, alarm.deadline = deadline ∧ alarm.purpose = .resumeBatch flight.id

theorem Alarmed.mono {flight : Flight} {before later : Scene} (h : flight.Alarmed before)
    (grows : before.Grows later) : flight.Alarmed later := fun deadline rest asleep ahead =>
  have ⟨alarm, mem, set⟩ := h deadline rest asleep (grows.1 ▸ ahead)
  ⟨alarm, grows.2 mem, set⟩

variable (flight : Flight) (scene : Scene)

theorem board_grows : scene.Grows (flight.board scene).2 := by
  unfold board
  split
  · exact .of_eq rfl rfl
  · simp only
    split
    · exact .of_eq rfl rfl
    · exact Grows.trans (.of_eq rfl rfl) (BatchTask.run_grows ..)

theorem advance_grows : scene.Grows (flight.advance scene).2 := by
  have noted (r : FlightProgress × Scene) : r.2.Grows (flight.noteEnd r).2 := by
    obtain ⟨progress, scene⟩ := r
    cases progress <;> exact .of_eq rfl rfl
  refine Grows.trans ?_ (noted _)
  split
  · exact board_grows flight scene
  · exact BatchTask.run_grows ..

theorem landContained_grows (ending : Ending Unit) : scene.Grows (flight.landContained ending scene) := by
  unfold landContained
  split
  · exact .of_eq rfl (Hub.alarms_releaseAll _ _)
  · exact .of_eq rfl ((Hub.alarms_releaseAll _ _).trans (Hub.alarms_resolveAll _ _ _))

theorem announce_grows : scene.Grows (flight.announce scene) := by
  unfold announce
  split <;> exact .of_eq rfl rfl

/-- A batch that is still in flight after it went on has set its alarm. -/
theorem pollContained_grows (alarmed : flight.Alarmed scene) :
    scene.Grows (flight.pollContained scene).2 ∧
      ∀ later, (flight.pollContained scene).1 = some later → later.Alarmed (flight.pollContained scene).2 := by
  unfold pollContained
  split
  · exact ⟨.of_eq rfl rfl, fun later h => Option.some.inj h ▸ alarmed⟩
  · have advanced := (announce_grows flight scene).trans (advance_grows flight (flight.announce scene))
    generalize flight.advance (flight.announce scene) = r at advanced
    obtain ⟨progress, scene⟩ := r
    cases progress with
    | asleep deadline rest =>
      -- The alarm it sets is for the very instant until which it sleeps.
      refine ⟨advanced.trans (Scene.setAlarm_grows _ _ _), fun later h => ?_⟩
      obtain rfl := Option.some.inj h
      intro deadline' rest' asleep _
      obtain ⟨rfl, -⟩ := FlightStage.asleep.inj asleep
      exact Scene.setAlarm_sets _ _ _
    | ended ending => exact ⟨advanced.trans (landContained_grows _ _ _), fun later h => nomatch h⟩

end Flight

namespace Flush

/-- Every batch that sleeps on has its alarm. -/
def Alarmed (flush : Flush) (scene : Scene) : Prop := ∀ flight ∈ flush.flights, flight.Alarmed scene

theorem alarmed_start (scene : Scene) : start.Alarmed scene := List.forall_mem_nil _

theorem pollFlights_alarmed (flights : List Flight) (scene : Scene) (alarmed : ∀ f ∈ flights, f.Alarmed scene) :
    scene.Grows (pollFlights flights scene).2 ∧
      ∀ f ∈ (pollFlights flights scene).1, f.Alarmed (pollFlights flights scene).2 := by
  refine List.foldlRecOn flights _ (motive := fun r : List Flight × Scene =>
    scene.Grows r.2 ∧ ∀ f ∈ r.1, f.Alarmed r.2)
    ⟨.of_eq rfl rfl, List.forall_mem_nil _⟩ fun r before flight mem => ?_
  obtain ⟨grows, slept⟩ := flight.pollContained_grows r.2 ((alarmed flight mem).mono before.1)
  refine ⟨before.1.trans grows, fun f mem => ?_⟩
  rcases List.mem_append.1 mem with mem | mem
  · exact (before.2 f mem).mono grows
  · exact slept f (Option.mem_toList.1 mem)

/-- While a flush sleeps it would go on at none of the instants before its alarms. -/
theorem awake_quiet {flush : Flush} {scene : Scene} (alarmed : flush.Alarmed scene)
    (asleep : flush.awake scene.journal.now = false) {now : Nat} (quiet : ∀ t ∈ scene.hub.deadlines, now < t) :
    flush.awake now = false := by
  simp only [awake, Bool.or_eq_false_iff, List.any_eq_false] at asleep ⊢
  refine ⟨asleep.1, fun flight mem => ?_⟩
  have waits := asleep.2 flight mem
  simp only [Flight.isDue] at waits ⊢
  cases stage : flight.stage with
  | boarding => simp [stage] at waits
  | asleep deadline rest =>
    simp only [stage, decide_eq_true_eq, Nat.not_le] at waits ⊢
    obtain ⟨alarm, mem_alarm, rfl, -⟩ := alarmed flight mem deadline rest stage waits
    exact quiet _ (List.mem_map_of_mem mem_alarm)

/-- A flush that sleeps keeps the alarms it needs when time passes. -/
theorem alarmed_advance {flush : Flush} {scene : Scene} (alarmed : flush.Alarmed scene)
    (asleep : flush.awake scene.journal.now = false) (now : Nat) :
    flush.Alarmed ⟨scene.hub.advance now, scene.journal.moveTo now⟩ := by
  intro flight mem deadline rest stage (ahead : now < deadline)
  simp only [awake, Bool.or_eq_false_iff, List.any_eq_false] at asleep
  have waits := asleep.2 flight mem
  simp only [Flight.isDue, stage, decide_eq_true_eq, Nat.not_le] at waits
  obtain ⟨alarm, mem_alarm, rfl, own⟩ := alarmed flight mem deadline rest stage waits
  refine ⟨alarm, ?_, rfl, own⟩
  rw [Hub.alarms_advance]
  exact List.mem_filter.2 ⟨mem_alarm, decide_eq_true ahead⟩

theorem nextRound_alarmed (flush : Flush) (scene : Scene) (alarmed : flush.Alarmed scene) :
    (flush.nextRound scene).1.Alarmed (flush.nextRound scene).2 := by
  obtain ⟨boarding, alarms⟩ := scene.hub.takeFlights_spec
  unfold nextRound
  generalize scene.hub.takeFlights = r at boarding alarms
  obtain ⟨taken, hub⟩ := r
  cases taken with
  | nil => exact fun f mem => (alarmed f mem).mono (.of_eq rfl alarms)
  | cons flight taken =>
    refine (pollFlights_alarmed (flight :: taken) ⟨hub, scene.journal⟩ fun f mem deadline rest asleep => ?_).2
    cases (boarding f mem).symm.trans asleep

theorem pass_alarmed (flush : Flush) (scene : Scene) (alarmed : flush.Alarmed scene) :
    (flush.pass scene).1.Alarmed (flush.pass scene).2 := by
  unfold pass
  split
  · exact alarmed
  · have polled := pollFlights_alarmed flush.flights scene alarmed
    generalize pollFlights flush.flights scene = r at polled
    obtain ⟨flights, scene⟩ := r
    cases flights with
    | nil => exact nextRound_alarmed _ scene (List.forall_mem_nil _)
    | cons flight flights => exact polled.2

end Flush

end Segmentation
