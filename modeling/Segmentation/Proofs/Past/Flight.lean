import Segmentation.Drive
import Segmentation.Proofs.Past.Hub
import Segmentation.Proofs.Queues

/-!
# Batches after a past

A batch that is handed to a pure evaluator goes the same way after every past, and later by what the past took
(`Flight.pollContained_after`).  The same holds of a flush (`Flush.pass_after`).
-/

namespace Segmentation

variable (past : Past)

def FlightStage.after : FlightStage → FlightStage
  | .boarding => .boarding
  | .asleep deadline rest => .asleep (past.journal.now + deadline) rest

def FlightProgress.after : FlightProgress → FlightProgress
  | .asleep deadline rest => .asleep (past.journal.now + deadline) rest
  | .ended ending => .ended ending

namespace BatchTask

theorem run_after (matcher : String) (tickets : List Nat) (task : BatchTask) (scene : Scene) :
    task.run matcher tickets (scene.after past) =
      ((task.run matcher tickets scene).1.after past, (task.run matcher tickets scene).2.after past) := by
  induction task generalizing scene with
  | done ending => rfl
  | sleep ticks rest ih =>
    cases ticks with
    | zero => exact ih scene
    | succ ticks => simp [run, FlightProgress.after, Nat.add_assoc]
  | resolve entry value rest ih =>
    simp only [run, ← ih]
    cases entryLoad? matcher tickets entry with
    | none => rfl
    | some target => simp only [Scene.hub_after, Hub.resolve_after]; rfl
  | resolveLater ticks entry value rest ih =>
    simp only [run, ← ih]
    cases entryLoad? matcher tickets entry with
    | none => rfl
    | some target =>
      simp only [Scene.journal_after, Journal.now_after, Nat.add_assoc, Scene.answerAt_after]
  | keep entry rest ih =>
    simp only [run, ← ih]
    cases entryLoad? matcher tickets entry with
    | none => rfl
    | some target => rfl
  | loadInto peer request rest ih =>
    simp only [run, ← ih]
    rfl

theorem evaluators_run (matcher : String) (tickets : List Nat) (task : BatchTask) (scene : Scene) :
    (task.run matcher tickets scene).2.hub.evaluators = scene.hub.evaluators := by
  induction task generalizing scene with
  | done ending => rfl
  | sleep ticks rest ih =>
    cases ticks with
    | zero => exact ih scene
    | succ ticks => rfl
  | resolve entry value rest ih =>
    simp only [run, ih]
    cases entryLoad? matcher tickets entry with
    | none => rfl
    | some target => exact Hub.evaluators_resolve _ _ _
  | resolveLater ticks entry value rest ih =>
    simp only [run, ih]
    cases entryLoad? matcher tickets entry with
    | none => rfl
    | some target => exact Hub.evaluators_retain _ _
  | keep entry rest ih =>
    simp only [run, ih]
    cases entryLoad? matcher tickets entry with
    | none => rfl
    | some target => exact Hub.evaluators_keep _ _
  | loadInto peer request rest ih =>
    simp only [run, ih]
    exact Hub.evaluators_load _ _ _

end BatchTask

namespace Flight

def after (flight : Flight) : Flight := { flight with stage := flight.stage.after past }

variable (flight : Flight) (scene : Scene)

@[simp] theorem id_after : (flight.after past).id = flight.id := rfl

@[simp] theorem loads_after : (flight.after past).loads = flight.loads := rfl

theorem isDue_after (now : Nat) : (flight.after past).isDue (past.journal.now + now) = flight.isDue now := by
  obtain ⟨_, _, _, stage⟩ := flight
  cases stage <;> simp [isDue, after, FlightStage.after]

theorem board_after (pure : scene.hub.Pure) :
    (flight.after past).board (scene.after past) =
      ((flight.board scene).1.after past, (flight.board scene).2.after past) := by
  unfold board
  cases hq : scene.hub.queue? flight.matcher with
  | none => simp only [Scene.hub_after, Hub.queue?_after, after, hq, FlightProgress.after]
  | some queue =>
    simp only [Scene.hub_after, Hub.queue?_after, after, hq, Scene.journal_after]
    rw [pure.queue? hq _ (scene.journal.invocations flight.matcher)]
    cases queue.evaluate (scene.journal.invocations flight.matcher) (queue.coalescer.requests flight.tickets) with
    | panics payload =>
      rw [Journal.record_same past _ _ (by rfl)]
      rfl
    | starts task =>
      rw [Journal.record_same past _ _ (by rfl)]
      exact BatchTask.run_after past flight.matcher flight.tickets task ⟨scene.hub, scene.journal.record _⟩

theorem evaluators_board : (flight.board scene).2.hub.evaluators = scene.hub.evaluators := by
  unfold board
  cases scene.hub.queue? flight.matcher with
  | none => rfl
  | some queue =>
    simp only
    split
    · rfl
    · exact BatchTask.evaluators_run _ _ _ _

theorem noteEnd_after (r : FlightProgress × Scene) :
    (flight.after past).noteEnd (r.1.after past, r.2.after past) =
      ((flight.noteEnd r).1.after past, (flight.noteEnd r).2.after past) := by
  obtain ⟨progress, scene⟩ := r
  cases progress with
  | asleep deadline rest => rfl
  | ended ending =>
    simp only [noteEnd, FlightProgress.after, Scene.journal_after, after]
    rw [Journal.record_same past _ _ (by rfl)]
    rfl

theorem evaluators_noteEnd (r : FlightProgress × Scene) :
    (flight.noteEnd r).2.hub.evaluators = r.2.hub.evaluators := by
  obtain ⟨progress, scene⟩ := r
  cases progress <;> rfl

theorem advance_after (pure : scene.hub.Pure) :
    (flight.after past).advance (scene.after past) =
      ((flight.advance scene).1.after past, (flight.advance scene).2.after past) := by
  unfold advance
  rw [← noteEnd_after]
  congr 1
  have boarded := board_after past flight scene pure
  obtain ⟨_, _, _, stage⟩ := flight
  cases stage with
  | boarding => exact boarded
  | asleep deadline rest => exact BatchTask.run_after ..

theorem evaluators_advance : (flight.advance scene).2.hub.evaluators = scene.hub.evaluators := by
  unfold advance
  rw [evaluators_noteEnd]
  split
  · exact evaluators_board flight scene
  · exact BatchTask.evaluators_run _ _ _ _

theorem landContained_after (ending : Ending Unit) :
    (flight.after past).landContained ending (scene.after past) = (flight.landContained ending scene).after past := by
  unfold landContained
  cases ending.contained with
  | ok value =>
    simp only [Scene.hub_after, loads_after, Hub.releaseAll_after]
    rfl
  | error cause =>
    simp only [Scene.hub_after, loads_after, Hub.resolveAll_after, Hub.releaseAll_after, Scene.journal_after,
      Journal.notice_after]
    rfl

theorem evaluators_landContained (ending : Ending Unit) :
    (flight.landContained ending scene).hub.evaluators = scene.hub.evaluators := by
  unfold landContained
  cases ending.contained <;> simp

theorem announce_after : (flight.after past).announce (scene.after past) = (flight.announce scene).after past := by
  obtain ⟨_, _, _, stage⟩ := flight
  cases stage with
  | boarding =>
    simp only [announce, after, FlightStage.after, Scene.journal_after, Journal.notice_after]
    rfl
  | asleep deadline rest => rfl

theorem hub_announce : (flight.announce scene).hub = scene.hub := by
  unfold announce
  split <;> rfl

theorem pollContained_after (pure : scene.hub.Pure) :
    (flight.after past).pollContained (scene.after past) =
      ((flight.pollContained scene).1.map (·.after past), (flight.pollContained scene).2.after past) := by
  unfold pollContained
  rw [Scene.journal_after, Journal.now_after, isDue_after, announce_after,
    advance_after past flight (flight.announce scene) (by rwa [hub_announce])]
  by_cases due : flight.isDue scene.journal.now = true
  · simp only [due, Bool.not_true, Bool.false_eq_true, if_false]
    obtain ⟨progress, scene⟩ := flight.advance (flight.announce scene)
    cases progress with
    | asleep deadline rest =>
      simp only [FlightProgress.after, sleepUntil, id_after, Scene.setAlarm_after]
      rfl
    | ended ending => simp only [FlightProgress.after, landContained_after, Option.map_none]
  · simp [due]

theorem evaluators_pollContained : (flight.pollContained scene).2.hub.evaluators = scene.hub.evaluators := by
  unfold pollContained
  split
  · rfl
  · have advanced := evaluators_advance flight (flight.announce scene)
    rw [hub_announce] at advanced
    split
    · rename_i h
      rw [h] at advanced
      exact advanced
    · rename_i h
      rw [h] at advanced
      rwa [evaluators_landContained]

end Flight

/-! ### Taking batches -/

namespace Hub

variable (hub : Hub)

theorem coalescer_after (matcher : String) : (hub.after past).coalescer matcher = hub.coalescer matcher := rfl

private theorem takeFlight_after (flights : List Flight) (matcher : String) :
    takeFlight (flights.map (·.after past), hub.after past) matcher =
      ((takeFlight (flights, hub) matcher).1.map (·.after past),
        (takeFlight (flights, hub) matcher).2.after past) := by
  unfold takeFlight
  simp only [coalescer_after]
  cases (hub.coalescer matcher).takeBatch with
  | none => rfl
  | some r =>
    simp only [List.map_append, modifyCoalescer_after]
    rfl

theorem takeFlights_after : (hub.after past).takeFlights =
    (hub.takeFlights.1.map (·.after past), hub.takeFlights.2.after past) := by
  have all (matchers : List String) (flights : List Flight) (hub : Hub) :
      matchers.foldl takeFlight (flights.map (·.after past), hub.after past) =
        ((matchers.foldl takeFlight (flights, hub)).1.map (·.after past),
          (matchers.foldl takeFlight (flights, hub)).2.after past) := by
    induction matchers generalizing flights hub with
    | nil => rfl
    | cons matcher matchers ih => rw [List.foldl_cons, takeFlight_after, ih, List.foldl_cons]
  rw [takeFlights_eq, takeFlights_eq]
  exact all _ [] hub

theorem evaluators_takeFlights : hub.takeFlights.2.evaluators = hub.evaluators := by
  have all (matchers : List String) (r : List Flight × Hub) :
      (matchers.foldl takeFlight r).2.evaluators = r.2.evaluators := by
    induction matchers generalizing r with
    | nil => rfl
    | cons matcher matchers ih =>
      rw [List.foldl_cons, ih]
      unfold takeFlight
      split
      · rfl
      · exact evaluators_modifyCoalescer r.2 matcher fun _ => _
  rw [takeFlights_eq]
  exact all _ _

end Hub

/-! ### Many batches -/

namespace Drive

variable (flights : List Flight) (scene : Scene)

theorem find?_after (id : Nat) :
    (flights.map (·.after past)).find? (·.id = id) = (flights.find? (·.id = id)).map (·.after past) := by
  rw [List.find?_map]
  rfl

theorem pollFlight_after (pure : scene.hub.Pure) (id : Nat) :
    pollFlight (flights.map (·.after past)) (scene.after past) id =
      ((pollFlight flights scene id).1.map (·.after past), (pollFlight flights scene id).2.after past) := by
  unfold pollFlight
  rw [find?_after]
  cases flights.find? (·.id = id) with
  | none => rfl
  | some flight =>
    simp only [Option.map_some, Flight.pollContained_after past flight scene pure]
    obtain ⟨later, scene⟩ := flight.pollContained scene
    cases later with
    | none => simp only [Option.map_none, List.filter_map]; rfl
    | some later =>
      simp only [Option.map_some, List.map_map, Prod.mk.injEq, and_true]
      refine List.map_congr_left fun f _ => ?_
      exact (apply_ite (Flight.after past) _ _ _).symm

theorem evaluators_pollFlight (id : Nat) : (pollFlight flights scene id).2.hub.evaluators = scene.hub.evaluators := by
  unfold pollFlight
  cases flights.find? (·.id = id) with
  | none => rfl
  | some flight =>
    have polled := Flight.evaluators_pollContained flight scene
    simp only
    split <;> (rename_i h; rw [h] at polled; exact polled)

theorem pollReady_after (pure : scene.hub.Pure) (polled : Nat) (ids : List Nat) :
    pollReady (flights.map (·.after past)) polled ids (scene.after past) =
      ((pollReady flights polled ids scene).1.map (·.after past), (pollReady flights polled ids scene).2.1,
        (pollReady flights polled ids scene).2.2.after past) := by
  induction ids generalizing flights polled scene with
  | nil => rfl
  | cons id ids ih =>
    have later_pure := pure.of_eq (evaluators_pollFlight flights scene id)
    simp only [pollReady, pollFlight_after past flights scene pure, List.length_map, ih _ _ later_pure]

theorem evaluators_pollReady (polled : Nat) (ids : List Nat) :
    (pollReady flights polled ids scene).2.2.hub.evaluators = scene.hub.evaluators := by
  induction ids generalizing flights polled scene with
  | nil => rfl
  | cons id ids ih => simp only [pollReady, ih, evaluators_pollFlight]

end Drive

namespace Flush

def after (flush : Flush) : Flush := { flush with flights := flush.flights.map (·.after past) }

variable (flush : Flush) (scene : Scene)

/-- Lets one batch of a round go on. -/
def pollNext (r : List Flight × Scene) (flight : Flight) : List Flight × Scene :=
  (r.1 ++ (flight.pollContained r.2).1.toList, (flight.pollContained r.2).2)

private theorem evaluators_pollNext (flights : List Flight) (r : List Flight × Scene) :
    (flights.foldl pollNext r).2.hub.evaluators = r.2.hub.evaluators := by
  induction flights generalizing r with
  | nil => rfl
  | cons flight flights ih => rw [List.foldl_cons, ih, pollNext, Flight.evaluators_pollContained]

theorem evaluators_pollFlights (flights : List Flight) :
    (pollFlights flights scene).2.hub.evaluators = scene.hub.evaluators := evaluators_pollNext flights ([], scene)

private theorem pollNext_after (flights rest : List Flight) (scene : Scene) (pure : scene.hub.Pure) :
    (flights.map (·.after past)).foldl pollNext (rest.map (·.after past), scene.after past) =
      ((flights.foldl pollNext (rest, scene)).1.map (·.after past),
        (flights.foldl pollNext (rest, scene)).2.after past) := by
  induction flights generalizing rest scene with
  | nil => rfl
  | cons flight flights ih =>
    have later_pure := pure.of_eq (Flight.evaluators_pollContained flight scene)
    have next : pollNext (rest.map (·.after past), scene.after past) (flight.after past) =
        ((pollNext (rest, scene) flight).1.map (·.after past), (pollNext (rest, scene) flight).2.after past) := by
      simp only [pollNext, Flight.pollContained_after past flight scene pure, List.map_append, Option.toList_map]
    rw [List.map_cons, List.foldl_cons, next, List.foldl_cons]
    exact ih _ _ later_pure

theorem pollFlights_after (pure : scene.hub.Pure) (flights : List Flight) :
    pollFlights (flights.map (·.after past)) (scene.after past) =
      ((pollFlights flights scene).1.map (·.after past), (pollFlights flights scene).2.after past) :=
  pollNext_after past flights [] scene pure

theorem nextRound_after (pure : scene.hub.Pure) :
    (flush.after past).nextRound (scene.after past) =
      ((flush.nextRound scene).1.after past, (flush.nextRound scene).2.after past) := by
  have taken_pure := pure.of_eq (Hub.evaluators_takeFlights scene.hub)
  unfold nextRound
  rw [Scene.hub_after, Hub.takeFlights_after]
  generalize scene.hub.takeFlights = r at taken_pure ⊢
  obtain ⟨taken, hub⟩ := r
  cases taken with
  | nil => rfl
  | cons flight taken =>
    have polled := pollFlights_after past ⟨hub, scene.journal⟩ taken_pure (flight :: taken)
    simp only [List.map_cons] at polled ⊢
    simp only [Scene.after] at polled ⊢
    simp only [polled, after, List.length_cons, List.length_map]

theorem evaluators_nextRound : (flush.nextRound scene).2.hub.evaluators = scene.hub.evaluators := by
  have taken_eq := Hub.evaluators_takeFlights scene.hub
  unfold nextRound
  generalize scene.hub.takeFlights = r at taken_eq ⊢
  obtain ⟨taken, hub⟩ := r
  cases taken with
  | nil => exact taken_eq
  | cons flight taken => exact (evaluators_pollFlights ⟨hub, scene.journal⟩ (flight :: taken)).trans taken_eq

theorem pass_after (pure : scene.hub.Pure) :
    (flush.after past).pass (scene.after past) =
      ((flush.pass scene).1.after past, (flush.pass scene).2.after past) := by
  obtain ⟨flights, flushed, finished⟩ := flush
  have polled_pure := pure.of_eq (evaluators_pollFlights scene flights)
  cases finished with
  | true => rfl
  | false =>
    simp only [pass, after, Bool.false_eq_true, if_false, pollFlights_after past scene pure]
    generalize pollFlights flights scene = r at polled_pure ⊢
    obtain ⟨later, scene⟩ := r
    cases later with
    | nil => exact nextRound_after past ⟨[], flushed, false⟩ scene polled_pure
    | cons flight later => rfl

theorem evaluators_pass : (flush.pass scene).2.hub.evaluators = scene.hub.evaluators := by
  have polled_eq := evaluators_pollFlights scene flush.flights
  unfold pass
  split
  · rfl
  · generalize pollFlights flush.flights scene = r at polled_eq ⊢
    obtain ⟨flights, scene⟩ := r
    cases flights with
    | nil => exact (evaluators_nextRound { flush with flights := [] } scene).trans polled_eq
    | cons flight flights => exact polled_eq

theorem awake_after (now : Nat) : (flush.after past).awake (past.journal.now + now) = flush.awake now := by
  simp [awake, after, Flight.isDue_after, Function.comp_def]

end Flush

end Segmentation
