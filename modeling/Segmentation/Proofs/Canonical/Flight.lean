import Segmentation.Proofs.Canonical.Hub
import Segmentation.Proofs.Past.Flight

/-!
# Batches with canonical requests

A batch that is handed to a discreet evaluator goes the same way if its requests have canonical arguments
(`Flight.pollContained_canonical`).  The same holds of a flush (`Flush.pass_canonical`).
-/

namespace Segmentation

/-- All batched evaluators are discreet. -/
abbrev Hub.Discreet (hub : Hub) : Prop := hub.All BatchEvaluator.Discreet

/-! ### One batch -/

noncomputable def FlightProgress.canonical : FlightProgress → FlightProgress
  | .asleep deadline rest => .asleep deadline rest.canonical
  | .ended ending => .ended ending

noncomputable def FlightStage.canonical : FlightStage → FlightStage
  | .boarding => .boarding
  | .asleep deadline rest => .asleep deadline rest.canonical

theorem BatchTask.run_canonical (matcher : String) (tickets : List Nat) (task : BatchTask) (scene : Scene) :
    task.canonical.run matcher tickets scene.canonical =
      ((task.run matcher tickets scene).1.canonical, (task.run matcher tickets scene).2.canonical) := by
  induction task generalizing scene with
  | done ending => rfl
  | sleep ticks rest ih =>
    cases ticks with
    | zero => exact ih scene
    | succ ticks => rfl
  | resolve entry value rest ih =>
    simp only [canonical, run, ← ih]
    cases entryLoad? matcher tickets entry with
    | none => rfl
    | some target => simp only [Scene.canonical, Hub.resolve_canonical]
  | resolveLater ticks entry value rest ih =>
    simp only [canonical, run, ← ih]
    cases entryLoad? matcher tickets entry with
    | none => rfl
    | some target => simp only [Scene.answerAt_canonical, Scene.journal_canonical, Journal.now_canonical]
  | keep entry rest ih =>
    simp only [canonical, run, ← ih]
    cases entryLoad? matcher tickets entry with
    | none => rfl
    | some target => simp only [Scene.canonical, Hub.keep_canonical]
  | loadInto peer request rest ih =>
    simp only [canonical, run, ← ih, Scene.hub_canonical, Hub.load_canonical]
    rfl

namespace Flight

variable (flight : Flight) (scene : Scene)

noncomputable def canonical : Flight := { flight with stage := flight.stage.canonical }

@[simp] theorem id_canonical : flight.canonical.id = flight.id := rfl

@[simp] theorem loads_canonical : flight.canonical.loads = flight.loads := rfl

@[simp] theorem isDue_canonical (now : Nat) : flight.canonical.isDue now = flight.isDue now := by
  obtain ⟨_, _, _, stage⟩ := flight
  cases stage <;> rfl

theorem noteEnd_canonical (r : FlightProgress × Scene) :
    flight.canonical.noteEnd (r.1.canonical, r.2.canonical) =
      ((flight.noteEnd r).1.canonical, (flight.noteEnd r).2.canonical) := by
  obtain ⟨progress, scene⟩ := r
  cases progress with
  | asleep deadline rest => rfl
  | ended ending =>
    have noted : (scene.journal.record (.evaluatorEnded flight.matcher)).canonical = _ := scene.journal.record_plain rfl
    simp only [noteEnd, FlightProgress.canonical, Scene.canonical, noted]
    rfl

theorem board_canonical (discreet : scene.hub.Discreet) :
    flight.canonical.board scene.canonical = ((flight.board scene).1.canonical, (flight.board scene).2.canonical) := by
  obtain ⟨id, matcher, tickets, stage⟩ := flight
  unfold board
  simp only [canonical, Scene.hub_canonical, Hub.queue?_canonical]
  cases found : scene.hub.queue? matcher with
  | none => rfl
  | some queue =>
    let requests := queue.coalescer.requests tickets
    have called : (scene.journal.record (.batchInvoked matcher (requests.map (·.args)))).canonical =
        scene.journal.canonical.record (.batchInvoked matcher ((requests.map Request.canonical).map (·.args))) := by
      rw [Journal.record_canonical]
      simp [Event.canonical, Request.canonical, Function.comp_def]
    have evaluated := (Hub.All.queue? discreet found).canonical_eq (scene.journal.invocations matcher) requests
    simp only [Option.map_some, BatchQueue.canonical, Coalescer.requests_map, Scene.journal_canonical,
      Journal.invocations_canonical]
    rw [evaluated, ← called]
    cases queue.evaluate (scene.journal.invocations matcher) requests with
    | panics payload => rfl
    | starts task => exact task.run_canonical matcher tickets ⟨scene.hub, scene.journal.record _⟩

theorem advance_canonical (discreet : scene.hub.Discreet) :
    flight.canonical.advance scene.canonical =
      ((flight.advance scene).1.canonical, (flight.advance scene).2.canonical) := by
  unfold advance
  rw [← noteEnd_canonical]
  congr 1
  have boarded := board_canonical flight scene discreet
  obtain ⟨_, _, _, stage⟩ := flight
  cases stage with
  | boarding => exact boarded
  | asleep deadline rest => exact BatchTask.run_canonical ..

theorem landContained_canonical (ending : Ending Unit) :
    flight.canonical.landContained ending scene.canonical = (flight.landContained ending scene).canonical := by
  unfold landContained
  cases ending.contained with
  | ok value => simp only [Scene.canonical, loads_canonical, Hub.releaseAll_canonical]
  | error cause =>
    simp only [Scene.canonical, loads_canonical, Hub.resolveAll_canonical, Hub.releaseAll_canonical,
      Journal.notice_canonical]
    rfl

theorem announce_canonical : flight.canonical.announce scene.canonical = (flight.announce scene).canonical := by
  obtain ⟨_, _, _, stage⟩ := flight
  cases stage with
  | boarding => simp only [announce, canonical, FlightStage.canonical, Scene.canonical, Journal.notice_canonical]
  | asleep deadline rest => rfl

theorem pollContained_canonical (discreet : scene.hub.Discreet) :
    flight.canonical.pollContained scene.canonical =
      ((flight.pollContained scene).1.map canonical, (flight.pollContained scene).2.canonical) := by
  unfold pollContained
  rw [Scene.journal_canonical, Journal.now_canonical, isDue_canonical, announce_canonical,
    advance_canonical flight (flight.announce scene) (by rwa [hub_announce])]
  by_cases due : flight.isDue scene.journal.now = true
  · simp only [due, Bool.not_true, Bool.false_eq_true, if_false]
    obtain ⟨progress, scene⟩ := flight.advance (flight.announce scene)
    cases progress with
    | asleep deadline rest => rfl
    | ended ending => simp only [FlightProgress.canonical, landContained_canonical, Option.map_none]
  · simp [due]

@[simp] theorem isAsleep_canonical : flight.canonical.isAsleep = flight.isAsleep := by
  obtain ⟨_, _, _, stage⟩ := flight
  cases stage <;> rfl

theorem drop_canonical : flight.canonical.drop scene.canonical = (flight.drop scene).canonical := by
  have dropped : (scene.journal.record (.evaluatorDropped flight.matcher)).canonical = _ :=
    scene.journal.record_plain rfl
  unfold drop
  simp only [isAsleep_canonical, loads_canonical, Scene.canonical, Hub.releaseAll_canonical,
    apply_ite Journal.canonical, dropped]
  rfl

theorem foldl_drop_canonical (flights : List Flight) (scene : Scene) :
    (flights.map canonical).foldl (fun scene flight => flight.drop scene) scene.canonical =
      (flights.foldl (fun scene flight => flight.drop scene) scene).canonical := by
  induction flights generalizing scene with
  | nil => rfl
  | cons flight flights ih => rw [List.map_cons, List.foldl_cons, drop_canonical, ih, List.foldl_cons]

end Flight

/-! ### Taking batches -/

namespace Hub

variable (hub : Hub)

private theorem takeFlight_canonical (flights : List Flight) (matcher : String) :
    takeFlight (flights.map Flight.canonical, hub.canonical) matcher =
      ((takeFlight (flights, hub) matcher).1.map Flight.canonical,
        (takeFlight (flights, hub) matcher).2.canonical) := by
  unfold takeFlight
  simp only [coalescer_canonical, Coalescer.takeBatch_map]
  cases (hub.coalescer matcher).takeBatch with
  | none => rfl
  | some taken =>
    have kept : (hub.modifyCoalescer matcher fun _ => taken.2).canonical =
        hub.canonical.modifyCoalescer matcher fun _ => taken.2.map Request.canonical :=
      @modifyCoalescer_canonical hub (fun _ => taken.2) _ (fun _ => rfl) matcher
    simp only [Option.map_some, List.map_append, ← kept]
    rfl

theorem takeFlights_canonical : hub.canonical.takeFlights =
    (hub.takeFlights.1.map Flight.canonical, hub.takeFlights.2.canonical) := by
  have all (matchers : List String) (flights : List Flight) (hub : Hub) :
      matchers.foldl takeFlight (flights.map Flight.canonical, hub.canonical) =
        ((matchers.foldl takeFlight (flights, hub)).1.map Flight.canonical,
          (matchers.foldl takeFlight (flights, hub)).2.canonical) := by
    induction matchers generalizing flights hub with
    | nil => rfl
    | cons matcher matchers ih => rw [List.foldl_cons, takeFlight_canonical, ih, List.foldl_cons]
  have names_eq : hub.canonical.names = hub.names := by simp [names, canonical, Function.comp_def]
  rw [takeFlights_eq, takeFlights_eq, names_eq]
  exact all _ [] hub

end Hub

/-! ### Many batches -/

namespace Drive

variable (flights : List Flight) (scene : Scene)

theorem pollFlight_canonical (discreet : scene.hub.Discreet) (id : Nat) :
    pollFlight (flights.map Flight.canonical) scene.canonical id =
      ((pollFlight flights scene id).1.map Flight.canonical, (pollFlight flights scene id).2.canonical) := by
  have found : (flights.map Flight.canonical).find? (·.id = id) = (flights.find? (·.id = id)).map Flight.canonical :=
    List.find?_map
  unfold pollFlight
  rw [found]
  cases flights.find? (·.id = id) with
  | none => rfl
  | some flight =>
    simp only [Option.map_some, Flight.pollContained_canonical flight scene discreet]
    obtain ⟨later, scene⟩ := flight.pollContained scene
    cases later with
    | none => simp only [Option.map_none, List.filter_map]; rfl
    | some later =>
      simp only [Option.map_some, List.map_map, Prod.mk.injEq, and_true]
      refine List.map_congr_left fun f _ => ?_
      exact (apply_ite Flight.canonical _ _ _).symm

theorem pollReady_canonical (discreet : scene.hub.Discreet) (polled : Nat) (ids : List Nat) :
    pollReady (flights.map Flight.canonical) polled ids scene.canonical =
      ((pollReady flights polled ids scene).1.map Flight.canonical, (pollReady flights polled ids scene).2.1,
        (pollReady flights polled ids scene).2.2.canonical) := by
  induction ids generalizing flights polled scene with
  | nil => rfl
  | cons id ids ih =>
    have later := discreet.of_eq (evaluators_pollFlight flights scene id)
    simp only [pollReady, pollFlight_canonical flights scene discreet, List.length_map, ih _ _ later]

end Drive

/-! ### Flushing -/

namespace Flush

noncomputable def canonical (flush : Flush) : Flush := { flush with flights := flush.flights.map Flight.canonical }

variable (flush : Flush) (scene : Scene)

private theorem pollNext_canonical (flights rest : List Flight) (scene : Scene) (discreet : scene.hub.Discreet) :
    (flights.map Flight.canonical).foldl pollNext (rest.map Flight.canonical, scene.canonical) =
      ((flights.foldl pollNext (rest, scene)).1.map Flight.canonical,
        (flights.foldl pollNext (rest, scene)).2.canonical) := by
  induction flights generalizing rest scene with
  | nil => rfl
  | cons flight flights ih =>
    have later := discreet.of_eq (Flight.evaluators_pollContained flight scene)
    have next : pollNext (rest.map Flight.canonical, scene.canonical) flight.canonical =
        ((pollNext (rest, scene) flight).1.map Flight.canonical, (pollNext (rest, scene) flight).2.canonical) := by
      simp only [pollNext, Flight.pollContained_canonical flight scene discreet, List.map_append, Option.toList_map]
    rw [List.map_cons, List.foldl_cons, next, List.foldl_cons]
    exact ih _ _ later

theorem pollFlights_canonical (discreet : scene.hub.Discreet) (flights : List Flight) :
    pollFlights (flights.map Flight.canonical) scene.canonical =
      ((pollFlights flights scene).1.map Flight.canonical, (pollFlights flights scene).2.canonical) :=
  pollNext_canonical flights [] scene discreet

theorem nextRound_canonical (discreet : scene.hub.Discreet) :
    flush.canonical.nextRound scene.canonical =
      ((flush.nextRound scene).1.canonical, (flush.nextRound scene).2.canonical) := by
  have taken_discreet := discreet.of_eq (Hub.evaluators_takeFlights scene.hub)
  unfold nextRound
  rw [Scene.hub_canonical, Hub.takeFlights_canonical]
  generalize scene.hub.takeFlights = r at taken_discreet ⊢
  obtain ⟨taken, hub⟩ := r
  cases taken with
  | nil => rfl
  | cons flight taken =>
    have polled := pollFlights_canonical ⟨hub, scene.journal⟩ taken_discreet (flight :: taken)
    simp only [List.map_cons] at polled ⊢
    simp only [Scene.canonical] at polled ⊢
    simp only [polled, canonical, List.length_cons, List.length_map]

theorem pass_canonical (discreet : scene.hub.Discreet) :
    flush.canonical.pass scene.canonical = ((flush.pass scene).1.canonical, (flush.pass scene).2.canonical) := by
  obtain ⟨flights, flushed, finished⟩ := flush
  have polled_discreet := discreet.of_eq (evaluators_pollFlights scene flights)
  cases finished with
  | true => rfl
  | false =>
    simp only [pass, canonical, Bool.false_eq_true, if_false, pollFlights_canonical scene discreet]
    generalize pollFlights flights scene = r at polled_discreet ⊢
    obtain ⟨later, scene⟩ := r
    cases later with
    | nil => exact nextRound_canonical ⟨[], flushed, false⟩ scene polled_discreet
    | cons flight later => rfl

@[simp] theorem awake_canonical (now : Nat) : flush.canonical.awake now = flush.awake now := by
  simp [awake, canonical, Function.comp_def]

theorem drop_canonical : flush.canonical.drop scene.canonical = (flush.drop scene).canonical :=
  Flight.foldl_drop_canonical flush.flights scene

end Flush

end Segmentation
