import Segmentation.Proofs.Chronicle

/-!
# Batches beside twin journals

Nothing that happens reads more of the journal than the clock, the number of alarms, and how many calls, spans and
contexts there were.  Journals that agree in these are alike (`Journal.Alike`), whatever else they tell.  If the same is
done beside two of them the same is written into both (`Journal.Twins`), here as far as batches are concerned.
-/

namespace Segmentation

/-! ### Twin journals -/

namespace Journal

/-- Journals of which whoever acts reads the same. -/
structure Alike (j k : Journal) : Prop where
  now : j.now = k.now
  alarms : j.alarms = k.alarms
  invocations : ∀ matcher, j.invocations matcher = k.invocations matcher
  spanCount : j.spanCount = k.spanCount
  contextCount : j.contextCount = k.contextCount

/-- Journals with one clock to which the same entries were added, since they were the given ones. -/
structure Twins (p q j k : Journal) : Prop where
  now : j.now = k.now
  alarms : j.alarms = k.alarms
  added : ∃ added, j.entries = p.entries ++ added ∧ k.entries = q.entries ++ added

variable {p q j k : Journal}

theorem Alike.twins (alike : p.Alike q) : Twins p q p q :=
  ⟨alike.now, alike.alarms, [], (List.append_nil _).symm, (List.append_nil _).symm⟩

namespace Twins

variable (twins : Twins p q j k)

include twins

theorem alike (alike : p.Alike q) : j.Alike k := by
  obtain ⟨added, entries, entries'⟩ := twins.added
  have events_eq : j.events = p.events ++ added.map (·.2) := by rw [events, entries, List.map_append, events]
  have events_eq' : k.events = q.events ++ added.map (·.2) := by rw [events, entries', List.map_append, events]
  have count (counts : Event → Bool) (same : p.events.countP counts = q.events.countP counts) :
      j.events.countP counts = k.events.countP counts := by
    rw [events_eq, events_eq', List.countP_append, List.countP_append, same]
  exact ⟨twins.now, twins.alarms, fun matcher => count _ (alike.invocations matcher), count _ alike.spanCount,
    count _ alike.contextCount⟩

theorem recordAll (events : List Event) : Twins p q (j.recordAll events) (k.recordAll events) := by
  obtain ⟨added, entries, entries'⟩ := twins.added
  refine ⟨twins.now, twins.alarms, added ++ events.map (k.now, ·), ?_, ?_⟩
  · rw [Journal.recordAll, entries, List.append_assoc, twins.now]
  · rw [Journal.recordAll, entries', List.append_assoc]

theorem record (event : Event) : Twins p q (j.record event) (k.record event) := twins.recordAll [event]

theorem notice (notice : Notice) : Twins p q (j.notice notice) (k.notice notice) := twins.record _

theorem countAlarm : Twins p q j.countAlarm k.countAlarm :=
  ⟨twins.now, congrArg (· + 1) twins.alarms, twins.added⟩

theorem moveTo (now : Nat) : Twins p q (j.moveTo now) (k.moveTo now) := ⟨rfl, twins.alarms, twins.added⟩

end Twins

end Journal

/-- Scenes with one hub and twin journals. -/
structure Scene.Twins (p q : Journal) (s t : Scene) : Prop where
  hub : s.hub = t.hub
  journal : p.Twins q s.journal t.journal

/-- The same result in twin scenes. -/
structure Scene.Agree {α : Type} (p q : Journal) (r r' : α × Scene) : Prop where
  result : r.1 = r'.1
  twins : r.2.Twins p q r'.2

/-- The same result with twin journals. -/
structure Journal.Agree {α : Type} (p q : Journal) (r r' : α × Journal) : Prop where
  result : r.1 = r'.1
  twins : p.Twins q r.2 r'.2

namespace Scene

variable {p q : Journal}

theorem Twins.cases {s t : Scene} (twins : s.Twins p q t) :
    ∃ hub j k, s = ⟨hub, j⟩ ∧ t = ⟨hub, k⟩ ∧ p.Twins q j k := by
  obtain ⟨hub, j⟩ := s
  obtain ⟨hub', k⟩ := t
  obtain ⟨rfl, journals⟩ := twins
  exact ⟨hub, j, k, rfl, rfl, journals⟩

theorem Agree.cases {α : Type} {r r' : α × Scene} (agree : Agree p q r r') :
    ∃ a hub j k, r = (a, ⟨hub, j⟩) ∧ r' = (a, ⟨hub, k⟩) ∧ p.Twins q j k := by
  obtain ⟨a, s⟩ := r
  obtain ⟨b, t⟩ := r'
  obtain ⟨rfl, scenes⟩ := agree
  obtain ⟨hub, j, k, rfl, rfl, twins⟩ := scenes.cases
  exact ⟨a, hub, j, k, rfl, rfl, twins⟩

end Scene

open Scene (Agree)

variable {p q j k : Journal} (hub : Hub) (twins : p.Twins q j k)

include twins

theorem Scene.setAlarm_twins (deadline : Nat) (purpose : Purpose) :
    Scene.Twins p q (setAlarm ⟨hub, j⟩ deadline purpose) (setAlarm ⟨hub, k⟩ deadline purpose) := by
  refine ⟨?_, twins.countAlarm⟩
  simp only [setAlarm, twins.alarms]

theorem Scene.answerAt_twins (deadline : Nat) (load : Load) (value : Bool) :
    Scene.Twins p q (answerAt ⟨hub, j⟩ deadline load value) (answerAt ⟨hub, k⟩ deadline load value) :=
  setAlarm_twins (hub.retain load) twins deadline (.answer load value)

theorem BatchTask.run_agree (matcher : String) (tickets : List Nat) (task : BatchTask) :
    Agree p q (task.run matcher tickets ⟨hub, j⟩) (task.run matcher tickets ⟨hub, k⟩) := by
  induction task generalizing hub j k with
  | done ending => exact ⟨rfl, rfl, twins⟩
  | sleep ticks rest ih =>
    cases ticks with
    | zero => exact ih hub twins
    | succ ticks => exact ⟨by simp only [run, twins.now], rfl, twins⟩
  | resolve entry value rest ih =>
    unfold run
    cases entryLoad? matcher tickets entry <;> exact ih _ twins
  | resolveLater ticks entry value rest ih =>
    unfold run
    cases entryLoad? matcher tickets entry with
    | none => exact ih hub twins
    | some load =>
      obtain ⟨hub, j, k, eq, eq', twins'⟩ := (Scene.answerAt_twins hub twins (k.now + ticks) load value).cases
      simp only [twins.now, eq, eq']
      exact ih hub twins'
  | keep entry rest ih =>
    unfold run
    cases entryLoad? matcher tickets entry <;> exact ih _ twins
  | loadInto peer request rest ih => exact ih _ twins

/-! ### Batches -/

namespace Flight

variable (flight : Flight)

omit twins in
theorem noteEnd_agree {r r' : FlightProgress × Scene} (agree : Agree p q r r') :
    Agree p q (flight.noteEnd r) (flight.noteEnd r') := by
  obtain ⟨progress, hub, j, k, rfl, rfl, twins⟩ := agree.cases
  cases progress with
  | asleep deadline rest => exact ⟨rfl, rfl, twins⟩
  | ended ending => exact ⟨rfl, rfl, twins.record _⟩

theorem board_agree (alike : p.Alike q) : Agree p q (flight.board ⟨hub, j⟩) (flight.board ⟨hub, k⟩) := by
  unfold board
  dsimp only
  cases hub.queue? flight.matcher with
  | none => exact ⟨rfl, rfl, twins⟩
  | some queue =>
    have count := (twins.alike alike).invocations flight.matcher
    have called := twins.record (.batchInvoked flight.matcher
      ((queue.coalescer.requests flight.tickets).map (·.args)))
    dsimp only
    rw [count]
    cases queue.evaluate (k.invocations flight.matcher) (queue.coalescer.requests flight.tickets) with
    | panics payload => exact ⟨rfl, rfl, called⟩
    | starts task => exact BatchTask.run_agree hub called _ _ task

theorem advance_agree (alike : p.Alike q) : Agree p q (flight.advance ⟨hub, j⟩) (flight.advance ⟨hub, k⟩) := by
  unfold advance
  refine flight.noteEnd_agree ?_
  cases flight.stage with
  | boarding => exact flight.board_agree hub twins alike
  | asleep deadline rest => exact BatchTask.run_agree hub twins _ _ rest

theorem landContained_twins (ending : Ending Unit) :
    Scene.Twins p q (flight.landContained ending ⟨hub, j⟩) (flight.landContained ending ⟨hub, k⟩) := by
  unfold landContained
  cases ending.contained with
  | ok value => exact ⟨rfl, twins⟩
  | error cause => exact ⟨rfl, twins.notice _⟩

theorem announce_twins : Scene.Twins p q (flight.announce ⟨hub, j⟩) (flight.announce ⟨hub, k⟩) := by
  unfold announce
  cases flight.stage with
  | boarding => exact ⟨rfl, twins.notice _⟩
  | asleep deadline rest => exact ⟨rfl, twins⟩

theorem pollContained_agree (alike : p.Alike q) :
    Agree p q (flight.pollContained ⟨hub, j⟩) (flight.pollContained ⟨hub, k⟩) := by
  unfold pollContained
  dsimp only
  rw [twins.now]
  cases flight.isDue k.now with
  | false => exact ⟨rfl, rfl, twins⟩
  | true =>
    obtain ⟨hub, j, k, eq, eq', announced⟩ := (flight.announce_twins hub twins).cases
    obtain ⟨progress, hub, j, k, eq, eq', advanced⟩ := (flight.advance_agree hub announced alike).cases
    simp only [*, Bool.not_true, Bool.false_eq_true, if_false]
    cases progress with
    | asleep deadline rest => exact ⟨rfl, Scene.setAlarm_twins hub advanced deadline _⟩
    | ended ending => exact ⟨rfl, flight.landContained_twins hub advanced ending⟩

theorem drop_twins : Scene.Twins p q (flight.drop ⟨hub, j⟩) (flight.drop ⟨hub, k⟩) := by
  unfold drop
  cases flight.isAsleep with
  | false => exact ⟨rfl, twins⟩
  | true => exact ⟨rfl, twins.record _⟩

end Flight

omit twins in
/-- Flights that are dropped one after the other. -/
theorem Flight.foldl_drop_twins (flights : List Flight) {s t : Scene} (twins : s.Twins p q t) :
    Scene.Twins p q (flights.foldl (fun scene flight => flight.drop scene) s)
      (flights.foldl (fun scene flight => flight.drop scene) t) := by
  induction flights generalizing s t with
  | nil => exact twins
  | cons flight flights ih =>
    obtain ⟨hub, j, k, rfl, rfl, journals⟩ := twins.cases
    exact ih (flight.drop_twins hub journals)

namespace Drive

variable (flights : List Flight)

theorem pollFlight_agree (alike : p.Alike q) (id : Nat) :
    Agree p q (pollFlight flights ⟨hub, j⟩ id) (pollFlight flights ⟨hub, k⟩ id) := by
  unfold pollFlight
  cases flights.find? (·.id = id) with
  | none => exact ⟨rfl, rfl, twins⟩
  | some flight =>
    obtain ⟨progress, hub, j, k, eq, eq', polled⟩ := (flight.pollContained_agree hub twins alike).cases
    simp only [eq, eq']
    cases progress <;> exact ⟨rfl, rfl, polled⟩

theorem pollReady_agree (alike : p.Alike q) (polled : Nat) (ready : List Nat) :
    let r := pollReady flights polled ready ⟨hub, j⟩
    let r' := pollReady flights polled ready ⟨hub, k⟩
    r.1 = r'.1 ∧ r.2.1 = r'.2.1 ∧ r.2.2.Twins p q r'.2.2 := by
  induction ready generalizing flights polled hub j k with
  | nil => exact ⟨rfl, rfl, rfl, twins⟩
  | cons id ready ih =>
    obtain ⟨later, hub, j, k, eq, eq', twins⟩ := (pollFlight_agree hub twins flights alike id).cases
    obtain ⟨flights_eq, all_eq, scenes⟩ := ih hub twins later (if later.length < flights.length then 0 else polled + 1)
    simp only [pollReady, eq, eq', flights_eq, all_eq]
    exact ⟨trivial, trivial, scenes⟩

end Drive

/-! ### Flushing -/

namespace Flush

theorem pollFlights_agree (alike : p.Alike q) (flights : List Flight) :
    Agree p q (pollFlights flights ⟨hub, j⟩) (pollFlights flights ⟨hub, k⟩) := by
  unfold pollFlights
  generalize [] = sofar
  induction flights generalizing sofar hub j k with
  | nil => exact ⟨rfl, rfl, twins⟩
  | cons flight flights ih =>
    obtain ⟨progress, hub, j, k, eq, eq', twins⟩ := (flight.pollContained_agree hub twins alike).cases
    simp only [List.foldl_cons, eq, eq']
    exact ih hub twins _

theorem nextRound_agree (alike : p.Alike q) (flush : Flush) :
    Agree p q (flush.nextRound ⟨hub, j⟩) (flush.nextRound ⟨hub, k⟩) := by
  unfold nextRound
  dsimp only
  obtain ⟨taken, hub⟩ := hub.takeFlights
  cases taken with
  | nil => exact ⟨rfl, rfl, twins⟩
  | cons flight taken =>
    obtain ⟨flights, hub, j, k, eq, eq', twins⟩ := (pollFlights_agree hub twins alike (flight :: taken)).cases
    simp only [eq, eq']
    exact ⟨rfl, rfl, twins⟩

theorem pass_agree (alike : p.Alike q) (flush : Flush) : Agree p q (flush.pass ⟨hub, j⟩) (flush.pass ⟨hub, k⟩) := by
  unfold pass
  cases flush.finished with
  | true => exact ⟨rfl, rfl, twins⟩
  | false =>
    obtain ⟨flights, hub, j, k, eq, eq', twins⟩ := (pollFlights_agree hub twins alike flush.flights).cases
    simp only [eq, eq', Bool.false_eq_true, if_false]
    cases flights with
    | nil => exact nextRound_agree hub twins alike _
    | cons flight flights => exact ⟨rfl, rfl, twins⟩

end Flush

end Segmentation
