import Segmentation.Proofs.Past.Flight

/-!
# Batches under other numbers

Calls that run at once number their alarms together.  The numbers tell in which order calls are woken, and nothing
else: hubs that are the same but for the numbers of their alarms mirror each other (`Hub.Mirrors`), and so they do after
the same was done with them.  If it is done beside journals with one clock the same is written into both, though they
tell of different things (`Journal.Echoes`); pure evaluators cannot know.  Here this is shown of batches.
-/

namespace Segmentation

/-! ### Hubs that mirror each other -/

/-- What an alarm does, and when. -/
def Alarm.effect (alarm : Alarm) : Nat × Purpose := (alarm.deadline, alarm.purpose)

/-- What is read off alarms but their numbers is the same for alarms with the same effects. -/
theorem Alarm.filterMap_eq_of_effects {α : Type} {alarms alarms' : List Alarm}
    (same : alarms.map effect = alarms'.map effect) {read : Alarm → Option α}
    (blind : ∀ deadline number purpose, read ⟨deadline, number, purpose⟩ = read ⟨deadline, 0, purpose⟩) :
    alarms.filterMap read = alarms'.filterMap read := by
  have read_eq : read = (fun effect => read ⟨effect.1, 0, effect.2⟩) ∘ effect :=
    funext fun alarm => blind alarm.deadline alarm.number alarm.purpose
  rw [read_eq, ← List.filterMap_map, ← List.filterMap_map, same]

theorem Alarm.effects_insert {alarm alarm' : Alarm} (same : alarm.effect = alarm'.effect) :
    {alarms alarms' : List Alarm} → alarms.map effect = alarms'.map effect →
    (alarm.insert alarms).map effect = (alarm'.insert alarms').map effect
  | [], [], _ => congrArg (fun e => [e]) same
  | other :: others, other' :: others', rest => by
    obtain ⟨first, rest⟩ := List.cons_eq_cons.1 rest
    obtain ⟨at_same, -⟩ := Prod.mk.inj same
    obtain ⟨at_first, -⟩ := Prod.mk.inj first
    simp only [insert, at_same, at_first]
    split
    · simp only [List.map_cons, same, first, rest]
    · simp only [List.map_cons, first, effects_insert same rest]

namespace Hub

/-- The hubs are the same but for the numbers of their alarms. -/
def Mirrors (hub hub' : Hub) : Prop :=
  ∃ alarms, hub' = { hub with alarms } ∧ hub.alarms.map Alarm.effect = alarms.map Alarm.effect

theorem Mirrors.refl (hub : Hub) : hub.Mirrors hub := ⟨hub.alarms, rfl, rfl⟩

namespace Mirrors

variable {hub hub' : Hub} (mirrors : hub.Mirrors hub')

include mirrors

theorem deadlines_eq : hub.alarms.map (·.deadline) = hub'.alarms.map (·.deadline) := by
  obtain ⟨alarms, rfl, same⟩ := mirrors
  have deadlines := congrArg (List.map Prod.fst) same
  rwa [List.map_map, List.map_map] at deadlines

theorem answerAlarms_eq : hub.answerAlarms = hub'.answerAlarms := by
  obtain ⟨alarms, rfl, same⟩ := mirrors
  exact Alarm.filterMap_eq_of_effects same fun _ _ _ => rfl

theorem modifyCoalescer (matcher : String) (f : Coalescer Request → Coalescer Request) :
    (hub.modifyCoalescer matcher f).Mirrors (hub'.modifyCoalescer matcher f) := by
  obtain ⟨alarms, rfl, same⟩ := mirrors
  exact ⟨alarms, rfl, same⟩

theorem wakeAll (waiters : List Place) : (hub.wakeAll waiters).Mirrors (hub'.wakeAll waiters) := by
  obtain ⟨alarms, rfl, same⟩ := mirrors
  exact ⟨alarms, rfl, same⟩

theorem openQueue (matcher : String) (evaluate : BatchEvaluator) :
    (hub.openQueue matcher evaluate).Mirrors (hub'.openQueue matcher evaluate) := by
  obtain ⟨alarms, rfl, same⟩ := mirrors
  have known : Hub.queue? { hub with alarms } matcher = hub.queue? matcher := rfl
  unfold Hub.openQueue
  rw [known]
  split <;> exact ⟨alarms, rfl, same⟩

theorem loadKeyed (matcher key : String) (request : Request) :
    (hub.loadKeyed matcher key request).1 = (hub'.loadKeyed matcher key request).1 ∧
      (hub.loadKeyed matcher key request).2.Mirrors (hub'.loadKeyed matcher key request).2 := by
  obtain ⟨alarms, rfl, same⟩ := mirrors
  exact ⟨rfl, alarms, rfl, same⟩

theorem state_eq (load : Load) : hub.state load = hub'.state load := by
  obtain ⟨alarms, rfl, -⟩ := mirrors
  rfl

theorem resolve (load : Load) (value : Bool) :
    (hub.resolve load value).1 = (hub'.resolve load value).1 ∧
      (hub.resolve load value).2.Mirrors (hub'.resolve load value).2 := by
  have state_eq := mirrors.state_eq load
  obtain ⟨alarms, rfl, same⟩ := mirrors
  unfold Hub.resolve
  rw [← state_eq]
  split <;> exact ⟨rfl, alarms, rfl, same⟩

theorem retain (load : Load) : (hub.retain load).Mirrors (hub'.retain load) := mirrors.modifyCoalescer _ _

theorem await (load : Load) (waiter : Place) : (hub.await load waiter).Mirrors (hub'.await load waiter) :=
  mirrors.modifyCoalescer _ _

theorem keep (load : Load) : (hub.keep load).Mirrors (hub'.keep load) := by
  obtain ⟨alarms, rfl, same⟩ := mirrors
  exact ⟨alarms, rfl, same⟩

theorem release (load : Load) : (hub.release load).Mirrors (hub'.release load) := by
  have state_eq := mirrors.state_eq load
  have released_eq := (mirrors.modifyCoalescer load.matcher (·.release load.ticket)).state_eq load
  obtain ⟨alarms, rfl, same⟩ := mirrors
  unfold Hub.release
  simp only [← state_eq, ← released_eq]
  split <;> exact ⟨alarms, rfl, same⟩

theorem releaseAll (loads : List Load) : (hub.releaseAll loads).Mirrors (hub'.releaseAll loads) := by
  unfold Hub.releaseAll
  induction loads generalizing hub hub' with
  | nil => exact mirrors
  | cons load loads ih => exact ih (mirrors.release load)

theorem resolveAll (loads : List Load) (value : Bool) :
    (hub.resolveAll loads value).1 = (hub'.resolveAll loads value).1 ∧
      (hub.resolveAll loads value).2.Mirrors (hub'.resolveAll loads value).2 := by
  unfold Hub.resolveAll
  generalize 0 = count
  induction loads generalizing hub hub' count with
  | nil => exact ⟨rfl, mirrors⟩
  | cons load loads ih =>
    obtain ⟨first_eq, later⟩ := mirrors.resolve load value
    simp only [List.foldl_cons, first_eq]
    exact ih later _

theorem takeFlights :
    hub.takeFlights.1 = hub'.takeFlights.1 ∧ hub.takeFlights.2.Mirrors hub'.takeFlights.2 := by
  have all (matchers : List String) (flights : List Flight) {hub hub' : Hub} (mirrors : hub.Mirrors hub') :
      (matchers.foldl takeFlight (flights, hub)).1 = (matchers.foldl takeFlight (flights, hub')).1 ∧
        (matchers.foldl takeFlight (flights, hub)).2.Mirrors (matchers.foldl takeFlight (flights, hub')).2 := by
    induction matchers generalizing flights hub hub' with
    | nil => exact ⟨rfl, mirrors⟩
    | cons matcher matchers ih =>
      obtain ⟨alarms, rfl, same⟩ := mirrors
      have coalescer_eq : Hub.coalescer { hub with alarms } matcher = hub.coalescer matcher := rfl
      simp only [List.foldl_cons, takeFlight, coalescer_eq]
      cases (hub.coalescer matcher).takeBatch with
      | none => exact ih flights ⟨alarms, rfl, same⟩
      | some taken => exact ih _ ⟨alarms, rfl, same⟩
  have names_eq : hub'.names = hub.names := by
    obtain ⟨alarms, rfl, -⟩ := mirrors
    rfl
  rw [takeFlights_eq, takeFlights_eq, names_eq]
  exact all _ [] mirrors

/-! Alarms that go off. -/

theorem takeDue (now : Nat) :
    (hub.takeDue now).1.map Alarm.effect = (hub'.takeDue now).1.map Alarm.effect ∧
      (hub.takeDue now).2.Mirrors (hub'.takeDue now).2 := by
  obtain ⟨alarms, rfl, same⟩ := mirrors
  have filtered (keeps : Nat × Purpose → Bool) : (hub.alarms.filter (keeps ∘ Alarm.effect)).map Alarm.effect =
      (alarms.filter (keeps ∘ Alarm.effect)).map Alarm.effect := by
    rw [← List.filter_map, ← List.filter_map, same]
  exact ⟨filtered fun effect => effect.1 ≤ now, _, rfl, filtered fun effect => now < effect.1⟩

theorem goOff (purpose : Purpose) : (hub.goOff purpose).Mirrors (hub'.goOff purpose) := by
  cases purpose with
  | wake waiter => exact mirrors.wakeAll _
  | resumeBatch flight => exact mirrors
  | answer load value => exact (mirrors.resolve load value).2.release load

theorem advance (now : Nat) : (hub.advance now).Mirrors (hub'.advance now) := by
  obtain ⟨due_eq, later⟩ := mirrors.takeDue now
  have read (due : List Alarm) (hub : Hub) : due.foldl (fun hub alarm => hub.goOff alarm.purpose) hub =
      (due.map Alarm.effect).foldl (fun hub effect => hub.goOff effect.2) hub := by
    rw [List.foldl_map]
    rfl
  unfold Hub.advance
  dsimp only
  rw [read, read, due_eq]
  generalize (hub'.takeDue now).1.map Alarm.effect = effects, (hub.takeDue now).2 = h, (hub'.takeDue now).2 = h'
    at later
  induction effects generalizing h h' with
  | nil => exact later
  | cons effect effects ih => exact ih _ _ (later.goOff effect.2)

end Mirrors

end Hub

/-! ### Journals that echo each other -/

namespace Journal

/-- Journals with one clock to which the same entries were added at one instant, since they were the given ones. -/
structure Echoes (p q j k : Journal) : Prop where
  stands : j.now = p.now
  now : j.now = k.now
  added : ∃ added, j.entries = p.entries ++ added ∧ k.entries = q.entries ++ added

variable {p q j k : Journal}

theorem Echoes.since_now (now : p.now = q.now) : Echoes p q p q :=
  ⟨rfl, now, [], (List.append_nil _).symm, (List.append_nil _).symm⟩

namespace Echoes

variable (echoes : Echoes p q j k)

include echoes

theorem recordAll (events : List Event) : Echoes p q (j.recordAll events) (k.recordAll events) := by
  obtain ⟨added, entries, entries'⟩ := echoes.added
  refine ⟨echoes.stands, echoes.now, added ++ events.map (k.now, ·), ?_, ?_⟩
  · rw [Journal.recordAll, entries, List.append_assoc, echoes.now]
  · rw [Journal.recordAll, entries', List.append_assoc]

theorem record (event : Event) : Echoes p q (j.record event) (k.record event) := echoes.recordAll [event]

theorem notice (notice : Notice) : Echoes p q (j.notice notice) (k.notice notice) := echoes.record _

theorem countAlarm : Echoes p q j.countAlarm k.countAlarm :=
  ⟨echoes.stands, echoes.now, echoes.added⟩

end Echoes

end Journal

/-- Hubs that mirror each other, with journals that echo each other. -/
structure Scene.Mirrors (p q : Journal) (s t : Scene) : Prop where
  hub : s.hub.Mirrors t.hub
  journal : p.Echoes q s.journal t.journal

/-- The same result in scenes that mirror each other. -/
structure Scene.Reflects {α : Type} (p q : Journal) (r r' : α × Scene) : Prop where
  result : r.1 = r'.1
  mirrors : r.2.Mirrors p q r'.2

open Scene (Reflects)

variable {p q : Journal} {s t : Scene}

theorem Scene.Reflects.cases {α : Type} {r r' : α × Scene} (reflects : Reflects p q r r') :
    ∃ a s t, r = (a, s) ∧ r' = (a, t) ∧ Scene.Mirrors p q s t := by
  obtain ⟨a, s⟩ := r
  obtain ⟨b, t⟩ := r'
  obtain ⟨rfl, mirrors⟩ := reflects
  exact ⟨a, s, t, rfl, rfl, mirrors⟩

namespace Scene.Mirrors

variable (mirrors : s.Mirrors p q t)

include mirrors

theorem setAlarm (deadline : Nat) (purpose : Purpose) :
    Scene.Mirrors p q (s.setAlarm deadline purpose) (t.setAlarm deadline purpose) := by
  refine ⟨?_, mirrors.journal.countAlarm⟩
  obtain ⟨alarms, hub_eq, same⟩ := mirrors.hub
  have set_here : (Alarm.mk deadline s.journal.alarms purpose).effect =
      (Alarm.mk deadline t.journal.alarms purpose).effect := rfl
  unfold Scene.setAlarm
  rw [hub_eq]
  exact ⟨_, rfl, Alarm.effects_insert set_here same⟩

theorem answerAt (deadline : Nat) (load : Load) (value : Bool) :
    Scene.Mirrors p q (s.answerAt deadline load value) (t.answerAt deadline load value) :=
  setAlarm (s := ⟨s.hub.retain load, s.journal⟩) (t := ⟨t.hub.retain load, t.journal⟩)
    ⟨mirrors.hub.retain load, mirrors.journal⟩ deadline _

end Scene.Mirrors

/-! ### Batches -/

theorem BatchTask.run_reflects (mirrors : s.Mirrors p q t) (matcher : String) (tickets : List Nat)
    (task : BatchTask) : Reflects p q (task.run matcher tickets s) (task.run matcher tickets t) := by
  induction task generalizing s t with
  | done ending => exact ⟨rfl, mirrors⟩
  | sleep ticks rest ih =>
    cases ticks with
    | zero => exact ih mirrors
    | succ ticks => exact ⟨by simp only [run, mirrors.journal.now], mirrors⟩
  | resolve entry value rest ih =>
    unfold run
    cases entryLoad? matcher tickets entry with
    | none => exact ih mirrors
    | some load => exact ih ⟨(mirrors.hub.resolve load value).2, mirrors.journal⟩
  | resolveLater ticks entry value rest ih =>
    unfold run
    cases entryLoad? matcher tickets entry with
    | none => exact ih mirrors
    | some load =>
      dsimp only
      rw [mirrors.journal.now]
      exact ih (mirrors.answerAt _ load value)
  | keep entry rest ih =>
    unfold run
    cases entryLoad? matcher tickets entry with
    | none => exact ih mirrors
    | some load => exact ih ⟨mirrors.hub.keep load, mirrors.journal⟩
  | loadInto peer request rest ih =>
    obtain ⟨hub, j⟩ := s
    obtain ⟨hub', k⟩ := t
    obtain ⟨⟨alarms, rfl, same⟩, journals⟩ := mirrors
    exact ih ⟨⟨alarms, rfl, same⟩, journals⟩

namespace Flight

variable (flight : Flight)

theorem noteEnd_reflects {r r' : FlightProgress × Scene} (reflects : Reflects p q r r') :
    Reflects p q (flight.noteEnd r) (flight.noteEnd r') := by
  obtain ⟨progress, s, t, rfl, rfl, mirrors⟩ := reflects.cases
  cases progress with
  | asleep deadline rest => exact ⟨rfl, mirrors⟩
  | ended ending => exact ⟨rfl, mirrors.hub, mirrors.journal.record _⟩

variable (mirrors : s.Mirrors p q t) (pure : s.hub.Pure)

include mirrors

theorem landContained_mirrors (ending : Ending Unit) :
    Scene.Mirrors p q (flight.landContained ending s) (flight.landContained ending t) := by
  unfold landContained
  cases ending.contained with
  | ok value => exact ⟨mirrors.hub.releaseAll _, mirrors.journal⟩
  | error cause =>
    obtain ⟨pending_eq, hubs⟩ := mirrors.hub.resolveAll flight.loads false
    dsimp only
    rw [pending_eq]
    exact ⟨hubs.releaseAll _, mirrors.journal.notice _⟩

theorem announce_mirrors : Scene.Mirrors p q (flight.announce s) (flight.announce t) := by
  unfold announce
  cases flight.stage with
  | boarding => exact ⟨mirrors.hub, mirrors.journal.notice _⟩
  | asleep deadline rest => exact mirrors

include pure

theorem board_reflects : Reflects p q (flight.board s) (flight.board t) := by
  have queue_eq : t.hub.queue? flight.matcher = s.hub.queue? flight.matcher := by
    obtain ⟨alarms, hub_eq, -⟩ := mirrors.hub
    rw [hub_eq]
    rfl
  unfold board
  rw [queue_eq]
  cases here : s.hub.queue? flight.matcher with
  | none => exact ⟨rfl, mirrors⟩
  | some queue =>
    have called := mirrors.journal.record (.batchInvoked flight.matcher
      ((queue.coalescer.requests flight.tickets).map (·.args)))
    dsimp only
    rw [pure.queue? here _ (t.journal.invocations flight.matcher)]
    cases queue.evaluate (t.journal.invocations flight.matcher) (queue.coalescer.requests flight.tickets) with
    | panics payload => exact ⟨rfl, mirrors.hub, called⟩
    | starts task =>
      have boarded : Scene.Mirrors p q ⟨s.hub, s.journal.record _⟩ ⟨t.hub, t.journal.record _⟩ :=
        ⟨mirrors.hub, called⟩
      exact BatchTask.run_reflects boarded _ _ task

theorem advance_reflects : Reflects p q (flight.advance s) (flight.advance t) := by
  unfold advance
  refine flight.noteEnd_reflects ?_
  cases flight.stage with
  | boarding => exact flight.board_reflects mirrors pure
  | asleep deadline rest => exact BatchTask.run_reflects mirrors _ _ rest

theorem pollContained_reflects : Reflects p q (flight.pollContained s) (flight.pollContained t) := by
  have announced := flight.announce_mirrors mirrors
  have advanced := flight.advance_reflects announced (by rwa [hub_announce])
  unfold pollContained
  rw [mirrors.journal.now]
  cases flight.isDue t.journal.now with
  | false => exact ⟨rfl, mirrors⟩
  | true =>
    obtain ⟨progress, s, t, eq, eq', later⟩ := advanced.cases
    simp only [eq, eq', Bool.not_true, Bool.false_eq_true, if_false]
    cases progress with
    | asleep deadline rest => exact ⟨rfl, later.setAlarm deadline _⟩
    | ended ending => exact ⟨rfl, flight.landContained_mirrors later ending⟩

end Flight

namespace Drive

variable (mirrors : s.Mirrors p q t) (pure : s.hub.Pure)

include mirrors pure

theorem pollFlight_reflects (flights : List Flight) (id : Nat) :
    Reflects p q (pollFlight flights s id) (pollFlight flights t id) := by
  unfold pollFlight
  cases flights.find? (·.id = id) with
  | none => exact ⟨rfl, mirrors⟩
  | some flight =>
    obtain ⟨progress, s, t, eq, eq', polled⟩ := (flight.pollContained_reflects mirrors pure).cases
    simp only [eq, eq']
    cases progress <;> exact ⟨rfl, polled⟩

theorem pollReady_reflects (flights : List Flight) (polled : Nat) (ready : List Nat) :
    let r := pollReady flights polled ready s
    let r' := pollReady flights polled ready t
    r.1 = r'.1 ∧ r.2.1 = r'.2.1 ∧ r.2.2.Mirrors p q r'.2.2 := by
  induction ready generalizing flights polled s t with
  | nil => exact ⟨rfl, rfl, mirrors⟩
  | cons id ready ih =>
    have pure_later := pure.of_eq (evaluators_pollFlight flights s id)
    obtain ⟨later, s, t, eq, eq', mirrors⟩ := (pollFlight_reflects mirrors pure flights id).cases
    rw [eq] at pure_later
    obtain ⟨flights_eq, all_eq, scenes⟩ := ih mirrors pure_later later
      (if later.length < flights.length then 0 else polled + 1)
    simp only [pollReady, eq, eq', flights_eq, all_eq]
    exact ⟨trivial, trivial, scenes⟩

end Drive

/-! ### Flushing -/

namespace Flush

variable (mirrors : s.Mirrors p q t) (pure : s.hub.Pure)

include mirrors pure

theorem pollFlights_reflects (flights : List Flight) :
    Reflects p q (pollFlights flights s) (pollFlights flights t) := by
  unfold pollFlights
  generalize [] = sofar
  induction flights generalizing sofar s t with
  | nil => exact ⟨rfl, mirrors⟩
  | cons flight flights ih =>
    have pure_later := pure.of_eq (flight.evaluators_pollContained s)
    obtain ⟨progress, s, t, eq, eq', mirrors⟩ := (flight.pollContained_reflects mirrors pure).cases
    rw [eq] at pure_later
    simp only [List.foldl_cons, eq, eq']
    exact ih mirrors pure_later _

theorem nextRound_reflects (flush : Flush) : Reflects p q (flush.nextRound s) (flush.nextRound t) := by
  have pure_taken := pure.of_eq (Hub.evaluators_takeFlights s.hub)
  obtain ⟨taken_eq, hubs⟩ := mirrors.hub.takeFlights
  unfold nextRound
  generalize s.hub.takeFlights = taken, t.hub.takeFlights = taken' at pure_taken taken_eq hubs
  obtain ⟨flights, hub⟩ := taken
  obtain ⟨flights', hub'⟩ := taken'
  obtain rfl : flights = flights' := taken_eq
  cases flights with
  | nil => exact ⟨rfl, hubs, mirrors.journal⟩
  | cons flight taken =>
    obtain ⟨flights, s, t, eq, eq', mirrors⟩ :=
      (pollFlights_reflects (s := ⟨hub, s.journal⟩) (t := ⟨hub', t.journal⟩) ⟨hubs, mirrors.journal⟩ pure_taken
        (flight :: taken)).cases
    simp only [eq, eq']
    exact ⟨rfl, mirrors⟩

theorem pass_reflects (flush : Flush) : Reflects p q (flush.pass s) (flush.pass t) := by
  have pure_later := pure.of_eq (evaluators_pollFlights s flush.flights)
  unfold pass
  cases flush.finished with
  | true => exact ⟨rfl, mirrors⟩
  | false =>
    obtain ⟨flights, s, t, eq, eq', mirrors⟩ := (pollFlights_reflects mirrors pure flush.flights).cases
    rw [eq] at pure_later
    simp only [eq, eq', Bool.false_eq_true, if_false]
    cases flights with
    | nil => exact nextRound_reflects mirrors pure_later _
    | cons flight flights => exact ⟨rfl, mirrors⟩

end Flush

end Segmentation
