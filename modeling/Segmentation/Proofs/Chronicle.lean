import Segmentation.Drive.Run
import Segmentation.Proofs.Lockstep

/-!
# What happens to batches

`Drive.happens` tells what happens to the batches of a drive in one pass, in order: which evaluators are called with
which requests, which loads are given answers, and which batches land.  An alarm may give an answer, too
(`Hub.happensBy`).  `Drive.Run` is a run of a drive, pass by pass and instant by instant, with the chronicle of what
happened; every run on the clock is one (`Drive.Run.of_run`).

The calls of evaluators are noted in the journal, too (`Drive.notes_pass`).  What is written in between two instants is
written at the first of them (`Journal.Adds`).
-/

namespace Segmentation

/-! ### Writing -/

namespace Journal

/-- The events were written after those of the first journal. -/
def Writes (before : Journal) (written : List Event) (later : Journal) : Prop :=
  later.events = before.events ++ written

theorem writes_nil {before later : Journal} (same : later.events = before.events) : before.Writes [] later := by
  rw [Writes, same, List.append_nil]

theorem Writes.trans {a b c : Journal} {first second : List Event} (ab : a.Writes first b) (bc : b.Writes second c) :
    a.Writes (first ++ second) c := by
  unfold Writes at *
  rw [bc, ab, List.append_assoc]

theorem writes_record (journal : Journal) (event : Event) : journal.Writes [event] (journal.record event) := by
  simp [Writes, events, record]

theorem writes_recordAll (journal : Journal) (events : List Event) :
    journal.Writes events (journal.recordAll events) := by
  simp [Writes, Journal.events, recordAll, Function.comp_def]

theorem writes_notice (journal : Journal) (notice : Notice) :
    journal.Writes [.noticed notice] (journal.notice notice) := writes_record journal _

/-- The events were written after those of the first journal, all of them at its instant. -/
def Dates (before : Journal) (written : List Event) (later : Journal) : Prop :=
  later.now = before.now ∧ later.entries = before.entries ++ written.map (before.now, ·)

/-- Only such events were written, all of them at the instant of the first journal. -/
def Adds (P : Event → Prop) (before later : Journal) : Prop :=
  ∃ written, before.Dates written later ∧ ∀ event ∈ written, P event

theorem Dates.writes {before later : Journal} {written : List Event} (dates : before.Dates written later) :
    before.Writes written later := by
  simp [Writes, events, dates.2, Function.comp_def]

/-- The instant of what was written, if it is known to be written at one. -/
theorem Adds.dates {P : Event → Prop} {before later : Journal} (adds : before.Adds P later) {written : List Event}
    (writes : before.Writes written later) : before.Dates written later := by
  obtain ⟨other, dates, -⟩ := adds
  have same : before.events ++ other = before.events ++ written := dates.writes.symm.trans writes
  rwa [← List.append_cancel_left same]

namespace Adds

variable {P : Event → Prop}

theorem of_eq {before later : Journal} (now : later.now = before.now) (entries : later.entries = before.entries) :
    before.Adds P later :=
  ⟨[], ⟨now, entries.trans (List.append_nil _).symm⟩, List.forall_mem_nil _⟩

theorem refl (journal : Journal) : journal.Adds P journal := .of_eq rfl rfl

theorem trans {a b c : Journal} (ab : a.Adds P b) (bc : b.Adds P c) : a.Adds P c := by
  obtain ⟨first, ⟨now, entries⟩, all⟩ := ab
  obtain ⟨second, ⟨now', entries'⟩, all'⟩ := bc
  refine ⟨first ++ second, ⟨now'.trans now, ?_⟩, fun event mem => ?_⟩
  · rw [entries', entries, now, List.map_append, List.append_assoc]
  · exact (List.mem_append.1 mem).elim (all event) (all' event)

theorem record (journal : Journal) {event : Event} (allowed : P event) : journal.Adds P (journal.record event) :=
  ⟨[event], ⟨rfl, rfl⟩, List.forall_mem_singleton.2 allowed⟩

theorem recordAll (journal : Journal) {events : List Event} (allowed : ∀ event ∈ events, P event) :
    journal.Adds P (journal.recordAll events) :=
  ⟨events, ⟨rfl, rfl⟩, allowed⟩

theorem mono {Q : Event → Prop} {before later : Journal} (adds : before.Adds P later) (all : ∀ event, P event → Q event) :
    before.Adds Q later := by
  obtain ⟨written, dates, allowed⟩ := adds
  exact ⟨written, dates, fun event mem => all event (allowed event mem)⟩

theorem now {before later : Journal} (adds : before.Adds P later) : later.now = before.now := by
  obtain ⟨_, dates, -⟩ := adds
  exact dates.1

end Adds

end Journal

/-- What the journal notes of a call of a batched evaluator. -/
def Event.batchCall? : Event → Option (String × List (Option Json))
  | .batchInvoked matcher args => some (matcher, args)
  | _ => none

/-- What is noted while batches go on. -/
def Event.IsBatchNote : Event → Prop
  | .batchInvoked _ _ => True
  | .evaluatorEnded _ => True
  | .noticed (.batchFlushed _ _) => True
  | .noticed (.batchFailed _ _ _ _) => True
  | _ => False

/-! ### Happenings -/

/-- What happens to batches. -/
inductive Happening where
  /-- An evaluator is called with the requests of a batch. -/
  | boarded (flight : Nat) (matcher : String) (requests : List Request)
  /-- A resolver of a load is given an answer, perhaps not the first one. -/
  | given (load : Load) (value : Bool)
  /-- A batch has ended, perhaps with a failure. -/
  | landed (flight : Nat) (loads : List Load) (failed : Bool)

namespace Happening

/-- The batch that an evaluator is called with: its number, its matcher and its requests. -/
def batch? : Happening → Option (Nat × String × List Request)
  | .boarded flight matcher requests => some (flight, matcher, requests)
  | _ => none

/-- The number of a batch that landed. -/
def landing? : Happening → Option Nat
  | .landed flight _ _ => some flight
  | _ => none

end Happening

def Ending.isFailure {α : Type} (ending : Ending α) : Bool :=
  match ending.contained with
  | .ok _ => false
  | .error _ => true

/-- The answers that a batch gives before its next sleep. -/
def BatchTask.given (matcher : String) (tickets : List Nat) : BatchTask → List Happening
  | .done _ => []
  | .sleep 0 rest => rest.given matcher tickets
  | .sleep (_ + 1) _ => []
  | .resolve entry value rest =>
    ((entryLoad? matcher tickets entry).map (.given · value)).toList ++ rest.given matcher tickets
  | .resolveLater _ _ _ rest => rest.given matcher tickets
  | .keep _ rest => rest.given matcher tickets
  | .loadInto _ _ rest => rest.given matcher tickets

namespace Flight

variable (flight : Flight) (scene : Scene)

/-- The call with which a batch starts. -/
def boards : List Happening :=
  match flight.stage, scene.hub.queue? flight.matcher with
  | .boarding, some queue => [.boarded flight.id flight.matcher (queue.coalescer.requests flight.tickets)]
  | _, _ => []

/-- What a batch goes on with. -/
def next : Launch BatchTask :=
  match flight.stage with
  | .asleep _ rest => .starts rest
  | .boarding =>
    match scene.hub.queue? flight.matcher with
    | none => .starts (.done (.value ()))
    | some queue =>
      queue.evaluate (scene.journal.invocations flight.matcher) (queue.coalescer.requests flight.tickets)

/-- The answers that a batch gives when it goes on. -/
def gives : List Happening :=
  match flight.next scene with
  | .panics _ => []
  | .starts task => task.given flight.matcher flight.tickets

/-- The end of a batch, if it has ended. -/
def lands : FlightProgress → List Happening
  | .asleep _ _ => []
  | .ended ending => [.landed flight.id flight.loads ending.isFailure]

/-- What happens to a batch when it is polled. -/
def happens : List Happening :=
  if !flight.isDue scene.journal.now then []
  else flight.boards scene ++ flight.gives scene ++ flight.lands (flight.advance (flight.announce scene)).1

end Flight

namespace Drive

variable {κ : Type} [Client κ]

/-- What happens at the turn of a batch. -/
def turn (flights : List Flight) (scene : Scene) (id : Nat) : List Happening :=
  match flights.find? (·.id = id) with
  | none => []
  | some flight => flight.happens scene

/-- What happens at the turns of the given batches. -/
def turns (flights : List Flight) : List Nat → Scene → List Happening
  | [], _ => []
  | id :: ids, scene =>
    turn flights scene id ++ turns (pollFlight flights scene id).1 ids (pollFlight flights scene id).2

/-- What happens to batches in one pass. -/
def happens (drive : Drive κ) (scene : Scene) : List Happening :=
  let (drive, scene) := drive.pollClient scene
  let (drive, scene) := drive.takeBatches scene
  turns drive.flights drive.ready scene

end Drive

/-- The answers that alarms give when they go off. -/
def Hub.happensBy (hub : Hub) (now : Nat) : List Happening :=
  (hub.takeDue now).1.filterMap fun alarm =>
    match alarm.purpose with
    | .answer load value => some (.given load value)
    | _ => none

namespace Drive

variable {κ : Type} [Client κ]

/-- Runs of a drive from a hub, with what happens to batches.  Between two passes anything may be written into the
journal, and any time may pass. -/
inductive Run (client : κ) (first : Hub) : List Happening → Drive κ → Hub → Prop
  | start : Run client first [] (.start client) first
  | pass {log : List Happening} {drive : Drive κ} {hub : Hub} (run : Run client first log drive hub)
    (journal : Journal) : Run client first (log ++ drive.happens ⟨hub, journal⟩) (drive.pass ⟨hub, journal⟩).1
      (drive.pass ⟨hub, journal⟩).2.hub
  | advance {log : List Happening} {drive : Drive κ} {hub : Hub} (run : Run client first log drive hub) (now : Nat) :
    Run client first (log ++ hub.happensBy now) (drive.advance hub now).1 (drive.advance hub now).2

/-- A drive that is run on the clock makes such a run. -/
theorem Run.of_run (client : κ) (first : Scene) (limit : Option Nat) (moves : Nat) :
    let final := (Machine.run limit moves (Drive.start client, first)).2
    ∃ log, Run client first.hub log final.1 final.2.hub := by
  let kept (s : Drive κ × Scene) : Prop := ∃ log, Run client first.hub log s.1 s.2.hub
  have starts : kept (Drive.start client, first) := ⟨[], .start⟩
  suffices kept (Machine.run limit moves (Drive.start client, first)).2 from this
  refine Machine.run_keeps ?_ ?_ limit moves starts
  · intro s h
    obtain ⟨log, run⟩ := h
    exact ⟨_, run.pass s.2.journal⟩
  · intro now s h
    obtain ⟨log, run⟩ := h
    exact ⟨_, run.advance now⟩

end Drive

/-! ### What is noted of it -/

/-- Only notes about batches were written, and they tell of the calls that happened. -/
def Journal.Notes (before : Journal) (happened : List Happening) (later : Journal) : Prop :=
  ∃ written, before.Writes written later ∧ (∀ event ∈ written, event.IsBatchNote) ∧
    written.filterMap Event.batchCall? =
      (happened.filterMap Happening.batch?).map fun (_, matcher, requests) => (matcher, requests.map (·.args))

namespace Journal

theorem Notes.refl {before later : Journal} (same : later.events = before.events) : before.Notes [] later :=
  ⟨[], writes_nil same, List.forall_mem_nil _, rfl⟩

theorem Notes.trans {a b c : Journal} {first second : List Happening} (ab : a.Notes first b) (bc : b.Notes second c) :
    a.Notes (first ++ second) c := by
  obtain ⟨before, writes, notes, calls⟩ := ab
  obtain ⟨after, writes', notes', calls'⟩ := bc
  refine ⟨before ++ after, writes.trans writes', ?_, ?_⟩
  · intro event mem
    rcases List.mem_append.1 mem with mem | mem
    · exact notes event mem
    · exact notes' event mem
  · simp [calls, calls']

end Journal

/-- Only calls are noted. -/
theorem Journal.Notes.of_batches {before later : Journal} {first second : List Happening}
    (same : first.filterMap Happening.batch? = second.filterMap Happening.batch?) (notes : before.Notes first later) :
    before.Notes second later := by
  obtain ⟨written, writes, allowed, calls⟩ := notes
  exact ⟨written, writes, allowed, by rw [calls, same]⟩

theorem BatchTask.events_run (matcher : String) (tickets : List Nat) (task : BatchTask) (scene : Scene) :
    (task.run matcher tickets scene).2.journal.events = scene.journal.events := by
  induction task generalizing scene with
  | done ending => rfl
  | sleep ticks rest ih =>
    cases ticks with
    | zero => exact ih scene
    | succ ticks => rfl
  | resolve entry value rest ih =>
    refine (ih _).trans ?_
    split <;> rfl
  | resolveLater ticks entry value rest ih =>
    refine (ih _).trans ?_
    split <;> rfl
  | keep entry rest ih =>
    refine (ih _).trans ?_
    split <;> rfl
  | loadInto peer request rest ih => exact ih _

/-- All that a batch does before its next sleep is to give answers. -/
theorem BatchTask.filterMap_given {α : Type} {f : Happening → Option α} (silent : ∀ load value, f (.given load value) = none)
    (matcher : String) (tickets : List Nat) (task : BatchTask) : (task.given matcher tickets).filterMap f = [] := by
  induction task with
  | done ending => rfl
  | sleep ticks rest ih =>
    cases ticks with
    | zero => exact ih
    | succ ticks => rfl
  | resolve entry value rest ih =>
    rw [given, List.filterMap_append, ih]
    cases entryLoad? matcher tickets entry with
    | none => rfl
    | some load => simp [silent]
  | resolveLater ticks entry value rest ih => exact ih
  | keep entry rest ih => exact ih
  | loadInto peer request rest ih => exact ih

theorem Flight.filterMap_gives {α : Type} {f : Happening → Option α} (silent : ∀ load value, f (.given load value) = none)
    (flight : Flight) (scene : Scene) : (flight.gives scene).filterMap f = [] := by
  unfold gives
  cases flight.next scene with
  | panics payload => rfl
  | starts task => exact BatchTask.filterMap_given silent _ _ _

namespace Flight

variable (flight : Flight) (scene : Scene)

/-- The scene when a batch goes on: that its evaluator is called was noted. -/
def called : Scene :=
  match flight.stage, scene.hub.queue? flight.matcher with
  | .boarding, some queue =>
    { flight.announce scene with
      journal := (flight.announce scene).journal.record
        (.batchInvoked flight.matcher ((queue.coalescer.requests flight.tickets).map (·.args))) }
  | _, _ => flight.announce scene

/-- Calling an evaluator or going on with it comes down to running what comes next. -/
theorem advance_eq : flight.advance (flight.announce scene) =
    flight.noteEnd (match flight.next scene with
      | .panics payload => (.ended (.panicked payload), flight.called scene)
      | .starts task => task.run flight.matcher flight.tickets (flight.called scene)) := by
  obtain ⟨id, matcher, tickets, stage⟩ := flight
  cases stage with
  | asleep deadline rest => rfl
  | boarding =>
    have counted : (Flight.announce ⟨id, matcher, tickets, .boarding⟩ scene).journal.invocations matcher =
        scene.journal.invocations matcher := by
      simp [announce, Journal.notice, Journal.invocations, Journal.events, Journal.record]
    have same : (Flight.announce ⟨id, matcher, tickets, .boarding⟩ scene).hub = scene.hub := rfl
    simp only [advance, board, next, called, same, counted]
    cases scene.hub.queue? matcher with
    | none => rfl
    | some queue =>
      cases called : queue.evaluate (scene.journal.invocations matcher) (queue.coalescer.requests tickets) <;>
        simp only [called]

theorem hub_called : (flight.called scene).hub = scene.hub := by
  unfold called announce
  cases flight.stage <;> cases scene.hub.queue? flight.matcher <;> rfl

theorem notes_called : scene.journal.Notes (flight.boards scene) (flight.called scene).journal := by
  unfold called announce boards
  cases flight.stage with
  | asleep deadline rest => exact .refl rfl
  | boarding =>
    cases scene.hub.queue? flight.matcher with
    | none => exact ⟨_, Journal.writes_notice _ _, List.forall_mem_singleton.2 trivial, rfl⟩
    | some queue =>
      refine ⟨_, (Journal.writes_notice _ _).trans (Journal.writes_record _ _), ?_, rfl⟩
      intro event mem
      rcases List.mem_append.1 mem with mem | mem
      · rw [List.mem_singleton.1 mem]
        trivial
      · rw [List.mem_singleton.1 mem]
        trivial

theorem notes_noteEnd (r : FlightProgress × Scene) : r.2.journal.Notes [] (flight.noteEnd r).2.journal := by
  obtain ⟨progress, scene⟩ := r
  cases progress with
  | asleep deadline rest => exact .refl rfl
  | ended ending => exact ⟨_, Journal.writes_record _ _, List.forall_mem_singleton.2 trivial, rfl⟩

theorem notes_landContained (ending : Ending Unit) :
    scene.journal.Notes [] (flight.landContained ending scene).journal := by
  unfold landContained
  cases ending.contained with
  | ok value => exact .refl rfl
  | error cause => exact ⟨_, Journal.writes_notice _ _, List.forall_mem_singleton.2 trivial, rfl⟩

theorem notes_advance : scene.journal.Notes (flight.boards scene) (flight.advance (flight.announce scene)).2.journal := by
  have called := flight.notes_called scene
  rw [advance_eq]
  have ran : (flight.called scene).journal.Notes []
      (match flight.next scene with
        | .panics payload => (FlightProgress.ended (.panicked payload), flight.called scene)
        | .starts task => task.run flight.matcher flight.tickets (flight.called scene)).2.journal := by
    cases flight.next scene with
    | panics payload => exact .refl rfl
    | starts task => exact .refl (BatchTask.events_run _ _ _ _)
  have all := (called.trans ran).trans (flight.notes_noteEnd _)
  rwa [List.append_nil, List.append_nil] at all

theorem batch?_lands (progress : FlightProgress) : (flight.lands progress).filterMap Happening.batch? = [] := by
  cases progress <;> rfl

theorem batch?_happens (due : flight.isDue scene.journal.now = true) :
    (flight.happens scene).filterMap Happening.batch? = (flight.boards scene).filterMap Happening.batch? := by
  have gives : (flight.gives scene).filterMap Happening.batch? = [] := filterMap_gives (fun _ _ => rfl) flight scene
  simp [happens, due, gives, batch?_lands]

theorem notes_pollContained : scene.journal.Notes (flight.happens scene) (flight.pollContained scene).2.journal := by
  cases due : flight.isDue scene.journal.now with
  | false =>
    simp only [happens, pollContained, due, Bool.not_false, if_true]
    exact .refl rfl
  | true =>
    refine Journal.Notes.of_batches (flight.batch?_happens scene due).symm ?_
    have advanced := flight.notes_advance scene
    unfold pollContained
    simp only [due, Bool.not_true, Bool.false_eq_true, if_false]
    generalize flight.advance (flight.announce scene) = r at advanced ⊢
    obtain ⟨progress, scene⟩ := r
    cases progress with
    | asleep deadline rest => exact advanced
    | ended ending =>
      have all := advanced.trans (flight.notes_landContained scene ending)
      rwa [List.append_nil] at all

end Flight

namespace Drive

/-- A turn of a batch: it is not in flight, it lands, or it sleeps on. -/
theorem pollFlight_cases (flights : List Flight) (scene : Scene) (id : Nat) :
    (flights.find? (·.id = id) = none ∧ pollFlight flights scene id = (flights, scene)) ∨
    (∃ flight later, flights.find? (·.id = id) = some flight ∧ flight.pollContained scene = (none, later) ∧
      pollFlight flights scene id = (flights.filter (·.id ≠ id), later)) ∨
    (∃ flight next later, flights.find? (·.id = id) = some flight ∧ flight.pollContained scene = (some next, later) ∧
      pollFlight flights scene id = (flights.map (fun f => if f.id = id then next else f), later)) := by
  unfold pollFlight
  cases found : flights.find? (·.id = id) with
  | none => exact .inl ⟨rfl, rfl⟩
  | some flight =>
    obtain ⟨progress, later, polled⟩ : ∃ progress later, flight.pollContained scene = (progress, later) :=
      ⟨_, _, rfl⟩
    dsimp only
    cases progress with
    | none => exact .inr (.inl ⟨flight, later, rfl, polled, by rw [polled]⟩)
    | some next => exact .inr (.inr ⟨flight, next, later, rfl, polled, by rw [polled]⟩)

section

variable {flights : List Flight} {scene : Scene} {id : Nat} {flight : Flight}

/-- Nothing happens to anybody at a turn of nobody. -/
theorem pollFlight_of_none (absent : flights.find? (·.id = id) = none) :
    pollFlight flights scene id = (flights, scene) := by
  unfold pollFlight
  rw [absent]

/-- What else happens at a turn is what the batch does whose turn it is. -/
theorem pollFlight_scene (found : flights.find? (·.id = id) = some flight) :
    (pollFlight flights scene id).2 = (flight.pollContained scene).2 := by
  unfold pollFlight
  rw [found]
  dsimp only
  cases polled : flight.pollContained scene with
  | mk next later => cases next <;> rfl

/-- A turn is of a batch in flight, or of nobody. -/
theorem pollFlight_scene_cases (flights : List Flight) (scene : Scene) (id : Nat) :
    (pollFlight flights scene id).2 = scene ∨
      ∃ flight ∈ flights, (pollFlight flights scene id).2 = (flight.pollContained scene).2 := by
  cases found : flights.find? (·.id = id) with
  | none => exact .inl (congrArg Prod.snd (pollFlight_of_none found))
  | some flight => exact .inr ⟨flight, List.mem_of_find?_eq_some found, pollFlight_scene found⟩

/-- Whoever is in flight after a turn was so before, or is the batch whose turn it was. -/
theorem mem_pollFlight (found : flights.find? (·.id = id) = some flight) (f : Flight) :
    f ∈ (pollFlight flights scene id).1 ↔
      (f ∈ flights ∧ f.id ≠ id) ∨ (flight.pollContained scene).1 = some f := by
  have here : flight ∈ flights := List.mem_of_find?_eq_some found
  have own : flight.id = id := by simpa using List.find?_some found
  rcases pollFlight_cases flights scene id with
    ⟨absent, -⟩ | ⟨other, later, there, polled, eq⟩ | ⟨other, next, later, there, polled, eq⟩
  · rw [found] at absent
    cases absent
  · obtain rfl : flight = other := Option.some.inj (found.symm.trans there)
    rw [eq, polled]
    simp
  · obtain rfl : flight = other := Option.some.inj (found.symm.trans there)
    rw [eq, polled]
    simp only [List.mem_map, Option.some.injEq]
    constructor
    · rintro ⟨g, mem, rfl⟩
      split
      · exact .inr rfl
      · rename_i differs
        exact .inl ⟨mem, differs⟩
    · rintro (⟨mem, differs⟩ | rfl)
      · exact ⟨f, mem, if_neg differs⟩
      · exact ⟨flight, here, if_pos own⟩

/-- All batches in flight have what all had before and the one whose turn it was has kept. -/
theorem forall_mem_pollFlight {P : Flight → Prop} (all : ∀ flight ∈ flights, P flight)
    (kept : ∀ flight ∈ flights, ∀ next, (flight.pollContained scene).1 = some next → P next) :
    ∀ flight ∈ (pollFlight flights scene id).1, P flight := by
  intro f mem
  cases found : flights.find? (·.id = id) with
  | none =>
    rw [pollFlight_of_none found] at mem
    exact all f mem
  | some flight =>
    rcases (mem_pollFlight found f).1 mem with ⟨old, -⟩ | polled
    · exact all f old
    · exact kept flight (List.mem_of_find?_eq_some found) f polled

end

theorem notes_pollFlight (flights : List Flight) (scene : Scene) (id : Nat) :
    scene.journal.Notes (turn flights scene id) (pollFlight flights scene id).2.journal := by
  unfold turn
  cases found : flights.find? (·.id = id) with
  | none =>
    rw [pollFlight_of_none found]
    exact .refl rfl
  | some flight =>
    rw [pollFlight_scene found]
    exact flight.notes_pollContained scene

theorem notes_pollReady (flights : List Flight) (polled : Nat) (ids : List Nat) (scene : Scene) :
    scene.journal.Notes (turns flights ids scene) (pollReady flights polled ids scene).2.2.journal := by
  induction ids generalizing flights polled scene with
  | nil => exact .refl rfl
  | cons id ids ih => exact (notes_pollFlight flights scene id).trans (ih _ _ _)

variable {κ : Type} [Client κ]

/-- Of a pass, what follows the poll of the client is noted as it happens. -/
theorem notes_pass (drive : Drive κ) (scene : Scene) :
    (drive.pollClient scene).2.journal.Notes (drive.happens scene) (drive.pass scene).2.journal :=
  notes_pollReady _ 0 _ _

end Drive

end Segmentation
