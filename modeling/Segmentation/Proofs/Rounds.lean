import Mathlib.Data.Prod.Lex
import Segmentation.Proofs.Delivery
import Segmentation.Proofs.Reloads

/-!
# Rounds of a flush

In a round the batches of a flush go on one after the other (`Flush.turns`).  Those that have not started are handed to
their evaluators, and those that land have the cargo that they were handed (`Flush.Round`).

A flush comes to its end if its batches load no more than some number of requests (`Flush.finishes`).  As long as nothing
is loaded, a round leaves the queues empty, and whoever sleeps has one sleep less before it.
-/

namespace Segmentation

open Drive (aloft boarding)

/-! ### What batches carry -/

namespace Hub

/-- Alarms do nothing with the queues. -/
theorem ledger_advance (hub : Hub) (now : Nat) : (hub.advance now).ledger = hub.ledger :=
  List.foldlRecOn (hub.takeDue now).1 _ (motive := fun later : Hub => later.ledger = hub.ledger) rfl
    fun later same alarm _ => (later.ledger_goOff alarm.purpose).trans same

theorem queued_of_ledger {before later : Hub} (same : later.ledger = before.ledger) : later.queued = before.queued := by
  simp only [queued, names_of_ledger same, account_of_ledger same]

theorem queued_of_isDrained {hub : Hub} (drained : hub.IsDrained) : hub.queued = [] :=
  List.filterMap_eq_nil_iff.2 fun name _ => if_pos (drained.rest name)

/-- The request of a load. -/
def request? (hub : Hub) (load : Load) : Option Request := ((hub.account load.matcher).accepted[load.ticket]?).map (·.2)

/-- Requests stay what they are. -/
theorem request?_of_accepted {before later : Hub}
    (accepted : ∀ name, (before.account name).accepted <+: (later.account name).accepted) {load : Load}
    (loaded : load.ticket < (before.account load.matcher).accepted.length) :
    later.request? load = before.request? load := by
  have same := List.prefix_iff_getElem?.1 (accepted load.matcher) load.ticket loaded
  rw [request?, request?, same, List.getElem?_eq_getElem loaded]

end Hub

/-- The number of a batch, and the requests that its evaluator was given. -/
def Flight.cargo (flight : Flight) (hub : Hub) : Nat × List Request := (flight.id, flight.loads.filterMap hub.request?)

theorem Flight.cargo_eq (flight : Flight) (hub : Hub) :
    flight.cargo hub = ((flight.entry hub).1, (flight.entry hub).2.2) := by
  have read (ticket : Nat) : hub.request? ⟨flight.matcher, ticket⟩ =
      ((hub.coalescer flight.matcher).get? ticket).map (·.request) := by
    simp [Hub.request?, Hub.account, Coalescer.account, Coalescer.get?, Coalescer.loaded, Function.comp_def]
  rw [cargo, entry, loads, List.filterMap_map, Coalescer.requests]
  exact congrArg _ (List.filterMap_congr fun ticket _ => read ticket)

/-- The cargo of a batch that lands. -/
def Happening.unloaded? (hub : Hub) : Happening → Option (Nat × List Request)
  | .landed flight loads _ => some (flight, loads.filterMap hub.request?)
  | _ => none

/-- The loads of batches that landed stay what they are. -/
theorem Hub.unloaded?_congr {before later : Hub}
    (accepted : ∀ name, (before.account name).accepted <+: (later.account name).accepted) {log : List Happening}
    (loaded : ∀ load ∈ landedLoads log, load.ticket < (before.account load.matcher).accepted.length) :
    log.filterMap (Happening.unloaded? later) = log.filterMap (Happening.unloaded? before) := by
  refine List.filterMap_congr fun happening mem => ?_
  cases happening with
  | boarded flight matcher requests => rfl
  | given load value => rfl
  | landed flight loads failed =>
    have same : loads.filterMap later.request? = loads.filterMap before.request? :=
      List.filterMap_congr fun load listed =>
        request?_of_accepted accepted (loaded load (List.mem_flatMap.2 ⟨_, mem, listed⟩))
    rw [Happening.unloaded?, Happening.unloaded?, same]

/-- Whoever is not in flight after a poll has unloaded all that was carried. -/
theorem Flight.unloaded_happens (flight : Flight) (scene : Scene) (hub : Hub) :
    (flight.happens scene).filterMap (Happening.unloaded? hub) =
      if (flight.pollContained scene).1.isSome then [] else [flight.cargo hub] := by
  have boards : (flight.boards scene).filterMap (Happening.unloaded? hub) = [] := by
    unfold Flight.boards
    split <;> rfl
  have gives : (flight.gives scene).filterMap (Happening.unloaded? hub) = [] :=
    Flight.filterMap_gives (fun _ _ => rfl) flight scene
  unfold Flight.happens Flight.pollContained
  cases flight.isDue scene.journal.now with
  | false => rfl
  | true =>
    simp only [Bool.not_true, Bool.false_eq_true, if_false, List.filterMap_append, boards, gives, List.nil_append]
    generalize flight.advance (flight.announce scene) = r
    obtain ⟨progress, scene⟩ := r
    cases progress <;> rfl

namespace Flush

/-- What happens to batches that go on one after the other. -/
def turns : List Flight → Scene → List Happening
  | [], _ => []
  | flight :: flights, scene => flight.happens scene ++ turns flights (flight.pollContained scene).2

/-- What happens to batches in one pass. -/
def happens (flush : Flush) (scene : Scene) : List Happening :=
  if flush.finished then []
  else
    let (later, polled) := pollFlights flush.flights scene
    let (taken, hub) := polled.hub.takeFlights
    turns flush.flights scene ++ if later.isEmpty then turns taken { polled with hub } else []

/-! ### Rounds -/

theorem pollFlights_cons (flight : Flight) (flights : List Flight) (scene : Scene) :
    pollFlights (flight :: flights) scene =
      ((flight.pollContained scene).1.toList ++ (pollFlights flights (flight.pollContained scene).2).1,
        (pollFlights flights (flight.pollContained scene).2).2) := by
  let step (r : List Flight × Scene) (flight : Flight) : List Flight × Scene :=
    (r.1 ++ (flight.pollContained r.2).1.toList, (flight.pollContained r.2).2)
  have apart (flights rest : List Flight) (scene : Scene) :
      flights.foldl step (rest, scene) = (rest ++ (flights.foldl step ([], scene)).1, (flights.foldl step ([], scene)).2) := by
    induction flights generalizing rest scene with
    | nil => simp
    | cons flight flights ih =>
      simp only [List.foldl_cons]
      rw [ih, ih (step ([], scene) flight).1]
      simp [step]
  exact apart flights _ _

/-- What a round does. -/
structure Round (flights : List Flight) (scene : Scene) (log : List Happening) (later : List Flight) (final : Scene) :
    Prop where
  continues : scene.hub.Continues final.hub
  queues : scene.hub.Within → scene.hub.Queues final.hub
  notes : scene.journal.Notes log final.journal
  /-- Those in flight later sleep. -/
  asleep : boarding later = []
  landed (hub : Hub) : (log.filterMap (Happening.unloaded? hub) ++ later.map (·.cargo hub)).Perm
    (flights.map (·.cargo hub))
  /-- The batches that have not started are handed to their evaluators. -/
  batches : Drive.Filled (boarding flights) scene.hub →
    log.filterMap Happening.batch? = (boarding flights).map (·.entry scene.hub)
  matchers : (∀ flight ∈ flights, flight.matcher ∈ scene.hub.names) → ∀ flight ∈ later, flight.matcher ∈ final.hub.names
  accounted {past : List Happening} {others : List Load} (known : ∀ flight ∈ flights, flight.matcher ∈ scene.hub.names)
    (accounted : scene.hub.Accounted past (aloft flights ++ others)) :
    final.hub.Accounted (past ++ log) (aloft later ++ others)

theorem boarding_append (front back : List Flight) : boarding (front ++ back) = boarding front ++ boarding back :=
  List.filter_append ..

namespace Round

theorem nil (scene : Scene) : Round [] scene [] [] scene where
  continues := .refl _
  queues _ := .refl _
  notes := .refl rfl
  asleep := rfl
  landed _ := .refl _
  batches _ := rfl
  matchers _ := List.forall_mem_nil _
  accounted _ accounted := by rwa [List.append_nil]

/-- One batch goes on. -/
theorem of_flight (flight : Flight) (scene : Scene) : Round [flight] scene (flight.happens scene)
    (flight.pollContained scene).1.toList (flight.pollContained scene).2 := by
  have slept {later : Flight} (mem : later ∈ (flight.pollContained scene).1.toList) :=
    flight.pollContained_asleep scene (Option.mem_toList.1 mem)
  refine ⟨flight.pollContained_continues scene, flight.pollContained_queues, flight.notes_pollContained scene, ?_,
    fun hub => ?_, fun filled => ?_, fun known other mem => ?_, fun {past others} known accounted => ?_⟩
  · exact List.filter_eq_nil_iff.2 fun later mem => by simp [(slept mem).2.2.2]
  · rw [flight.unloaded_happens]
    cases polled : (flight.pollContained scene).1 with
    | none => exact .refl _
    | some later =>
      obtain ⟨same_id, same_matcher, same_tickets, -⟩ := @slept later (by simp [polled])
      simp [Flight.cargo, Flight.loads, same_id, same_matcher, same_tickets]
  · have known (awake : flight.isAsleep = false) : flight.matcher ∈ scene.hub.names :=
      (filled flight (List.mem_filter.2 ⟨List.mem_cons_self, by simp [awake]⟩)).1
    rw [flight.batches_happen scene known]
    cases asleep : flight.isAsleep <;> simp [boarding, asleep]
  · rw [(slept mem).2.1]
    exact (flight.pollContained_continues scene).extends_.names.subset (known flight List.mem_cons_self)
  · have before : scene.hub.Accounted past (flight.loads ++ others) := by simpa [aloft] using accounted
    exact (flight.pollContained_accounted (known flight List.mem_cons_self) before).1

/-- Some batches go on, and then others. -/
theorem append {flights more later later' : List Flight} {scene middle final : Scene} {log log' : List Happening}
    (first : Round flights scene log later middle) (second : Round more middle log' later' final) :
    Round (flights ++ more) scene (log ++ log') (later ++ later') final := by
  have extends_ := first.continues.extends_
  refine ⟨first.continues.trans second.continues, fun within => ?_, first.notes.trans second.notes, ?_, fun hub => ?_,
    fun filled => ?_, fun known => ?_, fun {past others} known accounted => ?_⟩
  · exact (first.queues within).trans_continues (second.queues (within.mono extends_)) first.continues second.continues
  · rw [boarding_append, first.asleep, second.asleep]
    rfl
  · have both := (first.landed hub).append (second.landed hub)
    rw [List.append_assoc] at both
    rw [List.filterMap_append, List.map_append, List.map_append, List.append_assoc]
    exact (List.Perm.append_left _ (List.perm_append_comm_assoc ..)).trans both
  · rw [boarding_append] at filled ⊢
    obtain ⟨filled_first, filled_second⟩ := List.forall_mem_append.1 filled
    rw [List.filterMap_append, List.map_append, first.batches filled_first,
      second.batches (Drive.Filled.mono filled_second extends_), Drive.Filled.map_entry filled_second extends_]
  · obtain ⟨known_first, known_second⟩ := List.forall_mem_append.1 known
    refine List.forall_mem_append.2 ⟨fun flight mem => ?_, second.matchers fun flight mem => ?_⟩
    · exact second.continues.extends_.names.subset (first.matchers known_first flight mem)
    · exact extends_.names.subset (known_second flight mem)
  · obtain ⟨known_first, known_second⟩ := List.forall_mem_append.1 known
    rw [aloft, List.flatMap_append, List.append_assoc] at accounted
    have halfway := (first.accounted known_first accounted).perm (List.perm_append_comm_assoc ..)
    have whole := second.accounted (fun flight mem => extends_.names.subset (known_second flight mem)) halfway
    rw [aloft, List.flatMap_append, List.append_assoc, ← List.append_assoc past]
    exact whole.perm (List.perm_append_comm_assoc ..)

end Round

theorem round (flights : List Flight) (scene : Scene) :
    Round flights scene (turns flights scene) (pollFlights flights scene).1 (pollFlights flights scene).2 := by
  induction flights generalizing scene with
  | nil => exact .nil scene
  | cons flight flights ih =>
    rw [pollFlights_cons, turns]
    exact (Round.of_flight flight scene).append (ih _)

/-- Of a flush that goes on, the batches in flight do; when all have landed, the queues are taken. -/
theorem pass_eq (flush : Flush) (scene : Scene) (running : flush.finished = false) :
    let polled := pollFlights flush.flights scene
    let taken := polled.2.hub.takeFlights
    let boarded := pollFlights taken.1 { polled.2 with hub := taken.2 }
    flush.pass scene =
      if polled.1.isEmpty then (⟨boarded.1, flush.flushed + taken.1.length, taken.1.isEmpty⟩, boarded.2)
      else ({ flush with flights := polled.1 }, polled.2) := by
  intro polled taken boarded
  have polled_eq : pollFlights flush.flights scene = (polled.1, polled.2) := rfl
  simp only [pass, running, Bool.false_eq_true, if_false, polled_eq]
  cases landed : polled.1 with
  | cons flight flights => rfl
  | nil =>
    have taken_eq : polled.2.hub.takeFlights = (taken.1, taken.2) := rfl
    simp only [nextRound, taken_eq, List.isEmpty_nil, if_true]
    cases none_taken : taken.1 with
    | cons flight flights =>
      simp only [boarded, none_taken, List.isEmpty_cons]
    | nil =>
      simp only [boarded, none_taken, List.length_nil, Nat.add_zero, List.isEmpty_nil]
      rfl

/-- What happens in the passes of a flush that goes on. -/
theorem happens_eq (flush : Flush) (scene : Scene) (running : flush.finished = false) :
    let polled := pollFlights flush.flights scene
    flush.happens scene = if polled.1.isEmpty then
      turns flush.flights scene ++ turns polled.2.hub.takeFlights.1 { polled.2 with hub := polled.2.hub.takeFlights.2 }
    else turns flush.flights scene := by
  intro polled
  simp only [happens, running, Bool.false_eq_true, if_false]
  change turns flush.flights scene ++ (if polled.1.isEmpty then _ else _) = _
  split
  · rfl
  · exact List.append_nil _

theorem notes_pass (flush : Flush) (scene : Scene) :
    scene.journal.Notes (flush.happens scene) (flush.pass scene).2.journal := by
  cases running : flush.finished with
  | true =>
    have same : flush.pass scene = (flush, scene) := if_pos running
    have nothing : flush.happens scene = [] := if_pos running
    rw [same, nothing]
    exact .refl rfl
  | false =>
    rw [flush.pass_eq scene running, flush.happens_eq scene running]
    have polled := (round flush.flights scene).notes
    split
    · exact polled.trans (round _ { (pollFlights flush.flights scene).2 with hub := _ }).notes
    · exact polled

end Flush

/-! ### What is left to do -/

theorem Scene.length_setAlarm (scene : Scene) (deadline : Nat) (purpose : Purpose) :
    (scene.setAlarm deadline purpose).hub.alarms.length = scene.hub.alarms.length + 1 := Alarm.length_insert _ _

/-- Before its next sleep a batch sets no more alarms than it had naps before it. -/
theorem BatchTask.alarms_run (matcher : String) (tickets : List Nat) (task : BatchTask) (scene : Scene) :
    (task.run matcher tickets scene).2.hub.alarms.length + 2 * (task.run matcher tickets scene).1.naps ≤
      scene.hub.alarms.length + 2 * task.naps := by
  induction task generalizing scene with
  | done ending => exact Nat.le_refl _
  | sleep ticks rest ih =>
    cases ticks with
    | zero => exact Nat.le_trans (ih scene) (by rw [naps]; omega)
    | succ ticks => exact Nat.le_refl _
  | resolve entry value rest ih =>
    refine Nat.le_trans (ih _) ?_
    split
    · rw [Hub.alarms_resolve, naps]
    · exact Nat.le_refl _
  | resolveLater ticks entry value rest ih =>
    refine Nat.le_trans (ih _) ?_
    split
    · rename_i target _
      have one_more := Scene.length_setAlarm { scene with hub := scene.hub.retain target } (scene.journal.now + ticks)
        (.answer target value)
      rw [Scene.answerAt, one_more, naps]
      change scene.hub.alarms.length + 1 + _ ≤ _
      omega
    · rw [naps]
      omega
  | keep entry rest ih =>
    refine Nat.le_trans (ih _) ?_
    split <;> exact Nat.le_refl _
  | loadInto peer request rest ih => exact ih _

/-- What a batch in flight has yet to do: to land, and to sleep before that. -/
def Flight.toil (flight : Flight) : Nat := 2 * flight.naps + 1

/-- A batch that goes on has less to do. -/
theorem Flight.toil_pollContained (flight : Flight) (scene : Scene) (asleep : flight.isAsleep = true) :
    (flight.pollContained scene).2.hub.alarms.length + ((flight.pollContained scene).1.toList.map (·.toil)).sum +
      (if flight.isDue scene.journal.now then 1 else 0) ≤ scene.hub.alarms.length + flight.toil := by
  unfold pollContained
  cases due : flight.isDue scene.journal.now with
  | false => simp
  | true =>
    have advanced : (flight.advance (flight.announce scene)).2.hub.alarms.length +
        2 * (flight.advance (flight.announce scene)).1.naps ≤ scene.hub.alarms.length + 2 * flight.naps := by
      obtain ⟨rest, goes, same⟩ := flight.next_asleep scene asleep
      rw [advance_eq, (flight.noteEnd_same _).1, (flight.noteEnd_same _).2, goes, ← same, ← flight.hub_called scene]
      exact rest.alarms_run ..
    simp only [Bool.not_true, Bool.false_eq_true, if_false, if_true]
    generalize flight.advance (flight.announce scene) = r at advanced ⊢
    obtain ⟨progress, later⟩ := r
    cases progress with
    | asleep deadline task =>
      have one_more := later.length_setAlarm deadline (.resumeBatch flight.id)
      have advanced : later.hub.alarms.length + 2 * (task.naps + 1) ≤ scene.hub.alarms.length + 2 * flight.naps := advanced
      simp only [Option.toList_some, List.map_singleton, List.sum_singleton, toil]
      change (later.setAlarm deadline (.resumeBatch flight.id)).hub.alarms.length + (2 * task.naps + 1) + 1 ≤ _
      omega
    | ended ending =>
      have alarms : (flight.landContained ending later).hub.alarms = later.hub.alarms := by
        unfold landContained
        split
        · exact Hub.alarms_releaseAll _ _
        · exact (Hub.alarms_releaseAll _ _).trans (Hub.alarms_resolveAll _ _ _)
      have advanced : later.hub.alarms.length ≤ scene.hub.alarms.length + 2 * flight.naps := advanced
      simp only [Option.toList_none, List.map_nil, List.sum_nil, alarms, toil]
      omega

namespace Flush

/-- What there is to do before the batches of a flush have landed. -/
def toil (flights : List Flight) (hub : Hub) : Nat := hub.alarms.length + (flights.map (·.toil)).sum

/-- If one of the batches goes on, there is less to do. -/
theorem toil_pollFlights (flights : List Flight) (scene : Scene) (asleep : boarding flights = []) :
    toil (pollFlights flights scene).1 (pollFlights flights scene).2.hub +
      (if flights.any (·.isDue scene.journal.now) then 1 else 0) ≤ toil flights scene.hub := by
  induction flights generalizing scene with
  | nil => exact Nat.le_refl _
  | cons flight flights ih =>
    have asleep_here : flight.isAsleep = true := by
      by_contra awake
      have listed : flight ∈ boarding (flight :: flights) := List.mem_filter.2 ⟨List.mem_cons_self, by simpa using awake⟩
      rw [asleep] at listed
      cases listed
    have asleep_rest : boarding flights = [] := by
      rwa [boarding, List.filter_cons_of_neg (by simp [asleep_here])] at asleep
    have first := flight.toil_pollContained scene asleep_here
    have now := (flight.pollContained_stands scene).journal.now
    have rest := ih (flight.pollContained scene).2 asleep_rest
    rw [now] at rest
    have apart : (if (flight :: flights).any (·.isDue scene.journal.now) then 1 else 0) ≤
        (if flight.isDue scene.journal.now then 1 else 0) + (if flights.any (·.isDue scene.journal.now) then 1 else 0) := by
      rw [List.any_cons]
      cases flight.isDue scene.journal.now <;> cases flights.any (·.isDue scene.journal.now) <;> decide
    rw [pollFlights_cons]
    simp only [toil, List.map_append, List.sum_append, List.map_cons, List.sum_cons] at rest ⊢
    omega

/-- Where nothing was loaded between two moves of a flush, it has found all queues empty, or has emptied some, or has
less to do for its batches. -/
inductive Descends (before : Flush × Scene) : Flush × Scene → Prop
  | finished {later : Flush × Scene} (finished : later.1.finished = true) : Descends before later
  | loaded {later : Flush × Scene} (more : before.2.hub.reloads.length < later.2.hub.reloads.length) :
    Descends before later
  | taken {later : Flush × Scene} (same : later.2.hub.reloads = before.2.hub.reloads)
    (fewer : later.2.hub.queued.length < before.2.hub.queued.length) : Descends before later
  | toiled {later : Flush × Scene} (same : later.2.hub.ledger = before.2.hub.ledger)
    (less : toil later.1.flights later.2.hub < toil before.1.flights before.2.hub) : Descends before later

/-- Between two passes the batches in flight sleep, and have alarms that wake them. -/
structure Resting (flush : Flush) (scene : Scene) : Prop where
  names : scene.hub.names.Nodup
  within : scene.hub.Within
  asleep : boarding flush.flights = []
  alarmed : flush.Alarmed scene

namespace Resting

variable {flush : Flush} {scene : Scene}

theorem start (names : scene.hub.names.Nodup) (within : scene.hub.Within) : Flush.start.Resting scene :=
  ⟨names, within, rfl, alarmed_start scene⟩

/-- A flush that goes on has an alarm set if nothing is awake. -/
theorem nextAlarm_ne_none (resting : flush.Resting scene) (idle : flush.awake scene.journal.now = false) :
    scene.hub.nextAlarm ≠ none := by
  obtain ⟨some_aloft, waits⟩ := Bool.or_eq_false_iff.1 idle
  obtain ⟨flight, mem⟩ := List.isEmpty_eq_false_iff_exists_mem.1 some_aloft
  have early := List.any_eq_false.1 waits flight mem
  intro none_set
  have no_alarms : scene.hub.alarms = [] := List.head?_eq_none_iff.1 (Option.map_eq_none_iff.1 none_set)
  cases stage : flight.stage with
  | boarding => simp [Flight.isDue, stage] at early
  | asleep deadline rest =>
    have ahead : scene.journal.now < deadline := by simpa [Flight.isDue, stage] using early
    obtain ⟨alarm, set, -⟩ := resting.alarmed flight mem deadline rest stage ahead
    rw [no_alarms] at set
    cases set

theorem pass (resting : flush.Resting scene) (running : flush.finished = false) :
    (flush.pass scene).1.Resting (flush.pass scene).2 := by
  have went_on := round flush.flights scene
  have alarmed := flush.pass_alarmed scene resting.alarmed
  have names := went_on.continues.extends_.nodup resting.names
  have within := resting.within.mono went_on.continues.extends_
  rw [flush.pass_eq scene running] at alarmed ⊢
  cases landed : (pollFlights flush.flights scene).1 with
  | cons flight flights =>
    have asleep := went_on.asleep
    rw [landed] at alarmed asleep
    exact ⟨names, within, asleep, alarmed⟩
  | nil =>
    rw [landed] at alarmed
    obtain ⟨-, drained⟩ := Hub.takeFlights_numbered names
    have boards := round (pollFlights flush.flights scene).2.hub.takeFlights.1
      { (pollFlights flush.flights scene).2 with hub := (pollFlights flush.flights scene).2.hub.takeFlights.2 }
    exact ⟨boards.continues.extends_.nodup (drained.names ▸ names),
      Hub.Within.mono (fun name => Nat.le_of_eq (drained.isDrained within name)) boards.continues.extends_,
      boards.asleep, alarmed⟩

theorem advance (resting : flush.Resting scene) (idle : flush.awake scene.journal.now = false) (now : Nat) :
    flush.Resting ⟨scene.hub.advance now, scene.journal.moveTo now⟩ where
  names := Hub.names_of_ledger (scene.hub.ledger_advance now) ▸ resting.names
  within := resting.within.of_ledger (scene.hub.ledger_advance now)
  asleep := resting.asleep
  alarmed := alarmed_advance resting.alarmed idle now

end Resting

theorem pass_descends {flush : Flush} {scene : Scene} (resting : flush.Resting scene) (running : flush.finished = false)
    (awake : flush.awake scene.journal.now = true) : Descends (flush, scene) (flush.pass scene) := by
  have went_on := round flush.flights scene
  rw [flush.pass_eq scene running]
  cases landed : (pollFlights flush.flights scene).1 with
  | cons flight flights =>
    by_cases quiet : (pollFlights flush.flights scene).2.hub.reloads = scene.hub.reloads
    · refine .toiled (went_on.continues.quiet quiet) ?_
      have some_due : flush.flights.any (·.isDue scene.journal.now) = true := by
        rcases Bool.or_eq_true_iff.1 awake with none_aloft | due
        · rw [List.isEmpty_iff.1 none_aloft] at landed
          cases landed
        · exact due
      -- what is awake does some of what is left to do for the batches
      have spent := toil_pollFlights flush.flights scene resting.asleep
      rw [some_due, if_pos rfl, landed] at spent
      exact spent
    · refine .loaded (Nat.lt_of_le_of_ne went_on.continues.reloads.length_le fun same => quiet ?_)
      exact (went_on.continues.reloads.eq_of_length same).symm
  | nil =>
    -- all have landed, so the queues are emptied into new batches, which have their first turn at once
    have names := went_on.continues.extends_.nodup resting.names
    have within := resting.within.mono went_on.continues.extends_
    have grown := went_on.continues.reloads
    have quiet_before := went_on.continues.quiet
    generalize (pollFlights flush.flights scene).2 = polled at names within grown quiet_before ⊢
    obtain ⟨drained, -, -, numbers, -⟩ := Drive.taken_spec names
    have all_taken := Hub.queued_of_isDrained (drained.isDrained within)
    have boards := (round polled.hub.takeFlights.1 { polled with hub := polled.hub.takeFlights.2 }).continues
    have boards_grown : polled.hub.reloads <+: _ := drained.reloads ▸ boards.reloads
    rw [if_pos List.isEmpty_nil]
    cases some_taken : polled.hub.takeFlights.1 with
    | nil => exact .finished rfl
    | cons flight flights =>
      rw [some_taken] at boards boards_grown numbers
      by_cases quiet : (pollFlights (flight :: flights) { polled with hub := polled.hub.takeFlights.2 }).2.hub.reloads =
          scene.hub.reloads
      · refine .taken quiet ?_
        have same : polled.hub.reloads = scene.hub.reloads :=
          (grown.eq_of_length_le (quiet ▸ boards_grown.length_le)).symm
        have count : (flight :: flights).length = polled.hub.queued.length := by
          simpa [Drive.ids] using congrArg List.length numbers
        have quiet_after := boards.quiet (by rw [quiet, drained.reloads, same])
        have before := Hub.queued_of_ledger (quiet_before same)
        dsimp only
        rw [Hub.queued_of_ledger quiet_after, all_taken, ← before, ← count]
        exact Nat.succ_pos _
      · have all_grown := grown.trans boards_grown
        refine .loaded (Nat.lt_of_le_of_ne all_grown.length_le fun same => quiet ?_)
        exact (all_grown.eq_of_length same).symm

theorem advance_descends {flush : Flush} {scene : Scene} {t : Nat} (next : scene.hub.nextAlarm = some t) :
    Descends (flush, scene) (flush, ⟨scene.hub.advance t, scene.journal.moveTo t⟩) := by
  refine .toiled (scene.hub.ledger_advance t) (Nat.add_lt_add_right ?_ _)
  obtain ⟨alarm, first, rfl⟩ := Option.map_eq_some_iff.1 next
  rw [Hub.alarms_advance]
  exact List.length_filter_lt_length_iff_exists.2 ⟨alarm, List.mem_of_head? first, by simp⟩

theorem exists_finishes {flush : Flush} {scene : Scene} (resting : flush.Resting scene) {bound : Nat}
    (bounded : ∀ moves, (Machine.runFor none moves (flush, scene)).2.2.hub.reloads.length ≤ bound) :
    ∃ final, Machine.Finishes (flush, scene) final := by
  -- what may be loaded yet, then the queues that are not empty, then what there is to do for the batches
  let measure (s : Flush × Scene) : Nat ×ₗ Nat ×ₗ Nat :=
    toLex (bound - s.2.hub.reloads.length, toLex (s.2.hub.queued.length, toil s.1.flights s.2.hub))
  induction size : measure (flush, scene) using WellFoundedLT.induction generalizing flush scene with
  | ind size ih =>
    subst size
    have later_bounded {later : Flush × Scene} (move : Machine.step none (flush, scene) = .inl later) (moves : Nat) :
        (Machine.runFor none moves later).2.2.hub.reloads.length ≤ bound := by
      have after := bounded (moves + 1)
      rwa [Machine.runFor, move] at after
    have goes_on {later : Flush × Scene} (move : Machine.step none (flush, scene) = .inl later)
        (descends : Descends (flush, scene) later) (resting : later.1.Resting later.2) :
        ∃ final, Machine.Finishes later final := by
      have below : later.2.hub.reloads.length ≤ bound := later_bounded move 0
      rcases descends with finished | more | ⟨same, fewer⟩ | ⟨same, less⟩
      · exact ⟨later, .done finished⟩
      · refine ih (measure later) ?_ resting (later_bounded move) rfl
        exact Prod.Lex.toLex_lt_toLex.2 (.inl (Nat.sub_lt_sub_left (Nat.lt_of_lt_of_le more below) more))
      · refine ih (measure later) ?_ resting (later_bounded move) rfl
        exact Prod.Lex.toLex_lt_toLex.2 (.inr ⟨by rw [same], Prod.Lex.toLex_lt_toLex.2 (.inl fewer)⟩)
      · refine ih (measure later) ?_ resting (later_bounded move) rfl
        exact Prod.Lex.toLex_lt_toLex.2 (.inr ⟨by rw [Hub.reloads_of_ledger same], Prod.Lex.toLex_lt_toLex.2
          (.inr ⟨congrArg List.length (Hub.queued_of_ledger same), less⟩)⟩)
    cases running : flush.finished with
    | true => exact ⟨_, .done running⟩
    | false =>
      cases up : flush.awake scene.journal.now with
      | true =>
        have move : Machine.step none (flush, scene) = .inl (flush.pass scene) :=
          (if_neg (Bool.eq_false_iff.1 running)).trans (if_pos up)
        obtain ⟨final, run⟩ := goes_on move (pass_descends resting running up) (resting.pass running)
        exact ⟨final, .polls running up run⟩
      | false =>
        obtain ⟨t, next⟩ := Option.ne_none_iff_exists'.1 (resting.nextAlarm_ne_none up)
        have move : Machine.step none (flush, scene) = .inl (flush, ⟨scene.hub.advance t, scene.journal.moveTo t⟩) := by
          have set : Machine.nextAlarm (flush, scene) = some t := next
          refine (if_neg (Bool.eq_false_iff.1 running)).trans ((if_neg (Bool.eq_false_iff.1 up)).trans ?_)
          rw [set]
          rfl
        obtain ⟨final, run⟩ := goes_on move (advance_descends next) (resting.advance up t)
        exact ⟨final, .waits ⟨running, up⟩ next run⟩

/-- A flush comes to its end if its batches load no more than some number of requests. -/
theorem finishes {first : Scene} (names : first.hub.names.Nodup) (within : first.hub.Within) {bound : Nat}
    (bounded : ∀ moves, (Machine.run none moves (Flush.start, first)).2.2.hub.reloads.length ≤ bound) :
    ∃ final enough, ∀ moves, enough ≤ moves → Machine.run none moves (Flush.start, first) = (.finished, final) := by
  have resting := (Resting.start names within).pass rfl
  obtain ⟨final, run⟩ := exists_finishes resting bounded
  exact ⟨final, run.enough⟩

end Flush

end Segmentation
