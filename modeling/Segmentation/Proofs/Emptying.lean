import Segmentation.Proofs.Rounds
import Segmentation.Proofs.Traffic

/-!
# Emptying the queues

A flush takes the requests out of all queues and waits until the batches have landed, round after round, until a round
finds nothing.  `Flush.Run` is a run of a flush with the chronicle of what happened.  Between two passes all that was
taken since the start was handed to evaluators, in the order of loading, and `flushed` counts their calls
(`Flush.Emptying`).  So when a flush has finished nothing is queued, and what was queued at the start or loaded since has
been handed over, once (`Flush.empties`).
-/

namespace Segmentation

open Drive (aloft boarding handed)

namespace Flush

/-! ### Runs -/

/-- Runs of a flush from a hub, with what happens to batches.  Between two passes anything may be written into the
journal, and any time may pass. -/
inductive Run (first : Hub) : List Happening → Flush → Hub → Prop
  | start : Run first [] .start first
  | pass {log : List Happening} {flush : Flush} {hub : Hub} (run : Run first log flush hub) (journal : Journal) :
    Run first (log ++ flush.happens ⟨hub, journal⟩) (flush.pass ⟨hub, journal⟩).1 (flush.pass ⟨hub, journal⟩).2.hub
  | advance {log : List Happening} {flush : Flush} {hub : Hub} (run : Run first log flush hub) (now : Nat) :
    Run first (log ++ hub.happensBy now) flush (hub.advance now)

/-- The batches that were taken: their evaluators were called, or are about to be. -/
def taken (log : List Happening) (flights : List Flight) (hub : Hub) : List (Nat × String × List Request) :=
  log.filterMap Happening.batch? ++ (boarding flights).map (·.entry hub)

/-- The requests in the batches of one matcher. -/
def requestsTo (name : String) (batches : List (Nat × String × List Request)) : List Request :=
  batches.flatMap fun (_, matcher, requests) => if matcher = name then requests else []

/-- What is taken from a queue are the requests in it. -/
theorem requestsTo_taken {hub : Hub} (names : hub.names.Nodup) (name : String) :
    requestsTo name (hub.takeFlights.1.map (·.entry hub.takeFlights.2)) = (hub.account name).rest.map (·.2) := by
  obtain ⟨-, -, requests, -⟩ := Drive.taken_spec names
  let boarded (batch : Nat × String × List Request) : Happening := .boarded batch.1 batch.2.1 batch.2.2
  let log := (hub.takeFlights.1.map (·.entry hub.takeFlights.2)).map boarded
  have calls : log.filterMap Happening.batch? = hub.takeFlights.1.map (·.entry hub.takeFlights.2) := by
    rw [List.filterMap_map]
    exact List.filterMap_some
  have told : Drive.handed name log = (hub.account name).rest.map (·.2) :=
    Drive.handed_of_queued names (.of_eq calls) (by rw [List.map_map]; exact requests) name
  rwa [Drive.handed, calls] at told

/-- What holds while the queues are being emptied. -/
structure Emptying (first : Hub) (past : List Happening) (others : List Load) (log : List Happening) (flights : List Flight)
    (flushed : Nat) (hub : Hub) : Prop where
  names : hub.names.Nodup
  matchers : ∀ flight ∈ flights, flight.matcher ∈ hub.names
  accounted : hub.Accounted (past ++ log) (aloft flights ++ others)
  accepted : ∀ name, (first.account name).accepted <+: (hub.account name).accepted
  more : ∀ name, (first.account name).taken ≤ (hub.account name).taken
  opened : first.names ⊆ hub.names
  queues : first.Queues hub
  counted : flushed = (taken log flights hub).length
  filled : ∀ batch ∈ taken log flights hub, batch.2.2 ≠ []
  landed : (log.filterMap (Happening.unloaded? hub) ++ flights.map (·.cargo hub)).Perm
    ((taken log flights hub).map fun batch => (batch.1, batch.2.2))
  /-- What was taken is what was queued at the start, and what was loaded since, up to what is queued now. -/
  handed : ∀ name, requestsTo name (taken log flights hub) =
    ((hub.requests name).take (hub.account name).taken).drop (first.account name).taken

namespace Emptying

variable {first : Hub} {past : List Happening} {others : List Load} {log : List Happening} {flights : List Flight}
  {flushed : Nat}

theorem start (names : first.names.Nodup) (accounted : first.Accounted past others) :
    Emptying first past others [] [] 0 first where
  names := names
  matchers := List.forall_mem_nil _
  accounted := by simpa [aloft] using accounted
  accepted _ := List.prefix_rfl
  more _ := Nat.le_refl _
  opened := List.Subset.refl _
  queues := .refl first
  counted := rfl
  filled := List.forall_mem_nil _
  landed := .refl _
  handed name := by simp [taken, boarding, requestsTo]

/-- The loads of batches that are in flight or have landed were taken. -/
theorem known {hub : Hub} (emptying : Emptying first past others log flights flushed hub) {load : Load}
    (mem : load ∈ aloft flights ∨ load ∈ landedLoads log) : load.ticket < (hub.account load.matcher).accepted.length := by
  have placed := emptying.accounted.placed load
  have within := emptying.accounted.within load.matcher
  rw [landedLoads_append, List.count_append, List.count_append] at placed
  have some : 0 < (aloft flights).count load + (landedLoads log).count load := by
    rcases mem with mem | mem
    · exact Nat.add_pos_left (List.count_pos_iff.2 mem) _
    · exact Nat.add_pos_right _ (List.count_pos_iff.2 mem)
  split at placed <;> omega

/-- What batches that have landed or are in flight carry stays what it is. -/
theorem landed_of_accepted {hub later : Hub} (emptying : Emptying first past others log flights flushed hub)
    (accepted : ∀ name, (hub.account name).accepted <+: (later.account name).accepted) :
    (log.filterMap (Happening.unloaded? later) ++ flights.map (·.cargo later)).Perm
      ((taken log flights hub).map fun batch => (batch.1, batch.2.2)) := by
  have aloft_known (flight) (mem : flight ∈ flights) (load) (own : load ∈ flight.loads) :=
    emptying.known (.inl (List.mem_flatMap.2 ⟨flight, mem, own⟩))
  have same : flights.map (·.cargo later) = flights.map (·.cargo hub) :=
    List.map_congr_left fun flight mem => congrArg (Prod.mk flight.id) <|
      List.filterMap_congr fun load own => Hub.request?_of_accepted accepted (aloft_known flight mem load own)
  rw [Hub.unloaded?_congr accepted fun load mem => emptying.known (.inr mem), same]
  exact emptying.landed

theorem boarding_filled {hub : Hub} (emptying : Emptying first past others log flights flushed hub) :
    Drive.Filled (boarding flights) hub := by
  intro flight mem
  have listed := List.mem_of_mem_filter mem
  refine ⟨emptying.matchers flight listed, fun ticket given => ?_⟩
  have own : (⟨flight.matcher, ticket⟩ : Load) ∈ flight.loads := List.mem_map_of_mem given
  exact emptying.known (.inl (List.mem_flatMap.2 ⟨flight, listed, own⟩))

/-- As long as nothing is taken, more may be queued, and batches that were taken may start and land. -/
theorem of_extends {hub later : Hub} (emptying : Emptying first past others log flights flushed hub)
    (extends_ : hub.Extends later) (queues : hub.Queues later) {log' : List Happening} {flights' : List Flight}
    (matchers : ∀ flight ∈ flights', flight.matcher ∈ later.names)
    (accounted : later.Accounted (past ++ log') (aloft flights' ++ others))
    (same : taken log' flights' later = taken log flights hub)
    (landed : (log'.filterMap (Happening.unloaded? later) ++ flights'.map (·.cargo later)).Perm
      (log.filterMap (Happening.unloaded? later) ++ flights.map (·.cargo later))) :
    Emptying first past others log' flights' flushed later where
  names := extends_.nodup emptying.names
  matchers := matchers
  accounted := accounted
  accepted name := (emptying.accepted name).trans (extends_.accepted name)
  more name := extends_.taken name ▸ emptying.more name
  opened := List.Subset.trans emptying.opened extends_.names.subset
  queues := emptying.queues.trans queues emptying.opened emptying.more extends_.accepted
  counted := same ▸ emptying.counted
  filled := same ▸ emptying.filled
  landed := same ▸ landed.trans (emptying.landed_of_accepted extends_.accepted)
  handed name := by
    have within : (hub.account name).taken ≤ (hub.requests name).length := by
      rw [Hub.requests, List.length_map]
      exact emptying.accounted.within name
    obtain ⟨more, grown⟩ := (extends_.accepted name).map (·.2)
    have grown : hub.requests name ++ more = later.requests name := grown
    rw [same, emptying.handed, extends_.taken, ← grown, List.take_append_of_le_length within]

/-- Batches that go on keep it. -/
theorem poll {scene : Scene} (emptying : Emptying first past others log flights flushed scene.hub) :
    Emptying first past others (log ++ turns flights scene) (pollFlights flights scene).1 flushed
      (pollFlights flights scene).2.hub := by
  have round := round flights scene
  refine emptying.of_extends round.continues.extends_ (round.queues emptying.accounted.within)
    (round.matchers emptying.matchers) ?_ ?_ ?_
  · rw [← List.append_assoc]
    exact round.accounted emptying.matchers emptying.accounted
  · rw [taken, List.filterMap_append, round.batches emptying.boarding_filled, round.asleep, List.map_nil, List.append_nil,
      taken]
  · rw [List.filterMap_append, List.append_assoc]
    exact (round.landed _).append_left _

/-- Alarms keep it. -/
theorem advance {hub : Hub} (emptying : Emptying first past others log flights flushed hub) (now : Nat) :
    Emptying first past others (log ++ hub.happensBy now) flights flushed (hub.advance now) := by
  have same := hub.ledger_advance now
  have extends_ : hub.Extends (hub.advance now) := .of_ledger same
  have silent {α : Type} {f : Happening → Option α} (silent : ∀ load value, f (.given load value) = none) :
      (log ++ hub.happensBy now).filterMap f = log.filterMap f := by
    rw [List.filterMap_append, Drive.happensBy_silent silent, List.append_nil]
  have matchers (flight) (mem : flight ∈ flights) := extends_.names.subset (emptying.matchers flight mem)
  refine emptying.of_extends extends_ (.of_ledger same) matchers ?_ ?_ ?_
  · rw [← List.append_assoc]
    exact (emptying.accounted.advance now).1
  · rw [taken, silent fun _ _ => rfl, emptying.boarding_filled.map_entry extends_, taken]
  · rw [silent fun _ _ => rfl]

/-- When all batches have landed, those that are taken next keep it. -/
theorem take {hub : Hub} (emptying : Emptying first past others log [] flushed hub) :
    Emptying first past others log hub.takeFlights.1 (flushed + hub.takeFlights.1.length) hub.takeFlights.2 := by
  obtain ⟨drained, -, requests, -, boarding_eq, filled⟩ := Drive.taken_spec emptying.names
  have accounted := (emptying.accounted.takeFlights emptying.names).1
  have accepted (name : String) : (hub.takeFlights.2.account name).accepted = (hub.account name).accepted :=
    (drained.account name).1
  have all (name : String) : (hub.takeFlights.2.account name).taken = (hub.account name).accepted.length := by
    rw [drained.isDrained emptying.accounted.within name, accepted]
  have before : taken log [] hub = log.filterMap Happening.batch? := List.append_nil _
  have later : taken log hub.takeFlights.1 hub.takeFlights.2 =
      taken log [] hub ++ hub.takeFlights.1.map (·.entry hub.takeFlights.2) := by rw [taken, boarding_eq, before]
  have quiet : hub.Queues hub.takeFlights.2 := .of_accepted drained.reloads accepted
  have grown (name : String) : (hub.account name).accepted <+: (hub.takeFlights.2.account name).accepted :=
    accepted name ▸ List.prefix_rfl
  refine ⟨drained.names ▸ emptying.names, fun flight mem => (filled flight mem).1, ?_, fun name => ?_, fun name => ?_,
    drained.names ▸ emptying.opened, emptying.queues.trans quiet emptying.opened emptying.more grown, ?_,
    fun batch mem => ?_, ?_, fun name => ?_⟩
  · exact accounted.perm (by simpa [aloft] using List.perm_append_comm)
  · rw [accepted]
    exact emptying.accepted name
  · rw [all]
    exact Nat.le_trans (emptying.more name) (emptying.accounted.within name)
  · rw [later, List.length_append, List.length_map, emptying.counted]
  · rw [later, List.mem_append, List.mem_map] at mem
    rcases mem with old | ⟨flight, mem, rfl⟩
    · exact emptying.filled batch old
    · exact Hub.queued_ne_nil (requests ▸ List.mem_map_of_mem mem)
  · rw [later, List.map_append, List.map_map]
    have same : hub.takeFlights.1.map (·.cargo hub.takeFlights.2) =
        hub.takeFlights.1.map ((fun batch => (batch.1, batch.2.2)) ∘ (·.entry hub.takeFlights.2)) :=
      List.map_congr_left fun flight _ => flight.cargo_eq _
    have landed := emptying.landed_of_accepted grown
    rw [List.map_nil, List.append_nil] at landed
    rw [same]
    exact landed.append_right _
  · -- the requests that were handed over before and those of the new batches make up all that were accepted
    have new := requestsTo_taken emptying.names name
    have apart : requestsTo name (taken log [] hub ++ hub.takeFlights.1.map (·.entry hub.takeFlights.2)) =
        requestsTo name (taken log [] hub) ++ requestsTo name (hub.takeFlights.1.map (·.entry hub.takeFlights.2)) :=
      List.flatMap_append
    have same : hub.takeFlights.2.requests name = hub.requests name := congrArg _ (accepted name)
    have length_eq : (hub.account name).accepted.length = (hub.requests name).length := (List.length_map _).symm
    have within := length_eq ▸ emptying.accounted.within name
    have rest_eq : (hub.account name).rest.map (·.2) = (hub.requests name).drop (hub.account name).taken := List.map_drop
    have long : (first.account name).taken ≤ ((hub.requests name).take (hub.account name).taken).length := by
      rw [List.length_take_of_le within]
      exact emptying.more name
    rw [later, apart, emptying.handed, new, same, all, rest_eq, ← List.drop_append_of_le_length long,
      List.take_append_drop, length_eq, List.take_length]

end Emptying

/-- A flush that has finished has found nothing in the queues. -/
def Over (flush : Flush) (hub : Hub) : Prop := flush.finished = true → flush.flights = [] ∧ hub.IsDrained

section

variable {first : Hub} {past : List Happening} {others : List Load} {log : List Happening}

theorem Emptying.pass {flush : Flush} {scene : Scene}
    (emptying : Emptying first past others log flush.flights flush.flushed scene.hub) (finding : flush.Over scene.hub) :
    Emptying first past others (log ++ flush.happens scene) (flush.pass scene).1.flights (flush.pass scene).1.flushed
      (flush.pass scene).2.hub ∧ (flush.pass scene).1.Over (flush.pass scene).2.hub := by
  cases running : flush.finished with
  | true =>
    have same : flush.pass scene = (flush, scene) := if_pos running
    have nothing : flush.happens scene = [] := if_pos running
    rw [same, nothing, List.append_nil]
    exact ⟨emptying, finding⟩
  | false =>
    have polled := emptying.poll
    rw [flush.pass_eq scene running, flush.happens_eq scene running]
    cases landed : (pollFlights flush.flights scene).1 with
    | cons flight flights =>
      rw [landed] at polled
      exact ⟨polled, fun finished => absurd (running.symm.trans finished) nofun⟩
    | nil =>
      rw [landed] at polled
      have taken := polled.take
      let next : Scene := { (pollFlights flush.flights scene).2 with
        hub := (pollFlights flush.flights scene).2.hub.takeFlights.2 }
      have boarded := @Emptying.poll _ _ _ _ _ _ next taken
      rw [List.append_assoc] at boarded
      refine ⟨boarded, fun finished => ?_⟩
      have none_taken := List.isEmpty_iff.1 finished
      obtain ⟨-, drained⟩ := Hub.takeFlights_numbered polled.names
      dsimp only [List.isEmpty_nil, if_true]
      rw [none_taken]
      exact ⟨rfl, drained.isDrained polled.accounted.within⟩

theorem Run.emptying (names : first.names.Nodup) (accounted : first.Accounted past others) {flush : Flush} {hub : Hub}
    (run : Run first log flush hub) :
    Emptying first past others log flush.flights flush.flushed hub ∧ flush.Over hub := by
  induction run with
  | start => exact ⟨.start names accounted, fun finished => nomatch finished⟩
  | @pass log flush hub run journal ih => exact @Emptying.pass _ _ _ _ flush ⟨hub, journal⟩ ih.1 ih.2
  | @advance log flush hub run now ih =>
    exact ⟨ih.1.advance now, fun finished => (ih.2 finished).imp_right (·.of_ledger (hub.ledger_advance now))⟩

/-- What it is to have emptied all queues, those that batches filled meanwhile included. -/
structure Emptied (first : Hub) (log : List Happening) (flushed : Nat) (final : Hub) : Prop where
  pending : final.pending = 0
  flushed : flushed = (log.filterMap Happening.batch?).length
  filled : ∀ batch ∈ log.filterMap Happening.batch?, batch.2.2 ≠ []
  accepted : ∀ name, first.requests name <+: final.requests name
  /-- What was accepted since is what batches loaded. -/
  queues : first.Queues final
  /-- What was queued at the start, and what was accepted since, was handed over once, in the order of acceptance. -/
  handed : ∀ name, handed name log = (final.requests name).drop (first.account name).taken
  /-- Every batch has landed, with what it was handed. -/
  landed : (log.filterMap (Happening.unloaded? final)).Perm
    ((log.filterMap Happening.batch?).map fun batch => (batch.1, batch.2.2))
  once : ∀ load : Load, (first.account load.matcher).taken ≤ load.ticket →
    load.ticket < (final.account load.matcher).accepted.length → (landedLoads log).count load = 1
  /-- What a batch had not answered when it failed is false. -/
  contained : ∀ before flight loads after, log = before ++ .landed flight loads true :: after →
    ∀ load ∈ loads, final.state load = .answered ((answers before load).getD false)

theorem Run.emptied (names : first.names.Nodup) (accounted : first.Accounted past others) {flush : Flush} {final : Hub}
    (run : Run first log flush final) (finished : flush.finished = true) : Emptied first log flush.flushed final := by
  obtain ⟨emptying, finding⟩ := run.emptying names accounted
  obtain ⟨no_flights, drained⟩ := finding finished
  rw [no_flights] at emptying
  have all : taken log [] final = log.filterMap Happening.batch? := List.append_nil _
  have placed (load : Load) : (landedLoads past).count load + (landedLoads log).count load + others.count load =
      if load.ticket < (final.account load.matcher).accepted.length then 1 else 0 := by
    have placed := emptying.accounted.placed load
    rwa [landedLoads_append, List.count_append, drained load.matcher] at placed
  have before (load : Load) := accounted.placed load
  refine ⟨Hub.pending_of_drained emptying.names drained, all ▸ emptying.counted, all ▸ emptying.filled,
    fun name => (emptying.accepted name).map _, emptying.queues, fun name => ?_, ?_, fun load late loaded => ?_,
    fun front flight loads back log_eq load mem => ?_⟩
  · have handed := emptying.handed name
    have length_eq : (final.account name).accepted.length = (final.requests name).length := (List.length_map _).symm
    rw [all, drained name, length_eq, List.take_length] at handed
    exact handed
  · have landed := emptying.landed
    rwa [all, List.map_nil, List.append_nil] at landed
  · have now := placed load
    have then_ := before load
    rw [if_pos loaded] at now
    rw [if_neg (Nat.not_lt.2 late)] at then_
    omega
  · -- the load was queued when the flush started, or later, so that it had no answer
    have landed : 0 < (landedLoads log).count load := by
      have here : Happening.landed flight loads true ∈ log := log_eq ▸ List.mem_append_right _ List.mem_cons_self
      exact List.count_pos_iff.2 (List.mem_flatMap.2 ⟨_, here, mem⟩)
    have now := placed load
    have then_ := before load
    have late : (first.account load.matcher).taken ≤ load.ticket := by
      by_contra early
      rw [if_pos (Nat.not_le.1 early)] at then_
      split at now <;> omega
    obtain ⟨unanswered, -⟩ := accounted.queued late
    rw [emptying.accounted.books.state load, answers_append, unanswered, Option.none_or, log_eq,
      answers_of_failed front flight mem back]
    rfl

end

/-- A flush that is run on the clock makes such a run, and the calls of evaluators stand in the journal. -/
theorem Run.of_run (first : Scene) (limit : Option Nat) (moves : Nat) :
    let final := (Machine.run limit moves (Flush.start, first)).2
    ∃ log, Run first.hub log final.1 final.2.hub ∧ first.journal.Notes log final.2.journal := by
  let kept (s : Flush × Scene) : Prop := ∃ log, Run first.hub log s.1 s.2.hub ∧ first.journal.Notes log s.2.journal
  have starts : kept (Flush.start, first) := ⟨[], .start, .refl rfl⟩
  suffices kept (Machine.run limit moves (Flush.start, first)).2 from this
  refine Machine.run_keeps (fun s h => ?_) (fun now s h => ?_) limit moves starts
  · obtain ⟨log, run, notes⟩ := h
    exact ⟨_, run.pass s.2.journal, notes.trans (notes_pass s.1 s.2)⟩
  · obtain ⟨log, run, notes⟩ := h
    have silent : ([] : List Happening).filterMap Happening.batch? = (s.2.hub.happensBy now).filterMap Happening.batch? :=
      (Drive.happensBy_silent (fun _ _ => rfl) _ _).symm
    exact ⟨_, run.advance now, notes.trans (.of_batches silent (.refl rfl))⟩

/-- Whatever batches do, fail, or load themselves, a flush that returns has emptied all queues.  It does return if its
batches load no more than some number of requests. -/
theorem empties {first : Scene} (names : first.hub.names.Nodup) {past : List Happening} {others : List Load}
    (accounted : first.hub.Accounted past others) :
    (∀ limit moves flush final, Machine.run limit moves (Flush.start, first) = (.finished, (flush, final)) →
      ∃ log, Run first.hub log flush final.hub ∧ first.journal.Notes log final.journal ∧
        Emptied first.hub log flush.flushed final.hub) ∧
    ∀ bound, (∀ moves, (Machine.run none moves (Flush.start, first)).2.2.hub.reloads.length ≤ bound) →
      ∃ final enough, ∀ moves, enough ≤ moves → Machine.run none moves (Flush.start, first) = (.finished, final) := by
  refine ⟨fun limit moves flush final ran => ?_, fun bound => finishes names accounted.within⟩
  have finished : flush.finished = true := Machine.finished_of_runFor ran
  obtain ⟨log, run, notes⟩ := Run.of_run first limit moves
  rw [ran] at run notes
  exact ⟨log, run, notes, run.emptied names accounted finished⟩

/-- A batched evaluator that says yes to its first entry, asks another matcher for the others, and fails. -/
def delegates : BatchEvaluator := fun _ requests =>
  .starts (.resolve 0 true (requests.tail.foldr (fun request rest => .loadInto (some "paid") request rest)
    (.sleep 3 (.done (.failed ⟨"no connection", []⟩)))))

/-- Two queues; in the first one there are two requests. -/
def twoQueues : Scene :=
  let opened := (Hub.empty.openQueue "member" delegates).openQueue "paid" Drive.firstOnly
  ⟨((opened.load "member" ⟨.null, none⟩).2.load "member" ⟨.null, some (.bool true)⟩).2, .empty⟩

/-- The second request is handed to both evaluators, and what the failed batch left open is false. -/
theorem empties_two_queues :
    ∃ flush final log, Machine.run none 4 (Flush.start, twoQueues) = (.finished, (flush, final)) ∧ flush.flushed = 2 ∧
      handed "paid" log = [⟨.null, some (.bool true)⟩] ∧ Emptied twoQueues.hub log flush.flushed final.hub ∧
      [0, 1].map (fun ticket => final.hub.state ⟨"member", ticket⟩) = [.answered true, .answered false] := by
  have opened := (Drive.Manned.start.accounted.openQueue "member" delegates).openQueue "paid" Drive.firstOnly
  have known : "member" ∈ ((Hub.empty.openQueue "member" delegates).openQueue "paid" Drive.firstOnly).names := by decide
  have one := (opened.loadKeyed known (Request.stableKey ⟨.null, none⟩) ⟨.null, none⟩).1
  have known := (Hub.loadKeyed_extends _ "member" (Request.stableKey ⟨.null, none⟩) ⟨.null, none⟩).names.subset known
  have accounted : twoQueues.hub.Accounted [] (aloft []) :=
    (one.loadKeyed known (Request.stableKey ⟨.null, some (.bool true)⟩) ⟨.null, some (.bool true)⟩).1
  have names : twoQueues.hub.names.Nodup := by decide +kernel
  have finished : (Machine.run none 4 (Flush.start, twoQueues)).1 = .finished := by decide +kernel
  have ran : Machine.run none 4 (Flush.start, twoQueues) =
      (.finished, (Machine.run none 4 (Flush.start, twoQueues)).2) := by rw [← finished]
  obtain ⟨log, -, -, emptied⟩ := (empties names accounted).1 none 4 _ _ ran
  have requests : (((Machine.run none 4 (Flush.start, twoQueues)).2.2.hub.requests "paid").drop
      (twoQueues.hub.account "paid").taken) = [⟨.null, some (.bool true)⟩] := by rfl
  refine ⟨_, _, log, ran, by decide +kernel, (emptied.handed "paid").trans requests, emptied, by decide +kernel⟩

end Flush

end Segmentation
