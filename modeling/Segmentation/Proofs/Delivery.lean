import Segmentation.Engine.Call
import Segmentation.Proofs.Loading
import Segmentation.Proofs.Turns

/-!
# No request is lost on its way to an evaluator

At the end of a pass all queues are empty, unless a batch has queued requests of its own; so what is queued when the
client was polled was loaded by this poll.  Each queue that is not empty then makes one batch, whose evaluator is
called before the pass ends.  `Drive.Run.delivers` says this of all runs of a drive whose client does nothing else
with the queues than to load (`Client.Loading`), and that all batches have landed when the drive has finished.
-/

namespace Segmentation

/-- Where nothing is queued, emptying the queues takes no batch, and the call concludes at once. -/
theorem Call.flushQueues_of_drained {hub : Hub} (drained : hub.IsDrained) (call : Call) (span context : Nat)
    (outcome : Outcome) (invocations : Nat) (journal : Journal) :
    call.flushQueues span context outcome invocations .start ⟨hub, journal⟩ =
      { call with strays := hub.answerAlarms }.conclude span outcome
        ((journal.notice (.segmentEvaluated call.target.name invocations 0)).record
          (.span (.contextReleased context))) := by
  have nothing := Hub.takeFlights_of_drained drained
  simp only [flushQueues, Flush.pass, Flush.start, Flush.pollFlights, Flush.nextRound, List.foldl_nil, nothing,
    Bool.false_eq_true, if_false, if_true]

namespace Drive

/-! ### Passes -/

variable {κ : Type} [Client κ]

/-- Between two passes all batches in flight sleep, and their numbers are different and were given out. -/
structure Sound (drive : Drive κ) (hub : Hub) : Prop where
  names : hub.names.Nodup
  asleep : boarding drive.flights = []
  nodup : (ids drive.flights).Nodup
  numbered : ∀ id ∈ ids drive.flights, id < hub.nextFlight

theorem pollClient_spec [Client.Loading κ] (drive : Drive κ) (scene : Scene) :
    (drive.pollClient scene).1.flights = drive.flights ∧ (drive.pollClient scene).1.ready = drive.ready ∧
      scene.hub.Extends (drive.pollClient scene).2.hub ∧
      (drive.pollClient scene).2.hub.reloads = scene.hub.reloads := by
  unfold pollClient
  split
  · exact ⟨rfl, rfl, .refl _, rfl⟩
  · have loads := Client.Loading.poll_loads drive.client scene
    exact ⟨rfl, rfl, loads.extends_, loads.reloads⟩

/-- The batches that are taken hold the queues, and have not started. -/
theorem taken_spec {hub : Hub} (names : hub.names.Nodup) :
    hub.Drained hub.names hub.takeFlights.2 ∧
      hub.takeFlights.2.nextFlight = hub.nextFlight + hub.queued.length ∧
      hub.takeFlights.1.map (fun flight => (flight.entry hub.takeFlights.2).2) = hub.queued ∧
      ids hub.takeFlights.1 = List.range' hub.nextFlight hub.queued.length ∧
      boarding hub.takeFlights.1 = hub.takeFlights.1 ∧ Filled hub.takeFlights.1 hub.takeFlights.2 := by
  obtain ⟨new_eq, drained⟩ := Hub.takeFlights_numbered names
  have requests : (Hub.numbered hub.nextFlight (hub.batches hub.names)).map
      (fun flight => (flight.entry hub.takeFlights.2).2) = hub.queued :=
    Hub.map_numbered_queued hub.nextFlight drained
  have count : (hub.batches hub.names).length = hub.queued.length := by
    have lengths := congrArg List.length requests
    simpa [Hub.numbered] using lengths
  rw [new_eq]
  refine ⟨drained, count ▸ drained.nextFlight, requests, ?_, List.filter_eq_self.2 fun flight mem => ?_, fun flight mem => ?_⟩
  · rw [← count]
    exact Hub.map_id_numbered _ _
  · obtain ⟨entry, -, rfl⟩ := List.mem_map.1 mem
    rfl
  · obtain ⟨⟨⟨name, tickets⟩, id⟩, listed, rfl⟩ := List.mem_map.1 mem
    obtain ⟨known, queue_eq⟩ := Hub.mem_batches (List.fst_mem_of_mem_zipIdx listed)
    refine ⟨drained.names ▸ known, fun ticket given => ?_⟩
    rw [(drained.account name).1]
    exact Coalescer.lt_of_mem_queue (queue_eq ▸ given)

/-- The batches that are taken get numbers that no batch in flight has. -/
theorem ids_takeFlights {flights : List Flight} {hub : Hub} (names : hub.names.Nodup) (nodup : (ids flights).Nodup)
    (numbered : ∀ id ∈ ids flights, id < hub.nextFlight) :
    (ids (flights ++ hub.takeFlights.1)).Nodup ∧
      ∀ id ∈ ids (flights ++ hub.takeFlights.1), id < hub.takeFlights.2.nextFlight := by
  obtain ⟨-, count, -, new_ids, -⟩ := taken_spec names
  have all_ids : ids (flights ++ hub.takeFlights.1) = ids flights ++ List.range' hub.nextFlight hub.queued.length := by
    rw [← new_ids]
    exact List.map_append
  rw [all_ids, count, List.nodup_append]
  refine ⟨⟨nodup, List.nodup_range', fun a old b young same => ?_⟩, fun id mem => ?_⟩
  · have below := numbered a old
    have above := (List.mem_range'_1.1 young).1
    omega
  · rcases List.mem_append.1 mem with old | young
    · exact Nat.lt_add_right _ (numbered id old)
    · exact (List.mem_range'_1.1 young).2

/-- While all batches in flight sleep those that are taken are the ones about to start. -/
theorem boarding_takeFlights {flights : List Flight} {hub : Hub} (names : hub.names.Nodup)
    (asleep : boarding flights = []) : boarding (flights ++ hub.takeFlights.1) = hub.takeFlights.1 := by
  obtain ⟨-, -, -, -, new_boarding, -⟩ := taken_spec names
  have apart : boarding (flights ++ hub.takeFlights.1) = boarding flights ++ boarding hub.takeFlights.1 :=
    List.filter_append _ _
  rw [apart, asleep, new_boarding, List.nil_append]

/-- In a pass all batches have their turns, those that were taken among them. -/
theorem pass_turns [Client.Loading κ] (drive : Drive κ) (scene : Scene) :
    let polled := drive.pollClient scene
    let flights := drive.flights ++ polled.2.hub.takeFlights.1
    let ready := drive.ready ++ ids polled.2.hub.takeFlights.1
    let taken : Scene := ⟨polled.2.hub.takeFlights.2, polled.2.journal⟩
    (drive.pass scene).1.flights = (pollReady flights 0 ready taken).1 ∧
      (drive.pass scene).2 = (pollReady flights 0 ready taken).2.2 ∧ drive.happens scene = turns flights ready taken := by
  obtain ⟨same_flights, same_ready, -, -⟩ := drive.pollClient_spec scene
  rw [← same_flights, ← same_ready]
  exact ⟨rfl, rfl, rfl⟩

/-- A pass hands the queues, as they are when the client was polled, to the evaluators.  The batches in flight later
are those that were, and the new ones, but for those that land. -/
theorem pass_spec [Client.Loading κ] {drive : Drive κ} {scene : Scene} (sound : drive.Sound scene.hub) :
    let polled := (drive.pollClient scene).2.hub
    let final := drive.pass scene
    scene.hub.Extends polled ∧ polled.reloads = scene.hub.reloads ∧
      (∃ batches : List (Nat × String × List Request), ((drive.happens scene).filterMap Happening.batch?).Perm batches ∧
        batches.map (·.1) = List.range' scene.hub.nextFlight polled.queued.length ∧
        batches.map (·.2) = polled.queued) ∧
      ((drive.happens scene).filterMap Happening.landing? ++ ids final.1.flights).Perm
        (ids drive.flights ++ List.range' scene.hub.nextFlight polled.queued.length) ∧
      (∃ taken : Hub, polled.Drained polled.names taken ∧ taken.Continues final.2.hub) ∧
      final.1.Sound final.2.hub := by
  intro polled final
  obtain ⟨-, -, loaded, reloads⟩ := drive.pollClient_spec scene
  obtain ⟨final_flights, final_scene, happens_eq⟩ := drive.pass_turns scene
  have names : polled.names.Nodup := loaded.nodup sound.names
  obtain ⟨drained, -, requests, new_ids, -, new_filled⟩ := taken_spec names
  obtain ⟨nodup, all_numbered⟩ := ids_takeFlights names sound.nodup (loaded.nextFlight ▸ sound.numbered)
  have all_boarding := boarding_takeFlights names sound.asleep
  let ready := drive.ready ++ ids polled.takeFlights.1
  have all_ready : ∀ flight ∈ polled.takeFlights.1, flight.id ∈ ready :=
    fun flight mem => List.mem_append_right _ (List.mem_map_of_mem mem)
  obtain ⟨batches, left, landings, continues⟩ := turns_spec ready (drive.flights ++ polled.takeFlights.1) 0
    ⟨polled.takeFlights.2, (drive.pollClient scene).2.journal⟩ nodup (by rwa [all_boarding])
  -- All batches that are about to start have their turns.
  rw [all_boarding, List.filter_eq_self.2 fun flight mem => decide_eq_true (all_ready flight mem)] at batches
  rw [all_boarding, List.filter_eq_nil_iff.2 fun flight mem => by simp [all_ready flight mem]] at left
  rw [← final_scene] at continues
  rw [← final_flights, ← happens_eq] at landings
  rw [← final_flights] at left
  rw [← happens_eq] at batches
  have flights_ids : ids (drive.flights ++ polled.takeFlights.1) =
      ids drive.flights ++ List.range' scene.hub.nextFlight polled.queued.length := by
    rw [← loaded.nextFlight, ← new_ids]
    exact List.map_append
  refine ⟨loaded, reloads, ⟨_, batches, ?_, ?_⟩, flights_ids ▸ landings, ⟨_, drained, continues⟩,
    ⟨?_, left, ?_, fun id mem => ?_⟩⟩
  · rw [List.map_map, ← loaded.nextFlight, ← new_ids]
    rfl
  · rw [List.map_map]
    exact requests
  · exact continues.extends_.nodup (drained.names ▸ names)
  · exact List.Nodup.sublist (List.sublist_append_right _ _) (landings.nodup_iff.2 nodup)
  · rw [continues.extends_.nextFlight]
    exact all_numbered id (landings.subset (List.mem_append_right _ mem))

/-- All requests that were handed to the evaluator of a matcher, in the order of its calls. -/
def handed (name : String) (log : List Happening) : List Request :=
  (log.filterMap Happening.batch?).flatMap fun (_, matcher, requests) => if matcher = name then requests else []

theorem handed_append (name : String) (log more : List Happening) :
    handed name (log ++ more) = handed name log ++ handed name more := by simp [handed]

/-- What is handed over when the queues are. -/
theorem handed_of_queued {log : List Happening} {batches : List (Nat × String × List Request)} {hub : Hub}
    (names : hub.names.Nodup) (perm : (log.filterMap Happening.batch?).Perm batches)
    (queued : batches.map (·.2) = hub.queued) (name : String) :
    handed name log = (hub.account name).rest.map (·.2) := by
  have only (l : List (Nat × String × List Request)) :
      (l.flatMap fun (_, matcher, requests) => if matcher = name then requests else []) =
        (l.filter (·.2.1 = name)).flatMap (·.2.2) := by
    induction l with
    | nil => rfl
    | cons batch l ih =>
      by_cases here : batch.2.1 = name
      · simp [here, ih]
      · simp [here, ih]
  have mine : (batches.filter (·.2.1 = name)).map (·.2) =
      if (hub.account name).rest = [] then [] else [(name, (hub.account name).rest.map (·.2))] := by
    rw [← Hub.filter_queued names, ← queued, List.filter_map]
    rfl
  have same := perm.filter (·.2.1 = name)
  rw [handed, only]
  by_cases nothing : (hub.account name).rest = []
  · rw [if_pos nothing, List.map_eq_nil_iff] at mine
    rw [mine] at same
    rw [same.eq_nil, nothing]
    rfl
  · rw [if_neg nothing] at mine
    obtain ⟨batch, batch_eq, single⟩ := List.map_eq_singleton_iff.1 mine
    rw [batch_eq] at same
    rw [List.perm_singleton.1 same]
    simp [single]

/-! ### Runs -/

/-- What holds between the passes of a run. -/
structure Delivered (first : Hub) (log : List Happening) (drive : Drive κ) (hub : Hub) : Prop where
  sound : drive.Sound hub
  reloads : first.reloads <+: hub.reloads
  landed : (log.filterMap Happening.landing? ++ ids drive.flights).Perm ((log.filterMap Happening.batch?).map (·.1))
  drained : hub.reloads = first.reloads → hub.IsDrained
  handed : hub.reloads = first.reloads → ∀ name, hub.requests name = first.requests name ++ handed name log

theorem Delivered.pass [Client.Loading κ] {first : Hub} {log : List Happening} {drive : Drive κ} {scene : Scene}
    (h : Delivered first log drive scene.hub) :
    Delivered first (log ++ drive.happens scene) (drive.pass scene).1 (drive.pass scene).2.hub := by
  obtain ⟨loaded, reloads, ⟨batches, perm, numbers, queued⟩, landings, ⟨taken, drained, continues⟩, sound⟩ :=
    pass_spec h.sound
  have names := loaded.nodup h.sound.names
  have grown : scene.hub.reloads <+: (drive.pass scene).2.hub.reloads := by
    rw [← reloads, ← drained.reloads]
    exact continues.reloads
  -- if nothing was loaded by batches until the end of the pass, nothing was before it
  have quiet_before (quiet : (drive.pass scene).2.hub.reloads = first.reloads) : scene.hub.reloads = first.reloads :=
    (h.reloads.eq_of_length_le (quiet ▸ grown.length_le)).symm
  have quiet_after (quiet : (drive.pass scene).2.hub.reloads = first.reloads) :
      (drive.pass scene).2.hub.ledger = taken.ledger := by
    refine continues.quiet ?_
    rw [drained.reloads, reloads, quiet_before quiet, quiet]
  refine ⟨sound, h.reloads.trans grown, ?_, fun quiet => ?_, fun quiet name => ?_⟩
  · have all_landings : (log.filterMap Happening.landing? ++
        ((drive.happens scene).filterMap Happening.landing? ++ ids (drive.pass scene).1.flights)).Perm
        ((log.filterMap Happening.batch?).map (·.1) ++ ((drive.happens scene).filterMap Happening.batch?).map (·.1)) := by
      refine (List.Perm.append_left _ landings).trans ?_
      rw [← List.append_assoc, ← numbers]
      exact h.landed.append (perm.symm.map _)
    simpa using all_landings
  · have was_drained := h.drained (quiet_before quiet)
    have taken_drained : taken.IsDrained := by
      refine drained.isDrained fun name => ?_
      rw [loaded.taken name, was_drained name]
      exact (loaded.accepted name).length_le
    intro name
    rw [Hub.account_of_ledger (quiet_after quiet) name]
    exact taken_drained name
  · have was_drained := h.drained (quiet_before quiet)
    have requests_eq := Hub.requests_of_drained was_drained loaded name
    have same := (drained.account name).1
    rw [Hub.requests, Hub.account_of_ledger (quiet_after quiet) name, same, ← Hub.requests, requests_eq,
      h.handed (quiet_before quiet) name, handed_append, handed_of_queued names perm queued, List.append_assoc]

omit [Client κ] in
/-- Alarms do nothing with the queues or with the batches in flight. -/
theorem advance_spec (drive : Drive κ) (hub : Hub) (now : Nat) :
    (drive.advance hub now).1.flights = drive.flights ∧ (drive.advance hub now).2.ledger = hub.ledger := by
  refine List.foldlRecOn (hub.takeDue now).1 _ (motive := fun r : Drive κ × Hub =>
    r.1.flights = drive.flights ∧ r.2.ledger = hub.ledger) ⟨rfl, rfl⟩ fun r kept alarm _ => ?_
  obtain ⟨flights, ledger⟩ := kept
  dsimp only
  split
  · exact ⟨flights, ledger⟩
  · exact ⟨flights, (Hub.ledger_goOff _ _).trans ledger⟩

theorem happensBy_silent {α : Type} {f : Happening → Option α} (silent : ∀ load value, f (.given load value) = none)
    (hub : Hub) (now : Nat) : (hub.happensBy now).filterMap f = [] := by
  rw [Hub.happensBy, List.filterMap_filterMap, List.filterMap_eq_nil_iff]
  intro alarm _
  cases alarm.purpose <;> simp [silent]

omit [Client κ] in
theorem Delivered.advance {first : Hub} {log : List Happening} {drive : Drive κ} {hub : Hub}
    (h : Delivered first log drive hub) (now : Nat) :
    Delivered first (log ++ hub.happensBy now) (drive.advance hub now).1 (drive.advance hub now).2 := by
  obtain ⟨flights, ledger⟩ := drive.advance_spec hub now
  have reloads := Hub.reloads_of_ledger ledger
  have no_batch : (hub.happensBy now).filterMap Happening.batch? = [] := happensBy_silent (fun _ _ => rfl) hub now
  have no_landing : (hub.happensBy now).filterMap Happening.landing? = [] := happensBy_silent (fun _ _ => rfl) hub now
  refine ⟨⟨?_, ?_, ?_, ?_⟩, reloads ▸ h.reloads, ?_, fun quiet name => ?_, fun quiet name => ?_⟩
  · rw [Hub.names_of_ledger ledger]
    exact h.sound.names
  · rw [flights]
    exact h.sound.asleep
  · rw [flights]
    exact h.sound.nodup
  · rw [flights, Hub.nextFlight_of_ledger ledger]
    exact h.sound.numbered
  · rw [List.filterMap_append, List.filterMap_append, no_batch, no_landing, flights, List.append_nil, List.append_nil]
    exact h.landed
  · rw [Hub.account_of_ledger ledger]
    exact h.drained (reloads ▸ quiet) name
  · have nothing : Drive.handed name (hub.happensBy now) = [] := by
      rw [Drive.handed, no_batch]
      rfl
    rw [Hub.requests, Hub.account_of_ledger ledger, handed_append, nothing, List.append_nil]
    exact h.handed (reloads ▸ quiet) name

theorem Run.delivered [Client.Loading κ] {client : κ} {first : Hub} (names : first.names.Nodup)
    (drained : first.IsDrained) {log : List Happening} {drive : Drive κ} {hub : Hub}
    (run : Run client first log drive hub) : Delivered first log drive hub := by
  induction run with
  | start =>
    refine ⟨⟨names, rfl, List.nodup_nil, List.forall_mem_nil _⟩, List.prefix_rfl, .refl _, fun _ => drained, fun _ name => ?_⟩
    simp [handed]
  | @pass log drive hub run journal ih =>
    have before : Delivered first log drive (Scene.mk hub journal).hub := ih
    exact before.pass
  | advance run now ih => exact ih.advance now

/-- What a pass does with the requests that its client loads. -/
structure PassDelivers (drive : Drive κ) (scene : Scene) : Prop where
  /-- The requests that were loaded are handed to the evaluators of their matchers, in the order of loading. -/
  batches : (((drive.happens scene).filterMap Happening.batch?).map (·.2)).Perm
    (scene.hub.loadedSince (drive.pollClient scene).2.hub)
  /-- There is at most one batch for each matcher. -/
  once : (((drive.happens scene).filterMap Happening.batch?).map (·.2.1)).Nodup
  /-- There is no empty batch. -/
  filled : ∀ batch ∈ (drive.happens scene).filterMap Happening.batch?, batch.2.2 ≠ []
  /-- The calls of the evaluators stand in the journal. -/
  noted : (drive.pollClient scene).2.journal.Notes (drive.happens scene) (drive.pass scene).2.journal

theorem passDelivers [Client.Loading κ] {drive : Drive κ} {scene : Scene} (sound : drive.Sound scene.hub)
    (drained : scene.hub.IsDrained) : drive.PassDelivers scene := by
  obtain ⟨loaded, -, ⟨batches, perm, -, queued⟩, -⟩ := pass_spec sound
  have names := loaded.nodup sound.names
  have expected := Hub.queued_of_drained drained loaded
  have same : (((drive.happens scene).filterMap Happening.batch?).map (·.2)).Perm
      (drive.pollClient scene).2.hub.queued := queued ▸ perm.map _
  refine ⟨expected ▸ same, ?_, fun batch mem => ?_, drive.notes_pass scene⟩
  · have matchers := same.map (·.1)
    rw [List.map_map] at matchers
    exact matchers.nodup_iff.2 (Hub.nodup_queued names)
  · have listed := same.subset (List.mem_map_of_mem mem)
    exact Hub.queued_ne_nil listed

/-- As long as requests are loaded by polls of the client only, every request is handed to the evaluator of its matcher
at the end of the pass in which it was loaded.  A drive has finished exactly when its client has settled and all the
batches that it started have landed, and then nothing is queued: emptying the queues takes no batch. -/
theorem Run.delivers [Client.Loading κ] {client : κ} {first : Hub} (names : first.names.Nodup)
    (drained : first.IsDrained) {log : List Happening} {drive : Drive κ} {hub : Hub}
    (run : Run client first log drive hub) (quiet : hub.reloads = first.reloads) :
    (∀ journal, drive.PassDelivers ⟨hub, journal⟩) ∧
    (∀ name, hub.requests name = first.requests name ++ handed name log) ∧
    (drive.finished = true ↔ Client.settled drive.client = true ∧
      (log.filterMap Happening.landing?).Perm ((log.filterMap Happening.batch?).map (·.1))) ∧
    hub.pending = 0 ∧
    ∀ (journal : Journal) (call : Call) (span context invocations : Nat) (outcome : Outcome),
      call.flushQueues span context outcome invocations .start ⟨hub, journal⟩ =
        { call with strays := hub.answerAlarms }.conclude span outcome
          ((journal.notice (.segmentEvaluated call.target.name invocations 0)).record
            (.span (.contextReleased context))) := by
  have delivered := run.delivered names drained
  have hub_drained := delivered.drained quiet
  refine ⟨fun journal => passDelivers delivered.sound hub_drained, delivered.handed quiet, ?_,
    Hub.pending_of_drained delivered.sound.names hub_drained, ?_⟩
  · have landed := delivered.landed
    constructor
    · intro ended
      obtain ⟨settled, empty⟩ := Bool.and_eq_true_iff.1 ended
      rw [List.isEmpty_iff.1 empty] at landed
      exact ⟨settled, by simpa [ids] using landed⟩
    · rintro ⟨settled, all⟩
      have lengths := landed.length_eq.trans all.length_eq.symm
      rw [List.length_append, ids, List.length_map] at lengths
      have empty : drive.flights = [] := List.length_eq_zero_iff.1 (by omega)
      exact Bool.and_eq_true_iff.2 ⟨settled, List.isEmpty_iff.2 empty⟩
  · intro journal call span context invocations outcome
    exact Call.flushQueues_of_drained hub_drained call span context outcome invocations journal

/-- A batched evaluator that says yes to the first request and forgets the others. -/
def firstOnly : BatchEvaluator := fun _ _ => .starts (.resolve 0 true (.done (.value ())))

/-- Two batched matchers of the same evaluation. -/
def twoBatched : Expr :=
  .and [.leaf ⟨"member", none, ⟨none, .batch firstOnly⟩, 0⟩, .leaf ⟨"paid", none, ⟨none, .batch firstOnly⟩, 1⟩]

def twoBatchedEvaluation : Evaluation :=
  (Evaluation.start (.start ⟨.null, "premium", true, 0, none⟩) twoBatched ⟨.empty, .empty⟩).1

/-- Both are called once, in the first pass, and after the second pass the drive has finished with nothing queued. -/
theorem delivers_two_batched : ∃ log drive hub, Run twoBatchedEvaluation .empty log drive hub ∧
    drive.finished = true ∧ handed "member" log = [⟨.null, none⟩] ∧ handed "paid" log = [⟨.null, none⟩] ∧
    hub.pending = 0 := by
  have run : Run twoBatchedEvaluation .empty _ _ _ := (Run.start.pass .empty).pass .empty
  have names : Hub.empty.names.Nodup := List.nodup_nil
  have drained : Hub.empty.IsDrained := fun _ => rfl
  refine ⟨_, _, _, run, by decide, rfl, rfl, ?_⟩
  exact (run.delivers names drained rfl).2.2.2.1

end Drive

end Segmentation
