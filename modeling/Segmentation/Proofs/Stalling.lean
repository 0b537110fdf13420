import Segmentation.Proofs.Delivery
import Segmentation.Proofs.Lockstep
import Segmentation.Proofs.Reloads
import Segmentation.Proofs.Traffic

/-!
# What is queued when a drive stalls

A pass empties the queues before it lets the batches go on (`Drive.pass_boards`), so what is queued after it was loaded
by batches.  If nobody wakes the drive it stays there: a drive can stall with a request queued
(`Drive.stalls_with_a_request`).  It cannot if the batches linger, for then the batch that loaded the request goes on
later, and the drive passes once more (`Drive.stalls_empty`).
-/

namespace Segmentation

namespace Hub

/-- It waits in its queue to be taken. -/
def IsQueued (hub : Hub) (load : Load) : Prop := load.ticket ∈ (hub.coalescer load.matcher).queue

theorem isQueued_iff {hub : Hub} {load : Load} : hub.IsQueued load ↔
    (hub.account load.matcher).taken ≤ load.ticket ∧ load.ticket < (hub.account load.matcher).accepted.length := by
  simp only [IsQueued, Coalescer.queue, List.mem_range'_1, account, Coalescer.account, List.length_map]
  omega

/-- Clients close no queue. -/
theorem Uses.evaluators {before later : Hub} (uses : before.Uses later) : before.evaluators ⊆ later.evaluators := by
  have same {a b : Hub} (eq : b.evaluators = a.evaluators) : a.evaluators ⊆ b.evaluators :=
    eq ▸ List.Subset.refl _
  induction uses with
  | refl hub => exact same rfl
  | trans _ _ first second => exact List.Subset.trans first second
  | openQueue hub matcher evaluate =>
    unfold Hub.openQueue
    split
    · exact same rfl
    · intro entry mem
      rw [Hub.evaluators, List.map_append]
      exact List.mem_append_left _ mem
  | loadKeyed hub matcher key request => exact same (evaluators_modifyCoalescer hub _ _)
  | await hub load waiter => exact same (evaluators_await hub load waiter)
  | tell hub load waiter =>
    unfold Hub.tell
    split
    · exact same rfl
    · exact same ((evaluators_wakeAll _ _).trans (evaluators_modifyCoalescer hub _ _))
  | wakeAll hub waiters => exact same rfl
  | setAlarms hub alarms => exact same rfl

theorem All.of_subset {P : BatchEvaluator → Prop} {before later : Hub} (all : later.All P)
    (kept : before.evaluators ⊆ later.evaluators) : before.All P := fun entry mem => all entry (kept mem)

end Hub

namespace Drive

variable {κ : Type} [Client κ] [Client.Using κ]

/-- What a pass comes to: nothing is queued when the batches take their turns. -/
theorem pass_boards (drive : Drive κ) {scene : Scene} (names : scene.hub.names.Nodup) (within : scene.hub.Within) :
    ∃ flights ready taken, (drive.pass scene).1.flights = (pollReady flights 0 ready taken).1 ∧
      (drive.pass scene).2 = (pollReady flights 0 ready taken).2.2 ∧
      (∀ flight ∈ flights, flight ∈ drive.flights ∨ flight.stage = .boarding) ∧
      taken.hub.names.Nodup ∧ taken.hub.IsDrained ∧ taken.hub.reloads = scene.hub.reloads ∧
      scene.hub.evaluators ⊆ taken.hub.evaluators := by
  obtain ⟨same_flights, -, loaded, reloads⟩ := drive.pollClient_spec scene
  have polled_names := loaded.nodup names
  obtain ⟨drained, -⟩ := taken_spec polled_names
  refine ⟨(drive.pollClient scene).1.flights ++ (drive.pollClient scene).2.hub.takeFlights.1,
    (drive.pollClient scene).1.ready ++ ids (drive.pollClient scene).2.hub.takeFlights.1,
    ⟨(drive.pollClient scene).2.hub.takeFlights.2, (drive.pollClient scene).2.journal⟩, rfl, rfl, fun flight mem => ?_,
    drained.names ▸ polled_names, drained.isDrained (within.mono loaded), drained.reloads.trans reloads, ?_⟩
  · rcases List.mem_append.1 mem with old | new
    · exact .inl (same_flights ▸ old)
    · exact .inr ((drive.pollClient scene).2.hub.takeFlights_spec.1 flight new)
  · rw [Hub.evaluators_takeFlights]
    unfold pollClient
    split
    · exact List.Subset.refl _
    · exact (Client.Using.poll_uses drive.client scene).evaluators

/-- What holds of a drive at any time. -/
structure Poised (first : Hub) (drive : Drive κ) (hub : Hub) : Prop where
  names : hub.names.Nodup
  within : hub.Within
  reloads : first.reloads <+: hub.reloads
  flights : hub.All BatchEvaluator.Lingers → ∀ flight ∈ drive.flights, flight.Lingers

/-- What holds of a drive that was polled. -/
structure Tended (first : Hub) (drive : Drive κ) (hub : Hub) : Prop extends drive.Poised first hub where
  /-- What is queued was loaded by batches. -/
  queued : ∃ more, hub.reloads = first.reloads ++ more ∧ ∀ load, hub.IsQueued load → load ∈ more
  /-- If batches linger and something is queued, one of them goes on later. -/
  resumes : hub.All BatchEvaluator.Lingers → hub.IsDrained ∨ drive.ready ≠ [] ∨ hub.ResumesBatch

theorem Poised.pass {first : Hub} {drive : Drive κ} {scene : Scene} (poised : drive.Poised first scene.hub) :
    (drive.pass scene).1.Tended first (drive.pass scene).2.hub := by
  obtain ⟨flights, ready, taken, flights_eq, scene_eq, boards, names, drained, reloads, kept⟩ :=
    drive.pass_boards poised.names poised.within
  have within : taken.hub.Within := fun name => Nat.le_of_eq (drained name)
  obtain ⟨⟨more, added, -, told⟩, continues⟩ := pollReady_queues flights 0 ready within
  have evaluators_eq := evaluators_pollReady flights taken 0 ready
  have lingers (all : (drive.pass scene).2.hub.All BatchEvaluator.Lingers) :
      (∀ flight ∈ (drive.pass scene).1.flights, flight.Lingers) ∧
        ((drive.pass scene).2.hub.IsDrained ∨ (drive.pass scene).2.hub.ResumesBatch) := by
    rw [scene_eq] at all ⊢
    have staffed : taken.hub.All BatchEvaluator.Lingers := all.of_eq evaluators_eq.symm
    have linger : ∀ flight ∈ flights, flight.Lingers := by
      intro flight mem
      rcases boards flight mem with old | boards
      · exact poised.flights (staffed.of_subset kept) flight old
      · rw [Flight.Lingers, boards]
        trivial
    obtain ⟨later, loaded⟩ := pollReady_lingers linger 0 ready staffed
    rw [flights_eq]
    exact ⟨later, loaded.imp_left drained.of_ledger⟩
  rw [scene_eq] at lingers ⊢
  obtain ⟨before, before_eq⟩ := poised.reloads
  refine ⟨⟨continues.extends_.nodup names, within.mono continues.extends_, ?_, fun all => (lingers all).1⟩,
    ⟨before ++ more, ?_, fun load queued => ?_⟩, fun all => (lingers all).2.imp_right .inr⟩
  · rw [added, reloads, ← before_eq, List.append_assoc]
    exact List.prefix_append _ _
  · rw [added, reloads, ← before_eq, List.append_assoc]
  · -- nothing was queued before the turns of the batches
    obtain ⟨late, there⟩ := Hub.isQueued_iff.1 queued
    rw [continues.extends_.taken, drained] at late
    exact List.mem_append_right _ (told load late there)

omit [Client κ] [Client.Using κ] in
theorem Poised.advance {first : Hub} {drive : Drive κ} {hub : Hub} (poised : drive.Poised first hub) (now : Nat) :
    (drive.advance hub now).1.Poised first (drive.advance hub now).2 := by
  obtain ⟨flights, ledger⟩ := drive.advance_spec hub now
  refine ⟨?_, poised.within.of_ledger ledger, ?_, fun all => ?_⟩
  · rw [Hub.names_of_ledger ledger]
    exact poised.names
  · rw [Hub.reloads_of_ledger ledger]
    exact poised.reloads
  · rw [hub_advance] at all
    rw [flights]
    exact poised.flights (all.of_eq (hub.evaluators_advance now).symm)

omit [Client κ] [Client.Using κ] in
theorem Tended.advance {first : Hub} {drive : Drive κ} {hub : Hub} (tended : drive.Tended first hub) (now : Nat) :
    (drive.advance hub now).1.Tended first (drive.advance hub now).2 := by
  obtain ⟨-, ledger⟩ := drive.advance_spec hub now
  refine ⟨tended.toPoised.advance now, ?_, fun all => ?_⟩
  · obtain ⟨more, added, queued⟩ := tended.queued
    refine ⟨more, (Hub.reloads_of_ledger ledger).trans added, fun load waits => queued load ?_⟩
    rwa [Hub.isQueued_iff, Hub.account_of_ledger ledger, ← Hub.isQueued_iff] at waits
  · have before : hub.All BatchEvaluator.Lingers := by
      rw [hub_advance] at all
      exact all.of_eq (hub.evaluators_advance now).symm
    rcases tended.resumes before with drained | ready | ⟨alarm, set, id, own⟩
    · exact .inl (drained.of_ledger ledger)
    · obtain ⟨id, mem⟩ := List.exists_mem_of_ne_nil _ ready
      exact .inr (.inl (List.ne_nil_of_mem ((drive.mem_ready_advance hub now id).2 (.inl mem))))
    · -- the batch can go on now, or its alarm stays set
      rcases Nat.lt_or_ge now alarm.deadline with later | due
      · refine .inr (.inr ⟨alarm, ?_, id, own⟩)
        rw [hub_advance, Hub.alarms_advance]
        exact List.mem_filter.2 ⟨set, decide_eq_true later⟩
      · exact .inr (.inl (List.ne_nil_of_mem ((drive.mem_ready_advance hub now id).2 (.inr ⟨alarm, set, due, own⟩))))

/-- Whatever is queued between two passes of a drive was loaded by its batches.  If they sleep after all that they load,
then in a drive that is not awake nothing is queued, or one of the batches has an alarm set: the drive does not stall
before the queues are empty. -/
theorem stalls_empty (client : κ) {first : Scene} (names : first.hub.names.Nodup) (within : first.hub.Within)
    (limit : Option Nat) (moves : Nat) :
    let s := (Machine.run limit moves (Drive.start client, first)).2
    (∃ more, s.2.hub.reloads = first.hub.reloads ++ more ∧ ∀ load, s.2.hub.IsQueued load → load ∈ more) ∧
      (s.2.hub.All BatchEvaluator.Lingers → Machine.Idle s →
        (s.2.hub.pending = 0 ∨ s.2.hub.ResumesBatch) ∧ (Machine.nextAlarm s = none → s.2.hub.pending = 0)) := by
  intro s
  have starts : (Drive.start client).Poised first.hub first.hub :=
    ⟨names, within, List.prefix_rfl, fun _ => List.forall_mem_nil _⟩
  let kept (s : Drive κ × Scene) : Prop := s.1.Tended first.hub s.2.hub
  have tended : kept s := by
    refine Machine.runFor_keeps (fun s tended => ?_) (fun now s tended => ?_) limit moves starts.pass
    · exact Poised.pass (Tended.toPoised tended)
    · exact Tended.advance tended now
  refine ⟨tended.queued, fun all idle => ?_⟩
  have goes_on : s.2.hub.pending = 0 ∨ s.2.hub.ResumesBatch := by
    rcases tended.resumes all with drained | ready | resumes
    · exact .inl (Hub.pending_of_drained tended.names drained)
    · have asleep : s.1.awake s.2.hub = false := idle.2
      have nobody := (Bool.or_eq_false_iff.1 asleep).2
      exact absurd (by simpa using nobody) ready
    · exact .inr resumes
  refine ⟨goes_on, fun none_set => goes_on.resolve_right ?_⟩
  rintro ⟨alarm, set, -⟩
  have nothing : s.2.hub.alarms = [] := by simpa [Machine.nextAlarm, Hub.nextAlarm] using none_set
  rw [nothing] at set
  cases set

/-- Keeps the first request that it is handed without an answer, loads another one, and ends some ticks later.  From
then on it says yes. -/
def hoards (ticks : Nat) : BatchEvaluator := fun number _ => .starts <|
  match number with
  | 0 => .keep 0 (.loadInto none ⟨.null, some .null⟩ (.sleep ticks (.done (.value ()))))
  | _ + 1 => .resolve 0 true (.done (.value ()))

theorem lingers_hoards (ticks : Nat) : BatchEvaluator.Lingers (hoards (ticks + 1)) := by
  rintro (_ | number) requests task starts
  · cases starts
    rfl
  · cases starts
    rfl

def hoarding (ticks : Nat) : Scene := ⟨Hub.empty.openQueue "member" (hoards ticks), .empty⟩

/-- A drive of somebody who waits for the answer to the first request. -/
def hoarded (ticks : Nat) : Drive Performance × Scene :=
  (Machine.run none 5 (Drive.start (Performance.start (.load "member" ⟨.null, none⟩) 0 .empty), hoarding ticks)).2

/-- If the batch lingers its own request is handed over before the drive stalls. -/
theorem stalls_empty_handed : Machine.Idle (hoarded 1) ∧ Machine.nextAlarm (hoarded 1) = none ∧
    (hoarded 1).2.hub.reloads = [⟨"member", 1⟩] ∧ (hoarded 1).2.hub.pending = 0 := by
  have names : (hoarding 1).hub.names.Nodup := by decide
  have within : (hoarding 1).hub.Within := by
    intro name
    rw [hoarding, Hub.account, Hub.coalescer_openQueue]
    exact Nat.zero_le _
  have lingers : (hoarded 1).2.hub.All BatchEvaluator.Lingers := by
    have staff : (hoarded 1).2.hub.evaluators = [("member", hoards 1)] := by rfl
    rw [Hub.All, staff]
    exact List.forall_mem_singleton.2 (lingers_hoards 0)
  have idle : Machine.Idle (hoarded 1) := ⟨by decide +kernel, by decide +kernel⟩
  have none_set : Machine.nextAlarm (hoarded 1) = none := by decide +kernel
  exact ⟨idle, none_set, by decide +kernel, ((stalls_empty _ names within none 5).2 lingers idle).2 none_set⟩

/-- If the batch has ended at once, nobody wakes the drive to hand its request over. -/
theorem stalls_with_a_request : Machine.Idle (hoarded 0) ∧ Machine.nextAlarm (hoarded 0) = none ∧
    (hoarded 0).2.hub.IsQueued ⟨"member", 1⟩ ∧ (hoarded 0).2.hub.pending = 1 := by
  refine ⟨⟨by decide +kernel, by decide +kernel⟩, by decide +kernel, ?_, by decide +kernel⟩
  exact Hub.isQueued_iff.2 (by decide +kernel)

end Drive

end Segmentation
