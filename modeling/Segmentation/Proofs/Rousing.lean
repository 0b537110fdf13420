import Segmentation.Proofs.Entries
import Segmentation.Proofs.Mirrors.Call
import Segmentation.Proofs.Past.Solitary

/-!
# Who is woken by alarms

In a large party only those calls have turns that were woken, and an alarm wakes the calls that it rouses.  That is
enough: a call that sleeps, and is awake when the alarms of an instant have gone off, was roused by one of them
(`Call.roused`).
-/

namespace Segmentation

namespace Hub

/-- Nobody would be told of an answer to the load. -/
def Unheard (hub : Hub) (load : Load) : Prop := hub.state load = .waiting → hub.waiters load = []

/-- An alarm that rouses nobody answers a load, and nobody would be told of it. -/
theorem unheard_of_rouses {hub : Hub} {alarm : Alarm} (idle : hub.rouses alarm = false) :
    ∃ load value, alarm.purpose = .answer load value ∧ hub.Unheard load := by
  unfold rouses at idle
  split at idle
  · rename_i load value purpose
    refine ⟨load, value, purpose, fun waits => ?_⟩
    simpa [waits] using idle
  · cases idle

theorem Unheard.resolve {hub : Hub} {other : Load} (unheard : hub.Unheard other) (load : Load) (value : Bool) :
    (hub.resolve load value).2.Unheard other := by
  intro waits
  rw [waiters_resolve]
  rw [state_resolve] at waits
  split at waits
  · cases waits
  · exact unheard waits

theorem Unheard.release {hub : Hub} {other : Load} (unheard : hub.Unheard other) (load : Load) :
    (hub.release load).Unheard other := by
  intro waits
  rw [waiters_release]
  rw [state_release] at waits
  split at waits
  · cases waits
  · exact unheard waits

/-- An answer of which nobody is told wakes nobody. -/
theorem woken_of_unheard {hub : Hub} {load : Load} (unheard : hub.Unheard load) (value : Bool) :
    (hub.goOff (.answer load value)).woken = hub.woken := by
  have told_of_answer : (if hub.state load = .waiting then hub.waiters load else []) = [] := by
    split
    · exact unheard ‹_›
    · rfl
  have told_of_loss : (if (hub.resolve load value).2.state load = .waiting ∧
      ((hub.resolve load value).2.release load).state load = .lost then (hub.resolve load value).2.waiters load
      else []) = [] := by
    split
    · exact unheard.resolve load value (And.left ‹_›)
    · rfl
  change ((hub.resolve load value).2.release load).woken = hub.woken
  rw [woken_release, told_of_loss, woken_resolve, told_of_answer, List.append_nil, List.append_nil]

theorem rouses_of_firstRousing {hub : Hub} {now : Nat} (nobody : hub.firstRousing now = none) :
    ∀ alarm ∈ (hub.takeDue now).1, hub.rouses alarm = false := by
  intro alarm mem
  have none_found := List.find?_eq_none.1 (Option.map_eq_none_iff.1 nobody) alarm mem
  simpa using none_found

theorem Mirrors.firstRousing {hub hub' : Hub} (mirrors : hub.Mirrors hub') (now : Nat) :
    (hub.firstRousing now).isSome = (hub'.firstRousing now).isSome := by
  have due_eq := (mirrors.takeDue now).1
  obtain ⟨alarms, rfl, -⟩ := mirrors
  -- who is roused is read off the effects
  have same : (hub.takeDue now).1.filterMap (fun alarm => if hub.rouses alarm then some () else none) =
      (({ hub with alarms } : Hub).takeDue now).1.filterMap (fun alarm => if hub.rouses alarm then some () else none) :=
    Alarm.filterMap_eq_of_effects due_eq fun _ _ _ => rfl
  have read (due : List Alarm) : (due.find? hub.rouses).isSome =
      !(due.filterMap fun alarm => if hub.rouses alarm then some () else none).isEmpty := by
    induction due with
    | nil => rfl
    | cons alarm due ih => cases rouses : hub.rouses alarm <;> simp [rouses, ih]
  have rouses_eq : ({ hub with alarms } : Hub).rouses = hub.rouses := rfl
  rw [Hub.firstRousing, Hub.firstRousing, Option.isSome_map, Option.isSome_map, rouses_eq, read, read, same]

end Hub

/-- Alarms that rouse nobody leave a drive as it is, and wake nobody at the hub. -/
theorem Drive.advance_of_idle (drive : Drive Evaluation) {hub : Hub} {now : Nat}
    (nobody : hub.firstRousing now = none) :
    (drive.advance hub now).1 = drive ∧ (drive.advance hub now).2.woken = hub.woken := by
  have idle : ∀ alarm ∈ (hub.takeDue now).1, ∃ load value, alarm.purpose = .answer load value ∧
      (hub.takeDue now).2.Unheard load :=
    fun alarm mem => Hub.unheard_of_rouses (Hub.rouses_of_firstRousing nobody alarm mem)
  have woken_eq : (hub.takeDue now).2.woken = hub.woken := rfl
  rw [Drive.advance_eq, ← woken_eq]
  generalize (hub.takeDue now).1 = due, (hub.takeDue now).2 = hub at idle
  induction due generalizing hub with
  | nil => exact ⟨rfl, rfl⟩
  | cons alarm due ih =>
    obtain ⟨load, value, purpose, unheard⟩ := idle alarm List.mem_cons_self
    have rouse_eq : rouse (drive, hub) alarm = (drive, hub.goOff (.answer load value)) := by
      unfold rouse
      rw [purpose]
    rw [List.foldl_cons, rouse_eq, ← Hub.woken_of_unheard unheard value]
    refine ih _ fun alarm mem => ?_
    obtain ⟨other, value', purpose, unheard⟩ := idle alarm (List.mem_cons_of_mem _ mem)
    exact ⟨other, value', purpose, (unheard.resolve load value).release load⟩

namespace Call

theorem Mirrors.firstRousing {call call' : Call} (mirrors : call.Mirrors call') (now : Nat) :
    (call.firstRousing now).isSome = (call'.firstRousing now).isSome := by
  obtain ⟨_, _, _, stage, _⟩ := call
  obtain ⟨_, _, _, stage', _⟩ := call'
  obtain ⟨-, stages⟩ := mirrors
  unfold Call.firstRousing
  cases stages with
  | driving hubs => exact hubs.firstRousing now
  | flushing hubs => exact hubs.firstRousing now
  | recovering span deadline alarm alarm' rest =>
    dsimp only
    split <;> rfl
  | answered value => rfl

/-- A call that sleeps, and is awake when alarms have gone off, was roused by one of them. -/
theorem roused {s : Solitary} (sound : s.Sound) (asleep : s.call.awake s.journal.now = false) {now : Nat}
    (up : (s.call.advance now).awake now = true) : (s.call.firstRousing now).isSome := by
  rw [Option.isSome_iff_ne_none]
  intro nobody
  obtain ⟨⟨subject, target, fallback, stage, strays⟩, journal⟩ := s
  cases stage with
  | waiting => exact sound.1 rfl
  | driving span context hub drive =>
    have asleep : drive.awake hub = false := asleep
    have up : (drive.advance hub now).1.awake (drive.advance hub now).2 = true := up
    obtain ⟨drive_eq, woken_eq⟩ := drive.advance_of_idle nobody
    have same : (drive.advance hub now).1.awake (drive.advance hub now).2 = drive.awake hub := by
      simp only [drive_eq, Drive.awake, Client.stirred, Evaluation.news, woken_eq]
    rw [same, asleep] at up
    cases up
  | flushing span context hub outcome invocations flush =>
    have asleep : flush.awake journal.now = false := asleep
    have up : flush.awake now = true := up
    simp only [Flush.awake, Bool.or_eq_false_iff, Bool.or_eq_true, List.any_eq_false, List.any_eq_true] at asleep up
    rcases up with none_left | ⟨flight, mem, due⟩
    · rw [asleep.1] at none_left
      cases none_left
    · have waits := asleep.2 flight mem
      simp only [Flight.isDue] at waits due
      cases slept : flight.stage with
      | boarding => simp [slept] at waits
      | asleep deadline rest =>
        -- its own alarm is due, and would have roused the call
        simp only [slept, decide_eq_true_eq, Nat.not_le] at waits due
        obtain ⟨alarm, set, rfl, own⟩ := sound.2 flight mem deadline rest slept waits
        have idle := Hub.rouses_of_firstRousing nobody alarm (List.mem_filter.2 ⟨set, decide_eq_true due⟩)
        simp [Hub.rouses, own] at idle
  | recovering span deadline alarm rest =>
    have up : decide (deadline ≤ now) = true := up
    simp only [Call.firstRousing, of_decide_eq_true up, if_true] at nobody
    cases nobody
  | answered value => cases up

end Call

end Segmentation
