import Segmentation.Proofs.Effort
import Segmentation.Proofs.Instants

/-!
# Answers that are promised

A batch tells when it starts which answers its entries may get, and after how many ticks (`BatchTask.answers`).  While it
sleeps it promises them; a resolver that it hands to an alarm is promised by the alarm.  If all that is promised to a
load is one answer, the load has it from the instant on for which it was promised, and is open before (`Promised`).
Whatever a batch does keeps that up, if the load is not given up (`Flight.pollContained_promised`).
-/

namespace Segmentation

/-! ### What batches are going to do -/

namespace BatchTask

/-- The ticks for which a batch sleeps in all. -/
def delay : BatchTask → Nat
  | .done _ => 0
  | .sleep ticks rest => ticks + rest.delay
  | .resolve _ _ rest => rest.delay
  | .resolveLater _ _ _ rest => rest.delay
  | .keep _ rest => rest.delay
  | .loadInto _ _ rest => rest.delay

/-- The answers that an entry may get, each with the ticks after which it comes.  After a first answer that comes for
sure no other one counts, and a batch that fails answers what is open then. -/
def answers (entry : Nat) : BatchTask → List (Nat × Bool)
  | .done ending => if ending.isFailure then [(0, false)] else []
  | .sleep ticks rest => (rest.answers entry).map fun (wait, value) => (ticks + wait, value)
  | .resolve other value rest => if other = entry then [(0, value)] else rest.answers entry
  | .resolveLater ticks other value rest =>
    if other = entry then (ticks, value) :: rest.answers entry else rest.answers entry
  | .keep _ rest => rest.answers entry
  | .loadInto _ _ rest => rest.answers entry

/-- An entry gets an answer after so many ticks, and whatever else comes later says the same. -/
def Settles (task : BatchTask) (entry wait : Nat) (value : Bool) : Prop :=
  (wait, value) ∈ task.answers entry ∧ ∀ answer ∈ task.answers entry, wait ≤ answer.1 ∧ answer.2 = value

/-- What is left of a batch from an instant on may answer a load then. -/
def Promises (matcher : String) (tickets : List Nat) (start : Nat) (load : Load) (task : BatchTask) (due : Nat)
    (value : Bool) : Prop :=
  ∃ entry wait, entryLoad? matcher tickets entry = some load ∧ (wait, value) ∈ task.answers entry ∧ due = start + wait

end BatchTask

/-- What a batch comes to that has so many ticks to take: it sleeps until a later instant and takes the others then, or
it has none to take. -/
def FlightProgress.Takes (now delay : Nat) : FlightProgress → Prop
  | .asleep deadline rest => now < deadline ∧ deadline + rest.delay = now + delay
  | .ended _ => delay = 0

theorem BatchTask.run_takes (task : BatchTask) (matcher : String) (tickets : List Nat) (scene : Scene) :
    (task.run matcher tickets scene).1.Takes scene.journal.now task.delay := by
  induction task generalizing scene with
  | done ending => rfl
  | sleep ticks rest ih =>
    cases ticks with
    | zero =>
      rw [delay, Nat.zero_add]
      exact ih scene
    | succ ticks => exact ⟨Nat.lt_add_of_pos_right ticks.succ_pos, Nat.add_assoc _ _ _⟩
  | resolve entry answer rest ih =>
    unfold run
    cases entryLoad? matcher tickets entry with
    | none => exact ih scene
    | some target => exact ih { scene with hub := (scene.hub.resolve target answer).2 }
  | resolveLater ticks entry answer rest ih =>
    unfold run
    cases entryLoad? matcher tickets entry with
    | none => exact ih scene
    | some target => exact ih (scene.answerAt (scene.journal.now + ticks) target answer)
  | keep entry rest ih =>
    unfold run
    cases entryLoad? matcher tickets entry with
    | none => exact ih scene
    | some target => exact ih { scene with hub := scene.hub.keep target }
  | loadInto peer request rest ih => exact ih _


/-- The task that a call gave, if it did not panic; else it ends at once. -/
def Launch.task : Launch BatchTask → BatchTask
  | .panics payload => .done (.panicked payload)
  | .starts task => task

def FlightProgress.Promises (matcher : String) (tickets : List Nat) (now : Nat) (load : Load) (progress : FlightProgress)
    (due : Nat) (value : Bool) : Prop :=
  match progress with
  | .asleep deadline rest => rest.Promises matcher tickets deadline load due value
  | .ended ending => (BatchTask.done ending).Promises matcher tickets now load due value

/-- A batch that sleeps may answer a load then. -/
def Flight.Promises (flight : Flight) (load : Load) (due : Nat) (value : Bool) : Prop :=
  ∃ deadline rest, flight.stage = .asleep deadline rest ∧
    rest.Promises flight.matcher flight.tickets deadline load due value

/-- An alarm is going to answer a load. -/
def Hub.Promises (hub : Hub) (load : Load) (due : Nat) (value : Bool) : Prop :=
  ∃ number, ⟨due, number, .answer load value⟩ ∈ hub.alarms

/-- The fate of a load to which one answer is promised: until it is due the load is open, and nobody promises anything
else; then the load has it. -/
inductive Promised (state : TicketState) (promises : Nat → Bool → Prop) (now due : Nat) (value : Bool) : Prop
  | waits (waiting : state = .waiting) (promised : promises due value)
    (first : ∀ t other, promises t other → due ≤ t ∧ other = value)
  | has (answered : state = .answered value) (reached : due ≤ now)

namespace Promised

variable {state : TicketState} {promises promises' : Nat → Bool → Prop} {now due : Nat} {value : Bool}

theorem congr (promised : Promised state promises now due value) (same : ∀ t v, promises' t v ↔ promises t v) :
    Promised state promises' now due value := by
  rcases promised with ⟨waiting, promised, first⟩ | ⟨answered, reached⟩
  · exact .waits waiting ((same due value).2 promised) fun t v h => first t v ((same t v).1 h)
  · exact .has answered reached

/-- Time goes on. -/
theorem later (promised : Promised state promises now due value) {then_ : Nat} (le : now ≤ then_) :
    Promised state promises then_ due value := by
  rcases promised with ⟨waiting, promised, first⟩ | ⟨answered, reached⟩
  · exact .waits waiting promised first
  · exact .has answered (Nat.le_trans reached le)

end Promised

/-! ### Keeping promises -/

namespace Hub

variable {hub : Hub} {load : Load}

/-- An answer to a load is given: to this one, at the instant for which it was promised, or to another one. -/
theorem resolve_promised {promises promises' : Nat → Bool → Prop} {now due : Nat} {value : Bool} (target : Load)
    (answer : Bool) (promised : Promised (hub.state load) promises now due value)
    (own : target = load → promises now answer) (others : target ≠ load → ∀ t v, promises' t v ↔ promises t v) :
    Promised ((hub.resolve target answer).2.state load) promises' now due value := by
  rw [state_resolve]
  by_cases here : target = load
  · subst here
    rcases promised with ⟨waiting, -, first⟩ | ⟨answered, reached⟩
    · obtain ⟨le, rfl⟩ := first now answer (own rfl)
      rw [if_pos ⟨rfl, waiting⟩]
      exact .has rfl le
    · rw [if_neg fun both => by rw [answered] at both; cases both.2]
      exact .has answered reached
  · rw [if_neg fun both => here both.1.symm]
    exact promised.congr (others here)

theorem state_releaseAll (hub : Hub) (loads : List Load) (load : Load) :
    (hub.releaseAll loads).state load = hub.state load ∨
      hub.state load = .waiting ∧ (hub.releaseAll loads).state load = .lost := by
  induction loads generalizing hub with
  | nil => exact .inl rfl
  | cons target loads ih =>
    have rest := ih (hub.release target)
    change ((hub.release target).releaseAll loads).state load = _ ∨ _ ∧ ((hub.release target).releaseAll loads).state load = _
    rw [state_release] at rest
    split at rest
    · rename_i lost
      obtain ⟨rfl, -, waits⟩ := lost
      rcases rest with same | ⟨impossible, -⟩
      · exact .inr ⟨waits, same⟩
      · cases impossible
    · exact rest

theorem state_resolveAll (hub : Hub) (loads : List Load) (value : Bool) (load : Load) :
    (hub.resolveAll loads value).2.state load =
      if load ∈ loads ∧ hub.state load = .waiting then .answered value else hub.state load := by
  unfold resolveAll
  generalize 0 = count
  induction loads generalizing hub count with
  | nil => simp
  | cons target loads ih =>
    rw [List.foldl_cons, ih, state_resolve]
    by_cases here : load = target
    · subst here
      by_cases waits : hub.state load = .waiting
      · simp [waits]
      · simp [waits]
    · simp [here]

end Hub

namespace BatchTask

variable {matcher : String} {tickets : List Nat} {load : Load} {others : Nat → Bool → Prop} {due : Nat} {value : Bool}

/-- In a batch without a ticket twice every load has one entry. -/
theorem entryLoad?_inj (nodup : tickets.Nodup) {entry other : Nat} (here : entryLoad? matcher tickets entry = some load)
    (there : entryLoad? matcher tickets other = some load) : entry = other := by
  obtain ⟨ticket, first, rfl⟩ := Option.map_eq_some_iff.1 here
  obtain ⟨same, second, eq⟩ := Option.map_eq_some_iff.1 there
  obtain rfl : same = ticket := (Load.mk.inj eq).2
  have lt := (List.getElem?_eq_some_iff.1 first).1
  exact (List.getElem?_inj lt nodup).1 (first.trans second.symm)

/-- The entries stand for the tickets. -/
theorem exists_entryLoad?_iff :
    (∃ entry, entryLoad? matcher tickets entry = some load) ↔ load ∈ tickets.map (Load.mk matcher) := by
  constructor
  · rintro ⟨entry, found⟩
    obtain ⟨ticket, here, rfl⟩ := Option.map_eq_some_iff.1 found
    exact List.mem_map_of_mem (List.mem_of_getElem? here)
  · intro mem
    obtain ⟨ticket, listed, rfl⟩ := List.mem_map.1 mem
    obtain ⟨entry, here⟩ := List.mem_iff_getElem?.1 listed
    exact ⟨entry, by rw [entryLoad?, here]; rfl⟩

/-- What does not concern the entry of a load leaves what is promised to it. -/
theorem promises_congr {task rest : BatchTask} {start : Nat} (same : ∀ entry, entryLoad? matcher tickets entry = some load →
    task.answers entry = rest.answers entry) (t : Nat) (v : Bool) :
    task.Promises matcher tickets start load t v ↔ rest.Promises matcher tickets start load t v := by
  constructor
  · rintro ⟨entry, wait, here, mem, rfl⟩
    exact ⟨entry, wait, here, same entry here ▸ mem, rfl⟩
  · rintro ⟨entry, wait, here, mem, rfl⟩
    exact ⟨entry, wait, here, (same entry here).symm ▸ mem, rfl⟩

theorem promises_sleep {ticks start : Nat} {rest : BatchTask} (t : Nat) (v : Bool) :
    (BatchTask.sleep ticks rest).Promises matcher tickets start load t v ↔
      rest.Promises matcher tickets (start + ticks) load t v := by
  constructor
  · rintro ⟨entry, wait, here, mem, rfl⟩
    obtain ⟨⟨less, v⟩, mem, eq⟩ := List.mem_map.1 mem
    cases eq
    exact ⟨entry, less, here, mem, (Nat.add_assoc _ _ _).symm⟩
  · rintro ⟨entry, wait, here, mem, rfl⟩
    exact ⟨entry, ticks + wait, here, List.mem_map.2 ⟨(wait, v), mem, rfl⟩, Nat.add_assoc _ _ _⟩

/-- An answer to another entry promises nothing to the load. -/
theorem promises_resolve_of_ne {entry start : Nat} {answer : Bool} {rest : BatchTask}
    (differs : entryLoad? matcher tickets entry ≠ some load) (t : Nat) (v : Bool) :
    (BatchTask.resolve entry answer rest).Promises matcher tickets start load t v ↔
      rest.Promises matcher tickets start load t v := by
  refine promises_congr (fun other there => ?_) t v
  rw [answers, if_neg]
  rintro rfl
  exact differs there

theorem promises_resolveLater_of_ne {ticks entry start : Nat} {answer : Bool} {rest : BatchTask}
    (differs : entryLoad? matcher tickets entry ≠ some load) (t : Nat) (v : Bool) :
    (BatchTask.resolveLater ticks entry answer rest).Promises matcher tickets start load t v ↔
      rest.Promises matcher tickets start load t v := by
  refine promises_congr (fun other there => ?_) t v
  rw [answers, if_neg]
  rintro rfl
  exact differs there

/-- An answer that is handed to an alarm is promised by it from now on. -/
theorem promises_resolveLater (nodup : tickets.Nodup) {ticks entry start : Nat} {answer : Bool} {rest : BatchTask}
    {target : Load} (found : entryLoad? matcher tickets entry = some target) (t : Nat) (v : Bool) :
    (BatchTask.resolveLater ticks entry answer rest).Promises matcher tickets start load t v ↔
      (target = load ∧ t = start + ticks ∧ v = answer) ∨ rest.Promises matcher tickets start load t v := by
  by_cases here : target = load
  · subst here
    constructor
    · rintro ⟨other, wait, there, mem, rfl⟩
      obtain rfl := entryLoad?_inj nodup found there
      rw [answers, if_pos rfl] at mem
      rcases List.mem_cons.1 mem with eq | mem
      · cases eq
        exact .inl ⟨rfl, rfl, rfl⟩
      · exact .inr ⟨entry, wait, there, mem, rfl⟩
    · rintro (⟨-, rfl, rfl⟩ | ⟨other, wait, there, mem, rfl⟩)
      · exact ⟨entry, ticks, found, by rw [answers, if_pos rfl]; exact List.mem_cons_self, rfl⟩
      · obtain rfl := entryLoad?_inj nodup found there
        exact ⟨entry, wait, there, by rw [answers, if_pos rfl]; exact List.mem_cons_of_mem _ mem, rfl⟩
  · have differs : entryLoad? matcher tickets entry ≠ some load := found ▸ mt Option.some.inj here
    exact (promises_resolveLater_of_ne differs t v).trans (or_iff_right fun both => here both.1).symm

end BatchTask

namespace Hub

theorem promises_setAlarm (scene : Scene) (deadline : Nat) (purpose : Purpose) (load : Load) (t : Nat) (v : Bool) :
    (scene.setAlarm deadline purpose).hub.Promises load t v ↔
      (t = deadline ∧ purpose = .answer load v) ∨ scene.hub.Promises load t v := by
  constructor
  · rintro ⟨number, mem⟩
    rcases (Scene.mem_insert_alarm _ _ _).1 mem with eq | mem
    · obtain ⟨rfl, -, rfl⟩ := Alarm.mk.inj eq
      exact .inl ⟨rfl, rfl⟩
    · exact .inr ⟨number, mem⟩
  · rintro (⟨rfl, rfl⟩ | ⟨number, mem⟩)
    · exact ⟨_, (Scene.mem_insert_alarm _ _ _).2 (.inl rfl)⟩
    · exact ⟨number, (Scene.mem_insert_alarm _ _ _).2 (.inr mem)⟩

theorem promises_answerAt (scene : Scene) (deadline : Nat) (target : Load) (answer : Bool) (load : Load) (t : Nat)
    (v : Bool) : (scene.answerAt deadline target answer).hub.Promises load t v ↔
      (target = load ∧ t = deadline ∧ v = answer) ∨ scene.hub.Promises load t v := by
  refine (promises_setAlarm _ _ _ _ t v).trans (or_congr_left ?_)
  rw [Purpose.answer.injEq]
  exact ⟨fun same => ⟨same.2.1, same.1, same.2.2.symm⟩, fun same => ⟨same.2.1, same.1, same.2.2.symm⟩⟩

theorem promises_of_alarms {before later : Hub} (same : later.alarms = before.alarms) (load : Load) (t : Nat)
    (v : Bool) : later.Promises load t v ↔ before.Promises load t v := by
  unfold Promises
  rw [same]

end Hub

/-- No alarm is overdue, and the alarms stand in the order in which they go off. -/
structure Scene.Timely (scene : Scene) : Prop where
  ahead : ∀ alarm ∈ scene.hub.alarms, scene.journal.now ≤ alarm.deadline
  ordered : scene.hub.alarms.Pairwise (·.deadline ≤ ·.deadline)

theorem Alarm.pairwise_insert (alarm : Alarm) {alarms : List Alarm} (ordered : alarms.Pairwise (·.deadline ≤ ·.deadline)) :
    (alarm.insert alarms).Pairwise (·.deadline ≤ ·.deadline) := by
  induction alarms with
  | nil => exact List.pairwise_singleton _ _
  | cons other others ih =>
    obtain ⟨least, rest⟩ := List.pairwise_cons.1 ordered
    unfold insert
    split
    · rename_i first
      refine List.pairwise_cons.2 ⟨fun a mem => ?_, ordered⟩
      rcases List.mem_cons.1 mem with rfl | mem
      · exact Nat.le_of_lt first
      · exact Nat.le_trans (Nat.le_of_lt first) (least a mem)
    · rename_i later
      refine List.pairwise_cons.2 ⟨fun a mem => ?_, ih rest⟩
      rcases (Scene.mem_insert_alarm alarm others a).1 mem with rfl | mem
      · exact Nat.le_of_not_lt later
      · exact least a mem

namespace Scene.Timely

variable {scene : Scene}

theorem of_alarms (timely : scene.Timely) {later : Scene} (alarms : later.hub.alarms = scene.hub.alarms)
    (now : later.journal.now = scene.journal.now) : later.Timely where
  ahead alarm set := by
    rw [now]
    exact timely.ahead alarm (alarms ▸ set)
  ordered := by
    rw [alarms]
    exact timely.ordered

theorem setAlarm (timely : scene.Timely) {deadline : Nat} (ahead : scene.journal.now ≤ deadline) (purpose : Purpose) :
    (scene.setAlarm deadline purpose).Timely where
  ahead alarm set := by
    rcases (Scene.mem_insert_alarm _ _ _).1 set with rfl | old
    · exact ahead
    · exact timely.ahead alarm old
  ordered := Alarm.pairwise_insert _ timely.ordered

/-- The next alarm is the first of all. -/
theorem first (timely : scene.Timely) {t : Nat} (next : scene.hub.nextAlarm = some t) :
    scene.journal.now ≤ t ∧ ∀ alarm ∈ scene.hub.alarms, t ≤ alarm.deadline := by
  obtain ⟨ahead, ordered⟩ := timely
  unfold Hub.nextAlarm at next
  cases alarms : scene.hub.alarms with
  | nil =>
    rw [alarms] at next
    cases next
  | cons alarm others =>
    rw [alarms] at next ahead ordered
    obtain rfl : alarm.deadline = t := Option.some.inj next
    refine ⟨ahead alarm List.mem_cons_self, fun other mem => ?_⟩
    rcases List.mem_cons.1 mem with rfl | mem
    · exact Nat.le_refl _
    · exact (List.pairwise_cons.1 ordered).1 other mem

end Scene.Timely

namespace BatchTask

variable {matcher : String} {tickets : List Nat} {load : Load} {others : Nat → Bool → Prop} {due : Nat} {value : Bool}

/-- A batch that runs keeps its promises: it answers at the instants that it promised, or still promises to. -/
theorem run_promised (nodup : tickets.Nodup) {task : BatchTask} (loadless : task.Loadless) (scene : Scene)
    (promised : Promised (scene.hub.state load)
      (fun t v => scene.hub.Promises load t v ∨ task.Promises matcher tickets scene.journal.now load t v ∨ others t v)
      scene.journal.now due value) :
    let r := task.run matcher tickets scene
    Promised (r.2.hub.state load)
      (fun t v => r.2.hub.Promises load t v ∨ r.1.Promises matcher tickets scene.journal.now load t v ∨ others t v)
      scene.journal.now due value := by
  induction task generalizing scene with
  | done ending => exact promised
  | sleep ticks rest ih =>
    simp only [promises_sleep] at promised
    cases ticks with
    | zero => exact ih loadless scene promised
    | succ ticks => exact promised
  | resolve entry answer rest ih =>
    unfold run
    cases found : entryLoad? matcher tickets entry with
    | none =>
      have differs : entryLoad? matcher tickets entry ≠ some load := by simp [found]
      simp only [promises_resolve_of_ne differs] at promised
      exact ih loadless scene promised
    | some target =>
      refine ih loadless { scene with hub := (scene.hub.resolve target answer).2 } ?_
      refine Hub.resolve_promised target answer promised (fun here => .inr (.inl ?_)) fun differs t v => ?_
      · subst here
        exact ⟨entry, 0, found, by rw [answers, if_pos rfl]; exact List.mem_singleton_self _, rfl⟩
      · rw [Hub.promises_of_alarms (Hub.alarms_resolve _ _ _),
          promises_resolve_of_ne (found ▸ mt Option.some.inj differs)]
  | resolveLater ticks entry answer rest ih =>
    unfold run
    cases found : entryLoad? matcher tickets entry with
    | none =>
      have differs : entryLoad? matcher tickets entry ≠ some load := by simp [found]
      simp only [promises_resolveLater_of_ne differs] at promised
      exact ih loadless scene promised
    | some target =>
      refine ih loadless (scene.answerAt (scene.journal.now + ticks) target answer) ?_
      have state_eq : (scene.answerAt (scene.journal.now + ticks) target answer).hub.state load =
          scene.hub.state load := scene.hub.state_retain target load
      rw [state_eq]
      refine promised.congr fun t v => ?_
      -- the answer has gone over from the batch to an alarm
      rw [Hub.promises_answerAt, promises_resolveLater nodup found, or_assoc, or_assoc, or_left_comm]
      rfl
  | keep entry rest ih =>
    unfold run
    cases found : entryLoad? matcher tickets entry with
    | none => exact ih loadless scene promised
    | some target =>
      refine ih loadless { scene with hub := scene.hub.keep target } ?_
      have state_eq : (scene.hub.keep target).state load = scene.hub.state load := scene.hub.state_retain target load
      rw [state_eq]
      exact promised
  | loadInto peer request rest ih => exact loadless.elim

/-- A batch sets no alarm for an instant that has passed. -/
theorem run_timely (matcher : String) (tickets : List Nat) (task : BatchTask) {scene : Scene} (timely : scene.Timely) :
    (task.run matcher tickets scene).2.Timely := by
  induction task generalizing scene with
  | done ending => exact timely
  | sleep ticks rest ih =>
    cases ticks with
    | zero => exact ih timely
    | succ ticks => exact timely
  | resolve entry answer rest ih =>
    unfold run
    cases entryLoad? matcher tickets entry with
    | none => exact ih timely
    | some target => exact ih (timely.of_alarms (Hub.alarms_resolve _ _ _) rfl)
  | resolveLater ticks entry answer rest ih =>
    unfold run
    cases entryLoad? matcher tickets entry with
    | none => exact ih timely
    | some target =>
      have retained : Scene.Timely { scene with hub := scene.hub.retain target } := timely.of_alarms rfl rfl
      have set := retained.setAlarm (Nat.le_add_right scene.journal.now ticks) (.answer target answer)
      exact ih set
  | keep entry rest ih =>
    unfold run
    cases entryLoad? matcher tickets entry with
    | none => exact ih timely
    | some target =>
      have kept : Scene.Timely { scene with hub := scene.hub.keep target } := timely.of_alarms rfl rfl
      exact ih kept
  | loadInto peer request rest ih => exact ih (timely.of_alarms rfl rfl)

end BatchTask

namespace Flight

variable {load : Load} {others : Nat → Bool → Prop} {due : Nat} {value : Bool}

/-- A batch that has failed promises to answer all its loads with false at once. -/
theorem promises_done (flight : Flight) (ending : Ending Unit) (now t : Nat) (v : Bool) :
    (BatchTask.done ending).Promises flight.matcher flight.tickets now load t v ↔
      load ∈ flight.loads ∧ ending.isFailure = true ∧ t = now ∧ v = false := by
  constructor
  · rintro ⟨entry, wait, found, mem, rfl⟩
    have own : load ∈ flight.loads := BatchTask.exists_entryLoad?_iff.1 ⟨entry, found⟩
    rw [BatchTask.answers] at mem
    split at mem
    · rename_i failed
      cases List.mem_singleton.1 mem
      exact ⟨own, failed, rfl, rfl⟩
    · cases mem
  · rintro ⟨mem, failed, rfl, rfl⟩
    obtain ⟨entry, found⟩ := BatchTask.exists_entryLoad?_iff.2 mem
    refine ⟨entry, 0, found, ?_, rfl⟩
    rw [BatchTask.answers, if_pos failed]
    exact List.mem_singleton_self _

/-- Resolvers are given up, but for a load that is open there are others. -/
theorem releaseAll_promised {hub : Hub} {promises : Nat → Bool → Prop} {now : Nat} (loads : List Load)
    (promised : Promised (hub.state load) promises now due value)
    (alive : (∃ t v, promises t v) → (hub.releaseAll loads).state load ≠ .lost) :
    Promised ((hub.releaseAll loads).state load) promises now due value := by
  rcases hub.state_releaseAll loads load with kept | ⟨waits, lost⟩
  · rwa [kept]
  · rcases promised with ⟨-, promised, -⟩ | ⟨answered, -⟩
    · exact absurd lost (alive ⟨due, value, promised⟩)
    · cases waits.symm.trans answered

/-- A batch that lands gives up its resolvers; if it failed it answers what is open. -/
theorem landContained_promised (flight : Flight) (ending : Ending Unit) (scene : Scene)
    (promised : Promised (scene.hub.state load) (fun t v => scene.hub.Promises load t v ∨
      (BatchTask.done ending).Promises flight.matcher flight.tickets scene.journal.now load t v ∨ others t v)
      scene.journal.now due value)
    (alive : (∃ t v, (flight.landContained ending scene).hub.Promises load t v ∨ others t v) →
      (flight.landContained ending scene).hub.state load ≠ .lost) :
    Promised ((flight.landContained ending scene).hub.state load)
      (fun t v => (flight.landContained ending scene).hub.Promises load t v ∨ others t v) scene.journal.now due value := by
  simp only [promises_done] at promised
  unfold landContained Ending.isFailure at *
  cases result : ending.contained with
  | ok done =>
    simp only [result, Bool.false_eq_true, false_and, and_false, false_or] at promised alive ⊢
    have same (t : Nat) (v : Bool) := Hub.promises_of_alarms (Hub.alarms_releaseAll scene.hub flight.loads) load t v
    simp only [same] at alive ⊢
    exact releaseAll_promised flight.loads promised alive
  | error cause =>
    simp only [result, true_and] at promised alive ⊢
    have same (t : Nat) (v : Bool) := Hub.promises_of_alarms ((Hub.alarms_releaseAll _ flight.loads).trans
      (Hub.alarms_resolveAll scene.hub flight.loads false)) load t v
    simp only [same] at alive ⊢
    refine releaseAll_promised flight.loads ?_ alive
    rw [Hub.state_resolveAll]
    by_cases mine : load ∈ flight.loads
    · rcases promised with ⟨waiting, -, first⟩ | ⟨answered, reached⟩
      · obtain ⟨le, rfl⟩ := first scene.journal.now false (.inr (.inl ⟨mine, rfl, rfl⟩))
        rw [if_pos ⟨mine, waiting⟩]
        exact .has rfl le
      · rw [if_neg fun both => by rw [answered] at both; cases both.2]
        exact .has answered reached
    · rw [if_neg fun both => mine both.1]
      simpa only [mine, false_and, false_or] using promised

/-- What a batch goes on with when it is polled. -/
def plan (flight : Flight) (scene : Scene) : BatchTask := (flight.next scene).task

/-- A batch that can go on runs until its next sleep, and lands if it has ended. -/
theorem pollContained_plan (flight : Flight) (scene : Scene) (due : flight.isDue scene.journal.now = true) :
    flight.pollContained scene =
      match (flight.plan scene).run flight.matcher flight.tickets (flight.called scene) with
      | (.asleep deadline rest, later) =>
        (some (flight.sleepUntil deadline rest later).1, (flight.sleepUntil deadline rest later).2)
      | (.ended ending, later) =>
        (none, flight.landContained ending { later with journal := later.journal.record (.evaluatorEnded flight.matcher) }) := by
  unfold pollContained plan
  rw [due, advance_eq]
  simp only [Bool.not_true, Bool.false_eq_true, if_false]
  cases flight.next scene with
  | panics payload => rfl
  | starts task =>
    simp only [Launch.task]
    generalize task.run flight.matcher flight.tickets (flight.called scene) = r
    obtain ⟨progress, later⟩ := r
    cases progress <;> rfl

/-- A batch that goes on keeps what it, or anybody else, has promised to a load, unless the load is given up. -/
theorem pollContained_promised (flight : Flight) (scene : Scene) (others : Nat → Bool → Prop) (nodup : flight.tickets.Nodup)
    (loadless : (flight.plan scene).Loadless) (can : flight.isDue scene.journal.now = true)
    (promised : Promised (scene.hub.state load) (fun t v => scene.hub.Promises load t v ∨
      (flight.plan scene).Promises flight.matcher flight.tickets scene.journal.now load t v ∨ others t v)
      scene.journal.now due value)
    (alive : (∃ t v, (flight.pollContained scene).2.hub.Promises load t v ∨ others t v) →
      (flight.pollContained scene).2.hub.state load ≠ .lost) :
    Promised ((flight.pollContained scene).2.hub.state load)
      (fun t v => (flight.pollContained scene).2.hub.Promises load t v ∨
        (∃ later, (flight.pollContained scene).1 = some later ∧ later.Promises load t v) ∨ others t v)
      scene.journal.now due value := by
  have hub_eq := flight.hub_called scene
  have now_eq : (flight.called scene).journal.now = scene.journal.now := (flight.called_stands scene).journal.now
  rw [← hub_eq, ← now_eq] at promised
  have ran := BatchTask.run_promised nodup loadless (flight.called scene) promised
  have stood := ((flight.plan scene).run_stands flight.matcher flight.tickets (flight.called scene)).journal.now
  rw [pollContained_plan flight scene can] at alive ⊢
  generalize (flight.plan scene).run flight.matcher flight.tickets (flight.called scene) = r at ran stood alive ⊢
  obtain ⟨progress, later⟩ := r
  have same_now : later.journal.now = scene.journal.now := stood.trans now_eq
  rw [now_eq] at ran
  cases progress with
  | asleep deadline rest =>
    refine ran.congr fun t v => ?_
    have set := Hub.promises_setAlarm later deadline (.resumeBatch flight.id) load t v
    refine or_congr (set.trans (or_iff_right fun both => nomatch both.2)) (or_congr_left ?_)
    constructor
    · rintro ⟨_, same, _, _, stage, promises⟩
      obtain rfl := Option.some.inj same
      cases stage
      exact promises
    · exact fun promises => ⟨_, rfl, deadline, rest, rfl, promises⟩
  | ended ending =>
    let noted : Scene := { later with journal := later.journal.record (.evaluatorEnded flight.matcher) }
    have same : noted.journal.now = scene.journal.now := same_now
    rw [← same] at ran ⊢
    refine (flight.landContained_promised ending noted ran alive).congr fun t v => or_congr_right (or_iff_right ?_)
    rintro ⟨_, impossible, -⟩
    cases impossible

/-- What becomes of a batch that goes on: it sleeps, with an alarm set, and will take as long as it was to take, or it
has taken all its time and lands. -/
theorem pollContained_delay (flight : Flight) (scene : Scene) (can : flight.isDue scene.journal.now = true) :
    (∃ deadline rest, (flight.pollContained scene).1 = some { flight with stage := .asleep deadline rest } ∧
      scene.journal.now < deadline ∧ deadline + rest.delay = scene.journal.now + (flight.plan scene).delay ∧
      ∃ number, ⟨deadline, number, .resumeBatch flight.id⟩ ∈ (flight.pollContained scene).2.hub.alarms) ∨
    ((flight.pollContained scene).1 = none ∧ (flight.plan scene).delay = 0) := by
  have now_eq : (flight.called scene).journal.now = scene.journal.now := (flight.called_stands scene).journal.now
  have ran := (flight.plan scene).run_takes flight.matcher flight.tickets (flight.called scene)
  rw [pollContained_plan flight scene can]
  rw [now_eq] at ran
  generalize (flight.plan scene).run flight.matcher flight.tickets (flight.called scene) = r at ran
  obtain ⟨progress, later⟩ := r
  cases progress with
  | asleep deadline rest => exact .inl ⟨deadline, rest, rfl, ran.1, ran.2, _, Scene.Stands.mem_setAlarm _ _ _⟩
  | ended ending => exact .inr ⟨rfl, ran⟩

theorem pollContained_timely (flight : Flight) {scene : Scene} (timely : scene.Timely) :
    (flight.pollContained scene).2.Timely := by
  by_cases can : flight.isDue scene.journal.now = true
  · have called : (flight.called scene).Timely := by
      refine timely.of_alarms ?_ (flight.called_stands scene).journal.now
      rw [hub_called]
    have ran := (flight.plan scene).run_timely flight.matcher flight.tickets called
    have takes := (flight.plan scene).run_takes flight.matcher flight.tickets (flight.called scene)
    have stood := ((flight.plan scene).run_stands flight.matcher flight.tickets (flight.called scene)).journal.now
    rw [pollContained_plan flight scene can]
    generalize (flight.plan scene).run flight.matcher flight.tickets (flight.called scene) = r at ran takes stood
    obtain ⟨progress, later⟩ := r
    cases progress with
    | asleep deadline rest =>
      have ahead : later.journal.now ≤ deadline := by
        rw [stood]
        exact Nat.le_of_lt takes.1
      exact ran.setAlarm ahead _
    | ended ending =>
      dsimp only
      unfold landContained
      cases ending.contained with
      | ok value => exact ran.of_alarms (Hub.alarms_releaseAll _ _) rfl
      | error cause =>
        exact ran.of_alarms ((Hub.alarms_releaseAll _ _).trans (Hub.alarms_resolveAll _ _ _)) rfl
  · unfold pollContained
    simpa only [can, Bool.not_false, if_true] using timely

end Flight

end Segmentation
