import Mathlib.Algebra.GroupWithZero.Nat
import Mathlib.Algebra.Order.BigOperators.Group.List
import Mathlib.Algebra.Order.Group.Nat
import Segmentation.Proofs.Alarms
import Segmentation.Proofs.Past.Flight
import Segmentation.Proofs.Turns

/-!
# What is left to do for batches

Batches that load nothing do not go on for ever: whoever sleeps has one sleep less before it, and whoever is woken
waits no longer.  `naps` counts the sleeps and alarms that are still to come, and `Hub.stakes` those who wait for a
request.  Batches set no more alarms than they had naps before them, and wake nobody but those who waited
(`Hub.Eases`); so it is when all of them go on that can (`Drive.pollReady_eases`).
-/

namespace Segmentation

/-! ### Naps -/

/-- How often a task sleeps before it has its result. -/
def Task.naps {ρ : Type} : Task ρ → Nat
  | .done _ => 0
  | .sleep _ rest => rest.naps + 1

/-- The naps of a task that was started, the one that it takes at present included. -/
def Running.naps {ρ : Type} : Running ρ → Nat
  | .ended _ => 0
  | .asleep _ rest => rest.naps + 1

theorem Task.naps_start {ρ : Type} (now : Nat) (task : Task ρ) : (task.start now).naps ≤ task.naps := by
  induction task with
  | done result => exact Nat.le_refl 0
  | sleep ticks rest ih =>
    cases ticks with
    | zero => exact Nat.le_succ_of_le ih
    | succ ticks => exact Nat.le_refl _

/-- How many alarms a batch may still set, for itself or for its answers. -/
def BatchTask.naps : BatchTask → Nat
  | .done _ => 0
  | .sleep _ rest => rest.naps + 1
  | .resolve _ _ rest => rest.naps
  | .resolveLater _ _ _ rest => rest.naps + 1
  | .keep _ rest => rest.naps
  | .loadInto _ _ rest => rest.naps

def FlightProgress.naps : FlightProgress → Nat
  | .asleep _ rest => rest.naps + 1
  | .ended _ => 0

/-- The naps of a batch that sleeps. -/
def Flight.naps (flight : Flight) : Nat :=
  match flight.stage with
  | .boarding => 0
  | .asleep _ rest => rest.naps

/-! ### Batches that load nothing -/

/-- A batch queues no requests of its own. -/
def BatchTask.Loadless : BatchTask → Prop
  | .done _ => True
  | .sleep _ rest => rest.Loadless
  | .resolve _ _ rest => rest.Loadless
  | .resolveLater _ _ _ rest => rest.Loadless
  | .keep _ rest => rest.Loadless
  | .loadInto _ _ _ => False

/-- An evaluator whose batches queue no requests of their own. -/
def BatchEvaluator.Loadless (evaluate : BatchEvaluator) : Prop :=
  ∀ number requests task, evaluate number requests = .starts task → task.Loadless

def FlightProgress.Loadless : FlightProgress → Prop
  | .asleep _ rest => rest.Loadless
  | .ended _ => True

def Flight.Loadless (flight : Flight) : Prop :=
  match flight.stage with
  | .boarding => True
  | .asleep _ rest => rest.Loadless

/-! ### Those who wait -/

theorem sum_map_set {α : Type} (f : α → Nat) {l : List α} {index : Nat} {a : α} (here : l[index]? = some a) (b : α) :
    ((l.set index b).map f).sum + f a = (l.map f).sum + f b := by
  induction l generalizing index with
  | nil => cases here
  | cons first rest ih =>
    cases index with
    | zero =>
      obtain rfl : first = a := Option.some.inj here
      simp only [List.set_cons_zero, List.map_cons, List.sum_cons]
      omega
    | succ index =>
      have found : rest[index]? = some a := here
      have later := ih found
      simp only [List.set_cons_succ, List.map_cons, List.sum_cons]
      omega

/-- How many are woken when an entry is answered or lost. -/
def Entry.stake {ρ : Type} (e : Entry ρ) : Nat := if e.state = .waiting then e.waiters.length else 0

namespace Coalescer

variable {ρ : Type}

/-- How many wait for requests. -/
def stakes (c : Coalescer ρ) : Nat := (c.entries.map (·.stake)).sum

theorem stakes_modify {c : Coalescer ρ} {ticket : Nat} {e : Entry ρ} (here : c.get? ticket = some e)
    (f : Entry ρ → Entry ρ) : (c.modify ticket f).stakes + e.stake = c.stakes + (f e).stake := by
  have found : c.entries[ticket]? = some e := here
  have set_eq : (c.modify ticket f).entries = c.entries.set ticket (f e) := by
    obtain ⟨lt, rfl⟩ := List.getElem?_eq_some_iff.1 found
    exact List.modify_eq_set_get f lt
  rw [stakes, set_eq]
  exact sum_map_set _ found (f e)

theorem modify_of_get?_none {c : Coalescer ρ} {ticket : Nat} (absent : c.get? ticket = none) (f : Entry ρ → Entry ρ) :
    c.modify ticket f = c := by
  obtain ⟨entries, taken⟩ := c
  have short : entries.length ≤ ticket := List.getElem?_eq_none_iff.1 absent
  simp only [modify, List.modify_eq_self short]

theorem stakes_modify_le {f : Entry ρ → Entry ρ} (le : ∀ e, (f e).stake ≤ e.stake) (c : Coalescer ρ) (ticket : Nat) :
    (c.modify ticket f).stakes ≤ c.stakes := by
  cases here : c.get? ticket with
  | none => exact Nat.le_of_eq (congrArg stakes (modify_of_get?_none here f))
  | some e =>
    have moved := stakes_modify here f
    have below := le e
    omega

theorem stakes_retain (c : Coalescer ρ) (ticket : Nat) : (c.retain ticket).stakes ≤ c.stakes :=
  stakes_modify_le (f := fun e : Entry ρ => { e with resolvers := e.resolvers + 1 }) (fun _ => Nat.le_of_eq rfl) c ticket

/-- What is at stake for a ticket that waits. -/
theorem stake_of_waiting {c : Coalescer ρ} {ticket : Nat} (waits : c.state ticket = .waiting) :
    ∃ e, c.get? ticket = some e ∧ e.state = .waiting ∧ e.stake = (c.waiters ticket).length := by
  cases here : c.get? ticket with
  | none =>
    rw [state, here] at waits
    cases waits
  | some e =>
    have state_eq : e.state = .waiting := by
      rw [state, here] at waits
      exact waits
    refine ⟨e, rfl, state_eq, ?_⟩
    rw [Entry.stake, if_pos state_eq, waiters, here]
    rfl

/-- An answer settles what those who waited for it have at stake. -/
theorem stakes_resolve {c : Coalescer ρ} {ticket : Nat} (waits : c.state ticket = .waiting) (value : Bool) :
    (c.resolve ticket value).2.stakes + (c.waiters ticket).length = c.stakes := by
  obtain ⟨e, here, -, stake⟩ := stake_of_waiting waits
  have moved := stakes_modify here fun e => { e with state := .answered value }
  have settled : Entry.stake { e with state := .answered value } = 0 := if_neg nofun
  rw [settled, stake] at moved
  have open_ : c.isResolved ticket = false := by simp [isResolved, waits]
  rw [resolve, if_neg (by simp [open_])]
  exact moved

/-- Giving up a resolver puts nothing at stake. -/
theorem stakes_release_le (c : Coalescer ρ) (ticket : Nat) : (c.release ticket).stakes ≤ c.stakes := by
  refine stakes_modify_le (fun e => ?_) c ticket
  unfold Entry.stake
  dsimp only
  by_cases last : e.resolvers ≤ 1 ∧ e.state = .waiting
  · simp [last]
  · simp [last]

/-- The loss of the last resolver settles what those who waited have at stake. -/
theorem stakes_release {c : Coalescer ρ} {ticket : Nat} (waits : c.state ticket = .waiting)
    (lost : (c.release ticket).state ticket = .lost) :
    (c.release ticket).stakes + (c.waiters ticket).length = c.stakes := by
  obtain ⟨e, here, state_eq, stake⟩ := stake_of_waiting waits
  have last : e.resolvers ≤ 1 ∧ e.state = .waiting := by
    by_contra more
    have later : (c.release ticket).state ticket = e.state := by
      have found : c.entries[ticket]? = some e := here
      simp [state, release, modify, get?, found, more]
    rw [lost, state_eq] at later
    cases later
  have moved := stakes_modify here fun e => { e with
    resolvers := e.resolvers - 1
    state := if e.resolvers ≤ 1 ∧ e.state = .waiting then .lost else e.state }
  have settled : Entry.stake { e with
      resolvers := e.resolvers - 1
      state := if e.resolvers ≤ 1 ∧ e.state = .waiting then .lost else e.state } = 0 := by
    have given_up : ¬ TicketState.lost = .waiting := by simp
    rw [if_pos last]
    exact if_neg given_up
  rw [settled, stake] at moved
  exact moved

end Coalescer

namespace Hub

/-- How many wait for requests. -/
def stakes (hub : Hub) : Nat := (hub.queues.map fun entry => entry.2.coalescer.stakes).sum

/-- When a coalescer gets less at stake, all do together. -/
theorem stakes_modifyCoalescer (hub : Hub) (matcher : String) {f : Coalescer Request → Coalescer Request}
    (le : ∀ c, (f c).stakes ≤ c.stakes) :
    (hub.modifyCoalescer matcher f).stakes + (hub.coalescer matcher).stakes ≤
      hub.stakes + (f (hub.coalescer matcher)).stakes := by
  obtain ⟨queues, _⟩ := hub
  simp only [stakes, modifyCoalescer, coalescer, queue?, List.map_map, Function.comp_def]
  induction queues with
  | nil => exact Nat.le_add_left _ _
  | cons entry queues ih =>
    obtain ⟨name, queue⟩ := entry
    simp only [List.map_cons, List.sum_cons, List.lookup_cons]
    by_cases here : matcher = name
    · subst here
      have rest : (queues.map fun entry => (if entry.1 = matcher then
            (entry.1, BatchQueue.mk entry.2.evaluate (f entry.2.coalescer))
          else (entry.1, entry.2)).2.coalescer.stakes).sum ≤ (queues.map fun entry => entry.2.coalescer.stakes).sum := by
        refine List.sum_le_sum fun entry _ => ?_
        split
        · exact le _
        · exact Nat.le_refl _
      simp only [beq_self_eq_true, if_true, Option.map_some, Option.getD_some]
      omega
    · have other : (matcher == name) = false := by simpa using here
      simp only [other, if_neg (Ne.symm here)]
      omega

/-- Nobody new waits, and those who are woken no longer do. -/
def Settles (before later : Hub) : Prop :=
  ∃ more, later.woken = before.woken ++ more ∧ later.stakes + more.length ≤ before.stakes

namespace Settles

theorem of_le {before later : Hub} (woken : later.woken = before.woken) (le : later.stakes ≤ before.stakes) :
    before.Settles later := ⟨[], woken.trans (List.append_nil _).symm, le⟩

theorem refl (hub : Hub) : hub.Settles hub := .of_le rfl (Nat.le_refl _)

theorem trans {a b c : Hub} (ab : a.Settles b) (bc : b.Settles c) : a.Settles c := by
  obtain ⟨first, woken, le⟩ := ab
  obtain ⟨second, woken', le'⟩ := bc
  refine ⟨first ++ second, by rw [woken', woken, List.append_assoc], ?_⟩
  rw [List.length_append]
  omega

end Settles

variable (hub : Hub)

theorem retain_settles (load : Load) : hub.Settles (hub.retain load) := by
  have moved := hub.stakes_modifyCoalescer load.matcher (f := (·.retain load.ticket))
    fun c => c.stakes_retain load.ticket
  have below := (hub.coalescer load.matcher).stakes_retain load.ticket
  exact .of_le rfl (by unfold retain; omega)

theorem keep_settles (load : Load) : hub.Settles (hub.keep load) := hub.retain_settles load

theorem resolve_settles (load : Load) (value : Bool) : hub.Settles (hub.resolve load value).2 := by
  unfold resolve
  by_cases waits : hub.state load = .waiting
  · rw [if_pos waits]
    have moved := hub.stakes_modifyCoalescer load.matcher (f := fun c => (c.resolve load.ticket value).2) fun c => by
      by_cases open_ : c.state load.ticket = .waiting
      · exact Nat.le_of_add_right_le (Nat.le_of_eq (Coalescer.stakes_resolve open_ value))
      · rw [Coalescer.resolve, if_pos (by simpa [Coalescer.isResolved] using open_)]
    have settled := Coalescer.stakes_resolve waits value
    refine ⟨hub.waiters load, rfl, ?_⟩
    change (hub.modifyCoalescer load.matcher fun c => (c.resolve load.ticket value).2).stakes +
      ((hub.coalescer load.matcher).waiters load.ticket).length ≤ hub.stakes
    omega
  · rw [if_neg waits]
    exact .refl hub

theorem release_settles (load : Load) : hub.Settles (hub.release load) := by
  have moved := hub.stakes_modifyCoalescer load.matcher (f := (·.release load.ticket))
    fun c => c.stakes_release_le load.ticket
  unfold release
  dsimp only
  split
  · rename_i lost
    obtain ⟨waits, gone⟩ := lost
    have known : load.matcher ∈ hub.names := by
      by_contra absent
      rw [state, coalescer_of_not_mem hub absent] at waits
      cases waits
    have gone : ((hub.coalescer load.matcher).release load.ticket).state load.ticket = .lost := by
      rwa [state, coalescer_modifyCoalescer, if_pos ⟨rfl, known⟩] at gone
    have settled := Coalescer.stakes_release waits gone
    refine ⟨hub.waiters load, rfl, ?_⟩
    change (hub.modifyCoalescer load.matcher (·.release load.ticket)).stakes +
      ((hub.coalescer load.matcher).waiters load.ticket).length ≤ hub.stakes
    omega
  · have below := (hub.coalescer load.matcher).stakes_release_le load.ticket
    exact .of_le rfl (by omega)

theorem releaseAll_settles (loads : List Load) : hub.Settles (hub.releaseAll loads) := by
  refine List.foldlRecOn loads _ (motive := fun later => hub.Settles later) (.refl hub) fun later settles load _ => ?_
  exact settles.trans (later.release_settles load)

theorem resolveAll_settles (loads : List Load) (value : Bool) : hub.Settles (hub.resolveAll loads value).2 := by
  refine List.foldlRecOn loads _ (motive := fun r : Nat × Hub => hub.Settles r.2) (.refl hub)
    fun r settles load _ => ?_
  exact settles.trans (r.2.resolve_settles load value)

/-- Whoever had `naps` before it has `rest` later, and the alarms that were set meanwhile are some of these; nobody
new waits, and nothing was loaded. -/
structure Eases (before : Hub) (naps : Nat) (later : Hub) (rest : Nat) : Prop where
  settles : before.Settles later
  alarms : later.alarms.length + rest ≤ before.alarms.length + naps
  reloads : later.reloads = before.reloads

namespace Eases

theorem refl (naps : Nat) : hub.Eases naps hub naps := ⟨.refl hub, Nat.le_refl _, rfl⟩

variable {hub}

theorem trans {between later : Hub} {naps fewer rest : Nat} (first : hub.Eases naps between fewer)
    (second : between.Eases fewer later rest) : hub.Eases naps later rest :=
  ⟨first.settles.trans second.settles, Nat.le_trans second.alarms first.alarms, second.reloads.trans first.reloads⟩

/-- Others may nap beside. -/
theorem add {later : Hub} {naps rest : Nat} (eases : hub.Eases naps later rest) (others : Nat) :
    hub.Eases (naps + others) later (rest + others) :=
  ⟨eases.settles, by have le := eases.alarms; omega, eases.reloads⟩

theorem of_settles {later : Hub} (settles : hub.Settles later) (alarms : later.alarms = hub.alarms)
    (reloads : later.reloads = hub.reloads) (naps : Nat) : hub.Eases naps later naps :=
  ⟨settles, Nat.le_of_eq (by rw [alarms]), reloads⟩

end Eases

end Hub

open Hub (Eases)

theorem Alarm.length_insert (alarm : Alarm) (alarms : List Alarm) :
    (alarm.insert alarms).length = alarms.length + 1 := by
  induction alarms with
  | nil => rfl
  | cons other others ih =>
    unfold insert
    split
    · rfl
    · rw [List.length_cons, ih, List.length_cons]

/-- An alarm takes a nap. -/
theorem Scene.setAlarm_eases (scene : Scene) (deadline : Nat) (purpose : Purpose) (rest : Nat) :
    scene.hub.Eases (rest + 1) (scene.setAlarm deadline purpose).hub rest := by
  refine ⟨.of_le rfl (Nat.le_refl _), ?_, rfl⟩
  have one_more := Alarm.length_insert ⟨deadline, scene.journal.alarms, purpose⟩ scene.hub.alarms
  change (Alarm.insert _ _).length + rest ≤ _
  omega

/-! ### Batches -/

theorem BatchTask.run_eases (matcher : String) (tickets : List Nat) {task : BatchTask} (loadless : task.Loadless)
    (scene : Scene) :
    let r := task.run matcher tickets scene
    scene.hub.Eases task.naps r.2.hub r.1.naps ∧ r.1.Loadless := by
  induction task generalizing scene with
  | done ending => exact ⟨.refl _ 0, trivial⟩
  | sleep ticks rest ih =>
    cases ticks with
    | zero =>
      obtain ⟨⟨settles, alarms, reloads⟩, later⟩ := ih loadless scene
      exact ⟨⟨settles, Nat.le_succ_of_le alarms, reloads⟩, later⟩
    | succ ticks => exact ⟨.refl _ _, loadless⟩
  | resolve entry value rest ih =>
    refine ⟨Eases.trans ?_ (ih loadless _).1, (ih loadless _).2⟩
    split
    · rename_i target _
      exact .of_settles (scene.hub.resolve_settles target value) (Hub.alarms_resolve _ _ _)
        (Hub.reloads_of_ledger (Hub.ledger_resolve _ _ _)) _
    · exact .refl _ _
  | resolveLater ticks entry value rest ih =>
    refine ⟨Eases.trans ?_ (ih loadless _).1, (ih loadless _).2⟩
    split
    · rename_i target _
      have retained : scene.hub.Eases (rest.naps + 1) (scene.hub.retain target) (rest.naps + 1) :=
        .of_settles (scene.hub.retain_settles target) rfl rfl _
      exact retained.trans (Scene.setAlarm_eases { scene with hub := scene.hub.retain target } _ _ _)
    · exact ⟨.refl _, Nat.le_succ _, rfl⟩
  | keep entry rest ih =>
    refine ⟨Eases.trans ?_ (ih loadless _).1, (ih loadless _).2⟩
    split
    · rename_i target _
      exact .of_settles (scene.hub.keep_settles target) rfl rfl _
    · exact .refl _ _
  | loadInto peer request rest ih => exact absurd loadless id

namespace Flight

variable (flight : Flight) (scene : Scene)

theorem landContained_eases (ending : Ending Unit) :
    scene.hub.Eases 0 (flight.landContained ending scene).hub 0 := by
  unfold landContained
  cases ending.contained with
  | ok value =>
    exact .of_settles (scene.hub.releaseAll_settles _) (Hub.alarms_releaseAll _ _)
      (Hub.reloads_of_ledger (Hub.ledger_releaseAll _ _)) 0
  | error cause =>
    have answered : scene.hub.Eases 0 (scene.hub.resolveAll flight.loads false).2 0 :=
      .of_settles (scene.hub.resolveAll_settles _ _) (Hub.alarms_resolveAll _ _ _)
        (Hub.reloads_of_ledger (Hub.ledger_resolveAll _ _ _)) 0
    exact answered.trans (.of_settles (Hub.releaseAll_settles _ _) (Hub.alarms_releaseAll _ _)
      (Hub.reloads_of_ledger (Hub.ledger_releaseAll _ _)) 0)

theorem noteEnd_same (r : FlightProgress × Scene) :
    (flight.noteEnd r).1 = r.1 ∧ (flight.noteEnd r).2.hub = r.2.hub := by
  obtain ⟨progress, scene⟩ := r
  cases progress <;> exact ⟨rfl, rfl⟩

theorem next_asleep (asleep : flight.isAsleep = true) :
    ∃ rest, flight.next scene = .starts rest ∧ rest.naps = flight.naps := by
  obtain ⟨id, matcher, tickets, stage⟩ := flight
  cases stage with
  | asleep deadline rest => exact ⟨rest, rfl, rfl⟩
  | boarding => cases asleep

/-- What comes next in a batch is the rest of it, or what its evaluator made of its requests. -/
theorem next_all {P : BatchTask → Prop} (nothing : P (.done (.value ())))
    (rest : ∀ deadline rest, flight.stage = .asleep deadline rest → P rest)
    (evaluators : scene.hub.All fun evaluate => ∀ number requests task, evaluate number requests = .starts task → P task)
    {task : BatchTask} (next : flight.next scene = .starts task) : P task := by
  unfold Flight.next at next
  cases stage : flight.stage with
  | asleep deadline task' =>
    simp only [stage] at next
    exact Launch.starts.inj next ▸ rest deadline task' stage
  | boarding =>
    cases found : scene.hub.queue? flight.matcher with
    | none =>
      simp only [stage, found] at next
      exact Launch.starts.inj next ▸ nothing
    | some queue =>
      simp only [stage, found] at next
      exact evaluators.queue? found _ _ _ next

theorem next_loadless (loadless : flight.Loadless) (evaluators : scene.hub.All BatchEvaluator.Loadless) {task : BatchTask}
    (next : flight.next scene = .starts task) : task.Loadless := by
  refine flight.next_all scene trivial (fun deadline rest stage => ?_) evaluators next
  rwa [Flight.Loadless, stage] at loadless

/-- A batch that goes on spends naps that it had before it. -/
theorem pollContained_eases (loadless : flight.Loadless) (evaluators : scene.hub.All BatchEvaluator.Loadless) :
    let r := flight.pollContained scene
    ∃ naps, (flight.isAsleep = true → naps = flight.naps) ∧
      scene.hub.Eases naps r.2.hub ((r.1.map Flight.naps).getD 0) ∧ ∀ later, r.1 = some later → later.Loadless := by
  unfold pollContained
  cases due : flight.isDue scene.journal.now with
  | false => exact ⟨flight.naps, fun _ => rfl, .refl _ _, fun later same => Option.some.inj same ▸ loadless⟩
  | true =>
    obtain ⟨naps, same, advanced, rest⟩ : ∃ naps, (flight.isAsleep = true → naps = flight.naps) ∧
        scene.hub.Eases naps (flight.advance (flight.announce scene)).2.hub
          (flight.advance (flight.announce scene)).1.naps ∧
        (flight.advance (flight.announce scene)).1.Loadless := by
      rw [advance_eq, (flight.noteEnd_same _).1, (flight.noteEnd_same _).2]
      cases next : flight.next scene with
      | panics payload =>
        refine ⟨0, fun asleep => ?_, ?_, trivial⟩
        · obtain ⟨rest, goes, -⟩ := flight.next_asleep scene asleep
          cases next.symm.trans goes
        · rw [flight.hub_called scene]
          exact .refl _ 0
      | starts task =>
        have ran := BatchTask.run_eases flight.matcher flight.tickets
          (flight.next_loadless scene loadless evaluators next) (flight.called scene)
        rw [flight.hub_called scene] at ran
        refine ⟨task.naps, fun asleep => ?_, ran.1, ran.2⟩
        obtain ⟨rest, goes, same⟩ := flight.next_asleep scene asleep
        obtain rfl := Launch.starts.inj (next.symm.trans goes)
        exact same
    simp only [Bool.not_true, Bool.false_eq_true, if_false]
    generalize flight.advance (flight.announce scene) = r at advanced rest ⊢
    obtain ⟨progress, later⟩ := r
    cases progress with
    | asleep deadline task =>
      refine ⟨naps, same, advanced.trans (Scene.setAlarm_eases later deadline _ _), fun next eq => ?_⟩
      exact Option.some.inj eq ▸ rest
    | ended ending => exact ⟨naps, same, advanced.trans (landContained_eases _ _ _), nofun⟩

end Flight

namespace Drive

/-- The naps of all batches in flight. -/
def naps (flights : List Flight) : Nat := (flights.map (·.naps)).sum

/-- No batch that was polled loads anything. -/
theorem pollFlight_loadless {flights : List Flight} (loadless : ∀ flight ∈ flights, flight.Loadless) {scene : Scene}
    (evaluators : scene.hub.All BatchEvaluator.Loadless) (id : Nat) :
    (pollFlight flights scene id).2.hub.reloads = scene.hub.reloads ∧
      ∀ flight ∈ (pollFlight flights scene id).1, flight.Loadless := by
  have own (flight : Flight) (mem : flight ∈ flights) := flight.pollContained_eases scene (loadless flight mem) evaluators
  refine ⟨?_, forall_mem_pollFlight loadless fun flight mem => (own flight mem).choose_spec.2.2⟩
  rcases pollFlight_scene_cases flights scene id with same | ⟨flight, mem, polled⟩
  · rw [same]
  · rw [polled]
    exact (own flight mem).choose_spec.2.1.reloads

/-- A sum over all batches, the one with some number apart. -/
theorem sum_split {flights : List Flight} (nodup : (ids flights).Nodup) {id : Nat} {flight : Flight}
    (found : flights.find? (·.id = id) = some flight) (f : Flight → Nat) :
    (flights.map f).sum = f flight + ((flights.filter (·.id ≠ id)).map f).sum :=
  ((perm_others nodup found).map f).sum_eq

/-- A sum over all batches after a turn, in which the one whose turn it was counts for nothing if it has landed. -/
theorem sum_pollFlight {flights : List Flight} (nodup : (ids flights).Nodup) (scene : Scene) {id : Nat}
    {flight : Flight} (found : flights.find? (·.id = id) = some flight) (f : Flight → Nat) :
    ((pollFlight flights scene id).1.map f).sum =
      ((flight.pollContained scene).1.map f).getD 0 + ((flights.filter (·.id ≠ id)).map f).sum := by
  rw [((perm_pollFlight nodup scene found).map f).sum_eq, List.map_append, List.sum_append]
  cases (flight.pollContained scene).1 <;> rfl

theorem pollFlight_eases {flights : List Flight} (nodup : (ids flights).Nodup) (asleep : boarding flights = [])
    (loadless : ∀ flight ∈ flights, flight.Loadless) {scene : Scene}
    (evaluators : scene.hub.All BatchEvaluator.Loadless) (id : Nat) :
    scene.hub.Eases (naps flights) (pollFlight flights scene id).2.hub (naps (pollFlight flights scene id).1) := by
  cases found : flights.find? (·.id = id) with
  | none =>
    rw [pollFlight_of_none found]
    exact .refl _ _
  | some flight =>
    have mem := List.mem_of_find?_eq_some found
    have sleeps : flight.isAsleep = true := by simpa using List.filter_eq_nil_iff.1 asleep flight mem
    obtain ⟨spent, same, eases, -⟩ := flight.pollContained_eases scene (loadless flight mem) evaluators
    rw [same sleeps] at eases
    rw [naps, naps, sum_split nodup found, sum_pollFlight nodup scene found, pollFlight_scene found]
    exact eases.add _

/-- When all batches go on that can, they spend naps that they had before them, and load nothing. -/
theorem pollReady_eases (ready : List Nat) {flights : List Flight} (nodup : (ids flights).Nodup)
    (asleep : boarding flights = []) (loadless : ∀ flight ∈ flights, flight.Loadless) (polled : Nat) {scene : Scene}
    (evaluators : scene.hub.All BatchEvaluator.Loadless) :
    scene.hub.Eases (naps flights) (pollReady flights polled ready scene).2.2.hub
      (naps (pollReady flights polled ready scene).1) := by
  induction ready generalizing flights polled scene with
  | nil => exact .refl _ _
  | cons id ready ih =>
    have first := pollFlight_eases nodup asleep loadless evaluators id
    have in_flight := ids_pollFlight nodup scene id
    have still_asleep : boarding (pollFlight flights scene id).1 = [] := by
      rw [boarding_pollFlight, asleep]
      rfl
    exact first.trans (ih (List.Nodup.sublist (List.sublist_append_right _ _) (in_flight.nodup_iff.2 nodup))
      still_asleep (pollFlight_loadless loadless evaluators id).2 _
      (evaluators.of_eq (evaluators_pollFlight flights scene id)))

theorem pollReady_loadless (ready : List Nat) {flights : List Flight} (loadless : ∀ flight ∈ flights, flight.Loadless)
    (polled : Nat) {scene : Scene} (evaluators : scene.hub.All BatchEvaluator.Loadless) :
    (pollReady flights polled ready scene).2.2.hub.reloads = scene.hub.reloads ∧
      ∀ flight ∈ (pollReady flights polled ready scene).1, flight.Loadless := by
  induction ready generalizing flights polled scene with
  | nil => exact ⟨rfl, loadless⟩
  | cons id ready ih =>
    obtain ⟨same, first⟩ := pollFlight_loadless loadless evaluators id
    obtain ⟨later, rest⟩ := ih first
      (if (pollFlight flights scene id).1.length < flights.length then 0 else polled + 1)
      (evaluators.of_eq (evaluators_pollFlight flights scene id))
    exact ⟨later.trans same, rest⟩

end Drive

end Segmentation
