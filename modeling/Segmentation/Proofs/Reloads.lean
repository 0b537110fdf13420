import Segmentation.Proofs.Effort
import Segmentation.Proofs.Instants

/-!
# Requests that batches load

While batches go on, only the requests that they load are accepted, and these wait in their queues (`Hub.Queues`).  A
batch lingers if it sleeps after all that it loads.  Then it has not landed when it has loaded something, and an alarm is
set for it (`Drive.pollReady_lingers`).
-/

namespace Segmentation

namespace Hub

theorem Within.of_ledger {before later : Hub} (within : before.Within) (same : later.ledger = before.ledger) :
    later.Within := within.mono (.of_ledger same)

/-- Nothing was accepted but what batches loaded meanwhile.  That was queued, where there is a queue for it: it was
accepted, and had not been taken before. -/
def Queues (before later : Hub) : Prop :=
  ∃ more, later.reloads = before.reloads ++ more ∧
    (∀ load ∈ more, load.matcher ∈ before.names →
      (before.account load.matcher).taken ≤ load.ticket ∧ load.ticket < (later.account load.matcher).accepted.length) ∧
    ∀ load : Load, (before.account load.matcher).accepted.length ≤ load.ticket →
      load.ticket < (later.account load.matcher).accepted.length → load ∈ more

namespace Queues

/-- Where nothing is accepted. -/
theorem of_accepted {before later : Hub} (reloads : later.reloads = before.reloads)
    (accepted : ∀ name, (later.account name).accepted = (before.account name).accepted) : before.Queues later := by
  refine ⟨[], reloads.trans (List.append_nil _).symm, List.forall_mem_nil _, fun load late loaded => ?_⟩
  rw [accepted] at loaded
  exact absurd loaded (Nat.not_lt.2 late)

theorem of_ledger {before later : Hub} (same : later.ledger = before.ledger) : before.Queues later :=
  .of_accepted (reloads_of_ledger same) fun name => by rw [account_of_ledger same]

theorem refl (hub : Hub) : hub.Queues hub := .of_ledger rfl

theorem trans {a b c : Hub} (ab : a.Queues b) (bc : b.Queues c) (names : a.names ⊆ b.names)
    (taken : ∀ name, (a.account name).taken ≤ (b.account name).taken)
    (accepted : ∀ name, (b.account name).accepted <+: (c.account name).accepted) : a.Queues c := by
  obtain ⟨first, reloads, queued, told⟩ := ab
  obtain ⟨second, reloads', queued', told'⟩ := bc
  refine ⟨first ++ second, by rw [reloads', reloads, List.append_assoc], fun load mem known => ?_,
    fun load late loaded => ?_⟩
  · rcases List.mem_append.1 mem with mem | mem
    · obtain ⟨late, loaded⟩ := queued load mem known
      exact ⟨late, Nat.lt_of_lt_of_le loaded (accepted load.matcher).length_le⟩
    · obtain ⟨late, loaded⟩ := queued' load mem (names known)
      exact ⟨Nat.le_trans (taken load.matcher) late, loaded⟩
  · by_cases between : load.ticket < (b.account load.matcher).accepted.length
    · exact List.mem_append_left _ (told load late between)
    · exact List.mem_append_right _ (told' load (Nat.not_lt.1 between) loaded)

/-- Where nothing happened to the queues before. -/
theorem after {a b c : Hub} (bc : b.Queues c) (same : b.ledger = a.ledger) : a.Queues c := by
  obtain ⟨more, reloads, queued, told⟩ := bc
  refine ⟨more, by rw [reloads, reloads_of_ledger same], fun load mem known => ?_, fun load late loaded => ?_⟩
  · rw [← account_of_ledger same]
    exact queued load mem (names_of_ledger same ▸ known)
  · rw [← account_of_ledger same] at late
    exact told load late loaded

/-- Where nothing is taken in between. -/
theorem trans_continues {a b c : Hub} (ab : a.Queues b) (bc : b.Queues c) (first : a.Continues b) (second : b.Continues c) :
    a.Queues c :=
  ab.trans bc first.extends_.names.subset (fun name => Nat.le_of_eq (first.extends_.taken name).symm)
    second.extends_.accepted

end Queues

/-- A request that is loaded and noted is queued, and nothing else is new. -/
theorem load_queues (hub : Hub) (within : hub.Within) (matcher : String) (request : Request) :
    let loaded := hub.load matcher request
    hub.Queues { loaded.2 with reloads := loaded.2.reloads ++ [loaded.1] } := by
  intro loaded
  refine ⟨[loaded.1], rfl, List.forall_mem_singleton.2 fun known => ?_, fun load late loaded_later => ?_⟩
  · have known : matcher ∈ hub.names := known
    obtain ⟨-, late, entries⟩ := hub.loadKeyed_spec known (within _) request.stableKey request
    refine ⟨late, (isSome_entryOf?_iff loaded.2 loaded.1).1 ?_⟩
    rcases entries with ⟨⟨e, found, -⟩, same⟩ | ⟨-, grown⟩
    · exact Option.isSome_of_eq_some ((same _).trans found)
    · exact Option.isSome_of_eq_some ((grown _).trans (if_pos rfl))
  · -- Whatever has an entry now and had none before is what was loaded.
    have there := (isSome_entryOf?_iff loaded.2 load).2 loaded_later
    have absent : ¬ (hub.entryOf? load).isSome :=
      fun there => absurd ((isSome_entryOf?_iff _ load).1 there) (Nat.not_lt.2 late)
    by_cases known : matcher ∈ hub.names
    · obtain ⟨-, -, ⟨-, same⟩ | ⟨-, grown⟩⟩ := hub.loadKeyed_spec known (within _) request.stableKey request
      · exact absurd ((congrArg Option.isSome (same load)).symm.trans there) absent
      · by_contra other
        have same := (grown load).trans (if_neg fun here => other (List.mem_singleton.2 here))
        exact absurd ((congrArg Option.isSome same).symm.trans there) absent
    · have same : loaded.2 = hub := hub.load_of_not_mem known request
      rw [same] at there
      exact absurd there absent

end Hub

/-- What a batch loads is queued. -/
theorem BatchTask.run_queues (matcher : String) (tickets : List Nat) (task : BatchTask) {scene : Scene}
    (within : scene.hub.Within) : scene.hub.Queues (task.run matcher tickets scene).2.hub := by
  induction task generalizing scene with
  | done ending => exact .refl _
  | sleep ticks rest ih =>
    cases ticks with
    | zero => exact ih within
    | succ ticks => exact .refl _
  | resolve entry value rest ih =>
    unfold run
    cases entryLoad? matcher tickets entry with
    | none => exact ih within
    | some target =>
      have same := scene.hub.ledger_resolve target value
      exact (@ih { scene with hub := _ } (within.of_ledger same)).after same
  | resolveLater ticks entry value rest ih =>
    unfold run
    cases entryLoad? matcher tickets entry with
    | none => exact ih within
    | some target =>
      have same := scene.ledger_answerAt (scene.journal.now + ticks) target value
      exact (ih (within.of_ledger same)).after same
  | keep entry rest ih =>
    unfold run
    cases entryLoad? matcher tickets entry with
    | none => exact ih within
    | some target =>
      have same := scene.hub.ledger_keep target
      exact (@ih { scene with hub := _ } (within.of_ledger same)).after same
  | loadInto peer request rest ih =>
    let loaded := scene.hub.load (peer.getD matcher) request
    let noted := { loaded.2 with reloads := loaded.2.reloads ++ [loaded.1] }
    have first : scene.hub.Queues noted := scene.hub.load_queues within (peer.getD matcher) request
    have continues : scene.hub.Continues noted :=
      BatchTask.run_continues matcher tickets (.loadInto peer request (.done (.value ()))) scene
    have rest_queues := @ih { scene with hub := noted } (within.mono continues.extends_)
    exact first.trans_continues rest_queues continues (run_continues matcher tickets rest { scene with hub := noted })

theorem Flight.ledger_landContained (flight : Flight) (ending : Ending Unit) (scene : Scene) :
    (flight.landContained ending scene).hub.ledger = scene.hub.ledger := by
  unfold landContained
  cases ending.contained with
  | ok value => exact Hub.ledger_releaseAll _ _
  | error cause => exact (Hub.ledger_releaseAll _ _).trans (Hub.ledger_resolveAll _ _ _)

/-- What a batch loads when it goes on is queued. -/
theorem Flight.pollContained_queues (flight : Flight) {scene : Scene} (within : scene.hub.Within) :
    scene.hub.Queues (flight.pollContained scene).2.hub := by
  have advanced : scene.hub.Queues (flight.advance (flight.announce scene)).2.hub := by
    rw [advance_eq, (flight.noteEnd_same _).2]
    have same := flight.hub_called scene
    cases flight.next scene with
    | panics payload => exact .of_ledger (congrArg Hub.ledger same)
    | starts task =>
      rw [← same] at within ⊢
      exact task.run_queues flight.matcher flight.tickets within
  have went_on := flight.advance_continues scene
  unfold pollContained
  split
  · exact .refl _
  · generalize flight.advance (flight.announce scene) = r at advanced went_on ⊢
    obtain ⟨progress, later⟩ := r
    cases progress with
    | asleep deadline rest => exact advanced.trans_continues (.of_ledger rfl) went_on (.of_ledger rfl)
    | ended ending =>
      have landed := flight.ledger_landContained ending later
      exact advanced.trans_continues (.of_ledger landed) went_on (.of_ledger landed)

namespace Drive

theorem pollFlight_queues (flights : List Flight) {scene : Scene} (within : scene.hub.Within) (id : Nat) :
    scene.hub.Queues (pollFlight flights scene id).2.hub := by
  rcases pollFlight_scene_cases flights scene id with same | ⟨flight, -, polled⟩
  · rw [same]
    exact .refl _
  · rw [polled]
    exact flight.pollContained_queues within

/-- What batches load in their turns is queued. -/
theorem pollReady_queues (flights : List Flight) (polled : Nat) (ready : List Nat) {scene : Scene}
    (within : scene.hub.Within) : scene.hub.Queues (pollReady flights polled ready scene).2.2.hub ∧
      scene.hub.Continues (pollReady flights polled ready scene).2.2.hub := by
  induction ready generalizing flights polled scene with
  | nil => exact ⟨.refl _, .refl _⟩
  | cons id ready ih =>
    have continues := pollFlight_continues flights scene id
    obtain ⟨queues, rest⟩ := ih (pollFlight flights scene id).1
      (if (pollFlight flights scene id).1.length < flights.length then 0 else polled + 1)
      (within.mono continues.extends_)
    exact ⟨(pollFlight_queues flights within id).trans_continues queues continues rest, continues.trans rest⟩

end Drive

/-! ### Batches that linger -/

/-- A batch sleeps after all that it loads; `loaded` tells whether it has loaded something since it slept last. -/
def BatchTask.Lingers (loaded : Bool) : BatchTask → Prop
  | .done _ => loaded = false
  | .sleep 0 rest => rest.Lingers loaded
  | .sleep (_ + 1) rest => rest.Lingers false
  | .resolve _ _ rest => rest.Lingers loaded
  | .resolveLater _ _ _ rest => rest.Lingers loaded
  | .keep _ rest => rest.Lingers loaded
  | .loadInto _ _ rest => rest.Lingers true

/-- An evaluator whose batches sleep after all that they load. -/
def BatchEvaluator.Lingers (evaluate : BatchEvaluator) : Prop :=
  ∀ number requests task, evaluate number requests = .starts task → task.Lingers false

def FlightProgress.Lingers : FlightProgress → Prop
  | .asleep _ rest => rest.Lingers false
  | .ended _ => True

def Flight.Lingers (flight : Flight) : Prop :=
  match flight.stage with
  | .boarding => True
  | .asleep _ rest => rest.Lingers false

/-- A batch that loads nothing lingers. -/
theorem BatchTask.Loadless.lingers {task : BatchTask} (loadless : task.Loadless) : task.Lingers false := by
  induction task with
  | done ending => rfl
  | sleep ticks rest ih => cases ticks <;> exact ih loadless
  | resolve entry value rest ih => exact ih loadless
  | resolveLater ticks entry value rest ih => exact ih loadless
  | keep entry rest ih => exact ih loadless
  | loadInto peer request rest ih => exact absurd loadless id

/-- If a batch that lingers has ended, it has loaded nothing since it slept last. -/
theorem BatchTask.run_lingers (matcher : String) (tickets : List Nat) {task : BatchTask} {loaded : Bool}
    (lingers : task.Lingers loaded) (scene : Scene) :
    (task.run matcher tickets scene).1.Lingers ∧ ∀ ending, (task.run matcher tickets scene).1 = .ended ending →
      loaded = false ∧ (task.run matcher tickets scene).2.hub.ledger = scene.hub.ledger := by
  induction task generalizing loaded scene with
  | done ending => exact ⟨trivial, fun _ _ => ⟨lingers, rfl⟩⟩
  | sleep ticks rest ih =>
    cases ticks with
    | zero => exact ih lingers scene
    | succ ticks =>
      refine ⟨lingers, fun ending ended => ?_⟩
      cases ended
  | resolve entry value rest ih =>
    unfold run
    cases entryLoad? matcher tickets entry with
    | none => exact ih lingers scene
    | some target =>
      have same := scene.hub.ledger_resolve target value
      obtain ⟨later, quiet⟩ := ih lingers { scene with hub := (scene.hub.resolve target value).2 }
      exact ⟨later, fun ending ended => (quiet ending ended).imp_right (·.trans same)⟩
  | resolveLater ticks entry value rest ih =>
    unfold run
    cases entryLoad? matcher tickets entry with
    | none => exact ih lingers scene
    | some target =>
      have same := scene.ledger_answerAt (scene.journal.now + ticks) target value
      obtain ⟨later, quiet⟩ := ih lingers (scene.answerAt (scene.journal.now + ticks) target value)
      exact ⟨later, fun ending ended => (quiet ending ended).imp_right (·.trans same)⟩
  | keep entry rest ih =>
    unfold run
    cases entryLoad? matcher tickets entry with
    | none => exact ih lingers scene
    | some target =>
      have same := scene.hub.ledger_keep target
      obtain ⟨later, quiet⟩ := ih lingers { scene with hub := scene.hub.keep target }
      exact ⟨later, fun ending ended => (quiet ending ended).imp_right (·.trans same)⟩
  | loadInto peer request rest ih =>
    -- a batch that has loaded something has yet to sleep
    obtain ⟨later, quiet⟩ := @ih true lingers { scene with
      hub := { (scene.hub.load (peer.getD matcher) request).2 with
        reloads := (scene.hub.load (peer.getD matcher) request).2.reloads ++
          [(scene.hub.load (peer.getD matcher) request).1] } }
    exact ⟨later, fun ending ended => absurd (quiet ending ended).1 Bool.noConfusion⟩

/-- An alarm is set for some batch. -/
def Hub.ResumesBatch (hub : Hub) : Prop := ∃ alarm ∈ hub.alarms, ∃ flight, alarm.purpose = .resumeBatch flight

theorem Hub.ResumesBatch.mono {P : Event → Prop} {before later : Scene} (resumes : before.hub.ResumesBatch)
    (stands : before.Stands P later) : later.hub.ResumesBatch := by
  obtain ⟨alarm, mem, own⟩ := resumes
  exact ⟨alarm, stands.alarms mem, own⟩

namespace Flight

theorem next_lingers {flight : Flight} (lingers : flight.Lingers) {scene : Scene}
    (evaluators : scene.hub.All BatchEvaluator.Lingers) {task : BatchTask} (next : flight.next scene = .starts task) :
    task.Lingers false := by
  refine flight.next_all scene (P := (·.Lingers false)) rfl (fun deadline rest stage => ?_) evaluators next
  rwa [Flight.Lingers, stage] at lingers

/-- When a batch that lingers has loaded something, an alarm is set for it. -/
theorem pollContained_lingers {flight : Flight} (lingers : flight.Lingers) {scene : Scene}
    (evaluators : scene.hub.All BatchEvaluator.Lingers) :
    (∀ later, (flight.pollContained scene).1 = some later → later.Lingers) ∧
      ((flight.pollContained scene).2.hub.ledger = scene.hub.ledger ∨
        (flight.pollContained scene).2.hub.ResumesBatch) := by
  have advanced : (flight.advance (flight.announce scene)).1.Lingers ∧
      ∀ ending, (flight.advance (flight.announce scene)).1 = .ended ending →
        (flight.advance (flight.announce scene)).2.hub.ledger = scene.hub.ledger := by
    have same := congrArg Hub.ledger (flight.hub_called scene)
    rw [advance_eq, (flight.noteEnd_same _).1, (flight.noteEnd_same _).2]
    cases next : flight.next scene with
    | panics payload => exact ⟨trivial, fun _ _ => same⟩
    | starts task =>
      obtain ⟨later, quiet⟩ := BatchTask.run_lingers flight.matcher flight.tickets
        (next_lingers lingers evaluators next) (flight.called scene)
      exact ⟨later, fun ending ended => (quiet ending ended).2.trans same⟩
  unfold pollContained
  split
  · exact ⟨fun later same => Option.some.inj same ▸ lingers, .inl rfl⟩
  · generalize flight.advance (flight.announce scene) = r at advanced ⊢
    obtain ⟨progress, later⟩ := r
    cases progress with
    | asleep deadline rest =>
      exact ⟨fun next same => Option.some.inj same ▸ advanced.1,
        .inr ⟨_, Scene.Stands.mem_setAlarm later deadline _, flight.id, rfl⟩⟩
    | ended ending =>
      exact ⟨fun next none => absurd none (Option.some_ne_none next).symm,
        .inl ((flight.ledger_landContained ending later).trans (advanced.2 ending rfl))⟩

end Flight

namespace Drive

theorem pollFlight_lingers {flights : List Flight} (lingers : ∀ flight ∈ flights, flight.Lingers) {scene : Scene}
    (evaluators : scene.hub.All BatchEvaluator.Lingers) (id : Nat) :
    (∀ flight ∈ (pollFlight flights scene id).1, flight.Lingers) ∧
      ((pollFlight flights scene id).2.hub.ledger = scene.hub.ledger ∨
        (pollFlight flights scene id).2.hub.ResumesBatch) := by
  have own (flight : Flight) (mem : flight ∈ flights) := Flight.pollContained_lingers (lingers flight mem) evaluators
  refine ⟨forall_mem_pollFlight lingers fun flight mem => (own flight mem).1, ?_⟩
  rcases pollFlight_scene_cases flights scene id with same | ⟨flight, mem, polled⟩
  · rw [same]
    exact .inl rfl
  · rw [polled]
    exact (own flight mem).2

/-- When batches that linger have loaded something in their turns, an alarm is set for one of them. -/
theorem pollReady_lingers {flights : List Flight} (lingers : ∀ flight ∈ flights, flight.Lingers) (polled : Nat)
    (ready : List Nat) {scene : Scene} (evaluators : scene.hub.All BatchEvaluator.Lingers) :
    (∀ flight ∈ (pollReady flights polled ready scene).1, flight.Lingers) ∧
      ((pollReady flights polled ready scene).2.2.hub.ledger = scene.hub.ledger ∨
        (pollReady flights polled ready scene).2.2.hub.ResumesBatch) := by
  induction ready generalizing flights polled scene with
  | nil => exact ⟨lingers, .inl rfl⟩
  | cons id ready ih =>
    obtain ⟨first, kept⟩ := pollFlight_lingers lingers evaluators id
    let passed := if (pollFlight flights scene id).1.length < flights.length then 0 else polled + 1
    obtain ⟨rest, still⟩ := ih first passed (evaluators.of_eq (evaluators_pollFlight flights scene id))
    refine ⟨rest, ?_⟩
    rcases kept with same | resumes
    · exact still.imp_left (·.trans same)
    · exact .inr (resumes.mono (pollReady_stands _ passed ready _))

end Drive

end Segmentation
