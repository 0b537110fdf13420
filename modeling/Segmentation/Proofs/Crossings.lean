import Segmentation.Proofs.Timetable
import Segmentation.Proofs.Voyages

/-!
# Batches while a drive goes on

In a pass of a drive its client asks (`Scene.Inquires`), and what it has asked is taken and sets out on voyages
(`Drive.Fleet.pass`).  Then time goes on to the first alarm: what it promised to a load is due, or the batch for which it
was set goes on (`Drive.Fleet.advance`).
-/

namespace Segmentation

/-! ### What clients do -/

/-- A client asks: requests are loaded, somebody waits for some that are queued, and alarms are set that wake somebody.
The new queues have evaluators of the staff. -/
structure Scene.Inquires (staff : String → BatchEvaluator → Prop) (before later : Scene) : Prop where
  loads : before.hub.Loads later.hub
  now : later.journal.now = before.journal.now
  states : ∀ load, (before.hub.entryOf? load).isSome → later.hub.state load = before.hub.state load
  waiters : ∀ load, ∀ place ∈ later.hub.waiters load,
    place ∈ before.hub.waiters load ∨ (before.hub.account load.matcher).taken ≤ load.ticket
  promises : ∀ load t v, later.hub.Promises load t v ↔ before.hub.Promises load t v
  timely : before.Timely → later.Timely
  staffed : ∀ entry ∈ later.hub.evaluators, entry ∈ before.hub.evaluators ∨ staff entry.1 entry.2

namespace Scene.Inquires

variable {staff : String → BatchEvaluator → Prop}

/-- What is done beside the hub does not matter. -/
theorem of_hub {before later : Scene} (hub : later.hub = before.hub) (now : later.journal.now = before.journal.now) :
    before.Inquires staff later where
  loads := hub ▸ .refl _
  now := now
  states _ _ := by rw [hub]
  waiters _ _ mem := .inl (hub ▸ mem)
  promises _ _ _ := by rw [hub]
  timely timely := timely.of_alarms (congrArg Hub.alarms hub) now
  staffed _ mem := .inl (hub ▸ mem)

theorem refl (scene : Scene) : scene.Inquires staff scene := .of_hub rfl rfl

theorem trans {a b c : Scene} (ab : a.Inquires staff b) (bc : b.Inquires staff c) : a.Inquires staff c where
  loads := ab.loads.trans bc.loads
  now := bc.now.trans ab.now
  states load there := by
    have still : (b.hub.entryOf? load).isSome := by
      rw [Hub.isSome_entryOf?_iff] at there ⊢
      exact Nat.lt_of_lt_of_le there (ab.loads.extends_.accepted load.matcher).length_le
    rw [bc.states load still, ab.states load there]
  waiters load place mem := by
    rcases bc.waiters load place mem with mem | queued
    · exact ab.waiters load place mem
    · exact .inr (ab.loads.extends_.taken load.matcher ▸ queued)
  promises load t v := (bc.promises load t v).trans (ab.promises load t v)
  timely timely := bc.timely (ab.timely timely)
  staffed entry mem := by
    rcases bc.staffed entry mem with mem | new
    · exact ab.staffed entry mem
    · exact .inr new

/-- An alarm that wakes somebody is set. -/
theorem setAlarm (scene : Scene) {deadline : Nat} (ahead : scene.journal.now < deadline) (place : Place) :
    scene.Inquires staff (scene.setAlarm deadline (.wake place)) where
  loads := .of_ledger rfl
  now := rfl
  states _ _ := rfl
  waiters _ _ mem := .inl mem
  promises load t v := (Hub.promises_setAlarm _ _ _ load t v).trans (or_iff_right fun both => nomatch both.2)
  timely timely := timely.setAlarm (Nat.le_of_lt ahead) _
  staffed _ mem := .inl mem

/-- A request to an evaluator of the staff is queued, and somebody waits for it. -/
theorem load (scene : Scene) (within : scene.hub.Within) {matcher : String} {evaluate : BatchEvaluator}
    (employed : staff matcher evaluate) (key : String) (request : Request) (place : Place) {journal : Journal}
    (now : journal.now = scene.journal.now) :
    let loaded := (scene.hub.openQueue matcher evaluate).loadKeyed matcher key request
    scene.Inquires staff ⟨loaded.2.await loaded.1 place, journal⟩ := by
  intro loaded
  let opened := scene.hub.openQueue matcher evaluate
  have known : matcher ∈ opened.names := scene.hub.mem_names_openQueue matcher evaluate
  -- opening the queue changes no entry, so only the load itself counts
  have account (name : String) : opened.account name = scene.hub.account name := by
    rw [Hub.account, Hub.account, Hub.coalescer_openQueue]
  have entry (load : Load) : opened.entryOf? load = scene.hub.entryOf? load :=
    scene.hub.entryOf?_openQueue matcher evaluate load
  obtain ⟨own, queued, entries⟩ := opened.loadKeyed_spec known (by rw [account]; exact within matcher) key request
  have alarms : loaded.2.alarms = scene.hub.alarms := by
    change opened.alarms = scene.hub.alarms
    unfold opened Hub.openQueue
    split <;> rfl
  refine ⟨?_, now, fun load there => ?_, fun load place' mem => ?_, fun load t v => Hub.promises_of_alarms alarms load t v,
    fun timely => timely.of_alarms alarms now, fun entry mem => ?_⟩
  · exact ((scene.hub.openQueue_loads matcher evaluate).trans (opened.loadKeyed_loads matcher key request)).trans
      (.of_ledger (Hub.ledger_await _ _ _))
  · have state_eq := loaded.2.state_await loaded.1 place load
    refine state_eq.trans ?_
    rw [Hub.state_eq, Hub.state_eq]
    rcases entries with ⟨-, same⟩ | ⟨new, grown⟩
    · exact congrArg (fun e => (e.map (·.state)).getD .lost) ((same load).trans (entry load))
    · have differs : load ≠ loaded.1 := by
        rintro rfl
        rw [← entry, new] at there
        cases there
      exact congrArg (fun e => (e.map (·.state)).getD .lost) ((grown load).trans ((if_neg differs).trans (entry load)))
  · by_cases here : load = loaded.1
    · subst here
      rw [account, ← own] at queued
      exact .inr queued
    · rw [Hub.waiters_eq, Hub.entryOf?_await, if_neg here] at mem
      rcases entries with ⟨-, same⟩ | ⟨new, grown⟩
      · exact .inl (by rwa [same load, entry load] at mem)
      · exact .inl (by rwa [grown load, if_neg here, entry load] at mem)
  · have evaluators : (loaded.2.await loaded.1 place).evaluators = opened.evaluators :=
      (Hub.evaluators_await _ _ _).trans (Hub.evaluators_modifyCoalescer opened _ _)
    rw [evaluators] at mem
    unfold opened Hub.openQueue at mem
    split at mem
    · exact .inl mem
    · rw [Hub.evaluators, List.map_append, List.mem_append] at mem
      rcases mem with old | new
      · exact .inl old
      · rw [List.mem_singleton.1 new]
        exact .inr employed

end Scene.Inquires

namespace Invocation

variable {staff : String → BatchEvaluator → Prop} {scope : Scope} {definition : Definition} {index span : Nat}

theorem settle_inquires (outcome : Outcome) (scene : Scene) :
    scene.Inquires staff (settle scope span outcome scene).2 :=
  .of_hub rfl (settle_stands scope span outcome scene).journal.now

theorem evaluated_inquires {args : Option Json} {running : Running (Ending Bool)} (scene : Scene)
    (ahead : running.IsAhead scene.journal.now) :
    scene.Inquires staff (evaluated scope definition index span args running scene).2 := by
  cases running with
  | asleep deadline rest => exact .setAlarm scene (ahead deadline rest rfl) [index]
  | ended ending =>
    exact .of_hub rfl (evaluated_stands scope definition index span args (.ended ending) scene).journal.now

variable (employed : ∀ evaluate, definition.matcher.evaluator = .batch evaluate → staff definition.name evaluate)

include employed

theorem dispatch_inquires (args : Option Json) (scene : Scene) (within : scene.hub.Within) :
    scene.Inquires staff (dispatch scope definition index span args scene).2 := by
  unfold dispatch
  cases evaluator : definition.matcher.evaluator with
  | single evaluate =>
    have noted : scene.Inquires staff { scene with journal := scene.journal.record (.invoked definition.name args) } :=
      .of_hub rfl rfl
    exact noted.trans (evaluated_inquires _ (Launch.isAhead_start _ _ _))
  | batch evaluate =>
    dsimp only
    split
    · exact settle_inquires _ scene
    · exact .load scene within (employed evaluate evaluator) _ _ _ rfl

theorem validated_inquires {running : Running Checked} (scene : Scene) (ahead : running.IsAhead scene.journal.now)
    (within : scene.hub.Within) : scene.Inquires staff (validated scope definition index span running scene).2 := by
  cases running with
  | asleep deadline rest => exact .setAlarm scene (ahead deadline rest rfl) [index]
  | ended checked =>
    unfold validated
    dsimp only
    split
    · exact dispatch_inquires employed _ scene within
    · exact settle_inquires _ scene

theorem begins_inquires (scene : Scene) (within : scene.hub.Within) :
    scene.Inquires staff (begins scope definition index scene).2 := by
  have opened : scene.Inquires staff { scene with
      journal := scene.journal.recordAll (scope.spanEvents (opening scope definition scene.journal.spanCount)) } :=
    .of_hub rfl rfl
  unfold begins
  dsimp only
  split
  · rename_i schema raw _ _
    have noted (before : Scene) : before.Inquires staff { before with
        journal := before.journal.record (.argumentChecked definition.name raw) } := .of_hub rfl rfl
    exact (opened.trans (noted _)).trans (validated_inquires employed _ (Launch.isAhead_start _ _ _) within)
  · exact opened.trans (settle_inquires _ _)
  · exact opened.trans (dispatch_inquires employed _ _ within)

theorem advance_inquires (stage : Stage) (scene : Scene) (within : scene.hub.Within) :
    scene.Inquires staff (advance scope definition index stage scene).2 := by
  unfold advance
  cases stage with
  | fresh => exact begins_inquires employed scene within
  | validating span deadline rest =>
    dsimp only
    split
    · exact .refl scene
    · exact validated_inquires employed scene (Task.isAhead_start _ _) within
  | evaluating span args deadline rest =>
    dsimp only
    split
    · exact .refl scene
    · exact evaluated_inquires scene (Task.isAhead_start _ _)
  | awaiting span load =>
    dsimp only
    split
    · exact .refl scene
    · exact settle_inquires _ scene
    · exact settle_inquires _ scene
  | settled outcome => exact .refl scene

end Invocation

/-- A client that is polled asks evaluators of the staff. -/
theorem Session.advanceAll_inquires {staff : String → BatchEvaluator → Prop} (indices : List Nat) {session : Session}
    (employed : ∀ i ∈ session.invocations, ∀ evaluate, i.definition.matcher.evaluator = .batch evaluate →
      staff i.definition.name evaluate) (scene : Scene) (within : scene.hub.Within) :
    scene.Inquires staff (advanceAll indices session scene).2 := by
  induction indices generalizing session scene with
  | nil => exact .refl scene
  | cons index indices ih =>
    have first : scene.Inquires staff (session.advance scene index).2 := by
      unfold advance
      cases here : session.invocations[index]? with
      | none => exact .refl scene
      | some i => exact Invocation.advance_inquires (employed i (List.mem_of_getElem? here)) _ scene within
    have known := known_advance (P := fun d => ∀ evaluate, d.matcher.evaluator = .batch evaluate → staff d.name evaluate)
      employed scene index
    exact first.trans (ih known _ (within.mono first.loads.extends_))

theorem Drive.pollClient_inquires {staff : String → BatchEvaluator → Prop} (drive : Drive Evaluation)
    (employed : ∀ i ∈ drive.client.session.invocations, ∀ evaluate, i.definition.matcher.evaluator = .batch evaluate →
      staff i.definition.name evaluate) (scene : Scene) (within : scene.hub.Within) :
    scene.Inquires staff (drive.pollClient scene).2 := by
  unfold pollClient
  split
  · exact .refl scene
  · exact Session.advanceAll_inquires _ employed scene within

/-! ### Alarms -/

namespace Hub

variable {load : Load} {others : Nat → Bool → Prop} {t due : Nat} {value : Bool}

/-- An alarm that goes off, if one of its instant was promised: it is an answer to the load, or concerns it not. -/
theorem goOff_promised {hub : Hub} {alarm : Alarm} {alarms : List Alarm} (now : alarm.deadline = t)
    (promised : Promised (hub.state load)
      (fun u v => (∃ number, ⟨u, number, .answer load v⟩ ∈ alarm :: alarms) ∨ others u v) t due value) :
    Promised ((hub.goOff alarm.purpose).state load)
      (fun u v => (∃ number, ⟨u, number, .answer load v⟩ ∈ alarms) ∨ others u v) t due value := by
  obtain ⟨deadline, number, purpose⟩ := alarm
  obtain rfl : deadline = t := now
  have elsewhere (differs : ∀ v, purpose ≠ .answer load v) (u : Nat) (v : Bool) :
      (∃ number, ⟨u, number, .answer load v⟩ ∈ alarms) ∨ others u v ↔
        (∃ number', ⟨u, number', .answer load v⟩ ∈ (⟨deadline, number, purpose⟩ : Alarm) :: alarms) ∨ others u v := by
    refine or_congr_left (exists_congr fun number' => ?_)
    rw [List.mem_cons, or_iff_right]
    intro same
    exact differs v (Alarm.mk.inj same).2.2.symm
  cases purpose with
  | wake waiter => exact promised.congr (elsewhere nofun)
  | resumeBatch flight => exact promised.congr (elsewhere nofun)
  | answer target answer =>
    have kept : ((hub.resolve target answer).2.release target).state load = (hub.resolve target answer).2.state load := by
      rw [state_release, if_neg]
      rintro ⟨rfl, -, waits⟩
      rw [state_resolve] at waits
      split at waits
      · cases waits
      · rename_i closed
        exact closed ⟨rfl, waits⟩
    unfold goOff
    dsimp only
    rw [kept]
    refine resolve_promised target answer promised (fun here => .inl ⟨number, ?_⟩) fun differs => elsewhere fun v same => ?_
    · subst here
      exact List.mem_cons_self
    · exact differs (Purpose.answer.inj same).1

/-- When time goes on to the first alarm, loads get the answers that were promised for then. -/
theorem advance_promised {hub : Hub} {now : Nat} (le : now ≤ t) (first : ∀ alarm ∈ hub.alarms, t ≤ alarm.deadline)
    (promised : Promised (hub.state load) (fun u v => hub.Promises load u v ∨ others u v) now due value) :
    Promised ((hub.advance t).state load) (fun u v => (hub.advance t).Promises load u v ∨ others u v) t due value := by
  have go (due' : List Alarm) (rest : List Alarm) (all_now : ∀ alarm ∈ due', alarm.deadline = t) (hub : Hub)
      (promised : Promised (hub.state load)
        (fun u v => (∃ number, ⟨u, number, .answer load v⟩ ∈ due' ++ rest) ∨ others u v) t due value) :
      Promised ((due'.foldl (fun hub alarm => hub.goOff alarm.purpose) hub).state load)
        (fun u v => (∃ number, ⟨u, number, .answer load v⟩ ∈ rest) ∨ others u v) t due value := by
    induction due' generalizing hub with
    | nil => exact promised
    | cons alarm due' ih =>
      obtain ⟨at_once, then_⟩ := List.forall_mem_cons.1 all_now
      exact ih then_ _ (goOff_promised at_once promised)
  have parts (alarm : Alarm) : alarm ∈ hub.alarms.filter (·.deadline ≤ t) ++ hub.alarms.filter (t < ·.deadline) ↔
      alarm ∈ hub.alarms := by
    rw [List.mem_append, List.mem_filter, List.mem_filter, ← and_or_left, and_iff_left]
    rcases Nat.lt_or_ge t alarm.deadline with lt | ge
    · exact .inr (decide_eq_true lt)
    · exact .inl (decide_eq_true ge)
  have went := go (hub.alarms.filter (·.deadline ≤ t)) (hub.alarms.filter (t < ·.deadline)) (fun alarm mem => ?_)
    { hub with alarms := hub.alarms.filter (t < ·.deadline) } ?_
  · refine went.congr fun u v => or_congr_left (exists_congr fun number => ?_)
    rw [alarms_advance]
  · obtain ⟨set, elapsed⟩ := List.mem_filter.1 mem
    exact Nat.le_antisymm (of_decide_eq_true elapsed) (first alarm set)
  · refine (promised.later le).congr fun u v => or_congr_left (exists_congr fun number => ?_)
    exact parts _

end Hub

namespace Drive

/-! ### Fleets -/

namespace Fleet

variable {staff : String → BatchEvaluator → Prop} {now : Nat} {chronicle : List (Nat × Happening)}
  {voyages : List Voyage} {flights : List Flight} {ready : List Nat} {hub : Hub}

/-- Only batches that sleep promise anything. -/
theorem promises_append (hub : Hub) {taken : List Flight} (board : ∀ flight ∈ taken, flight.stage = .boarding) (load : Load)
    (t : Nat) (v : Bool) : Promises (flights ++ taken) hub load t v ↔ Promises flights hub load t v := by
  refine or_congr_right (exists_congr fun flight => ?_)
  rw [List.mem_append, or_and_right, or_iff_left]
  rintro ⟨mem, deadline, rest, sleeps, -⟩
  rw [board flight mem] at sleeps
  cases sleeps

/-- What a client asks concerns no batch that is in flight. -/
theorem inquires {before later : Scene} (fleet : Fleet staff now chronicle voyages flights ready before.hub)
    (inquires : before.Inquires staff later) (alarms : before.hub.alarms ⊆ later.hub.alarms)
    (accounted : later.hub.Accounted (chronicle.map (·.2)) (aloft flights)) :
    Fleet staff now chronicle voyages flights ready later.hub := by
  have grown := inquires.loads.extends_
  have promises (load : Load) (t : Nat) (v : Bool) :
      Promises flights later.hub load t v ↔ Promises flights before.hub load t v :=
    or_congr_left (inquires.promises load t v)
  have taken_stays {load : Load} (taken : load.ticket < (before.hub.account load.matcher).taken) :
      later.hub.state load = before.hub.state load := by
    refine inquires.states load ((before.hub.isSome_entryOf?_iff load).2 ?_)
    exact Nat.lt_of_lt_of_le taken (fleet.manned.accounted.within load.matcher)
  refine { fleet with
    manned := fleet.manned.of_extends grown accounted
    staffed := fun entry mem => (inquires.staffed entry mem).elim (fleet.staffed entry) id
    filled := fleet.filled.mono grown
    boarding := fun flight mem boards => ?_
    asleep := fun flight mem deadline rest sleeps => ?_
    sails := fun voyage known => ?_
    keeps := fun voyage known entry load wait value here settles => ?_ }
  · obtain ⟨listed, blank⟩ := fleet.boarding flight mem boards
    refine ⟨listed, fun load own => ⟨?_, fun t v => mt (promises load t v).1 ((blank load own).2 t v)⟩⟩
    have aloft : load ∈ aloft flights := List.mem_flatMap.2 ⟨flight, mem, own⟩
    rw [taken_stays (fleet.manned.accounted.taken (.inl (.inl aloft)))]
    exact (blank load own).1
  · obtain ⟨voyage, due | ⟨ahead, number, set⟩⟩ := fleet.asleep flight mem deadline rest sleeps
    · exact ⟨voyage, .inl due⟩
    · exact ⟨voyage, .inr ⟨ahead, number, alarms set⟩⟩
  · have sails := @Voyage.Sails.extends_ _ _ [] _ _ _ (fleet.sails voyage known) grown
    rwa [List.append_nil] at sails
  · have taken : load.ticket < (before.hub.account load.matcher).taken := by
      obtain ⟨ticket, listed, rfl⟩ := Option.map_eq_some_iff.1 here
      exact (fleet.sails voyage known).taken ticket (List.mem_of_getElem? listed)
    rw [taken_stays taken]
    exact (fleet.keeps voyage known entry load wait value here settles).congr (promises load)

/-- A request that is queued is open, and nobody has promised it an answer. -/
theorem unpromised_queued (fleet : Fleet staff now chronicle voyages flights ready hub) {load : Load}
    (behind : (hub.account load.matcher).taken ≤ load.ticket) (there : (hub.entryOf? load).isSome) :
    Unpromised flights hub load := by
  refine ⟨fleet.manned.accounted.waits_queued behind there, fun t v promised => ?_⟩
  exact absurd (fleet.manned.accounted.taken (.inl promised.held)) (Nat.not_lt.2 behind)

theorem nodup_takeFlights (names : hub.names.Nodup) : ∀ flight ∈ hub.takeFlights.1, flight.tickets.Nodup := by
  intro flight new
  rw [(Hub.takeFlights_numbered names).1] at new
  obtain ⟨⟨⟨name, tickets⟩, id⟩, listed, rfl⟩ := List.mem_map.1 new
  have tickets_eq : tickets = (hub.coalescer name).queue := (Hub.mem_batches (List.fst_mem_of_mem_zipIdx listed)).2
  change tickets.Nodup
  rw [tickets_eq]
  exact List.nodup_range'

/-- The batches that are taken are about to start. -/
theorem takeFlights (fleet : Fleet staff now chronicle voyages flights ready hub) :
    Fleet staff now chronicle voyages (flights ++ hub.takeFlights.1) (ready ++ hub.takeFlights.1.map (·.id))
      hub.takeFlights.2 := by
  obtain ⟨drained, -, -, -, -, filled⟩ := taken_spec fleet.manned.names
  obtain ⟨board, alarms⟩ := hub.takeFlights_spec
  have state_eq (load : Load) : hub.takeFlights.2.state load = hub.state load := by
    rw [Hub.state_eq, Hub.state_eq, Hub.entryOf?_takeFlights fleet.manned.names]
  have promises (load : Load) (t : Nat) (v : Bool) :
      Promises (flights ++ hub.takeFlights.1) hub.takeFlights.2 load t v ↔ Promises flights hub load t v :=
    (promises_append _ board load t v).trans (or_congr_left (Hub.promises_of_alarms alarms load t v))
  have blank {load : Load} (before : Unpromised flights hub load) :
      Unpromised (flights ++ hub.takeFlights.1) hub.takeFlights.2 load :=
    ⟨(state_eq load).trans before.1, fun t v => mt (promises load t v).1 (before.2 t v)⟩
  have accepted (name : String) : (hub.takeFlights.2.account name).accepted = (hub.account name).accepted :=
    (drained.account name).1
  have taken (name : String) : (hub.account name).taken ≤ (hub.takeFlights.2.account name).taken := by
    have all := drained.isDrained fleet.manned.accounted.within name
    rw [all, accepted]
    exact fleet.manned.accounted.within name
  refine
    { manned := fleet.manned.takeFlights.1
      staffed := by rw [Hub.evaluators_takeFlights]; exact fleet.staffed
      loadless := List.forall_mem_append.2 ⟨fleet.loadless, fun flight new => ?_⟩
      nodup := List.forall_mem_append.2 ⟨fleet.nodup, nodup_takeFlights fleet.manned.names⟩
      filled := List.forall_mem_append.2 ⟨fun flight old => ?_, filled⟩
      boarding := List.forall_mem_append.2 ⟨fun flight old boards => ?_, fun flight new _ => ?_⟩
      asleep := List.forall_mem_append.2
        ⟨fun flight old deadline rest sleeps => ?_, fun flight new deadline rest sleeps => ?_⟩
      sails := fun voyage known => ?_
      underway := fun voyage known => ?_
      keeps := fun voyage known entry load wait value here settles => ?_ }
  · rw [Flight.Loadless, board flight new]
    trivial
  · rw [drained.names, accepted]
    exact fleet.filled flight old
  · obtain ⟨listed, before⟩ := fleet.boarding flight old boards
    exact ⟨List.mem_append_left _ listed, fun load own => blank (before load own)⟩
  · refine ⟨List.mem_append_right _ (List.mem_map_of_mem new), fun load own => blank ?_⟩
    -- what a new batch holds was in the queue
    obtain ⟨behind, there⟩ := (Hub.mem_aloft_takeFlights_iff fleet.manned.names load).1
      (List.mem_flatMap.2 ⟨flight, new, own⟩)
    exact fleet.unpromised_queued behind there
  · obtain ⟨voyage, ⟨due, listed⟩ | waits⟩ := fleet.asleep flight old deadline rest sleeps
    · exact ⟨voyage, .inl ⟨due, List.mem_append_left _ listed⟩⟩
    · exact ⟨voyage, .inr (by rwa [alarms])⟩
  · rw [board flight new] at sleeps
    cases sleeps
  · have sails := @Voyage.Sails.mono _ _ [] _ _ _ (fleet.sails voyage known)
      (fun name => (accepted name).symm ▸ List.prefix_rfl) taken
    rwa [List.append_nil] at sails
  · rcases fleet.underway voyage known with ⟨flight, mem, flies⟩ | landed
    · exact .inl ⟨flight, List.mem_append_left _ mem, flies⟩
    · exact .inr landed
  · rw [state_eq]
    exact (fleet.keeps voyage known entry load wait value here settles).congr (promises load)

/-- Time goes on to the first alarm, while no batch can go on. -/
theorem advance {drive : Drive Evaluation} (fleet : Fleet staff now chronicle voyages drive.flights drive.ready hub)
    (asleep : drive.ready = []) {t : Nat} (le : now ≤ t) (first : ∀ alarm ∈ hub.alarms, t ≤ alarm.deadline) :
    Fleet staff t (chronicle ++ (hub.happensBy t).map (t, ·)) voyages (drive.advance hub t).1.flights
      (drive.advance hub t).1.ready (drive.advance hub t).2 := by
  obtain ⟨flights, ledger⟩ := drive.advance_spec hub t
  obtain ⟨accounted, -⟩ := fleet.manned.accounted.advance t
  rw [hub_advance] at ledger
  rw [flights, hub_advance]
  have log_eq : (chronicle ++ (hub.happensBy t).map (t, ·)).map (·.2) = chronicle.map (·.2) ++ hub.happensBy t := by
    simp [Function.comp_def]
  have account (name : String) := Hub.account_of_ledger ledger name
  refine ⟨?_, ?_, fleet.loadless, fleet.nodup, fleet.filled.mono (.of_ledger ledger), fun flight mem boards => ?_,
    fun flight mem deadline rest sleeps => ?_, fun voyage known => ?_, fun voyage known => ?_,
    fun voyage known entry load wait value here settles => ?_⟩
  · rw [log_eq]
    exact fleet.manned.of_extends (.of_ledger ledger) accounted
  · rw [Hub.evaluators_advance]
    exact fleet.staffed
  · have listed := (fleet.boarding flight mem boards).1
    rw [asleep] at listed
    cases listed
  · obtain ⟨voyage, ⟨-, listed⟩ | ⟨-, number, set⟩⟩ := fleet.asleep flight mem deadline rest sleeps
    · rw [asleep] at listed
      cases listed
    · refine ⟨voyage, ?_⟩
      rw [mem_ready_advance, Hub.alarms_advance]
      rcases Nat.eq_or_lt_of_le (first _ set) with now_due | later
      · exact .inl ⟨now_due.symm, .inr ⟨_, set, Nat.le_of_eq now_due.symm, rfl⟩⟩
      · exact .inr ⟨later, number, List.mem_filter.2 ⟨set, decide_eq_true later⟩⟩
  · exact (fleet.sails voyage known).extends_ (.of_ledger ledger)
  · exact (fleet.underway voyage known).imp_right fun landed => Nat.le_trans landed le
  · exact Hub.advance_promised le first (fleet.keeps voyage known entry load wait value here settles)

/-- In a pass the client asks, and what is queued then sets out on voyages; after it all batches sleep. -/
theorem pass {drive : Drive Evaluation} {scene : Scene}
    (fleet : Fleet staff scene.journal.now chronicle voyages drive.flights drive.ready scene.hub)
    (light : ∀ matcher evaluate, staff matcher evaluate → BatchEvaluator.Loadless evaluate)
    (inquires : scene.Inquires staff (drive.pollClient scene).2)
    (accounted : (drive.pollClient scene).2.hub.Accounted (chronicle.map (·.2)) (aloft drive.flights)) :
    ∃ more : List Voyage,
      Fleet staff scene.journal.now (chronicle ++ (drive.happens scene).map (scene.journal.now, ·)) (voyages ++ more)
        (drive.pass scene).1.flights (drive.pass scene).1.ready (drive.pass scene).2.hub ∧
      ∀ load, ((drive.pollClient scene).2.hub.account load.matcher).taken ≤ load.ticket →
        ((drive.pollClient scene).2.hub.entryOf? load).isSome → ∃ voyage ∈ more,
          voyage.began = scene.journal.now ∧ voyage.matcher = load.matcher ∧ load.ticket ∈ voyage.tickets := by
  obtain ⟨flights, ready, -, -⟩ := drive.pollClient_spec scene
  have asked := fleet.inquires inquires (drive.pollClient_stands scene).alarms accounted
  have taken := asked.takeFlights
  let batches := (drive.pollClient scene).1.takeBatches (drive.pollClient scene).2
  have now_eq : batches.2.journal.now = scene.journal.now := inquires.now
  have taken : Fleet staff batches.2.journal.now chronicle voyages batches.1.flights batches.1.ready batches.2.hub := by
    rw [now_eq]
    change Fleet staff _ chronicle voyages ((drive.pollClient scene).1.flights ++ _)
      ((drive.pollClient scene).1.ready ++ _) _
    rw [flights, ready]
    exact taken
  obtain ⟨more, final, set_out⟩ := taken.turns light 0
  rw [now_eq] at final set_out
  refine ⟨more, final, fun load behind there => ?_⟩
  obtain ⟨flight, new, own⟩ := List.mem_flatMap.1
    ((Hub.mem_aloft_takeFlights_iff asked.manned.names load).2 ⟨behind, there⟩)
  obtain ⟨ticket, listed, rfl⟩ := List.mem_map.1 own
  obtain ⟨voyage, sails, began, matcher, tickets⟩ := set_out flight (List.mem_append_right _ new)
    ((drive.pollClient scene).2.hub.takeFlights_spec.1 flight new)
  exact ⟨voyage, sails, began, matcher, tickets ▸ listed⟩

/-- Before anything has happened there is no batch. -/
theorem start (staff : String → BatchEvaluator → Prop) (now : Nat) : Fleet staff now [] [] [] [] .empty where
  manned := .start
  staffed := List.forall_mem_nil _
  loadless := List.forall_mem_nil _
  nodup := List.forall_mem_nil _
  filled := List.forall_mem_nil _
  boarding := List.forall_mem_nil _
  asleep := List.forall_mem_nil _
  sails := List.forall_mem_nil _
  underway := List.forall_mem_nil _
  keeps := List.forall_mem_nil _

end Fleet

/-! ### Alarms in order -/

theorem pass_timely (drive : Drive Evaluation) {scene : Scene} (timely : (drive.pollClient scene).2.Timely) :
    (drive.pass scene).2.Timely := by
  let batches := (drive.pollClient scene).1.takeBatches (drive.pollClient scene).2
  have taken : batches.2.Timely := timely.of_alarms (Hub.takeFlights_spec _).2 rfl
  exact pollReady_timely batches.1.flights 0 batches.1.ready taken

/-- When time goes on to the first alarm, all alarms that are left are ahead. -/
theorem advance_timely (hub : Hub) {journal : Journal} (timely : Scene.Timely ⟨hub, journal⟩) (t : Nat) :
    Scene.Timely ⟨hub.advance t, journal.moveTo t⟩ where
  ahead alarm set := by
    have set : alarm ∈ (hub.advance t).alarms := set
    rw [Hub.alarms_advance] at set
    exact Nat.le_of_lt (of_decide_eq_true (List.mem_filter.1 set).2)
  ordered := by
    change (hub.advance t).alarms.Pairwise _
    rw [Hub.alarms_advance]
    exact timely.ordered.filter _

end Drive

end Segmentation
