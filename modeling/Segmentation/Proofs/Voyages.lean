import Segmentation.Proofs.Promises
import Segmentation.Proofs.Termination
import Segmentation.Proofs.Traffic

/-!
# Batches under way

A `Voyage` records of a batch when its evaluator was called, with which requests, and the task that it gave.  In a
`Fleet` every batch in flight is on such a voyage: it sleeps until its alarm goes off and will land when it has taken all
its time, and what it promised to its loads is kept.  A turn of a batch (`Fleet.turn`), the turns of all that are ready
(`Fleet.turns`), and the alarms that go off (`Fleet.advance`) leave a fleet.
-/

namespace Segmentation

/-- A batch whose evaluator was called. -/
structure Voyage where
  began : Nat
  flight : Nat
  matcher : String
  tickets : List Nat
  requests : List Request
  task : BatchTask

namespace Voyage

def loads (voyage : Voyage) : List Load := voyage.tickets.map (⟨voyage.matcher, ·⟩)

/-- The instant at which it has taken all its time. -/
def lands (voyage : Voyage) : Nat := voyage.began + voyage.task.delay

end Voyage

/-- A sleeping batch that is on a voyage, and lands when that is to. -/
def Flight.Flies (voyage : Voyage) (flight : Flight) : Prop :=
  flight.id = voyage.flight ∧ flight.matcher = voyage.matcher ∧ flight.tickets = voyage.tickets ∧
    ∃ deadline rest, flight.stage = .asleep deadline rest ∧ deadline + rest.delay = voyage.lands

/-- An alarm, or a batch in flight, may answer a load. -/
def Drive.Promises (flights : List Flight) (hub : Hub) (load : Load) (due : Nat) (value : Bool) : Prop :=
  hub.Promises load due value ∨ ∃ flight ∈ flights, flight.Promises load due value

/-- A load is open, and nobody has promised an answer. -/
def Drive.Unpromised (flights : List Flight) (hub : Hub) (load : Load) : Prop :=
  hub.state load = .waiting ∧ ∀ t v, ¬ Drive.Promises flights hub load t v

namespace Voyage

/-- The call of the evaluator, of which a chronicle tells: each entry stands for a request that was accepted. -/
structure Sails (staff : String → BatchEvaluator → Prop) (chronicle : List (Nat × Happening)) (hub : Hub)
    (voyage : Voyage) : Prop where
  boarded : (voyage.began, .boarded voyage.flight voyage.matcher voyage.requests) ∈ chronicle
  nodup : voyage.tickets.Nodup
  taken : ∀ ticket ∈ voyage.tickets, ticket < (hub.account voyage.matcher).taken
  given : ∀ entry ticket : Nat, voyage.tickets[entry]? = some ticket → ∃ key request,
    (hub.account voyage.matcher).accepted[ticket]? = some (key, request) ∧ voyage.requests[entry]? = some request
  called : ∃ evaluate number, staff voyage.matcher evaluate ∧ voyage.task = (evaluate number voyage.requests).task

/-- The batch is in flight, or has taken all its time. -/
def Underway (flights : List Flight) (now : Nat) (voyage : Voyage) : Prop :=
  (∃ flight ∈ flights, flight.Flies voyage) ∨ voyage.lands ≤ now

/-- What the batch promised to its entries when it began is kept. -/
def Keeps (flights : List Flight) (hub : Hub) (now : Nat) (voyage : Voyage) : Prop :=
  ∀ entry load wait value, BatchTask.entryLoad? voyage.matcher voyage.tickets entry = some load →
    voyage.task.Settles entry wait value →
    Promised (hub.state load) (Drive.Promises flights hub load) now (voyage.began + wait) value

theorem Sails.mono {staff : String → BatchEvaluator → Prop} {chronicle more : List (Nat × Happening)} {before later : Hub}
    {voyage : Voyage} (sails : voyage.Sails staff chronicle before)
    (accepted : ∀ name, (before.account name).accepted <+: (later.account name).accepted)
    (taken : ∀ name, (before.account name).taken ≤ (later.account name).taken) :
    voyage.Sails staff (chronicle ++ more) later := by
  refine ⟨List.mem_append_left _ sails.boarded, sails.nodup,
    fun ticket mem => Nat.lt_of_lt_of_le (sails.taken ticket mem) (taken _), fun entry ticket here => ?_, sails.called⟩
  obtain ⟨key, request, found, own⟩ := sails.given entry ticket here
  obtain ⟨new, accepted⟩ := accepted voyage.matcher
  refine ⟨key, request, ?_, own⟩
  rw [← accepted, List.getElem?_append_left (List.getElem?_eq_some_iff.1 found).1]
  exact found

theorem Sails.extends_ {staff : String → BatchEvaluator → Prop} {chronicle more : List (Nat × Happening)}
    {before later : Hub} {voyage : Voyage} (sails : voyage.Sails staff chronicle before) (grown : before.Extends later) :
    voyage.Sails staff (chronicle ++ more) later :=
  sails.mono grown.accepted fun name => Nat.le_of_eq (grown.taken name).symm

end Voyage

/-- Tickets that were given out have their requests. -/
theorem Coalescer.getElem?_requests {c : Coalescer Request} {tickets : List Nat}
    (given : ∀ ticket ∈ tickets, ticket < c.account.accepted.length) {entry ticket : Nat}
    (here : tickets[entry]? = some ticket) : ∃ key request,
      c.account.accepted[ticket]? = some (key, request) ∧ (c.requests tickets)[entry]? = some request := by
  induction tickets generalizing entry with
  | nil => cases here
  | cons first tickets ih =>
    obtain ⟨there, rest⟩ := List.forall_mem_cons.1 given
    have length_eq : c.account.accepted.length = c.entries.length := by simp [account]
    have found : c.get? first = some c.entries[first] := List.getElem?_eq_getElem (length_eq ▸ there)
    have requests_eq : c.requests (first :: tickets) = c.entries[first].request :: c.requests tickets := by
      simp only [requests, List.filterMap_cons, found, Option.map_some]
    cases entry with
    | zero =>
      obtain rfl : first = ticket := Option.some.inj here
      refine ⟨c.entries[first].key, c.entries[first].request, ?_, by rw [requests_eq]; rfl⟩
      have accepted : c.account.accepted[first]? = (c.get? first).map loaded := List.getElem?_map ..
      rw [accepted, found]
      rfl
    | succ entry =>
      rw [requests_eq]
      exact ih rest here

namespace Drive

/-- Whoever promises an answer has a resolver of the load. -/
theorem Promises.held {flights : List Flight} {hub : Hub} {load : Load} {t : Nat} {v : Bool}
    (promised : Drive.Promises flights hub load t v) : hub.Held (aloft flights) load := by
  rcases promised with ⟨number, set⟩ | ⟨flight, mem, deadline, rest, -, entry, wait, found, -⟩
  · exact .inr (.inr (List.mem_filterMap.2 ⟨_, set, rfl⟩))
  · exact .inl (List.mem_flatMap.2 ⟨flight, mem, BatchTask.exists_entryLoad?_iff.1 ⟨entry, found⟩⟩)

namespace Manned

variable {log : List Happening} {flights : List Flight} {hub : Hub}

/-- Batches with one number are one. -/
theorem eq_of_id (manned : Manned log flights hub) {f g : Flight} (hf : f ∈ flights) (hg : g ∈ flights)
    (same : f.id = g.id) : f = g := List.inj_on_of_nodup_map manned.nodup hf hg same

/-- A load that somebody can still answer is not lost. -/
theorem alive (manned : Manned log flights hub) {load : Load}
    (held : load ∈ aloft flights ∨ ∃ t v, Drive.Promises flights hub load t v) : hub.state load ≠ .lost := by
  have held : hub.Held (aloft flights) load := by
    rcases held with mem | ⟨t, v, promised⟩
    · exact .inl mem
    · exact promised.held
  have some_hold := held.holders_ne_zero
  rw [manned.accounted.books.state load]
  cases answers log load <;> simp [TicketState.become, some_hold]

/-- No load is with two batches. -/
theorem disjoint (manned : Manned log flights hub) {f g : Flight} (hf : f ∈ flights) (hg : g ∈ flights)
    (differ : f.id ≠ g.id) {load : Load} (mine : load ∈ f.loads) : load ∉ g.loads := by
  intro too
  have once : (aloft flights).count load ≤ 1 := by
    have placed := manned.accounted.placed load
    split at placed <;> omega
  obtain ⟨before, behind, rfl⟩ := List.append_of_mem hf
  have other : g ∈ before ++ behind := by
    rcases List.mem_append.1 hg with mem | mem
    · exact List.mem_append_left _ mem
    · rcases List.mem_cons.1 mem with rfl | mem
      · exact absurd rfl differ
      · exact List.mem_append_right _ mem
  have elsewhere : load ∈ aloft (before ++ behind) := List.mem_flatMap.2 ⟨g, other, too⟩
  have here := List.count_pos_iff.2 mine
  have there := List.count_pos_iff.2 elsewhere
  rw [aloft, List.flatMap_append, List.count_append] at there
  rw [aloft, List.flatMap_append, List.flatMap_cons, List.count_append, List.count_append] at once
  omega

end Manned

/-- All batches in flight are on voyages of which the chronicle tells, or are about to start.  Those whose turn comes are
ready; the others sleep, with their alarms set. -/
structure Fleet (staff : String → BatchEvaluator → Prop) (now : Nat) (chronicle : List (Nat × Happening))
    (voyages : List Voyage) (flights : List Flight) (ready : List Nat) (hub : Hub) : Prop where
  manned : Manned (chronicle.map (·.2)) flights hub
  staffed : ∀ entry ∈ hub.evaluators, staff entry.1 entry.2
  loadless : ∀ flight ∈ flights, flight.Loadless
  nodup : ∀ flight ∈ flights, flight.tickets.Nodup
  filled : Filled flights hub
  boarding : ∀ flight ∈ flights, flight.stage = .boarding →
    flight.id ∈ ready ∧ ∀ load ∈ flight.loads, Unpromised flights hub load
  asleep : ∀ flight ∈ flights, ∀ deadline rest, flight.stage = .asleep deadline rest →
    (∃ voyage ∈ voyages, flight.Flies voyage) ∧
    (deadline = now ∧ flight.id ∈ ready ∨
      now < deadline ∧ ∃ number, ⟨deadline, number, .resumeBatch flight.id⟩ ∈ hub.alarms)
  sails : ∀ voyage ∈ voyages, voyage.Sails staff chronicle hub
  underway : ∀ voyage ∈ voyages, voyage.Underway flights now
  keeps : ∀ voyage ∈ voyages, voyage.Keeps flights hub now

namespace Fleet

variable {staff : String → BatchEvaluator → Prop} {now : Nat} {chronicle : List (Nat × Happening)}
  {voyages : List Voyage} {flights : List Flight} {ready : List Nat} {hub : Hub}

/-- A turn of a batch that cannot go on, or is not in flight. -/
theorem turn_idle {id : Nat} {scene : Scene} (fleet : Fleet staff now chronicle voyages flights (id :: ready) scene.hub)
    (now_eq : scene.journal.now = now) (idle : ∀ flight ∈ flights, flight.id = id → flight.isDue now = false) :
    turn flights scene id = [] ∧ pollFlight flights scene id = (flights, scene) ∧
      Fleet staff now chronicle voyages flights ready scene.hub := by
  subst now_eq
  have others : ∀ flight ∈ flights, flight.isDue scene.journal.now = true → flight.id ∈ id :: ready → flight.id ∈ ready := by
    intro flight mem can listed
    rcases List.mem_cons.1 listed with same | listed
    · rw [idle flight mem same] at can
      cases can
    · exact listed
  have later : Fleet staff scene.journal.now chronicle voyages flights ready scene.hub :=
    { fleet with
      boarding := fun flight mem boards => by
        obtain ⟨listed, blank⟩ := fleet.boarding flight mem boards
        exact ⟨others flight mem (by rw [Flight.isDue, boards]) listed, blank⟩
      asleep := fun flight mem deadline rest sleeps => by
        obtain ⟨voyage, ⟨due, listed⟩ | waits⟩ := fleet.asleep flight mem deadline rest sleeps
        · have can : flight.isDue scene.journal.now = true := by
            rw [Flight.isDue, sleeps]
            exact decide_eq_true (Nat.le_of_eq due)
          exact ⟨voyage, .inl ⟨due, others flight mem can listed⟩⟩
        · exact ⟨voyage, .inr waits⟩ }
  unfold turn pollFlight
  cases found : flights.find? (·.id = id) with
  | none => exact ⟨rfl, rfl, later⟩
  | some flight =>
    have mem := List.mem_of_find?_eq_some found
    have own : flight.id = id := by simpa using List.find?_some found
    have waits := idle flight mem own
    have polled : flight.pollContained scene = (some flight, scene) := by
      rw [Flight.pollContained, waits]
      rfl
    have same : flights.map (fun f => if f.id = id then flight else f) = flights := by
      refine (List.map_congr_left fun f f_mem => ?_).trans (List.map_id _)
      split
      · rename_i same
        exact fleet.manned.eq_of_id mem f_mem (own.trans same.symm)
      · rfl
    refine ⟨?_, by simp only [polled, same], later⟩
    simp only [Flight.happens, waits, Bool.not_false, if_true]

section Due

variable {id : Nat} {scene : Scene} {flight : Flight}

/-- What the batch whose turn it is promises when it goes on, and what others promise. -/
def Foretells (flights : List Flight) (scene : Scene) (flight : Flight) (load : Load) (t : Nat) (v : Bool) : Prop :=
  (flight.plan scene).Promises flight.matcher flight.tickets scene.journal.now load t v ∨
    ∃ other ∈ flights, other.id ≠ flight.id ∧ other.Promises load t v

/-- A turn keeps what was promised to a load that is not given up. -/
theorem pollFlight_promised (fleet : Fleet staff scene.journal.now chronicle voyages flights (id :: ready) scene.hub)
    (light : ∀ matcher evaluate, staff matcher evaluate → BatchEvaluator.Loadless evaluate)
    (found : flights.find? (·.id = id) = some flight) (can : flight.isDue scene.journal.now = true)
    (more : Nat → Bool → Prop) {load : Load} {due : Nat} {value : Bool}
    (promised : Promised (scene.hub.state load) (fun t v => scene.hub.Promises load t v ∨
      Foretells flights scene flight load t v ∨ more t v) scene.journal.now due value)
    (held : (∃ t v, more t v) → load ∈ aloft (pollFlight flights scene id).1) :
    Promised ((pollFlight flights scene id).2.hub.state load) (fun t v =>
      Drive.Promises (pollFlight flights scene id).1 (pollFlight flights scene id).2.hub load t v ∨ more t v)
      scene.journal.now due value := by
  have mem := List.mem_of_find?_eq_some found
  have own : flight.id = id := by simpa using List.find?_some found
  have evaluators : scene.hub.All BatchEvaluator.Loadless :=
    fun entry listed => light entry.1 entry.2 (fleet.staffed entry listed)
  have loadless : (flight.plan scene).Loadless := by
    unfold Flight.plan
    cases next : flight.next scene with
    | panics payload => trivial
    | starts task => exact flight.next_loadless scene (fleet.loadless flight mem) evaluators next
  have manned := (fleet.manned.pollFlight id).1
  have in_flight (t : Nat) (v : Bool) : Drive.Promises (pollFlight flights scene id).1
      (flight.pollContained scene).2.hub load t v ↔ (flight.pollContained scene).2.hub.Promises load t v ∨
        (∃ later, (flight.pollContained scene).1 = some later ∧ later.Promises load t v) ∨
        ∃ other ∈ flights, other.id ≠ flight.id ∧ other.Promises load t v := by
    unfold Drive.Promises
    simp only [mem_pollFlight found, own]
    constructor
    · rintro (set | ⟨f, ⟨old, differs⟩ | polled, promises⟩)
      · exact .inl set
      · exact .inr (.inr ⟨f, old, differs, promises⟩)
      · exact .inr (.inl ⟨f, polled, promises⟩)
    · rintro (set | ⟨f, polled, promises⟩ | ⟨f, old, differs, promises⟩)
      · exact .inl set
      · exact .inr ⟨f, .inr polled, promises⟩
      · exact .inr ⟨f, .inl ⟨old, differs⟩, promises⟩
  rw [pollFlight_scene found] at manned ⊢
  refine Promised.congr (flight.pollContained_promised scene
    (fun t v => (∃ other ∈ flights, other.id ≠ flight.id ∧ other.Promises load t v) ∨ more t v)
    (fleet.nodup flight mem) loadless can ?_ ?_) fun t v => ?_
  · refine promised.congr fun t v => ?_
    rw [Foretells, or_assoc]
  · rintro ⟨t, v, promises⟩
    refine manned.alive ?_
    rcases promises with set | others | extra
    · exact .inr ⟨t, v, .inl set⟩
    · exact .inr ⟨t, v, (in_flight t v).2 (.inr (.inr others))⟩
    · exact .inl (held ⟨t, v, extra⟩)
  · rw [in_flight, or_assoc, or_assoc]

/-- A batch whose turn it is has just been taken, or its alarm was for this very instant. -/
theorem plan_cases (fleet : Fleet staff scene.journal.now chronicle voyages flights (id :: ready) scene.hub)
    (mem : flight ∈ flights) (can : flight.isDue scene.journal.now = true) :
    flight.stage = .boarding ∨ flight.stage = .asleep scene.journal.now (flight.plan scene) := by
  cases stage : flight.stage with
  | boarding => exact .inl rfl
  | asleep deadline rest =>
    rw [Flight.isDue, stage] at can
    have le : deadline ≤ scene.journal.now := of_decide_eq_true can
    rcases (fleet.asleep flight mem deadline rest stage).2 with ⟨rfl, -⟩ | ⟨lt, -⟩
    · refine .inr ?_
      rw [Flight.plan, Flight.next, stage]
      rfl
    · exact absurd le (Nat.not_le.2 lt)

/-- A batch that goes on foretells nothing new, unless it has been taken with the load. -/
theorem foretells_iff (fleet : Fleet staff scene.journal.now chronicle voyages flights (id :: ready) scene.hub)
    (mem : flight ∈ flights) (can : flight.isDue scene.journal.now = true) {load : Load}
    (apart : flight.stage = .boarding → load ∉ flight.loads) (t : Nat) (v : Bool) :
    scene.hub.Promises load t v ∨ Foretells flights scene flight load t v ↔
      Drive.Promises flights scene.hub load t v := by
  have own : (flight.plan scene).Promises flight.matcher flight.tickets scene.journal.now load t v ↔
      flight.Promises load t v := by
    rcases fleet.plan_cases mem can with boards | sleeps
    · constructor
      · rintro ⟨entry, wait, here, -, -⟩
        exact absurd (BatchTask.exists_entryLoad?_iff.1 ⟨entry, here⟩) (apart boards)
      · rintro ⟨deadline, rest, sleeps, -⟩
        rw [boards] at sleeps
        cases sleeps
    · constructor
      · exact fun promises => ⟨_, _, sleeps, promises⟩
      · rintro ⟨deadline, rest, same, promises⟩
        obtain ⟨rfl, rfl⟩ := FlightStage.asleep.inj (sleeps.symm.trans same)
        exact promises
  unfold Drive.Promises Foretells
  rw [own]
  refine or_congr_right ⟨?_, ?_⟩
  · rintro (mine | ⟨other, listed, -, promises⟩)
    · exact ⟨flight, mem, mine⟩
    · exact ⟨other, listed, promises⟩
  · rintro ⟨other, listed, promises⟩
    by_cases same : other.id = flight.id
    · rw [fleet.manned.eq_of_id listed mem same] at promises
      exact .inl promises
    · exact .inr ⟨other, listed, same, promises⟩

variable (light : ∀ matcher evaluate, staff matcher evaluate → BatchEvaluator.Loadless evaluate)

include light

/-- A turn keeps the promises of all voyages. -/
theorem keeps_pollFlight (fleet : Fleet staff scene.journal.now chronicle voyages flights (id :: ready) scene.hub)
    (found : flights.find? (·.id = id) = some flight) (can : flight.isDue scene.journal.now = true)
    {voyage : Voyage} (known : voyage ∈ voyages) :
    voyage.Keeps (pollFlight flights scene id).1 (pollFlight flights scene id).2.hub scene.journal.now := by
  intro entry load wait value here settles
  have promised := fleet.keeps voyage known entry load wait value here settles
  have mem := List.mem_of_find?_eq_some found
  -- nobody has promised anything yet to what has just been taken
  have apart : flight.stage = .boarding → load ∉ flight.loads := by
    intro boards mine
    obtain ⟨waiting, blank⟩ := (fleet.boarding flight mem boards).2 load mine
    rcases promised with ⟨-, promised, -⟩ | ⟨answered, -⟩
    · exact blank _ _ promised
    · cases waiting.symm.trans answered
  refine (fleet.pollFlight_promised light found can (fun _ _ => False) (promised.congr fun t v => ?_)
    (by simp)).congr fun t v => (or_iff_left not_false).symm
  rw [or_false, fleet.foretells_iff mem can apart]

/-- A turn of another batch leaves the loads alone that were just taken. -/
theorem unpromised_pollFlight (fleet : Fleet staff scene.journal.now chronicle voyages flights (id :: ready) scene.hub)
    (found : flights.find? (·.id = id) = some flight) (can : flight.isDue scene.journal.now = true)
    {other : Flight} (mem : other ∈ flights) (differs : other.id ≠ id) {load : Load} (theirs : load ∈ other.loads)
    (blank : Unpromised flights scene.hub load) :
    Unpromised (pollFlight flights scene id).1 (pollFlight flights scene id).2.hub load := by
  obtain ⟨waiting, blank⟩ := blank
  have here := List.mem_of_find?_eq_some found
  have own : flight.id = id := by simpa using List.find?_some found
  have apart : flight.stage = .boarding → load ∉ flight.loads :=
    fun _ => fleet.manned.disjoint mem here (own ▸ differs) theirs
  have aloft : load ∈ aloft (pollFlight flights scene id).1 :=
    List.mem_flatMap.2 ⟨other, (mem_pollFlight found other).2 (.inl ⟨mem, differs⟩), theirs⟩
  -- whatever may be promised to it later, it is open until then
  have promised (due : Nat) (value : Bool) : Promised ((pollFlight flights scene id).2.hub.state load) (fun t v =>
      Drive.Promises (pollFlight flights scene id).1 (pollFlight flights scene id).2.hub load t v ∨
        (t = due ∧ v = value)) scene.journal.now due value :=
    fleet.pollFlight_promised light found can _ (.waits waiting (.inr (.inr ⟨rfl, rfl⟩)) fun t v promises => by
      rw [← or_assoc, fleet.foretells_iff here can apart] at promises
      rcases promises with promises | ⟨rfl, rfl⟩
      · exact absurd promises (blank t v)
      · exact ⟨Nat.le_refl _, rfl⟩) fun _ => aloft
  refine ⟨?_, fun t v promises => ?_⟩
  · rcases promised (scene.journal.now + 1) true with ⟨waiting, -, -⟩ | ⟨-, reached⟩
    · exact waiting
    · exact absurd reached (Nat.not_succ_le_self _)
  · rcases promised (max (scene.journal.now + 1) (t + 1)) true with ⟨-, -, first⟩ | ⟨-, reached⟩
    · have le := (first t v (.inl promises)).1
      omega
    · omega

omit light in
/-- The voyage of the batch whose turn it is goes on, or is over. -/
theorem underway_pollFlight (found : flights.find? (·.id = id) = some flight)
    (can : flight.isDue scene.journal.now = true) {voyage : Voyage} (own : flight.id = voyage.flight)
    (matcher : flight.matcher = voyage.matcher) (tickets : flight.tickets = voyage.tickets)
    (lands : scene.journal.now + (flight.plan scene).delay = voyage.lands) :
    voyage.Underway (pollFlight flights scene id).1 scene.journal.now := by
  rcases flight.pollContained_delay scene can with ⟨deadline, rest, polled, -, takes, -⟩ | ⟨-, ended⟩
  · exact .inl ⟨_, (mem_pollFlight found _).2 (.inr polled), own, matcher, tickets, deadline, rest, rfl, takes.trans lands⟩
  · rw [ended] at lands
    exact .inr (Nat.le_of_eq lands.symm)

/-- A batch that was taken sets out on a voyage: its evaluator is called. -/
theorem sets_out (fleet : Fleet staff scene.journal.now chronicle voyages flights (id :: ready) scene.hub)
    (found : flights.find? (·.id = id) = some flight) (boards : flight.stage = .boarding) :
    let voyage : Voyage := ⟨scene.journal.now, flight.id, flight.matcher, flight.tickets,
      (scene.hub.coalescer flight.matcher).requests flight.tickets, flight.plan scene⟩
    voyage.Sails staff (chronicle ++ (turn flights scene id).map (scene.journal.now, ·))
        (pollFlight flights scene id).2.hub ∧
      voyage.Underway (pollFlight flights scene id).1 scene.journal.now ∧
      voyage.Keeps (pollFlight flights scene id).1 (pollFlight flights scene id).2.hub scene.journal.now := by
  intro voyage
  have mem := List.mem_of_find?_eq_some found
  have can : flight.isDue scene.journal.now = true := by rw [Flight.isDue, boards]
  obtain ⟨known, given⟩ := fleet.filled flight mem
  obtain ⟨queue, queue_eq⟩ := Option.isSome_iff_exists.1 ((scene.hub.isSome_queue?_iff flight.matcher).2 known)
  have coalescer_eq : scene.hub.coalescer flight.matcher = queue.coalescer := by
    rw [Hub.coalescer, queue_eq]
    rfl
  have employed : staff flight.matcher queue.evaluate := by
    obtain ⟨before, behind, eq, -⟩ := List.lookup_eq_some_iff.1 queue_eq
    exact fleet.staffed (flight.matcher, queue.evaluate) (List.mem_map.2 ⟨(flight.matcher, queue), by simp [eq], rfl⟩)
  have boarded : Happening.boarded flight.id flight.matcher voyage.requests ∈ turn flights scene id := by
    have listed : Happening.boarded flight.id flight.matcher voyage.requests ∈ flight.boards scene := by
      simp only [Flight.boards, boards, queue_eq, voyage, coalescer_eq, List.mem_singleton]
    rw [turn, found]
    simp only [Flight.happens, can, Bool.not_true, Bool.false_eq_true, if_false]
    exact List.mem_append_left _ (List.mem_append_left _ listed)
  -- its call stands in the chronicle of this turn
  have sails : voyage.Sails staff ((turn flights scene id).map (scene.journal.now, ·)) scene.hub := by
    refine ⟨List.mem_map_of_mem boarded, fleet.nodup flight mem, fun ticket listed => ?_, fun entry ticket here => ?_,
      queue.evaluate, scene.journal.invocations flight.matcher, employed, ?_⟩
    · have aloft : (⟨flight.matcher, ticket⟩ : Load) ∈ aloft flights :=
        List.mem_flatMap.2 ⟨flight, mem, List.mem_map_of_mem listed⟩
      exact fleet.manned.accounted.taken (.inl (.inl aloft))
    · exact Coalescer.getElem?_requests given here
    · simp only [voyage, Flight.plan, Flight.next, boards, queue_eq, coalescer_eq]
  have grown := (pollFlight_continues flights scene id).extends_
  refine ⟨?_, underway_pollFlight found can rfl rfl rfl rfl, fun entry load wait value here settles => ?_⟩
  · obtain ⟨listed, once, taken, stand, calls⟩ := @Voyage.Sails.extends_ _ _ [] _ _ _ sails grown
    rw [List.append_nil] at listed
    exact ⟨List.mem_append_right _ listed, once, taken, stand, calls⟩
  · have mine : load ∈ flight.loads := BatchTask.exists_entryLoad?_iff.1 ⟨entry, here⟩
    -- before, nobody had promised anything to its entries
    obtain ⟨waiting, blank⟩ := (fleet.boarding flight mem boards).2 load mine
    have others (t : Nat) (v : Bool) : ¬ ∃ other ∈ flights, other.id ≠ flight.id ∧ other.Promises load t v := by
      rintro ⟨other, listed, -, promises⟩
      exact blank t v (.inr ⟨other, listed, promises⟩)
    refine (fleet.pollFlight_promised light found can (fun _ _ => False) (.waits waiting ?_ fun t v promises => ?_)
      (by simp)).congr fun t v => (or_iff_left not_false).symm
    · exact .inr (.inl (.inl ⟨entry, wait, here, settles.1, rfl⟩))
    · rw [or_false] at promises
      rcases promises with set | ⟨other, wait', there, listed, rfl⟩ | theirs
      · exact absurd (.inl set) (blank t v)
      · obtain rfl := BatchTask.entryLoad?_inj (fleet.nodup flight mem) here there
        obtain ⟨le, same⟩ := settles.2 _ listed
        exact ⟨Nat.add_le_add_left le _, same⟩
      · exact absurd theirs (others t v)

omit light in
/-- The batches in flight are as they were, but for the one whose turn it was. -/
theorem flights_pollFlight (fleet : Fleet staff scene.journal.now chronicle voyages flights (id :: ready) scene.hub)
    (found : flights.find? (·.id = id) = some flight) : (∀ f ∈ (pollFlight flights scene id).1, f.tickets.Nodup) ∧
      Filled (pollFlight flights scene id).1 (pollFlight flights scene id).2.hub := by
  have mem := List.mem_of_find?_eq_some found
  have grown := (pollFlight_continues flights scene id).extends_
  constructor
  · intro f f_mem
    rcases (mem_pollFlight found f).1 f_mem with ⟨old, -⟩ | polled
    · exact fleet.nodup f old
    · rw [(flight.pollContained_asleep scene polled).2.2.1]
      exact fleet.nodup flight mem
  · intro f f_mem
    rcases (mem_pollFlight found f).1 f_mem with ⟨old, -⟩ | polled
    · exact fleet.filled.mono grown f old
    · obtain ⟨-, matcher, tickets, -⟩ := flight.pollContained_asleep scene polled
      rw [matcher, tickets]
      exact fleet.filled.mono grown flight mem

omit light in
/-- A voyage that was under way still is, or is over. -/
theorem underway_of_old (fleet : Fleet staff scene.journal.now chronicle voyages flights (id :: ready) scene.hub)
    (found : flights.find? (·.id = id) = some flight) (can : flight.isDue scene.journal.now = true) {voyage : Voyage}
    (old : voyage ∈ voyages) : voyage.Underway (pollFlight flights scene id).1 scene.journal.now := by
  have mem := List.mem_of_find?_eq_some found
  have own : flight.id = id := by simpa using List.find?_some found
  rcases fleet.underway voyage old with ⟨f, f_mem, flies⟩ | landed
  · by_cases same : f.id = id
    · obtain rfl := fleet.manned.eq_of_id f_mem mem (same.trans own.symm)
      obtain ⟨same_id, matcher, tickets, deadline, rest, stage, lands⟩ := flies
      rcases fleet.plan_cases mem can with boards | sleeps
      · cases boards.symm.trans stage
      · obtain ⟨rfl, rfl⟩ := FlightStage.asleep.inj (sleeps.symm.trans stage)
        exact underway_pollFlight found can same_id matcher tickets lands
    · exact .inl ⟨f, (mem_pollFlight found f).2 (.inl ⟨f_mem, same⟩), flies⟩
  · exact .inr landed

omit light in
/-- Whoever sleeps after a turn is on a voyage and has its alarm set, or its turn comes. -/
theorem asleep_pollFlight (fleet : Fleet staff scene.journal.now chronicle voyages flights (id :: ready) scene.hub)
    (found : flights.find? (·.id = id) = some flight) (can : flight.isDue scene.journal.now = true) {voyage : Voyage}
    {more : List Voyage} (listed : voyage ∈ voyages ++ more) (own : flight.id = voyage.flight)
    (matcher : flight.matcher = voyage.matcher) (tickets : flight.tickets = voyage.tickets)
    (lands : scene.journal.now + (flight.plan scene).delay = voyage.lands) {f : Flight}
    (f_mem : f ∈ (pollFlight flights scene id).1) {deadline : Nat} {rest : BatchTask}
    (stage : f.stage = .asleep deadline rest) : (∃ voyage ∈ voyages ++ more, f.Flies voyage) ∧
      (deadline = scene.journal.now ∧ f.id ∈ ready ∨ scene.journal.now < deadline ∧
        ∃ number, ⟨deadline, number, .resumeBatch f.id⟩ ∈ (pollFlight flights scene id).2.hub.alarms) := by
  rcases (mem_pollFlight found f).1 f_mem with ⟨old, differs⟩ | polled
  · obtain ⟨⟨other, known, flies⟩, alarmed⟩ := fleet.asleep f old deadline rest stage
    refine ⟨⟨other, List.mem_append_left _ known, flies⟩, ?_⟩
    rcases alarmed with ⟨due, waiting⟩ | ⟨ahead, number, set⟩
    · exact .inl ⟨due, (List.mem_cons.1 waiting).resolve_left differs⟩
    · exact .inr ⟨ahead, number, (pollFlight_stands flights scene id).alarms set⟩
  · rcases flight.pollContained_delay scene can with ⟨deadline', rest', polled', ahead, takes, number, set⟩ | ⟨landed, -⟩
    · obtain rfl := Option.some.inj (polled.symm.trans polled')
      obtain ⟨rfl, rfl⟩ := FlightStage.asleep.inj stage
      refine ⟨⟨voyage, listed, own, matcher, tickets, _, _, rfl, takes.trans lands⟩, .inr ⟨ahead, number, ?_⟩⟩
      rw [pollFlight_scene found]
      exact set
    · cases polled.symm.trans landed

/-- A turn of a batch that can go on. -/
theorem turn_due (fleet : Fleet staff scene.journal.now chronicle voyages flights (id :: ready) scene.hub)
    (found : flights.find? (·.id = id) = some flight) (can : flight.isDue scene.journal.now = true) :
    ∃ more : List Voyage,
      Fleet staff scene.journal.now (chronicle ++ (turn flights scene id).map (scene.journal.now, ·)) (voyages ++ more)
        (pollFlight flights scene id).1 ready (pollFlight flights scene id).2.hub ∧
      (flight.stage = .boarding → ∃ voyage ∈ more,
        voyage.began = scene.journal.now ∧ voyage.matcher = flight.matcher ∧ voyage.tickets = flight.tickets) := by
  have mem := List.mem_of_find?_eq_some found
  have evaluators : scene.hub.All BatchEvaluator.Loadless :=
    fun entry listed => light entry.1 entry.2 (fleet.staffed entry listed)
  -- the voyage of the batch: it is known, or begins now
  obtain ⟨more, news, voyage, listed, ⟨own, matcher, tickets, lands⟩, begins⟩ : ∃ more : List Voyage,
      (∀ voyage ∈ more, voyage.Sails staff (chronicle ++ (turn flights scene id).map (scene.journal.now, ·))
          (pollFlight flights scene id).2.hub ∧
        voyage.Underway (pollFlight flights scene id).1 scene.journal.now ∧
        voyage.Keeps (pollFlight flights scene id).1 (pollFlight flights scene id).2.hub scene.journal.now) ∧
      ∃ voyage ∈ voyages ++ more, (flight.id = voyage.flight ∧ flight.matcher = voyage.matcher ∧
        flight.tickets = voyage.tickets ∧ scene.journal.now + (flight.plan scene).delay = voyage.lands) ∧
        (flight.stage = .boarding → voyage ∈ more ∧ voyage.began = scene.journal.now) := by
    rcases fleet.plan_cases mem can with boards | sleeps
    · refine ⟨[_], List.forall_mem_singleton.2 (fleet.sets_out light found boards), _,
        List.mem_append_right _ (List.mem_singleton_self _), ⟨rfl, rfl, rfl, rfl⟩, fun _ => ⟨List.mem_singleton_self _, rfl⟩⟩
    · obtain ⟨⟨voyage, listed, same_id, matcher, tickets, deadline, rest, stage, lands⟩, -⟩ :=
        fleet.asleep flight mem _ _ sleeps
      obtain ⟨rfl, rfl⟩ := FlightStage.asleep.inj (sleeps.symm.trans stage)
      refine ⟨[], List.forall_mem_nil _, voyage, List.mem_append_left _ listed, ⟨same_id, matcher, tickets, lands⟩,
        fun boards => ?_⟩
      cases boards.symm.trans sleeps
  have manned := (fleet.manned.pollFlight id).1
  obtain ⟨nodup, filled⟩ := fleet.flights_pollFlight found
  refine ⟨more, ⟨by simpa [Function.comp_def] using manned, by rw [evaluators_pollFlight]; exact fleet.staffed,
    (pollFlight_loadless fleet.loadless evaluators id).2, nodup, filled, fun f f_mem boards => ?_,
    fun f f_mem deadline rest stage => fleet.asleep_pollFlight found can listed own matcher tickets lands f_mem stage,
    fun v v_mem => ?_, fun v v_mem => ?_, fun v v_mem => ?_⟩, fun boards => ?_⟩
  · rcases (mem_pollFlight found f).1 f_mem with ⟨old, differs⟩ | polled
    · obtain ⟨waiting, blank⟩ := fleet.boarding f old boards
      exact ⟨(List.mem_cons.1 waiting).resolve_left differs,
        fun load theirs => fleet.unpromised_pollFlight light found can old differs theirs (blank load theirs)⟩
    · have sleeps := (flight.pollContained_asleep scene polled).2.2.2
      rw [Flight.isAsleep, boards] at sleeps
      cases sleeps
  · rcases List.mem_append.1 v_mem with old | new
    · exact (fleet.sails v old).extends_ (pollFlight_continues flights scene id).extends_
    · exact (news v new).1
  · rcases List.mem_append.1 v_mem with old | new
    · exact fleet.underway_of_old found can old
    · exact (news v new).2.1
  · rcases List.mem_append.1 v_mem with old | new
    · exact fleet.keeps_pollFlight light found can old
    · exact (news v new).2.2
  · obtain ⟨new, began⟩ := begins boards
    exact ⟨voyage, new, began, matcher.symm, tickets.symm⟩

/-- At every turn a fleet stays one, and a batch that was just taken sets out. -/
theorem turn (fleet : Fleet staff scene.journal.now chronicle voyages flights (id :: ready) scene.hub) :
    ∃ more : List Voyage,
      Fleet staff scene.journal.now (chronicle ++ (Drive.turn flights scene id).map (scene.journal.now, ·))
        (voyages ++ more) (pollFlight flights scene id).1 ready (pollFlight flights scene id).2.hub ∧
      ∀ flight ∈ flights, flight.stage = .boarding → flight ∈ (pollFlight flights scene id).1 ∨ ∃ voyage ∈ more,
        voyage.began = scene.journal.now ∧ voyage.matcher = flight.matcher ∧ voyage.tickets = flight.tickets := by
  by_cases goes : ∃ flight ∈ flights, flight.id = id ∧ flight.isDue scene.journal.now = true
  · obtain ⟨flight, mem, own, can⟩ := goes
    have found : flights.find? (·.id = id) = some flight := by
      obtain ⟨other, there⟩ := Option.isSome_iff_exists.1
        (List.find?_isSome.2 ⟨flight, mem, by simpa using own⟩ : (flights.find? (·.id = id)).isSome)
      have same : other.id = id := by simpa using List.find?_some there
      rw [there, fleet.manned.eq_of_id (List.mem_of_find?_eq_some there) mem (same.trans own.symm)]
    obtain ⟨more, later, begins⟩ := fleet.turn_due light found can
    refine ⟨more, later, fun f f_mem boards => ?_⟩
    by_cases same : f.id = id
    · obtain rfl := fleet.manned.eq_of_id f_mem mem (same.trans own.symm)
      exact .inr (begins boards)
    · exact .inl ((mem_pollFlight found f).2 (.inl ⟨f_mem, same⟩))
  · obtain ⟨nothing, same, later⟩ := fleet.turn_idle rfl fun flight mem own => by
      by_contra can
      exact goes ⟨flight, mem, own, by simpa using can⟩
    rw [nothing, same]
    exact ⟨[], by simpa using later, fun f f_mem _ => .inl f_mem⟩

end Due

/-- The turns of all batches that are ready: then all batches in flight sleep, and those just taken have set out. -/
theorem turns (light : ∀ matcher evaluate, staff matcher evaluate → BatchEvaluator.Loadless evaluate) (polled : Nat)
    {scene : Scene} (fleet : Fleet staff scene.journal.now chronicle voyages flights ready scene.hub) :
    ∃ more : List Voyage,
      Fleet staff scene.journal.now (chronicle ++ (Drive.turns flights ready scene).map (scene.journal.now, ·))
        (voyages ++ more) (pollReady flights polled ready scene).1 [] (pollReady flights polled ready scene).2.2.hub ∧
      ∀ flight ∈ flights, flight.stage = .boarding → ∃ voyage ∈ more,
        voyage.began = scene.journal.now ∧ voyage.matcher = flight.matcher ∧ voyage.tickets = flight.tickets := by
  induction ready generalizing chronicle voyages flights polled scene with
  | nil =>
    refine ⟨[], by simpa [Drive.turns, pollReady] using fleet, fun flight mem boards => ?_⟩
    cases (fleet.boarding flight mem boards).1
  | cons id ready ih =>
    obtain ⟨first, later, set_out⟩ := fleet.turn light
    have same_now : (pollFlight flights scene id).2.journal.now = scene.journal.now :=
      (pollFlight_stands flights scene id).journal.now
    rw [← same_now] at later
    obtain ⟨rest, final, sets_out⟩ := ih
      (if (pollFlight flights scene id).1.length < flights.length then 0 else polled + 1) later
    rw [same_now, List.append_assoc, ← List.map_append, List.append_assoc] at final
    rw [same_now] at sets_out
    refine ⟨first ++ rest, final, fun flight mem boards => ?_⟩
    rcases set_out flight mem boards with waits | ⟨voyage, listed, begun⟩
    · obtain ⟨voyage, listed, begun⟩ := sets_out flight waits boards
      exact ⟨voyage, List.mem_append_right _ listed, begun⟩
    · exact ⟨voyage, List.mem_append_left _ listed, begun⟩

end Fleet

theorem pollFlight_timely (flights : List Flight) {scene : Scene} (timely : scene.Timely) (id : Nat) :
    (pollFlight flights scene id).2.Timely := by
  cases found : flights.find? (·.id = id) with
  | none =>
    unfold pollFlight
    rw [found]
    exact timely
  | some flight =>
    rw [pollFlight_scene found]
    exact flight.pollContained_timely timely

theorem pollReady_timely (flights : List Flight) (polled : Nat) (ready : List Nat) {scene : Scene}
    (timely : scene.Timely) : (pollReady flights polled ready scene).2.2.Timely := by
  induction ready generalizing flights polled scene with
  | nil => exact timely
  | cons id ready ih => exact ih _ _ (pollFlight_timely flights timely id)

end Drive

end Segmentation
