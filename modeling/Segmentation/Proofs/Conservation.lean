import Segmentation.Proofs.Asking
import Segmentation.Proofs.Delivery
import Segmentation.Proofs.Effort
import Segmentation.Proofs.Logbooks

/-!
# Evaluators at work

An evaluator that is called ends at once or sleeps.  Those that sleep are held by the invocations that called them and
by the batches in flight; `Journal.Works` keeps the account: who is at work, and who is called meanwhile, has ended
later, or is at work then.  It holds of a pass of a drive (`Drive.pass_works`) and of a flush (`Flush.pass_works`).
-/

namespace Segmentation

/-! ### Counting -/

/-- The matcher whose evaluator, single or batched, is called. -/
def Event.start? : Event → Option String
  | .invoked matcher _ => some matcher
  | .batchInvoked matcher _ => some matcher
  | _ => none

/-- The matcher whose evaluator ends. -/
def Event.end? : Event → Option String
  | .evaluatorEnded matcher => some matcher
  | _ => none

/-- The matcher whose evaluator is dropped. -/
def Event.drop? : Event → Option String
  | .evaluatorDropped matcher => some matcher
  | _ => none

/-- How often an evaluator was called. -/
def startsOf (matcher : String) (log : List Event) : Nat := log.countP (·.start? == some matcher)

/-- How often an evaluator ended. -/
def endsOf (matcher : String) (log : List Event) : Nat := log.countP (·.end? == some matcher)

/-- How often an evaluator was dropped. -/
def dropsOf (matcher : String) (log : List Event) : Nat := log.countP (·.drop? == some matcher)

/-- It tells of no evaluator. -/
def Event.IsAside (event : Event) : Prop := event.start? = none ∧ event.end? = none ∧ event.drop? = none

section

variable (matcher : String)

@[simp] theorem startsOf_append (log more : List Event) :
    startsOf matcher (log ++ more) = startsOf matcher log + startsOf matcher more := List.countP_append

@[simp] theorem endsOf_append (log more : List Event) :
    endsOf matcher (log ++ more) = endsOf matcher log + endsOf matcher more := List.countP_append

@[simp] theorem dropsOf_append (log more : List Event) :
    dropsOf matcher (log ++ more) = dropsOf matcher log + dropsOf matcher more := List.countP_append

theorem counts_of_aside {written : List Event} (aside : ∀ event ∈ written, event.IsAside) :
    startsOf matcher written = 0 ∧ endsOf matcher written = 0 ∧ dropsOf matcher written = 0 := by
  have starts : startsOf matcher written = 0 := by
    refine List.countP_eq_zero.2 fun event mem => ?_
    simp [(aside event mem).1]
  have ends : endsOf matcher written = 0 := by
    refine List.countP_eq_zero.2 fun event mem => ?_
    simp [(aside event mem).2.1]
  have drops : dropsOf matcher written = 0 := by
    refine List.countP_eq_zero.2 fun event mem => ?_
    simp [(aside event mem).2.2]
  exact ⟨starts, ends, drops⟩

theorem SpanEvent.all_aside (events : List SpanEvent) : ∀ event ∈ events.map Event.span, event.IsAside := by
  intro event mem
  obtain ⟨_, -, rfl⟩ := List.mem_map.1 mem
  exact ⟨rfl, rfl, rfl⟩

theorem Scope.spanEvents_aside (scope : Scope) (events : List SpanEvent) :
    ∀ event ∈ scope.spanEvents events, event.IsAside := by
  unfold spanEvents
  split
  · exact SpanEvent.all_aside events
  · exact List.forall_mem_nil _

namespace Journal

/-- So many evaluators of the matcher are at work before and later: whoever was called meanwhile, or was at work, has
ended or is still at work, and nobody was dropped. -/
def Works (before : Journal) (busy : Nat) (later : Journal) (still : Nat) : Prop :=
  ∃ written, before.Writes written later ∧ dropsOf matcher written = 0 ∧
    busy + startsOf matcher written = endsOf matcher written + still

namespace Works

variable {matcher}

theorem aside {before later : Journal} {written : List Event} (writes : before.Writes written later)
    (all : ∀ event ∈ written, event.IsAside) (busy : Nat) : before.Works matcher busy later busy := by
  obtain ⟨starts, ends, drops⟩ := counts_of_aside matcher all
  exact ⟨written, writes, drops, by omega⟩

theorem of_eq {before later : Journal} (same : later.events = before.events) (busy : Nat) :
    before.Works matcher busy later busy := aside (writes_nil same) (List.forall_mem_nil _) busy

theorem refl (journal : Journal) (busy : Nat) : journal.Works matcher busy journal busy := of_eq rfl busy

theorem trans {a b c : Journal} {busy between still : Nat} (ab : a.Works matcher busy b between)
    (bc : b.Works matcher between c still) : a.Works matcher busy c still := by
  obtain ⟨first, writes, drops, balance⟩ := ab
  obtain ⟨second, writes', drops', balance'⟩ := bc
  refine ⟨first ++ second, writes.trans writes', ?_, ?_⟩
  · rw [dropsOf_append, drops, drops']
  · rw [startsOf_append, endsOf_append]
    omega

/-- Others are at work beside. -/
theorem beside {before later : Journal} {busy still : Nat} (works : before.Works matcher busy later still)
    {busy' still' : Nat} (others : busy' + still = busy + still') : before.Works matcher busy' later still' := by
  obtain ⟨written, writes, drops, balance⟩ := works
  exact ⟨written, writes, drops, by omega⟩

theorem notice (journal : Journal) (notice : Notice) (busy : Nat) :
    journal.Works matcher busy (journal.notice notice) busy :=
  aside (writes_notice journal notice) (List.forall_mem_singleton.2 ⟨rfl, rfl, rfl⟩) busy

end Works

end Journal

end

open Journal (Works)

variable (matcher : String)

/-- One if it is the evaluator of the given matcher, and none otherwise. -/
def oneFor (name : String) : Nat := if name = matcher then 1 else 0

theorem Journal.record_start (journal : Journal) {event : Event} {name : String} (starts : event.start? = some name)
    (ends : event.end? = none) (drops : event.drop? = none) :
    journal.Works matcher 0 (journal.record event) (oneFor matcher name) := by
  refine ⟨[event], writes_record journal event, ?_, ?_⟩
  · simp [dropsOf, drops]
  · by_cases same : name = matcher <;> simp [startsOf, endsOf, starts, ends, oneFor, same]

theorem Journal.record_end (journal : Journal) (name : String) :
    journal.Works matcher (oneFor matcher name) (journal.record (.evaluatorEnded name)) 0 := by
  refine ⟨_, writes_record journal (.evaluatorEnded name), ?_, ?_⟩
  · simp [dropsOf, Event.drop?]
  · by_cases same : name = matcher <;> simp [startsOf, endsOf, Event.start?, Event.end?, oneFor, same]

/-! ### Invocations -/

/-- The evaluators that an invocation has at work: one while it waits for it. -/
def Stage.working (definition : Definition) : Stage → Nat
  | .evaluating _ _ _ _ => oneFor matcher definition.name
  | _ => 0

namespace Invocation

variable (scope : Scope) (definition : Definition) (index span : Nat)

theorem settle_works (outcome : Outcome) (scene : Scene) :
    scene.journal.Works matcher 0 (settle scope span outcome scene).2.journal 0 :=
  .aside (Journal.writes_recordAll _ _) (scope.spanEvents_aside _) 0

theorem evaluated_works (args : Option Json) (running : Running (Ending Bool)) (scene : Scene) :
    let r := evaluated scope definition index span args running scene
    scene.journal.Works matcher (oneFor matcher definition.name) r.2.journal (r.1.working matcher definition) := by
  cases running with
  | ended ending =>
    have ends := scene.journal.record_end matcher definition.name
    exact ends.trans (settle_works matcher scope span (verdict scope definition.name args ending)
      { scene with journal := scene.journal.record (.evaluatorEnded definition.name) })
  | asleep deadline rest => exact .of_eq rfl _

theorem dispatch_works (args : Option Json) (scene : Scene) :
    let r := dispatch scope definition index span args scene
    scene.journal.Works matcher 0 r.2.journal (r.1.working matcher definition) := by
  unfold dispatch
  cases definition.matcher.evaluator with
  | single evaluate =>
    have starts : scene.journal.Works matcher 0 (scene.journal.record (.invoked definition.name args))
        (oneFor matcher definition.name) := scene.journal.record_start matcher rfl rfl rfl
    exact starts.trans (evaluated_works matcher scope definition index span args _
      { scene with journal := scene.journal.record (.invoked definition.name args) })
  | batch evaluate =>
    dsimp only
    split
    · exact settle_works matcher scope span _ scene
    · exact .aside (Journal.writes_record _ _) (List.forall_mem_singleton.2 ⟨rfl, rfl, rfl⟩) 0

theorem validated_works (running : Running Checked) (scene : Scene) :
    let r := validated scope definition index span running scene
    scene.journal.Works matcher 0 r.2.journal (r.1.working matcher definition) := by
  unfold validated
  cases running with
  | asleep deadline rest => exact .of_eq rfl 0
  | ended checked =>
    dsimp only
    split
    · exact dispatch_works matcher scope definition index span _ scene
    · exact settle_works matcher scope span _ scene

theorem begins_works (scene : Scene) :
    let r := begins scope definition index scene
    scene.journal.Works matcher 0 r.2.journal (r.1.working matcher definition) := by
  let span := scene.journal.spanCount
  let opened := scene.journal.recordAll (scope.spanEvents (opening scope definition span))
  have opens : scene.journal.Works matcher 0 opened 0 :=
    .aside (Journal.writes_recordAll _ _) (scope.spanEvents_aside _) 0
  refine opens.trans ?_
  unfold begins
  dsimp only
  split
  · rename_i raw _ _
    have checks : opened.Works matcher 0 (opened.record (.argumentChecked definition.name raw)) 0 :=
      .aside (Journal.writes_record _ _) (List.forall_mem_singleton.2 ⟨rfl, rfl, rfl⟩) 0
    exact checks.trans (validated_works matcher scope definition index span _ ⟨scene.hub, _⟩)
  · exact settle_works matcher scope span _ ⟨scene.hub, opened⟩
  · exact dispatch_works matcher scope definition index span _ ⟨scene.hub, opened⟩

/-- Going on with an invocation: its evaluator is called, ends, or sleeps on. -/
theorem advance_works (stage : Stage) (scene : Scene) :
    let r := advance scope definition index stage scene
    scene.journal.Works matcher (stage.working matcher definition) r.2.journal (r.1.working matcher definition) := by
  cases stage with
  | fresh => exact begins_works matcher scope definition index scene
  | validating span deadline rest =>
    simp only [advance]
    split
    · exact .refl _ _
    · exact validated_works matcher scope definition index span _ scene
  | evaluating span args deadline rest =>
    simp only [advance]
    split
    · exact .refl _ _
    · exact evaluated_works matcher scope definition index span args _ scene
  | awaiting span load =>
    simp only [advance]
    split
    · exact .refl _ _
    · exact settle_works matcher scope span _ scene
    · exact settle_works matcher scope span _ scene
  | settled outcome => exact .refl _ _

end Invocation

namespace Session

/-- The evaluators that the invocations have at work. -/
def working (session : Session) : Nat := (session.invocations.map fun i => i.stage.working matcher i.definition).sum

theorem advance_works (session : Session) (scene : Scene) (index : Nat) :
    let r := session.advance scene index
    scene.journal.Works matcher (session.working matcher) r.2.journal (r.1.working matcher) := by
  unfold advance
  cases here : session.invocations[index]? with
  | none => exact .refl _ _
  | some i =>
    have one := Invocation.advance_works matcher session.scope i.definition index i.stage scene
    dsimp only at one ⊢
    generalize Invocation.advance session.scope i.definition index i.stage scene = r at one
    have all := sum_map_set (fun i : Invocation => i.stage.working matcher i.definition) here { i with stage := r.1 }
    exact one.beside (all.symm.trans (Nat.add_comm _ _))

theorem advanceAll_works (indices : List Nat) (session : Session) (scene : Scene) :
    let r := advanceAll indices session scene
    scene.journal.Works matcher (session.working matcher) r.2.journal (r.1.working matcher) := by
  induction indices generalizing session scene with
  | nil => exact .refl _ _
  | cons index indices ih => exact (session.advance_works matcher scene index).trans (ih _ _)

theorem invocationFor_aside (session : Session) (definition : Definition) (journal : Journal) :
    journal.Adds Event.IsAside (session.invocationFor definition journal).2.2 := by
  unfold invocationFor
  dsimp only
  split
  · exact .record _ ⟨rfl, rfl, rfl⟩
  · exact .refl _

mutual

theorem launch_aside : (expr : Expr) → (session : Session) → (journal : Journal) →
    journal.Adds Event.IsAside (session.launch expr journal).2.2
  | .leaf d, session, journal => session.invocationFor_aside d journal
  | .and es, session, journal => launchAll_aside es session journal
  | .or es, session, journal => launchAll_aside es session journal
  | .not e, session, journal => launch_aside e session journal

theorem launchAll_aside : (exprs : List Expr) → (session : Session) → (journal : Journal) →
    journal.Adds Event.IsAside (session.launchAll exprs journal).2.2
  | [], _, _ => .refl _
  | e :: es, session, journal => (launch_aside e session journal).trans (launchAll_aside es _ _)

end

/-- Before anything has begun nobody is at work. -/
theorem launch_works (scope : Scope) (expr : Expr) (journal : Journal) :
    let r := (Session.start scope).launch expr journal
    journal.Works matcher 0 r.2.2 (r.2.1.working matcher) := by
  intro r
  have idle : r.2.1.working matcher = 0 := by
    refine List.sum_eq_zero fun n mem => ?_
    obtain ⟨i, i_mem, rfl⟩ := List.mem_map.1 mem
    rw [((Unbegun.of_start scope expr journal).fresh i i_mem).1]
    rfl
  obtain ⟨written, dates, all⟩ := launch_aside expr (Session.start scope) journal
  rw [idle]
  exact .aside dates.writes all 0

/-- When all have settled nobody is at work. -/
theorem working_of_settled {session : Session} (settled : ∀ i ∈ session.invocations, ∃ o, i.stage = .settled o) :
    session.working matcher = 0 := by
  refine List.sum_eq_zero fun n mem => ?_
  obtain ⟨i, i_mem, rfl⟩ := List.mem_map.1 mem
  obtain ⟨o, eq⟩ := settled i i_mem
  rw [eq]
  rfl

end Session

/-! ### Batches -/

namespace Flight

/-- The evaluators that a batch has at work: one while it sleeps. -/
def working (flight : Flight) : Nat := if flight.isAsleep then oneFor matcher flight.matcher else 0

variable (flight : Flight) (scene : Scene)

/-- The queue of a batch that has not started is there. -/
def Known (flight : Flight) (hub : Hub) : Prop := flight.isAsleep = false → flight.matcher ∈ hub.names

theorem landContained_works (ending : Ending Unit) (busy : Nat) :
    scene.journal.Works matcher busy (flight.landContained ending scene).journal busy := by
  unfold landContained
  split
  · exact .refl _ _
  · exact .notice _ _ _

theorem noteEnd_works (r : FlightProgress × Scene) :
    let noted := flight.noteEnd r
    r.2.journal.Works matcher (oneFor matcher flight.matcher) noted.2.journal
      (match noted.1 with
        | .asleep _ _ => oneFor matcher flight.matcher
        | .ended _ => 0) := by
  obtain ⟨progress, scene⟩ := r
  cases progress with
  | asleep deadline rest => exact .refl _ _
  | ended ending => exact scene.journal.record_end matcher flight.matcher

/-- The evaluator of a batch that goes on was called before, or is called now. -/
theorem called_works {flight : Flight} {scene : Scene} (known : flight.Known scene.hub) :
    scene.journal.Works matcher (flight.working matcher) (flight.called scene).journal
      (oneFor matcher flight.matcher) := by
  unfold called working
  cases stage : flight.stage with
  | asleep deadline rest =>
    have asleep : flight.isAsleep = true := by rw [isAsleep, stage]
    have unannounced : flight.announce scene = scene := by rw [announce, stage]
    rw [if_pos asleep, unannounced]
    exact .refl _ _
  | boarding =>
    have awake : flight.isAsleep = false := by rw [isAsleep, stage]
    obtain ⟨queue, here⟩ := Option.isSome_iff_exists.1 ((Hub.isSome_queue?_iff scene.hub _).2 (known awake))
    have announced : (flight.announce scene).journal =
        scene.journal.notice (.batchFlushed flight.matcher flight.tickets.length) := by rw [announce, stage]
    simp only [here]
    rw [if_neg (by simp [awake]), announced]
    exact (Works.notice _ _ 0).trans (Journal.record_start matcher _ rfl rfl rfl)

/-- A batch that goes on ends or sleeps. -/
theorem pollContained_works {flight : Flight} {scene : Scene} (known : flight.Known scene.hub) :
    let r := flight.pollContained scene
    scene.journal.Works matcher (flight.working matcher) r.2.journal ((r.1.map (·.working matcher)).getD 0) := by
  unfold pollContained
  dsimp only
  split
  · exact .refl _ _
  · have called := called_works matcher known
    have noted : (flight.called scene).journal.Works matcher (oneFor matcher flight.matcher)
        (flight.advance (flight.announce scene)).2.journal
        (match (flight.advance (flight.announce scene)).1 with
          | .asleep _ _ => oneFor matcher flight.matcher
          | .ended _ => 0) := by
      rw [flight.advance_eq scene]
      refine Works.trans ?_ (flight.noteEnd_works matcher _)
      split
      · exact .refl _ _
      · exact .of_eq (BatchTask.events_run _ _ _ _) _
    have advanced := called.trans noted
    generalize flight.advance (flight.announce scene) = r at advanced
    obtain ⟨progress, later⟩ := r
    cases progress with
    | asleep deadline rest => exact advanced
    | ended ending => exact advanced.trans (flight.landContained_works matcher later ending 0)

end Flight

namespace Drive

/-- The evaluators that batches have at work. -/
def busy (flights : List Flight) : Nat := (flights.map (·.working matcher)).sum

/-- All batches that have not started have their queues. -/
def AllKnown (flights : List Flight) (hub : Hub) : Prop := ∀ flight ∈ flights, flight.Known hub

theorem AllKnown.of_filled {flights : List Flight} {hub : Hub} (filled : Filled (boarding flights) hub) :
    AllKnown flights hub := by
  intro flight mem awake
  exact (filled flight (List.mem_filter.2 ⟨mem, by simp [awake]⟩)).1

theorem pollFlight_works {flights : List Flight} (nodup : (ids flights).Nodup) {scene : Scene}
    (known : AllKnown flights scene.hub) (id : Nat) :
    let r := pollFlight flights scene id
    scene.journal.Works matcher (busy matcher flights) r.2.journal (busy matcher r.1) ∧ AllKnown r.1 r.2.hub := by
  have names := (pollFlight_continues flights scene id).extends_.names
  refine ⟨?_, forall_mem_pollFlight (fun flight mem awake => names.subset (known flight mem awake)) ?_⟩
  · cases found : flights.find? (·.id = id) with
    | none =>
      rw [pollFlight_of_none found]
      exact .refl _ _
    | some flight =>
      have works := Flight.pollContained_works matcher (known flight (List.mem_of_find?_eq_some found))
      rw [pollFlight_scene found]
      refine works.beside ?_
      rw [busy, busy, sum_split nodup found, sum_pollFlight nodup scene found]
      omega
  · intro flight _ next polled awake
    obtain ⟨-, -, -, asleep⟩ := flight.pollContained_asleep scene polled
    rw [asleep] at awake
    cases awake

theorem pollReady_works (ready : List Nat) {flights : List Flight} (nodup : (ids flights).Nodup) (polled : Nat)
    {scene : Scene} (known : AllKnown flights scene.hub) :
    scene.journal.Works matcher (busy matcher flights) (pollReady flights polled ready scene).2.2.journal
      (busy matcher (pollReady flights polled ready scene).1) := by
  induction ready generalizing flights polled scene with
  | nil => exact .refl _ _
  | cons id ready ih =>
    obtain ⟨first, known⟩ := pollFlight_works matcher nodup known id
    have in_flight := ids_pollFlight nodup scene id
    have nodup := List.Nodup.sublist (List.sublist_append_right _ _) (in_flight.nodup_iff.2 nodup)
    exact first.trans (ih nodup _ known)

theorem busy_boarding {flights : List Flight} (boards : boarding flights = flights) : busy matcher flights = 0 := by
  refine List.sum_eq_zero fun n mem => ?_
  obtain ⟨flight, flight_mem, rfl⟩ := List.mem_map.1 mem
  rw [← boards] at flight_mem
  rw [Flight.working, if_neg (by simpa using (List.mem_filter.1 flight_mem).2)]

/-- A pass of a drive: the evaluation goes on, and then the batches, those that were taken among them. -/
theorem pass_works {drive : Drive Evaluation} {scene : Scene} (sound : drive.Sound scene.hub) :
    let final := drive.pass scene
    scene.journal.Works matcher (drive.client.session.working matcher + busy matcher drive.flights) final.2.journal
      (final.1.client.session.working matcher + busy matcher final.1.flights) := by
  intro final
  obtain ⟨-, -, loaded, -⟩ := drive.pollClient_spec scene
  obtain ⟨flights_eq, scene_eq, -⟩ := drive.pass_turns scene
  let polled := drive.pollClient scene
  have client : scene.journal.Works matcher (drive.client.session.working matcher) polled.2.journal
      (polled.1.client.session.working matcher) := by
    change scene.journal.Works matcher _ (drive.pollClient scene).2.journal
      ((drive.pollClient scene).1.client.session.working matcher)
    unfold pollClient
    split
    · exact .refl _ _
    · exact Session.advanceAll_works matcher _ drive.client.session scene
  -- The batches that are taken have not started.
  have names : polled.2.hub.names.Nodup := loaded.nodup sound.names
  obtain ⟨-, -, -, -, new_boarding, new_filled⟩ := taken_spec names
  let flights := drive.flights ++ polled.2.hub.takeFlights.1
  let taken : Scene := ⟨polled.2.hub.takeFlights.2, polled.2.journal⟩
  have nodup : (ids flights).Nodup := (ids_takeFlights names sound.nodup (loaded.nextFlight ▸ sound.numbered)).1
  have known : AllKnown flights taken.hub := .of_filled (by rwa [boarding_takeFlights names sound.asleep])
  have same_busy : busy matcher flights = busy matcher drive.flights := by
    have apart : busy matcher flights = busy matcher drive.flights + busy matcher polled.2.hub.takeFlights.1 := by
      rw [busy, List.map_append, List.sum_append]
      rfl
    rw [apart, busy_boarding matcher new_boarding, Nat.add_zero]
  have batches := pollReady_works matcher (drive.ready ++ ids polled.2.hub.takeFlights.1) nodup 0 known
  have client_eq : final.1.client = polled.1.client := rfl
  rw [scene_eq, flights_eq, client_eq]
  rw [same_busy] at batches
  have first : scene.journal.Works matcher (drive.client.session.working matcher + busy matcher drive.flights)
      polled.2.journal (polled.1.client.session.working matcher + busy matcher drive.flights) :=
    client.beside (by omega)
  exact first.trans (batches.beside ((Nat.add_assoc _ _ _).trans (Nat.add_left_comm _ _ _)))

end Drive

namespace Flush

open Drive (AllKnown boarding busy)

/-- The batches of a round go on, in their order: those in flight later sleep. -/
theorem pollFlights_works (flights : List Flight) {scene : Scene} (known : AllKnown flights scene.hub) :
    let r := pollFlights flights scene
    scene.journal.Works matcher (busy matcher flights) r.2.journal (busy matcher r.1) ∧ boarding r.1 = [] ∧
      scene.hub.Continues r.2.hub := by
  let step (r : List Flight × Scene) (flight : Flight) : List Flight × Scene :=
    (r.1 ++ (flight.pollContained r.2).1.toList, (flight.pollContained r.2).2)
  have all (flights rest : List Flight) (scene : Scene) (known : AllKnown flights scene.hub)
      (asleep : boarding rest = []) :
      let r := flights.foldl step (rest, scene)
      scene.journal.Works matcher (busy matcher rest + busy matcher flights) r.2.journal (busy matcher r.1) ∧
        boarding r.1 = [] ∧ scene.hub.Continues r.2.hub := by
    induction flights generalizing rest scene with
    | nil => exact ⟨.refl _ _, asleep, .refl _⟩
    | cons flight flights ih =>
      have works := Flight.pollContained_works matcher (known flight List.mem_cons_self)
      have continues := flight.pollContained_continues scene
      have still : AllKnown flights (flight.pollContained scene).2.hub := fun other mem awake =>
        continues.extends_.names.subset (known other (List.mem_cons_of_mem _ mem) awake)
      have sleeps : boarding (rest ++ (flight.pollContained scene).1.toList) = [] := by
        have apart : boarding (rest ++ (flight.pollContained scene).1.toList) =
            boarding rest ++ boarding (flight.pollContained scene).1.toList := List.filter_append _ _
        rw [apart, asleep, List.nil_append]
        refine List.filter_eq_nil_iff.2 fun later mem => ?_
        obtain ⟨-, -, -, asleep⟩ := flight.pollContained_asleep scene (Option.mem_toList.1 mem)
        simp [asleep]
      obtain ⟨rests, boards, goes⟩ := ih _ _ still sleeps
      refine ⟨Works.trans (works.beside ?_) rests, boards, continues.trans goes⟩
      have one : busy matcher (rest ++ (flight.pollContained scene).1.toList) =
          busy matcher rest + ((flight.pollContained scene).1.map (·.working matcher)).getD 0 := by
        rw [busy, List.map_append, List.sum_append, busy]
        cases (flight.pollContained scene).1 <;> rfl
      have cons : busy matcher (flight :: flights) = flight.working matcher + busy matcher flights := rfl
      rw [one, cons]
      omega
  have whole := all flights [] scene known rfl
  have none_yet : busy matcher [] = 0 := rfl
  rwa [none_yet, Nat.zero_add] at whole

/-- No matcher has two queues, and the batches in flight sleep. -/
def Sound (flush : Flush) (hub : Hub) : Prop := hub.names.Nodup ∧ boarding flush.flights = []

theorem nextRound_works (flush : Flush) (landed : flush.flights = []) {scene : Scene} (names : scene.hub.names.Nodup) :
    let r := flush.nextRound scene
    scene.journal.Works matcher 0 r.2.journal (busy matcher r.1.flights) ∧ r.1.Sound r.2.hub ∧
      (r.1.finished = true → r.1.flights = [] ∨ flush.finished = true) := by
  obtain ⟨drained, -, -, -, boards, filled⟩ := Drive.taken_spec names
  have names' : scene.hub.takeFlights.2.names.Nodup := drained.names ▸ names
  have known : AllKnown scene.hub.takeFlights.1 scene.hub.takeFlights.2 := .of_filled (by rwa [boards])
  have idle := Drive.busy_boarding matcher boards
  unfold nextRound
  generalize scene.hub.takeFlights = taken at names' known idle
  obtain ⟨flights, hub⟩ := taken
  cases flights with
  | nil =>
    refine ⟨?_, ⟨names', ?_⟩, fun _ => .inl landed⟩
    · have nothing : busy matcher flush.flights = 0 := by rw [landed]; rfl
      dsimp only
      rw [nothing]
      exact .refl _ _
    · rw [landed]
      rfl
  | cons flight flights =>
    have known : AllKnown (flight :: flights) (Scene.mk hub scene.journal).hub := known
    obtain ⟨works, asleep, continues⟩ := pollFlights_works matcher (flight :: flights) known
    rw [idle] at works
    exact ⟨works, ⟨continues.extends_.nodup names', asleep⟩, fun finished => .inr finished⟩

/-- A pass of a flush; when it has finished nothing is in flight. -/
theorem pass_works {flush : Flush} {scene : Scene} (sound : flush.Sound scene.hub) (runs : flush.finished = false) :
    let r := flush.pass scene
    scene.journal.Works matcher (busy matcher flush.flights) r.2.journal (busy matcher r.1.flights) ∧
      r.1.Sound r.2.hub ∧ (r.1.finished = true → r.1.flights = []) := by
  have known : AllKnown flush.flights scene.hub := by
    refine .of_filled ?_
    rw [sound.2]
    exact List.forall_mem_nil _
  obtain ⟨works, asleep, continues⟩ := pollFlights_works matcher flush.flights known
  have names := continues.extends_.nodup sound.1
  obtain ⟨before, flushed, finished⟩ := flush
  obtain rfl : finished = false := runs
  unfold pass
  simp only [Bool.false_eq_true, if_false]
  generalize pollFlights before scene = polled at works asleep names
  obtain ⟨flights, later⟩ := polled
  cases flights with
  | nil =>
    obtain ⟨next, sound', ends⟩ := nextRound_works matcher ⟨[], flushed, false⟩ rfl names
    exact ⟨works.trans next, sound', fun finished => (ends finished).resolve_right Bool.false_ne_true⟩
  | cons flight flights => exact ⟨works, ⟨names, asleep⟩, nofun⟩

end Flush

end Segmentation
