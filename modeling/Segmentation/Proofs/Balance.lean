import Segmentation.Proofs.Conservation
import Segmentation.Proofs.Invocations
import Segmentation.Proofs.Recovery

/-!
# Nothing outlives a call

A call has evaluators at work only while its evaluation goes on or its queues are emptied, and then their account is
balanced (`Call.Accounts`): whoever was called has ended or is still at work.  When the evaluation has an outcome all
its invocations have settled, and the queues are left only when all batches have landed; so an answered call has nobody
at work.  A call that is dropped drops those who are, each once, and does nothing else (`Call.Accounts.closed`).  What
is done after a call is done for others (`Service.nothing_outlives`).
-/

namespace Segmentation

open Journal (Works)

/-- When an evaluation has an outcome all its invocations have. -/
theorem Evaluation.Underway.settled {scope : Scope} {expr : Expr} {log : List Event} {evaluation : Evaluation}
    (underway : evaluation.Underway scope expr log) {outcome : Outcome} (ended : evaluation.outcome? = some outcome) :
    ∀ i ∈ evaluation.session.invocations, ∃ o, i.stage = .settled o := by
  have all := underway.sound.isSome_outcome?_iff.1 (Option.isSome_iff_exists.2 ⟨outcome, ended⟩)
  intro i mem
  obtain ⟨o, known⟩ := Option.isSome_iff_exists.1 (all i.definition (underway.performs.known i mem))
  exact ⟨o, Session.settled_of_outcomeFor underway.performs.nodup mem known⟩

/-! ### Calls that go on -/

section

variable (matcher : String)

namespace Call

/-- The evaluators that a call has at work. -/
def working (call : Call) : Nat :=
  match call.stage with
  | .driving _ _ _ drive => drive.client.session.working matcher + Drive.busy matcher drive.flights
  | .flushing _ _ _ _ _ flush => Drive.busy matcher flush.flights
  | _ => 0

/-- The batches of a call are as they have to be between two polls. -/
def Steady (call : Call) : Prop :=
  match call.stage with
  | .driving _ _ hub drive => drive.Sound hub
  | .flushing _ _ hub _ _ flush => flush.Sound hub ∧ flush.finished = false
  | _ => True

/-- A step of a call that keeps the account of its evaluators. -/
def Balances (before : Journal) (busy : Nat) (r : Call × Journal) : Prop :=
  before.Works matcher busy r.2 (r.1.working matcher) ∧ r.1.Steady

variable {matcher} (call : Call)

theorem Balances.after {a b : Journal} {busy between : Nat} {r : Call × Journal} (works : a.Works matcher busy b between)
    (balances : Balances matcher b between r) : Balances matcher a busy r := ⟨works.trans balances.1, balances.2⟩

/-- Telling something is no work. -/
theorem works_record (journal : Journal) {event : Event} (aside : event.IsAside) (busy : Nat) :
    journal.Works matcher busy (journal.record event) busy :=
  .aside (journal.writes_record event) (List.forall_mem_singleton.2 aside) busy

theorem finish_balances (span : Nat) (value : Bool) (journal : Journal) :
    Balances matcher journal 0 (call.finish span value journal) := by
  have parting : ∀ event ∈ [Event.span (.attributed span "segment.result" (.bool value)), .span (.ended span)],
      event.IsAside := SpanEvent.all_aside [.attributed span "segment.result" (.bool value), .ended span]
  exact ⟨.aside (journal.writes_recordAll _) parting 0, trivial⟩

theorem recovered_balances (span : Nat) (running : Running (Ending Bool)) (journal : Journal) :
    Balances matcher journal 0 (call.recovered span running journal) := by
  unfold recovered
  cases running with
  | asleep deadline rest => exact ⟨.of_eq rfl 0, trivial⟩
  | ended ending =>
    dsimp only
    split
    · exact call.finish_balances span _ journal
    · exact .after (.notice journal _ 0) (call.finish_balances span false _)

theorem conclude_balances (span : Nat) (outcome : Outcome) (journal : Journal) :
    Balances matcher journal 0 (call.conclude span outcome journal) := by
  unfold conclude
  cases outcome with
  | ok value => exact .after (works_record journal ⟨rfl, rfl, rfl⟩ 0) (call.finish_balances span value _)
  | error error =>
    let noted := journal.recordAll ((SpanEvent.ofError span error).map .span)
    have notes : journal.Works matcher 0 noted 0 :=
      .aside (journal.writes_recordAll _) (SpanEvent.all_aside (SpanEvent.ofError span error)) 0
    have reported : (Event.errorReported error call.target.name call.subject).IsAside := ⟨rfl, rfl, rfl⟩
    refine .after notes (.after (works_record noted reported 0) ?_)
    dsimp only
    split
    · exact call.finish_balances span false _
    · exact .after (works_record _ ⟨rfl, rfl, rfl⟩ 0) (call.recovered_balances span _ _)

theorem flushQueues_balances (span context : Nat) (outcome : Outcome) (invocations : Nat) {flush : Flush}
    {scene : Scene} (sound : flush.Sound scene.hub) (runs : flush.finished = false) :
    Balances matcher scene.journal (Drive.busy matcher flush.flights)
      (call.flushQueues span context outcome invocations flush scene) := by
  obtain ⟨works, sound', emptied⟩ := Flush.pass_works matcher sound runs
  unfold flushQueues
  generalize flush.pass scene = r at works sound' emptied
  obtain ⟨flush, later⟩ := r
  dsimp only at works sound' emptied ⊢
  split
  · rename_i finished
    have idle : Drive.busy matcher flush.flights = 0 := by rw [emptied finished]; rfl
    rw [idle] at works
    have released : (Event.span (.contextReleased context)).IsAside := ⟨rfl, rfl, rfl⟩
    let told := later.journal.notice (.segmentEvaluated call.target.name invocations flush.flushed)
    have tells : later.journal.Works matcher 0 told 0 := .notice _ _ 0
    refine .after works (.after tells (.after (works_record told released 0) ?_))
    exact conclude_balances { call with strays := later.hub.answerAlarms } span outcome _
  · rename_i unfinished
    exact ⟨works, sound', Bool.eq_false_iff.2 unfinished⟩

/-- A pass of a drive.  When it has finished all invocations have settled. -/
theorem driveOn_balances (span context : Nat) {drive : Drive Evaluation} {scene : Scene} (sound : drive.Sound scene.hub)
    {scope : Scope} {expr : Expr} {log : List Event} (underway : (drive.pass scene).1.client.Underway scope expr log) :
    Balances matcher scene.journal (drive.client.session.working matcher + Drive.busy matcher drive.flights)
      (call.driveOn span context drive scene) := by
  have works := Drive.pass_works matcher sound
  obtain ⟨-, -, -, -, -, sound'⟩ := Drive.pass_spec sound
  unfold driveOn
  generalize drive.pass scene = r at works sound' underway
  obtain ⟨drive, later⟩ := r
  dsimp only at works sound' underway ⊢
  split
  · rename_i outcome finished ended
    have landed : drive.flights = [] := by
      rw [Drive.finished, Bool.and_eq_true] at finished
      exact List.isEmpty_iff.1 finished.2
    have idle : drive.client.session.working matcher + Drive.busy matcher drive.flights = 0 := by
      rw [Session.working_of_settled matcher (underway.settled ended), landed]
      rfl
    rw [idle] at works
    exact .after works (call.flushQueues_balances span context outcome _ ⟨sound'.names, rfl⟩ rfl)
  · exact ⟨works, sound'⟩

theorem begins_balances {segments : Keyed SegmentDefinition} {registry : Registry} (journal : Journal) :
    let r := call.begins segments registry journal
    Balances matcher journal 0 (r.1, r.2.2) := by
  let opened : List SpanEvent := [.started 0 ("segment:" ++ call.target.name) none,
    .attributed journal.spanCount "segment.name" (.string call.target.name), .contextTaken journal.spanCount]
  have opens : journal.Works matcher 0 (journal.recordAll (opened.map .span)) 0 :=
    .aside (Journal.writes_recordAll _ _) (SpanEvent.all_aside opened) 0
  unfold begins
  dsimp only
  generalize Engine.buildExpr segments registry call.subject call.target = built
  obtain ⟨built, later⟩ := built
  cases built with
  | error error =>
    have released : (Event.span (.contextReleased journal.contextCount)).IsAside := ⟨rfl, rfl, rfl⟩
    exact .after opens (.after (works_record _ released 0) (call.conclude_balances _ (.error error) _))
  | ok expr =>
    have launch := Session.launch_works matcher (call.scope journal) expr (journal.recordAll (opened.map .span))
    have idle : deeds [] = [] := rfl
    obtain ⟨_, _, -, performs⟩ := Evaluation.start_performs (call.scope journal) rfl rfl idle expr
      ⟨.empty, journal.recordAll (opened.map .span)⟩
    obtain ⟨_, -, -, underway⟩ := Drive.first_pass_underway rfl performs
    have sound : (Drive.start (Evaluation.start (.start (call.scope journal)) expr
        ⟨.empty, journal.recordAll (opened.map .span)⟩).1).Sound .empty :=
      ⟨List.nodup_nil, rfl, List.nodup_nil, List.forall_mem_nil _⟩
    exact .after opens (.after launch (call.driveOn_balances _ _ sound underway))

theorem poll_balances {segments : Keyed SegmentDefinition} {matchers : String → Option Matcher} {call : Call}
    {log : List Event} (course : call.Course segments matchers log) (steady : call.Steady) (registry : Registry)
    (journal : Journal) :
    let r := call.poll segments registry journal
    Balances matcher journal (call.working matcher) (r.1, r.2.2) := by
  have stays : Balances matcher journal (call.working matcher) (call, journal) := ⟨.refl _ _, steady⟩
  unfold Call.poll
  unfold Course at course
  unfold Steady at steady
  unfold working at stays ⊢
  cases stage : call.stage with
  | waiting =>
    simp only [stage] at course ⊢
    exact call.begins_balances journal
  | driving span context hub drive =>
    simp only [stage] at course steady ⊢
    obtain ⟨begun, expr, -, underway, -⟩ := course
    obtain ⟨written, -, -, underway⟩ := Drive.pass_underway underway ⟨hub, journal⟩
    have sound : drive.Sound (Scene.mk hub journal).hub := steady
    exact call.driveOn_balances span context sound underway
  | flushing span context hub outcome invocations flush =>
    simp only [stage] at steady ⊢
    have sound : flush.Sound (Scene.mk hub journal).hub := steady.1
    exact call.flushQueues_balances span context outcome invocations sound steady.2
  | recovering span deadline alarm rest =>
    simp only [stage] at stays ⊢
    split
    · exact call.recovered_balances span _ journal
    · exact stays
  | answered value =>
    simp only [stage] at stays ⊢
    exact stays

end Call

/-! ### Calls that are dropped -/

/-- So many evaluators are dropped, and nothing is written but that it is over. -/
def Journal.Drops (before : Journal) (busy : Nat) (later : Journal) : Prop :=
  ∃ written, before.Writes written later ∧ (∀ event ∈ written, event.IsParting) ∧ dropsOf matcher written = busy

namespace Journal.Drops

variable {matcher}

theorem refl (journal : Journal) : journal.Drops matcher 0 journal :=
  ⟨[], writes_nil rfl, List.forall_mem_nil _, rfl⟩

theorem trans {a b c : Journal} {first second : Nat} (ab : a.Drops matcher first b) (bc : b.Drops matcher second c) :
    a.Drops matcher (first + second) c := by
  obtain ⟨written, writes, parting, drops⟩ := ab
  obtain ⟨more, writes', parting', drops'⟩ := bc
  refine ⟨written ++ more, writes.trans writes', List.forall_mem_append.2 ⟨parting, parting'⟩, ?_⟩
  rw [dropsOf_append, drops, drops']

/-- The end of a span, or of a context. -/
theorem spans (journal : Journal) {written : List Event} (parting : ∀ event ∈ written, event.IsParting)
    (aside : ∀ event ∈ written, event.IsAside) : journal.Drops matcher 0 (journal.recordAll written) :=
  ⟨written, journal.writes_recordAll written, parting, (counts_of_aside matcher aside).2.2⟩

theorem evaluator (journal : Journal) (name : String) :
    journal.Drops matcher (oneFor matcher name) (journal.record (.evaluatorDropped name)) := by
  refine ⟨_, journal.writes_record _, List.forall_mem_singleton.2 trivial, ?_⟩
  by_cases same : name = matcher <;> simp [dropsOf, Event.drop?, oneFor, same]

end Journal.Drops

open Journal (Drops)

theorem Invocation.drop_drops (scope : Scope) (invocation : Invocation) (journal : Journal) :
    journal.Drops matcher (invocation.stage.working matcher invocation.definition) (invocation.drop scope journal) := by
  have ends (span : Nat) (journal : Journal) :
      journal.Drops matcher 0 (journal.recordAll (scope.spanEvents [.ended span])) := by
    refine .spans journal (fun event mem => ?_) (scope.spanEvents_aside _)
    unfold Scope.spanEvents at mem
    split at mem
    · obtain rfl := List.mem_singleton.1 mem
      trivial
    · cases mem
  unfold drop
  cases invocation.stage with
  | fresh => exact .refl journal
  | validating span deadline rest => exact ends span journal
  | evaluating span args deadline rest => exact (Drops.evaluator journal invocation.definition.name).trans (ends span _)
  | awaiting span load => exact ends span journal
  | settled outcome => exact .refl journal

theorem Session.drop_drops (session : Session) (journal : Journal) :
    journal.Drops matcher (session.working matcher) (session.drop journal) := by
  unfold drop working
  generalize session.invocations = invocations
  induction invocations generalizing journal with
  | nil => exact .refl journal
  | cons i rest ih => exact (i.drop_drops matcher session.scope journal).trans (ih _)

theorem Flight.drop_drops (flight : Flight) (scene : Scene) :
    scene.journal.Drops matcher (flight.working matcher) (flight.drop scene).journal := by
  unfold drop working
  dsimp only
  split
  · exact .evaluator _ _
  · exact .refl _

theorem Flight.dropAll_drops (flights : List Flight) (scene : Scene) :
    scene.journal.Drops matcher (Drive.busy matcher flights)
      (flights.foldl (fun scene flight => flight.drop scene) scene).journal := by
  induction flights generalizing scene with
  | nil => exact .refl _
  | cons flight flights ih => exact (flight.drop_drops matcher scene).trans (ih _)

/-- A call that is dropped drops its evaluators at work, each once. -/
theorem Call.drop_drops (call : Call) (journal : Journal) :
    journal.Drops matcher (call.working matcher) (call.drop journal) := by
  have ends (events : List SpanEvent) (parting : ∀ event ∈ events.map Event.span, event.IsParting) (journal : Journal) :
      journal.Drops matcher 0 (journal.recordAll (events.map .span)) :=
    .spans journal parting (SpanEvent.all_aside events)
  have leaves (context span : Nat) (journal : Journal) : journal.Drops matcher 0
      (journal.recordAll [.span (.contextReleased context), .span (.ended span)]) :=
    ends [.contextReleased context, .ended span]
      (List.forall_mem_cons.2 ⟨trivial, List.forall_mem_singleton.2 trivial⟩) journal
  unfold drop working
  cases call.stage with
  | waiting => exact .refl journal
  | driving span context hub drive =>
    have batches := Flight.dropAll_drops matcher drive.flights ⟨hub, journal⟩
    have all := (batches.trans (drive.client.session.drop_drops matcher _)).trans (leaves context span _)
    dsimp only
    rwa [Nat.add_zero, Nat.add_comm] at all
  | flushing span context hub outcome invocations flush =>
    exact (Flight.dropAll_drops matcher flush.flights ⟨hub, journal⟩).trans (leaves context span _)
  | recovering span deadline alarm rest => exact ends [.ended span] (List.forall_mem_singleton.2 trivial) journal
  | answered value => exact .refl journal

end

/-! ### The accounts of calls -/

variable {segments : Keyed SegmentDefinition} {matchers : String → Option Matcher}

namespace Call

/-- Of a call that runs: who was called has ended or is at work, and nobody was dropped. -/
structure Accounts (segments : Keyed SegmentDefinition) (matchers : String → Option Matcher) (call : Call)
    (log : List Event) : Prop where
  course : call.Course segments matchers log
  steady : call.Steady
  balance : ∀ matcher, dropsOf matcher log = 0 ∧ startsOf matcher log = endsOf matcher log + call.working matcher

/-- Of a call that is over or was dropped: who was called has ended, or was dropped at last, when nothing else was done
any more.  Of a call that is over nobody was dropped. -/
structure Closed (segments : Keyed SegmentDefinition) (matchers : String → Option Matcher) (call : Call)
    (log : List Event) : Prop where
  split : ∃ done rest, log = done ++ rest ∧ call.Course segments matchers done ∧ (∀ event ∈ rest, event.IsParting) ∧
    (call.answer?.isSome → rest = []) ∧
    ∀ matcher, dropsOf matcher done = 0 ∧ startsOf matcher done = endsOf matcher done + dropsOf matcher rest

variable {call : Call} {log : List Event}

theorem Accounts.poll (accounts : call.Accounts segments matchers log) {registry : Registry}
    (holds : Service.Holds matchers registry) (journal : Journal) :
    let r := call.poll segments registry journal
    ∃ more, journal.Writes more r.2.2 ∧ r.1.Accounts segments matchers (log ++ more) ∧ r.1.request = call.request := by
  intro r
  obtain ⟨more, writes, course, same⟩ := accounts.course.poll holds journal
  have balances (matcher : String) : Balances matcher journal (call.working matcher) (r.1, r.2.2) :=
    poll_balances accounts.course accounts.steady registry journal
  refine ⟨more, writes, ⟨course, (balances "").2, fun matcher => ?_⟩, same⟩
  obtain ⟨written, writes', drops, balance⟩ := (balances matcher).1
  obtain rfl := writes.unique writes'
  obtain ⟨none_before, before⟩ := accounts.balance matcher
  rw [dropsOf_append, startsOf_append, endsOf_append]
  dsimp only at balance
  constructor <;> omega

theorem Accounts.advance (accounts : call.Accounts segments matchers log) (now : Nat) :
    (call.advance now).Accounts segments matchers log := by
  refine ⟨accounts.course.advance now, ?_, ?_⟩
  · have steady := accounts.steady
    obtain ⟨subject, target, fallback, stage, strays⟩ := call
    cases stage with
    | driving span context hub drive =>
      obtain ⟨names, asleep, nodup, numbered⟩ := steady
      obtain ⟨flights_eq, ledger⟩ := drive.advance_spec hub now
      change (drive.advance hub now).1.Sound (drive.advance hub now).2
      refine ⟨?_, ?_, ?_, ?_⟩
      · rwa [Hub.names_of_ledger ledger]
      · rwa [flights_eq]
      · rwa [flights_eq]
      · rwa [flights_eq, Hub.nextFlight_of_ledger ledger]
    | flushing span context hub outcome invocations flush =>
      obtain ⟨⟨names, asleep⟩, runs⟩ := steady
      have ledger : (hub.advance now).ledger = hub.ledger :=
        List.foldlRecOn (hub.takeDue now).1 _ (motive := fun later : Hub => later.ledger = hub.ledger) rfl
          fun later same alarm _ => (later.ledger_goOff alarm.purpose).trans same
      exact ⟨⟨by rwa [Hub.names_of_ledger ledger], asleep⟩, runs⟩
    | _ => trivial
  · have same (matcher : String) : (call.advance now).working matcher = call.working matcher := by
      obtain ⟨subject, target, fallback, stage, strays⟩ := call
      cases stage with
      | driving span context hub drive =>
        have client_eq := Evaluation.client_advance drive hub now
        have flights_eq := (drive.advance_spec hub now).1
        change (drive.advance hub now).1.client.session.working matcher +
          Drive.busy matcher (drive.advance hub now).1.flights = _
        rw [client_eq, flights_eq]
        rfl
      | _ => rfl
    intro matcher
    rw [same]
    exact accounts.balance matcher

/-- Dropping a call closes its account. -/
theorem Accounts.closed (accounts : call.Accounts segments matchers log) (journal : Journal) :
    ∃ more, journal.Writes more (call.drop journal) ∧ call.Closed segments matchers (log ++ more) := by
  obtain ⟨more, writes, parting, -⟩ := call.drop_drops "" journal
  refine ⟨more, writes, ⟨log, more, rfl, accounts.course, parting, fun answered => ?_, fun matcher => ?_⟩⟩
  · have silent : call.drop journal = journal := by
      unfold answer? at answered
      unfold drop
      cases stage : call.stage with
      | answered value => rfl
      | _ => simp [stage] at answered
    rw [silent] at writes
    exact writes.unique (Journal.writes_nil rfl)
  · obtain ⟨written, writes', -, drops⟩ := call.drop_drops matcher journal
    obtain rfl := writes.unique writes'
    obtain ⟨none_before, balance⟩ := accounts.balance matcher
    exact ⟨none_before, balance.trans (congrArg _ drops.symm)⟩

/-- Calls that run at once keep their accounts, each its own. -/
theorem accounts_kept (segments : Keyed SegmentDefinition) (matchers : String → Option Matcher) :
    Bookkeeping segments matchers (fun _ call log => call.Accounts segments matchers log)
      (fun _ call log => call.Closed segments matchers log) (fun _ _ => True) where
  start events subject target fallback := ⟨rfl, trivial, fun matcher => ⟨rfl, rfl⟩⟩
  kept_later _ kept := kept
  closed_later _ closed := closed
  poll holds _ _ _ kept _ _ _ _ := by
    obtain ⟨more, writes, kept, same⟩ := kept.poll holds _
    exact ⟨more, writes, kept, trivial, same⟩
  advance kept now := kept.advance now
  drop kept _ _ _ _ := by
    obtain ⟨more, writes, closed⟩ := kept.closed _
    exact ⟨more, writes, closed, trivial⟩

end Call

/-! ### Services -/

/-- All evaluators that the call started have ended, if it was answered, and nobody was dropped.  If it was dropped, all
those that had not ended were dropped, each once, and from then on nothing else was done. -/
structure Transcript.Conserves (t : Transcript) : Prop where
  answered : t.answer.isSome → ∀ matcher, startsOf matcher t.log = endsOf matcher t.log ∧ dropsOf matcher t.log = 0
  dropped : t.answer = none → ∃ done rest, t.log = done ++ rest ∧ (∀ event ∈ rest, event.IsParting) ∧
    ∀ matcher, dropsOf matcher done = 0 ∧ startsOf matcher done = endsOf matcher done + dropsOf matcher rest

/-- The transcript of a call tells what it should, and its evaluators are accounted for. -/
def Transcript.Settled (segments : Keyed SegmentDefinition) (matchers : String → Option Matcher) (t : Transcript) :
    Prop := t.Sound segments matchers ∧ t.Conserves

theorem silent_of_parting {rest : List Event} (parting : ∀ event ∈ rest, event.IsParting) :
    deeds rest = [] ∧ appeals rest = [] := silent_of_all fun event mem => (parting event mem).silent

theorem Call.Closed.settled {call : Call} {log : List Event} (closed : call.Closed segments matchers log) :
    Transcript.Settled segments matchers ⟨call.request, call.answer?, log⟩ := by
  obtain ⟨done, rest, rfl, course, parting, whole, balance⟩ := closed.split
  have sound := course.transcript
  refine ⟨⟨fun value answered => ?_, ?_⟩, ⟨fun answered matcher => ?_, fun _ => ⟨done, rest, rfl, parting, balance⟩⟩⟩
  · obtain rfl := whole (Option.isSome_iff_exists.2 ⟨value, answered⟩)
    rw [List.append_nil]
    exact sound.answered value answered
  · change appeals (done ++ rest) = [] ∨ ∃ error, appeals (done ++ rest) = _
    rw [appeals_append, (silent_of_parting parting).2, List.append_nil]
    exact sound.told
  · obtain rfl := whole answered
    obtain ⟨drops, counts⟩ := balance matcher
    rw [List.append_nil]
    exact ⟨counts, drops⟩

/-- What a usage may have written: nothing but the rejection of a subject, or the logs of its own calls. -/
def Usage.Accounts (segments : Keyed SegmentDefinition) (matchers : String → Option Matcher) (written : List Event) :
    Usage → Prop
  | .receive _ _ => ∀ event ∈ written, ∃ issues, event = .noticed (.subjectRejected issues)
  | .describe _ _ => written = []
  | .ask requests _ _ => ∃ ts : List Transcript, ts.map (·.request) = requests ∧ Woven (ts.map (·.log)) written ∧
      ∀ t ∈ ts, t.Settled segments matchers

namespace Service

/-- Validating a subject only tells when it is rejected. -/
theorem receive_tells (service : Service) (moves : Nat) (input : Json) :
    ∃ written, service.journal.Writes written (service.receive moves input).2.journal ∧
      ∀ event ∈ written, ∃ issues, event = .noticed (.subjectRejected issues) := by
  have nothing {journal : Journal} (same : journal.events = service.journal.events) :
      ∃ written, service.journal.Writes written journal ∧
        ∀ event ∈ written, ∃ issues, event = .noticed (.subjectRejected issues) :=
    ⟨[], Journal.writes_nil same, List.forall_mem_nil _⟩
  unfold receive
  cases service.engine.receive input with
  | panics payload => exact nothing rfl
  | starts task =>
    let begun : Beside (Solo Checked) := ⟨Solo.start service.journal task, service.strays⟩
    let kept (b : Beside (Solo Checked)) : Prop := b.machine.journal.events = service.journal.events
    have ran : kept (Machine.run none moves begun).2 := by
      refine Machine.run_keeps (fun b same => ?_) (fun now b same => same) none moves rfl
      have unchanged : (Machine.poll b.machine : Solo Checked).journal = b.machine.journal := by
        change (Solo.poll b.machine).journal = _
        unfold Solo.poll
        split
        · rfl
        · split <;> rfl
      exact (congrArg Journal.events unchanged).trans same
    dsimp only
    change (Machine.run none moves begun).2.machine.journal.events = service.journal.events at ran
    generalize (Machine.run none moves begun).2 = final at ran
    cases final.machine.result? with
    | none => exact nothing ran
    | some checked =>
      dsimp only
      unfold Engine.noteChecked
      split
      · rename_i issues
        refine ⟨[.noticed (.subjectRejected issues.length)], ?_, List.forall_mem_singleton.2 ⟨_, rfl⟩⟩
        exact (Journal.writes_nil ran).trans (Journal.writes_notice _ _)
      · exact nothing ran

/-- Whatever becomes of calls that run at once, each of them accounts for its evaluators. -/
theorem ask_settles {service : Service} (holds : Holds matchers service.engine.registry) (moves : Nat)
    (limit : Option Nat) (requests : List (Json × Target × Option Fallback)) :
    let asked := service.ask moves limit
      (requests.map fun (subject, target, fallback) => .start subject target fallback)
    ∃ (ts : List Transcript) (written : List Event), ts.map (·.request) = requests ∧ ts.map (·.answer) = asked.2.1 ∧
      service.journal.Writes written asked.2.2.journal ∧ Woven (ts.map (·.log)) written ∧
      ∀ t ∈ ts, t.Settled service.engine.segments matchers := by
  intro asked
  obtain ⟨calls, logs, written, requests_eq, answers_eq, -, writes, woven, -, closed⟩ :=
    ask_logbooks (Call.accounts_kept service.engine.segments matchers) rfl holds moves limit requests trivial
  obtain ⟨ts, requests_eq', answers_eq', logs_eq, settled⟩ := transcripts_of_logs Call.Closed.settled closed
  exact ⟨ts, written, requests_eq'.trans requests_eq, answers_eq'.trans answers_eq, writes, logs_eq ▸ woven, settled⟩

/-- Every usage writes what belongs to it. -/
theorem use_accounts {service : Service} {engine : Engine} (stems : service.StemsFrom engine) (usage : Usage) :
    ∃ written, service.journal.Writes written (service.use usage).journal ∧
      usage.Accounts engine.segments engine.registry.matcher? written := by
  cases usage with
  | receive input moves => exact service.receive_tells moves input
  | describe subject target => exact ⟨[], Journal.writes_nil rfl, rfl⟩
  | ask requests limit moves =>
    have holds : Holds engine.registry.matcher? service.engine.registry := ⟨stems.sound, stems.matcher?_eq⟩
    obtain ⟨ts, written, requests_eq, -, writes, woven, settled⟩ := ask_settles holds moves limit requests
    exact ⟨written, writes, ts, requests_eq, woven, stems.segments_eq ▸ settled⟩

theorem useAll_accounts {service : Service} {engine : Engine} (stems : service.StemsFrom engine) (history : List Usage) :
    ∃ parts, service.journal.Writes parts.flatten (service.useAll history).journal ∧
      List.Forall₂ (fun usage part => usage.Accounts engine.segments engine.registry.matcher? part) history parts := by
  induction history generalizing service with
  | nil => exact ⟨[], Journal.writes_nil rfl, .nil⟩
  | cons usage history ih =>
    obtain ⟨part, writes, accounts⟩ := use_accounts stems usage
    obtain ⟨parts, writes', all⟩ := ih (stems.use usage)
    exact ⟨part :: parts, writes.trans writes', .cons accounts all⟩

/-- Calls of a service that has any history behind it, run at once, up to any limit: an answered call has seen all its
evaluators end, and a call that was dropped has dropped those that had not ended, each once.  Whatever is done with the
service later, all that is written then belongs to it: to the calls that are asked then, which account for their own
evaluators, or to subjects that are rejected. -/
theorem nothing_outlives {schema : Schema} {options : Options} {groups : List (List (String × Matcher.Draft))}
    {segments : List (String × SegmentDefinition)} {noted : Journal} {engine : Engine}
    (built : (Engine.build schema options groups segments noted).1 = .ok engine)
    (journal : Journal) (strays : List Nat) (history later : List Usage) (moves : Nat) (limit : Option Nat)
    (requests : List (Json × Target × Option Fallback)) :
    let service := useAll ⟨engine, journal, strays⟩ history
    let asked := service.ask moves limit
      (requests.map fun (subject, target, fallback) => .start subject target fallback)
    ∃ (ts : List Transcript) (written : List Event) (parts : List (List Event)), ts.map (·.request) = requests ∧
      ts.map (·.answer) = asked.2.1 ∧ service.journal.Writes written asked.2.2.journal ∧
      Woven (ts.map (·.log)) written ∧ (∀ t ∈ ts, t.Conserves) ∧
      asked.2.2.journal.Writes parts.flatten (asked.2.2.useAll later).journal ∧
      List.Forall₂ (fun usage part => usage.Accounts engine.segments engine.registry.matcher? part) later parts := by
  intro service asked
  obtain ⟨_, -, registry_eq⟩ := Engine.registry_of_build built
  have fresh : (⟨engine, journal, strays⟩ : Service).StemsFrom engine :=
    ⟨rfl, registry_eq ▸ Registry.sound_compile _ _, rfl⟩
  have stems : service.StemsFrom engine := fresh.useAll history
  have holds : Holds engine.registry.matcher? service.engine.registry := ⟨stems.sound, stems.matcher?_eq⟩
  obtain ⟨ts, written, requests_eq, answers_eq, writes, woven, settled⟩ := ask_settles holds moves limit requests
  obtain ⟨parts, writes', accounts⟩ := useAll_accounts (stems.use (.ask requests limit moves)) later
  exact ⟨ts, written, parts, requests_eq, answers_eq, writes, woven, fun t mem => (settled t mem).2, writes', accounts⟩

/-! A segment that one matcher denies at once, while two others take their time. -/

/-- An evaluator that says no at once. -/
def curt : SingleEvaluator := fun _ _ => .starts (.done (.value false))

/-- An evaluator that takes its time. -/
def leisurely : SingleEvaluator := fun _ _ => .starts (.sleep 10 (.done (.value true)))

/-- A batched evaluator that takes its time. -/
def leisurelyBatch : BatchEvaluator := fun _ _ => .starts (.sleep 10 (.resolve 0 true (.done (.value ()))))

def leisurelyMatchers : List (List (String × Matcher.Draft)) :=
  [[("curt", ⟨none, some curt, none⟩), ("single", ⟨none, some leisurely, none⟩), ("batch", ⟨none, none, some leisurelyBatch⟩)]]

def leisurelySegments : List (String × SegmentDefinition) :=
  [("leisurely", fun _ => .and [.matcher "curt", .matcher "single", .matcher "batch"])]

/-- A new engine with these matchers and this segment. -/
def leisurelyEngine : Engine :=
  ⟨.any, Keyed.ofList leisurelySegments,
    .compile [("curt", ⟨none, .single curt⟩), ("single", ⟨none, .single leisurely⟩),
      ("batch", ⟨none, .batch leisurelyBatch⟩)] defaultMemoCapacity, .default⟩

/-- A call that is dropped drops both of those who take their time; a later one is answered when they have ended. -/
theorem leisurely_work_is_dropped :
    let request : Json × Target × Option Fallback := (.null, .named "leisurely", none)
    let asked := (⟨leisurelyEngine, .empty, []⟩ : Service).ask 20 (some 5) [.start .null (.named "leisurely") none]
    let counts (log : List Event) :=
      ["curt", "single", "batch"].map fun name => (startsOf name log, endsOf name log, dropsOf name log)
    ∃ (t : Transcript) (later : List Event), t.request = request ∧ t.answer = none ∧ t.Conserves ∧
      counts t.log = [(1, 1, 0), (1, 0, 1), (1, 0, 1)] ∧
      asked.2.2.journal.Writes later (asked.2.2.useAll [.ask [request] none 20]).journal ∧
      (Usage.ask [request] none 20).Accounts leisurelyEngine.segments leisurelyEngine.registry.matcher? later ∧
      counts later = [(1, 1, 0), (1, 1, 0), (1, 1, 0)] := by
  intro request asked counts
  have built : (Engine.build .any .default leisurelyMatchers leisurelySegments .empty).1 = .ok leisurelyEngine := rfl
  have same : (useAll ⟨leisurelyEngine, .empty, []⟩ []).ask 20 (some 5)
      ([request].map fun (subject, target, fallback) => .start subject target fallback) = asked := rfl
  obtain ⟨ts, written, parts, requests_eq, answers_eq, writes, woven, conserves, writes', accounts⟩ :=
    nothing_outlives built .empty [] [] [.ask [request] none 20] 20 (some 5) [request]
  rw [same] at answers_eq writes writes'
  obtain ⟨t, rfl, request_eq⟩ := List.map_eq_singleton_iff.1 requests_eq
  have dropped : [t.answer] = [none] := answers_eq.trans (by decide +kernel)
  obtain rfl : written = t.log := woven.lone
  have log_eq : asked.2.2.journal.events = t.log := writes
  cases accounts with
  | @cons _ part _ _ mine rest =>
    cases rest
    rw [List.flatten_singleton] at writes'
    have part_eq :
        part = (asked.2.2.useAll [.ask [request] none 20]).journal.events.drop asked.2.2.journal.events.length := by
      rw [show _ = asked.2.2.journal.events ++ part from writes', List.drop_left]
    have counted : counts asked.2.2.journal.events = [(1, 1, 0), (1, 0, 1), (1, 0, 1)] := by decide +kernel
    have counted_later : counts ((asked.2.2.useAll [.ask [request] none 20]).journal.events.drop
        asked.2.2.journal.events.length) = [(1, 1, 0), (1, 1, 0), (1, 1, 0)] := by decide +kernel
    rw [log_eq] at counted
    rw [← part_eq] at counted_later
    exact ⟨t, part, request_eq, List.singleton_inj.1 dropped, conserves t List.mem_cons_self, counted, writes', mine,
      counted_later⟩

end Service

end Segmentation
