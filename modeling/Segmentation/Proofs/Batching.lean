import Segmentation.Proofs.Recovery
import Segmentation.Proofs.Timetable

/-!
# Requests of one instant share a batch

Calls run at once, and each evaluates an expression of its own.  Whatever the others do, the batched evaluators are
called for it as the schedule of its expression says: at every instant at which somebody asks a matcher once, and at no
other (`Service.batches_follow_schedules`).
-/

namespace Segmentation

open Journal (Adds)

/-! ### What is written beside the batches -/

namespace Call

/-- The evaluation of the call is over. -/
def IsOver : CallStage → Prop
  | .recovering _ _ _ _ => True
  | .answered _ => True
  | _ => False

/-- The call goes on to a stage at which its evaluation is over. -/
def Closes (call : Call) (before : Journal) (r : Call × Journal) : Prop :=
  ∃ stage strays, IsOver stage ∧ r.1 = { call with stage, strays } ∧ before.Adds Event.IsBatchless r.2

variable (call : Call) (span : Nat) (journal : Journal)

theorem finish_closes (value : Bool) : call.Closes journal (call.finish span value journal) := by
  refine ⟨.answered value, call.strays, trivial, rfl, .recordAll journal ?_⟩
  exact SpanEvent.all_batchless [.attributed span "segment.result" (.bool value), .ended span]

theorem Closes.after {call : Call} {before between : Journal} {r : Call × Journal} (closes : call.Closes between r)
    (adds : before.Adds Event.IsBatchless between) : call.Closes before r := by
  obtain ⟨stage, strays, ended, same, more⟩ := closes
  exact ⟨stage, strays, ended, same, adds.trans more⟩

theorem recovered_closes (running : Running (Ending Bool)) :
    call.Closes journal (call.recovered span running journal) := by
  cases running with
  | asleep deadline rest =>
    exact ⟨.recovering span deadline journal.alarms rest, call.strays, trivial, rfl, .of_eq rfl rfl⟩
  | ended ending =>
    unfold recovered
    dsimp only
    split
    · exact call.finish_closes span journal _
    · exact (call.finish_closes span _ _).after (.record journal rfl)

theorem conclude_closes (outcome : Outcome) : call.Closes journal (call.conclude span outcome journal) := by
  cases outcome with
  | ok value =>
    have noted : (Event.span (.statusSet span ⟨.ok, none⟩)).IsBatchless := rfl
    exact (call.finish_closes span _ value).after (.record journal noted)
  | error error =>
    have told : journal.Adds Event.IsBatchless ((journal.recordAll ((SpanEvent.ofError span error).map .span)).record
        (.errorReported error call.target.name call.subject)) :=
      (Adds.recordAll journal (SpanEvent.all_batchless _)).trans (.record _ rfl)
    unfold conclude
    dsimp only
    cases call.fallback with
    | none => exact (call.finish_closes span _ false).after told
    | some fallback =>
      have asked : (Event.fallbackAsked [error]).IsBatchless := rfl
      exact (call.recovered_closes span _ _).after (told.trans (.record _ asked))

end Call

theorem Event.IsParting.batchless {event : Event} (parting : event.IsParting) : event.IsBatchless := by
  cases event with
  | batchInvoked matcher args => exact absurd parting id
  | _ => rfl

/-! ### What is called for a call -/

/-- The calls of batched evaluators of which a journal tells, with their instants. -/
def Journal.batchCalls (entries : List (Nat × Event)) : List (Nat × String × List (Option Json)) :=
  entries.filterMap fun (instant, event) => event.batchCall?.map (instant, ·)

/-- The calls of batched evaluators that happened, with their instants. -/
def batchCalls (chronicle : List (Nat × Happening)) : List (Nat × String × List (Option Json)) :=
  chronicle.filterMap fun (instant, happening) => happening.batchCall?.map (instant, ·)

theorem batchCalls_append (chronicle more : List (Nat × Happening)) :
    batchCalls (chronicle ++ more) = batchCalls chronicle ++ batchCalls more := List.filterMap_append

/-- What happened, without the instants. -/
theorem map_snd_append (chronicle : List (Nat × Happening)) (happened : List Happening) (now : Nat) :
    (chronicle ++ happened.map (now, ·)).map (·.2) = chronicle.map (·.2) ++ happened := by
  simp [Function.comp_def]

/-- What is found at one instant, with it. -/
private theorem filterMap_dated {α β : Type} (found? : α → Option β) (l : List α) (now : Nat) :
    (l.map (now, ·)).filterMap (fun (instant, a) => (found? a).map (instant, ·)) = (l.filterMap found?).map (now, ·) := by
  rw [List.filterMap_map, List.map_filterMap]
  rfl

/-- What is written at an instant tells of what happened at it. -/
theorem batchCalls_eq {written : List Event} {happened : List Happening}
    (told : written.filterMap Event.batchCall? = happened.filterMap Happening.batchCall?) (now : Nat) :
    Journal.batchCalls (written.map (now, ·)) = batchCalls (happened.map (now, ·)) := by
  rw [Journal.batchCalls, batchCalls, filterMap_dated, filterMap_dated, told]

/-- Where no batch began, none was called. -/
theorem batchCalls_silent {happened : List Happening} (silent : happened.filterMap Happening.batch? = []) (now : Nat) :
    batchCalls (happened.map (now, ·)) = [] := by
  rw [batchCalls, filterMap_dated, Happening.filterMap_batchCall?, silent]
  rfl

/-- Where no call was written, none is told of. -/
theorem Journal.batchCalls_silent {written : List Event} (batchless : ∀ event ∈ written, event.IsBatchless) (now : Nat) :
    Journal.batchCalls (written.map (now, ·)) = [] := by
  rw [Journal.batchCalls, filterMap_dated, List.filterMap_eq_nil_iff.2 batchless]
  rfl

namespace Call

section

variable (segments : Keyed SegmentDefinition) (matchers : String → Option Matcher) (begun : Nat)

/-- The evaluation of an expression by the call has got to this drive, and this has happened to its batches. -/
def Runs (call : Call) (expr : Expr) (journal : Journal) (chronicle : List (Nat × Happening)) (drive : Drive Evaluation)
    (hub : Hub) : Prop :=
  Drive.Run (Evaluation.start (.start (call.scope journal)) expr ⟨.empty, preface call.target.name journal⟩).1 .empty
    (chronicle.map (·.2)) drive hub

/-- All batched evaluators were called as the schedule says. -/
def Served (call : Call) (chronicle : List (Nat × Happening)) : Prop :=
  (∃ error, call.Builds segments matchers (.error error) ∧ chronicle = []) ∨
  ∃ expr journal drive hub, call.Builds segments matchers (.ok expr) ∧ call.Runs expr journal chronicle drive hub ∧
    ∀ matcher t, expr.Calls call.subject begun matcher t (callsAt chronicle matcher t)

/-- A call that began at one instant is on schedule at another one. -/
def Keeps (now : Nat) (call : Call) (chronicle : List (Nat × Happening)) : Prop :=
  match call.stage with
  | .waiting => chronicle = [] ∧ now = begun
  | .driving _ _ hub drive => ∃ expr journal horizon, call.Builds segments matchers (.ok expr) ∧
      call.Runs expr journal chronicle drive hub ∧
      drive.OnSchedule (call.scope journal) expr begun horizon now chronicle hub
  | .flushing _ _ _ _ _ _ => False
  | _ => call.Served segments matchers begun chronicle

/-- A step of a call at an instant: what is written tells of what happened, and the call stays on schedule. -/
def Batches (chronicle : List (Nat × Happening)) (before : Journal) (r : Call × Journal) : Prop :=
  ∃ (written : List Event) (happened : List Happening), before.Dates written r.2 ∧
    written.filterMap Event.batchCall? = happened.filterMap Happening.batchCall? ∧
    r.1.Keeps segments matchers begun before.now (chronicle ++ happened.map (before.now, ·))

variable {segments matchers begun} {call : Call} {chronicle : List (Nat × Happening)}

/-- Something else is written first. -/
theorem Batches.after {before between : Journal} {r : Call × Journal}
    (batches : Batches segments matchers begun chronicle between r) (adds : before.Adds Event.IsBatchless between) :
    Batches segments matchers begun chronicle before r := by
  obtain ⟨first, ⟨now, entries⟩, batchless⟩ := adds
  obtain ⟨written, happened, ⟨now', entries'⟩, told, keeps⟩ := batches
  rw [now] at now' entries' keeps
  refine ⟨first ++ written, happened, ⟨now', ?_⟩, ?_, keeps⟩
  · rw [entries', entries, List.map_append, List.append_assoc]
  · rw [List.filterMap_append, List.filterMap_eq_nil_iff.2 batchless, List.nil_append, told]

/-- The evaluation is over, and everything was served. -/
theorem Closes.batches {before between : Journal} {r : Call × Journal} (closes : call.Closes between r)
    {written : List Event} {happened : List Happening} (dates : before.Dates written between)
    (told : written.filterMap Event.batchCall? = happened.filterMap Happening.batchCall?)
    (served : call.Served segments matchers begun (chronicle ++ happened.map (before.now, ·))) :
    Batches segments matchers begun chronicle before r := by
  obtain ⟨stage, strays, ended, same, more, ⟨now, entries⟩, batchless⟩ := closes
  obtain ⟨now', entries'⟩ := dates
  refine ⟨written ++ more, happened, ⟨now.trans now', ?_⟩, ?_, ?_⟩
  · rw [entries, entries', now', List.map_append, List.append_assoc]
  · rw [List.filterMap_append, List.filterMap_eq_nil_iff.2 batchless, List.append_nil, told]
  · rw [same]
    cases stage with
    | recovering span deadline alarm rest => exact served
    | answered value => exact served
    | _ => exact absurd ended id

/-- The evaluation is over, and nothing was to be done. -/
theorem Closes.batches_of_served {before : Journal} {r : Call × Journal} (closes : call.Closes before r)
    (served : call.Served segments matchers begun chronicle) :
    Batches segments matchers begun chronicle before r := by
  have nothing : ([] : List Event).filterMap Event.batchCall? = ([] : List Happening).filterMap Happening.batchCall? :=
    rfl
  have dates : before.Dates [] before := ⟨rfl, (List.append_nil _).symm⟩
  exact closes.batches dates nothing (by rwa [List.map_nil, List.append_nil])

/-- A pass of a drive that stays on schedule, after which the evaluation may be over. -/
theorem driveOn_batches (span context : Nat) (drive : Drive Evaluation) (scene : Scene) {expr : Expr}
    {journal : Journal} (horizon : Nat) (builds : call.Builds segments matchers (.ok expr))
    (runs : call.Runs expr journal (chronicle ++ (drive.happens scene).map (scene.journal.now, ·)) (drive.pass scene).1
      (drive.pass scene).2.hub)
    (onSchedule : (drive.pass scene).1.OnSchedule (call.scope journal) expr begun horizon scene.journal.now
      (chronicle ++ (drive.happens scene).map (scene.journal.now, ·)) (drive.pass scene).2.hub) :
    Batches segments matchers begun chronicle scene.journal (call.driveOn span context drive scene) := by
  obtain ⟨written, dates, told⟩ := drive.pass_dates scene
  unfold driveOn
  generalize drive.happens scene = happened at runs onSchedule told
  generalize drive.pass scene = r at runs onSchedule dates
  obtain ⟨drive, later⟩ := r
  dsimp only at runs onSchedule dates ⊢
  split
  · rename_i outcome finished _
    have settled : drive.client.progress.isSettled = true := (Bool.and_eq_true_iff.1 finished).1
    rw [flushQueues_of_drained onSchedule.modest.drained]
    let summary : Notice := .segmentEvaluated call.target.name drive.client.session.invocations.length 0
    have noted : later.journal.Adds Event.IsBatchless
        ((later.journal.notice summary).record (.span (.contextReleased context))) := by
      have first : (Event.noticed summary).IsBatchless := rfl
      have second : (Event.span (.contextReleased context)).IsBatchless := rfl
      exact (Adds.record _ first).trans (.record _ second)
    have closes := (conclude_closes { call with strays := later.hub.answerAlarms } span _ outcome).after noted
    exact closes.batches dates told (.inr ⟨expr, journal, drive, later.hub, builds, runs, onSchedule.calls settled⟩)
  · exact ⟨written, happened, dates, told, expr, journal, horizon, builds, runs, onSchedule⟩

variable (loadless : ∀ name matcher, matchers name = some matcher → matcher.Loadless)

include loadless

theorem begins_batches {registry : Registry} (holds : Service.Holds matchers registry) (journal : Journal) :
    let r := call.begins segments registry journal
    Batches segments matchers journal.now [] journal (r.1, r.2.2) := by
  have opens : journal.Adds Event.IsBatchless (preface call.target.name journal) :=
    .recordAll journal (SpanEvent.all_batchless [.started 0 ("segment:" ++ call.target.name) none,
      .attributed journal.spanCount "segment.name" (.string call.target.name), .contextTaken journal.spanCount])
  dsimp only
  rcases call.begins_cases holds journal with ⟨error, builds, refused⟩ | ⟨expr, builds, starts⟩
  · rw [refused]
    have released : (Event.span (.contextReleased journal.contextCount)).IsBatchless := rfl
    have closes := (call.conclude_closes journal.spanCount _ (.error error)).after (opens.trans (.record _ released))
    exact closes.batches_of_served (.inl ⟨error, builds, rfl⟩)
  · rw [starts]
    let started := Evaluation.start (.start (call.scope journal)) expr ⟨.empty, preface call.target.name journal⟩
    have launches : (preface call.target.name journal).Adds Event.IsBatchless started.2.journal :=
      Session.launch_adds (fun _ => rfl) expr _ _
    have adds := opens.trans launches
    have batching : (call.scope journal).batching = true := rfl
    have onSchedule := Drive.onSchedule_first expr batching (builds.leaves_loadless loadless)
      (preface call.target.name journal) started.2.journal adds.now
    let drive := Drive.start started.1
    have fresh : Drive.Run started.1 .empty [] drive .empty := .start
    have runs : call.Runs expr journal ([] ++ (drive.happens started.2).map (started.2.journal.now, ·))
        (drive.pass started.2).1 (drive.pass started.2).2.hub := by
      rw [Runs, map_snd_append]
      exact fresh.pass started.2.journal
    refine (driveOn_batches journal.spanCount journal.contextCount drive started.2 (journal.now + 1) builds runs
      ?_).after adds
    rw [adds.now, List.nil_append]
    exact onSchedule

/-- Every poll of a call keeps it on schedule, whatever others have done with the registry. -/
theorem Keeps.poll {journal : Journal} (keeps : call.Keeps segments matchers begun journal.now chronicle)
    {registry : Registry} (holds : Service.Holds matchers registry) :
    let r := call.poll segments registry journal
    Batches segments matchers begun chronicle journal (r.1, r.2.2) := by
  have stays : Batches segments matchers begun chronicle journal (call, journal) := by
    refine ⟨[], [], ⟨rfl, (List.append_nil _).symm⟩, rfl, ?_⟩
    rwa [List.map_nil, List.append_nil]
  unfold Call.poll
  unfold Keeps at keeps
  cases stage : call.stage with
  | waiting =>
    simp only [stage] at keeps ⊢
    obtain ⟨rfl, rfl⟩ := keeps
    exact begins_batches loadless holds journal
  | driving span context hub drive =>
    simp only [stage] at keeps ⊢
    obtain ⟨expr, begun, horizon, builds, runs, onSchedule⟩ := keeps
    refine driveOn_batches span context drive _ _ builds ?_ (onSchedule.pass rfl (builds.leaves_loadless loadless) rfl)
    rw [Runs, map_snd_append]
    exact Drive.Run.pass runs journal
  | flushing span context hub outcome invocations flush =>
    simp only [stage] at keeps
  | recovering span deadline alarm rest =>
    simp only [stage] at keeps ⊢
    split
    · exact (call.recovered_closes span journal _).batches_of_served keeps
    · exact stays
  | answered value => exact stays

omit loadless in
/-- Time passes while the call sleeps, up to its first alarm. -/
theorem Keeps.advance {now : Nat} (keeps : call.Keeps segments matchers begun now chronicle)
    (asleep : call.awake now = false) {t : Nat} (first : ∀ d ∈ call.alarms, t ≤ d) :
    ∃ happened : List Happening, happened.filterMap Happening.batch? = [] ∧
      (call.advance t).Keeps segments matchers begun t (chronicle ++ happened.map (t, ·)) := by
  obtain ⟨subject, target, fallback, stage, strays⟩ := call
  have stays (served : Served segments matchers begun ⟨subject, target, fallback, stage, strays⟩ chronicle) :
      Served segments matchers begun ⟨subject, target, fallback, stage, strays⟩ (chronicle ++ [].map (t, ·)) := by
    rwa [List.map_nil, List.append_nil]
  cases stage with
  | waiting => cases asleep
  | driving span context hub drive =>
    obtain ⟨expr, journal, horizon, builds, runs, onSchedule⟩ := keeps
    have first : ∀ d ∈ hub.deadlines, t ≤ d := fun d mem => first d (List.mem_append_right _ mem)
    refine ⟨hub.happensBy t, Drive.happensBy_silent (fun _ _ => rfl) hub t, expr, journal, max horizon t, builds, ?_,
      onSchedule.advance asleep first⟩
    rw [Runs, map_snd_append]
    exact Drive.Run.advance runs t
  | flushing span context hub outcome invocations flush => exact absurd keeps id
  | recovering span deadline alarm rest => exact ⟨[], rfl, stays keeps⟩
  | answered value => exact ⟨[], rfl, stays keeps⟩

end

end Call

/-! ### Parties -/

namespace Party

/-- The calls of a party are on schedule since the instant of the first journal, and the journal tells of all that was
called for them. -/
structure Keeps (segments : Keyed SegmentDefinition) (matchers : String → Option Matcher)
    (requests : List (Json × Target × Option Fallback)) (first : Journal) (party : Party) : Prop where
  company : party.Company segments matchers requests first
  calls : ∃ (chronicles : List (List (Nat × Happening))) (written : List (Nat × Event)),
    party.journal.entries = first.entries ++ written ∧
    (Journal.batchCalls written).Perm (chronicles.flatMap batchCalls) ∧
    List.Forall₂ (Call.Keeps segments matchers first.now party.journal.now) party.calls chronicles

variable {segments : Keyed SegmentDefinition} {matchers : String → Option Matcher}
  {requests : List (Json × Target × Option Fallback)} {first : Journal} {party : Party}

theorem Keeps.pollCall (loadless : ∀ name matcher, matchers name = some matcher → matcher.Loadless)
    (keeps : party.Keeps segments matchers requests first) (index : Nat) :
    (party.pollCall index).Keeps segments matchers requests first := by
  refine ⟨keeps.company.pollCall index, ?_⟩
  obtain ⟨company, chronicles, written, entries, told, calls⟩ := keeps
  unfold Party.pollCall
  cases here : party.calls[index]? with
  | none => exact ⟨chronicles, written, entries, told, calls⟩
  | some call =>
    dsimp only
    split
    · exact ⟨chronicles, written, entries, told, calls⟩
    · obtain ⟨chronicle, whose, keeps⟩ := forall₂_getElem? calls here
      have segments_eq := company.segments_eq
      subst segments_eq
      obtain ⟨more, happened, ⟨now, entries'⟩, told', keeps'⟩ := keeps.poll loadless company.holds
      refine ⟨chronicles.set index (chronicle ++ happened.map (party.journal.now, ·)),
        written ++ more.map (party.journal.now, ·), ?_, ?_, ?_⟩
      · rw [entries', entries, List.append_assoc]
      · have grown := flatMap_set_perm whose (batchCalls_append chronicle (happened.map (party.journal.now, ·)))
        have all : Journal.batchCalls (written ++ more.map (party.journal.now, ·)) =
            Journal.batchCalls written ++ batchCalls (happened.map (party.journal.now, ·)) := by
          rw [← batchCalls_eq told']
          exact List.filterMap_append
        rw [all]
        exact (told.append_right _).trans grown.symm
      · rw [now]
        exact forall₂_set calls keeps' index

theorem Keeps.poll (loadless : ∀ name matcher, matchers name = some matcher → matcher.Loadless)
    (keeps : party.Keeps segments matchers requests first) : party.poll.Keeps segments matchers requests first := by
  have polled (turns : List Nat) : (turns.foldl Party.pollCall party).Keeps segments matchers requests first := by
    induction turns generalizing party with
    | nil => exact keeps
    | cons index turns ih => exact ih (keeps.pollCall loadless index)
  have all := polled (Gathering.turns party.calls.length party.woken)
  exact ⟨keeps.company.poll, all.calls⟩

/-- Time passes while all calls sleep, up to their first alarm. -/
theorem keepAll_advance {begun now t : Nat} {calls : List Call} {chronicles : List (List (Nat × Happening))}
    (all : List.Forall₂ (Call.Keeps segments matchers begun now) calls chronicles)
    (asleep : ∀ call ∈ calls, call.awake now = false) (le : ∀ call ∈ calls, ∀ d ∈ call.alarms, t ≤ d) :
    ∃ later, List.Forall₂ (Call.Keeps segments matchers begun t) (calls.map (·.advance t)) later ∧
      later.flatMap batchCalls = chronicles.flatMap batchCalls := by
  induction all with
  | nil => exact ⟨[], .nil, rfl⟩
  | @cons call chronicle calls chronicles keeps rest ih =>
    obtain ⟨happened, silent, keeps⟩ :=
      keeps.advance (asleep call List.mem_cons_self) (le call List.mem_cons_self)
    obtain ⟨later, keep, same⟩ := ih (fun call mem => asleep call (List.mem_cons_of_mem _ mem))
      fun call mem => le call (List.mem_cons_of_mem _ mem)
    refine ⟨_ :: later, .cons keeps keep, ?_⟩
    rw [List.flatMap_cons, List.flatMap_cons, same, batchCalls_append, batchCalls_silent silent, List.append_nil]

theorem Keeps.advance (keeps : party.Keeps segments matchers requests first) (asleep : Machine.awake party = false)
    {t : Nat} (le : ∀ d ∈ party.calls.flatMap Call.alarms, t ≤ d) :
    (Machine.advance t party).Keeps segments matchers requests first := by
  refine ⟨keeps.company.advance t, ?_⟩
  obtain ⟨company, chronicles, written, entries, told, calls⟩ := keeps
  have asleep : ∀ call ∈ party.calls, call.awake party.journal.now = false := by
    simpa [Machine.awake] using asleep
  obtain ⟨later, keep, same⟩ := keepAll_advance calls asleep fun call mem d set =>
    le d (List.mem_flatMap.2 ⟨call, mem, set⟩)
  exact ⟨later, written, entries, same ▸ told, keep⟩

end Party

/-! ### Services -/

/-- What a call was made for, how it was answered, if it was, and what happened to its batches. -/
structure Timesheet where
  request : Json × Target × Option Fallback
  answer : Option Bool
  chronicle : List (Nat × Happening)

namespace Timesheet

/-- The call of a timesheet, before it began. -/
def call (t : Timesheet) : Call := .start t.request.1 t.request.2.1 t.request.2.2

/-- Either no expression could be built, and there was no batch.  Or at every instant the batched evaluators were called
as the schedule of the expression says; only a call that is not answered may have instants that are not over, at which
they were not called yet. -/
def Punctual (segments : Keyed SegmentDefinition) (matchers : String → Option Matcher) (begun : Nat) (isOver : Nat → Prop)
    (t : Timesheet) : Prop :=
  (∃ error, t.call.Builds segments matchers (.error error) ∧ t.chronicle = []) ∨
  ∃ expr journal drive hub, t.call.Builds segments matchers (.ok expr) ∧ t.call.Runs expr journal t.chronicle drive hub ∧
    ∀ matcher instant, expr.Calls t.request.1 begun matcher instant (callsAt t.chronicle matcher instant) ∨
      t.answer = none ∧ ¬ isOver instant ∧ callsAt t.chronicle matcher instant = []

end Timesheet

variable {segments : Keyed SegmentDefinition} {matchers : String → Option Matcher}

/-- An instant is over when a run has ended: all are, unless the run was given up before, or cut short. -/
def Verdict.IsOver (verdict : Verdict) (now instant : Nat) : Prop :=
  match verdict with
  | .finished => True
  | .stalled => True
  | .abandoned => instant ≤ now
  | .exhausted => instant < now

/-- An instant is behind a call: the call is answered, or time has gone on, or the call sleeps beyond it. -/
def Call.IsPast (call : Call) (now instant : Nat) : Prop :=
  call.answer?.isSome ∨ instant < now ∨ call.awake now = false ∧ ∀ d ∈ call.alarms, instant < d

/-- Nothing is missing of what the schedule of a call has for instants that are behind it. -/
theorem Call.Keeps.punctual {begun now : Nat} {isOver : Nat → Prop} {call : Call} {chronicle : List (Nat × Happening)}
    (keeps : call.Keeps segments matchers begun now chronicle) {registry : Registry}
    (holds : Service.Holds matchers registry) (past : ∀ instant, isOver instant → call.IsPast now instant) :
    Timesheet.Punctual segments matchers begun isOver ⟨call.request, call.answer?, chronicle⟩ := by
  obtain ⟨subject, target, fallback, stage, strays⟩ := call
  have ended {answer : Option Bool}
      (served : Call.Served segments matchers begun ⟨subject, target, fallback, stage, strays⟩ chronicle) :
      Timesheet.Punctual segments matchers begun isOver ⟨(subject, target, fallback), answer, chronicle⟩ := by
    rcases served with ⟨error, builds, nothing⟩ | ⟨expr, journal, drive, hub, builds, runs, calls⟩
    · exact .inl ⟨error, builds, nothing⟩
    · exact .inr ⟨expr, journal, drive, hub, builds, runs, fun matcher instant => .inl (calls matcher instant)⟩
  -- what is not over has its calls if the drive has come so far, and else has none
  have upTo {expr : Expr} {horizon : Nat} (served : expr.Served subject begun horizon chronicle)
      (all : ∀ instant, isOver instant → ∀ matcher,
        expr.Calls subject begun matcher instant (callsAt chronicle matcher instant))
      (matcher : String) (instant : Nat) : expr.Calls subject begun matcher instant (callsAt chronicle matcher instant) ∨
        (none : Option Bool) = none ∧ ¬ isOver instant ∧ callsAt chronicle matcher instant = [] := by
    by_cases late : isOver instant
    · exact .inl (all instant late matcher)
    · by_cases early : instant < horizon
      · exact .inl ((served matcher instant).1 early)
      · exact .inr ⟨rfl, late, (served matcher instant).2 (Nat.le_of_not_lt early)⟩
  cases stage with
  | waiting =>
    obtain ⟨rfl, rfl⟩ := keeps
    cases built : (Engine.buildExpr segments registry subject target).1 with
    | error error => exact .inl ⟨error, ⟨registry, holds, built⟩, rfl⟩
    | ok expr =>
      refine .inr ⟨expr, .empty, _, _, ⟨registry, holds, built⟩, .start,
        upTo (expr.served_nil subject now) fun instant late matcher => ?_⟩
      rcases past instant late with answered | early | ⟨asleep, -⟩
      · cases answered
      · exact (expr.served_nil subject now matcher instant).1 early
      · cases asleep
  | driving span context hub drive =>
    obtain ⟨expr, journal, horizon, builds, runs, onSchedule⟩ := keeps
    refine .inr ⟨expr, journal, drive, hub, builds, runs, upTo onSchedule.served fun instant late matcher => ?_⟩
    rcases past instant late with answered | early | ⟨asleep, first⟩
    · cases answered
    · exact (onSchedule.served matcher instant).1 (Nat.lt_of_lt_of_le early onSchedule.clocked.reached)
    · have all := onSchedule.served_until (t := instant + 1) asleep fun d mem => first d (List.mem_append_right _ mem)
      exact (all matcher instant).1 (by omega)
  | flushing span context hub outcome invocations flush => exact absurd keeps id
  | recovering span deadline alarm rest => exact ended keeps
  | answered value => exact ended keeps

theorem timesheets_of_keeps {begun now : Nat} {isOver : Nat → Prop} {registry : Registry}
    (holds : Service.Holds matchers registry) {calls : List Call} {chronicles : List (List (Nat × Happening))}
    (keep : List.Forall₂ (Call.Keeps segments matchers begun now) calls chronicles)
    (past : ∀ call ∈ calls, ∀ instant, isOver instant → call.IsPast now instant) :
    ∃ ts : List Timesheet, ts.map (·.request) = calls.map Call.request ∧ ts.map (·.answer) = calls.map Call.answer? ∧
      ts.flatMap (fun t => batchCalls t.chronicle) = chronicles.flatMap batchCalls ∧
      ∀ t ∈ ts, t.Punctual segments matchers begun isOver := by
  induction keep with
  | nil => exact ⟨[], rfl, rfl, rfl, List.forall_mem_nil _⟩
  | @cons call chronicle calls chronicles keeps rest ih =>
    obtain ⟨ts, requests, answers, told, all⟩ := ih fun call mem => past call (List.mem_cons_of_mem _ mem)
    have punctual := keeps.punctual holds (past call List.mem_cons_self)
    refine ⟨⟨call.request, call.answer?, chronicle⟩ :: ts, ?_, ?_, ?_, List.forall_mem_cons.2 ⟨punctual, all⟩⟩
    · rw [List.map_cons, List.map_cons, requests]
    · rw [List.map_cons, List.map_cons, answers]
    · rw [List.flatMap_cons, List.flatMap_cons, told]

namespace Party

theorem answers_advance (party : Party) (t : Nat) : (Machine.advance t party).answers = party.answers := by
  change (party.calls.map (·.advance t)).map (·.answer?) = party.calls.map (·.answer?)
  rw [List.map_map]
  refine List.map_congr_left fun call _ => ?_
  obtain ⟨subject, target, fallback, stage, strays⟩ := call
  cases stage <;> rfl

/-- The next alarm is no later than those of the calls. -/
theorem le_alarms {b : Beside Party} {t : Nat} (next : Machine.nextAlarm b = some t) :
    ∀ d ∈ b.machine.calls.flatMap Call.alarms, t ≤ d := by
  intro d mem
  have first_of_all : ((b.machine.calls.flatMap Call.alarms).min?.toList ++ b.others).min? = some t := next
  cases own : (b.machine.calls.flatMap Call.alarms).min? with
  | none =>
    rw [List.min?_eq_none_iff.1 own] at mem
    cases mem
  | some first =>
    have le := (List.min?_eq_some_iff.1 own).2 d mem
    have listed : first ∈ (b.machine.calls.flatMap Call.alarms).min?.toList ++ b.others :=
      List.mem_append_left _ (Option.mem_toList.2 own)
    exact Nat.le_trans ((List.min?_eq_some_iff.1 first_of_all).2 first listed) le

theorem no_alarms {b : Beside Party} (none_set : Machine.nextAlarm b = none) :
    b.machine.calls.flatMap Call.alarms = [] := by
  have nothing : (b.machine.calls.flatMap Call.alarms).min?.toList ++ b.others = [] := List.min?_eq_none_iff.1 none_set
  exact List.min?_eq_none_iff.1 (Option.toList_eq_nil_iff.1 (List.append_eq_nil_iff.1 nothing).1)

/-- The last state before a run ends has the answers and the entries of the end, and all that is over is behind it. -/
theorem past_of_stops {last : Beside Party} {final : Verdict × Beside Party} (stops : Machine.Stops last final) :
    final.2.machine.answers = last.machine.answers ∧
      final.2.machine.journal.entries = last.machine.journal.entries ∧
      ∀ call ∈ last.machine.calls, ∀ instant, final.1.IsOver final.2.machine.journal.now instant →
        call.IsPast last.machine.journal.now instant := by
  have asleep (idle : Machine.Idle last) :
      ∀ call ∈ last.machine.calls, call.awake last.machine.journal.now = false := by
    have idle : Machine.awake last.machine = false := idle.2
    simpa [Machine.awake] using idle
  cases stops with
  | finished ended => exact ⟨rfl, rfl, fun call mem _ _ => .inl (List.all_eq_true.1 ended call mem)⟩
  | stalled idle none_set =>
    refine ⟨rfl, rfl, fun call mem instant _ => .inr (.inr ⟨asleep idle call mem, fun d set => ?_⟩)⟩
    have listed : d ∈ last.machine.calls.flatMap Call.alarms := List.mem_flatMap.2 ⟨call, mem, set⟩
    rw [no_alarms none_set] at listed
    cases listed
  | @abandoned idle t limit next late =>
    refine ⟨last.machine.answers_advance limit, rfl, fun call mem instant reached =>
      .inr (.inr ⟨asleep idle call mem, fun d set => ?_⟩)⟩
    have le := le_alarms next d (List.mem_flatMap.2 ⟨call, mem, set⟩)
    exact Nat.lt_of_le_of_lt reached (Nat.lt_of_lt_of_le late le)
  | exhausted => exact ⟨rfl, rfl, fun call _ instant early => .inr (.inl early)⟩

end Party

namespace Service

/-- The calls that are asked, before they begin. -/
theorem keeps_start {service : Service} (holds : Holds matchers service.engine.registry)
    (requests : List (Json × Target × Option Fallback)) :
    (service.engine.party service.journal
        (requests.map fun (subject, target, fallback) => .start subject target fallback)).Keeps
      service.engine.segments matchers requests service.journal := by
  let calls : List Call := requests.map fun (subject, target, fallback) => .start subject target fallback
  refine ⟨company_start holds requests, calls.map fun _ => [], [], (List.append_nil _).symm, ?_, ?_⟩
  · have nothing : (calls.map fun _ => ([] : List (Nat × Happening))).flatMap batchCalls = [] := by
      simp [batchCalls]
    rw [nothing]
    exact .refl _
  · change List.Forall₂ _ calls (calls.map fun _ => [])
    rw [List.forall₂_map_right_iff, List.forall₂_same]
    intro call mem
    obtain ⟨request, -, rfl⟩ := List.mem_map.1 mem
    exact ⟨rfl, rfl⟩

/-- Of calls that run at once each has its batches on schedule, and the journal tells of these batches and of no
others. -/
theorem ask_timesheets {service : Service} (holds : Holds matchers service.engine.registry)
    (loadless : ∀ name matcher, matchers name = some matcher → matcher.Loadless) (moves : Nat) (limit : Option Nat)
    (requests : List (Json × Target × Option Fallback)) :
    let asked := service.ask moves limit
      (requests.map fun (subject, target, fallback) => .start subject target fallback)
    ∃ (ts : List Timesheet) (written : List (Nat × Event)), ts.map (·.request) = requests ∧
      ts.map (·.answer) = asked.2.1 ∧ asked.2.2.journal.entries = service.journal.entries ++ written ∧
      (Journal.batchCalls written).Perm (ts.flatMap fun t => batchCalls t.chronicle) ∧
      ∀ t ∈ ts, t.Punctual service.engine.segments matchers service.journal.now (asked.1.IsOver asked.2.2.journal.now) := by
  intro asked
  let calls : List Call := requests.map fun (subject, target, fallback) => .start subject target fallback
  let begun : Beside Party := ⟨service.engine.party service.journal calls, service.strays⟩
  let kept (b : Beside Party) : Prop := b.machine.Keeps service.engine.segments matchers requests service.journal
  have polls (b : Beside Party) (keeps : kept b) : kept (Machine.poll b) := Party.Keeps.poll loadless keeps
  have waits (b : Beside Party) (t : Nat) (keeps : kept b) (idle : Machine.Idle b)
      (next : Machine.nextAlarm b = some t) : kept (Machine.advance t b) :=
    Party.Keeps.advance keeps idle.2 (Party.le_alarms next)
  obtain ⟨last, keeps, stops⟩ :=
    Machine.runFor_stops polls waits limit moves (polls begun (keeps_start holds requests))
  let final := Machine.run limit moves begun
  have stops : Machine.Stops last final := stops
  have journal_eq : asked.2.2.journal =
      if final.1 = .finished then final.2.machine.journal else final.2.machine.drop := rfl
  have answers_eq : asked.2.1 = final.2.machine.answers := rfl
  have verdict_eq : asked.1 = final.1 := rfl
  obtain ⟨more, ⟨now, entries⟩, batchless⟩ : final.2.machine.journal.Adds Event.IsBatchless asked.2.2.journal := by
    rw [journal_eq]
    split
    · exact .refl _
    · exact final.2.machine.drop_adds.mono fun _ parting => parting.batchless
  obtain ⟨company, chronicles, written, entries', told, calls_keep⟩ := keeps
  obtain ⟨same_answers, same_entries, past⟩ := Party.past_of_stops stops
  rw [← verdict_eq, ← now] at past
  obtain ⟨ts, requests_eq, ts_answers, told', punctual⟩ := timesheets_of_keeps company.holds calls_keep past
  refine ⟨ts, written ++ more.map (final.2.machine.journal.now, ·), requests_eq.trans company.requests_eq, ?_, ?_, ?_,
    punctual⟩
  · rw [answers_eq, same_answers]
    exact ts_answers
  · rw [entries, same_entries, entries', List.append_assoc]
  · have nothing := Journal.batchCalls_silent batchless final.2.machine.journal.now
    have all : Journal.batchCalls (written ++ more.map (final.2.machine.journal.now, ·)) =
        Journal.batchCalls written := by
      rw [Journal.batchCalls, List.filterMap_append]
      exact (congrArg _ nothing).trans (List.append_nil _)
    rw [all, told']
    exact told

/-- Whatever an engine was used for before, and however many calls run at once: as long as no batched evaluator loads
requests of its own, every call whose expression could be built has its batched evaluators called as the schedule of the
expression says.  For each matcher that is one call at every instant at which arguments for it have passed their
validation, with a request of the subject for each key, and at the beginning in the order of the leaves; and no call at
any other instant.  A call that is alone comes to its end, unless it waits for what never comes or is given up. -/
theorem batches_follow_schedules {schema : Schema} {options : Options} {groups : List (List (String × Matcher.Draft))}
    {segments : List (String × SegmentDefinition)} {noted : Journal} {engine : Engine}
    (built : (Engine.build schema options groups segments noted).1 = .ok engine)
    (loadless : ∀ group ∈ groups, ∀ entry ∈ group, entry.2.Loadless) (journal : Journal) (strays : List Nat)
    (history : List Usage) (limit : Option Nat) :
    let service := useAll ⟨engine, journal, strays⟩ history
    (∀ (requests : List (Json × Target × Option Fallback)) (moves : Nat),
      let asked := service.ask moves limit
        (requests.map fun (subject, target, fallback) => .start subject target fallback)
      ∃ (ts : List Timesheet) (written : List (Nat × Event)), ts.map (·.request) = requests ∧
        ts.map (·.answer) = asked.2.1 ∧ asked.2.2.journal.entries = service.journal.entries ++ written ∧
        (Journal.batchCalls written).Perm (ts.flatMap fun t => batchCalls t.chronicle) ∧
        ∀ t ∈ ts, t.Punctual engine.segments engine.registry.matcher? service.journal.now (asked.1.IsOver asked.2.2.journal.now)) ∧
    ∀ (subject : Json) (target : Target) (fallback : Option Fallback), ∃ enough, ∀ moves, enough ≤ moves →
      (service.ask moves limit [.start subject target fallback]).1 ≠ .exhausted := by
  intro service
  obtain ⟨compiled, -, registry_eq⟩ := Engine.registry_of_build built
  have fresh : (⟨engine, journal, strays⟩ : Service).StemsFrom engine :=
    ⟨rfl, registry_eq ▸ Registry.sound_compile _ _, rfl⟩
  have stems : service.StemsFrom engine := fresh.useAll history
  have holds : Holds engine.registry.matcher? service.engine.registry := ⟨stems.sound, stems.matcher?_eq⟩
  have loadless (name : String) (matcher : Matcher) (known : engine.registry.matcher? name = some matcher) :
      matcher.Loadless := by
    obtain ⟨group, listed, draft, mem, drafted⟩ := Engine.drafted_of_build built known
    exact Matcher.Draft.loadless_build (loadless group listed _ mem) drafted
  refine ⟨fun requests moves => ?_, ask_ends holds loadless limit⟩
  have all := ask_timesheets holds loadless moves limit requests
  rwa [stems.segments_eq] at all

/-! A batched matcher that takes some arguments at once, and all of them for one, and some after a while. -/

/-- A schema that takes every truth value for null, and thinks about all else. -/
def thinking : Schema := fun raw => .starts (match raw with
  | .bool _ => .done (.ok (.accepted .null))
  | _ => .sleep 5 (.done (.ok (.accepted raw))))

/-- A batched evaluator that says yes to its first two requests. -/
def agreeing : BatchEvaluator := fun _ _ => .starts (.resolve 0 true (.resolve 1 true (.done (.value ()))))

def pensiveMatchers : List (List (String × Matcher.Draft)) := [[("status", ⟨some thinking, none, some agreeing⟩)]]

def pensiveSegments : List (String × SegmentDefinition) :=
  [("pensive", fun _ => .and [.matcherWith "status" (.int 1), .matcherWith "status" (.bool true),
    .or [.matcherWith "status" (.bool false), .not (.matcherWith "status" (.int 2))]])]

/-- A new engine with this matcher and this segment. -/
def pensiveEngine : Engine :=
  ⟨.any, Keyed.ofList pensiveSegments, .compile [("status", ⟨some thinking, .batch agreeing⟩)] defaultMemoCapacity,
    .default⟩

/-- The two truth values are one request at once; the numbers are two requests that share a batch five ticks later. -/
theorem pensive_requests_share_batches :
    let request : Json × Target × Option Fallback := (.null, .named "pensive", none)
    let asked := (⟨pensiveEngine, .empty, []⟩ : Service).ask 20 none [.start .null (.named "pensive") none]
    ∃ t : Timesheet, t.request = request ∧ t.answer = some true ∧
      (Journal.batchCalls asked.2.2.journal.entries).Perm (batchCalls t.chronicle) ∧
      (Journal.batchCalls asked.2.2.journal.entries).map
          (fun (instant, matcher, args) => (instant, matcher, args.map (Option.map Json.stableKey))) =
        [(0, "status", [some "null"]), (5, "status", [some "1", some "2"])] ∧
      t.Punctual pensiveEngine.segments pensiveEngine.registry.matcher? 0 (asked.1.IsOver asked.2.2.journal.now) := by
  intro request asked
  have built : (Engine.build .any .default pensiveMatchers pensiveSegments .empty).1 = .ok pensiveEngine := rfl
  have loadless : ∀ group ∈ pensiveMatchers, ∀ entry ∈ group, entry.2.Loadless := by
    intro group listed entry mem
    obtain rfl := List.mem_singleton.1 listed
    obtain rfl := List.mem_singleton.1 mem
    rintro _ ⟨⟩ number requests task starts
    obtain rfl := Launch.starts.inj starts
    trivial
  have same : (useAll ⟨pensiveEngine, .empty, []⟩ []).ask 20 none
      ([request].map fun (subject, target, fallback) => .start subject target fallback) = asked := rfl
  obtain ⟨ts, written, requests_eq, answers_eq, entries, told, punctual⟩ :=
    (batches_follow_schedules built loadless .empty [] [] none).1 [request] 20
  rw [same] at answers_eq entries punctual
  obtain ⟨t, rfl, request_eq⟩ := List.map_eq_singleton_iff.1 requests_eq
  have answered : [t.answer] = [some true] := answers_eq.trans (by decide +kernel)
  rw [← entries.trans (List.nil_append written), List.flatMap_singleton] at told
  exact ⟨t, request_eq, List.singleton_inj.1 answered, told, by decide +kernel, punctual t List.mem_cons_self⟩

end Service

end Segmentation
