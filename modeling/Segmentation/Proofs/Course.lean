import Segmentation.Proofs.Deeds
import Segmentation.Proofs.Independence

/-!
# The course of a call

A call that is polled, and past which time goes, takes its course: it evaluates its expression, tells of an error, asks
the fallback, and answers.  `Call.Course` says for every stage which events the call has written up to then.  Every
poll keeps to it (`Call.Course.poll`), whatever the journal and the registry have become through other calls.
-/

namespace Segmentation

/-! ### Silent events -/

/-- It is nothing for which an invocation is there, and tells nobody of an error. -/
def Event.IsSilent (event : Event) : Prop := event.deed? = none ∧ event.isAppeal = false

theorem silent_of_all {written : List Event} (silent : ∀ event ∈ written, event.IsSilent) :
    deeds written = [] ∧ appeals written = [] := by
  constructor
  · exact List.filterMap_eq_nil_iff.2 fun event mem => (silent event mem).1
  · exact List.filter_eq_nil_iff.2 fun event mem => by simp [(silent event mem).2]

theorem Event.IsBatchNote.silent {event : Event} (note : event.IsBatchNote) : event.IsSilent := by
  cases event with
  | batchInvoked matcher args => exact ⟨rfl, rfl⟩
  | evaluatorEnded matcher => exact ⟨rfl, rfl⟩
  | noticed notice =>
    cases notice with
    | batchFlushed matcher size => exact ⟨rfl, rfl⟩
    | batchFailed matcher size pending error => exact ⟨rfl, rfl⟩
    | _ => exact absurd note id
  | _ => exact absurd note id

namespace Journal

/-- What was written in between tells of no deed, and hands no error to anybody. -/
def Idles (before later : Journal) : Prop :=
  ∃ written, before.Writes written later ∧ deeds written = [] ∧ appeals written = []

theorem Idles.refl {before later : Journal} (same : later.events = before.events) : before.Idles later :=
  ⟨[], writes_nil same, rfl, rfl⟩

theorem Idles.trans {a b c : Journal} (ab : a.Idles b) (bc : b.Idles c) : a.Idles c := by
  obtain ⟨first, writes, idle, quiet⟩ := ab
  obtain ⟨second, writes', idle', quiet'⟩ := bc
  refine ⟨first ++ second, writes.trans writes', ?_, ?_⟩
  · rw [deeds_append, idle, idle', List.append_nil]
  · rw [appeals_append, quiet, quiet', List.append_nil]

theorem Notes.idles {before later : Journal} {happened : List Happening} (notes : before.Notes happened later) :
    before.Idles later := by
  obtain ⟨written, writes, all, -⟩ := notes
  obtain ⟨idle, quiet⟩ := silent_of_all fun event mem => (all event mem).silent
  exact ⟨written, writes, idle, quiet⟩

end Journal

namespace Flush

theorem pollFlights_idles (flights : List Flight) (scene : Scene) :
    scene.journal.Idles (pollFlights flights scene).2.journal := by
  unfold pollFlights
  refine List.foldlRecOn flights _ (motive := fun r : List Flight × Scene => scene.journal.Idles r.2.journal)
    (.refl rfl) fun r idles flight _ => ?_
  exact idles.trans (flight.notes_pollContained r.2).idles

theorem nextRound_idles (flush : Flush) (scene : Scene) :
    scene.journal.Idles (flush.nextRound scene).2.journal := by
  unfold nextRound
  split
  · exact .refl rfl
  · rename_i taken hub _ _
    exact pollFlights_idles taken ⟨hub, scene.journal⟩

theorem pass_idles (flush : Flush) (scene : Scene) : scene.journal.Idles (flush.pass scene).2.journal := by
  have polled := pollFlights_idles flush.flights scene
  unfold pass
  split
  · exact .refl rfl
  · generalize pollFlights flush.flights scene = r at polled
    obtain ⟨flights, later⟩ := r
    cases flights with
    | nil => exact polled.trans (nextRound_idles _ later)
    | cons flight flights => exact polled

end Flush

/-! ### Evaluations -/

namespace Evaluation

/-- The evaluation of an expression with batches and spans, of which the events tell. -/
structure Underway (scope : Scope) (expr : Expr) (log : List Event) (evaluation : Evaluation) : Prop where
  sound : Sound expr evaluation
  performs : evaluation.session.Performs scope expr.leaves log

theorem poll_performs {scope : Scope} {expr : Expr} {log : List Event} {evaluation : Evaluation}
    (performs : evaluation.session.Performs scope expr.leaves log) (scene : Scene) :
    ∃ written, scene.journal.Writes written (evaluation.poll scene).2.journal ∧ appeals written = [] ∧
      (evaluation.poll scene).1.session.Performs scope expr.leaves (log ++ written) :=
  performs.advanceAll (evaluation.progress.wakeAll (evaluation.news scene.hub)).due scene

theorem start_performs (scope : Scope) (batching : scope.batching = true) (traced : scope.parent.isSome)
    {log : List Event} (idle : deeds log = []) (expr : Expr) (scene : Scene) :
    let started := Evaluation.start (.start scope) expr scene
    ∃ written, scene.journal.Writes written started.2.journal ∧ appeals written = [] ∧
      started.1.session.Performs scope expr.leaves (log ++ written) :=
  Session.Performs.launch expr (.start batching traced idle) scene.journal

end Evaluation

namespace Drive

variable {scope : Scope} {expr : Expr} {log : List Event}

theorem pass_performs (drive : Drive Evaluation) (performs : drive.client.session.Performs scope expr.leaves log)
    (scene : Scene) :
    ∃ written, scene.journal.Writes written (drive.pass scene).2.journal ∧ appeals written = [] ∧
      (drive.pass scene).1.client.session.Performs scope expr.leaves (log ++ written) := by
  -- first the evaluation writes, then the batches do
  obtain ⟨polled, writes, quiet, performs⟩ : ∃ written, scene.journal.Writes written (drive.pollClient scene).2.journal ∧
      appeals written = [] ∧ (drive.pass scene).1.client.session.Performs scope expr.leaves (log ++ written) := by
    rw [Evaluation.client_pass]
    have same : Client.settled drive.client = drive.client.progress.isSettled := rfl
    unfold pollClient
    rw [same]
    cases drive.client.progress.isSettled with
    | true =>
      refine ⟨[], Journal.writes_nil rfl, rfl, ?_⟩
      rwa [List.append_nil]
    | false => exact Evaluation.poll_performs performs scene
  obtain ⟨noted, writes', idle, quiet'⟩ := (drive.notes_pass scene).idles
  refine ⟨polled ++ noted, writes.trans writes', ?_, ?_⟩
  · rw [appeals_append, quiet, quiet', List.append_nil]
  · rw [← List.append_assoc]
    exact performs.append idle

/-- A pass keeps an evaluation under way. -/
theorem pass_underway {drive : Drive Evaluation} (underway : drive.client.Underway scope expr log) (scene : Scene) :
    ∃ written, scene.journal.Writes written (drive.pass scene).2.journal ∧ appeals written = [] ∧
      (drive.pass scene).1.client.Underway scope expr (log ++ written) := by
  obtain ⟨written, writes, quiet, performs⟩ := pass_performs drive underway.performs scene
  refine ⟨written, writes, quiet, ?_, performs⟩
  rw [Evaluation.client_pass]
  split
  · exact underway.sound
  · exact underway.sound.poll scene

/-- With its first pass the evaluation of an expression that was launched is under way. -/
theorem first_pass_underway {scene : Scene} {started : Evaluation × Scene}
    (launch : started = Evaluation.start (.start scope) expr scene)
    (performs : started.1.session.Performs scope expr.leaves log) :
    let polled := (Drive.start started.1).pass started.2
    ∃ written, started.2.journal.Writes written polled.2.journal ∧ appeals written = [] ∧
      polled.1.client.Underway scope expr (log ++ written) := by
  subst launch
  obtain ⟨written, writes, quiet, performs⟩ := pass_performs (.start _) performs _
  refine ⟨written, writes, quiet, ?_, performs⟩
  have waits := Evaluation.launched_waits (.start scope) expr scene
  rw [Evaluation.client_pass, if_neg (by simp [Drive.start, waits])]
  exact Evaluation.sound_first (.start scope) expr scene _

end Drive

/-! ### Calls -/

namespace Call

/-- What a call was made for. -/
def request (call : Call) : Json × Target × Option Fallback := (call.subject, call.target, call.fallback)

/-- What a fallback comes to; false if it fails. -/
def rescue (fallback : Fallback) (error : Error) : Bool :=
  match ((fallback [error]).final .panicked).contained with
  | .ok value => value
  | .error _ => false

/-- The answer to an outcome: a value as it is, for an error what the fallback says, and false without one. -/
def verdict (call : Call) : Outcome → Bool
  | .ok value => value
  | .error error =>
    match call.fallback with
    | none => false
    | some fallback => rescue fallback error

/-- What is told of an outcome: the logger and the observer, and then the fallback, of an error. -/
def told (call : Call) : Outcome → List Event
  | .ok _ => []
  | .error error =>
    .errorReported error call.target.name call.subject ::
      match call.fallback with
      | none => []
      | some _ => [.fallbackAsked [error]]

section

variable (segments : Keyed SegmentDefinition) (matchers : String → Option Matcher)

/-- The expression of the call, or the error, as it is built while the registry has these matchers. -/
def Builds (call : Call) (built : Except Error Expr) : Prop :=
  ∃ registry, Service.Holds matchers registry ∧
    (Engine.buildExpr segments registry call.subject call.target).1 = built

/-- The evaluation of a call is over with an outcome. -/
def Concluded (call : Call) (log : List Event) (outcome : Outcome) : Prop :=
  (∃ error, call.Builds segments matchers (.error error) ∧ deeds log = [] ∧ outcome = .error error) ∨
  ∃ (begun : Journal) (expr : Expr) (evaluation : Evaluation), call.Builds segments matchers (.ok expr) ∧
    evaluation.Underway (call.scope begun) expr log ∧ evaluation.outcome? = some outcome

/-- What a call has written, by the stage that it has got to. -/
def Course (call : Call) (log : List Event) : Prop :=
  match call.stage with
  | .waiting => log = []
  | .driving _ _ _ drive =>
    ∃ begun expr, call.Builds segments matchers (.ok expr) ∧ drive.client.Underway (call.scope begun) expr log ∧
      appeals log = []
  | .flushing _ _ _ outcome _ _ => call.Concluded segments matchers log outcome ∧ appeals log = []
  | .recovering _ _ _ rest => ∃ error fallback, call.Concluded segments matchers log (.error error) ∧
      call.fallback = some fallback ∧ rest.final = (fallback [error]).final .panicked ∧
      appeals log = call.told (.error error)
  | .answered value => ∃ outcome, call.Concluded segments matchers log outcome ∧ value = call.verdict outcome ∧
      appeals log = call.told outcome

variable {segments matchers}

theorem Concluded.append {call : Call} {log written : List Event} {outcome : Outcome}
    (concluded : call.Concluded segments matchers log outcome) (idle : deeds written = []) :
    call.Concluded segments matchers (log ++ written) outcome := by
  rcases concluded with ⟨error, builds, nothing, rfl⟩ | ⟨begun, expr, evaluation, builds, underway, ended⟩
  · exact .inl ⟨error, builds, by rw [deeds_append, nothing, idle, List.append_nil], rfl⟩
  · exact .inr ⟨begun, expr, evaluation, builds, ⟨underway.sound, underway.performs.append idle⟩, ended⟩

/-- A step of a call: what is written, and that it keeps to its course. -/
def Steps (segments : Keyed SegmentDefinition) (matchers : String → Option Matcher) (call : Call) (log : List Event)
    (before : Journal) (r : Call × Journal) : Prop :=
  ∃ written, before.Writes written r.2 ∧ r.1.Course segments matchers (log ++ written) ∧ r.1.request = call.request

theorem Steps.after {call : Call} {log first : List Event} {before between : Journal} {r : Call × Journal}
    (writes : before.Writes first between) (steps : Steps segments matchers call (log ++ first) between r) :
    Steps segments matchers call log before r := by
  obtain ⟨written, writes', course, same⟩ := steps
  exact ⟨first ++ written, writes.trans writes', by rwa [← List.append_assoc], same⟩

variable {call : Call} {log : List Event}

theorem finish_steps (span : Nat) {outcome : Outcome} (concluded : call.Concluded segments matchers log outcome)
    (told : appeals log = call.told outcome) (journal : Journal) :
    Steps segments matchers call log journal (call.finish span (call.verdict outcome) journal) := by
  refine ⟨_, Journal.writes_recordAll _ _, ⟨outcome, concluded.append rfl, rfl, ?_⟩, rfl⟩
  rw [appeals_append, told]
  exact List.append_nil _

theorem recovered_steps (span : Nat) {error : Error} {fallback : Fallback}
    (concluded : call.Concluded segments matchers log (.error error)) (asked : call.fallback = some fallback)
    {running : Running (Ending Bool)} (comes : running.final = (fallback [error]).final .panicked)
    (told : appeals log = call.told (.error error)) (journal : Journal) :
    Steps segments matchers call log journal (call.recovered span running journal) := by
  cases running with
  | asleep deadline rest =>
    refine ⟨[], Journal.writes_nil rfl, ?_, rfl⟩
    rw [List.append_nil]
    exact ⟨error, fallback, concluded, asked, comes, told⟩
  | ended ending =>
    have comes : ending = (fallback [error]).final .panicked := comes
    have verdict : call.verdict (.error error) = rescue fallback error := by rw [Call.verdict, asked]
    simp only [recovered]
    cases contained : ending.contained with
    | ok value =>
      have value_eq : call.verdict (.error error) = value := by rw [verdict, rescue, ← comes, contained]
      have finished := finish_steps span concluded told journal
      rwa [value_eq] at finished
    | error cause =>
      have value_eq : call.verdict (.error error) = false := by rw [verdict, rescue, ← comes, contained]
      have noted := Journal.writes_notice journal (.fallbackFailed call.target.name cause.message)
      refine Steps.after noted ?_
      have concluded : call.Concluded segments matchers
          (log ++ [.noticed (.fallbackFailed call.target.name cause.message)]) (.error error) := concluded.append rfl
      have told : appeals (log ++ [.noticed (.fallbackFailed call.target.name cause.message)]) =
          call.told (.error error) := by
        rw [appeals_append, told]
        exact List.append_nil _
      rw [← value_eq]
      exact finish_steps span concluded told _

/-- An outcome that was not told of yet is told as it has to be, and answered. -/
theorem conclude_steps (span : Nat) {outcome : Outcome} (concluded : call.Concluded segments matchers log outcome)
    (quiet : appeals log = []) (journal : Journal) :
    Steps segments matchers call log journal (call.conclude span outcome journal) := by
  cases outcome with
  | ok value =>
    have noted := Journal.writes_record journal (.span (.statusSet span ⟨.ok, none⟩))
    refine Steps.after noted (finish_steps span (concluded.append rfl) ?_ _)
    rw [appeals_append, quiet]
    rfl
  | error error =>
    have noted := Journal.writes_recordAll journal ((SpanEvent.ofError span error).map .span)
    have reported := Journal.writes_record (journal.recordAll ((SpanEvent.ofError span error).map .span))
      (.errorReported error call.target.name call.subject)
    refine Steps.after noted (Steps.after reported ?_)
    have concluded : call.Concluded segments matchers (log ++ (SpanEvent.ofError span error).map .span ++
        [.errorReported error call.target.name call.subject]) (.error error) := (concluded.append rfl).append rfl
    have told_sofar : appeals (log ++ (SpanEvent.ofError span error).map .span ++
        [.errorReported error call.target.name call.subject]) = [.errorReported error call.target.name call.subject] := by
      rw [appeals_append, appeals_append, quiet]
      rfl
    simp only [conclude]
    cases asked : call.fallback with
    | none =>
      have verdict : call.verdict (.error error) = false := by rw [Call.verdict, asked]
      rw [← verdict]
      exact finish_steps span concluded (by rw [told_sofar, Call.told, asked]) _
    | some fallback =>
      have appealed := Journal.writes_record ((journal.recordAll ((SpanEvent.ofError span error).map .span)).record
        (.errorReported error call.target.name call.subject)) (.fallbackAsked [error])
      refine Steps.after appealed ?_
      refine recovered_steps span (concluded.append rfl) asked (Launch.final_start _ _ _) ?_ _
      rw [appeals_append, told_sofar, Call.told, asked]
      rfl

theorem flushQueues_steps (span context : Nat) {outcome : Outcome} (invocations : Nat) (flush : Flush) (scene : Scene)
    (concluded : call.Concluded segments matchers log outcome) (quiet : appeals log = []) :
    Steps segments matchers call log scene.journal
      (call.flushQueues span context outcome invocations flush scene) := by
  obtain ⟨noted, writes, idle, silent⟩ := flush.pass_idles scene
  have concluded := concluded.append idle
  have quiet : appeals (log ++ noted) = [] := by rw [appeals_append, quiet, silent, List.append_nil]
  refine Steps.after writes ?_
  unfold flushQueues
  generalize flush.pass scene = r
  obtain ⟨flush, later⟩ := r
  dsimp only
  split
  · have told := Journal.writes_notice later.journal (.segmentEvaluated call.target.name invocations flush.flushed)
    have released := Journal.writes_record
      (later.journal.notice (.segmentEvaluated call.target.name invocations flush.flushed))
      (.span (.contextReleased context))
    refine Steps.after told (Steps.after released ?_)
    have unchanged : ({ call with strays := later.hub.answerAlarms } : Call).Concluded segments matchers
        (log ++ noted ++ [.noticed (.segmentEvaluated call.target.name invocations flush.flushed)] ++
          [.span (.contextReleased context)]) outcome := (concluded.append rfl).append rfl
    refine conclude_steps span unchanged ?_ _
    rw [appeals_append, appeals_append, quiet]
    rfl
  · refine ⟨[], Journal.writes_nil rfl, ?_, rfl⟩
    rw [List.append_nil]
    exact ⟨concluded, quiet⟩

/-- A pass of a drive, after which the evaluation may be over. -/
theorem driveOn_steps (span context : Nat) {drive : Drive Evaluation} {scene : Scene} {begun : Journal} {expr : Expr}
    (builds : call.Builds segments matchers (.ok expr)) {written : List Event}
    (writes : scene.journal.Writes written (drive.pass scene).2.journal)
    (underway : (drive.pass scene).1.client.Underway (call.scope begun) expr (log ++ written)) (quiet : appeals (log ++ written) = []) :
    Steps segments matchers call log scene.journal (call.driveOn span context drive scene) := by
  refine Steps.after writes ?_
  unfold driveOn
  generalize drive.pass scene = r at underway
  obtain ⟨drive, later⟩ := r
  dsimp only
  split
  · rename_i outcome _ ended
    have concluded : call.Concluded segments matchers (log ++ written) outcome :=
      .inr ⟨begun, expr, drive.client, builds, underway, ended⟩
    exact flushQueues_steps span context _ _ later concluded quiet
  · refine ⟨[], Journal.writes_nil rfl, ?_, rfl⟩
    rw [List.append_nil]
    exact ⟨begun, expr, builds, underway, quiet⟩

/-- A call that begins tells its span, and then is refused or starts to evaluate what it has built. -/
theorem begins_cases {registry : Registry} (holds : Service.Holds matchers registry) (journal : Journal) :
    let r := call.begins segments registry journal
    let opened := preface call.target.name journal
    (∃ error, call.Builds segments matchers (.error error) ∧ (r.1, r.2.2) =
      call.conclude journal.spanCount (.error error) (opened.record (.span (.contextReleased journal.contextCount)))) ∨
    ∃ expr, call.Builds segments matchers (.ok expr) ∧
      let started := Evaluation.start (.start (call.scope journal)) expr ⟨.empty, opened⟩
      (r.1, r.2.2) = call.driveOn journal.spanCount journal.contextCount (.start started.1) started.2 := by
  unfold begins
  dsimp only
  cases build : Engine.buildExpr segments registry call.subject call.target with
  | mk built later =>
    have builds : call.Builds segments matchers built := ⟨registry, holds, by rw [build]⟩
    cases built with
    | error error => exact .inl ⟨error, builds, rfl⟩
    | ok expr => exact .inr ⟨expr, builds, rfl⟩

theorem begins_steps {registry : Registry} (holds : Service.Holds matchers registry) (journal : Journal) :
    let r := call.begins segments registry journal
    Steps segments matchers call [] journal (r.1, r.2.2) := by
  obtain ⟨opened, opens, idle, silent⟩ : ∃ opened, journal.Writes opened (preface call.target.name journal) ∧
      deeds opened = [] ∧ appeals opened = [] := ⟨_, Journal.writes_recordAll _ _, rfl, rfl⟩
  dsimp only
  rcases call.begins_cases holds journal with ⟨error, builds, refused⟩ | ⟨expr, builds, starts⟩
  · rw [refused]
    have released := Journal.writes_record (preface call.target.name journal)
      (.span (.contextReleased journal.contextCount))
    refine Steps.after opens (Steps.after released (conclude_steps _ (.inl ⟨error, builds, ?_, rfl⟩) ?_ _))
    · rw [List.nil_append, deeds_append, idle]
      rfl
    · rw [List.nil_append, appeals_append, silent]
      rfl
  · rw [starts]
    obtain ⟨launched, launches, launch_quiet, performs⟩ := Evaluation.start_performs (call.scope journal) rfl rfl
      idle expr ⟨.empty, preface call.target.name journal⟩
    obtain ⟨written, writes, quiet, underway⟩ := Drive.first_pass_underway rfl performs
    refine Steps.after opens (Steps.after launches (driveOn_steps _ _ builds writes underway ?_))
    rw [List.nil_append, appeals_append, appeals_append, silent, launch_quiet, quiet]
    rfl

/-- Every poll of a call keeps to its course, whatever others have done with the registry and the journal. -/
theorem Course.poll (course : call.Course segments matchers log) {registry : Registry}
    (holds : Service.Holds matchers registry) (journal : Journal) :
    let r := call.poll segments registry journal
    Steps segments matchers call log journal (r.1, r.2.2) := by
  have stays : Steps segments matchers call log journal (call, journal) := by
    refine ⟨[], Journal.writes_nil rfl, ?_, rfl⟩
    rwa [List.append_nil]
  unfold Call.poll
  unfold Course at course
  cases stage : call.stage with
  | waiting =>
    simp only [stage] at course ⊢
    rw [course]
    exact begins_steps holds journal
  | driving span context hub drive =>
    simp only [stage] at course ⊢
    obtain ⟨begun, expr, builds, underway, quiet⟩ := course
    obtain ⟨written, writes, silent, underway⟩ := Drive.pass_underway underway ⟨hub, journal⟩
    refine driveOn_steps span context builds writes underway ?_
    rw [appeals_append, quiet, silent, List.append_nil]
  | flushing span context hub outcome invocations flush =>
    simp only [stage] at course ⊢
    exact flushQueues_steps span context invocations flush ⟨hub, journal⟩ course.1 course.2
  | recovering span deadline alarm rest =>
    simp only [stage] at course ⊢
    obtain ⟨error, fallback, concluded, asked, comes, told⟩ := course
    split
    · exact recovered_steps span concluded asked ((Task.final_start _ _).trans comes) told journal
    · exact stays
  | answered value => exact stays

theorem Course.advance (course : call.Course segments matchers log) (now : Nat) :
    (call.advance now).Course segments matchers log := by
  obtain ⟨subject, target, fallback, stage, strays⟩ := call
  cases stage with
  | driving span context hub drive =>
    obtain ⟨begun, expr, builds, underway, quiet⟩ := course
    have same := Evaluation.client_advance drive hub now
    exact ⟨begun, expr, builds, by rwa [← same] at underway, quiet⟩
  | _ => exact course

omit segments matchers in
theorem request_advance (call : Call) (now : Nat) : (call.advance now).request = call.request := by
  obtain ⟨subject, target, fallback, stage, strays⟩ := call
  cases stage <;> rfl

end

end Call

end Segmentation
