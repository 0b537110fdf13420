import Segmentation.Engine.Call
import Segmentation.Proofs.Canonical.Session

/-!
# Calls of canonical expressions

Beyond the expression that is built for it a call knows nothing of the registry (`Call.go`).  With canonical arguments
it goes the same way, as long as matchers and fallbacks are discreet: every poll gives the same answer, and writes the
same with canonical arguments (`Call.go_canonical`).
-/

namespace Segmentation

/-- The fallback cannot tell apart errors that differ in arguments with one stable key. -/
def Fallback.Discreet (fallback : Fallback) : Prop :=
  ∀ errors errors' : List Error, errors.map Error.canonical = errors'.map Error.canonical →
    fallback errors = fallback errors'

noncomputable def CallStage.canonical : CallStage → CallStage
  | .driving span context hub drive => .driving span context hub.canonical drive.canonical
  | .flushing span context hub outcome invocations flush =>
    .flushing span context hub.canonical (Outcome.canonical outcome) invocations flush.canonical
  | stage => stage

/-- The evaluation under way knows only discreet matchers. -/
def CallStage.Discreet : CallStage → Prop
  | .driving _ _ hub drive => drive.Discreet hub
  | .flushing _ _ hub _ _ _ => hub.Discreet
  | _ => True

namespace Call

noncomputable def canonical (call : Call) : Call := { call with stage := call.stage.canonical }

/-- What the call is given is discreet: its fallback, and the matchers of the evaluation under way. -/
structure Discreet (call : Call) : Prop where
  fallback : ∀ fallback, call.fallback = some fallback → fallback.Discreet
  stage : call.stage.Discreet

variable (call : Call) (span context : Nat)

@[simp] theorem subject_canonical : call.canonical.subject = call.subject := rfl

@[simp] theorem target_canonical : call.canonical.target = call.target := rfl

@[simp] theorem fallback_canonical : call.canonical.fallback = call.fallback := rfl

@[simp] theorem strays_canonical : call.canonical.strays = call.strays := rfl

@[simp] theorem stage_canonical : call.canonical.stage = call.stage.canonical := rfl

@[simp] theorem answer?_canonical : call.canonical.answer? = call.answer? := by
  obtain ⟨_, _, _, stage, _⟩ := call
  cases stage <;> rfl

/-! ### Polls -/

theorem finish_canonical (value : Bool) (journal : Journal) :
    call.canonical.finish span value journal.canonical =
      ((call.finish span value journal).1.canonical, (call.finish span value journal).2.canonical) := by
  have told := @Journal.recordAll_plain journal
    [.span (.attributed span "segment.result" (.bool value)), .span (.ended span)] (by simp [Event.canonical])
  simp only [finish, told]
  rfl

theorem recovered_canonical (running : Running (Ending Bool)) (journal : Journal) :
    call.canonical.recovered span running journal.canonical =
      ((call.recovered span running journal).1.canonical, (call.recovered span running journal).2.canonical) := by
  cases running with
  | asleep deadline rest => rfl
  | ended ending =>
    simp only [recovered]
    cases ending.contained with
    | ok value => exact call.finish_canonical span value journal
    | error cause =>
      have finished := call.finish_canonical span false
        (journal.notice (.fallbackFailed call.target.name cause.message))
      rw [Journal.notice_canonical] at finished
      exact finished

theorem conclude_canonical (discreet : call.Discreet) (outcome : Outcome) (journal : Journal) :
    call.canonical.conclude span (Outcome.canonical outcome) journal.canonical =
      ((call.conclude span outcome journal).1.canonical, (call.conclude span outcome journal).2.canonical) := by
  cases outcome with
  | ok value =>
    have finished := call.finish_canonical span value (journal.record (.span (.statusSet span ⟨.ok, none⟩)))
    rw [Journal.record_plain _ rfl] at finished
    exact finished
  | error error =>
    let told := journal.recordAll ((SpanEvent.ofError span error).map .span)
    let reported := told.record (.errorReported error call.target.name call.subject)
    have told_eq : journal.canonical.recordAll ((SpanEvent.ofError span error).map .span) = told.canonical := by
      refine (journal.recordAll_plain fun event mem => ?_).symm
      obtain ⟨_, -, rfl⟩ := List.mem_map.1 mem
      rfl
    have reported_eq : told.canonical.record (.errorReported error.canonical call.target.name call.subject) =
        reported.canonical :=
      (told.record_canonical (.errorReported error call.target.name call.subject)).symm
    simp only [conclude, Outcome.canonical, Except.mapError, SpanEvent.ofError_canonical, told_eq, target_canonical,
      subject_canonical, reported_eq, fallback_canonical]
    cases given : call.fallback with
    | none => exact call.finish_canonical span false reported
    | some fallback =>
      have asked : reported.canonical.record (.fallbackAsked [error.canonical]) =
          (reported.record (.fallbackAsked [error])).canonical :=
        (reported.record_canonical (.fallbackAsked [error])).symm
      have same : fallback [error.canonical] = fallback [error] := discreet.fallback fallback given _ _ (by simp)
      simp only [asked, same, Journal.now_canonical]
      exact call.recovered_canonical span _ _

theorem flushQueues_canonical (discreet : call.Discreet) (outcome : Outcome) (invocations : Nat) (flush : Flush)
    (scene : Scene) (known : scene.hub.Discreet) :
    call.canonical.flushQueues span context (Outcome.canonical outcome) invocations flush.canonical scene.canonical =
      ((call.flushQueues span context outcome invocations flush scene).1.canonical,
        (call.flushQueues span context outcome invocations flush scene).2.canonical) := by
  unfold flushQueues
  simp only [flush.pass_canonical scene known]
  obtain ⟨⟨flights, flushed, finished⟩, scene⟩ := flush.pass scene
  cases finished with
  | false => rfl
  | true =>
    let later : Call := { call with strays := scene.hub.answerAlarms }
    have discreet : later.Discreet := ⟨discreet.fallback, discreet.stage⟩
    let noted := scene.journal.notice (.segmentEvaluated call.target.name invocations flushed)
    have concluded := later.conclude_canonical span discreet outcome
      (noted.record (.span (.contextReleased context)))
    rw [Journal.record_plain _ rfl, Journal.notice_canonical] at concluded
    simp only [Flush.canonical, if_true, Scene.hub_canonical, Hub.answerAlarms_canonical]
    exact concluded

theorem driveOn_canonical (discreet : call.Discreet) (drive : Drive Evaluation) (scene : Scene)
    (known : drive.Discreet scene.hub) :
    call.canonical.driveOn span context drive.canonical scene.canonical =
      ((call.driveOn span context drive scene).1.canonical, (call.driveOn span context drive scene).2.canonical) := by
  have passed_discreet := drive.discreet_pass scene known
  unfold driveOn
  simp only [drive.pass_canonical scene known]
  generalize drive.pass scene = r at passed_discreet ⊢
  obtain ⟨drive, scene⟩ := r
  have same_outcome : drive.canonical.client.outcome? = drive.client.outcome?.map Outcome.canonical :=
    drive.client.outcome?_canonical
  have same_number : drive.canonical.client.session.invocations.length = drive.client.session.invocations.length :=
    List.length_map _
  simp only [Drive.finished_canonical, same_outcome, same_number]
  cases drive.finished with
  | false => rfl
  | true =>
    cases drive.client.outcome? with
    | none => rfl
    | some outcome =>
      exact call.flushQueues_canonical span context discreet outcome _ .start scene passed_discreet.2

/-- A poll, given what is built for the call if it begins. -/
def go (built : Except Error Expr) (journal : Journal) : Call × Journal :=
  match call.stage with
  | .waiting =>
    let span := journal.spanCount
    let context := journal.contextCount
    let name := call.target.name
    let journal := journal.recordAll
      [.span (.started 0 ("segment:" ++ name) none), .span (.attributed span "segment.name" (.string name)),
        .span (.contextTaken span)]
    match built with
    | .error error => call.conclude span (.error error) (journal.record (.span (.contextReleased context)))
    | .ok expr =>
      let session := Session.start ⟨call.subject, name, true, 0, some (.taken context)⟩
      let (evaluation, scene) := Evaluation.start session expr ⟨.empty, journal⟩
      call.driveOn span context (.start evaluation) scene
  | .driving span context hub drive => call.driveOn span context drive ⟨hub, journal⟩
  | .flushing span context hub outcome invocations flush =>
    call.flushQueues span context outcome invocations flush ⟨hub, journal⟩
  | .recovering span deadline _ rest =>
    if deadline ≤ journal.now then call.recovered span (rest.start journal.now) journal else (call, journal)
  | .answered _ => (call, journal)

/-- The registry is changed by building the expression, and by nothing else. -/
theorem poll_eq_go (segments : Keyed SegmentDefinition) (registry : Registry) (journal : Journal) :
    let built := Engine.buildExpr segments registry call.subject call.target
    (call.poll segments registry journal).1 = (call.go built.1 journal).1 ∧
      (call.poll segments registry journal).2.2 = (call.go built.1 journal).2 := by
  unfold poll go
  cases call.stage with
  | waiting =>
    simp only [begins]
    generalize Engine.buildExpr segments registry call.subject call.target = built
    obtain ⟨_ | expr, registry⟩ := built <;> exact ⟨rfl, rfl⟩
  | recovering span deadline alarm rest =>
    dsimp only
    split <;> exact ⟨rfl, rfl⟩
  | _ => exact ⟨rfl, rfl⟩

theorem go_canonical (discreet : call.Discreet) (built : Except Error Expr)
    (known : ∀ expr, built = .ok expr → ∀ d ∈ expr.leaves, d.matcher.Discreet) (journal : Journal) :
    call.canonical.go ((built.map Expr.canonical).mapError Error.canonical) journal.canonical =
      ((call.go built journal).1.canonical, (call.go built journal).2.canonical) := by
  have own := discreet.stage
  unfold go
  rw [stage_canonical]
  cases stage : call.stage with
  | waiting =>
    have opened := @Journal.recordAll_plain journal
      [.span (.started 0 ("segment:" ++ call.target.name) none),
        .span (.attributed journal.spanCount "segment.name" (.string call.target.name)),
        .span (.contextTaken journal.spanCount)] (by simp [Event.canonical])
    simp only [CallStage.canonical, target_canonical, subject_canonical, Journal.spanCount_canonical,
      Journal.contextCount_canonical, ← opened]
    generalize journal.recordAll _ = opening
    cases built with
    | error error =>
      have concluded := call.conclude_canonical journal.spanCount discreet (.error error)
        (opening.record (.span (.contextReleased journal.contextCount)))
      rw [Journal.record_plain _ rfl] at concluded
      exact concluded
    | ok expr =>
      let session := Session.start ⟨call.subject, call.target.name, true, 0, some (.taken journal.contextCount)⟩
      have started : Evaluation.start session expr.canonical ⟨.empty, opening.canonical⟩ = _ :=
        Evaluation.start_canonical ⟨.empty, opening⟩ session expr
      have fresh : session.Discreet := fun i mem => by cases mem
      have launched : (Evaluation.start session expr ⟨.empty, opening⟩).1.Discreet .empty :=
        ⟨Session.discreet_launch expr session opening fresh (known expr rfl), fun q mem => by cases mem⟩
      simp only [Except.map, Except.mapError]
      rw [show (Session.start ⟨call.subject, call.target.name, true, 0, some (.taken journal.contextCount)⟩) = session
        from rfl, started]
      exact call.driveOn_canonical journal.spanCount journal.contextCount discreet
        (.start (Evaluation.start session expr ⟨.empty, opening⟩).1) _ launched
  | driving span context hub drive =>
    rw [stage] at own
    exact call.driveOn_canonical span context discreet drive ⟨hub, journal⟩ own
  | flushing span context hub outcome invocations flush =>
    rw [stage] at own
    exact call.flushQueues_canonical span context discreet outcome invocations flush ⟨hub, journal⟩ own
  | recovering span deadline alarm rest =>
    simp only [CallStage.canonical, Journal.now_canonical, call.recovered_canonical span]
    split <;> rfl
  | answered value => rfl

/-! ### Discreet calls stay discreet -/

namespace Discreet

variable {call : Call} (discreet : call.Discreet)

include discreet

theorem recovered (running : Running (Ending Bool)) (journal : Journal) :
    (call.recovered span running journal).1.Discreet := by
  unfold Call.recovered
  split
  · exact ⟨discreet.fallback, trivial⟩
  · split <;> exact ⟨discreet.fallback, trivial⟩

theorem conclude (outcome : Outcome) (journal : Journal) : (call.conclude span outcome journal).1.Discreet := by
  unfold Call.conclude
  split
  · exact ⟨discreet.fallback, trivial⟩
  · dsimp only
    split
    · exact ⟨discreet.fallback, trivial⟩
    · exact discreet.recovered span _ _

theorem flushQueues (outcome : Outcome) (invocations : Nat) (flush : Flush) (scene : Scene)
    (known : scene.hub.Discreet) : (call.flushQueues span context outcome invocations flush scene).1.Discreet := by
  unfold Call.flushQueues
  dsimp only
  split
  · have later : Call.Discreet { call with strays := (flush.pass scene).2.hub.answerAlarms } :=
      ⟨discreet.fallback, discreet.stage⟩
    exact later.conclude span outcome _
  · exact ⟨discreet.fallback, known.of_eq (Flush.evaluators_pass flush scene)⟩

theorem driveOn (drive : Drive Evaluation) (scene : Scene) (known : drive.Discreet scene.hub) :
    (call.driveOn span context drive scene).1.Discreet := by
  have passed := drive.discreet_pass scene known
  unfold Call.driveOn
  dsimp only
  split
  · exact discreet.flushQueues span context _ _ .start _ passed.2
  · exact ⟨discreet.fallback, passed⟩

theorem go (built : Except Error Expr) (known : ∀ expr, built = .ok expr → ∀ d ∈ expr.leaves, d.matcher.Discreet)
    (journal : Journal) : (call.go built journal).1.Discreet := by
  have own := discreet.stage
  unfold Call.go
  cases stage : call.stage with
  | waiting =>
    cases built with
    | error error => exact discreet.conclude _ _ _
    | ok expr =>
      refine discreet.driveOn _ _ _ _ ⟨Session.discreet_launch expr _ _ (fun i mem => ?_) (known expr rfl), ?_⟩
      · cases mem
      · intro q mem
        cases mem
  | driving span context hub drive =>
    rw [stage] at own
    exact discreet.driveOn span context drive ⟨hub, journal⟩ own
  | flushing span context hub outcome invocations flush =>
    rw [stage] at own
    exact discreet.flushQueues span context outcome invocations flush ⟨hub, journal⟩ own
  | recovering span deadline alarm rest =>
    dsimp only
    split
    · exact discreet.recovered span _ journal
    · exact discreet
  | answered value => exact discreet

theorem advance (now : Nat) : (call.advance now).Discreet := by
  obtain ⟨fallback, own⟩ := discreet
  obtain ⟨_, _, _, stage, _⟩ := call
  cases stage with
  | driving span context hub drive => exact ⟨fallback, drive.discreet_advance own now⟩
  | flushing span context hub outcome invocations flush =>
    exact ⟨fallback, Hub.All.of_eq own (Hub.evaluators_advance hub now)⟩
  | _ => exact ⟨fallback, trivial⟩

end Discreet

/-! ### Alarms, and being dropped -/

@[simp] theorem awake_canonical (now : Nat) : call.canonical.awake now = call.awake now := by
  obtain ⟨_, _, _, stage, _⟩ := call
  cases stage with
  | driving span context hub drive => exact drive.awake_canonical hub
  | flushing span context hub outcome invocations flush => exact flush.awake_canonical now
  | _ => rfl

@[simp] theorem alarms_canonical : call.canonical.alarms = call.alarms := by
  obtain ⟨_, _, _, stage, _⟩ := call
  cases stage <;> rfl

@[simp] theorem leftovers_canonical : call.canonical.leftovers = call.leftovers := by
  obtain ⟨_, _, _, stage, _⟩ := call
  cases stage <;> rfl

@[simp] theorem firstRousing_canonical (now : Nat) : call.canonical.firstRousing now = call.firstRousing now := by
  obtain ⟨_, _, _, stage, _⟩ := call
  cases stage with
  | driving span context hub drive => exact hub.firstRousing_canonical now
  | flushing span context hub outcome invocations flush => exact hub.firstRousing_canonical now
  | _ => rfl

theorem advance_canonical (now : Nat) : call.canonical.advance now = (call.advance now).canonical := by
  obtain ⟨_, _, _, stage, _⟩ := call
  cases stage with
  | driving span context hub drive =>
    simp only [advance, canonical, CallStage.canonical, drive.advance_canonical hub now]
  | flushing span context hub outcome invocations flush =>
    simp only [advance, canonical, CallStage.canonical, hub.advance_canonical now]
  | _ => rfl

theorem drop_canonical (journal : Journal) : call.canonical.drop journal.canonical = (call.drop journal).canonical := by
  have ends (journal : Journal) (span context : Nat) :
      (journal.recordAll [.span (.contextReleased context), .span (.ended span)]).canonical =
        journal.canonical.recordAll [.span (.contextReleased context), .span (.ended span)] :=
    journal.recordAll_plain (by simp [Event.canonical])
  obtain ⟨_, _, _, stage, _⟩ := call
  cases stage with
  | driving span context hub drive =>
    have dropped := drive.drop_canonical ⟨hub, journal⟩
    have left := drive.client.session.drop_canonical (drive.drop ⟨hub, journal⟩).journal
    simp only [drop, ends, ← left, ← Scene.journal_canonical, ← dropped]
    rfl
  | flushing span context hub outcome invocations flush =>
    simp only [drop, ends, ← Scene.journal_canonical, ← flush.drop_canonical ⟨hub, journal⟩]
    rfl
  | recovering span deadline alarm rest => exact (journal.record_plain rfl).symm
  | _ => rfl

end Call

end Segmentation
