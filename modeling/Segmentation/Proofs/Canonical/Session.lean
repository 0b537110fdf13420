import Segmentation.Proofs.Canonical.Flight
import Segmentation.Proofs.Past.Session
import Segmentation.Proofs.Settling

/-!
# Evaluations of canonical definitions

An evaluation of discreet matchers goes the same way if its definitions have canonical arguments: at every poll the same
is done with the canonical arguments (`Evaluation.poll_canonical`), and so it is by a drive of one
(`Drive.pass_canonical`).
-/

namespace Segmentation

/-! ### Expressions under evaluation -/

namespace Progress

mutual

noncomputable def canonical : Progress → Progress
  | .leaf invocation seat => .leaf invocation seat
  | .group connective queue pending operands values failure =>
    .group connective queue pending (canonicals operands) values (failure.map Error.canonical)
  | .not operand => .not (canonical operand)
  | .settled outcome => .settled (Outcome.canonical outcome)

noncomputable def canonicals : List Progress → List Progress
  | [] => []
  | p :: ps => canonical p :: canonicals ps

end

theorem canonicals_eq_map (ps : List Progress) : canonicals ps = ps.map canonical := by
  induction ps with
  | nil => rfl
  | cons p ps ih => rw [canonicals, ih, List.map_cons]

@[simp] theorem outcome?_canonical (p : Progress) : p.canonical.outcome? = p.outcome?.map Outcome.canonical := by
  cases p <;> rfl

@[simp] theorem isSettled_canonical (p : Progress) : p.canonical.isSettled = p.isSettled := by simp [isSettled]

mutual

@[simp] theorem due_canonical : (p : Progress) → p.canonical.due = p.due
  | .leaf _ _ => rfl
  | .group _ _ _ ps _ _ => by rw [canonical, due, due, dueOperands_canonicals ps]
  | .not p => due_canonical p
  | .settled _ => rfl

theorem dueOperands_canonicals : (ps : List Progress) → dueOperands (canonicals ps) = dueOperands ps
  | [] => rfl
  | p :: ps => by rw [canonicals, dueOperands, due_canonical p, dueOperands_canonicals ps, dueOperands]

end

mutual

@[simp] theorem seat?_canonical (i : Nat) : (p : Progress) → p.canonical.seat? i = p.seat? i
  | .leaf _ _ => rfl
  | .group _ _ _ ps _ _ => seatAmong?_canonicals i ps
  | .not p => seat?_canonical i p
  | .settled _ => rfl

theorem seatAmong?_canonicals (i : Nat) : (ps : List Progress) → seatAmong? i (canonicals ps) = seatAmong? i ps
  | [] => rfl
  | p :: ps => by rw [canonicals, seatAmong?, seat?_canonical i p, seatAmong?_canonicals i ps, seatAmong?]

end

theorem enqueue_canonicals (i : Nat) (ps : List Progress) (queue : List Nat) :
    enqueue i (canonicals ps) queue = enqueue i ps queue := by
  unfold enqueue
  rw [canonicals_eq_map, List.zipIdx_map, List.filterMap_map]
  simp

mutual

theorem wake_canonical (i : Nat) : (p : Progress) → (p.wake i).canonical = p.canonical.wake i
  | .leaf _ _ => rfl
  | .group _ _ _ ps _ _ => by
    rw [wake, canonical, canonical, wake, enqueue_canonicals, wakeOperands_canonicals i ps]
  | .not p => congrArg Progress.not (wake_canonical i p)
  | .settled _ => rfl

theorem wakeOperands_canonicals (i : Nat) : (ps : List Progress) →
    canonicals (wakeOperands i ps) = wakeOperands i (canonicals ps)
  | [] => rfl
  | p :: ps => by
    rw [wakeOperands, canonicals, wake_canonical i p, wakeOperands_canonicals i ps, canonicals, wakeOperands]

end

theorem wakeAll_canonical (p : Progress) (invocations : List Nat) :
    (p.wakeAll invocations).canonical = p.canonical.wakeAll invocations := by
  induction invocations generalizing p with
  | nil => rfl
  | cons i invocations ih => exact (ih (p.wake i)).trans (congrArg (wakeAll · invocations) (wake_canonical i p))

theorem gather_canonical (collected : List Bool × Option Error) (outcome : Outcome) :
    gather (collected.1, collected.2.map Error.canonical) (Outcome.canonical outcome) =
      ((gather collected outcome).1, (gather collected outcome).2.map Error.canonical) := by
  obtain ⟨values, failure⟩ := collected
  cases outcome with
  | ok value => rfl
  | error error => cases failure <;> rfl

theorem conclude_canonical (c : Connective) (values : List Bool) (failure : Option Error) :
    conclude c values (failure.map Error.canonical) = Outcome.canonical (conclude c values failure) := by
  cases failure <;> rfl

theorem regroup_canonical (c : Connective) (queue pending : List Nat) (ps : List Progress) (values : List Bool)
    (failure : Option Error) :
    regroup c queue pending (canonicals ps) values (failure.map Error.canonical) =
      (regroup c queue pending ps values failure).canonical := by
  have outcomes : (queue.filterMap fun i => (canonicals ps)[i]?.bind outcome?) =
      (queue.filterMap fun i => ps[i]?.bind outcome?).map Outcome.canonical := by
    rw [canonicals_eq_map, List.map_filterMap]
    refine List.filterMap_congr fun i _ => ?_
    rw [List.getElem?_map]
    cases ps[i]? <;> simp
  have gathered (outcomes : List Outcome) (values : List Bool) (failure : Option Error) :
      (outcomes.map Outcome.canonical).foldl gather (values, failure.map Error.canonical) =
        ((outcomes.foldl gather (values, failure)).1,
          (outcomes.foldl gather (values, failure)).2.map Error.canonical) := by
    induction outcomes generalizing values failure with
    | nil => rfl
    | cons outcome outcomes ih =>
      rw [List.map_cons, List.foldl_cons, gather_canonical (values, failure), ih, List.foldl_cons]
  have settled : (canonicals ps).all isSettled = ps.all isSettled := by
    simp [canonicals_eq_map, Function.comp_def]
  have lasting : (queue.filter fun i => (canonicals ps)[i]?.any (!·.isSettled)) =
      queue.filter fun i => ps[i]?.any (!·.isSettled) := by
    refine List.filter_congr fun i _ => ?_
    rw [canonicals_eq_map, List.getElem?_map]
    cases ps[i]? <;> simp
  unfold regroup
  simp only [outcomes, gathered, settled, lasting]
  split
  · simp only [conclude_canonical, canonical]
  · simp only [canonical]

theorem negate_canonical (p : Progress) : negate p.canonical = (negate p).canonical := by
  cases p with
  | settled outcome => cases outcome <;> rfl
  | _ => rfl

mutual

theorem collect_canonical (outcome : Nat → Option Outcome) : (p : Progress) →
    p.canonical.collect (fun i => (outcome i).map Outcome.canonical) = (p.collect outcome).canonical
  | .leaf i seat => by
    simp only [canonical, collect]
    cases outcome i <;> rfl
  | .group c queue pending ps values failure => by
    rw [canonical, collect, collectQueued_canonical outcome queue 0 ps, regroup_canonical, collect]
  | .not p => by rw [canonical, collect, collect_canonical outcome p, negate_canonical, collect]
  | .settled _ => rfl

theorem collectQueued_canonical (outcome : Nat → Option Outcome) (queue : List Nat) : (index : Nat) →
    (ps : List Progress) → collectQueued (fun i => (outcome i).map Outcome.canonical) queue index (canonicals ps) =
      canonicals (collectQueued outcome queue index ps)
  | _, [] => rfl
  | index, p :: ps => by
    rw [canonicals, collectQueued, collect_canonical outcome p, collectQueued_canonical outcome queue (index + 1) ps,
      collectQueued, canonicals]
    split <;> rfl

end

mutual

theorem seats_canonical : (p : Progress) → p.canonical.seats = p.seats
  | .leaf _ _ => rfl
  | .group _ _ _ ps _ _ => by rw [canonical, seats, seats, seatsOfAll_canonicals ps]
  | .not p => seats_canonical p
  | .settled _ => rfl

theorem seatsOfAll_canonicals : (ps : List Progress) → seatsOfAll (canonicals ps) = seatsOfAll ps
  | [] => rfl
  | p :: ps => by rw [canonicals, seatsOfAll, seats_canonical p, seatsOfAll_canonicals ps, seatsOfAll]

end

end Progress

/-! ### Invocations -/

noncomputable def Stage.canonical : Stage → Stage
  | .fresh => .fresh
  | .validating span deadline rest => .validating span deadline (rest.map Checked.canonical)
  | .evaluating span args deadline rest => .evaluating span (args.map Json.canonical) deadline rest
  | .awaiting span load => .awaiting span load
  | .settled outcome => .settled (Outcome.canonical outcome)

namespace Invocation

noncomputable def canonical (invocation : Invocation) : Invocation :=
  { invocation with definition := invocation.definition.canonical, stage := invocation.stage.canonical }

variable (scope : Scope) (definition : Definition) (index span : Nat) (scene : Scene)

theorem opening_canonical : opening scope definition.canonical span = opening scope definition span := by
  obtain ⟨name, args, matcher, serial⟩ := definition
  cases args <;> simp [opening, Definition.canonical]

theorem closing_canonical (outcome : Outcome) : closing span (Outcome.canonical outcome) = closing span outcome := by
  cases outcome <;> simp [closing, Outcome.canonical, Except.mapError]

theorem spanEvents_plain (events : List SpanEvent) : ∀ event ∈ scope.spanEvents events, event.canonical = event := by
  intro event mem
  unfold Scope.spanEvents at mem
  split at mem
  · obtain ⟨_, -, rfl⟩ := List.mem_map.1 mem
    rfl
  · cases mem

theorem judge_canonical (checked : Checked) :
    judge scope definition.name (Checked.canonical checked) =
      (judge scope definition.name checked).map Json.canonical := by
  rcases checked with payload | (value | _ | issues) <;> rfl

theorem verdict_canonical (args : Option Json) (ending : Ending Bool) :
    verdict scope definition.name (args.map Json.canonical) ending =
      Outcome.canonical (verdict scope definition.name args ending) := by
  unfold verdict
  cases ending.contained <;> rfl

theorem settle_canonical (outcome : Outcome) :
    settle scope span (Outcome.canonical outcome) scene.canonical =
      ((settle scope span outcome scene).1.canonical, (settle scope span outcome scene).2.canonical) := by
  have closed := scene.journal.recordAll_plain (spanEvents_plain scope (closing span outcome))
  simp only [settle, closing_canonical, Scene.canonical, closed, Stage.canonical]

theorem evaluated_canonical (args : Option Json) (running : Running (Ending Bool)) :
    evaluated scope definition.canonical index span (args.map Json.canonical) running scene.canonical =
      ((evaluated scope definition index span args running scene).1.canonical,
        (evaluated scope definition index span args running scene).2.canonical) := by
  cases running with
  | ended ending =>
    have noted : (scene.journal.record (.evaluatorEnded definition.name)).canonical =
        scene.journal.canonical.record (.evaluatorEnded definition.name) := scene.journal.record_plain rfl
    simp only [evaluated, Definition.name_canonical, verdict_canonical, Scene.journal_canonical, ← noted]
    exact settle_canonical scope span ⟨scene.hub, scene.journal.record _⟩ _
  | asleep deadline rest => rfl

theorem dispatch_canonical (discreet : definition.matcher.Discreet) (args : Option Json) :
    dispatch scope definition.canonical index span (args.map Json.canonical) scene.canonical =
      ((dispatch scope definition index span args scene).1.canonical,
        (dispatch scope definition index span args scene).2.canonical) := by
  have own := discreet.evaluator
  have evaluator_eq : definition.canonical.matcher.evaluator = definition.matcher.evaluator.canonical := rfl
  unfold dispatch
  rw [evaluator_eq]
  cases evaluator : definition.matcher.evaluator with
  | single evaluate =>
    rw [evaluator] at own
    have called : (scene.journal.record (.invoked definition.name args)).canonical =
        scene.journal.canonical.record (.invoked definition.name (args.map Json.canonical)) :=
      scene.journal.record_canonical _
    have same (number : Nat) : evaluate number ⟨scope.subject, args.map Json.canonical⟩ =
        evaluate number ⟨scope.subject, args⟩ :=
      (own number ⟨scope.subject, args⟩ _ (Request.alike_canonical _)).symm
    simp only [Evaluator.canonical, Definition.name_canonical, Scene.journal_canonical, Journal.invocations_canonical,
      same, ← called]
    exact evaluated_canonical scope definition index span ⟨scene.hub, scene.journal.record _⟩ args _
  | batch evaluate =>
    have requested : (scene.journal.record (.requested definition.name args)).canonical =
        scene.journal.canonical.record (.requested definition.name (args.map Json.canonical)) :=
      scene.journal.record_canonical _
    have key_eq : ((args.map Json.canonical).map Json.stableKey).getD "" = (args.map Json.stableKey).getD "" := by
      cases args <;> simp
    have request_eq : (⟨scope.subject, args.map Json.canonical⟩ : Request) =
        Request.canonical ⟨scope.subject, args⟩ := rfl
    by_cases batching : scope.batching = true
    · simp only [Evaluator.canonical, batching, Bool.not_true, Bool.false_eq_true, if_false, key_eq, request_eq,
        Definition.name_canonical, Scene.canonical, ← Hub.openQueue_canonical, Hub.loadKeyed_canonical,
        Hub.await_canonical, requested]
      rfl
    · simp only [Evaluator.canonical, batching, Bool.not_false, if_true]
      exact settle_canonical scope span scene (.error (.missingBatchContext definition.name scope.segment))

theorem validated_canonical (discreet : definition.matcher.Discreet) (running : Running Checked) :
    validated scope definition.canonical index span (running.map Checked.canonical) scene.canonical =
      ((validated scope definition index span running scene).1.canonical,
        (validated scope definition index span running scene).2.canonical) := by
  cases running with
  | ended checked =>
    simp only [validated, Running.map, Definition.name_canonical, judge_canonical]
    cases judged : judge scope definition.name checked with
    | ok value => exact dispatch_canonical scope definition index span scene discreet (some value)
    | error error =>
      have plain : error.canonical = error := by
        rcases checked with payload | (value | _ | issues) <;> cases judged <;> rfl
      have settled := settle_canonical scope span scene (.error error)
      rw [Outcome.canonical, Except.mapError, plain] at settled
      exact settled
  | asleep deadline rest => rfl

theorem begins_canonical (discreet : definition.matcher.Discreet) :
    begins scope definition.canonical index scene.canonical =
      ((begins scope definition index scene).1.canonical, (begins scope definition index scene).2.canonical) := by
  have opened := scene.journal.recordAll_plain
    (spanEvents_plain scope (opening scope definition scene.journal.spanCount))
  have own := discreet.schema
  unfold begins
  simp only [opening_canonical, Scene.canonical, Journal.spanCount_canonical, ← opened]
  generalize scene.journal.recordAll _ = journal
  simp only [Definition.canonical, Matcher.canonical]
  cases schema_eq : definition.matcher.schema with
  | none => exact dispatch_canonical scope definition index _ ⟨scene.hub, journal⟩ discreet definition.args
  | some schema =>
    cases definition.args with
    | none =>
      exact settle_canonical scope _ ⟨scene.hub, journal⟩
        (.error (scope.argumentError definition.name "no arguments were bound"))
    | some raw =>
      have checked : (journal.record (.argumentChecked definition.name raw)).canonical =
          journal.canonical.record (.argumentChecked definition.name raw.canonical) := journal.record_canonical _
      have started (now : Nat) : (schema.canonical raw.canonical).start now .error =
          ((schema raw).start now .error).map Checked.canonical := by
        rw [(own schema schema_eq).canonical_eq raw]
        exact Launch.start_map Checked.canonical (fun _ => rfl) now (schema raw)
      simp only [Option.map_some, ← checked, started]
      exact validated_canonical scope definition index _ ⟨scene.hub, journal.record _⟩ discreet _

theorem advance_canonical (discreet : definition.matcher.Discreet) (stage : Stage) :
    advance scope definition.canonical index stage.canonical scene.canonical =
      ((advance scope definition index stage scene).1.canonical,
        (advance scope definition index stage scene).2.canonical) := by
  cases stage with
  | fresh => exact begins_canonical scope definition index scene discreet
  | validating span deadline rest =>
    simp only [advance, Stage.canonical, Scene.journal_canonical, Journal.now_canonical, Task.start_map,
      validated_canonical scope definition index span scene discreet]
    split <;> rfl
  | evaluating span args deadline rest =>
    simp only [advance, Stage.canonical, Scene.journal_canonical, Journal.now_canonical, evaluated_canonical]
    split <;> rfl
  | awaiting span load =>
    simp only [advance, Stage.canonical, Scene.hub_canonical, Hub.state_canonical]
    cases scene.hub.state load with
    | waiting => rfl
    | answered value => exact settle_canonical scope span scene (.ok value)
    | lost => exact settle_canonical scope span scene (.error (.unansweredRequest definition.name scope.segment))
  | settled outcome => rfl

theorem drop_canonical (invocation : Invocation) (journal : Journal) :
    invocation.canonical.drop scope journal.canonical = (invocation.drop scope journal).canonical := by
  obtain ⟨definition, stage, seats, vacant⟩ := invocation
  have ended (journal : Journal) (span : Nat) : (journal.recordAll (scope.spanEvents [.ended span])).canonical = _ :=
    journal.recordAll_plain (spanEvents_plain scope _)
  have dropped : (journal.record (.evaluatorDropped definition.name)).canonical = _ := journal.record_plain rfl
  cases stage with
  | fresh => rfl
  | validating span deadline rest => exact (ended journal span).symm
  | evaluating span args deadline rest =>
    have noted := congrArg (fun journal : Journal => journal.recordAll (scope.spanEvents [.ended span])) dropped
    exact ((ended _ span).trans noted).symm
  | awaiting span load => exact (ended journal span).symm
  | settled outcome => rfl

end Invocation

/-! ### Sessions -/

namespace Session

noncomputable def canonical (session : Session) : Session :=
  { session with invocations := session.invocations.map Invocation.canonical }

/-- All matchers of the session are discreet. -/
def Discreet (session : Session) : Prop := ∀ i ∈ session.invocations, i.definition.matcher.Discreet

variable (session : Session) (scene : Scene)

theorem outcome?_canonical (index : Nat) :
    session.canonical.outcome? index = (session.outcome? index).map Outcome.canonical := by
  simp only [outcome?, canonical, List.getElem?_map]
  cases session.invocations[index]? with
  | none => rfl
  | some i =>
    obtain ⟨_, stage, _, _⟩ := i
    cases stage <;> rfl

theorem advance_canonical (discreet : session.Discreet) (index : Nat) :
    session.canonical.advance scene.canonical index =
      ((session.advance scene index).1.canonical, (session.advance scene index).2.canonical) := by
  unfold advance
  simp only [canonical, List.getElem?_map]
  cases found : session.invocations[index]? with
  | none => rfl
  | some i =>
    have advanced := Invocation.advance_canonical session.scope i.definition index scene
      (discreet i (List.mem_of_getElem? found)) i.stage
    simp only [Option.map_some, Invocation.canonical, advanced, List.map_set]

theorem discreet_advance (discreet : session.Discreet) (index : Nat) : (session.advance scene index).1.Discreet := by
  unfold advance
  cases found : session.invocations[index]? with
  | none => exact discreet
  | some i =>
    intro j mem
    rcases List.mem_or_eq_of_mem_set mem with mem | rfl
    · exact discreet j mem
    · exact discreet i (List.mem_of_getElem? found)

theorem discreet_hub_advance (discreet : session.Discreet) (known : scene.hub.Discreet) (index : Nat) :
    (session.advance scene index).2.hub.Discreet := by
  refine all_advance session scene (fun i mem evaluate batched => ?_) known index
  have own := (discreet i mem).evaluator
  rwa [batched] at own

theorem drop_canonical (journal : Journal) : session.canonical.drop journal.canonical = (session.drop journal).canonical := by
  unfold drop canonical
  dsimp only
  induction session.invocations generalizing journal with
  | nil => rfl
  | cons i invocations ih => rw [List.map_cons, List.foldl_cons, Invocation.drop_canonical, ih, List.foldl_cons]

/-! Launching. -/

theorem invocationFor_canonical (definition : Definition) (journal : Journal) :
    session.canonical.invocationFor definition.canonical journal.canonical =
      ((session.invocationFor definition journal).1, (session.invocationFor definition journal).2.1.canonical,
        (session.invocationFor definition journal).2.2.canonical) := by
  have found : session.canonical.invocations.findIdx? (·.definition.key = definition.canonical.key) =
      session.invocations.findIdx? (·.definition.key = definition.key) := by
    simp [canonical, Invocation.canonical, List.findIdx?_map, Function.comp_def]
  unfold invocationFor
  simp only [found]
  cases session.invocations.findIdx? (·.definition.key = definition.key) with
  | none => simp [canonical, Invocation.canonical, Stage.canonical]
  | some index => simp [canonical]

theorem takeSeat_canonical (index : Nat) :
    session.canonical.takeSeat index = ((session.takeSeat index).1, (session.takeSeat index).2.canonical) := by
  unfold takeSeat
  simp only [canonical, List.getElem?_map]
  cases session.invocations[index]? with
  | none => rfl
  | some i =>
    obtain ⟨definition, stage, seats, vacant⟩ := i
    cases vacant <;> simp [Invocation.canonical, List.map_set]

mutual

theorem launch_canonical : (e : Expr) → (session : Session) → (journal : Journal) →
    session.canonical.launch e.canonical journal.canonical =
      ((session.launch e journal).1.canonical, (session.launch e journal).2.1.canonical,
        (session.launch e journal).2.2.canonical)
  | .leaf definition, session, journal => by
    simp only [Expr.canonical, launch, invocationFor_canonical, takeSeat_canonical, Progress.canonical]
  | .and es, session, journal => by
    simp only [Expr.canonical, launch, launchAll_canonical es, Progress.canonical, Progress.canonicals_eq_map,
      List.length_map, Option.map_none]
  | .or es, session, journal => by
    simp only [Expr.canonical, launch, launchAll_canonical es, Progress.canonical, Progress.canonicals_eq_map,
      List.length_map, Option.map_none]
  | .not e, session, journal => by simp only [Expr.canonical, launch, launch_canonical e, Progress.canonical]

theorem launchAll_canonical : (es : List Expr) → (session : Session) → (journal : Journal) →
    session.canonical.launchAll (Expr.canonicals es) journal.canonical =
      (Progress.canonicals (session.launchAll es journal).1, (session.launchAll es journal).2.1.canonical,
        (session.launchAll es journal).2.2.canonical)
  | [], _, _ => rfl
  | e :: es, session, journal => by
    simp only [Expr.canonicals, launchAll, launch_canonical e, launchAll_canonical es, Progress.canonicals]

end

theorem discreet_takeSeat {session : Session} (discreet : session.Discreet) (index : Nat) :
    (session.takeSeat index).2.Discreet := by
  unfold takeSeat
  cases found : session.invocations[index]? with
  | none => exact discreet
  | some i =>
    have own := discreet i (List.mem_of_getElem? found)
    intro j mem
    rcases List.mem_or_eq_of_mem_set mem with mem | rfl
    · exact discreet j mem
    · cases vacant : i.vacant <;> simpa only [vacant] using own

theorem discreet_invocationFor {session : Session} (discreet : session.Discreet) {d : Definition}
    (own : d.matcher.Discreet) (journal : Journal) : (session.invocationFor d journal).2.1.Discreet := by
  unfold invocationFor
  dsimp only
  split
  · exact discreet
  · intro i mem
    rcases List.mem_append.1 mem with mem | mem
    · exact discreet i mem
    · rwa [List.mem_singleton.1 mem]

mutual

/-- Launching discreet matchers gives a session of discreet matchers. -/
theorem discreet_launch : (e : Expr) → (session : Session) → (journal : Journal) → session.Discreet →
    (∀ d ∈ e.leaves, d.matcher.Discreet) → (session.launch e journal).2.1.Discreet
  | .leaf d, _, journal, discreet, own =>
    discreet_takeSeat (discreet_invocationFor discreet (own d (List.mem_singleton_self d)) journal) _
  | .and es, session, journal, discreet, own => discreet_launchAll es session journal discreet own
  | .or es, session, journal, discreet, own => discreet_launchAll es session journal discreet own
  | .not e, session, journal, discreet, own => discreet_launch e session journal discreet own

theorem discreet_launchAll : (es : List Expr) → (session : Session) → (journal : Journal) → session.Discreet →
    (∀ d ∈ Expr.leavesOfAll es, d.matcher.Discreet) → (session.launchAll es journal).2.1.Discreet
  | [], _, _, discreet, _ => discreet
  | e :: es, session, journal, discreet, own =>
    discreet_launchAll es _ _
      (discreet_launch e session journal discreet fun d mem => own d (List.mem_append_left _ mem))
      fun d mem => own d (List.mem_append_right _ mem)

end

end Session

/-! ### Evaluations -/

namespace Evaluation

noncomputable def canonical (evaluation : Evaluation) : Evaluation :=
  ⟨evaluation.session.canonical, evaluation.progress.canonical, evaluation.seen⟩

/-- The evaluation, and the hub at which it waits, know only discreet matchers. -/
def Discreet (evaluation : Evaluation) (hub : Hub) : Prop := evaluation.session.Discreet ∧ hub.Discreet

variable (evaluation : Evaluation) (scene : Scene)

theorem outcome?_canonical : evaluation.canonical.outcome? = evaluation.outcome?.map Outcome.canonical :=
  evaluation.progress.outcome?_canonical

theorem start_canonical (session : Session) (expr : Expr) :
    start session.canonical expr.canonical scene.canonical =
      ((start session expr scene).1.canonical, (start session expr scene).2.canonical) := by
  simp only [start, Scene.journal_canonical, Session.launch_canonical]
  rfl

theorem advanceAll_canonical (due : List Nat) (session : Session) (scene : Scene) (discreet : session.Discreet)
    (known : scene.hub.Discreet) :
    Session.advanceAll due session.canonical scene.canonical =
        ((Session.advanceAll due session scene).1.canonical, (Session.advanceAll due session scene).2.canonical) ∧
      (Session.advanceAll due session scene).1.Discreet ∧ (Session.advanceAll due session scene).2.hub.Discreet := by
  induction due generalizing session scene with
  | nil => exact ⟨rfl, discreet, known⟩
  | cons index due ih =>
    have next := ih (session.advance scene index).1 (session.advance scene index).2
      (session.discreet_advance scene discreet index) (session.discreet_hub_advance scene discreet known index)
    unfold Session.advanceAll at next ⊢
    simp only [List.foldl_cons, session.advance_canonical scene discreet index]
    exact next

theorem poll_canonical (discreet : evaluation.Discreet scene.hub) :
    evaluation.canonical.poll scene.canonical =
      ((evaluation.poll scene).1.canonical, (evaluation.poll scene).2.canonical) := by
  have advanced := (advanceAll_canonical (evaluation.progress.wakeAll (evaluation.news scene.hub)).due
    evaluation.session scene discreet.1 discreet.2).1
  unfold Session.advanceAll at advanced
  have told : evaluation.canonical.progress.wakeAll (evaluation.canonical.news scene.canonical.hub) =
      (evaluation.progress.wakeAll (evaluation.news scene.hub)).canonical :=
    (Progress.wakeAll_canonical _ _).symm
  have session_eq : evaluation.canonical.session = evaluation.session.canonical := rfl
  simp only [poll, told, session_eq, Progress.due_canonical, advanced, funext (Session.outcome?_canonical _),
    Progress.collect_canonical]
  rfl

theorem discreet_poll (discreet : evaluation.Discreet scene.hub) :
    (evaluation.poll scene).1.Discreet (evaluation.poll scene).2.hub :=
  (advanceAll_canonical _ evaluation.session scene discreet.1 discreet.2).2

@[simp] theorem settled_canonical : Client.settled evaluation.canonical = Client.settled evaluation :=
  evaluation.progress.isSettled_canonical

@[simp] theorem stirred_canonical (hub : Hub) :
    Client.stirred evaluation.canonical hub.canonical = Client.stirred evaluation hub := by
  have awaits (i : Nat) : evaluation.progress.canonical.awaits i = evaluation.progress.awaits i := by
    simp [Progress.awaits]
  exact congrArg ((evaluation.news hub).any ·) (funext awaits)

end Evaluation

/-! ### Drives of evaluations -/

namespace Drive

noncomputable def canonical (drive : Drive Evaluation) : Drive Evaluation :=
  { drive with client := drive.client.canonical, flights := drive.flights.map Flight.canonical }

def Discreet (drive : Drive Evaluation) (hub : Hub) : Prop := drive.client.Discreet hub

variable (drive : Drive Evaluation) (scene : Scene)

theorem pollClient_canonical (discreet : drive.Discreet scene.hub) :
    drive.canonical.pollClient scene.canonical =
        ((drive.pollClient scene).1.canonical, (drive.pollClient scene).2.canonical) ∧
      (drive.pollClient scene).1.Discreet (drive.pollClient scene).2.hub := by
  unfold pollClient
  simp only [canonical, Evaluation.settled_canonical]
  by_cases settled : Client.settled drive.client = true
  · simp only [settled, if_true]
    exact ⟨trivial, discreet⟩
  · have polled := drive.client.poll_canonical scene discreet
    simp only [settled, Bool.false_eq_true, if_false, Client.poll, polled, Scene.hub_canonical,
      Evaluation.stirred_canonical]
    exact ⟨trivial, drive.client.discreet_poll scene discreet⟩

theorem pass_canonical (discreet : drive.Discreet scene.hub) :
    drive.canonical.pass scene.canonical = ((drive.pass scene).1.canonical, (drive.pass scene).2.canonical) := by
  obtain ⟨polled, discreet⟩ := drive.pollClient_canonical scene discreet
  unfold pass
  rw [polled]
  generalize drive.pollClient scene = r at discreet ⊢
  obtain ⟨drive, scene⟩ := r
  have taken := discreet.2.of_eq (Hub.evaluators_takeFlights scene.hub)
  have ready := pollReady_canonical (drive.flights ++ scene.hub.takeFlights.1) ⟨scene.hub.takeFlights.2, scene.journal⟩
    taken 0 (drive.ready ++ scene.hub.takeFlights.1.map (·.id))
  simp only [takeBatches, pollFlights, canonical, Scene.canonical, Hub.takeFlights_canonical, List.map_append,
    List.map_map] at ready ⊢
  have ids : (fun flight : Flight => flight.id) ∘ Flight.canonical = (·.id) := rfl
  simp only [ids, ready]

theorem discreet_pass (discreet : drive.Discreet scene.hub) : (drive.pass scene).1.Discreet (drive.pass scene).2.hub := by
  obtain ⟨session, hub⟩ := (drive.pollClient_canonical scene discreet).2
  refine ⟨session, ?_⟩
  have taken := hub.of_eq (Hub.evaluators_takeFlights (drive.pollClient scene).2.hub)
  exact taken.of_eq (evaluators_pollReady _ _ 0 _)

@[simp] theorem finished_canonical : drive.canonical.finished = drive.finished := by simp [finished, canonical]

@[simp] theorem awake_canonical (hub : Hub) : drive.canonical.awake hub.canonical = drive.awake hub := by
  simp [awake, canonical]

theorem advance_canonical (hub : Hub) (now : Nat) :
    drive.canonical.advance hub.canonical now =
      ((drive.advance hub now).1.canonical, (drive.advance hub now).2.canonical) := by
  have rouse_canonical (r : Drive Evaluation × Hub) (alarm : Alarm) :
      rouse (r.1.canonical, r.2.canonical) alarm = ((rouse r alarm).1.canonical, (rouse r alarm).2.canonical) := by
    obtain ⟨_, _, purpose⟩ := alarm
    cases purpose with
    | resumeBatch id => rfl
    | wake waiter => rfl
    | answer load value => simp only [rouse, Hub.goOff_canonical]
  have all (due : List Alarm) (r : Drive Evaluation × Hub) :
      due.foldl rouse (r.1.canonical, r.2.canonical) =
        ((due.foldl rouse r).1.canonical, (due.foldl rouse r).2.canonical) := by
    induction due generalizing r with
    | nil => rfl
    | cons alarm due ih => rw [List.foldl_cons, rouse_canonical, ih, List.foldl_cons]
  rw [advance_eq, advance_eq, Hub.takeDue_canonical]
  exact all _ (drive, _)

theorem discreet_advance {hub : Hub} (discreet : drive.Discreet hub) (now : Nat) :
    (drive.advance hub now).1.Discreet (drive.advance hub now).2 := by
  have all (due : List Alarm) (r : Drive Evaluation × Hub) (discreet : r.1.Discreet r.2) :
      (due.foldl rouse r).1.Discreet (due.foldl rouse r).2 := by
    induction due generalizing r with
    | nil => exact discreet
    | cons alarm due ih =>
      refine ih _ ?_
      obtain ⟨_, _, purpose⟩ := alarm
      cases purpose with
      | resumeBatch id => exact discreet
      | wake waiter => exact ⟨discreet.1, discreet.2.of_eq (Hub.evaluators_goOff _ _)⟩
      | answer load value => exact ⟨discreet.1, discreet.2.of_eq (Hub.evaluators_goOff _ _)⟩
  rw [advance_eq]
  exact all _ (drive, _) discreet

theorem drop_canonical : drive.canonical.drop scene.canonical = (drive.drop scene).canonical :=
  Flight.foldl_drop_canonical drive.flights scene

end Drive

end Segmentation
