import Segmentation.Proofs.Resolvers
import Segmentation.Proofs.Past.Launch

/-!
# What is done within an instant

A poll takes no time.  What it writes is written at the instant at which the clock stands (`Journal.Adds`); the alarms
that were set stay set, and those who were woken stay woken (`Scene.Stands`).  Apart from the batches in flight nobody
calls a batched evaluator.
-/

namespace Segmentation

open Journal (Adds)

/-- It does not tell of a call of a batched evaluator. -/
def Event.IsBatchless (event : Event) : Prop := event.batchCall? = none

/-- Spans are no calls. -/
theorem SpanEvent.all_batchless (events : List SpanEvent) : ∀ event ∈ events.map Event.span, event.IsBatchless := by
  intro event mem
  obtain ⟨_, -, rfl⟩ := List.mem_map.1 mem
  rfl

theorem Scope.spanEvents_batchless (scope : Scope) (events : List SpanEvent) :
    ∀ event ∈ scope.spanEvents events, event.IsBatchless := by
  unfold spanEvents
  split
  · exact SpanEvent.all_batchless events
  · exact List.forall_mem_nil _

namespace Scene

/-- Only such events were written, all at the same instant; no alarm went off, and nobody's waking was forgotten. -/
structure Stands (P : Event → Prop) (before later : Scene) : Prop where
  journal : before.journal.Adds P later.journal
  alarms : before.hub.alarms ⊆ later.hub.alarms
  woken : before.hub.woken <+: later.hub.woken

namespace Stands

variable {P : Event → Prop}

theorem of_hub {before later : Scene} (journal : before.journal.Adds P later.journal)
    (alarms : later.hub.alarms = before.hub.alarms) (woken : before.hub.woken <+: later.hub.woken) :
    before.Stands P later := ⟨journal, alarms ▸ List.Subset.refl _, woken⟩

/-- The hub is left alone. -/
theorem of_journal {before : Scene} {journal : Journal} (adds : before.journal.Adds P journal) :
    before.Stands P { before with journal } := .of_hub adds rfl List.prefix_rfl

theorem refl (scene : Scene) : scene.Stands P scene := .of_journal (.refl _)

theorem record (scene : Scene) {event : Event} (allowed : P event) :
    scene.Stands P { scene with journal := scene.journal.record event } := .of_journal (.record _ allowed)

theorem trans {a b c : Scene} (ab : a.Stands P b) (bc : b.Stands P c) : a.Stands P c :=
  ⟨ab.journal.trans bc.journal, List.Subset.trans ab.alarms bc.alarms, ab.woken.trans bc.woken⟩

theorem setAlarm (scene : Scene) (deadline : Nat) (purpose : Purpose) :
    scene.Stands P (scene.setAlarm deadline purpose) :=
  ⟨.of_eq rfl rfl, fun _ mem => (Alarm.insert_perm _ _).mem_iff.2 (List.mem_cons_of_mem _ mem), List.prefix_rfl⟩

/-- An alarm that is set is among the alarms. -/
theorem mem_setAlarm (scene : Scene) (deadline : Nat) (purpose : Purpose) :
    ⟨deadline, scene.journal.alarms, purpose⟩ ∈ (scene.setAlarm deadline purpose).hub.alarms :=
  (Alarm.insert_perm _ _).mem_iff.2 List.mem_cons_self

end Stands

end Scene

open Scene (Stands)

/-! ### Batches -/

/-- Whoever is woken by something is woken after the others. -/
theorem Hub.Follows.prefix_woken {before later : Hub} (follows : before.Follows later) :
    before.woken <+: later.woken := by
  obtain ⟨more, woken, -⟩ := follows.woken
  exact ⟨more, woken.symm⟩

theorem Hub.releaseAll_stands (scene : Scene) (loads : List Load) {journal : Journal} {P : Event → Prop}
    (adds : scene.journal.Adds P journal) : scene.Stands P ⟨scene.hub.releaseAll loads, journal⟩ :=
  .of_hub adds (alarms_releaseAll _ _) (releaseAll_follows _ _).prefix_woken

namespace BatchTask

theorem run_stands (matcher : String) (tickets : List Nat) (task : BatchTask) (scene : Scene) :
    scene.Stands (fun _ => True) (task.run matcher tickets scene).2 := by
  induction task generalizing scene with
  | done ending => exact .refl _
  | sleep ticks rest ih =>
    cases ticks with
    | zero => exact ih scene
    | succ ticks => exact .refl _
  | resolve entry value rest ih =>
    refine Stands.trans ?_ (ih _)
    split
    · exact .of_hub (.refl _) (Hub.alarms_resolve _ _ _) (Hub.resolve_follows _ _ _).prefix_woken
    · exact .refl _
  | resolveLater ticks entry value rest ih =>
    refine Stands.trans ?_ (ih _)
    split
    · rename_i target _
      have retained : scene.Stands (fun _ => True) { scene with hub := scene.hub.retain target } :=
        .of_hub (.refl _) rfl List.prefix_rfl
      exact retained.trans (Stands.setAlarm _ _ _)
    · exact .refl _
  | keep entry rest ih =>
    refine Stands.trans ?_ (ih _)
    split
    · exact .of_hub (.refl _) rfl List.prefix_rfl
    · exact .refl _
  | loadInto peer request rest ih =>
    refine Stands.trans ?_ (ih _)
    exact .of_hub (.refl _) rfl List.prefix_rfl

end BatchTask

namespace Flight

variable (flight : Flight) (scene : Scene)

theorem called_stands : scene.Stands (fun _ => True) (flight.called scene) := by
  have announced : scene.Stands (fun _ => True) (flight.announce scene) := by
    unfold announce
    split
    · exact .record _ trivial
    · exact .refl _
  unfold called
  split
  · exact announced.trans (.record _ trivial)
  · exact announced

theorem advance_stands : scene.Stands (fun _ => True) (flight.advance (flight.announce scene)).2 := by
  have noted (r : FlightProgress × Scene) : r.2.Stands (fun _ => True) (flight.noteEnd r).2 := by
    obtain ⟨progress, scene⟩ := r
    cases progress with
    | asleep deadline rest => exact .refl _
    | ended ending => exact .record _ trivial
  rw [advance_eq]
  refine Stands.trans ?_ (noted _)
  cases flight.next scene with
  | panics payload => exact flight.called_stands scene
  | starts task => exact (flight.called_stands scene).trans (task.run_stands _ _ _)

theorem landContained_stands (ending : Ending Unit) :
    scene.Stands (fun _ => True) (flight.landContained ending scene) := by
  unfold landContained
  cases ending.contained with
  | ok value => exact Hub.releaseAll_stands scene _ (.refl _)
  | error cause =>
    have answered : scene.Stands (fun _ => True) { scene with hub := (scene.hub.resolveAll flight.loads false).2 } :=
      .of_hub (.refl _) (Hub.alarms_resolveAll _ _ _) (Hub.resolveAll_follows _ _ _).prefix_woken
    exact answered.trans (Hub.releaseAll_stands _ _ (.record _ trivial))

theorem pollContained_stands : scene.Stands (fun _ => True) (flight.pollContained scene).2 := by
  have advanced := flight.advance_stands scene
  unfold pollContained
  split
  · exact .refl _
  · generalize flight.advance (flight.announce scene) = r at advanced ⊢
    obtain ⟨progress, later⟩ := r
    cases progress with
    | asleep deadline rest => exact advanced.trans (.setAlarm _ _ _)
    | ended ending => exact advanced.trans (flight.landContained_stands later ending)

end Flight

namespace Drive

theorem pollFlight_stands (flights : List Flight) (scene : Scene) (id : Nat) :
    scene.Stands (fun _ => True) (pollFlight flights scene id).2 := by
  rcases pollFlight_scene_cases flights scene id with same | ⟨flight, -, polled⟩
  · rw [same]
    exact .refl _
  · rw [polled]
    exact flight.pollContained_stands scene

theorem pollReady_stands (flights : List Flight) (polled : Nat) (ready : List Nat) (scene : Scene) :
    scene.Stands (fun _ => True) (pollReady flights polled ready scene).2.2 := by
  induction ready generalizing flights polled scene with
  | nil => exact .refl _
  | cons id ready ih => exact (pollFlight_stands flights scene id).trans (ih _ _ _)

/-- What follows the poll of the client in a pass. -/
theorem pass_stands {κ : Type} [Client κ] (drive : Drive κ) (scene : Scene) :
    (drive.pollClient scene).2.Stands (fun _ => True) (drive.pass scene).2 := by
  let polled := (drive.pollClient scene).2
  have taken : polled.Stands (fun _ => True) { polled with hub := polled.hub.takeFlights.2 } :=
    .of_hub (.refl _) polled.hub.takeFlights_spec.2 (polled.hub.takeFlights_same.1 ▸ List.prefix_rfl)
  exact taken.trans (pollReady_stands _ _ _ _)

end Drive

/-! ### Evaluations -/

namespace Invocation

variable (scope : Scope) (definition : Definition) (index span : Nat)

theorem settle_stands (outcome : Outcome) (scene : Scene) :
    scene.Stands Event.IsBatchless (settle scope span outcome scene).2 :=
  .of_journal (.recordAll _ (scope.spanEvents_batchless _))

theorem evaluated_stands (args : Option Json) (running : Running (Ending Bool)) (scene : Scene) :
    scene.Stands Event.IsBatchless (evaluated scope definition index span args running scene).2 := by
  cases running with
  | ended ending =>
    have noted : (Event.evaluatorEnded definition.name).IsBatchless := rfl
    exact (Stands.record scene noted).trans (settle_stands scope span _ _)
  | asleep deadline rest => exact .setAlarm _ _ _

theorem dispatch_stands (args : Option Json) (scene : Scene) :
    scene.Stands Event.IsBatchless (dispatch scope definition index span args scene).2 := by
  unfold dispatch
  split
  · have called : (Event.invoked definition.name args).IsBatchless := rfl
    exact (Stands.record scene called).trans (evaluated_stands scope definition index span args _ _)
  · rename_i evaluate _
    split
    · exact settle_stands scope span _ scene
    · have opened : (scene.hub.openQueue definition.name evaluate).alarms = scene.hub.alarms ∧
          (scene.hub.openQueue definition.name evaluate).woken = scene.hub.woken := by
        unfold Hub.openQueue
        split <;> exact ⟨rfl, rfl⟩
      exact .of_hub (.record _ rfl) opened.1 (opened.2 ▸ List.prefix_rfl)

theorem validated_stands (running : Running Checked) (scene : Scene) :
    scene.Stands Event.IsBatchless (validated scope definition index span running scene).2 := by
  unfold validated
  split
  · split
    · exact dispatch_stands scope definition index span _ scene
    · exact settle_stands scope span _ scene
  · exact .setAlarm _ _ _

theorem begins_stands (scene : Scene) :
    scene.Stands Event.IsBatchless (begins scope definition index scene).2 := by
  have opened : scene.Stands Event.IsBatchless { scene with
      journal := scene.journal.recordAll (scope.spanEvents (opening scope definition scene.journal.spanCount)) } :=
    .of_journal (.recordAll _ (scope.spanEvents_batchless _))
  unfold begins
  dsimp only
  split
  · rename_i schema raw _ _
    have asked : (Event.argumentChecked definition.name raw).IsBatchless := rfl
    exact opened.trans ((Stands.record _ asked).trans (validated_stands scope definition index _ _ _))
  · exact opened.trans (settle_stands scope _ _ _)
  · exact opened.trans (dispatch_stands scope definition index _ _ _)

theorem advance_stands (stage : Stage) (scene : Scene) :
    scene.Stands Event.IsBatchless (advance scope definition index stage scene).2 := by
  unfold advance
  split
  · exact begins_stands scope definition index scene
  · split
    · exact .refl _
    · exact validated_stands scope definition index _ _ scene
  · split
    · exact .refl _
    · exact evaluated_stands scope definition index _ _ _ scene
  · split
    · exact .refl _
    · exact settle_stands scope _ _ scene
    · exact settle_stands scope _ _ scene
  · exact .refl _

end Invocation

namespace Session

theorem advance_stands (session : Session) (scene : Scene) (index : Nat) :
    scene.Stands Event.IsBatchless (session.advance scene index).2 := by
  unfold advance
  cases session.invocations[index]? with
  | none => exact .refl _
  | some invocation => exact Invocation.advance_stands ..

variable {P : Event → Prop}

theorem invocationFor_adds (notices : ∀ notice, P (.noticed notice)) (session : Session) (definition : Definition)
    (journal : Journal) : journal.Adds P (session.invocationFor definition journal).2.2 := by
  unfold invocationFor
  dsimp only
  split
  · exact .record _ (notices _)
  · exact .refl _

mutual

/-- Launching gives notices only. -/
theorem launch_adds (notices : ∀ notice, P (.noticed notice)) : (expr : Expr) → (session : Session) →
    (journal : Journal) → journal.Adds P (session.launch expr journal).2.2
  | .leaf d, session, journal => invocationFor_adds notices session d journal
  | .and es, session, journal => launchAll_adds notices es session journal
  | .or es, session, journal => launchAll_adds notices es session journal
  | .not e, session, journal => launch_adds notices e session journal

theorem launchAll_adds (notices : ∀ notice, P (.noticed notice)) : (exprs : List Expr) → (session : Session) →
    (journal : Journal) → journal.Adds P (session.launchAll exprs journal).2.2
  | [], _, _ => .refl _
  | e :: es, session, journal => (launch_adds notices e session journal).trans (launchAll_adds notices es _ _)

end

end Session

theorem Evaluation.poll_stands (evaluation : Evaluation) (scene : Scene) :
    scene.Stands Event.IsBatchless (evaluation.poll scene).2 := by
  let polled (r : Session × Scene) : Prop := scene.Stands Event.IsBatchless r.2
  refine List.foldlRecOn (motive := polled) _ _ (Stands.refl _) fun r stands index _ => ?_
  exact Stands.trans stands (r.1.advance_stands r.2 index)

theorem Drive.pollClient_stands (drive : Drive Evaluation) (scene : Scene) :
    scene.Stands Event.IsBatchless (drive.pollClient scene).2 := by
  unfold pollClient
  split
  · exact .refl _
  · exact drive.client.poll_stands scene

namespace Happening

/-- The call of a batched evaluator that happened, as a journal tells of it. -/
def batchCall? (happening : Happening) : Option (String × List (Option Json)) :=
  happening.batch?.map fun (_, matcher, requests) => (matcher, requests.map (·.args))

theorem filterMap_batchCall? (happened : List Happening) : happened.filterMap batchCall? =
    (happened.filterMap batch?).map fun (_, matcher, requests) => (matcher, requests.map (·.args)) :=
  (List.map_filterMap ..).symm

end Happening

/-- A pass writes at its instant, and tells of the calls of batched evaluators that happened. -/
theorem Drive.pass_dates (drive : Drive Evaluation) (scene : Scene) :
    ∃ written, scene.journal.Dates written (drive.pass scene).2.journal ∧
      written.filterMap Event.batchCall? = (drive.happens scene).filterMap Happening.batchCall? := by
  obtain ⟨first, ⟨now, entries⟩, batchless⟩ := (drive.pollClient_stands scene).journal
  obtain ⟨noted, writes, -, calls⟩ := drive.notes_pass scene
  obtain ⟨now', entries'⟩ := (drive.pass_stands scene).journal.dates writes
  refine ⟨first ++ noted, ⟨now'.trans now, ?_⟩, ?_⟩
  · rw [entries', entries, now, List.map_append, List.append_assoc]
  · rw [List.filterMap_append, List.filterMap_eq_nil_iff.2 batchless, List.nil_append, calls,
      Happening.filterMap_batchCall?]

end Segmentation
