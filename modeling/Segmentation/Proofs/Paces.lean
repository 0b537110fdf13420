import Segmentation.Proofs.Batching
import Segmentation.Proofs.Yields

/-!
# How long invocations take

An invocation begins with all the others, has its argument validated for as long as its schema takes, and then its single
evaluator takes as long as it takes.  Whoever sleeps has an alarm set for the very instant at which it goes on, so
nobody is ever late (`Stage.Timed`), and the single evaluators are called when the validations end (`Definition.calls`).
A poll keeps it so (`Evaluation.Alert.poll`).
-/

namespace Segmentation

/-! ### Calls of single evaluators -/

/-- The call of a single evaluator that an event tells of. -/
def Event.call? : Event → Option (String × Option Json)
  | .invoked matcher args => some (matcher, args)
  | _ => none

/-- The calls of single evaluators of which a journal tells, with their instants. -/
def Journal.calls (entries : List (Nat × Event)) : List (Nat × String × Option Json) :=
  entries.filterMap fun (instant, event) => event.call?.map (instant, ·)

@[simp] theorem Journal.calls_append (entries more : List (Nat × Event)) :
    calls (entries ++ more) = calls entries ++ calls more := List.filterMap_append

/-- What is written at one instant tells of calls at that instant. -/
theorem Journal.calls_map (written : List Event) (now : Nat) :
    calls (written.map (now, ·)) = (written.filterMap Event.call?).map (now, ·) := by
  rw [calls, List.filterMap_map, List.map_filterMap]
  rfl

theorem SpanEvent.filterMap_call? (events : List SpanEvent) : (events.map Event.span).filterMap Event.call? = [] := by
  rw [List.filterMap_map, List.filterMap_eq_nil_iff]
  exact fun _ _ => rfl

theorem Scope.filterMap_call?_spanEvents (scope : Scope) (events : List SpanEvent) :
    (scope.spanEvents events).filterMap Event.call? = [] := by
  unfold spanEvents
  split
  · exact SpanEvent.filterMap_call? events
  · rfl

/-- The call of the single evaluator that an invocation makes when its argument was accepted, if it began with all the
others. -/
def Definition.calls (begun : Nat) (definition : Definition) : List (Nat × String × Option Json) :=
  if definition.matcher.isBatched then []
  else (definition.admitted.map (begun + definition.delay, definition.name, ·)).toList

/-- What is judged to be right is admitted. -/
theorem Definition.admitted_of_judged {scope : Scope} {definition : Definition} {args : Option Json}
    (right : definition.judged scope = .ok args) : definition.admitted = some args := by
  unfold judged at right
  unfold admitted
  cases takes : definition.matcher.schema with
  | none =>
    rw [takes] at right
    exact congrArg some (Except.ok.inj right)
  | some schema =>
    cases bound : definition.args with
    | none =>
      rw [takes, bound] at right
      cases right
    | some raw =>
      rcases Invocation.judge_eq scope definition takes bound with ⟨value, accepts, admits⟩ | ⟨error, refuses, -⟩
      · rw [takes, bound] at right
        simp only [accepts] at right
        rw [admitted, takes, bound] at admits
        exact admits.trans (congrArg some (Except.ok.inj right))
      · rw [takes, bound] at right
        simp only [refuses] at right
        cases right

/-- What is judged to be wrong is not admitted. -/
theorem Definition.admitted_of_refused {scope : Scope} {definition : Definition} {error : Error}
    (wrong : definition.judged scope = .error error) : definition.admitted = none := by
  unfold judged at wrong
  cases takes : definition.matcher.schema with
  | none =>
    rw [takes] at wrong
    cases wrong
  | some schema =>
    cases bound : definition.args with
    | none => rw [admitted, takes, bound]
    | some raw =>
      rcases Invocation.judge_eq scope definition takes bound with ⟨value, accepts, -⟩ | ⟨error, -, refused⟩
      · rw [takes, bound] at wrong
        simp only [accepts] at wrong
        cases wrong
      · exact refused

/-! ### Stages -/

namespace Stage

/-- The instant until which an invocation sleeps. -/
def deadline? : Stage → Option Nat
  | .validating _ deadline _ => some deadline
  | .evaluating _ _ deadline _ => some deadline
  | _ => none

/-- The calls that an invocation at some stage has made. -/
def calls (begun : Nat) (definition : Definition) : Stage → List (Nat × String × Option Json)
  | .fresh => []
  | .validating _ _ _ => []
  | _ => definition.calls begun

/-- Nobody is late.  Whoever sleeps does so until now at the least, and takes as long as it has to; who has an outcome
has taken its time; and the outcome is what the schema, or the single evaluator, comes to. -/
def Timed (scope : Scope) (definition : Definition) (begun now : Nat) : Stage → Prop
  | .fresh => begun = now
  | .validating _ deadline rest => now ≤ deadline ∧ deadline + rest.delay = begun + definition.delay ∧
      ∃ schema raw, definition.matcher.schema = some schema ∧ definition.args = some raw ∧
        rest.final = (schema raw).final .error
  | .evaluating _ args deadline rest => now ≤ deadline ∧ definition.judged scope = .ok args ∧ ∃ evaluate count,
      definition.matcher.evaluator = .single evaluate ∧
      rest.final = (evaluate count ⟨scope.subject, args⟩).final .panicked ∧
      deadline + rest.delay = begun + definition.delay + (evaluate count ⟨scope.subject, args⟩).delay
  | .awaiting _ _ => begun + definition.delay ≤ now ∧ ∃ args evaluate, definition.judged scope = .ok args ∧
      definition.matcher.evaluator = .batch evaluate
  | .settled outcome => begun + definition.delay ≤ now ∧
      match definition.judged scope, definition.matcher.evaluator with
      | .error error, _ => outcome = .error error
      | .ok args, .single evaluate => ∃ count,
          begun + definition.delay + (evaluate count ⟨scope.subject, args⟩).delay ≤ now ∧ outcome =
            Invocation.verdict scope definition.name args ((evaluate count ⟨scope.subject, args⟩).final .panicked)
      | .ok _, .batch _ => True

/-- An alarm is set for whoever sleeps on. -/
def Alarmed (index now : Nat) (hub : Hub) (stage : Stage) : Prop :=
  ∀ deadline, stage.deadline? = some deadline → now < deadline → ∃ number, ⟨deadline, number, .wake [index]⟩ ∈ hub.alarms

variable {scope : Scope} {definition : Definition} {begun now : Nat} {stage : Stage}

theorem Alarmed.mono {index : Nat} {before later : Hub} (alarmed : stage.Alarmed index now before)
    (alarms : before.alarms ⊆ later.alarms) : stage.Alarmed index now later := fun deadline sleeps ahead =>
  (alarmed deadline sleeps ahead).imp fun _ set => alarms set

/-- Time goes on, but not beyond the end of a sleep. -/
theorem Timed.later (timed : stage.Timed scope definition begun now) (begins : stage ≠ .fresh) {t : Nat} (le : now ≤ t)
    (sleeps : ∀ deadline, stage.deadline? = some deadline → t ≤ deadline) : stage.Timed scope definition begun t := by
  cases stage with
  | fresh => exact absurd rfl begins
  | validating span deadline rest => exact ⟨sleeps deadline rfl, timed.2⟩
  | evaluating span args deadline rest => exact ⟨sleeps deadline rfl, timed.2⟩
  | awaiting span load => exact ⟨Nat.le_trans timed.1 le, timed.2⟩
  | settled outcome =>
    refine ⟨Nat.le_trans timed.1 le, ?_⟩
    have comes := timed.2
    cases judged : definition.judged scope with
    | error error =>
      simp only [judged] at comes ⊢
      exact comes
    | ok args =>
      cases evaluator : definition.matcher.evaluator with
      | batch evaluate => trivial
      | single evaluate =>
        simp only [judged, evaluator] at comes ⊢
        obtain ⟨count, ends, same⟩ := comes
        exact ⟨count, Nat.le_trans ends le, same⟩

end Stage

/-! ### Going on with an invocation -/

namespace Invocation

/-- An invocation that goes on is not late, has its alarm set, and made the calls that were due. -/
structure Paces (scope : Scope) (definition : Definition) (index begun : Nat) (sofar : List (Nat × String × Option Json))
    (before : Scene) (r : Stage × Scene) : Prop where
  timed : r.1.Timed scope definition begun before.journal.now
  ahead : ∀ deadline, r.1.deadline? = some deadline → before.journal.now < deadline ∧
    ∃ number, ⟨deadline, number, .wake [index]⟩ ∈ r.2.hub.alarms
  calls : ∃ written, before.journal.Dates written r.2.journal ∧
    sofar ++ Journal.calls (written.map (before.journal.now, ·)) = r.1.calls begun definition

variable {scope : Scope} {definition : Definition} {index begun span : Nat}

/-- Other events may be written before. -/
theorem Paces.after {sofar : List (Nat × String × Option Json)} {before : Scene} (between : Scene) {r : Stage × Scene}
    {first : List Event} (dates : before.journal.Dates first between.journal)
    (paces : Paces scope definition index begun (sofar ++ Journal.calls (first.map (before.journal.now, ·))) between r) :
    Paces scope definition index begun sofar before r := by
  obtain ⟨timed, ahead, written, more, all⟩ := paces
  obtain ⟨now, entries⟩ := dates
  obtain ⟨now', entries'⟩ := more
  rw [now] at timed ahead entries' all now'
  refine ⟨timed, ahead, first ++ written, ⟨now', ?_⟩, ?_⟩
  · rw [entries', entries, List.map_append, List.append_assoc]
  · rw [List.map_append, Journal.calls_append, ← List.append_assoc]
    exact all

theorem dates_record (journal : Journal) (event : Event) : journal.Dates [event] (journal.record event) := ⟨rfl, rfl⟩

theorem dates_recordAll (journal : Journal) (events : List Event) : journal.Dates events (journal.recordAll events) := by
  refine ((Journal.Adds.recordAll (P := fun _ => True) journal fun _ _ => trivial).dates ?_)
  exact Journal.writes_recordAll journal events

theorem settle_paces {sofar : List (Nat × String × Option Json)} {outcome : Outcome} {scene : Scene}
    (timed : (Stage.settled outcome).Timed scope definition begun scene.journal.now)
    (calls : sofar = definition.calls begun) :
    Paces scope definition index begun sofar scene (settle scope span outcome scene) := by
  refine ⟨timed, nofun, _, dates_recordAll _ _, ?_⟩
  rw [Journal.calls_map, Scope.filterMap_call?_spanEvents, List.map_nil, List.append_nil]
  exact calls

/-- A single evaluator that was called goes on as long as it takes. -/
theorem evaluated_paces {args : Option Json} {evaluate : SingleEvaluator} {count : Nat}
    {running : Running (Ending Bool)} {scene : Scene} (judged : definition.judged scope = .ok args)
    (single : definition.matcher.evaluator = .single evaluate) (ahead : running.IsAhead scene.journal.now)
    (comes : running.final = (evaluate count ⟨scope.subject, args⟩).final .panicked)
    (ends : running.doneAt scene.journal.now =
      begun + definition.delay + (evaluate count ⟨scope.subject, args⟩).delay) :
    Paces scope definition index begun (definition.calls begun) scene
      (evaluated scope definition index span args running scene) := by
  cases running with
  | asleep deadline rest =>
    have later := ahead deadline rest rfl
    refine ⟨⟨Nat.le_of_lt later, judged, evaluate, count, single, comes, ends⟩, fun deadline' same => ?_,
      [], ⟨rfl, (List.append_nil _).symm⟩, List.append_nil _⟩
    obtain rfl := Option.some.inj same
    exact ⟨later, _, Scene.Stands.mem_setAlarm _ _ _⟩
  | ended ending =>
    have comes : ending = _ := comes
    have ends : scene.journal.now = _ := ends
    let noted : Scene := { scene with journal := scene.journal.record (.evaluatorEnded definition.name) }
    have timed : (Stage.settled (verdict scope definition.name args ending)).Timed scope definition begun
        scene.journal.now := by
      refine ⟨by omega, ?_⟩
      simp only [judged, single]
      exact ⟨count, Nat.le_of_eq ends.symm, by rw [comes]⟩
    refine Paces.after noted (dates_record scene.journal (.evaluatorEnded definition.name)) ?_
    rw [Journal.calls_map]
    exact settle_paces timed (List.append_nil _)

/-- A valid argument is passed on at once. -/
theorem dispatch_paces (batching : scope.batching = true) {args : Option Json}
    (judged : definition.judged scope = .ok args) {scene : Scene} (due : begun + definition.delay = scene.journal.now) :
    Paces scope definition index begun [] scene (dispatch scope definition index span args scene) := by
  have admitted := Definition.admitted_of_judged judged
  unfold dispatch
  cases evaluator : definition.matcher.evaluator with
  | single evaluate =>
    have single : definition.matcher.isBatched = false := by rw [Matcher.isBatched, evaluator]
    let called : Scene := { scene with journal := scene.journal.record (.invoked definition.name args) }
    let launch := evaluate (scene.journal.invocations definition.name) ⟨scope.subject, args⟩
    have ends : (launch.start scene.journal.now .panicked).doneAt called.journal.now =
        begun + definition.delay + launch.delay := (Launch.doneAt_start _ _ _).trans (congrArg (· + launch.delay) due.symm)
    refine Paces.after called (dates_record scene.journal (.invoked definition.name args)) ?_
    have told : [] ++ Journal.calls ([Event.invoked definition.name args].map (scene.journal.now, ·)) =
        definition.calls begun := by
      rw [Journal.calls_map, Definition.calls, single, admitted, ← due]
      rfl
    rw [told]
    exact evaluated_paces judged evaluator (Launch.isAhead_start _ _ _) (Launch.final_start _ _ _) ends
  | batch evaluate =>
    simp only [batching, Bool.not_true, Bool.false_eq_true, if_false]
    have batched : definition.calls begun = [] := by
      rw [Definition.calls, Matcher.isBatched, evaluator]
      rfl
    refine ⟨⟨Nat.le_of_eq due, args, evaluate, judged, evaluator⟩, fun deadline same => ?_,
      [.requested definition.name args], dates_record _ _, ?_⟩
    · cases same
    · change _ = definition.calls begun
      rw [batched]
      rfl

/-- A validation that was started goes on as long as the schema takes. -/
theorem validated_paces (batching : scope.batching = true) {schema : Schema} {raw : Json}
    (takes : definition.matcher.schema = some schema) (bound : definition.args = some raw)
    {running : Running Checked} {scene : Scene} (ahead : running.IsAhead scene.journal.now)
    (comes : running.final = (schema raw).final .error)
    (ends : running.doneAt scene.journal.now = begun + definition.delay) :
    Paces scope definition index begun [] scene (validated scope definition index span running scene) := by
  cases running with
  | asleep deadline rest =>
    have later := ahead deadline rest rfl
    refine ⟨⟨Nat.le_of_lt later, ends, schema, raw, takes, bound, comes⟩, fun deadline' same => ?_,
      [], ⟨rfl, (List.append_nil _).symm⟩, rfl⟩
    obtain rfl := Option.some.inj same
    exact ⟨later, _, Scene.Stands.mem_setAlarm _ _ _⟩
  | ended checked =>
    have comes : checked = (schema raw).final .error := comes
    have due : scene.journal.now = begun + definition.delay := ends
    have judged_eq : definition.judged scope = (judge scope definition.name checked).map some := by
      rw [Definition.judged, takes, bound, comes]
    unfold validated
    cases judged : judge scope definition.name checked with
    | ok value =>
      rw [judged] at judged_eq
      simp only [judged]
      exact dispatch_paces batching judged_eq due.symm
    | error error =>
      rw [judged] at judged_eq
      have judged_eq : definition.judged scope = .error error := judged_eq
      have refused := Definition.admitted_of_refused judged_eq
      simp only [judged]
      refine settle_paces ⟨Nat.le_of_eq due.symm, ?_⟩ ?_
      · simp only [judged_eq]
      · rw [Definition.calls, refused]
        split <;> rfl

theorem begins_paces (batching : scope.batching = true) {scene : Scene} (began : begun = scene.journal.now) :
    Paces scope definition index begun [] scene (begins scope definition index scene) := by
  let opened : Scene := { scene with
    journal := scene.journal.recordAll (scope.spanEvents (opening scope definition scene.journal.spanCount)) }
  have opens {r : Stage × Scene} (paces : Paces scope definition index begun [] opened r) :
      Paces scope definition index begun [] scene r := by
    refine Paces.after opened (dates_recordAll scene.journal _) ?_
    rw [Journal.calls_map, Scope.filterMap_call?_spanEvents]
    exact paces
  unfold begins
  dsimp only
  cases takes : definition.matcher.schema with
  | none =>
    have at_once : definition.delay = 0 := by rw [Definition.delay, takes]
    have judged : definition.judged scope = .ok definition.args := by rw [Definition.judged, takes]
    exact opens (dispatch_paces batching judged (by rw [at_once, began]; rfl))
  | some schema =>
    cases bound : definition.args with
    | none =>
      have at_once : definition.delay = 0 := by rw [Definition.delay, takes, bound]
      have judged : definition.judged scope =
          .error (scope.argumentError definition.name "no arguments were bound") := by
        rw [Definition.judged, takes, bound]
      have refused := Definition.admitted_of_refused judged
      refine opens (settle_paces ⟨?_, ?_⟩ ?_)
      · rw [at_once, began]
        exact Nat.le_refl _
      · simp only [judged]
      · rw [Definition.calls, refused]
        split <;> rfl
    | some raw =>
      have takes_long : definition.delay = (schema raw).delay := by rw [Definition.delay, takes, bound]
      refine opens (Paces.after ⟨opened.hub, opened.journal.record (.argumentChecked definition.name raw)⟩
        (dates_record opened.journal _) ?_)
      refine validated_paces batching takes bound (Launch.isAhead_start _ _ _) (Launch.final_start _ _ _) ?_
      rw [Launch.doneAt_start, takes_long, began]
      rfl

/-- Going on with an invocation that is not late. -/
theorem advance_paces (batching : scope.batching = true) {stage : Stage} {scene : Scene}
    (timed : stage.Timed scope definition begun scene.journal.now)
    (alarmed : stage.Alarmed index scene.journal.now scene.hub) :
    Paces scope definition index begun (stage.calls begun definition) scene
      (advance scope definition index stage scene) := by
  have stays {stage : Stage} (timed : stage.Timed scope definition begun scene.journal.now)
      (ahead : ∀ deadline, stage.deadline? = some deadline → scene.journal.now < deadline ∧
        ∃ number, ⟨deadline, number, .wake [index]⟩ ∈ scene.hub.alarms) :
      Paces scope definition index begun (stage.calls begun definition) scene (stage, scene) :=
    ⟨timed, ahead, [], ⟨rfl, (List.append_nil _).symm⟩, List.append_nil _⟩
  unfold advance
  cases stage with
  | fresh => exact begins_paces batching timed
  | validating span deadline rest =>
    dsimp only
    split
    · rename_i early
      refine stays timed fun deadline' same => ?_
      obtain rfl := Option.some.inj same
      exact ⟨early, alarmed deadline rfl early⟩
    · rename_i elapsed
      -- it is not late, so the deadline that has come is now
      obtain ⟨le, ends, schema, raw, takes, bound, comes⟩ := timed
      obtain rfl : deadline = scene.journal.now := Nat.le_antisymm (Nat.le_of_not_lt elapsed) le
      exact validated_paces batching takes bound (Task.isAhead_start _ _) ((Task.final_start _ _).trans comes)
        ((Task.doneAt_start _ _).trans ends)
  | evaluating span args deadline rest =>
    dsimp only
    split
    · rename_i early
      refine stays timed fun deadline' same => ?_
      obtain rfl := Option.some.inj same
      exact ⟨early, alarmed deadline rfl early⟩
    · rename_i elapsed
      obtain ⟨le, judged, evaluate, count, single, comes, ends⟩ := timed
      obtain rfl : deadline = scene.journal.now := Nat.le_antisymm (Nat.le_of_not_lt elapsed) le
      exact evaluated_paces judged single (Task.isAhead_start _ _) ((Task.final_start _ _).trans comes)
        ((Task.doneAt_start _ _).trans ends)
  | awaiting span load =>
    have settles (outcome : Outcome) : Paces scope definition index begun (definition.calls begun) scene
        (settle scope span outcome scene) := by
      obtain ⟨due, args, evaluate, judged, batched⟩ := timed
      refine settle_paces ⟨due, ?_⟩ rfl
      simp only [judged, batched]
    dsimp only
    cases state : scene.hub.state load with
    | waiting => exact stays timed nofun
    | answered value => exact settles _
    | lost => exact settles _
  | settled outcome => exact stays timed nofun

end Invocation

/-! ### Sessions -/

namespace Session

/-- No invocation is late. -/
def Timed (session : Session) (begun now : Nat) : Prop :=
  ∀ (index : Nat) (i : Invocation), session.invocations[index]? = some i →
    i.stage.Timed session.scope i.definition begun now

/-- An alarm is set for every invocation that sleeps on. -/
def Alarmed (session : Session) (now : Nat) (hub : Hub) : Prop :=
  ∀ (index : Nat) (i : Invocation), session.invocations[index]? = some i → i.stage.Alarmed index now hub

/-- The calls of single evaluators that the invocations have made. -/
def calls (session : Session) (begun : Nat) : List (Nat × String × Option Json) :=
  session.invocations.flatMap fun i => i.stage.calls begun i.definition

/-- Some invocations have gone on. -/
structure Paces (indices : List Nat) (begun : Nat) (before r : Session × Scene) : Prop where
  timed : r.1.Timed begun before.2.journal.now
  alarmed : r.1.Alarmed before.2.journal.now r.2.hub
  ahead : ∀ index ∈ indices, ∀ i deadline, r.1.invocations[index]? = some i → i.stage.deadline? = some deadline →
    before.2.journal.now < deadline
  others : ∀ index, index ∉ indices → r.1.invocations[index]? = before.1.invocations[index]?
  calls : ∃ written, before.2.journal.Dates written r.2.journal ∧
    (r.1.calls begun).Perm (before.1.calls begun ++ Journal.calls (written.map (before.2.journal.now, ·)))
  scope_eq : r.1.scope = before.1.scope

variable {session : Session} {scene : Scene} {begun : Nat}

theorem advance_paces (batching : session.scope.batching = true) (timed : session.Timed begun scene.journal.now)
    (alarmed : session.Alarmed scene.journal.now scene.hub) (index : Nat) :
    Paces [index] begun (session, scene) (session.advance scene index) := by
  have stands := session.advance_stands scene index
  unfold advance at stands ⊢
  cases here : session.invocations[index]? with
  | none =>
    refine ⟨timed, alarmed, fun other mem i deadline found => ?_, fun _ _ => rfl,
      ⟨[], ⟨rfl, (List.append_nil _).symm⟩, ?_⟩, rfl⟩
    · rw [List.mem_singleton.1 mem, here] at found
      cases found
    · exact (List.append_nil _).symm ▸ .refl _
  | some i =>
    simp only [here] at stands
    have paces := Invocation.advance_paces batching (timed index i here) (alarmed index i here)
    dsimp only
    generalize Invocation.advance session.scope i.definition index i.stage scene = r at stands paces
    obtain ⟨stage, later⟩ := r
    obtain ⟨written, dates, grown⟩ := paces.calls
    refine ⟨fun other j found => ?_, fun other j found => ?_, fun other mem j deadline found sleeps => ?_,
      fun other out => List.getElem?_set_ne fun same => out (List.mem_singleton.2 same.symm), ⟨written, dates, ?_⟩, rfl⟩
    · rcases getElem?_set_cases found with ⟨rfl, rfl⟩ | ⟨-, found⟩
      · exact paces.timed
      · exact timed other j found
    · rcases getElem?_set_cases found with ⟨rfl, rfl⟩ | ⟨-, found⟩
      · exact fun deadline sleeps _ => (paces.ahead deadline sleeps).2
      · exact (alarmed other j found).mono stands.alarms
    · obtain ⟨-, rfl⟩ := (getElem?_set_cases found).resolve_right fun other => other.1 (List.mem_singleton.1 mem)
      exact (paces.ahead deadline sleeps).1
    · exact flatMap_set_perm (f := fun i : Invocation => i.stage.calls begun i.definition) here grown.symm

theorem advanceAll_paces (indices : List Nat) (batching : session.scope.batching = true)
    (timed : session.Timed begun scene.journal.now) (alarmed : session.Alarmed scene.journal.now scene.hub) :
    Paces indices begun (session, scene) (advanceAll indices session scene) := by
  induction indices generalizing session scene with
  | nil =>
    refine ⟨timed, alarmed, List.forall_mem_nil _, fun _ _ => rfl, ⟨[], ⟨rfl, (List.append_nil _).symm⟩, ?_⟩, rfl⟩
    exact (List.append_nil _).symm ▸ .refl _
  | cons index indices ih =>
    have first := advance_paces batching timed alarmed index
    obtain ⟨written, dates, perm⟩ := first.calls
    have now_eq : (session.advance scene index).2.journal.now = scene.journal.now := dates.1
    have rest := ih (first.scope_eq ▸ batching) (now_eq.symm ▸ first.timed) (now_eq.symm ▸ first.alarmed)
    obtain ⟨more, dates', perm'⟩ := rest.calls
    have timed' := rest.timed
    have alarmed' := rest.alarmed
    have ahead' := rest.ahead
    rw [now_eq] at timed' alarmed' ahead' perm'
    refine ⟨timed', alarmed', fun other mem i deadline found sleeps => ?_, fun other out => ?_,
      ⟨written ++ more, ⟨dates'.1.trans now_eq, ?_⟩, ?_⟩, rest.scope_eq.trans first.scope_eq⟩
    · by_cases again : other ∈ indices
      · exact ahead' other again i deadline found sleeps
      · obtain rfl := (List.mem_cons.1 mem).resolve_right again
        exact first.ahead other (List.mem_singleton_self other) i deadline ((rest.others other again).symm.trans found) sleeps
    · rw [List.mem_cons, not_or] at out
      exact (rest.others other out.2).trans (first.others other fun mem => out.1 (List.mem_singleton.1 mem))
    · rw [List.map_append, ← List.append_assoc, ← dates.2]
      exact now_eq ▸ dates'.2
    · rw [List.map_append, Journal.calls_append, ← List.append_assoc]
      exact perm'.trans (perm.append_right _)

end Session

/-! ### Evaluations -/

namespace Evaluation

/-- No invocation is late, and whoever sleeps will not be: an alarm is set, or it was told to go on. -/
structure Paced (begun now : Nat) (evaluation : Evaluation) (hub : Hub) : Prop where
  timed : evaluation.session.Timed begun now
  alert : ∀ (index : Nat) (i : Invocation), evaluation.session.invocations[index]? = some i →
    ∀ deadline, i.stage.deadline? = some deadline →
      (now < deadline ∧ ∃ number, ⟨deadline, number, .wake [index]⟩ ∈ hub.alarms) ∨
        (deadline = now ∧ [index] ∈ hub.woken.drop evaluation.seen)

namespace Paced

variable {scope : Scope} {expr : Expr} {begun horizon now : Nat} {evaluation : Evaluation} {hub : Hub}

/-- A poll at which everybody is looked at who was told to go on; it makes the calls that are due. -/
theorem poll_looking {journal : Journal} (paced : evaluation.Paced begun journal.now hub)
    (batching : evaluation.session.scope.batching = true)
    (looks : ∀ (index : Nat) (i : Invocation), evaluation.session.invocations[index]? = some i →
      i.stage.deadline? = some journal.now → [index] ∈ hub.woken.drop evaluation.seen →
      index ∈ (evaluation.progress.wakeAll (evaluation.news hub)).due) :
    let r := evaluation.poll ⟨hub, journal⟩
    r.1.Paced begun journal.now r.2.hub ∧ ∃ written, journal.Dates written r.2.journal ∧
      (r.1.session.calls begun).Perm
        (evaluation.session.calls begun ++ Journal.calls (written.map (journal.now, ·))) := by
  intro r
  have alarmed : evaluation.session.Alarmed journal.now hub := by
    intro index i here deadline sleeps ahead
    rcases paced.alert index i here deadline sleeps with ⟨-, set⟩ | ⟨rfl, -⟩
    · exact set
    · exact absurd ahead (Nat.lt_irrefl _)
  let scene : Scene := ⟨hub, journal⟩
  have timed : evaluation.session.Timed begun scene.journal.now := paced.timed
  have went := Session.advanceAll_paces (evaluation.progress.wakeAll (evaluation.news hub)).due batching timed alarmed
  refine ⟨⟨went.timed, fun index i here deadline sleeps => .inl ?_⟩, went.calls⟩
  have ahead : journal.now < deadline := by
    by_cases due : index ∈ (evaluation.progress.wakeAll (evaluation.news hub)).due
    · exact went.ahead index due i deadline here sleeps
    · have same := (went.others index due).symm.trans here
      rcases paced.alert index i same deadline sleeps with ⟨ahead, -⟩ | ⟨rfl, told⟩
      · exact ahead
      · exact absurd (looks index i same sleeps told) due
  exact ⟨ahead, went.alarmed index i here deadline sleeps ahead⟩

/-- Whoever sleeps has no outcome yet, so its leaf waits. -/
theorem sleeper_waits (clocked : evaluation.Clocked scope expr begun horizon now hub) {index : Nat} {i : Invocation}
    (here : evaluation.session.invocations[index]? = some i) (sleeps : i.stage.deadline?.isSome) :
    index ∈ evaluation.progress.leaves := by
  refine clocked.waits here ?_
  rw [Session.outcome?_eq, here, Option.bind_some]
  cases stage : i.stage with
  | settled outcome =>
    rw [stage] at sleeps
    cases sleeps
  | _ => rfl

/-- At every poll after the first one everybody is looked at who was told to go on. -/
theorem poll {journal : Journal} (paced : evaluation.Paced begun journal.now hub)
    (clocked : evaluation.Clocked scope expr begun horizon now hub) (batching : scope.batching = true) :
    let r := evaluation.poll ⟨hub, journal⟩
    r.1.Paced begun journal.now r.2.hub ∧ ∃ written, journal.Dates written r.2.journal ∧
      (r.1.session.calls begun).Perm
        (evaluation.session.calls begun ++ Journal.calls (written.map (journal.now, ·))) := by
  refine paced.poll_looking (clocked.scope_eq.symm ▸ batching) fun index i here sleeps told => ?_
  have woken := clocked.sound.waits.wakeAll (evaluation.news hub)
  rw [List.nil_append] at woken
  refine woken.mem_due _ index (List.mem_flatten.2 ⟨[index], told, List.mem_singleton_self index⟩) ?_
  rw [Progress.leaves_wakeAll]
  exact sleeper_waits clocked here (by rw [sleeps]; rfl)

/-- Before the first poll nobody has begun. -/
theorem start (scope : Scope) (expr : Expr) (before : Journal) {now : Nat} :
    (Evaluation.start (.start scope) expr ⟨.empty, before⟩).1.Paced now now .empty := by
  have unbegun := Session.Unbegun.of_start scope expr before
  have fresh (index : Nat) (i : Invocation)
      (here : (Evaluation.start (.start scope) expr ⟨.empty, before⟩).1.session.invocations[index]? = some i) :
      i.stage = .fresh := (unbegun.fresh i (List.mem_of_getElem? here)).1
  refine ⟨fun index i here => ?_, fun index i here deadline sleeps => ?_⟩
  · rw [fresh index i here]
    rfl
  · rw [fresh index i here] at sleeps
    cases sleeps

/-- A move that leaves the alarms set and forgets nobody who was woken. -/
theorem stands (paced : evaluation.Paced begun now hub) (seen : evaluation.seen ≤ hub.woken.length) {later : Hub}
    (alarms : hub.alarms ⊆ later.alarms) (woken : hub.woken <+: later.woken) : evaluation.Paced begun now later := by
  obtain ⟨more, woken⟩ := woken
  refine ⟨paced.timed, fun index i here deadline sleeps => ?_⟩
  rcases paced.alert index i here deadline sleeps with ⟨ahead, number, set⟩ | ⟨elapsed, told⟩
  · exact .inl ⟨ahead, number, alarms set⟩
  · refine .inr ⟨elapsed, ?_⟩
    rw [← woken, List.drop_append_of_le_length seen]
    exact List.mem_append_left _ told

/-- While an evaluation sleeps, everybody in it who sleeps has an alarm set. -/
theorem sleeps (paced : evaluation.Paced begun now hub) (clocked : evaluation.Clocked scope expr begun horizon now hub)
    (asleep : Client.settled evaluation = true ∨ Client.stirred evaluation hub = false) {index : Nat} {i : Invocation}
    (here : evaluation.session.invocations[index]? = some i) {deadline : Nat} (sleeps : i.stage.deadline? = some deadline) :
    now < deadline ∧ ∃ number, ⟨deadline, number, .wake [index]⟩ ∈ hub.alarms := by
  rcases paced.alert index i here deadline sleeps with ahead | ⟨-, told⟩
  · exact ahead
  · exact absurd told (not_told asleep (sleeper_waits clocked here (by rw [sleeps]; rfl)))

/-- Time goes on up to the first alarm while the evaluation sleeps. -/
theorem advance (paced : evaluation.Paced begun now hub) (clocked : evaluation.Clocked scope expr begun horizon now hub)
    (asleep : Client.settled evaluation = true ∨ Client.stirred evaluation hub = false) {t : Nat} (le : now ≤ t)
    (first : ∀ alarm ∈ hub.alarms, t ≤ alarm.deadline) : evaluation.Paced begun t (hub.advance t) := by
  have alarmed (index : Nat) (i : Invocation) (here : evaluation.session.invocations[index]? = some i) (deadline : Nat)
      (sleeps : i.stage.deadline? = some deadline) :
      t ≤ deadline ∧ ∃ number, ⟨deadline, number, .wake [index]⟩ ∈ hub.alarms := by
    obtain ⟨-, number, set⟩ := paced.sleeps clocked asleep here sleeps
    exact ⟨first _ set, number, set⟩
  obtain ⟨more, woken, told⟩ := hub.woken_advance t
  refine ⟨fun index i here => (paced.timed index i here).later (clocked.begins here) le fun deadline sleeps =>
    (alarmed index i here deadline sleeps).1, fun index i here deadline sleeps => ?_⟩
  obtain ⟨on_time, number, set⟩ := alarmed index i here deadline sleeps
  rcases Nat.lt_or_eq_of_le on_time with later | rfl
  · refine .inl ⟨later, number, ?_⟩
    rw [Hub.alarms_advance]
    exact List.mem_filter.2 ⟨set, decide_eq_true later⟩
  · refine .inr ⟨rfl, ?_⟩
    rw [woken, List.drop_append_of_le_length clocked.seen]
    exact List.mem_append_right _ (told _ set (Nat.le_refl _) [index] rfl)

end Paced

end Evaluation

end Segmentation
