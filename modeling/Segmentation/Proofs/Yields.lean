import Segmentation.Proofs.Deeds

/-!
# What invocations come to

The argument bound to a matcher is refused, or it is admitted and the evaluator decides (`Definition.judged`).  So an
invocation settles with the error of the refusal, with what the single evaluator comes to, or with the answer to the
request that it loaded (`Definition.Yields`).  However long it takes an invocation comes to nothing else
(`Stage.Earns`).
-/

namespace Segmentation

/-- What the evaluator is to decide on, or why the argument is refused. -/
def Definition.judged (scope : Scope) (definition : Definition) : Except Error (Option Json) :=
  match definition.matcher.schema, definition.args with
  | none, args => .ok args
  | some _, none => .error (scope.argumentError definition.name "no arguments were bound")
  | some schema, some raw => (Invocation.judge scope definition.name ((schema raw).final .error)).map some

/-- The outcomes that an invocation can have, given its schema and its evaluator. -/
def Definition.Yields (scope : Scope) (definition : Definition) (outcome : Outcome) : Prop :=
  match definition.judged scope with
  | .error error => outcome = .error error
  | .ok args =>
    match definition.matcher.evaluator with
    | .single evaluate => ∃ count, outcome =
        Invocation.verdict scope definition.name args ((evaluate count ⟨scope.subject, args⟩).final .panicked)
    | .batch _ => (∃ value, outcome = .ok value) ∨ outcome = .error (.unansweredRequest definition.name scope.segment)

/-- A task that goes on comes to what the schema and the evaluator come to, and an outcome is one that they make. -/
def Stage.Earns (scope : Scope) (definition : Definition) : Stage → Prop
  | .fresh => True
  | .validating _ _ rest => ∃ schema raw, definition.matcher.schema = some schema ∧ definition.args = some raw ∧
      rest.final = (schema raw).final .error
  | .evaluating _ args _ rest => definition.judged scope = .ok args ∧ ∃ evaluate count,
      definition.matcher.evaluator = .single evaluate ∧
      rest.final = (evaluate count ⟨scope.subject, args⟩).final .panicked
  | .awaiting _ _ => ∃ args evaluate, definition.judged scope = .ok args ∧ definition.matcher.evaluator = .batch evaluate
  | .settled outcome => definition.Yields scope outcome

namespace Invocation

variable (scope : Scope) (definition : Definition) (index span : Nat)

theorem evaluated_earns {args : Option Json} (judged : definition.judged scope = .ok args) {evaluate : SingleEvaluator}
    (single : definition.matcher.evaluator = .single evaluate) {count : Nat} {running : Running (Ending Bool)}
    (comes : running.final = (evaluate count ⟨scope.subject, args⟩).final .panicked) (scene : Scene) :
    (evaluated scope definition index span args running scene).1.Earns scope definition := by
  cases running with
  | asleep deadline rest => exact ⟨judged, evaluate, count, single, comes⟩
  | ended ending =>
    change definition.Yields scope (verdict scope definition.name args ending)
    have comes : ending = (evaluate count ⟨scope.subject, args⟩).final .panicked := comes
    rw [Definition.Yields, judged]
    dsimp only
    rw [single, comes]
    exact ⟨count, rfl⟩

theorem dispatch_earns (batching : scope.batching = true) {args : Option Json}
    (judged : definition.judged scope = .ok args) (scene : Scene) :
    (dispatch scope definition index span args scene).1.Earns scope definition := by
  unfold dispatch
  cases evaluator : definition.matcher.evaluator with
  | single evaluate => exact evaluated_earns scope definition index span judged evaluator (Launch.final_start _ _ _) _
  | batch evaluate =>
    rw [batching]
    exact ⟨args, evaluate, judged, evaluator⟩

theorem validated_earns (batching : scope.batching = true) {schema : Schema} {raw : Json}
    (takes : definition.matcher.schema = some schema) (bound : definition.args = some raw) {running : Running Checked}
    (comes : running.final = (schema raw).final .error) (scene : Scene) :
    (validated scope definition index span running scene).1.Earns scope definition := by
  cases running with
  | asleep deadline rest => exact ⟨schema, raw, takes, bound, comes⟩
  | ended checked =>
    have comes : checked = (schema raw).final .error := comes
    have judged_eq : definition.judged scope = (judge scope definition.name checked).map some := by
      rw [Definition.judged, takes, bound, comes]
    unfold validated
    cases judged : judge scope definition.name checked with
    | ok value =>
      rw [judged] at judged_eq
      simp only [judged]
      exact dispatch_earns scope definition index span batching judged_eq scene
    | error error =>
      rw [judged] at judged_eq
      simp only [judged]
      change definition.Yields scope (.error error)
      rw [Definition.Yields, judged_eq]
      rfl

theorem begins_earns (batching : scope.batching = true) (scene : Scene) :
    (begins scope definition index scene).1.Earns scope definition := by
  unfold begins
  dsimp only
  cases takes : definition.matcher.schema with
  | none =>
    have judged : definition.judged scope = .ok definition.args := by rw [Definition.judged, takes]
    exact dispatch_earns scope definition index _ batching judged _
  | some schema =>
    cases bound : definition.args with
    | none =>
      change definition.Yields scope _
      rw [Definition.Yields, Definition.judged, takes, bound]
    | some raw => exact validated_earns scope definition index _ batching takes bound (Launch.final_start _ _ _) _

/-- Whatever an invocation does, it comes to what it may come to. -/
theorem advance_earns (batching : scope.batching = true) {stage : Stage} (earns : stage.Earns scope definition)
    (scene : Scene) : (advance scope definition index stage scene).1.Earns scope definition := by
  unfold advance
  cases stage with
  | fresh => exact begins_earns scope definition index batching scene
  | validating span deadline rest =>
    dsimp only
    split
    · exact earns
    · obtain ⟨schema, raw, takes, bound, comes⟩ := earns
      exact validated_earns scope definition index span batching takes bound ((Task.final_start _ _).trans comes) scene
  | evaluating span args deadline rest =>
    dsimp only
    split
    · exact earns
    · obtain ⟨judged, evaluate, count, single, comes⟩ := earns
      exact evaluated_earns scope definition index span judged single ((Task.final_start _ _).trans comes) scene
  | awaiting span load =>
    obtain ⟨args, evaluate, judged, batched⟩ := earns
    have yields {outcome : Outcome} (one_of : (∃ value, outcome = .ok value) ∨
        outcome = .error (.unansweredRequest definition.name scope.segment)) : definition.Yields scope outcome := by
      rw [Definition.Yields, judged]
      dsimp only
      rw [batched]
      exact one_of
    cases state : scene.hub.state load with
    | waiting =>
      simp only [state]
      exact ⟨args, evaluate, judged, batched⟩
    | answered value =>
      simp only [state]
      exact yields (.inl ⟨value, rfl⟩)
    | lost =>
      simp only [state]
      exact yields (.inr rfl)
  | settled outcome => exact earns

end Invocation

namespace Session

/-- All invocations have come to what they may come to. -/
def Earns (session : Session) : Prop := ∀ i ∈ session.invocations, i.stage.Earns session.scope i.definition

variable {session : Session}

theorem Earns.advance (earns : session.Earns) (batching : session.scope.batching = true) (scene : Scene) (index : Nat) :
    (session.advance scene index).1.Earns ∧ (session.advance scene index).1.scope = session.scope := by
  unfold Session.advance
  cases here : session.invocations[index]? with
  | none => exact ⟨earns, rfl⟩
  | some i =>
    refine ⟨fun j mem => ?_, rfl⟩
    rcases List.mem_or_eq_of_mem_set mem with mem | rfl
    · exact earns j mem
    · exact Invocation.advance_earns _ i.definition index batching (earns i (List.mem_of_getElem? here)) scene

theorem Earns.advanceAll (earns : session.Earns) (batching : session.scope.batching = true) (scene : Scene)
    (indices : List Nat) : (advanceAll indices session scene).1.Earns := by
  induction indices generalizing session scene with
  | nil => exact earns
  | cons index indices ih =>
    obtain ⟨earns, scope_eq⟩ := earns.advance batching scene index
    exact ih earns (scope_eq ▸ batching) _

end Session

/-- A pass leaves no invocation that comes to anything else. -/
theorem Drive.pass_earns {drive : Drive Evaluation} (earns : drive.client.session.Earns)
    (batching : drive.client.session.scope.batching = true) (scene : Scene) :
    (drive.pass scene).1.client.session.Earns := by
  rw [Evaluation.client_pass]
  split
  · exact earns
  · exact earns.advanceAll batching scene _

end Segmentation
