import Segmentation.Proofs.Settling
import Segmentation.Proofs.Twins.Flight

/-!
# Evaluations beside twin journals

An evaluation goes the same way beside twin journals, whatever its evaluators do (`Evaluation.poll_agree`), and so does
a drive of one (`Drive.pass_agree`).
-/

namespace Segmentation

open Scene (Agree)

variable {p q j k : Journal} (hub : Hub) (twins : p.Twins q j k)

/-! ### Invocations -/

namespace Invocation

variable (scope : Scope) (definition : Definition) (index : Nat)

include twins

theorem settle_agree (span : Nat) (outcome : Outcome) :
    Agree p q (settle scope span outcome ⟨hub, j⟩) (settle scope span outcome ⟨hub, k⟩) :=
  ⟨rfl, rfl, twins.recordAll _⟩

theorem evaluated_agree (span : Nat) (args : Option Json) (running : Running (Ending Bool)) :
    Agree p q (evaluated scope definition index span args running ⟨hub, j⟩)
      (evaluated scope definition index span args running ⟨hub, k⟩) := by
  cases running with
  | ended ending => exact settle_agree hub (twins.record _) scope span _
  | asleep deadline rest => exact ⟨rfl, Scene.setAlarm_twins hub twins deadline _⟩

theorem dispatch_agree (alike : p.Alike q) (span : Nat) (args : Option Json) :
    Agree p q (dispatch scope definition index span args ⟨hub, j⟩)
      (dispatch scope definition index span args ⟨hub, k⟩) := by
  unfold dispatch
  cases definition.matcher.evaluator with
  | single evaluate =>
    have count := (twins.alike alike).invocations definition.name
    have called := twins.record (.invoked definition.name args)
    dsimp only
    rw [count, called.now]
    exact evaluated_agree hub called scope definition index span args _
  | batch evaluate =>
    dsimp only
    cases scope.batching with
    | false => exact settle_agree hub twins scope span _
    | true => exact ⟨rfl, rfl, twins.record _⟩

theorem validated_agree (alike : p.Alike q) (span : Nat) (running : Running Checked) :
    Agree p q (validated scope definition index span running ⟨hub, j⟩)
      (validated scope definition index span running ⟨hub, k⟩) := by
  cases running with
  | asleep deadline rest => exact ⟨rfl, Scene.setAlarm_twins hub twins deadline _⟩
  | ended checked =>
    unfold validated
    dsimp only
    cases judge scope definition.name checked with
    | ok value => exact dispatch_agree hub twins scope definition index alike span (some value)
    | error error => exact settle_agree hub twins scope span _

theorem begins_agree (alike : p.Alike q) :
    Agree p q (begins scope definition index ⟨hub, j⟩) (begins scope definition index ⟨hub, k⟩) := by
  have count := (twins.alike alike).spanCount
  have opened := twins.recordAll (scope.spanEvents (opening scope definition k.spanCount))
  unfold begins
  dsimp only
  rw [count]
  cases definition.matcher.schema with
  | none => exact dispatch_agree hub opened scope definition index alike _ definition.args
  | some schema =>
    cases definition.args with
    | none => exact settle_agree hub opened scope _ _
    | some raw =>
      have checked := opened.record (.argumentChecked definition.name raw)
      dsimp only
      rw [checked.now]
      exact validated_agree hub checked scope definition index alike _ _

theorem advance_agree (alike : p.Alike q) (stage : Stage) :
    Agree p q (advance scope definition index stage ⟨hub, j⟩) (advance scope definition index stage ⟨hub, k⟩) := by
  unfold advance
  cases stage with
  | fresh => exact begins_agree hub twins scope definition index alike
  | validating span deadline rest =>
    dsimp only
    rw [twins.now]
    split
    · exact ⟨rfl, rfl, twins⟩
    · exact validated_agree hub twins scope definition index alike span _
  | evaluating span args deadline rest =>
    dsimp only
    rw [twins.now]
    split
    · exact ⟨rfl, rfl, twins⟩
    · exact evaluated_agree hub twins scope definition index span args _
  | awaiting span load =>
    dsimp only
    cases hub.state load with
    | waiting => exact ⟨rfl, rfl, twins⟩
    | answered value => exact settle_agree hub twins scope span _
    | lost => exact settle_agree hub twins scope span _
  | settled outcome => exact ⟨rfl, rfl, twins⟩

theorem drop_twins (invocation : Invocation) : p.Twins q (invocation.drop scope j) (invocation.drop scope k) := by
  unfold drop
  cases invocation.stage with
  | fresh => exact twins
  | validating span deadline rest => exact twins.recordAll _
  | evaluating span args deadline rest => exact (twins.record _).recordAll _
  | awaiting span load => exact twins.recordAll _
  | settled outcome => exact twins

end Invocation

/-! ### Sessions -/

namespace Session

include twins

theorem invocationFor_agree (session : Session) (definition : Definition) :
    let r := session.invocationFor definition j
    let r' := session.invocationFor definition k
    r.1 = r'.1 ∧ r.2.1 = r'.2.1 ∧ p.Twins q r.2.2 r'.2.2 := by
  unfold invocationFor
  dsimp only
  cases session.invocations.findIdx? (·.definition.key = definition.key) with
  | none => exact ⟨rfl, rfl, twins⟩
  | some index => exact ⟨rfl, rfl, twins.notice _⟩

omit twins in
mutual

theorem launch_agree : (expr : Expr) → (session : Session) → {j k : Journal} → p.Twins q j k →
    (session.launch expr j).1 = (session.launch expr k).1 ∧
      (session.launch expr j).2.1 = (session.launch expr k).2.1 ∧
      p.Twins q (session.launch expr j).2.2 (session.launch expr k).2.2
  | .leaf definition, session, _, _, twins => by
    obtain ⟨index_eq, session_eq, later⟩ := invocationFor_agree twins session definition
    simp only [launch, index_eq, session_eq]
    exact ⟨trivial, trivial, later⟩
  | .and operands, session, _, _, twins => by
    obtain ⟨progress_eq, session_eq, later⟩ := launchAll_agree operands session twins
    simp only [launch, progress_eq, session_eq]
    exact ⟨trivial, trivial, later⟩
  | .or operands, session, _, _, twins => by
    obtain ⟨progress_eq, session_eq, later⟩ := launchAll_agree operands session twins
    simp only [launch, progress_eq, session_eq]
    exact ⟨trivial, trivial, later⟩
  | .not operand, session, _, _, twins => by
    obtain ⟨progress_eq, session_eq, later⟩ := launch_agree operand session twins
    simp only [launch, progress_eq, session_eq]
    exact ⟨trivial, trivial, later⟩

theorem launchAll_agree : (exprs : List Expr) → (session : Session) → {j k : Journal} → p.Twins q j k →
    (session.launchAll exprs j).1 = (session.launchAll exprs k).1 ∧
      (session.launchAll exprs j).2.1 = (session.launchAll exprs k).2.1 ∧
      p.Twins q (session.launchAll exprs j).2.2 (session.launchAll exprs k).2.2
  | [], _, _, _, twins => ⟨rfl, rfl, twins⟩
  | expr :: exprs, session, j, k, twins => by
    obtain ⟨progress_eq, session_eq, later⟩ := launch_agree expr session twins
    obtain ⟨rest_eq, sessions_eq, last⟩ := launchAll_agree exprs (session.launch expr k).2.1 later
    simp only [launchAll, progress_eq, session_eq, rest_eq, sessions_eq]
    exact ⟨trivial, trivial, last⟩

end

theorem advance_agree (alike : p.Alike q) (session : Session) (index : Nat) :
    Agree p q (session.advance ⟨hub, j⟩ index) (session.advance ⟨hub, k⟩ index) := by
  unfold advance
  cases session.invocations[index]? with
  | none => exact ⟨rfl, rfl, twins⟩
  | some invocation =>
    obtain ⟨stage, hub, j, k, eq, eq', later⟩ :=
      (Invocation.advance_agree hub twins session.scope invocation.definition index alike invocation.stage).cases
    simp only [eq, eq']
    exact ⟨rfl, rfl, later⟩

theorem advanceAll_agree (alike : p.Alike q) (indices : List Nat) (session : Session) :
    Agree p q (advanceAll indices session ⟨hub, j⟩) (advanceAll indices session ⟨hub, k⟩) := by
  unfold advanceAll
  induction indices generalizing session hub j k with
  | nil => exact ⟨rfl, rfl, twins⟩
  | cons index indices ih =>
    obtain ⟨session, hub, j, k, eq, eq', later⟩ := (advance_agree hub twins alike session index).cases
    simp only [List.foldl_cons, eq, eq']
    exact ih hub later session

theorem drop_twins (session : Session) : p.Twins q (session.drop j) (session.drop k) := by
  unfold drop
  generalize session.invocations = invocations
  induction invocations generalizing j k with
  | nil => exact twins
  | cons invocation invocations ih => exact ih (invocation.drop_twins twins session.scope)

end Session

/-! ### Evaluations and their drives -/

namespace Evaluation

include twins

theorem start_agree (session : Session) (expr : Expr) :
    Agree p q (start session expr ⟨hub, j⟩) (start session expr ⟨hub, k⟩) := by
  obtain ⟨progress_eq, session_eq, later⟩ := Session.launch_agree expr session twins
  refine ⟨?_, rfl, later⟩
  simp only [start, progress_eq, session_eq]

theorem poll_agree (alike : p.Alike q) (evaluation : Evaluation) :
    Agree p q (evaluation.poll ⟨hub, j⟩) (evaluation.poll ⟨hub, k⟩) := by
  unfold poll
  dsimp only
  obtain ⟨session, hub', j', k', eq, eq', later⟩ := (Session.advanceAll_agree hub twins alike
    (evaluation.progress.wakeAll (evaluation.news hub)).due evaluation.session).cases
  simp only [eq, eq']
  exact ⟨rfl, rfl, later⟩

end Evaluation

namespace Drive

include twins

theorem pass_agree (alike : p.Alike q) (drive : Drive Evaluation) :
    Agree p q (drive.pass ⟨hub, j⟩) (drive.pass ⟨hub, k⟩) := by
  have polled : Agree p q (drive.pollClient ⟨hub, j⟩) (drive.pollClient ⟨hub, k⟩) := by
    unfold pollClient
    split
    · exact ⟨rfl, rfl, twins⟩
    · obtain ⟨client, hub', j', k', eq, eq', later⟩ := (drive.client.poll_agree hub twins alike).cases
      have eq : Client.poll drive.client ⟨hub, j⟩ = (client, ⟨hub', j'⟩) := eq
      have eq' : Client.poll drive.client ⟨hub, k⟩ = (client, ⟨hub', k'⟩) := eq'
      simp only [eq, eq']
      exact ⟨rfl, rfl, later⟩
  obtain ⟨drive, hub, j, k, eq, eq', twins⟩ := polled.cases
  obtain ⟨flights_eq, all_eq, scenes⟩ := pollReady_agree hub.takeFlights.2 twins
    (drive.flights ++ hub.takeFlights.1) alike 0 (drive.ready ++ hub.takeFlights.1.map (·.id))
  simp only [pass, eq, eq', takeBatches, pollFlights, flights_eq, all_eq]
  exact ⟨rfl, scenes⟩

end Drive

end Segmentation
