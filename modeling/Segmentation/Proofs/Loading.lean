import Segmentation.Program
import Segmentation.Proofs.Queues
import Segmentation.Session

/-!
# Clients that only load

An evaluation and a program do nothing with a hub but to open queues, load requests, wait for the answers, and set
alarms (`Hub.Uses`).  So they take nothing from its queues (`Client.Loading`).
-/

namespace Segmentation

/-- Nothing was done with the queues but to load. -/
structure Hub.Loads (before later : Hub) : Prop where
  extends_ : before.Extends later
  reloads : later.reloads = before.reloads

namespace Hub.Loads

theorem of_ledger {before later : Hub} (same : later.ledger = before.ledger) : before.Loads later :=
  ⟨.of_ledger same, reloads_of_ledger same⟩

theorem refl (hub : Hub) : hub.Loads hub := .of_ledger rfl

theorem trans {a b c : Hub} (first : a.Loads b) (second : b.Loads c) : a.Loads c :=
  ⟨first.extends_.trans second.extends_, second.reloads.trans first.reloads⟩

end Hub.Loads

open Hub (Loads)

theorem Hub.openQueue_loads (hub : Hub) (matcher : String) (evaluate : BatchEvaluator) :
    hub.Loads (hub.openQueue matcher evaluate) := by
  refine ⟨hub.openQueue_extends matcher evaluate, ?_⟩
  unfold openQueue
  split <;> rfl

theorem Hub.loadKeyed_loads (hub : Hub) (matcher key : String) (request : Request) :
    hub.Loads (hub.loadKeyed matcher key request).2 := ⟨hub.loadKeyed_extends matcher key request, rfl⟩

/-- What clients do with a hub. -/
inductive Hub.Uses : Hub → Hub → Prop
  | refl (hub : Hub) : hub.Uses hub
  | trans {a b c : Hub} : a.Uses b → b.Uses c → a.Uses c
  | openQueue (hub : Hub) (matcher : String) (evaluate : BatchEvaluator) : hub.Uses (hub.openQueue matcher evaluate)
  | loadKeyed (hub : Hub) (matcher key : String) (request : Request) : hub.Uses (hub.loadKeyed matcher key request).2
  | await (hub : Hub) (load : Load) (waiter : Place) : hub.Uses (hub.await load waiter)
  | tell (hub : Hub) (load : Load) (waiter : Place) : hub.Uses (hub.tell load waiter)
  | wakeAll (hub : Hub) (waiters : List Place) : hub.Uses (hub.wakeAll waiters)
  | setAlarms (hub : Hub) (alarms : List Alarm) : hub.Uses { hub with alarms }

open Hub (Uses)

theorem Hub.Uses.loads {before later : Hub} (uses : before.Uses later) : before.Loads later := by
  induction uses with
  | refl hub => exact .refl hub
  | trans _ _ first second => exact first.trans second
  | openQueue hub matcher evaluate => exact hub.openQueue_loads matcher evaluate
  | loadKeyed hub matcher key request => exact hub.loadKeyed_loads matcher key request
  | await hub load waiter => exact .of_ledger (Hub.ledger_await hub load waiter)
  | tell hub load waiter => exact .of_ledger (Hub.ledger_tell hub load waiter)
  | wakeAll hub waiters => exact .of_ledger (Hub.ledger_wakeAll hub waiters)
  | setAlarms hub alarms => exact .of_ledger rfl

/-- Clients whose polls do nothing with the queues but to load. -/
class Client.Loading (κ : Type) [Client κ] : Prop where
  poll_loads (client : κ) (scene : Scene) : scene.hub.Loads (Client.poll client scene).2.hub

/-- Clients whose polls do nothing else with the hub either. -/
class Client.Using (κ : Type) [Client κ] : Prop where
  poll_uses (client : κ) (scene : Scene) : scene.hub.Uses (Client.poll client scene).2.hub

instance {κ : Type} [Client κ] [Client.Using κ] : Client.Loading κ where
  poll_loads client scene := (Client.Using.poll_uses client scene).loads

/-! ### Evaluations -/

namespace Invocation

variable (scope : Scope) (definition : Definition) (index : Nat)

theorem evaluated_uses (span : Nat) (args : Option Json) (running : Running (Ending Bool)) (scene : Scene) :
    scene.hub.Uses (evaluated scope definition index span args running scene).2.hub := by
  cases running with
  | ended ending => exact .refl _
  | asleep deadline rest => exact .setAlarms _ _

theorem dispatch_uses (span : Nat) (args : Option Json) (scene : Scene) :
    scene.hub.Uses (dispatch scope definition index span args scene).2.hub := by
  obtain ⟨hub, journal⟩ := scene
  unfold dispatch
  split
  · exact evaluated_uses scope definition index span args _ ⟨hub, journal.record _⟩
  · split
    · exact .refl _
    · exact ((Uses.openQueue _ _ _).trans (.loadKeyed _ _ _ _)).trans (.await _ _ _)

theorem validated_uses (span : Nat) (running : Running Checked) (scene : Scene) :
    scene.hub.Uses (validated scope definition index span running scene).2.hub := by
  unfold validated
  split
  · split
    · exact dispatch_uses ..
    · exact .refl _
  · exact .setAlarms _ _

theorem begins_uses (scene : Scene) : scene.hub.Uses (begins scope definition index scene).2.hub := by
  obtain ⟨hub, journal⟩ := scene
  unfold begins
  dsimp only
  split
  · exact validated_uses scope definition index _ _ ⟨hub, Journal.record _ _⟩
  · exact .refl _
  · exact dispatch_uses scope definition index _ _ ⟨hub, Journal.recordAll _ _⟩

theorem advance_uses (stage : Stage) (scene : Scene) :
    scene.hub.Uses (advance scope definition index stage scene).2.hub := by
  unfold advance
  split
  · exact begins_uses ..
  · split
    · exact .refl _
    · exact validated_uses ..
  · split
    · exact .refl _
    · exact evaluated_uses ..
  · split
    · exact .refl _
    · exact .refl _
    · exact .refl _
  · exact .refl _

theorem advance_loads (stage : Stage) (scene : Scene) :
    scene.hub.Loads (advance scope definition index stage scene).2.hub :=
  (advance_uses scope definition index stage scene).loads

end Invocation

theorem Session.advance_uses (session : Session) (scene : Scene) (index : Nat) :
    scene.hub.Uses (session.advance scene index).2.hub := by
  unfold advance
  cases session.invocations[index]? with
  | none => exact .refl _
  | some invocation => exact Invocation.advance_uses ..

theorem Session.advance_loads (session : Session) (scene : Scene) (index : Nat) :
    scene.hub.Loads (session.advance scene index).2.hub := (session.advance_uses scene index).loads

instance : Client.Using Evaluation where
  poll_uses evaluation scene := by
    let polled (r : Session × Scene) : Prop := scene.hub.Uses r.2.hub
    refine List.foldlRecOn (motive := polled) _ _ (Uses.refl _) fun r uses index _ => ?_
    exact Uses.trans uses (r.1.advance_uses r.2 index)

/-! ### Programs -/

namespace Program

section Parts

variable {step : Nat → Program → Scene → Program × Scene}
  (step_uses : ∀ index program (scene : Scene), scene.hub.Uses (step index program scene).2.hub)

include step_uses

theorem pollSeries_uses (results : List Received) (parts : List Program) (scene : Scene) :
    scene.hub.Uses (pollSeries step results parts scene).2.hub := by
  induction parts generalizing results scene with
  | nil => exact .refl _
  | cons part parts ih =>
    have first := step_uses results.length part scene
    unfold pollSeries
    generalize step results.length part scene = r at first ⊢
    obtain ⟨part, later⟩ := r
    split
    · rename_i eq
      cases eq
      exact first.trans (ih _ _)
    · rename_i eq
      cases eq
      exact first

theorem pollAll_uses (index : Nat) (parts : List Program) (scene : Scene) :
    scene.hub.Uses (pollAll step index parts scene).2.hub := by
  induction parts generalizing index scene with
  | nil => exact .refl _
  | cons part parts ih => exact (step_uses index part scene).trans (ih _ _)

theorem pollCrowd_uses (place : Place) (turns : Nat) (queue : List Nat) (parts : List Program) (eager polled : Nat)
    (scene : Scene) : scene.hub.Uses (pollCrowd step place turns queue parts eager polled scene).2.hub := by
  induction turns generalizing queue parts eager polled scene with
  | zero => exact .refl _
  | succ turns ih =>
    cases queue with
    | nil => exact .refl _
    | cons i queue =>
      unfold pollCrowd
      split
      · exact ih ..
      · exact ih ..
      · rename_i part _ _
        have first := step_uses i part scene
        generalize step i part scene = r at first ⊢
        obtain ⟨part, later⟩ := r
        dsimp only
        split
        · exact first.trans (ih ..)
        · have woken : scene.hub.Uses (later.hub.wakeAll [place]) := first.trans (.wakeAll _ _)
          split
          · split
            · exact woken
            · exact first.trans (ih ..)
          · split
            · exact woken
            · exact first.trans (ih ..)

end Parts

theorem pollWithin_uses (depth : Nat) (place : Place) (program : Program) (scene : Scene) :
    scene.hub.Uses (program.pollWithin depth place scene).2.hub := by
  induction depth generalizing place program scene with
  | zero => exact .refl _
  | succ depth ih =>
    have step_uses (index : Nat) (program : Program) (scene : Scene) :
        scene.hub.Uses (pollWithin depth (place ++ [index]) program scene).2.hub := ih (place ++ [index]) program scene
    unfold pollWithin
    dsimp only
    split
    · exact (Uses.loadKeyed _ _ _ _).trans (.await _ _ _)
    · split
      · exact .refl _
      · exact .tell _ _ _
      · exact .tell _ _ _
    · split
      · exact .refl _
      · exact .setAlarms _ _
    · exact .refl _
    · exact pollSeries_uses step_uses _ _ _
    · split
      · exact pollAll_uses step_uses _ _ _
      · exact pollCrowd_uses step_uses _ _ _ _ _ _ _
    · exact pollCrowd_uses step_uses _ _ _ _ _ _ _
    · exact .refl _

end Program

instance : Client.Using Performance where
  poll_uses _ scene := Program.pollWithin_uses _ _ _ scene

end Segmentation
