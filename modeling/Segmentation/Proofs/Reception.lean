import Segmentation.Engine.Service
import Segmentation.Proofs.Deeds
import Segmentation.Proofs.Lockstep

/-!
# What becomes of a subject

A subject is received when its validation has come to an end, whatever alarms of earlier calls go off meanwhile.  Its
validation decides what becomes of it (`Reception.Faithful`): the value that the schema gave, the issues that it found, or
one issue if it panicked or gave no value.  That is so if and only if the schema does not panic in the call, before there
is a validation (`Service.contains_iff`).
-/

namespace Segmentation

/-! ### Tasks on their own -/

/-- A task that sleeps goes on at a later instant. -/
theorem Task.lt_of_start {ρ : Type} {now deadline : Nat} {task rest : Task ρ}
    (sleeps : task.start now = .asleep deadline rest) : now < deadline := by
  induction task with
  | done result => cases sleeps
  | sleep ticks later ih =>
    cases ticks with
    | zero => exact ih sleeps
    | succ ticks =>
      obtain ⟨rfl, -⟩ := Running.asleep.inj sleeps
      exact Nat.lt_add_of_pos_right (Nat.succ_pos ticks)

namespace Solo

open Machine (Finishes Idle IsQuiet)

variable {ρ : Type}

theorem patient : Machine.Patient fun _ : Solo ρ => True where
  sound_poll _ _ := trivial
  sound_advance _ _ _ := trivial
  idle_advance {s u} _ idle quiet := by
    obtain ⟨journal, running⟩ := s
    cases running with
    | ended result => cases idle.1
    | asleep deadline rest =>
      have early : u < deadline := quiet deadline rfl
      exact ⟨rfl, decide_eq_false (Nat.not_le.2 early)⟩
  nextAlarm_advance _ _ _ := rfl
  advance_advance _ _ _ _ := rfl

/-- There is nothing to do for a task that was only just started. -/
theorem poll_start (journal : Journal) (task : Task ρ) : Machine.poll (start journal task) = start journal task := by
  change (start journal task).poll = _
  cases sleeps : task.start journal.now with
  | ended result => simp only [start, poll, sleeps]
  | asleep deadline rest =>
    have early := Nat.not_le.2 (Task.lt_of_start sleeps)
    simp only [start, poll, sleeps, if_neg early]

/-- Left alone, a task comes to its result, and nothing is written. -/
theorem finishes (task : Task ρ) (journal : Journal) :
    ∃ now, Finishes (start journal task) ⟨journal.moveTo now, .ended task.final⟩ := by
  induction task generalizing journal with
  | done result => exact ⟨journal.now, .done rfl⟩
  | sleep ticks rest ih =>
    cases ticks with
    | zero => exact ih journal
    | succ ticks =>
      let deadline := journal.now + (ticks + 1)
      obtain ⟨now, finishes⟩ := ih (journal.moveTo deadline)
      have early : ¬ deadline ≤ journal.now := Nat.not_le.2 (Nat.lt_add_of_pos_right (Nat.succ_pos ticks))
      have idle : Idle (⟨journal, .asleep deadline rest⟩ : Solo ρ) := ⟨rfl, decide_eq_false early⟩
      refine ⟨now, .waits idle (t := deadline) rfl (.polls rfl (decide_eq_true (Nat.le_refl deadline)) ?_)⟩
      have goes_on : Machine.poll (Machine.advance deadline (start journal (.sleep (ticks + 1) rest))) =
          start (journal.moveTo deadline) rest := if_pos (Nat.le_refl deadline)
      rwa [goes_on]

end Solo

/-! ### Receptions -/

/-- The reception is what the validation asks for: the value that it gave, its own issues if it rejected the subject, and
one issue if it panicked or gave no value. -/
def Reception.Faithful : Checked → Reception → Prop
  | .ok (.accepted value), reception => reception = .accepted value
  | .ok (.rejected issues), reception => reception = .refused issues
  | .ok .empty, reception => ∃ issue, reception = .refused [issue]
  | .error _, reception => ∃ issue, reception = .refused [issue]

/-- Judging a validation is faithful to it. -/
theorem Engine.faithful_judge (checked : Checked) :
    (match judge checked with
      | .ok subject => Reception.accepted subject
      | .error issues => .refused issues).Faithful checked := by
  cases checked with
  | error payload => exact ⟨_, rfl⟩
  | ok validation =>
    cases validation with
    | accepted value => rfl
    | empty => exact ⟨_, rfl⟩
    | rejected issues => rfl

namespace Service

/-- Whatever its schema does with the input, the service receives it faithfully, after enough moves; a panic is as good
in the call of the schema as it is later. -/
def Contains (service : Service) (input : Json) : Prop :=
  ∃ enough, ∀ moves, enough ≤ moves → ∃ reception later,
    service.receive moves input = (some reception, later) ∧ later.engine = service.engine ∧
      reception.Faithful ((service.engine.schema input).final .error)

/-- A subject is received faithfully if and only if the schema does not panic in the call. -/
theorem contains_iff (service : Service) (input : Json) :
    service.Contains input ↔ ∀ payload, service.engine.schema input ≠ .panics payload := by
  constructor
  · rintro ⟨enough, all⟩ payload panics
    obtain ⟨reception, later, received, -, faithful⟩ := all enough (Nat.le_refl _)
    rw [receive, Engine.receive, panics] at received
    rw [panics] at faithful
    obtain ⟨issue, refused⟩ := faithful
    rw [refused] at received
    cases received
  · intro no_panic
    unfold Contains
    cases called : service.engine.schema input with
    | panics payload => exact absurd called (no_panic payload)
    | starts task =>
      obtain ⟨now, alone⟩ := Solo.finishes task service.journal
      obtain ⟨left, finishes⟩ := (Solo.patient.finishes_beside_iff trivial service.strays).2 alone
      obtain ⟨enough, runs⟩ := finishes.enough
      refine ⟨enough, fun moves le => ?_⟩
      have run : Machine.run none moves (⟨Solo.start service.journal task, service.strays⟩ : Beside (Solo Checked)) =
          (.finished, ⟨⟨service.journal.moveTo now, .ended task.final⟩, left⟩) := by
        rw [← runs moves le]
        exact congrArg (fun solo => Machine.runFor none moves (⟨solo, service.strays⟩ : Beside (Solo Checked)))
          (Solo.poll_start service.journal task)
      refine ⟨_, ⟨service.engine, Engine.noteChecked (service.journal.moveTo now) task.final, left⟩, ?_, rfl,
        Engine.faithful_judge task.final⟩
      simp only [receive, Engine.receive, called, run]
      rfl

/-- A service whose schema panics in the call. -/
def rash : Service := ⟨⟨fun _ => .panics (.text "boom"), [], .compile [] defaultMemoCapacity, .default⟩, .empty, []⟩

/-- A panic in the call of the schema comes through. -/
theorem panic_in_call_escapes :
    (Engine.build (fun _ => .panics (.text "boom")) .default [] [] .empty).1 = .ok rash.engine ∧
      (∀ moves, (rash.receive moves .null).1 = some (.panicked (.text "boom"))) ∧ ¬ rash.Contains .null := by
  have escapes (moves : Nat) : (rash.receive moves .null).1 = some (.panicked (.text "boom")) := rfl
  refine ⟨rfl, escapes, ?_⟩
  rintro ⟨enough, all⟩
  obtain ⟨reception, later, received, -, issue, refused⟩ := all enough (Nat.le_refl _)
  have same := (congrArg Prod.fst received).symm.trans (escapes enough)
  rw [refused] at same
  cases same

end Service

end Segmentation
