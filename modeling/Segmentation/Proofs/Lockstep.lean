import Mathlib.Data.List.Basic
import Mathlib.Data.Option.Basic
import Segmentation.Machine

/-!
# Runs that go the same way

`Finishes s f` says that some run without limit takes a machine from `s` to its end `f`.

* (lockstep) Two machines that always make the same kind of move finish together (`Lockstep.finishes`).
* (patience) A machine that does not notice time passing before its next alarm finishes in the same state whatever
  other alarms stand beside it (`Patient.finishes_beside_iff`).
-/

namespace Segmentation.Machine

variable {σ τ : Type} [Machine σ] [Machine τ]

section

variable {Kept : σ → Prop} (poll_keeps : ∀ s, Kept s → Kept (poll s))
  (advance_keeps : ∀ t s, Kept s → Kept (advance t s)) (limit : Option Nat)

include poll_keeps advance_keeps

private theorem step_keeps {s : σ} (kept : Kept s) : Sum.elim Kept (fun r => Kept r.2) (step limit s) := by
  unfold step
  split
  · exact kept
  · split
    · exact poll_keeps s kept
    · split
      · exact kept
      · exact advance_keeps _ s kept
      · split <;> exact advance_keeps _ s kept

theorem runFor_keeps (moves : Nat) {s : σ} (kept : Kept s) : Kept (runFor limit moves s).2 := by
  induction moves generalizing s with
  | zero => exact kept
  | succ moves ih =>
    have next := step_keeps poll_keeps advance_keeps limit kept
    simp only [runFor]
    cases moved : step limit s with
    | inl s' =>
      rw [moved] at next
      exact ih next
    | inr r =>
      rw [moved] at next
      exact next

/-- What polls and passing time keep is kept by every run. -/
theorem run_keeps (moves : Nat) {s : σ} (kept : Kept s) : Kept (run limit moves s).2 :=
  runFor_keeps poll_keeps advance_keeps limit moves (poll_keeps s kept)

end

/-- A run that says so has ended where the machine has finished. -/
theorem finished_of_runFor {limit : Option Nat} {moves : Nat} {s f : σ}
    (run : runFor limit moves s = (.finished, f)) : finished f = true := by
  induction moves generalizing s with
  | zero => cases run
  | succ moves ih =>
    rw [runFor] at run
    cases moved : step limit s with
    | inl s' =>
      rw [moved] at run
      exact ih run
    | inr r =>
      rw [moved] at run
      obtain rfl : r = (.finished, f) := run
      unfold step at moved
      split at moved
      · cases moved
        assumption
      · split at moved
        · cases moved
        · split at moved
          · cases moved
          · cases moved
          · split at moved <;> cases moved

/-- The machine has not finished, and nothing in it is awake. -/
def Idle (s : σ) : Prop := finished s = false ∧ awake s = false

/-- How a run ends that has come to some state. -/
inductive Stops (last : σ) : Verdict × σ → Prop where
  | finished (ended : Machine.finished last = true) : Stops last (.finished, last)
  | stalled (idle : Idle last) (none_set : nextAlarm last = none) : Stops last (.stalled, last)
  | abandoned (idle : Idle last) {t limit : Nat} (next : nextAlarm last = some t) (late : limit < t) :
    Stops last (.abandoned, advance limit last)
  | exhausted : Stops last (.exhausted, last)

/-- What holds of the state in which a run ends is kept by polls, and by time that passes up to the next alarm while
nothing is awake. -/
theorem runFor_stops {Kept : σ → Prop} (polls : ∀ s, Kept s → Kept (poll s))
    (waits : ∀ s t, Kept s → Idle s → nextAlarm s = some t → Kept (advance t s)) (limit : Option Nat) (moves : Nat)
    {s : σ} (kept : Kept s) : ∃ last, Kept last ∧ Stops last (runFor limit moves s) := by
  induction moves generalizing s with
  | zero => exact ⟨s, kept, .exhausted⟩
  | succ moves ih =>
    rw [runFor]
    cases ended : finished s with
    | true =>
      have last : step limit s = .inr (.finished, s) := by simp [step, ended]
      rw [last]
      exact ⟨s, kept, .finished ended⟩
    | false =>
      cases up : awake s with
      | true =>
        have move : step limit s = .inl (poll s) := by simp [step, ended, up]
        rw [move]
        exact ih (polls s kept)
      | false =>
        have idle : Idle s := ⟨ended, up⟩
        cases next : nextAlarm s with
        | none =>
          have last : step limit s = .inr (.stalled, s) := by simp [step, ended, up, next]
          rw [last]
          exact ⟨s, kept, .stalled idle next⟩
        | some t =>
          have waited := waits s t kept idle next
          cases limit with
          | none =>
            have move : step none s = .inl (advance t s) := by simp [step, ended, up, next]
            rw [move]
            exact ih waited
          | some limit =>
            by_cases late : limit < t
            · have last : step (some limit) s = .inr (.abandoned, advance limit s) := by
                simp [step, ended, up, next, late]
              rw [last]
              exact ⟨s, kept, .abandoned idle next late⟩
            · have move : step (some limit) s = .inl (advance t s) := by simp [step, ended, up, next, late]
              rw [move]
              exact ih waited

/-- Runs without limit, by their moves. -/
inductive Finishes : σ → σ → Prop where
  | done {s : σ} (ended : finished s = true) : Finishes s s
  | polls {s f : σ} (running : finished s = false) (up : awake s = true) (rest : Finishes (poll s) f) : Finishes s f
  | waits {s f : σ} {t : Nat} (idle : Idle s) (next : nextAlarm s = some t) (rest : Finishes (advance t s) f) :
    Finishes s f

/-- A run that finishes needs no more than some number of moves. -/
theorem Finishes.enough {s f : σ} (run : Finishes s f) :
    ∃ enough, ∀ moves, enough ≤ moves → runFor none moves s = (.finished, f) := by
  -- one move more than the rest of the run
  have later {s s' f : σ} (move : step none s = .inl s')
      (rest : ∃ enough, ∀ moves, enough ≤ moves → runFor none moves s' = (.finished, f)) :
      ∃ enough, ∀ moves, enough ≤ moves → runFor none moves s = (.finished, f) := by
    obtain ⟨enough, rest⟩ := rest
    refine ⟨enough + 1, fun moves le => ?_⟩
    obtain ⟨moves, rfl⟩ := Nat.exists_eq_add_of_le' (Nat.le_of_add_left_le le)
    rw [runFor, move]
    exact rest moves (Nat.le_of_add_le_add_right le)
  induction run with
  | done ended =>
    refine ⟨1, fun moves le => ?_⟩
    obtain ⟨moves, rfl⟩ := Nat.exists_eq_add_of_le' le
    simp [runFor, step, ended]
  | polls running up rest ih => exact later (by simp [step, running, up]) ih
  | waits idle next rest ih => exact later (by simp [step, idle.1, idle.2, next]) ih

theorem finishes_iff {s f : σ} : Finishes s f ↔ ∃ moves, runFor none moves s = (.finished, f) := by
  constructor
  · intro run
    obtain ⟨enough, all⟩ := run.enough
    exact ⟨enough, all enough (Nat.le_refl _)⟩
  · rintro ⟨moves, h⟩
    induction moves generalizing s with
    | zero => simp [runFor] at h
    | succ moves ih =>
      simp only [runFor, step] at h
      cases ended : finished s with
      | true =>
        simp only [ended, if_true, Prod.mk.injEq, true_and] at h
        exact h ▸ .done ended
      | false =>
        cases up : awake s with
        | true =>
          simp only [ended, up, Bool.false_eq_true, if_false, if_true] at h
          exact .polls ended up (ih h)
        | false =>
          cases next : nextAlarm s with
          | none => simp [ended, up, next] at h
          | some t =>
            simp only [ended, up, next, Bool.false_eq_true, if_false] at h
            exact .waits ⟨ended, up⟩ next (ih h)

theorem Finishes.eq_of_finished {s f : σ} (run : Finishes s f) (ended : finished s = true) : f = s := by
  cases run with
  | done => rfl
  | polls running => simp [ended] at running
  | waits idle => simp [idle.1] at ended

theorem Finishes.unique {s e f : σ} (run : Finishes s e) (other : Finishes s f) : e = f := by
  induction run with
  | done ended => exact (other.eq_of_finished ended).symm
  | polls running up rest ih =>
    cases other with
    | done ended => simp [running] at ended
    | polls _ _ other => exact ih other
    | waits idle => simp [idle.2] at up
  | waits idle next rest ih =>
    cases other with
    | done ended => simp [idle.1] at ended
    | polls _ up => simp [idle.2] at up
    | waits _ next' other =>
      obtain rfl := Option.some.inj (next.symm.trans next')
      exact ih other

/-! ### Lockstep -/

/-- Machines in related states make the same kind of move and stay related.  Each has a clock of its own; `f` and `g`
tell which of their instants are the same. -/
structure Lockstep (f g : Nat → Nat) (Related : σ → τ → Prop) : Prop where
  finished {s t} : Related s t → finished s = finished t
  awake {s t} : Related s t → awake s = awake t
  nextAlarm {s t} : Related s t → (nextAlarm s).map f = (nextAlarm t).map g
  poll {s t} : Related s t → Machine.awake s = true → Related (poll s) (poll t)
  advance {s t u v} : Related s t → f u = g v → Related (advance u s) (advance v t)

namespace Lockstep

variable {f g : Nat → Nat} {Related : σ → τ → Prop}

theorem symm (lockstep : Lockstep f g Related) : Lockstep g f fun t s => Related s t where
  finished h := (lockstep.finished h).symm
  awake h := (lockstep.awake h).symm
  nextAlarm h := (lockstep.nextAlarm h).symm
  poll h up := lockstep.poll h (lockstep.awake h ▸ up)
  advance h same := lockstep.advance h same.symm

theorem finishes (lockstep : Lockstep f g Related) {s e : σ} {t : τ} (h : Related s t) (run : Finishes s e) :
    ∃ e', Related e e' ∧ Finishes t e' := by
  induction run generalizing t with
  | done ended => exact ⟨t, h, .done (lockstep.finished h ▸ ended)⟩
  | polls running up rest ih =>
    obtain ⟨e', related, run⟩ := ih (lockstep.poll h up)
    exact ⟨e', related, .polls (lockstep.finished h ▸ running) (lockstep.awake h ▸ up) run⟩
  | waits idle next rest ih =>
    have alarm := lockstep.nextAlarm h
    rw [next, Option.map_some] at alarm
    obtain ⟨v, later, same⟩ := Option.map_eq_some_iff.1 alarm.symm
    obtain ⟨e', related, run⟩ := ih (lockstep.advance h same.symm)
    exact ⟨e', related, .waits ⟨lockstep.finished h ▸ idle.1, lockstep.awake h ▸ idle.2⟩ later run⟩

/-- On one clock whatever number of moves ends in the same way, in related states. -/
theorem runFor (lockstep : Lockstep id id Related) (limit : Option Nat) (moves : Nat) {s : σ} {t : τ}
    (h : Related s t) :
    (runFor limit moves s).1 = (runFor limit moves t).1 ∧
      Related (runFor limit moves s).2 (runFor limit moves t).2 := by
  induction moves generalizing s t with
  | zero => exact ⟨rfl, h⟩
  | succ moves ih =>
    have alarm : Machine.nextAlarm s = Machine.nextAlarm t := by simpa using lockstep.nextAlarm h
    simp only [Machine.runFor, step, lockstep.finished h, alarm]
    cases Machine.finished t with
    | true => exact ⟨rfl, h⟩
    | false =>
      cases up : Machine.awake s with
      | true =>
        rw [lockstep.awake h] at up
        simp only [up, if_true, Bool.false_eq_true, if_false]
        exact ih (lockstep.poll h (lockstep.awake h ▸ up))
      | false =>
        rw [lockstep.awake h] at up
        simp only [up, Bool.false_eq_true, if_false]
        cases Machine.nextAlarm t with
        | none => exact ⟨rfl, h⟩
        | some next =>
          cases limit with
          | none => exact ih (lockstep.advance h rfl)
          | some limit =>
            by_cases late : limit < next
            · simp only [late, if_true]
              exact ⟨trivial, lockstep.advance h rfl⟩
            · simp only [late, if_false]
              exact ih (lockstep.advance h rfl)

/-- Runs of machines that are related once they were polled end in the same way, in related states. -/
theorem run (lockstep : Lockstep id id Related) (limit : Option Nat) (moves : Nat) {s : σ} {t : τ}
    (polled : Related (Machine.poll s) (Machine.poll t)) :
    (Machine.run limit moves s).1 = (Machine.run limit moves t).1 ∧
      Related (Machine.run limit moves s).2 (Machine.run limit moves t).2 :=
  lockstep.runFor limit moves polled

/-- Machines that are in lockstep on one clock are so beside the same alarms. -/
theorem beside (lockstep : Lockstep id id Related) :
    Lockstep id id fun (b : Beside σ) (c : Beside τ) => Related b.machine c.machine ∧ b.others = c.others where
  finished h := lockstep.finished h.1
  awake h := lockstep.awake h.1
  nextAlarm {b c} h := by
    have same := lockstep.nextAlarm h.1
    simp only [Option.map_id, id] at same ⊢
    simp only [Machine.nextAlarm] at same ⊢
    rw [same, h.2]
  poll h up := ⟨lockstep.poll h.1 up, h.2⟩
  advance {b c u v} h same := ⟨lockstep.advance h.1 same, by
    obtain rfl : u = v := same
    simp only [Machine.advance, h.2]⟩

end Lockstep

/-! ### Patience -/

/-- The instant is before the next alarm. -/
def IsQuiet (s : σ) (u : Nat) : Prop := ∀ t, nextAlarm s = some t → u < t

/-- In a sound state in which nothing is awake the machine does not notice that time passes before its next alarm. -/
structure Patient (Sound : σ → Prop) : Prop where
  sound_poll {s} : Sound s → awake s = true → Sound (poll s)
  sound_advance {s} : Sound s → Idle s → ∀ t, Sound (advance t s)
  idle_advance {s u} : Sound s → Idle s → IsQuiet s u → Idle (advance u s)
  nextAlarm_advance {s u} : Sound s → Idle s → IsQuiet s u → nextAlarm (advance u s) = nextAlarm s
  advance_advance {s u} : Sound s → Idle s → IsQuiet s u → ∀ v, advance v (advance u s) = advance v s

/-- The same state, or the state some time later but before the next alarm. -/
def Dozes (s later : σ) : Prop := later = s ∨ Idle s ∧ ∃ u, IsQuiet s u ∧ later = advance u s

namespace Dozes

theorem eq_of_finished {s later : σ} (dozes : Dozes s later) (ended : finished s = true) : later = s := by
  rcases dozes with rfl | ⟨idle, -⟩
  · rfl
  · simp [idle.1] at ended

theorem eq_of_awake {s later : σ} (dozes : Dozes s later) (up : awake s = true) : later = s := by
  rcases dozes with rfl | ⟨idle, -⟩
  · rfl
  · simp [idle.2] at up

variable {Sound : σ → Prop} (patient : Patient Sound) {s later : σ} (sound : Sound s) (dozes : Dozes s later)

include patient sound dozes

theorem finished_eq : finished later = finished s := by
  rcases dozes with rfl | ⟨idle, u, quiet, rfl⟩
  · rfl
  · rw [(patient.idle_advance sound idle quiet).1, idle.1]

theorem awake_eq : awake later = awake s := by
  rcases dozes with rfl | ⟨idle, u, quiet, rfl⟩
  · rfl
  · rw [(patient.idle_advance sound idle quiet).2, idle.2]

theorem nextAlarm_eq : nextAlarm later = nextAlarm s := by
  rcases dozes with rfl | ⟨idle, u, quiet, rfl⟩
  · rfl
  · exact patient.nextAlarm_advance sound idle quiet

theorem advance_eq (v : Nat) : advance v later = advance v s := by
  rcases dozes with rfl | ⟨idle, u, quiet, rfl⟩
  · rfl
  · exact patient.advance_advance sound idle quiet v

end Dozes

namespace Patient

variable {Sound : σ → Prop} (patient : Patient Sound)

/-- The next alarm among several others is one of them, and nobody's alarm is before it. -/
private theorem nextAlarm_beside {b : Beside σ} {t : Nat} (next : nextAlarm b = some t) :
    (nextAlarm b.machine = some t ∨ t ∈ b.others) ∧ ∀ u, nextAlarm b.machine = some u → t ≤ u := by
  have first : ((nextAlarm b.machine).toList ++ b.others).min? = some t := next
  obtain ⟨mem, least⟩ := List.min?_eq_some_iff.1 first
  simp only [List.mem_append, Option.mem_toList] at mem least
  exact ⟨mem, fun u alarm => least u (.inl alarm)⟩

include patient

theorem finishes_of_beside {b e : Beside σ} (run : Finishes b e) {s : σ} (sound : Sound s)
    (dozes : Dozes s b.machine) : Finishes s e.machine := by
  -- The lone machine makes the moves that concern it, and dozes while other alarms go off.
  induction run generalizing s with
  | @done b ended =>
    have ended : finished s = true := dozes.finished_eq patient sound ▸ ended
    rw [dozes.eq_of_finished ended]
    exact .done ended
  | @polls b e running up rest ih =>
    have running : finished s = false := dozes.finished_eq patient sound ▸ running
    have up : awake s = true := dozes.awake_eq patient sound ▸ up
    refine .polls running up (ih (patient.sound_poll sound up) (.inl ?_))
    exact congrArg Machine.poll (dozes.eq_of_awake up)
  | @waits b e t idle next rest ih =>
    have idle : Idle s := ⟨dozes.finished_eq patient sound ▸ idle.1, dozes.awake_eq patient sound ▸ idle.2⟩
    obtain ⟨mem, least⟩ := nextAlarm_beside next
    rw [dozes.nextAlarm_eq patient sound] at mem least
    have advanced := dozes.advance_eq patient sound t
    by_cases own : nextAlarm s = some t
    · exact .waits idle own (ih (patient.sound_advance sound idle t) (.inl advanced))
    · -- The alarm is one of the others, and the machine goes on dozing.
      refine ih sound (.inr ⟨idle, t, fun u alarm => ?_, advanced⟩)
      exact Nat.lt_of_le_of_ne (least u alarm) fun same => own (same ▸ alarm)

theorem beside_of_finishes {s e : σ} (run : Finishes s e) (sound : Sound s) {b : Beside σ}
    (dozes : Dozes s b.machine) : ∃ others, Finishes b ⟨e, others⟩ := by
  induction run generalizing b with
  | done ended =>
    obtain ⟨machine, others⟩ := b
    obtain rfl := dozes.eq_of_finished ended
    exact ⟨others, .done ended⟩
  | polls running up rest ih =>
    obtain ⟨machine, others⟩ := b
    obtain rfl := dozes.eq_of_awake up
    obtain ⟨others, run⟩ := ih (patient.sound_poll sound up) (b := Machine.poll ⟨machine, others⟩) (.inl rfl)
    exact ⟨others, .polls running up run⟩
  | @waits s e t idle next rest ih =>
    -- The others that go off before the machine's own alarm go off one instant after the other.
    induction others : b.others.length using Nat.strongRecOn generalizing b with
    | ind size shorter =>
      have idle_beside : Idle b :=
        ⟨(dozes.finished_eq patient sound).trans idle.1, (dozes.awake_eq patient sound).trans idle.2⟩
      cases alarm : nextAlarm b with
      | none =>
        have none : ((nextAlarm b.machine).toList ++ b.others).min? = none := alarm
        rw [dozes.nextAlarm_eq patient sound, next] at none
        simp at none
      | some v =>
        obtain ⟨mem, least⟩ := nextAlarm_beside alarm
        rw [dozes.nextAlarm_eq patient sound, next] at mem least
        have advanced := dozes.advance_eq patient sound v
        by_cases own : v = t
        · subst own
          obtain ⟨others, run⟩ := ih (patient.sound_advance sound idle v) (b := advance v b) (.inl advanced)
          exact ⟨others, .waits idle_beside alarm run⟩
        · have stray : v ∈ b.others := mem.resolve_left fun same => own (Option.some.inj same).symm
          have early : v < t := Nat.lt_of_le_of_ne (least t rfl) own
          have fewer : (advance v b).others.length < size := by
            subst others
            refine List.length_filter_lt_length_iff_exists.2 ⟨v, stray, by simp⟩
          obtain ⟨others, run⟩ := shorter _ fewer (b := advance v b)
            (.inr ⟨idle, v, fun u alarm => Option.some.inj (next.symm.trans alarm) ▸ early, advanced⟩) rfl
          exact ⟨others, .waits idle_beside alarm run⟩

theorem finishes_beside_iff {s e : σ} (sound : Sound s) (others : List Nat) :
    (∃ left, Finishes (⟨s, others⟩ : Beside σ) ⟨e, left⟩) ↔ Finishes s e :=
  ⟨fun ⟨_, run⟩ => patient.finishes_of_beside run sound (.inl rfl),
    fun run => patient.beside_of_finishes run sound (.inl rfl)⟩

end Patient

end Segmentation.Machine
