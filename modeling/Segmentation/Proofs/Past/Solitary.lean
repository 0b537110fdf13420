import Segmentation.Proofs.Alarms
import Segmentation.Proofs.Lockstep
import Segmentation.Proofs.Past.Call

/-!
# Calls on their own

A `Solitary` is one call with its journal.  It is what a party of one call comes to once the call has begun
(`Solitary.lockstep_party`).  It goes the same way after every past (`Solitary.lockstep_after`), and other alarms
on the clock do not concern it (`Solitary.patient`).
-/

namespace Segmentation

/-! ### Calls that have begun -/

namespace Call

/-- The call has built its expression. -/
def HasBegun (call : Call) : Prop := call.stage ≠ .waiting

/-- Every batch that sleeps while the queues are emptied has its alarm. -/
def Alarmed (call : Call) (journal : Journal) : Prop :=
  match call.stage with
  | .flushing _ _ hub _ _ flush => flush.Alarmed ⟨hub, journal⟩
  | _ => True

variable (call : Call) (span context : Nat)

theorem recovered_spec (running : Running (Ending Bool)) (journal later : Journal) :
    (call.recovered span running journal).1.HasBegun ∧ (call.recovered span running journal).1.Alarmed later := by
  unfold recovered
  split
  · exact ⟨nofun, trivial⟩
  · split <;> exact ⟨nofun, trivial⟩

theorem conclude_spec (outcome : Outcome) (journal later : Journal) :
    (call.conclude span outcome journal).1.HasBegun ∧ (call.conclude span outcome journal).1.Alarmed later := by
  unfold conclude
  split
  · exact ⟨nofun, trivial⟩
  · split
    · exact ⟨nofun, trivial⟩
    · exact recovered_spec _ _ _ _ _

theorem flushQueues_spec (outcome : Outcome) (invocations : Nat) (flush : Flush) (scene : Scene) :
    let r := call.flushQueues span context outcome invocations flush scene
    r.1.HasBegun ∧ (flush.Alarmed scene → r.1.Alarmed r.2) := by
  unfold flushQueues
  simp only
  split
  · have concluded := fun call journal later => conclude_spec call span outcome journal later
    exact ⟨(concluded _ _ Journal.empty).1, fun _ => (concluded _ _ _).2⟩
  · exact ⟨nofun, Flush.pass_alarmed flush scene⟩

theorem driveOn_spec (drive : Drive Evaluation) (scene : Scene) :
    let r := call.driveOn span context drive scene
    r.1.HasBegun ∧ r.1.Alarmed r.2 := by
  unfold driveOn
  simp only
  split
  · have flushed := fun outcome invocations scene =>
      flushQueues_spec call span context outcome invocations .start scene
    exact ⟨(flushed _ _ _).1, (flushed _ _ _).2 (Flush.alarmed_start _)⟩
  · exact ⟨nofun, trivial⟩

theorem poll_spec (segments : Keyed SegmentDefinition) (registry : Registry) (journal : Journal)
    (begun : call.HasBegun) :
    let r := call.poll segments registry journal
    r.1.HasBegun ∧ (call.Alarmed journal → r.1.Alarmed r.2.2) := by
  have stay : call.HasBegun ∧ (call.Alarmed journal → call.Alarmed journal) := ⟨begun, id⟩
  unfold Alarmed at stay
  unfold poll Alarmed
  cases stage : call.stage with
  | waiting => exact absurd stage begun
  | driving span context hub drive =>
    have driven := driveOn_spec call span context drive ⟨hub, journal⟩
    exact ⟨driven.1, fun _ => driven.2⟩
  | flushing span context hub outcome invocations flush =>
    exact flushQueues_spec call span context outcome invocations flush ⟨hub, journal⟩
  | recovering span deadline alarm rest =>
    simp only
    split
    · have recovered := recovered_spec call span (rest.start journal.now) journal
      exact ⟨(recovered journal).1, fun _ => (recovered _).2⟩
    · exact ⟨begun, by rw [stage]; exact id⟩
  | answered value => exact ⟨begun, by rw [stage]; exact id⟩

/-- A call that has begun asks neither the segments nor the registry, and leaves the registry as it is. -/
theorem poll_eq (segments : Keyed SegmentDefinition) (registry : Registry) (journal : Journal)
    (begun : call.HasBegun) :
    call.poll segments registry journal =
      ((call.poll [] ⟨[], 0⟩ journal).1, registry, (call.poll [] ⟨[], 0⟩ journal).2.2) := by
  unfold poll
  cases stage : call.stage with
  | waiting => exact absurd stage begun
  | recovering span deadline alarm rest =>
    simp only
    split <;> rfl
  | _ => rfl

theorem begun_advance (begun : call.HasBegun) (now : Nat) : (call.advance now).HasBegun := by
  obtain ⟨_, _, _, stage, _⟩ := call
  cases stage with
  | waiting => exact absurd rfl begun
  | _ => nofun

end Call

/-- One call with its journal. -/
structure Solitary where
  call : Call
  journal : Journal

namespace Solitary

instance : Machine Solitary where
  poll s :=
    let (call, _, journal) := s.call.poll [] ⟨[], 0⟩ s.journal
    ⟨call, journal⟩
  finished s := s.call.answer?.isSome
  awake s := s.call.awake s.journal.now
  nextAlarm s := s.call.alarms.min?
  advance now s := ⟨s.call.advance now, s.journal.moveTo now⟩

/-! ### A party of one -/

/-- The party consists of this call, which has begun. -/
def IsParty (party : Party) (s : Solitary) : Prop :=
  party.calls = [s.call] ∧ party.journal = s.journal ∧ s.call.HasBegun

theorem poll_party {party : Party} {call : Call} (alone : party.calls = [call])
    (up : call.awake party.journal.now = true) :
    party.poll.calls = [(call.poll party.segments party.registry party.journal).1] ∧
      party.poll.journal = (call.poll party.segments party.registry party.journal).2.2 := by
  simp [Party.poll, Party.pollCall, alone, up, Gathering.turns, Gathering.isSmall, Gathering.smallSize]

theorem lockstep_party : Machine.Lockstep id id IsParty where
  finished {party s} h := by simp [Machine.finished, h.1]
  awake {party s} h := by simp [Machine.awake, h.1, h.2.1]
  nextAlarm {party s} h := by simp [Machine.nextAlarm, h.1]
  poll {party s} h up := by
    obtain ⟨alone, journal, begun⟩ := h
    have up : s.call.awake party.journal.now = true := by simpa [Machine.awake, alone] using up
    obtain ⟨calls_eq, journal_eq⟩ := poll_party alone up
    rw [Call.poll_eq _ _ _ _ begun, journal] at calls_eq journal_eq
    exact ⟨calls_eq, journal_eq, (Call.poll_spec s.call _ _ _ begun).1⟩
  advance {party s u v} h same := by
    obtain rfl : u = v := same
    refine ⟨?_, ?_, Call.begun_advance _ h.2.2 u⟩
    · simp [Machine.advance, h.1]
    · simp [Machine.advance, h.2.1]

/-! ### After a past -/

def after (past : Past) (s : Solitary) : Solitary := ⟨s.call.after past, s.journal.after past⟩

/-- Two calls with pure evaluators that are the same, one after `p` and the other after `q`. -/
def Alike (p q : Past) (s t : Solitary) : Prop :=
  s.after p = t.after q ∧ s.call.HasBegun ∧ s.call.stage.Pure ∧ t.call.HasBegun ∧ t.call.stage.Pure

theorem min?_map_add (delay : Nat) (l : List Nat) : (l.map (delay + ·)).min? = l.min?.map (delay + ·) := by
  induction l with
  | nil => rfl
  | cons a l ih =>
    rw [List.map_cons, List.min?_cons, List.min?_cons, ih]
    cases l.min? <;> simp [Nat.add_min_add_left]

section

variable (past : Past) (s : Solitary)

theorem finished_after : Machine.finished (s.after past) = Machine.finished s := by
  simp [Machine.finished, after]

theorem awake_after : Machine.awake (s.after past) = Machine.awake s := Call.awake_after past s.call s.journal.now

theorem nextAlarm_after : Machine.nextAlarm (s.after past) = (Machine.nextAlarm s).map (past.journal.now + ·) := by
  simp only [Machine.nextAlarm, after, Call.alarms_after, min?_map_add]

theorem poll_after (begun : s.call.HasBegun) (pure : s.call.stage.Pure) :
    Machine.poll (s.after past) = (Machine.poll s).after past := by
  simp only [Machine.poll, after, Call.poll_after past s.call _ _ _ begun pure]

theorem advance_after (now : Nat) :
    Machine.advance (past.journal.now + now) (s.after past) = (Machine.advance now s).after past := by
  simp only [Machine.advance, after, Call.advance_after, Journal.moveTo_after]

end

theorem lockstep_after (p q : Past) :
    Machine.Lockstep (p.journal.now + ·) (q.journal.now + ·) (Alike p q) where
  finished {s t} h := by rw [← finished_after p s, h.1, finished_after]
  awake {s t} h := by rw [← awake_after p s, h.1, awake_after]
  nextAlarm {s t} h := by rw [← nextAlarm_after p s, h.1, nextAlarm_after]
  poll {s t} h _ := by
    obtain ⟨same, begun, pure, begun', pure'⟩ := h
    refine ⟨?_, (Call.poll_spec s.call _ _ _ begun).1, Call.pure_poll s.call _ _ _ begun pure,
      (Call.poll_spec t.call _ _ _ begun').1, Call.pure_poll t.call _ _ _ begun' pure'⟩
    rw [← poll_after p s begun pure, same, poll_after q t begun' pure']
  advance {s t u v} h same_instant := by
    obtain ⟨same, begun, pure, begun', pure'⟩ := h
    refine ⟨?_, Call.begun_advance _ begun u, Call.pure_advance _ pure u, Call.begun_advance _ begun' v,
      Call.pure_advance _ pure' v⟩
    rw [← advance_after p s u, same, same_instant, advance_after]

/-! ### Beside other alarms -/

/-- The call has begun, and its sleeping batches have their alarms. -/
def Sound (s : Solitary) : Prop := s.call.HasBegun ∧ s.call.Alarmed s.journal

theorem advance_quiet {call : Call} {now : Nat} (quiet : ∀ t ∈ call.alarms, now < t) : call.advance now = call := by
  obtain ⟨subject, target, fallback, stage, strays⟩ := call
  have strays_eq : strays.filter (now < ·) = strays :=
    List.filter_eq_self.2 fun t mem => decide_eq_true (quiet t (List.mem_append_left _ mem))
  cases stage with
  | driving span context hub drive =>
    have untouched := hub.takeDue_quiet fun t mem => quiet t (List.mem_append_right _ mem)
    simp only [Call.advance, strays_eq, Drive.advance, untouched, List.foldl_nil]
  | flushing span context hub outcome invocations flush =>
    have untouched := hub.takeDue_quiet fun t mem => quiet t (List.mem_append_right _ mem)
    simp only [Call.advance, strays_eq, Hub.advance, untouched, List.foldl_nil]
  | _ => simp only [Call.advance, strays_eq]

theorem mem_quiet {s : Solitary} {now : Nat} (quiet : Machine.IsQuiet s now) : ∀ t ∈ s.call.alarms, now < t := by
  intro t mem
  obtain ⟨first, next⟩ := Option.isSome_iff_exists.1 (List.isSome_min?_of_mem mem)
  exact Nat.lt_of_lt_of_le (quiet first next) ((List.min?_eq_some_iff.1 next).2 t mem)

theorem awake_quiet {s : Solitary} (sound : s.Sound) (idle : Machine.Idle s) {now : Nat}
    (quiet : ∀ t ∈ s.call.alarms, now < t) : s.call.awake now = false := by
  obtain ⟨⟨subject, target, fallback, stage, strays⟩, journal⟩ := s
  have asleep : Call.awake _ journal.now = false := idle.2
  cases stage with
  | waiting => exact absurd rfl sound.1
  | driving span context hub drive => exact asleep
  | flushing span context hub outcome invocations flush =>
    exact Flush.awake_quiet sound.2 asleep fun t mem => quiet t (List.mem_append_right _ mem)
  | recovering span deadline alarm rest =>
    exact decide_eq_false (Nat.not_le.2 (quiet deadline (List.mem_append_right _ (List.mem_singleton_self _))))
  | answered value => rfl

theorem patient : Machine.Patient Sound where
  sound_poll {s} sound _ :=
    have polled := Call.poll_spec s.call [] ⟨[], 0⟩ s.journal sound.1
    ⟨polled.1, polled.2 sound.2⟩
  sound_advance {s} sound idle now := by
    refine ⟨Call.begun_advance _ sound.1 now, ?_⟩
    obtain ⟨⟨subject, target, fallback, stage, strays⟩, journal⟩ := s
    cases stage with
    | flushing span context hub outcome invocations flush => exact Flush.alarmed_advance sound.2 idle.2 now
    | _ => trivial
  idle_advance {s now} sound idle quiet := by
    have stays := advance_quiet (mem_quiet quiet)
    refine ⟨?_, ?_⟩
    · change (s.call.advance now).answer?.isSome = false
      rw [stays]
      exact idle.1
    · change (s.call.advance now).awake now = false
      rw [stays]
      exact awake_quiet sound idle (mem_quiet quiet)
  nextAlarm_advance {s now} _ _ quiet := by
    simp only [Machine.advance, Machine.nextAlarm, advance_quiet (mem_quiet quiet)]
  advance_advance {s now} _ _ quiet later := by
    simp only [Machine.advance, advance_quiet (mem_quiet quiet)]
    rfl

end Solitary

end Segmentation
