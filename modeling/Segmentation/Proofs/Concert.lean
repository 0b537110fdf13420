import Mathlib.Algebra.Order.BigOperators.Group.List
import Segmentation.Proofs.Company
import Segmentation.Proofs.Rousing

/-!
# Calls at once go as they would alone

Calls that have begun, each with pure matchers, may run at once: each goes as it would alone with its own journal
(`Part.Plays`), though it is polled by turns with others, who set alarms and write between.  If each of them would
finish alone, all finish together, whatever other alarms there are (`Party.Concert.finishes`); what a call writes among
the others is what it would write alone.
-/

namespace Segmentation

/-! ### Runs of some number of moves -/

namespace Machine

variable {σ : Type} [Machine σ] {s f : σ} {moves : Nat}

theorem runFor_done (ended : finished s = true) (run : runFor none moves s = (.finished, f)) : f = s :=
  (finishes_iff.2 ⟨moves, run⟩).eq_of_finished ended

theorem runFor_polls (running : finished s = false) (up : awake s = true)
    (run : runFor none moves s = (.finished, f)) :
    ∃ fewer, moves = fewer + 1 ∧ runFor none fewer (poll s) = (.finished, f) := by
  cases moves with
  | zero => cases run
  | succ fewer =>
    have next : step none s = .inl (poll s) := by simp [step, running, up]
    rw [runFor, next] at run
    exact ⟨fewer, rfl, run⟩

theorem runFor_waits (idle : Idle s) (run : runFor none moves s = (.finished, f)) :
    ∃ fewer t, moves = fewer + 1 ∧ nextAlarm s = some t ∧ runFor none fewer (advance t s) = (.finished, f) := by
  cases moves with
  | zero => cases run
  | succ fewer =>
    cases next : nextAlarm s with
    | none =>
      have last : step none s = .inr (.stalled, s) := by simp [step, idle.1, idle.2, next]
      rw [runFor, last] at run
      cases run
    | some t =>
      have move : step none s = .inl (advance t s) := by simp [step, idle.1, idle.2, next]
      rw [runFor, move] at run
      exact ⟨fewer, t, rfl, rfl, run⟩

end Machine

/-! ### Ledgers -/

/-- What one of several has written into a ledger, whose entries tell who has written them. -/
def share {α : Type} (index : Nat) (ledger : List (Nat × α)) : List α :=
  ledger.filterMap fun entry => if entry.1 = index then some entry.2 else none

section

variable {α : Type} (ledger : List (Nat × α)) (more : List α) {index other : Nat}

theorem share_own : share index (ledger ++ more.map (index, ·)) = share index ledger ++ more := by
  unfold share
  rw [List.filterMap_append, List.filterMap_map]
  refine congrArg _ ?_
  simp

theorem share_unknown {ledger : List (Nat × α)} (known : ∀ entry ∈ ledger, entry.1 < index) : share index ledger = [] :=
  List.filterMap_eq_nil_iff.2 fun entry mem => if_neg (Nat.ne_of_lt (known entry mem))

theorem share_other (differs : other ≠ index) :
    share other (ledger ++ more.map (index, ·)) = share other ledger := by
  unfold share
  rw [List.filterMap_append, List.filterMap_map]
  simp [Ne.symm differs]

end

/-! ### Playing one's part -/

/-- What is kept by a call that goes on: its sleeping batches have their alarms, its matchers are pure, and all its
invocations have begun. -/
structure Solitary.Ready (s : Solitary) : Prop where
  sound : s.Sound
  pure : s.call.stage.Pure
  started : s.call.stage.Started

namespace Solitary.Ready

open Machine (Idle)

variable {s : Solitary}

theorem poll (ready : s.Ready) (up : Machine.awake s = true) : Solitary.Ready (Machine.poll s) where
  sound := Solitary.patient.sound_poll ready.sound up
  pure := s.call.pure_poll _ _ _ ready.sound.1 ready.pure
  started := s.call.started_poll _ _ _ ready.started

theorem advance (ready : s.Ready) (idle : Idle s) (now : Nat) : Solitary.Ready (Machine.advance now s) where
  sound := Solitary.patient.sound_advance ready.sound idle now
  pure := s.call.pure_advance ready.pure now
  started := Call.started_advance ready.started now

end Solitary.Ready

theorem Call.answer?_advance (call : Call) (now : Nat) : (call.advance now).answer? = call.answer? := by
  obtain ⟨_, _, _, stage, _⟩ := call
  cases stage <;> rfl

theorem Call.awake_of_answered {call : Call} (answered : call.answer?.isSome) (now : Nat) : call.awake now = false := by
  obtain ⟨_, _, _, stage, _⟩ := call
  cases stage with
  | answered value => rfl
  | _ => cases answered

/-- What a call does alone: with which journal it began, and how it ends. -/
structure Part where
  origin : Journal
  final : Solitary

/-- A call that has written the log plays its part up to an instant: it is over, or it goes as the call alone does that
needs some number of moves yet. -/
inductive Part.Plays (part : Part) (now : Nat) (log : List (Nat × Event)) (moves : Nat) (call : Call) : Prop
  | ended {value : Bool} (answered : call.answer? = some value) (ends : part.final.call.answer? = some value)
    (log_eq : part.final.journal.entries = part.origin.entries ++ log)
  | going (unanswered : call.answer? = none) {current later : Solitary}
    (run : Machine.runFor none moves current = (.finished, part.final)) (ready : current.Ready)
    (dozes : Machine.Dozes current later) (mirrors : later.call.Mirrors call) (now_eq : later.journal.now = now)
    (log_eq : later.journal.entries = part.origin.entries ++ log)

namespace Part.Plays

open Machine (Idle)

variable {part : Part} {now moves : Nat} {log : List (Nat × Event)} {call : Call}

/-- Who goes as a call alone does that comes to the end plays the part. -/
theorem of_run {s : Solitary} (ready : s.Ready)
    (run : Machine.runFor none moves s = (.finished, part.final)) (mirrors : s.call.Mirrors call)
    (now_eq : s.journal.now = now) (log_eq : s.journal.entries = part.origin.entries ++ log) :
    part.Plays now log moves call := by
  have same := mirrors.answer?_eq
  cases answered : call.answer? with
  | none => exact .going answered run ready (.inl rfl) mirrors now_eq log_eq
  | some value =>
    rw [answered] at same
    have ended : Machine.finished s = true := Option.isSome_iff_exists.2 ⟨value, same⟩
    have final_eq := Machine.runFor_done ended run
    exact .ended answered (by rw [final_eq, same]) (by rw [final_eq, log_eq])

/-- A call that is polled goes on with its part, and has fewer moves to make. -/
theorem poll (plays : part.Plays now log moves call) (up : call.awake now = true) (segments : Keyed SegmentDefinition)
    (registry : Registry) {journal : Journal} (now_eq : journal.now = now) :
    let r := call.poll segments registry journal
    r.2.1 = registry ∧ r.2.2.now = now ∧ ∃ more fewer, r.2.2.entries = journal.entries ++ more ∧ fewer < moves ∧
      part.Plays now (log ++ more) fewer r.1 := by
  cases plays with
  | ended answered =>
    rw [Call.awake_of_answered (Option.isSome_iff_exists.2 ⟨_, answered⟩)] at up
    cases up
  | @going unanswered current later run ready dozes mirrors at_now log_eq =>
    have later_up : Machine.awake later = true := by
      change later.call.awake later.journal.now = true
      rw [at_now, mirrors.awake_eq, up]
    obtain rfl := dozes.eq_of_awake ((dozes.awake_eq Solitary.patient ready.sound).symm.trans later_up)
    have running : Machine.finished later = false := by
      change later.call.answer?.isSome = false
      rw [mirrors.answer?_eq, unanswered]
      rfl
    obtain ⟨fewer, rfl, rest⟩ := Machine.runFor_polls running later_up run
    have registry_eq := congrArg (·.2.1) (Call.poll_eq call segments registry journal mirrors.begun)
    have reflects := mirrors.poll ready.pure ready.started (.since_now (at_now.trans now_eq.symm)) [] segments ⟨[], 0⟩
      registry
    obtain ⟨more, entries, entries'⟩ := reflects.journal.added
    have later_now : (call.poll segments registry journal).2.2.now = now :=
      reflects.journal.now.symm.trans (reflects.journal.stands.trans at_now)
    refine ⟨registry_eq, later_now, more, fewer, entries', Nat.lt_succ_self fewer, ?_⟩
    refine of_run (ready.poll later_up) rest reflects.calls (reflects.journal.now.trans later_now) ?_
    rw [← List.append_assoc, ← log_eq]
    exact entries

/-- Time goes on up to the next alarm of all calls.  A call whose alarm it is has fewer moves to make, and a call that is
awake then was roused. -/
theorem advance (plays : part.Plays now log moves call) (asleep : call.awake now = false) {t : Nat}
    (first : ∀ u ∈ call.alarms, t ≤ u) :
    (∃ fewer ≤ moves, part.Plays t log fewer (call.advance t) ∧
      (call.answer? = none → t ∈ call.alarms → fewer < moves)) ∧
    (call.answer? = none → call.alarms ≠ []) ∧
    ((call.advance t).awake t = true → (call.firstRousing t).isSome) := by
  cases plays with
  | @ended value answered ends log_eq =>
    have answered' : (call.advance t).answer? = some value := by rw [Call.answer?_advance, answered]
    refine ⟨⟨moves, Nat.le_refl moves, .ended answered' ends log_eq, fun unanswered => ?_⟩, fun unanswered => ?_,
      fun up => ?_⟩
    · rw [answered] at unanswered
      cases unanswered
    · rw [answered] at unanswered
      cases unanswered
    · rw [Call.awake_of_answered (Option.isSome_iff_exists.2 ⟨value, answered'⟩)] at up
      cases up
  | @going unanswered current later run ready dozes mirrors at_now log_eq =>
    have sound := ready.sound
    have later_idle : Idle later := by
      constructor
      · change later.call.answer?.isSome = false
        rw [mirrors.answer?_eq, unanswered]
        rfl
      · change later.call.awake later.journal.now = false
        rw [at_now, mirrors.awake_eq, asleep]
    have idle : Idle current :=
      ⟨(dozes.finished_eq Solitary.patient sound).symm.trans later_idle.1,
        (dozes.awake_eq Solitary.patient sound).symm.trans later_idle.2⟩
    -- the lone call waits for an alarm, which is the first one of the call in company
    obtain ⟨fewer, due, rfl, next, rest⟩ := Machine.runFor_waits idle run
    have next_eq : call.alarms.min? = some due := by
      rw [← mirrors.alarms_eq, ← next, ← dozes.nextAlarm_eq Solitary.patient sound]
      rfl
    obtain ⟨due_mem, due_least⟩ := List.min?_eq_some_iff.1 next_eq
    have same : Machine.advance t later = Machine.advance t current :=
      dozes.advance_eq Solitary.patient sound t
    have unanswered' : (call.advance t).answer? = none := by rw [Call.answer?_advance, unanswered]
    refine ⟨?_, fun _ none_set => ?_, fun up => ?_⟩
    · rcases Nat.lt_or_eq_of_le (first due due_mem) with early | rfl
      · -- nothing of its own is due
        have quiet : Machine.IsQuiet current t := fun u set => by
          rw [next] at set
          rwa [← Option.some.inj set]
        refine ⟨_, Nat.le_refl _, .going unanswered' run ready (.inr ⟨idle, t, quiet, same⟩) (mirrors.advance t) rfl
          log_eq, fun _ mem => ?_⟩
        exact absurd (due_least t mem) (Nat.not_le.2 early)
      · refine ⟨fewer, Nat.le_succ fewer, ?_, fun _ _ => Nat.lt_succ_self fewer⟩
        exact .going unanswered' rest (ready.advance idle t) (.inl same) (mirrors.advance t) rfl log_eq
    · rw [none_set] at due_mem
      cases due_mem
    · have later_sound : later.Sound := by
        rcases dozes with rfl | ⟨-, u, -, rfl⟩
        · exact sound
        · exact Solitary.patient.sound_advance sound idle u
      rw [← mirrors.firstRousing]
      rw [← (mirrors.advance t).awake_eq] at up
      exact Call.roused later_sound later_idle.2 up

end Part.Plays

/-! ### Playing together -/

namespace Party

/-- Calls that play their parts; the ledger has all that they have written since the first journal. -/
structure Concert (first : Journal) (registry : Registry) (parts : List Part) (moves : Nat → Nat)
    (ledger : List (Nat × Nat × Event)) (party : Party) : Prop where
  registry_eq : party.registry = registry
  length_eq : party.calls.length = parts.length
  entries_eq : party.journal.entries = first.entries ++ ledger.map (·.2)
  known : ∀ entry ∈ ledger, entry.1 < parts.length
  plays : ∀ (index : Nat) (call : Call) (part : Part), party.calls[index]? = some call → parts[index]? = some part →
    part.Plays party.journal.now (share index ledger) (moves index) call

/-- Whoever is awake was woken. -/
def Attends (party : Party) : Prop :=
  ∀ (index : Nat) (call : Call), party.calls[index]? = some call → call.awake party.journal.now = true →
    index ∈ party.woken

/-- The alarms of calls that are over. -/
def idleAlarms (party : Party) : List Nat := (party.calls.filter fun call => call.answer?.isSome).flatMap Call.alarms

theorem idleAlarms_advance (party : Party) (t : Nat) :
    (Machine.advance t party).idleAlarms = party.idleAlarms.filter (t < ·) := by
  have alarms_eq (call : Call) (answered : call.answer?.isSome) :
      (call.advance t).alarms = call.alarms.filter (t < ·) := by
    obtain ⟨_, _, _, stage, strays⟩ := call
    cases stage with
    | answered value => simp [Call.advance, Call.alarms]
    | _ => cases answered
  have still : (fun call : Call => call.answer?.isSome) ∘ (fun call : Call => call.advance t) =
      fun call : Call => call.answer?.isSome :=
    funext fun call => congrArg Option.isSome (Call.answer?_advance call t)
  change ((party.calls.map (·.advance t)).filter _).flatMap Call.alarms = _
  rw [List.filter_map, still, List.flatMap_map, idleAlarms, List.filter_flatMap]
  refine List.flatMap_congr fun call mem => ?_
  exact alarms_eq call (List.mem_filter.1 mem).2

theorem pollCall_of_asleep (party : Party) {index : Nat}
    (asleep : ∀ call, party.calls[index]? = some call → call.awake party.journal.now = false) :
    party.pollCall index = party := by
  unfold pollCall
  cases here : party.calls[index]? with
  | none => rfl
  | some call => simp [asleep call here]

theorem pollCall_other (party : Party) {index other : Nat} (differs : other ≠ index) :
    (party.pollCall index).calls[other]? = party.calls[other]? := by
  unfold pollCall
  split
  · rfl
  · split
    · rfl
    · exact List.getElem?_set_ne (Ne.symm differs)

theorem foldl_pollCall_other (turns : List Nat) (party : Party) {other : Nat} (nobody : other ∉ turns) :
    (turns.foldl pollCall party).calls[other]? = party.calls[other]? := by
  induction turns generalizing party with
  | nil => rfl
  | cons index turns ih =>
    rw [List.mem_cons, not_or] at nobody
    rw [List.foldl_cons, ih _ nobody.2, pollCall_other party nobody.1]

theorem asleep_of_mem {party : Party} (asleep : Machine.awake party = false) {call : Call} (mem : call ∈ party.calls) :
    call.awake party.journal.now = false := by
  have nobody := List.any_eq_false.1 asleep call mem
  simpa using nobody

theorem mem_turns {party : Party} (attends : party.Attends) {index : Nat} {call : Call}
    (here : party.calls[index]? = some call) (up : call.awake party.journal.now = true) :
    index ∈ Gathering.turns party.calls.length party.woken := by
  unfold Gathering.turns
  split
  · exact List.mem_range.2 (List.getElem?_eq_some_iff.1 here).1
  · exact attends index call here up

namespace Concert

variable {first : Journal} {registry : Registry} {parts : List Part} {moves : Nat → Nat}
  {ledger : List (Nat × Nat × Event)} {party : Party}

theorem exists_part (concert : party.Concert first registry parts moves ledger) {index : Nat} {call : Call}
    (here : party.calls[index]? = some call) : ∃ part, parts[index]? = some part := by
  have lt := (List.getElem?_eq_some_iff.1 here).1
  rw [concert.length_eq] at lt
  exact ⟨_, List.getElem?_eq_getElem lt⟩

/-- A call that is polled while it is awake goes on with its part; the others are as before. -/
theorem pollCall_awake (concert : party.Concert first registry parts moves ledger) {index : Nat} {call : Call}
    (here : party.calls[index]? = some call) (up : call.awake party.journal.now = true) :
    (party.pollCall index).journal.now = party.journal.now ∧ ∃ fewer < moves index, ∃ more,
      (party.pollCall index).Concert first registry parts (Function.update moves index fewer) (ledger ++ more) := by
  obtain ⟨part, whose⟩ := concert.exists_part here
  have lt := (List.getElem?_eq_some_iff.1 whose).1
  obtain ⟨registry_eq, now_eq, more, fewer, entries_eq, less, plays⟩ :=
    (concert.plays index call part here whose).poll up party.segments party.registry rfl
  simp only [Party.pollCall, here, up, Bool.not_true, Bool.false_eq_true, if_false]
  refine ⟨now_eq, fewer, less, more.map (index, ·), registry_eq.trans concert.registry_eq, ?_, ?_, ?_, ?_⟩
  · rw [List.length_set, concert.length_eq]
  · rw [entries_eq, concert.entries_eq, List.append_assoc, List.map_append, List.map_map]
    simp [Function.comp_def]
  · intro entry mem
    rcases List.mem_append.1 mem with mem | mem
    · exact concert.known entry mem
    · obtain ⟨_, -, rfl⟩ := List.mem_map.1 mem
      exact lt
  · intro other call' part' here' whose'
    rcases getElem?_set_cases here' with ⟨rfl, rfl⟩ | ⟨differs, here'⟩
    · obtain rfl : part = part' := Option.some.inj (whose.symm.trans whose')
      rw [share_own, Function.update_self, now_eq]
      exact plays
    · rw [share_other _ _ differs, Function.update_of_ne differs, now_eq]
      exact concert.plays other call' part' here' whose'

theorem pollCall (concert : party.Concert first registry parts moves ledger) (index : Nat) :
    (party.pollCall index).journal.now = party.journal.now ∧
    ∃ fewer more, (party.pollCall index).Concert first registry parts fewer (ledger ++ more) ∧
      (∀ other, fewer other ≤ moves other) ∧
      ∀ call, party.calls[index]? = some call → call.awake party.journal.now = true → fewer index < moves index := by
  by_cases somebody : ∃ call, party.calls[index]? = some call ∧ call.awake party.journal.now = true
  · obtain ⟨call, here, up⟩ := somebody
    obtain ⟨now_eq, fewer, less, more, polled⟩ := concert.pollCall_awake here up
    refine ⟨now_eq, _, more, polled, fun other => ?_, fun _ _ _ => by rwa [Function.update_self]⟩
    by_cases same : other = index
    · rw [same, Function.update_self]
      exact Nat.le_of_lt less
    · rw [Function.update_of_ne same]
  · rw [pollCall_of_asleep party fun call here => Bool.eq_false_iff.2 fun up => somebody ⟨call, here, up⟩]
    exact ⟨rfl, moves, [], by rwa [List.append_nil], fun _ => Nat.le_refl _,
      fun call here up => absurd ⟨call, here, up⟩ somebody⟩

theorem polls (turns : List Nat) (concert : party.Concert first registry parts moves ledger) :
    (turns.foldl Party.pollCall party).journal.now = party.journal.now ∧
    ∃ fewer more, (turns.foldl Party.pollCall party).Concert first registry parts fewer (ledger ++ more) ∧
      (∀ other, fewer other ≤ moves other) ∧
      ∀ index ∈ turns, ∀ call, party.calls[index]? = some call → call.awake party.journal.now = true →
        fewer index < moves index := by
  induction turns generalizing party moves ledger with
  | nil =>
    exact ⟨rfl, moves, [], by rwa [List.append_nil], fun _ => Nat.le_refl _, List.forall_mem_nil _⟩
  | cons head turns ih =>
    obtain ⟨now_eq, moves₁, more₁, polled, le₁, less₁⟩ := concert.pollCall head
    obtain ⟨now_eq', moves₂, more₂, rest, le₂, less₂⟩ := ih polled
    refine ⟨now_eq'.trans now_eq, moves₂, more₁ ++ more₂, by rwa [← List.append_assoc],
      fun other => (le₂ other).trans (le₁ other), fun index mem call here up => ?_⟩
    by_cases same : index = head
    · subst same
      exact Nat.lt_of_le_of_lt (le₂ index) (less₁ call here up)
    · rw [← pollCall_other party same] at here
      rw [← now_eq] at up
      have tail := (List.mem_cons.1 mem).resolve_left same
      exact Nat.lt_of_lt_of_le (less₂ index tail call here up) (le₁ index)

theorem poll (concert : party.Concert first registry parts moves ledger) (attends : party.Attends) :
    party.poll.Attends ∧ ∃ fewer more, party.poll.Concert first registry parts fewer (ledger ++ more) ∧
      (∀ other, fewer other ≤ moves other) ∧
      (Machine.awake party = true → ∃ index < parts.length, fewer index < moves index) := by
  let turns := Gathering.turns party.calls.length party.woken
  obtain ⟨now_eq, fewer, more, polled, le, less⟩ := concert.polls turns
  refine ⟨fun index call here up => ?_, fewer, more, ⟨polled.registry_eq, polled.length_eq, polled.entries_eq,
    polled.known, polled.plays⟩, le, fun up => ?_⟩
  · -- who had no turn has not changed, and was asleep
    have here : (turns.foldl Party.pollCall party).calls[index]? = some call := here
    have up : call.awake (turns.foldl Party.pollCall party).journal.now = true := up
    have had_turn : index ∈ turns := by
      by_contra nobody
      rw [foldl_pollCall_other turns party nobody] at here
      rw [now_eq] at up
      exact nobody (mem_turns attends here up)
    refine List.mem_filter.2 ⟨had_turn, ?_⟩
    change ((((turns.foldl Party.pollCall party).calls[index]?).map _).getD false) = true
    rw [here]
    exact up
  · obtain ⟨call, mem, up⟩ := List.any_eq_true.1 up
    obtain ⟨index, here⟩ := List.getElem?_of_mem mem
    obtain ⟨part, whose⟩ := concert.exists_part here
    exact ⟨index, (List.getElem?_eq_some_iff.1 whose).1, less index (mem_turns attends here up) call here up⟩

theorem mem_roused {index : Nat} {call : Call} {t : Nat} (here : party.calls[index]? = some call)
    (roused : (call.firstRousing t).isSome) : index ∈ party.roused t := by
  obtain ⟨number, first_eq⟩ := Option.isSome_iff_exists.1 roused
  rw [Party.roused, (Gathering.ranked_perm _).mem_iff, List.mem_map]
  refine ⟨(number, index), List.mem_filterMap.2 ⟨(call, index), ?_, ?_⟩, rfl⟩
  · exact List.mem_zipIdx_iff_getElem?.2 here
  · dsimp only
    rw [first_eq]
    rfl

/-- Time goes on up to the next alarm while all calls sleep. -/
theorem advance (concert : party.Concert first registry parts moves ledger) (asleep : Machine.awake party = false)
    {t : Nat} (next : ∀ call ∈ party.calls, ∀ u ∈ call.alarms, t ≤ u) :
    Party.Attends (Machine.advance t party) ∧
    ∃ fewer, Party.Concert first registry parts fewer ledger (Machine.advance t party) ∧
      (∀ other, fewer other ≤ moves other) ∧
      ∀ index call, party.calls[index]? = some call → call.answer? = none → t ∈ call.alarms →
        fewer index < moves index := by
  have each (index : Nat) : ∃ fewer ≤ moves index, ∀ call part, party.calls[index]? = some call →
      parts[index]? = some part → part.Plays t (share index ledger) fewer (call.advance t) ∧
        (call.answer? = none → t ∈ call.alarms → fewer < moves index) := by
    cases here : party.calls[index]? with
    | none => exact ⟨moves index, Nat.le_refl _, fun _ _ absent => nomatch absent⟩
    | some call =>
      obtain ⟨part, whose⟩ := concert.exists_part here
      have mem := List.mem_of_getElem? here
      obtain ⟨⟨fewer, le, plays, less⟩, -⟩ :=
        (concert.plays index call part here whose).advance (asleep_of_mem asleep mem) (next call mem)
      refine ⟨fewer, le, fun call' part' here' whose' => ?_⟩
      obtain rfl := Option.some.inj here'
      obtain rfl := Option.some.inj (whose.symm.trans whose')
      exact ⟨plays, less⟩
  choose fewer le advanced using each
  refine ⟨fun index call' here' up => ?_, fewer, ⟨concert.registry_eq, ?_, concert.entries_eq, concert.known,
    fun index call' part here' whose => ?_⟩, le, fun index call here unanswered set => ?_⟩
  · obtain ⟨call, here, rfl⟩ := Option.map_eq_some_iff.1 ((List.getElem?_map ..).symm.trans here')
    obtain ⟨part, whose⟩ := concert.exists_part here
    have mem := List.mem_of_getElem? here
    have roused :=
      ((concert.plays index call part here whose).advance (asleep_of_mem asleep mem) (next call mem)).2.2 up
    by_cases known : index ∈ party.woken
    · exact List.mem_append_left _ known
    · exact List.mem_append_right _ (List.mem_filter.2 ⟨mem_roused here roused, decide_eq_true known⟩)
  · exact (List.length_map _).trans concert.length_eq
  · obtain ⟨call, here, rfl⟩ := Option.map_eq_some_iff.1 ((List.getElem?_map ..).symm.trans here')
    exact (advanced index call part here whose).1
  · obtain ⟨part, whose⟩ := concert.exists_part here
    exact (advanced index call part here whose).2 unanswered set

/-- The next alarm that there is, if there is one of the calls. -/
private theorem exists_next {calls : List Call} {call : Call} (mem : call ∈ calls) (set : call.alarms ≠ [])
    (others : List Nat) : ∃ t, ((calls.flatMap Call.alarms).min?.toList ++ others).min? = some t ∧
      (t ∈ calls.flatMap Call.alarms ∨ t ∈ others) ∧ ∀ call ∈ calls, ∀ u ∈ call.alarms, t ≤ u := by
  obtain ⟨u, mem_alarms⟩ := List.exists_mem_of_ne_nil _ set
  obtain ⟨own, own_eq⟩ := Option.isSome_iff_exists.1
    (List.isSome_min?_of_mem (List.mem_flatMap.2 ⟨call, mem, mem_alarms⟩))
  obtain ⟨own_mem, own_least⟩ := List.min?_eq_some_iff.1 own_eq
  rw [own_eq]
  obtain ⟨t, next⟩ := Option.isSome_iff_exists.1
    (List.isSome_min?_of_mem (List.mem_append_left others (List.mem_singleton_self own)))
  obtain ⟨t_mem, t_least⟩ := List.min?_eq_some_iff.1 next
  refine ⟨t, next, ?_, fun call mem u mem_alarms => ?_⟩
  · rcases List.mem_append.1 t_mem with is_own | mem
    · rw [List.mem_singleton.1 is_own]
      exact .inl own_mem
    · exact .inr mem
  · exact (t_least own (List.mem_append_left _ (List.mem_singleton_self own))).trans
      (own_least u (List.mem_flatMap.2 ⟨call, mem, mem_alarms⟩))

/-- Whoever sleeps and is not over has an alarm set. -/
theorem alarms_ne_nil (concert : party.Concert first registry parts moves ledger) (asleep : Machine.awake party = false)
    {call : Call} (mem : call ∈ party.calls) (unanswered : call.answer? = none) : call.alarms ≠ [] := by
  obtain ⟨index, here⟩ := List.getElem?_of_mem mem
  obtain ⟨part, whose⟩ := concert.exists_part here
  exact ((concert.plays index call part here whose).advance (asleep_of_mem asleep mem) fun u _ => Nat.zero_le u).2.1
    unanswered

/-- The moves that all calls have to make. -/
def toil (parts : List Part) (moves : Nat → Nat) : Nat := ((List.range parts.length).map moves).sum

theorem toil_le {fewer : Nat → Nat} (le : ∀ other, fewer other ≤ moves other) : toil parts fewer ≤ toil parts moves :=
  List.sum_le_sum fun other _ => le other

theorem toil_lt {fewer : Nat → Nat} (le : ∀ other, fewer other ≤ moves other)
    (less : ∃ index < parts.length, fewer index < moves index) : toil parts fewer < toil parts moves := by
  obtain ⟨index, lt, less⟩ := less
  exact List.sum_lt_sum _ _ (fun other _ => le other) ⟨index, List.mem_range.2 lt, less⟩

/-- An alarm at which nobody has fewer moves to make than before is of a call that is over. -/
theorem mem_idleAlarms (concert : party.Concert first registry parts moves ledger) {fewer : Nat → Nat} {t : Nat}
    (le : ∀ other, fewer other ≤ moves other)
    (less : ∀ index call, party.calls[index]? = some call → call.answer? = none → t ∈ call.alarms →
      fewer index < moves index)
    (spent : toil parts moves ≤ toil parts fewer) (mem : t ∈ party.calls.flatMap Call.alarms) :
    t ∈ party.idleAlarms := by
  obtain ⟨call, mem_calls, mem_alarms⟩ := List.mem_flatMap.1 mem
  refine List.mem_flatMap.2 ⟨call, List.mem_filter.2 ⟨mem_calls, ?_⟩, mem_alarms⟩
  by_contra unanswered
  obtain ⟨index, here⟩ := List.getElem?_of_mem mem_calls
  obtain ⟨part, whose⟩ := concert.exists_part here
  have moved := less index call here (by simpa using unanswered) mem_alarms
  exact absurd (toil_lt le ⟨index, (List.getElem?_eq_some_iff.1 whose).1, moved⟩) (Nat.not_lt.2 spent)

/-- If each of the calls would finish alone they finish together, whatever other alarms there are. -/
theorem finishes (concert : party.Concert first registry parts moves ledger) (attends : party.Attends)
    (others : List Nat) : ∃ final left fewer more,
      Machine.Finishes (⟨party, others⟩ : Beside Party) ⟨final, left⟩ ∧ Machine.finished final = true ∧
        final.Concert first registry parts fewer (ledger ++ more) := by
  -- Induction first on the moves that the calls have to make, then on the alarms of nobody.
  obtain ⟨moves_left, toil_eq⟩ : ∃ n, toil parts moves = n := ⟨_, rfl⟩
  induction moves_left using Nat.strongRecOn generalizing party moves ledger others with
  | _ moves_left ih_toil =>
  subst toil_eq
  obtain ⟨idle, idle_eq⟩ : ∃ idle, (party.idleAlarms ++ others).length = idle := ⟨_, rfl⟩
  induction idle using Nat.strongRecOn generalizing party others moves with
  | _ idle ih_idle =>
  cases finished : Machine.finished party with
  | true => exact ⟨party, others, moves, [], .done finished, finished, by rwa [List.append_nil]⟩
  | false =>
    cases up : Machine.awake party with
    | true =>
      obtain ⟨attends', fewer, more, polled, le, less⟩ := concert.poll attends
      obtain ⟨final, left, fewer', more', run, ended, last⟩ :=
        ih_toil _ (toil_lt le (less up)) polled attends' others rfl
      refine ⟨final, left, fewer', more ++ more', .polls finished up run, ended, ?_⟩
      rwa [← List.append_assoc]
    | false =>
      obtain ⟨call, mem, unanswered⟩ : ∃ call ∈ party.calls, call.answer? = none := by
        obtain ⟨call, mem, unanswered⟩ := List.all_eq_false.1 finished
        exact ⟨call, mem, by simpa using unanswered⟩
      obtain ⟨t, next, whose, least⟩ := exists_next mem (concert.alarms_ne_nil up mem unanswered) others
      obtain ⟨attends', fewer, waited, le, less⟩ := concert.advance up least
      have waits {final : Party} {left : List Nat}
          (rest : Machine.Finishes (⟨Machine.advance t party, others.filter (t < ·)⟩ : Beside Party) ⟨final, left⟩) :
          Machine.Finishes (⟨party, others⟩ : Beside Party) ⟨final, left⟩ := .waits ⟨finished, up⟩ next rest
      rcases Nat.lt_or_ge (toil parts fewer) (toil parts moves) with moved | spent
      · obtain ⟨final, left, fewer', more, run, last⟩ :=
          ih_toil _ moved waited attends' (others.filter (t < ·)) rfl
        exact ⟨final, left, fewer', more, waits run, last⟩
      · -- Nobody has moved: the alarm was one of those that count for the inner induction.
        have mem_idle : t ∈ party.idleAlarms ++ others :=
          List.mem_append.2 (whose.imp_left (concert.mem_idleAlarms le less spent))
        have fewer_idle : (Party.idleAlarms (Machine.advance t party) ++ others.filter (t < ·)).length < idle := by
          rw [idleAlarms_advance, ← List.filter_append, ← idle_eq]
          exact List.length_filter_lt_length_iff_exists.2 ⟨t, mem_idle, by simp⟩
        have same_toil := Nat.le_antisymm (toil_le le) spent
        obtain ⟨final, left, fewer', more, run, last⟩ :=
          ih_idle _ fewer_idle waited attends' (others.filter (t < ·)) (same_toil ▸ ih_toil) rfl
        exact ⟨final, left, fewer', more, waits run, last⟩

end Concert

end Party

end Segmentation
