import Segmentation.Proofs.Company

/-!
# Logbooks of calls in company

Calls that run at once write into one journal by turns, and each of them has a log of what it wrote (`Woven`).  A fact
about a call and its log that no move of its own destroys, whatever the others write meanwhile, holds whenever a party
has run for some time (`Party.Keeps.run`).  What dropping adds to the logs then completes them: in the end the logs
hold all that was written (`Service.ask_logbooks`).
-/

namespace Segmentation

/-- What is written since a journal is determined. -/
theorem Journal.Writes.unique {before later : Journal} {written other : List Event} (writes : before.Writes written later)
    (writes' : before.Writes other later) : written = other := by
  have same : before.events ++ written = before.events ++ other := writes.symm.trans writes'
  exact List.append_cancel_left same

/-! ### Calls begin with the first poll -/

namespace Call

/-- The call no longer waits to begin. -/
def Begun (call : Call) : Prop := call.stage ≠ .waiting

theorem recovered_begun (call : Call) (span : Nat) (running : Running (Ending Bool)) (journal : Journal) :
    (call.recovered span running journal).1.Begun := by
  unfold recovered
  cases running with
  | asleep deadline rest => exact nofun
  | ended ending =>
    dsimp only
    split <;> exact nofun

theorem conclude_begun (call : Call) (span : Nat) (outcome : Outcome) (journal : Journal) :
    (call.conclude span outcome journal).1.Begun := by
  unfold conclude
  cases outcome with
  | ok value => exact nofun
  | error error =>
    dsimp only
    cases call.fallback with
    | none => exact nofun
    | some fallback => exact recovered_begun _ _ _ _

theorem flushQueues_begun (call : Call) (span context : Nat) (outcome : Outcome) (invocations : Nat) (flush : Flush)
    (scene : Scene) : (call.flushQueues span context outcome invocations flush scene).1.Begun := by
  unfold flushQueues
  dsimp only
  split
  · exact conclude_begun _ _ _ _
  · exact nofun

theorem driveOn_begun (call : Call) (span context : Nat) (drive : Drive Evaluation) (scene : Scene) :
    (call.driveOn span context drive scene).1.Begun := by
  unfold driveOn
  dsimp only
  split
  · exact flushQueues_begun _ _ _ _ _ _ _
  · exact nofun

theorem begins_begun (call : Call) (segments : Keyed SegmentDefinition) (registry : Registry) (journal : Journal) :
    (call.begins segments registry journal).1.Begun := by
  unfold begins
  dsimp only
  generalize Engine.buildExpr segments registry call.subject call.target = built
  obtain ⟨built, later⟩ := built
  cases built with
  | error error => exact conclude_begun _ _ _ _
  | ok expr => exact driveOn_begun _ _ _ _ _

/-- A call that is polled begins, if it has not begun. -/
theorem poll_begun (call : Call) (segments : Keyed SegmentDefinition) (registry : Registry) (journal : Journal) :
    (call.poll segments registry journal).1.Begun := by
  unfold Call.poll
  cases stage : call.stage with
  | waiting => exact begins_begun _ _ _ _
  | driving span context hub drive => exact driveOn_begun _ _ _ _ _
  | flushing span context hub outcome invocations flush => exact flushQueues_begun _ _ _ _ _ _ _
  | recovering span deadline alarm rest =>
    dsimp only
    split
    · exact recovered_begun _ _ _ _
    · simp [Begun, stage]
  | answered value => simp [Begun, stage]

theorem Begun.advance {call : Call} (begun : call.Begun) (now : Nat) : (call.advance now).Begun := by
  obtain ⟨subject, target, fallback, stage, strays⟩ := call
  cases stage with
  | waiting => exact absurd rfl begun
  | _ => exact nofun

end Call

namespace Party

/-- A call that is polled has begun then, and so have all that had. -/
theorem pollCall_begun (party : Party) (index : Nat) {i : Nat} {call : Call}
    (here : (party.pollCall index).calls[i]? = some call)
    (begun : i = index ∨ ∀ before, party.calls[i]? = some before → before.Begun) : call.Begun := by
  unfold pollCall at here
  cases polled : party.calls[index]? with
  | none =>
    simp only [polled] at here
    rcases begun with rfl | begun
    · rw [polled] at here
      cases here
    · exact begun call here
  | some before =>
    simp only [polled] at here
    split at here
    · rename_i asleep
      rcases begun with rfl | begun
      · obtain rfl : before = call := Option.some.inj (polled.symm.trans here)
        rintro waiting
        simp [Call.awake, waiting] at asleep
      · exact begun call here
    · dsimp only at here
      rcases getElem?_set_cases here with ⟨rfl, rfl⟩ | ⟨differs, here⟩
      · exact before.poll_begun _ _ _
      · exact begun.resolve_left differs call here

/-- Once their turn has come all have begun. -/
theorem foldl_pollCall_begun (turns : List Nat) (party : Party) {i : Nat} {call : Call}
    (here : (turns.foldl pollCall party).calls[i]? = some call)
    (begun : i ∈ turns ∨ ∀ before, party.calls[i]? = some before → before.Begun) : call.Begun := by
  induction turns generalizing party with
  | nil => exact begun.resolve_left List.not_mem_nil call here
  | cons index turns ih =>
    by_cases later : i ∈ turns
    · exact ih _ here (.inl later)
    · refine ih _ here (.inr fun before polled => party.pollCall_begun index polled ?_)
      exact begun.imp_left fun mem => (List.mem_cons.1 mem).resolve_right later

theorem poll_begun {party : Party} (begun : ∀ call ∈ party.calls, call.Begun) : ∀ call ∈ party.poll.calls, call.Begun := by
  intro call mem
  obtain ⟨i, here⟩ := List.mem_iff_getElem?.1 mem
  exact foldl_pollCall_begun _ party here (.inr fun before polled => begun before (List.mem_of_getElem? polled))

theorem length_calls_pollCall (party : Party) (index : Nat) : (party.pollCall index).calls.length = party.calls.length := by
  unfold pollCall
  cases party.calls[index]? with
  | none => rfl
  | some call =>
    dsimp only
    split
    · rfl
    · exact List.length_set

/-- All calls have a turn in the first poll. -/
theorem first_poll_begun (engine : Engine) (journal : Journal) (calls : List Call) :
    ∀ call ∈ (engine.party journal calls).poll.calls, call.Begun := by
  intro call mem
  obtain ⟨i, here⟩ := List.mem_iff_getElem?.1 mem
  have length_eq : (engine.party journal calls).poll.calls.length = calls.length :=
    List.foldlRecOn (Gathering.turns calls.length (List.range calls.length)) pollCall
      (motive := fun party : Party => party.calls.length = calls.length) rfl
      fun party same index _ => (party.length_calls_pollCall index).trans same
  have lt : i < calls.length := length_eq ▸ (List.getElem?_eq_some_iff.1 here).1
  have turns_eq : Gathering.turns calls.length (List.range calls.length) = List.range calls.length := by
    unfold Gathering.turns
    split <;> rfl
  refine foldl_pollCall_begun _ _ here (.inl ?_)
  change i ∈ Gathering.turns calls.length (List.range calls.length)
  rw [turns_eq]
  exact List.mem_range.2 lt

end Party

/-! ### Logs -/

/-- Facts about calls that run at once, given all events so far.  `Kept` tells of a call that runs and its log, `Closed`
of a call that is over or was dropped, and `Joint` of all logs together. -/
structure Bookkeeping (segments : Keyed SegmentDefinition) (matchers : String → Option Matcher)
    (Kept Closed : List Event → Call → List Event → Prop) (Joint : List Event → List (List Event) → Prop) : Prop where
  start (events : List Event) (subject : Json) (target : Target) (fallback : Option Fallback) :
    Kept events (.start subject target fallback) []
  kept_later {events : List Event} {call : Call} {log : List Event} (more : List Event) (kept : Kept events call log) :
    Kept (events ++ more) call log
  closed_later {events : List Event} {call : Call} {log : List Event} (more : List Event)
    (closed : Closed events call log) : Closed (events ++ more) call log
  poll {registry : Registry} (holds : Service.Holds matchers registry) {journal : Journal} {call : Call}
    {log : List Event} (kept : Kept journal.events call log) {logs : List (List Event)} {index : Nat}
    (whose : logs[index]? = some log) (joint : Joint journal.events logs) :
    let r := call.poll segments registry journal
    ∃ more, journal.Writes more r.2.2 ∧ Kept r.2.2.events r.1 (log ++ more) ∧
      Joint r.2.2.events (logs.set index (log ++ more)) ∧ r.1.request = call.request
  advance {events : List Event} {call : Call} {log : List Event} (kept : Kept events call log) (now : Nat) :
    Kept events (call.advance now) log
  drop {journal : Journal} {call : Call} {log : List Event} (kept : Kept journal.events call log)
    {logs : List (List Event)} {index : Nat} (whose : logs[index]? = some log) (joint : Joint journal.events logs) :
    ∃ more, journal.Writes more (call.drop journal) ∧ Closed (call.drop journal).events call (log ++ more) ∧
      Joint (call.drop journal).events (logs.set index (log ++ more))

variable {segments : Keyed SegmentDefinition} {matchers : String → Option Matcher}
  {Kept Closed : List Event → Call → List Event → Prop} {Joint : List Event → List (List Event) → Prop}

namespace Party

/-- The calls of a party were made for these requests, and all that was written since the first journal stands in their
logs, of which the facts hold. -/
structure Books (segments : Keyed SegmentDefinition) (matchers : String → Option Matcher)
    (Kept : List Event → Call → List Event → Prop) (Joint : List Event → List (List Event) → Prop)
    (requests : List (Json × Target × Option Fallback)) (first : Journal) (party : Party) : Prop where
  segments_eq : party.segments = segments
  holds : Service.Holds matchers party.registry
  requests_eq : party.calls.map Call.request = requests
  logs : ∃ logs written, first.Writes written party.journal ∧ Woven logs written ∧ Joint party.journal.events logs ∧
    List.Forall₂ (Kept party.journal.events) party.calls logs

namespace Books

variable {requests : List (Json × Target × Option Fallback)} {first : Journal} {party : Party}

theorem pollCall (bookkeeping : Bookkeeping segments matchers Kept Closed Joint)
    (books : party.Books segments matchers Kept Joint requests first) (index : Nat) :
    (party.pollCall index).Books segments matchers Kept Joint requests first := by
  unfold Party.pollCall
  cases here : party.calls[index]? with
  | none => exact books
  | some call =>
    dsimp only
    split
    · exact books
    · obtain ⟨logs, written, writes, woven, joint, kept⟩ := books.logs
      obtain ⟨log, whose, mine⟩ := forall₂_getElem? kept here
      have segments_eq := books.segments_eq
      subst segments_eq
      obtain ⟨more, writes', mine', joint', same⟩ := bookkeeping.poll books.holds mine whose joint
      have others : List.Forall₂ (Kept (call.poll party.segments party.registry party.journal).2.2.events)
          party.calls logs := by
        rw [show (call.poll party.segments party.registry party.journal).2.2.events = party.journal.events ++ more
          from writes']
        exact kept.imp fun _ _ => bookkeeping.kept_later more
      exact ⟨rfl, books.holds.poll call party.segments party.journal,
        (map_set_of_same here same).trans books.requests_eq, _, _, writes.trans writes', woven.turn whose more, joint',
        forall₂_set others mine' index⟩

theorem poll (bookkeeping : Bookkeeping segments matchers Kept Closed Joint)
    (books : party.Books segments matchers Kept Joint requests first) :
    party.poll.Books segments matchers Kept Joint requests first := by
  have polled (turns : List Nat) :
      (turns.foldl Party.pollCall party).Books segments matchers Kept Joint requests first := by
    induction turns generalizing party with
    | nil => exact books
    | cons index turns ih => exact ih (books.pollCall bookkeeping index)
  have all := polled (Gathering.turns party.calls.length party.woken)
  exact ⟨all.segments_eq, all.holds, all.requests_eq, all.logs⟩

theorem advance (bookkeeping : Bookkeeping segments matchers Kept Closed Joint)
    (books : party.Books segments matchers Kept Joint requests first) (now : Nat) :
    (Machine.advance now party).Books segments matchers Kept Joint requests first := by
  obtain ⟨logs, written, writes, woven, joint, kept⟩ := books.logs
  refine ⟨books.segments_eq, books.holds, (requests_advance _ now).trans books.requests_eq, logs, written, writes, woven,
    joint, ?_⟩
  change List.Forall₂ _ (party.calls.map (·.advance now)) logs
  rw [List.forall₂_map_left_iff]
  exact kept.imp fun _ _ kept => bookkeeping.advance kept now

/-- When the calls from some position on are dropped, one after the other, the logs of all are closed. -/
private theorem foldl_drop (bookkeeping : Bookkeeping segments matchers Kept Closed Joint) {first : Journal}
    (rest : List Call) {ended : List Call} {closedLogs keptLogs : List (List Event)} {journal : Journal}
    {written : List Event} (writes : first.Writes written journal) (woven : Woven (closedLogs ++ keptLogs) written)
    (joint : Joint journal.events (closedLogs ++ keptLogs))
    (closed : List.Forall₂ (Closed journal.events) ended closedLogs)
    (kept : List.Forall₂ (Kept journal.events) rest keptLogs) :
    ∃ logs written, first.Writes written (rest.foldl (fun journal call => call.drop journal) journal) ∧
      Woven logs written ∧ Joint (rest.foldl (fun journal call => call.drop journal) journal).events logs ∧
      List.Forall₂ (Closed (rest.foldl (fun journal call => call.drop journal) journal).events) (ended ++ rest) logs := by
  induction rest generalizing ended closedLogs keptLogs journal written with
  | nil =>
    cases kept
    rw [List.append_nil] at woven joint
    refine ⟨closedLogs, written, writes, woven, joint, ?_⟩
    rwa [List.append_nil]
  | cons call rest ih =>
    cases kept with
    | @cons _ log _ keptLogs mine kept =>
      have whose : (closedLogs ++ log :: keptLogs)[closedLogs.length]? = some log := by simp
      obtain ⟨more, writes', mine', joint'⟩ := bookkeeping.drop mine whose joint
      have events_eq : (call.drop journal).events = journal.events ++ more := writes'
      have set_eq : (closedLogs ++ log :: keptLogs).set closedLogs.length (log ++ more) =
          closedLogs ++ [log ++ more] ++ keptLogs := by
        simp
      have woven' := woven.turn whose more
      rw [set_eq] at joint' woven'
      have closed' : List.Forall₂ (Closed (call.drop journal).events) (ended ++ [call])
          (closedLogs ++ [log ++ more]) := by
        refine List.rel_append ?_ (.cons mine' .nil)
        rw [events_eq]
        exact closed.imp fun _ _ => bookkeeping.closed_later more
      have kept' : List.Forall₂ (Kept (call.drop journal).events) rest keptLogs := by
        rw [events_eq]
        exact kept.imp fun _ _ => bookkeeping.kept_later more
      obtain ⟨logs, written, all⟩ := ih (writes.trans writes') woven' joint' closed' kept'
      refine ⟨logs, written, ?_⟩
      rwa [List.append_assoc] at all

/-- Dropping all calls closes their logs. -/
theorem drop (bookkeeping : Bookkeeping segments matchers Kept Closed Joint)
    (books : party.Books segments matchers Kept Joint requests first) :
    ∃ logs written, first.Writes written party.drop ∧ Woven logs written ∧ Joint party.drop.events logs ∧
      List.Forall₂ (Closed party.drop.events) party.calls logs := by
  obtain ⟨logs, written, writes, woven, joint, kept⟩ := books.logs
  have all : Woven ([] ++ logs) written := woven
  exact foldl_drop bookkeeping party.calls writes all joint .nil kept

end Books

/-- A call that was answered writes nothing when it is dropped. -/
theorem drop_of_answered {party : Party} (answered : party.calls.all fun call => call.answer?.isSome) :
    party.drop = party.journal := by
  have silent : ∀ call ∈ party.calls, ∀ journal : Journal, call.drop journal = journal := by
    intro call mem journal
    have settled : call.answer?.isSome := List.all_eq_true.1 answered call mem
    unfold Call.answer? at settled
    unfold Call.drop
    cases stage : call.stage with
    | answered value => rfl
    | _ => simp [stage] at settled
  unfold Party.drop
  generalize party.calls = calls at silent
  induction calls with
  | nil => rfl
  | cons call calls ih =>
    rw [List.foldl_cons, silent call List.mem_cons_self]
    exact ih fun call mem => silent call (List.mem_cons_of_mem _ mem)

end Party

namespace Service

/-- The calls that are asked, before they begin. -/
theorem books_start (bookkeeping : Bookkeeping segments matchers Kept Closed Joint) {service : Service}
    (segments_eq : service.engine.segments = segments) (holds : Holds matchers service.engine.registry)
    (requests : List (Json × Target × Option Fallback))
    (joint : Joint service.journal.events (requests.map fun _ => [])) :
    (service.engine.party service.journal
        (requests.map fun (subject, target, fallback) => .start subject target fallback)).Books
      segments matchers Kept Joint requests service.journal := by
  let calls : List Call := requests.map fun (subject, target, fallback) => .start subject target fallback
  refine ⟨segments_eq, holds, Party.requests_start requests, requests.map fun _ => [], [], Journal.writes_nil rfl,
    .start ?_, joint, ?_⟩
  · intro log mem
    obtain ⟨_, -, rfl⟩ := List.mem_map.1 mem
    rfl
  · change List.Forall₂ _ calls (requests.map fun _ => [])
    rw [List.forall₂_map_right_iff, List.forall₂_map_left_iff, List.forall₂_same]
    exact fun request _ => bookkeeping.start _ _ _ _

/-- In the end the logs of calls that run at once hold all that was written, and are closed. -/
theorem ask_logbooks (bookkeeping : Bookkeeping segments matchers Kept Closed Joint) {service : Service}
    (segments_eq : service.engine.segments = segments) (holds : Holds matchers service.engine.registry)
    (moves : Nat) (limit : Option Nat) (requests : List (Json × Target × Option Fallback))
    (joint : Joint service.journal.events (requests.map fun _ => [])) :
    let asked := service.ask moves limit
      (requests.map fun (subject, target, fallback) => .start subject target fallback)
    ∃ (calls : List Call) (logs : List (List Event)) (written : List Event), calls.map Call.request = requests ∧
      calls.map Call.answer? = asked.2.1 ∧ (∀ call ∈ calls, call.Begun) ∧
      service.journal.Writes written asked.2.2.journal ∧ Woven logs written ∧
      Joint asked.2.2.journal.events logs ∧ List.Forall₂ (Closed asked.2.2.journal.events) calls logs := by
  intro asked
  let calls : List Call := requests.map fun (subject, target, fallback) => .start subject target fallback
  let begun : Beside Party := ⟨service.engine.party service.journal calls, service.strays⟩
  let kept (b : Beside Party) : Prop := b.machine.Books segments matchers Kept Joint requests service.journal
  have starts : kept begun := books_start bookkeeping segments_eq holds requests joint
  have ran : kept (Machine.run limit moves begun).2 := by
    refine Machine.run_keeps ?_ ?_ limit moves starts
    · exact fun b books => Party.Books.poll bookkeeping books
    · exact fun now b books => Party.Books.advance bookkeeping books now
  let started (b : Beside Party) : Prop := ∀ call ∈ b.machine.calls, call.Begun
  have all_begun : started (Machine.run limit moves begun).2 := by
    refine Machine.runFor_keeps ?_ ?_ limit moves (Party.first_poll_begun service.engine service.journal calls)
    · exact fun b begun => Party.poll_begun begun
    · rintro now b begun _ mem
      obtain ⟨call, listed, rfl⟩ := List.mem_map.1 mem
      exact (begun call listed).advance now
  let final := Machine.run limit moves begun
  have books : final.2.machine.Books segments matchers Kept Joint requests service.journal := ran
  -- a party that has finished has nothing to drop
  have journal_eq : asked.2.2.journal = final.2.machine.drop := by
    change (if final.1 = .finished then final.2.machine.journal else final.2.machine.drop) = final.2.machine.drop
    split
    · rename_i finished
      have ended : Machine.finished final.2 = true := Machine.finished_of_runFor (Prod.ext finished rfl)
      exact (Party.drop_of_answered ended).symm
    · rfl
  obtain ⟨logs, written, writes, woven, joint', closed⟩ := books.drop bookkeeping
  rw [← journal_eq] at writes joint' closed
  exact ⟨final.2.machine.calls, logs, written, books.requests_eq, rfl, all_begun, writes, woven, joint', closed⟩

end Service

end Segmentation
