import Segmentation.Proofs.Instants
import Segmentation.Proofs.Schedule

/-!
# Invocations keep to the schedule

An invocation sleeps until the instant at which its validation is to go on, and has an alarm set for it.  Whoever is
looked at in time then asks when the schedule says so (`Invocation.advance_punctual`), and a poll queues the requests of
all those who are due, one for each key (`Session.advanceAll_punctual`).
-/

namespace Segmentation

/-! ### What comes into the queues -/

/-- What is queued for an argument: its key, and the request. -/
def Request.entry (subject : Json) (args : Option Json) : String × Request :=
  ((args.map Json.stableKey).getD "", ⟨subject, args⟩)

/-- A load puts the request at the end of the queue, unless its key is queued. -/
theorem Coalescer.rest_load {c : Coalescer Request} (within : c.taken ≤ c.entries.length) (key : String)
    (request : Request) : (c.load key request).2.account.rest = addNew (·.1) c.account.rest (key, request) := by
  have keys : c.account.rest.map (·.1) = (c.entries.drop c.taken).map (·.key) := by
    rw [rest_account, List.map_map]
    rfl
  have queued : (c.queued? key).isSome ↔ key ∈ c.account.rest.map (·.1) := by
    rw [keys, queued?, Option.isSome_map, List.findIdx?_isSome, List.any_eq_true, List.mem_map]
    simp only [decide_eq_true_eq]
  unfold load addNew
  cases found : c.queued? key with
  | some ticket =>
    rw [found] at queued
    rw [if_pos (queued.1 rfl)]
  | none =>
    rw [found] at queued
    have fresh : key ∉ c.account.rest.map (·.1) := fun mem => by simpa using queued.2 mem
    rw [if_neg fresh, rest_account, rest_account]
    dsimp only
    rw [List.drop_append_of_le_length within, List.map_append]
    rfl

namespace Hub

/-- These arguments came into the queues, each of them unless its key was queued. -/
def Enters (subject : Json) (asked : List (String × Option Json)) (before later : Hub) : Prop :=
  ∀ name, (later.account name).rest =
    ((argsFor name asked).map (Request.entry subject)).foldl (addNew (·.1)) (before.account name).rest

namespace Enters

variable {subject : Json}

theorem of_account {before later : Hub} (same : ∀ name, later.account name = before.account name) :
    Enters subject [] before later := fun name => congrArg Account.rest (same name)

theorem of_ledger {before later : Hub} (same : later.ledger = before.ledger) : Enters subject [] before later :=
  .of_account fun name => account_of_ledger same name

theorem refl (hub : Hub) : Enters subject [] hub hub := .of_ledger rfl

theorem trans {asked more : List (String × Option Json)} {a b c : Hub} (ab : Enters subject asked a b)
    (bc : Enters subject more b c) : Enters subject (asked ++ more) a c := fun name => by
  rw [bc name, ab name, argsFor_append, List.map_append, List.foldl_append]

/-- What came into queues that were empty. -/
theorem requests {asked : List (String × Option Json)} {before later : Hub} (enters : Enters subject asked before later)
    (drained : before.IsDrained) (name : String) : (later.account name).rest.map (·.2) =
      (firsts (fun args => (args.map Json.stableKey).getD "") (argsFor name asked)).map (⟨subject, ·⟩) := by
  have entered : (later.account name).rest =
      firsts (·.1) ((argsFor name asked).map (Request.entry subject)) := by rw [enters name, drained.rest, firsts]
  rw [entered, firsts_map, List.map_map]
  rfl

end Enters

theorem loadKeyed_enters {hub : Hub} {matcher : String} (known : matcher ∈ hub.names) (within : hub.Within)
    (subject : Json) (args : Option Json) :
    Enters subject [(matcher, args)] hub
      (hub.loadKeyed matcher ((args.map Json.stableKey).getD "") ⟨subject, args⟩).2 := by
  intro name
  have account_eq : ((hub.loadKeyed matcher ((args.map Json.stableKey).getD "") ⟨subject, args⟩).2).account name =
      if name = matcher then ((hub.coalescer matcher).load ((args.map Json.stableKey).getD "") ⟨subject, args⟩).2.account
      else hub.account name := by
    unfold account loadKeyed
    rw [coalescer_modifyCoalescer]
    by_cases here : name = matcher
    · rw [if_pos ⟨here, here ▸ known⟩, if_pos here]
    · rw [if_neg fun both => here both.1, if_neg here]
  rw [account_eq]
  by_cases here : name = matcher
  · subst here
    have enough : (hub.coalescer name).taken ≤ (hub.coalescer name).entries.length := by
      have accepted := within name
      simpa [account, Coalescer.account] using accepted
    rw [if_pos rfl, Coalescer.rest_load enough]
    simp [argsFor, Request.entry, account]
  · rw [if_neg here]
    simp [argsFor, Ne.symm here]

end Hub

open Hub (Within Enters)

/-! ### Invocations -/

namespace Stage

/-- Everything up to the horizon is done: whoever was to ask before has asked, and who still has an argument
validated goes on with it no sooner. -/
def OnTime (definition : Definition) (begun horizon : Nat) : Stage → Prop
  | .fresh => horizon = begun
  | .validating _ deadline rest => horizon ≤ deadline ∧ deadline + rest.delay = begun + definition.delay ∧
      ∃ schema raw, definition.matcher.schema = some schema ∧ definition.args = some raw ∧
        rest.final = (schema raw).final .error
  | _ => begun + definition.delay < horizon

/-- What an invocation at some stage asks at an instant, if it is looked at. -/
def asks (definition : Definition) (begun now : Nat) : Stage → Option (String × Option Json)
  | .fresh => definition.askedAt begun now
  | .validating _ _ _ => definition.askedAt begun now
  | _ => none

/-- An alarm is set for the instant at which the validation goes on. -/
def Armed (index now : Nat) (hub : Hub) (stage : Stage) : Prop :=
  ∀ span deadline rest, stage = .validating span deadline rest → now < deadline →
    ∃ number, ⟨deadline, number, .wake [index]⟩ ∈ hub.alarms

variable {definition : Definition} {begun now : Nat} {stage : Stage}

/-- Who is on time for an instant asks as the schedule says. -/
theorem OnTime.asks_eq (onTime : stage.OnTime definition begun now) :
    stage.asks definition begun now = definition.askedAt begun now := by
  have passed (before : begun + definition.delay < now) : none = definition.askedAt begun now := by
    rw [Definition.askedAt, if_neg]
    exact fun both => Nat.ne_of_lt before both.2
  cases stage with
  | fresh => rfl
  | validating span deadline rest => rfl
  | evaluating span args deadline rest => exact passed onTime
  | awaiting span load => exact passed onTime
  | settled outcome => exact passed onTime

/-- Behind the horizon nobody asks. -/
theorem OnTime.asks_eq_none {horizon : Nat} (onTime : stage.OnTime definition begun horizon) (behind : now < horizon) :
    stage.asks definition begun now = none := by
  cases stage with
  | fresh =>
    obtain rfl : horizon = begun := onTime
    rw [asks, Definition.askedAt, if_neg]
    rintro ⟨-, due⟩
    omega
  | validating span deadline rest =>
    obtain ⟨ahead, ends, -⟩ := onTime
    rw [asks, Definition.askedAt, if_neg]
    rintro ⟨-, due⟩
    omega
  | _ => rfl

/-- Who has not passed its validation at the horizon is on time with it. -/
theorem OnTime.mono {horizon later : Nat} (onTime : stage.OnTime definition begun horizon) (le : horizon ≤ later)
    (begins : stage ≠ .fresh) (sleeps : ∀ span deadline rest, stage = .validating span deadline rest → later ≤ deadline) :
    stage.OnTime definition begun later := by
  cases stage with
  | fresh => exact absurd rfl begins
  | validating span deadline rest => exact ⟨sleeps span deadline rest rfl, onTime.2⟩
  | evaluating span args deadline rest => exact Nat.lt_of_lt_of_le onTime le
  | awaiting span load => exact Nat.lt_of_lt_of_le onTime le
  | settled outcome => exact Nat.lt_of_lt_of_le onTime le

/-- Whoever asks after the beginning has had its argument validated until now. -/
theorem OnTime.validating_of_asks {horizon : Nat} (onTime : stage.OnTime definition begun horizon)
    (begins : stage ≠ .fresh) (asks : stage.asks definition begun now ≠ none) :
    ∃ span deadline rest, stage = .validating span deadline rest ∧ deadline ≤ now := by
  cases stage with
  | fresh => exact absurd rfl begins
  | validating span deadline rest =>
    refine ⟨span, deadline, rest, rfl, ?_⟩
    obtain ⟨-, ends, -⟩ := onTime
    rw [Stage.asks, Definition.askedAt] at asks
    split at asks
    · rename_i due
      omega
    · exact absurd rfl asks
  | _ => exact absurd rfl asks

theorem Armed.mono {index : Nat} {before later : Hub} (armed : stage.Armed index now before)
    (alarms : before.alarms ⊆ later.alarms) : stage.Armed index now later := fun span deadline rest sleeps ahead =>
  (armed span deadline rest sleeps ahead).imp fun _ mem => alarms mem

end Stage

namespace Invocation

/-- Going on with an invocation up to the end of an instant: it is on time for the next one, has its alarm set, and what
it asked came into the queues. -/
structure Punctual (subject : Json) (definition : Definition) (index begun horizon now : Nat)
    (asked : Option (String × Option Json)) (before : Hub) (r : Stage × Scene) : Prop where
  onTime : r.1.OnTime definition begun horizon
  armed : r.1.Armed index now r.2.hub
  enters : Enters subject asked.toList before r.2.hub

variable {scope : Scope} {definition : Definition} {index begun horizon now : Nat}

theorem evaluated_punctual {hub : Hub} (passed : begun + definition.delay < horizon) (span : Nat) (args : Option Json)
    (running : Running (Ending Bool)) {scene : Scene} (same : scene.hub = hub) :
    Punctual scope.subject definition index begun horizon now none hub
      (evaluated scope definition index span args running scene) := by
  subst same
  cases running with
  | ended ending => exact ⟨passed, nofun, .refl _⟩
  | asleep deadline rest => exact ⟨passed, nofun, .of_ledger rfl⟩

theorem settle_punctual (passed : begun + definition.delay < horizon) (span : Nat) (outcome : Outcome) (scene : Scene) :
    Punctual scope.subject definition index begun horizon now none scene.hub (settle scope span outcome scene) :=
  ⟨passed, nofun, .refl _⟩

/-- A valid argument is passed on at once. -/
theorem dispatch_punctual (batching : scope.batching = true) (due : begun + definition.delay = now) (span : Nat)
    {args : Option Json} (admitted : definition.admitted = some args) (scene : Scene) (within : scene.hub.Within) :
    Punctual scope.subject definition index begun (now + 1) now (definition.askedAt begun now) scene.hub
      (dispatch scope definition index span args scene) := by
  have passed : begun + definition.delay < now + 1 := Nat.lt_succ_of_le (Nat.le_of_eq due)
  unfold dispatch Definition.askedAt
  cases evaluator : definition.matcher.evaluator with
  | single evaluate =>
    have single : ¬ (definition.matcher.isBatched = true ∧ begun + definition.delay = now) := by
      simp [Matcher.isBatched, evaluator]
    rw [if_neg single]
    exact evaluated_punctual passed span args _ rfl
  | batch evaluate =>
    have batched : definition.matcher.isBatched = true := by rw [Matcher.isBatched, evaluator]
    simp only [batching, Bool.not_true, Bool.false_eq_true, if_false, batched, due, and_self, if_true, admitted,
      Option.map_some]
    let opened := scene.hub.openQueue definition.name evaluate
    have opens : scene.hub.Extends opened := scene.hub.openQueue_extends definition.name evaluate
    have same (name : String) : opened.account name = scene.hub.account name := by
      rw [Hub.account, Hub.account, Hub.coalescer_openQueue]
    have loads : Enters scope.subject [(definition.name, args)] opened
        (opened.loadKeyed definition.name ((args.map Json.stableKey).getD "") ⟨scope.subject, args⟩).2 :=
      Hub.loadKeyed_enters (scene.hub.mem_names_openQueue definition.name evaluate) (within.mono opens) _ _
    refine ⟨passed, fun span deadline rest sleeps => ?_,
      ((Enters.of_account same).trans loads).trans (.of_ledger (Hub.ledger_await _ _ _))⟩
    cases sleeps

/-- A validation that was started goes on as long as the schedule says. -/
theorem validated_punctual (batching : scope.batching = true) {schema : Schema} {raw : Json}
    (takes : definition.matcher.schema = some schema) (bound : definition.args = some raw) (span : Nat)
    {running : Running Checked} (comes : running.final = (schema raw).final .error)
    (ends : running.doneAt now = begun + definition.delay) (ahead : running.IsAhead now) (scene : Scene)
    (within : scene.hub.Within) :
    Punctual scope.subject definition index begun (now + 1) now (definition.askedAt begun now) scene.hub
      (validated scope definition index span running scene) := by
  cases running with
  | ended checked =>
    have comes : checked = (schema raw).final .error := comes
    have due : begun + definition.delay = now := ends.symm
    rcases judge_eq scope definition takes bound with ⟨value, judged, admitted⟩ | ⟨error, judged, refused⟩
    · rw [← comes] at judged
      simp only [validated, judged]
      exact dispatch_punctual batching due span admitted scene within
    · rw [← comes] at judged
      simp only [validated, judged]
      have nothing : definition.askedAt begun now = none := by
        rw [Definition.askedAt, refused]
        exact ite_self _
      rw [nothing]
      exact settle_punctual (Nat.lt_succ_of_le (Nat.le_of_eq due)) span _ scene
  | asleep deadline rest =>
    have later : now < deadline := ahead deadline rest rfl
    have ends : deadline + rest.delay = begun + definition.delay := ends
    have nothing : definition.askedAt begun now = none := by
      rw [Definition.askedAt, if_neg]
      rintro ⟨-, due⟩
      omega
    rw [nothing]
    refine ⟨⟨later, ends, schema, raw, takes, bound, comes⟩, ?_, .of_ledger rfl⟩
    rintro _ _ _ ⟨⟩ -
    exact ⟨_, Scene.Stands.mem_setAlarm _ _ _⟩

/-- An invocation that begins does so with all the others. -/
theorem begins_punctual (batching : scope.batching = true) {scene : Scene} (within : scene.hub.Within)
    (began : scene.journal.now = begun) :
    Punctual scope.subject definition index begun (begun + 1) begun (definition.askedAt begun begun) scene.hub
      (begins scope definition index scene) := by
  obtain ⟨hub, journal⟩ := scene
  have began : journal.now = begun := began
  unfold begins
  dsimp only
  cases takes : definition.matcher.schema with
  | none =>
    have admitted : definition.admitted = some definition.args := by rw [Definition.admitted, takes]
    have at_once : definition.delay = 0 := by rw [Definition.delay, takes]
    have due : begun + definition.delay = begun := by rw [at_once, Nat.add_zero]
    exact dispatch_punctual batching due _ admitted ⟨hub, Journal.recordAll _ _⟩ within
  | some schema =>
    cases bound : definition.args with
    | none =>
      have refused : definition.admitted = none := by rw [Definition.admitted, takes, bound]
      have at_once : definition.delay = 0 := by rw [Definition.delay, takes, bound]
      have nothing : definition.askedAt begun begun = none := by
        rw [Definition.askedAt, refused]
        exact ite_self _
      rw [nothing]
      exact settle_punctual (by omega) _ _ ⟨hub, Journal.recordAll _ _⟩
    | some raw =>
      have delay : definition.delay = (schema raw).delay := by rw [Definition.delay, takes, bound]
      have now_eq (events : List Event) (event : Event) : ((journal.recordAll events).record event).now = begun := began
      dsimp only
      rw [now_eq]
      refine validated_punctual batching takes bound _ (Launch.final_start _ _ _) ?_ (Launch.isAhead_start _ _ _)
        ⟨hub, Journal.record _ _⟩ within
      rw [Launch.doneAt_start, delay]

/-- Going on with an invocation at an instant that is not behind the horizon.  If somebody asks at this instant, who
is looked at does. -/
theorem advance_punctual (batching : scope.batching = true) {stage : Stage} {scene : Scene}
    (onTime : stage.OnTime definition begun horizon) (armed : stage.Armed index scene.journal.now scene.hub)
    (within : scene.hub.Within) (started : begun ≤ scene.journal.now ∨ begun < horizon)
    (reached : scene.journal.now ≤ horizon) :
    Punctual scope.subject definition index begun (max horizon (scene.journal.now + 1)) scene.journal.now
      (stage.asks definition begun scene.journal.now) scene.hub (advance scope definition index stage scene) := by
  unfold advance
  cases stage with
  | fresh =>
    obtain rfl : horizon = begun := onTime
    have began : scene.journal.now = horizon :=
      Nat.le_antisymm reached (started.resolve_right (Nat.lt_irrefl horizon))
    rw [began, Nat.max_eq_right (Nat.le_succ horizon)]
    exact begins_punctual batching within began
  | validating span deadline rest =>
    obtain ⟨ahead, ends, schema, raw, takes, bound, comes⟩ := onTime
    dsimp only [Stage.asks]
    split
    · rename_i later
      have nothing : definition.askedAt begun scene.journal.now = none := by
        rw [Definition.askedAt, if_neg]
        rintro ⟨-, due⟩
        omega
      rw [nothing]
      exact ⟨⟨Nat.max_le.2 ⟨ahead, later⟩, ends, schema, raw, takes, bound, comes⟩, armed, .refl _⟩
    · -- the validation goes on at the very instant for which its alarm was set
      obtain rfl : deadline = horizon := by omega
      have now_eq : scene.journal.now = deadline := by omega
      rw [now_eq, Nat.max_eq_right (Nat.le_succ deadline)]
      refine validated_punctual batching takes bound span ((rest.final_start _).trans comes) ?_ (rest.isAhead_start _) _
        within
      rw [Task.doneAt_start, ends]
  | evaluating span args deadline rest =>
    have passed : begun + definition.delay < max horizon (scene.journal.now + 1) :=
      Nat.lt_of_lt_of_le onTime (Nat.le_max_left _ _)
    dsimp only
    split
    · exact ⟨passed, nofun, .refl _⟩
    · exact evaluated_punctual passed span args _ rfl
  | awaiting span load =>
    have passed : begun + definition.delay < max horizon (scene.journal.now + 1) :=
      Nat.lt_of_lt_of_le onTime (Nat.le_max_left _ _)
    dsimp only
    split
    · exact ⟨passed, nofun, .refl _⟩
    · exact settle_punctual passed span _ scene
    · exact settle_punctual passed span _ scene
  | settled outcome => exact ⟨Nat.lt_of_lt_of_le onTime (Nat.le_max_left _ _), nofun, .refl _⟩

end Invocation

/-! ### Sessions -/

namespace Session

/-- All invocations are on time. -/
def OnTime (session : Session) (begun horizon : Nat) : Prop :=
  ∀ (index : Nat) (i : Invocation), session.invocations[index]? = some i → i.stage.OnTime i.definition begun horizon

/-- All invocations have their alarms set. -/
def Armed (session : Session) (now : Nat) (hub : Hub) : Prop :=
  ∀ (index : Nat) (i : Invocation), session.invocations[index]? = some i → i.stage.Armed index now hub

/-- What an invocation asks at an instant, if it is looked at. -/
def asks (session : Session) (begun now index : Nat) : Option (String × Option Json) :=
  session.invocations[index]?.bind fun i => i.stage.asks i.definition begun now

/-- Going on with some invocations up to the end of an instant: they are on time for the next one, and what they
asked, each of them at the first look, came into the queues. -/
structure Punctual (indices : List Nat) (begun horizon now : Nat) (before r : Session × Scene) : Prop where
  onTime : ∀ index ∈ indices, ∀ i, r.1.invocations[index]? = some i →
    i.stage.OnTime i.definition begun (max horizon (now + 1))
  others : ∀ index, index ∉ indices → r.1.invocations[index]? = before.1.invocations[index]?
  armed : r.1.Armed now r.2.hub
  enters : Enters before.1.scope.subject ((firsts id indices).filterMap (before.1.asks begun now)) before.2.hub r.2.hub
  definitions_eq : r.1.definitions = before.1.definitions
  scope_eq : r.1.scope = before.1.scope

/-- What an invocation asked at its first look it does not ask again. -/
theorem Punctual.cons {index : Nat} {indices : List Nat} {begun horizon now : Nat} {before between r : Session × Scene}
    (first : Punctual [index] begun horizon now before between) (rest : Punctual indices begun horizon now between r) :
    Punctual (index :: indices) begun horizon now before r := by
  have others {other : Nat} (differs : other ≠ index) : between.1.invocations[other]? = before.1.invocations[other]? :=
    first.others other fun mem => differs (List.mem_singleton.1 mem)
  have asked : (firsts id indices).filterMap (between.1.asks begun now) =
      ((firsts id indices).filter (id · ≠ id index)).filterMap (before.1.asks begun now) := by
    rw [List.filterMap_filter]
    refine List.filterMap_congr fun other _ => ?_
    by_cases same : other = index
    · subst same
      rw [if_neg (by simp), asks]
      cases here : between.1.invocations[other]? with
      | none => rfl
      | some i => exact (first.onTime other (List.mem_singleton_self other) i here).asks_eq_none (by omega)
    · rw [if_pos (by simpa using same), asks, others same, asks]
  refine ⟨fun other mem i here => ?_, fun other out => ?_, rest.armed, ?_, rest.definitions_eq.trans first.definitions_eq,
    rest.scope_eq.trans first.scope_eq⟩
  · by_cases again : other ∈ indices
    · exact rest.onTime other again i here
    · rw [rest.others other again] at here
      exact first.onTime other (List.mem_singleton.2 ((List.mem_cons.1 mem).resolve_right again)) i here
  · rw [rest.others other fun mem => out (List.mem_cons_of_mem _ mem),
      others fun same => out (same ▸ List.mem_cons_self)]
  · have both := first.enters.trans (first.scope_eq ▸ rest.enters)
    rw [asked] at both
    rw [firsts_cons]
    simpa [firsts_cons, ← List.filterMap_append] using both

variable {session : Session} {scene : Scene} {begun horizon : Nat}

theorem advance_punctual (batching : session.scope.batching = true) {index : Nat}
    (onTime : ∀ i, session.invocations[index]? = some i → i.stage.OnTime i.definition begun horizon)
    (armed : session.Armed scene.journal.now scene.hub) (within : scene.hub.Within)
    (started : begun ≤ scene.journal.now ∨ begun < horizon) (reached : scene.journal.now ≤ horizon) :
    Punctual [index] begun horizon scene.journal.now (session, scene) (session.advance scene index) := by
  have stands := session.advance_stands scene index
  unfold advance at stands ⊢
  cases here : session.invocations[index]? with
  | none =>
    refine ⟨fun other mem i found => ?_, fun _ _ => rfl, armed, ?_, rfl, rfl⟩
    · rw [List.mem_singleton.1 mem, here] at found
      cases found
    · have nothing : session.asks begun scene.journal.now index = none := by rw [asks, here, Option.bind_none]
      simpa [firsts_cons, nothing] using Enters.refl scene.hub
  | some i =>
    have goes := Invocation.advance_punctual batching (onTime i here) (armed index i here) within started reached
    rw [here] at stands
    dsimp only at stands ⊢
    generalize Invocation.advance session.scope i.definition index i.stage scene = r at goes stands ⊢
    obtain ⟨stage, later⟩ := r
    refine ⟨fun other mem k found => ?_,
      fun other out => List.getElem?_set_ne fun same => out (List.mem_singleton.2 same.symm),
      fun other k found => ?_, ?_, definitions_set here rfl, rfl⟩
    · obtain ⟨-, rfl⟩ := (getElem?_set_cases found).resolve_right fun other => other.1 (List.mem_singleton.1 mem)
      exact goes.onTime
    · rcases getElem?_set_cases found with ⟨rfl, rfl⟩ | ⟨-, found⟩
      · exact goes.armed
      · exact (armed other k found).mono stands.alarms
    · have asked : [index].filterMap (session.asks begun scene.journal.now) =
          (i.stage.asks i.definition begun scene.journal.now).toList := by
        rw [List.filterMap_cons, asks, here, Option.bind_some, List.filterMap_nil]
        cases i.stage.asks i.definition begun scene.journal.now <;> rfl
      rw [firsts_cons, firsts_nil, List.filter_nil, asked]
      exact goes.enters

/-- Going on with several invocations, whether they are on time for this instant or for the next one already. -/
theorem advanceAll_punctual (indices : List Nat) (batching : session.scope.batching = true)
    (onTime : ∀ (index : Nat) (i : Invocation), session.invocations[index]? = some i →
      i.stage.OnTime i.definition begun horizon ∨
      i.stage.OnTime i.definition begun (max horizon (scene.journal.now + 1)))
    (armed : session.Armed scene.journal.now scene.hub) (within : scene.hub.Within)
    (started : begun ≤ scene.journal.now ∨ begun < horizon) (reached : scene.journal.now ≤ horizon) :
    Punctual indices begun horizon scene.journal.now (session, scene) (advanceAll indices session scene) := by
  induction indices generalizing session scene with
  | nil => exact ⟨nofun, fun _ _ => rfl, armed, .refl _, rfl, rfl⟩
  | cons index indices ih =>
    have first : Punctual [index] begun horizon scene.journal.now (session, scene) (session.advance scene index) := by
      by_cases early : ∀ i, session.invocations[index]? = some i → i.stage.OnTime i.definition begun horizon
      · exact advance_punctual batching early armed within started reached
      · -- it was looked at before, and is on time for the next instant
        have late : ∀ i, session.invocations[index]? = some i →
            i.stage.OnTime i.definition begun (max horizon (scene.journal.now + 1)) := by
          intro i here
          refine (onTime index i here).resolve_left fun onTime => early fun k found => ?_
          rwa [← Option.some.inj (here.symm.trans found)]
        have goes := advance_punctual batching late armed within (.inr (by omega)) (by omega)
        exact { goes with onTime := fun other mem i here => by simpa using goes.onTime other mem i here }
    have same_now : (session.advance scene index).2.journal.now = scene.journal.now :=
      (session.advance_stands scene index).journal.now
    have rest := @ih (session.advance scene index).1 (session.advance scene index).2
      (by rwa [first.scope_eq]) (fun other i here => ?_) (by rw [same_now]; exact first.armed)
      (within.mono (session.advance_loads scene index).extends_) (by rwa [same_now]) (by rwa [same_now])
    · rw [same_now] at rest
      exact first.cons rest
    · rw [same_now]
      by_cases same : other = index
      · subst same
        exact .inr (first.onTime other (List.mem_singleton_self other) i here)
      · rw [first.others other fun mem => same (List.mem_singleton.1 mem)] at here
        exact onTime other i here

end Session

end Segmentation
