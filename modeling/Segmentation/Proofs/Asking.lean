import Segmentation.Proofs.Deeds
import Segmentation.Proofs.Loading
import Segmentation.Proofs.Resolvers

/-!
# Invocations that ask batched evaluators

An invocation of a batched matcher loads one request, unless its argument is refused, and waits for that request and for
no other (`Stage.Asks`).  Its outcome is what became of the request.  Going on with an invocation concerns neither the
others that wait nor the requests that they wait for (`Hub.Heeds`).
-/

namespace Segmentation

/-- The outcome of a request to a batched matcher, once there is one. -/
def TicketState.outcome? (matcher segment : String) : TicketState → Option Outcome
  | .waiting => none
  | .answered value => some (.ok value)
  | .lost => some (.error (.unansweredRequest matcher segment))

namespace Hub

/-- The invocation waits for no request. -/
def Silent (hub : Hub) (index : Nat) : Prop := ∀ load, [index] ∉ hub.waiters load

/-- The invocation waits for this request, or has waited for it, and for no other. -/
def Asked (hub : Hub) (index : Nat) (load : Load) : Prop := ∀ other, [index] ∈ hub.waiters other ↔ other = load

/-- Nobody but one invocation may have begun to wait, and requests for which somebody waited stay as they were. -/
structure Heeds (index : Nat) (before later : Hub) : Prop where
  grows : ∀ load, before.waiters load ⊆ later.waiters load
  own : ∀ load, ∀ place ∈ later.waiters load, place ∈ before.waiters load ∨ place = [index]
  states : ∀ load, before.waiters load ≠ [] → later.state load = before.state load
  woken : later.woken = before.woken

/-- Whoever waited still does, and a request that is no longer open stays as it is if somebody waited for it. -/
structure Minds (before later : Hub) : Prop where
  grows : ∀ load, before.waiters load ⊆ later.waiters load
  stays : ∀ load, before.waiters load ≠ [] → before.state load ≠ .waiting → later.state load = before.state load

namespace Minds

theorem refl (hub : Hub) : hub.Minds hub := ⟨fun _ => List.Subset.refl _, fun _ _ _ => rfl⟩

theorem trans {a b c : Hub} (ab : a.Minds b) (bc : b.Minds c) : a.Minds c := by
  refine ⟨fun load => List.Subset.trans (ab.grows load) (bc.grows load), fun load some_waits closed => ?_⟩
  have still : b.waiters load ≠ [] := fun none => some_waits (List.eq_nil_of_subset_nil (none ▸ ab.grows load))
  have same := ab.stays load some_waits closed
  rw [bc.stays load still (by rwa [same]), same]

end Minds

theorem Heeds.minds {index : Nat} {before later : Hub} (heeds : Heeds index before later) : before.Minds later :=
  ⟨heeds.grows, fun load some_waits _ => heeds.states load some_waits⟩

namespace Heeds

variable {index : Nat}

theorem of_entries {before later : Hub} (same : ∀ load, later.entryOf? load = before.entryOf? load)
    (woken : later.woken = before.woken) : Heeds index before later where
  grows load := by
    rw [waiters_eq, waiters_eq, same]
    exact List.Subset.refl _
  own load place mem := by
    rw [waiters_eq, same] at mem
    exact .inl mem
  states load _ := by rw [state_eq, state_eq, same]
  woken := woken

theorem refl (hub : Hub) : Heeds index hub hub := .of_entries (fun _ => rfl) rfl

theorem trans {a b c : Hub} (ab : Heeds index a b) (bc : Heeds index b c) : Heeds index a c where
  grows load := List.Subset.trans (ab.grows load) (bc.grows load)
  own load place mem := by
    rcases bc.own load place mem with mem | own
    · exact ab.own load place mem
    · exact .inr own
  states load some_waits := by
    have still : b.waiters load ≠ [] := fun none => some_waits (List.eq_nil_of_subset_nil (none ▸ ab.grows load))
    rw [bc.states load still, ab.states load some_waits]
  woken := bc.woken.trans ab.woken

/-- Any other invocation waits for what it waited for. -/
theorem mem_iff {before later : Hub} (heeds : Heeds index before later) {other : Nat} (differs : other ≠ index)
    (load : Load) : [other] ∈ later.waiters load ↔ [other] ∈ before.waiters load := by
  constructor
  · intro mem
    rcases heeds.own load [other] mem with mem | same
    · exact mem
    · exact absurd (List.singleton_inj.1 same) differs
  · exact fun mem => heeds.grows load mem

end Heeds

theorem state_await (hub : Hub) (load : Load) (waiter : Place) (other : Load) :
    (hub.await load waiter).state other = hub.state other := by
  rw [state_eq, state_eq, entryOf?_await]
  split
  · rename_i here
    rw [here, Option.map_map]
    rfl
  · rfl

/-- Waiting is noted, and concerns nobody else. -/
theorem await_heeds (hub : Hub) (load : Load) (index : Nat) : Heeds index hub (hub.await load [index]) where
  grows other := by
    rw [waiters_eq, waiters_eq, entryOf?_await]
    by_cases here : other = load
    · subst here
      rw [if_pos rfl]
      cases hub.entryOf? other with
      | none => exact List.Subset.refl _
      | some e => exact List.subset_append_left _ _
    · rw [if_neg here]
      exact List.Subset.refl _
  own other place mem := by
    rw [waiters_eq, entryOf?_await] at mem
    rw [waiters_eq]
    by_cases here : other = load
    · subst here
      rw [if_pos rfl] at mem
      cases found : hub.entryOf? other with
      | none =>
        rw [found] at mem
        exact .inl mem
      | some e =>
        rw [found] at mem
        rcases List.mem_append.1 mem with mem | mem
        · exact .inl mem
        · exact .inr (List.mem_singleton.1 mem)
    · rw [if_neg here] at mem
      exact .inl mem
  states other _ := hub.state_await load [index] other
  woken := rfl

/-- A request that is loaded only now has nobody who waits for it. -/
theorem loadKeyed_heeds (hub : Hub) {matcher : String} (known : matcher ∈ hub.names)
    (within : (hub.account matcher).taken ≤ (hub.account matcher).accepted.length) (key : String) (request : Request)
    (index : Nat) : Heeds index hub (hub.loadKeyed matcher key request).2 := by
  have follows := hub.loadKeyed_follows known within key request
  refine ⟨fun load => ?_, fun load place mem => .inl (by rwa [follows.waiters] at mem), fun load some_waits => ?_, rfl⟩
  · rw [follows.waiters]
    exact List.Subset.refl _
  · obtain ⟨-, -, ⟨-, same⟩ | ⟨fresh, grown⟩⟩ := hub.loadKeyed_spec known within key request
    · rw [state_eq, state_eq, same]
    · have old : load ≠ (hub.loadKeyed matcher key request).1 := by
        rintro rfl
        rw [waiters_eq, fresh] at some_waits
        exact some_waits rfl
      rw [state_eq, state_eq, grown, if_neg old]

/-- A new queue concerns nobody. -/
theorem openQueue_heeds (hub : Hub) (matcher : String) (evaluate : BatchEvaluator) (index : Nat) :
    Heeds index hub (hub.openQueue matcher evaluate) := by
  refine .of_entries (hub.entryOf?_openQueue matcher evaluate) ?_
  unfold Hub.openQueue
  split <;> rfl

theorem Silent.openQueue {hub : Hub} {index : Nat} (silent : hub.Silent index) (matcher : String)
    (evaluate : BatchEvaluator) : (hub.openQueue matcher evaluate).Silent index := fun load => by
  rw [waiters_eq, entryOf?_openQueue]
  exact silent load

theorem Silent.loadKeyed {hub : Hub} {index : Nat} (silent : hub.Silent index) {matcher : String}
    (known : matcher ∈ hub.names) (within : (hub.account matcher).taken ≤ (hub.account matcher).accepted.length)
    (key : String) (request : Request) : (hub.loadKeyed matcher key request).2.Silent index := fun load => by
  rw [(hub.loadKeyed_follows known within key request).waiters]
  exact silent load

/-- Whoever was silent and begins to wait for a request waits for no other. -/
theorem asked_await {hub : Hub} {index : Nat} (silent : hub.Silent index) {load : Load}
    (there : (hub.entryOf? load).isSome) : (hub.await load [index]).Asked index load := by
  obtain ⟨e, found⟩ := Option.isSome_iff_exists.1 there
  intro other
  constructor
  · intro mem
    by_contra differs
    rw [waiters_eq, entryOf?_await, if_neg differs] at mem
    exact silent other mem
  · rintro rfl
    rw [waiters_eq, entryOf?_await, if_pos rfl, found]
    exact List.mem_append_right _ (List.mem_singleton_self _)

/-- A new queue changes no account. -/
theorem Accounted.openQueue {hub : Hub} {log : List Happening} {aloft : List Load}
    (accounted : hub.Accounted log aloft) (matcher : String) (evaluate : BatchEvaluator) :
    (hub.openQueue matcher evaluate).Accounted log aloft := by
  have same (name : String) : (hub.openQueue matcher evaluate).account name = hub.account name := by
    rw [account, account, coalescer_openQueue]
  have rest : (hub.openQueue matcher evaluate).kept = hub.kept ∧
      (hub.openQueue matcher evaluate).answering = hub.answering := by
    unfold Hub.openQueue
    split <;> exact ⟨rfl, rfl⟩
  refine accounted.of_accounts same ?_ (fun _ => rfl) fun load known => ?_
  · rw [holders_of_accounts same rest.1 rest.2]
    exact accounted.books.of_eq (fun load => by rw [resolvers, entryOf?_openQueue]; rfl)
      (fun load => by rw [state_eq, entryOf?_openQueue]; rfl) fun _ => rfl
  · rw [rest.1, rest.2] at known
    exact (or_assoc.2 known).imp_left .inr

theorem Accounted.await {hub : Hub} {log : List Happening} {aloft : List Load}
    (accounted : hub.Accounted log aloft) (load : Load) (waiter : Place) :
    (hub.await load waiter).Accounted log aloft := by
  have same := account_of_ledger (hub.ledger_await load waiter)
  refine accounted.of_accounts same ?_ (fun _ => rfl) fun other known => ?_
  · rw [holders_of_accounts same rfl rfl]
    refine accounted.books.of_eq (fun other => ?_) (hub.state_await load waiter) fun _ => rfl
    rw [resolvers, resolvers, entryOf?_await]
    split
    · rename_i here
      rw [here, Option.map_map]
      rfl
    · rfl
  · exact (or_assoc.2 known).imp_left .inr

end Hub

/-! ### Invocations -/

/-- The load is the request of a definition, in the queue of its matcher under the key of what the schema admitted. -/
def Definition.Requests (definition : Definition) (hub : Hub) (load : Load) : Prop :=
  load.matcher = definition.name ∧ ∃ args request, definition.admitted = some args ∧
    (hub.account load.matcher).accepted[load.ticket]? = some ((args.map Json.stableKey).getD "", request)

theorem Definition.Requests.mono {definition : Definition} {before later : Hub} {load : Load}
    (requests : definition.Requests before load)
    (accepted : ∀ name, (before.account name).accepted <+: (later.account name).accepted) :
    definition.Requests later load := by
  obtain ⟨name, args, request, admitted, found⟩ := requests
  obtain ⟨more, grown⟩ := accepted load.matcher
  refine ⟨name, args, request, admitted, ?_⟩
  rw [← grown, List.getElem?_append_left (List.getElem?_eq_some_iff.1 found).1]
  exact found

/-- The request that is loaded, under its key, is that of the definition, whoever has queued it. -/
theorem Definition.Requests.loadKeyed {definition : Definition} {args : Option Json}
    (admitted : definition.admitted = some args) {hub : Hub} (known : definition.name ∈ hub.names)
    (within : (hub.account definition.name).taken ≤ (hub.account definition.name).accepted.length) (subject : Json) :
    let loaded := hub.loadKeyed definition.name ((args.map Json.stableKey).getD "") ⟨subject, args⟩
    definition.Requests loaded.2 loaded.1 := by
  obtain ⟨name, -, ⟨⟨e, found, same⟩, entries⟩ | ⟨-, entries⟩⟩ := hub.loadKeyed_spec known within
    ((args.map Json.stableKey).getD "") ⟨subject, args⟩
  · refine ⟨name, args, e.request, admitted, ?_⟩
    rw [Hub.getElem?_accepted, entries, found]
    exact congrArg (fun key => some (key, e.request)) same
  · refine ⟨name, args, ⟨subject, args⟩, admitted, ?_⟩
    rw [Hub.getElem?_accepted, entries, if_pos rfl]
    rfl

/-- At this stage the invocation of a batched matcher has loaded at most one request: none if the argument was refused,
and otherwise the one that its outcome comes from. -/
def Stage.Asks (scope : Scope) (definition : Definition) (index : Nat) (hub : Hub) : Stage → Prop
  | .fresh => hub.Silent index
  | .validating _ _ rest => hub.Silent index ∧ ∃ schema raw, definition.matcher.schema = some schema ∧
      definition.args = some raw ∧ rest.final = (schema raw).final .error
  | .evaluating _ _ _ _ => definition.matcher.isBatched = false
  | .awaiting _ load => hub.Asked index load ∧ definition.Requests hub load
  | .settled outcome =>
    definition.matcher.isBatched = false ∨
    (hub.Silent index ∧ definition.admitted = none ∧
      ∃ message, outcome = .error (scope.argumentError definition.name message)) ∨
    ∃ load, hub.Asked index load ∧ definition.Requests hub load ∧
      (hub.state load).outcome? definition.name scope.segment = some outcome

/-- It stays so as long as the invocation waits for nothing else, and what it waits for does not change again. -/
theorem Stage.Asks.mono {scope : Scope} {definition : Definition} {index : Nat} {before later : Hub} {stage : Stage}
    (asks : stage.Asks scope definition index before)
    (accepted : ∀ name, (before.account name).accepted <+: (later.account name).accepted)
    (waiters : ∀ load, [index] ∈ later.waiters load ↔ [index] ∈ before.waiters load)
    (states : ∀ load, [index] ∈ before.waiters load → before.state load ≠ .waiting →
      later.state load = before.state load) : stage.Asks scope definition index later := by
  have silent (h : before.Silent index) : later.Silent index := fun load mem => h load ((waiters load).1 mem)
  have asked {load : Load} (h : before.Asked index load) : later.Asked index load :=
    fun other => (waiters other).trans (h other)
  cases stage with
  | fresh => exact silent asks
  | validating span deadline rest => exact asks.imp_left silent
  | evaluating span args deadline rest => exact asks
  | awaiting span load => exact ⟨asked asks.1, asks.2.mono accepted⟩
  | settled outcome =>
    rcases asks with single | ⟨refused, message⟩ | ⟨load, waits, requests, became⟩
    · exact .inl single
    · exact .inr (.inl ⟨silent refused, message⟩)
    · have closed : before.state load ≠ .waiting := by
        intro open_
        rw [open_] at became
        cases became
      refine .inr (.inr ⟨load, asked waits, requests.mono accepted, ?_⟩)
      rw [states load ((waits load).2 rfl) closed]
      exact became

namespace Invocation

/-- Going on with an invocation keeps the books, and concerns nobody else; if it waits then, its request is open. -/
structure Goes (scope : Scope) (definition : Definition) (index : Nat) (log : List Happening) (aloft : List Load)
    (before : Hub) (r : Stage × Scene) : Prop where
  accounted : r.2.hub.Accounted log aloft
  heeds : Hub.Heeds index before r.2.hub
  asks : r.1.Asks scope definition index r.2.hub
  waits : ∀ span load, r.1 = .awaiting span load → r.2.hub.state load = .waiting

variable {scope : Scope} {definition : Definition} {index : Nat} {log : List Happening} {aloft : List Load}

theorem settle_goes (scene : Scene) (accounted : scene.hub.Accounted log aloft) (span : Nat) {outcome : Outcome}
    (asks : (Stage.settled outcome).Asks scope definition index scene.hub) :
    Goes scope definition index log aloft scene.hub (settle scope span outcome scene) :=
  ⟨accounted, .refl _, asks, nofun⟩

theorem evaluated_goes (single : definition.matcher.isBatched = false) (scene : Scene)
    (accounted : scene.hub.Accounted log aloft) (span : Nat) (args : Option Json) (running : Running (Ending Bool)) :
    Goes scope definition index log aloft scene.hub (evaluated scope definition index span args running scene) := by
  cases running with
  | ended ending => exact ⟨accounted, .refl _, .inl single, nofun⟩
  | asleep deadline rest =>
    have idle : ∀ load value, Purpose.wake [index] ≠ .answer load value := nofun
    exact ⟨accounted.setAlarm deadline idle, .of_entries (fun _ => rfl) rfl, single, nofun⟩

/-- Whoever has a valid argument for a batched matcher loads a request, and waits for it. -/
theorem dispatch_goes (batching : scope.batching = true) (scene : Scene) (accounted : scene.hub.Accounted log aloft)
    (silent : scene.hub.Silent index) (span : Nat) {args : Option Json} (admitted : definition.admitted = some args) :
    Goes scope definition index log aloft scene.hub (dispatch scope definition index span args scene) := by
  unfold dispatch
  cases evaluator : definition.matcher.evaluator with
  | single evaluate =>
    have single : definition.matcher.isBatched = false := by rw [Matcher.isBatched, evaluator]
    exact evaluated_goes single ⟨scene.hub, scene.journal.record _⟩ accounted span args _
  | batch evaluate =>
    simp only [batching, Bool.not_true, Bool.false_eq_true, if_false]
    let opened := scene.hub.openQueue definition.name evaluate
    let key := (args.map Json.stableKey).getD ""
    let loaded := opened.loadKeyed definition.name key ⟨scope.subject, args⟩
    have in_order : opened.Accounted log aloft := accounted.openQueue definition.name evaluate
    have known : definition.name ∈ opened.names := scene.hub.mem_names_openQueue definition.name evaluate
    have within := in_order.within definition.name
    obtain ⟨books, waits⟩ := in_order.loadKeyed known key ⟨scope.subject, args⟩
    have requests : definition.Requests loaded.2 loaded.1 := .loadKeyed admitted known within scope.subject
    have still_silent : loaded.2.Silent index := (silent.openQueue definition.name evaluate).loadKeyed known within _ _
    have opening := scene.hub.openQueue_heeds definition.name evaluate index
    have loading : Hub.Heeds index opened loaded.2 := opened.loadKeyed_heeds known within key ⟨scope.subject, args⟩ index
    refine ⟨books.await loaded.1 [index], (opening.trans loading).trans (loaded.2.await_heeds loaded.1 index),
      ⟨Hub.asked_await still_silent (Hub.isSome_entryOf?_of_waiting waits), requests.mono fun name => ?_⟩,
      fun _ other same => ?_⟩
    · have same := Hub.account_of_ledger (loaded.2.ledger_await loaded.1 [index]) name
      exact (congrArg Account.accepted same).symm ▸ List.prefix_rfl
    · obtain ⟨-, rfl⟩ := Stage.awaiting.inj same
      exact (loaded.2.state_await loaded.1 [index] loaded.1).trans waits

/-- A validation that was started. -/
theorem validated_goes (batching : scope.batching = true) (scene : Scene) (accounted : scene.hub.Accounted log aloft)
    (silent : scene.hub.Silent index) {schema : Schema} {raw : Json} (takes : definition.matcher.schema = some schema)
    (bound : definition.args = some raw) (span : Nat) {running : Running Checked}
    (comes : running.final = (schema raw).final .error) :
    Goes scope definition index log aloft scene.hub (validated scope definition index span running scene) := by
  cases running with
  | ended checked =>
    have comes : checked = (schema raw).final .error := comes
    rcases judge_eq scope definition takes bound with ⟨value, judged, admitted⟩ | ⟨error, judged, refused⟩
    · rw [← comes] at judged
      simp only [validated, judged]
      exact dispatch_goes batching scene accounted silent span admitted
    · rw [← comes] at judged
      simp only [validated, judged]
      refine settle_goes scene accounted span (.inr (.inl ⟨silent, refused, ?_⟩))
      unfold judge at judged
      split at judged
      · cases judged
      all_goals exact ⟨_, congrArg Except.error (Except.error.inj judged).symm⟩
  | asleep deadline rest =>
    have idle (load : Load) (value : Bool) : Purpose.wake [index] ≠ .answer load value := by simp
    refine ⟨accounted.setAlarm deadline idle, .of_entries (fun _ => rfl) rfl,
      ⟨silent, schema, raw, takes, bound, comes⟩, fun span load awaits => ?_⟩
    cases awaits

theorem begins_goes (batching : scope.batching = true) (scene : Scene) (accounted : scene.hub.Accounted log aloft)
    (silent : scene.hub.Silent index) :
    Goes scope definition index log aloft scene.hub (begins scope definition index scene) := by
  obtain ⟨hub, journal⟩ := scene
  unfold begins
  dsimp only
  cases takes : definition.matcher.schema with
  | none =>
    have admitted : definition.admitted = some definition.args := by rw [Definition.admitted, takes]
    exact dispatch_goes batching ⟨hub, Journal.recordAll _ _⟩ accounted silent _ admitted
  | some schema =>
    cases bound : definition.args with
    | none =>
      have refused : definition.admitted = none := by rw [Definition.admitted, takes, bound]
      exact settle_goes ⟨hub, Journal.recordAll _ _⟩ accounted _ (.inr (.inl ⟨silent, refused, _, rfl⟩))
    | some raw =>
      exact validated_goes batching ⟨hub, Journal.record _ _⟩ accounted silent takes bound _
        (Launch.final_start _ _ _)

/-- An invocation that goes on at any stage.  Whoever waits for an answer gets it, unless there is none yet. -/
theorem advance_goes (batching : scope.batching = true) (scene : Scene) (accounted : scene.hub.Accounted log aloft)
    {stage : Stage} (asks : stage.Asks scope definition index scene.hub) :
    Goes scope definition index log aloft scene.hub (advance scope definition index stage scene) := by
  unfold advance
  cases stage with
  | fresh => exact begins_goes batching scene accounted asks
  | validating span deadline rest =>
    dsimp only
    split
    · exact ⟨accounted, .refl _, asks, nofun⟩
    · obtain ⟨silent, schema, raw, takes, bound, comes⟩ := asks
      exact validated_goes batching scene accounted silent takes bound span ((rest.final_start _).trans comes)
  | evaluating span args deadline rest =>
    dsimp only
    split
    · exact ⟨accounted, .refl _, asks, nofun⟩
    · exact evaluated_goes asks scene accounted span args _
  | awaiting span load =>
    obtain ⟨asked, requests⟩ := asks
    dsimp only
    cases state : scene.hub.state load with
    | waiting =>
      refine ⟨accounted, .refl _, ⟨asked, requests⟩, fun _ other same => ?_⟩
      obtain ⟨-, rfl⟩ := Stage.awaiting.inj same
      exact state
    | answered value => exact settle_goes scene accounted span (.inr (.inr ⟨load, asked, requests, by rw [state]; rfl⟩))
    | lost => exact settle_goes scene accounted span (.inr (.inr ⟨load, asked, requests, by rw [state]; rfl⟩))
  | settled outcome => exact ⟨accounted, .refl _, asks, nofun⟩

end Invocation

/-! ### Sessions -/

namespace Session

/-- The definitions of the invocations. -/
def definitions (session : Session) : List Definition := session.invocations.map (·.definition)

theorem definitions_set {session : Session} {index : Nat} {i j : Invocation} (here : session.invocations[index]? = some i)
    (same : j.definition = i.definition) :
    definitions { session with invocations := session.invocations.set index j } = session.definitions :=
  map_set_of_same here same

/-- All invocations ask as they should. -/
def Asks (session : Session) (hub : Hub) : Prop :=
  ∀ (index : Nat) (i : Invocation), session.invocations[index]? = some i →
    i.stage.Asks session.scope i.definition index hub

/-- An invocation waits for a request that is no longer open. -/
def Stale (session : Session) (hub : Hub) (index : Nat) : Prop :=
  ∃ i span load, session.invocations[index]? = some i ∧ i.stage = .awaiting span load ∧ hub.state load ≠ .waiting

/-- Going on with some invocations keeps the books, and none of them waits any longer for a request that is no longer
open. -/
structure Attends (indices : List Nat) (log : List Happening) (aloft : List Load) (before r : Session × Scene) :
    Prop where
  accounted : r.2.hub.Accounted log aloft
  asks : r.1.Asks r.2.hub
  minds : before.2.hub.Minds r.2.hub
  woken : r.2.hub.woken = before.2.hub.woken
  scope_eq : r.1.scope = before.1.scope
  definitions_eq : r.1.definitions = before.1.definitions
  stale : ∀ index, r.1.Stale r.2.hub index → index ∉ indices ∧ before.1.Stale before.2.hub index

variable {session : Session} {scene : Scene} {log : List Happening} {aloft : List Load}

theorem advance_attends (batching : session.scope.batching = true) (accounted : scene.hub.Accounted log aloft)
    (asks : session.Asks scene.hub) (index : Nat) :
    Attends [index] log aloft (session, scene) (session.advance scene index) := by
  unfold advance
  cases here : session.invocations[index]? with
  | none =>
    refine ⟨accounted, asks, .refl _, rfl, rfl, rfl, fun other stale => ⟨fun mem => ?_, stale⟩⟩
    obtain ⟨i, -, -, found, -⟩ := stale
    rw [List.mem_singleton.1 mem, here] at found
    cases found
  | some i =>
    have goes := Invocation.advance_goes batching scene accounted (asks index i here)
    have loads := Invocation.advance_loads session.scope i.definition index i.stage scene
    dsimp only
    generalize Invocation.advance session.scope i.definition index i.stage scene = r at goes loads ⊢
    obtain ⟨stage, later⟩ := r
    refine ⟨goes.accounted, fun other k found => ?_, goes.heeds.minds, goes.heeds.woken, rfl, definitions_set here rfl,
      fun other stale => ?_⟩
    · rcases getElem?_set_cases found with ⟨rfl, rfl⟩ | ⟨differs, found⟩
      · exact goes.asks
      · exact (asks other k found).mono loads.extends_.accepted (fun load => goes.heeds.mem_iff differs load)
          fun load mem _ => goes.heeds.states load (List.ne_nil_of_mem mem)
    · obtain ⟨k, span, load, found, awaiting, closed⟩ := stale
      rcases getElem?_set_cases found with ⟨rfl, rfl⟩ | ⟨differs, found⟩
      · exact absurd (goes.waits span load awaiting) closed
      · refine ⟨fun mem => differs (List.mem_singleton.1 mem), k, span, load, found, awaiting, ?_⟩
        have asked := asks other k found
        rw [awaiting] at asked
        have some_waits : scene.hub.waiters load ≠ [] := List.ne_nil_of_mem ((asked.1 load).2 rfl)
        rwa [← goes.heeds.states load some_waits]

theorem advanceAll_attends (indices : List Nat) (batching : session.scope.batching = true)
    (accounted : scene.hub.Accounted log aloft) (asks : session.Asks scene.hub) :
    Attends indices log aloft (session, scene) (advanceAll indices session scene) := by
  induction indices generalizing session scene with
  | nil => exact ⟨accounted, asks, .refl _, rfl, rfl, rfl, fun _ stale => ⟨List.not_mem_nil, stale⟩⟩
  | cons index indices ih =>
    have first := advance_attends batching accounted asks index
    have rest := ih (by rwa [first.scope_eq]) first.accounted first.asks
    refine ⟨rest.accounted, rest.asks, first.minds.trans rest.minds, rest.woken.trans first.woken,
      rest.scope_eq.trans first.scope_eq, rest.definitions_eq.trans first.definitions_eq, fun other stale => ?_⟩
    obtain ⟨not_later, between⟩ := rest.stale other stale
    obtain ⟨not_first, before⟩ := first.stale other between
    exact ⟨fun mem => (List.mem_cons.1 mem).elim (fun same => not_first (List.mem_singleton.2 same)) not_later, before⟩

/-! #### Launching -/

/-- Invocations of the given definitions, one for each key, none of which has begun. -/
structure Unbegun (scope : Scope) (definitions : List Definition) (session : Session) : Prop where
  scope_eq : session.scope = scope
  nodup : session.keys.Nodup
  fresh : ∀ i ∈ session.invocations, i.stage = .fresh ∧ i.definition ∈ definitions

namespace Unbegun

variable {scope : Scope} {definitions : List Definition}

theorem takeSeat (unbegun : session.Unbegun scope definitions) (index : Nat) :
    (session.takeSeat index).2.Unbegun scope definitions := by
  have same {i j : Invocation} (here : session.invocations[index]? = some i) (definition : j.definition = i.definition)
      (stage : j.stage = i.stage) :
      Unbegun scope definitions { session with invocations := session.invocations.set index j } := by
    refine ⟨unbegun.scope_eq, keys_set here definition ▸ unbegun.nodup, fun k mem => ?_⟩
    rcases List.mem_or_eq_of_mem_set mem with mem | rfl
    · exact unbegun.fresh k mem
    · rw [stage, definition]
      exact unbegun.fresh i (List.mem_of_getElem? here)
  unfold Session.takeSeat
  cases here : session.invocations[index]? with
  | none => exact unbegun
  | some i =>
    cases vacant : i.vacant with
    | nil =>
      simp only [vacant]
      exact same here rfl rfl
    | cons seat seats =>
      simp only [vacant]
      exact same here rfl rfl

theorem invocationFor (unbegun : session.Unbegun scope definitions) (d : Definition) (journal : Journal) :
    (session.invocationFor d journal).2.1.Unbegun scope (definitions ++ [d]) := by
  have old : ∀ i ∈ session.invocations, i.stage = .fresh ∧ i.definition ∈ definitions ++ [d] :=
    fun i mem => (unbegun.fresh i mem).imp_right (List.mem_append_left _)
  unfold Session.invocationFor
  by_cases known : d.key ∈ session.keys
  · simp only [findIdx?_key known]
    exact ⟨unbegun.scope_eq, unbegun.nodup, old⟩
  · simp only [findIdx?_no_key known]
    have grown : keys { session with invocations := session.invocations ++ [⟨d, .fresh, 0, []⟩] } =
        session.keys ++ [d.key] := List.map_append
    refine ⟨unbegun.scope_eq, ?_, fun i mem => ?_⟩
    · rw [grown, ← List.concat_eq_append]
      exact unbegun.nodup.concat known
    · rcases List.mem_append.1 mem with mem | mem
      · exact old i mem
      · rw [List.mem_singleton.1 mem]
        exact ⟨rfl, List.mem_append_right _ (List.mem_singleton_self d)⟩

mutual

theorem launch : (expr : Expr) → {definitions : List Definition} → {session : Session} →
    session.Unbegun scope definitions → (journal : Journal) →
    (session.launch expr journal).2.1.Unbegun scope (definitions ++ expr.leaves)
  | .leaf d, _, _, unbegun, journal => (unbegun.invocationFor d journal).takeSeat _
  | .and es, _, _, unbegun, journal => launchAll es unbegun journal
  | .or es, _, _, unbegun, journal => launchAll es unbegun journal
  | .not e, _, _, unbegun, journal => launch e unbegun journal

theorem launchAll : (exprs : List Expr) → {definitions : List Definition} → {session : Session} →
    session.Unbegun scope definitions → (journal : Journal) →
    (session.launchAll exprs journal).2.1.Unbegun scope (definitions ++ Expr.leavesOfAll exprs)
  | [], _, _, unbegun, journal => by
    rw [Expr.leavesOfAll, List.append_nil]
    exact unbegun
  | e :: es, _, session, unbegun, journal => by
    have all := launchAll es (launch e unbegun journal) (session.launch e journal).2.2
    rwa [List.append_assoc] at all

end

theorem of_start (scope : Scope) (expr : Expr) (journal : Journal) :
    ((Session.start scope).launch expr journal).2.1.Unbegun scope expr.leaves := by
  have nothing : (Session.start scope).Unbegun scope [] := ⟨rfl, List.nodup_nil, List.forall_mem_nil _⟩
  exact nothing.launch expr journal

end Unbegun

end Session

end Segmentation
