import Segmentation.Proofs.Kinship

/-!
# The two ways into a queue

A request comes into the queue of a matcher by a load, under the stable key of the whole request, or by an
invocation, under the stable key of its argument alone.  Either way two requests with one subject share an entry
exactly if their keys are equal (`Coalescer.load_eq_load_iff`), and the keys agree on which requests are the same but
for one case: the key of the whole request writes an absent argument like a null one, so a load takes the two for the
same request (`Request.joined_iff`), while an invocation tells them apart.
-/

namespace Segmentation

/-! ### Entries and keys -/

namespace Coalescer

variable {c : Coalescer Request}

/-- The key of a request is queued from its load on, for the ticket that the load gave. -/
theorem queued?_load (within : c.taken ≤ c.entries.length) (key : String) (request : Request) :
    (c.load key request).2.queued? key = some (c.load key request).1 := by
  unfold load
  cases queued : c.queued? key with
  | some ticket => exact queued
  | none =>
    have fresh : (c.entries.drop c.taken).findIdx? (·.key = key) = none := Option.map_eq_none_iff.1 queued
    have last : c.taken + (c.entries.length - c.taken) = c.entries.length := Nat.add_sub_cancel' within
    simp [queued?, List.drop_append_of_le_length within, List.findIdx?_append, fresh, last]

/-- A load keeps the entries that are there. -/
theorem get?_load {ticket : Nat} {entry : Entry Request} (here : c.get? ticket = some entry) (key : String)
    (request : Request) : (c.load key request).2.get? ticket = some entry := by
  unfold load
  split
  · exact here
  · exact (List.getElem?_append_left (List.getElem?_eq_some_iff.1 here).1).trans here

theorem taken_le_load (within : c.taken ≤ c.entries.length) (key : String) (request : Request) :
    (c.load key request).2.taken ≤ (c.load key request).2.entries.length := by
  unfold load
  split
  · exact within
  · simpa using Nat.le_succ_of_le within

/-- Two requests queued one after the other share an entry exactly if they have the same key. -/
theorem load_eq_load_iff (within : c.taken ≤ c.entries.length) {key key' : String} {request request' : Request} :
    (c.load key request).1 = ((c.load key request).2.load key' request').1 ↔ key = key' := by
  have first := queued?_load within key request
  constructor
  · intro joins
    have second := queued?_load (taken_le_load within key request) key' request'
    obtain ⟨-, entry, here, same⟩ := queued?_eq_some first
    obtain ⟨-, entry', here', same'⟩ := queued?_eq_some second
    have kept := get?_load here key' request'
    rw [joins, here'] at kept
    cases kept
    exact same.symm.trans same'
  · rintro rfl
    have again : (c.load key request).2.load key request' = ((c.load key request).1, (c.load key request).2) := by
      conv_lhs => rw [load, first]
    rw [again]

/-- Which ticket a request gets is decided by the books alone. -/
theorem load_of_account {d : Coalescer Request} (same : c.account = d.account) (key : String) (request : Request) :
    (c.load key request).1 = (d.load key request).1 := by
  have read (c : Coalescer Request) : (c.load key request).1 =
      ((c.account.rest.findIdx? (·.1 = key)).map (c.account.taken + ·)).getD c.account.accepted.length := by
    have keys : c.queued? key = (c.account.rest.findIdx? (·.1 = key)).map (c.account.taken + ·) := by
      rw [queued?, rest_account, List.findIdx?_map]
      rfl
    have count : c.account.accepted.length = c.entries.length := List.length_map _
    rw [load, ← keys, count]
    cases c.queued? key <;> rfl
  rw [read, read, same]

end Coalescer

/-! ### The keys of requests -/

/-- Only null has the key of null. -/
theorem Json.stableKey_eq_null_iff {value : Json} : value.stableKey = Json.null.stableKey ↔ value = .null := by
  refine ⟨fun same => ?_, fun null => congrArg stableKey null⟩
  have chars : value.keyChars ++ [] = Json.null.keyChars ++ [] := by rw [String.ofList_inj.1 same]
  have opens := opening_eq chars
  cases value with
  | null => rfl
  | bool b => cases b <;> cases opens
  | _ => cases opens

/-- The key of a whole request is that of its argument in the middle of a text that only the subject decides. -/
theorem Request.stableKey_eq (subject : Json) (args : Option Json) :
    (Request.mk subject args).stableKey = String.ofList ('\x7b' :: (Text.quoted "args".toList ++
      ':' :: ((Json.ofOption args).keyChars ++ ',' :: (Text.quoted "subject".toList ++
        ':' :: (subject.keyChars ++ ['\x7d']))))) := by
  have sorted : Keyed.ofList [("args", (Json.ofOption args).keyChars), ("subject", subject.keyChars)] =
      [("args", (Json.ofOption args).keyChars), ("subject", subject.keyChars)] := by
    simp [Keyed.ofList, Keyed.insert, show ¬ ("subject" < "args") by decide]
  rw [stableKey, Json.stableKey, Json.keyChars, Json.memberKeys, Json.memberKeys, Json.memberKeys, sorted]
  simp [Text.joined]

/-- The key of a whole request shows its argument, and an absent one as null. -/
theorem Request.joined_iff {subject : Json} {a b : Option Json} :
    (Request.mk subject a).stableKey = (Request.mk subject b).stableKey ↔
      (Json.ofOption a).stableKey = (Json.ofOption b).stableKey := by
  rw [stableKey_eq, stableKey_eq, Json.stableKey, Json.stableKey, String.ofList_inj, String.ofList_inj]
  simp

/-- The keys of two whole requests agree where those of their arguments do, and for an absent and a null argument. -/
theorem Request.joined_iff_entry {subject : Json} {a b : Option Json} :
    (Request.mk subject a).stableKey = (Request.mk subject b).stableKey ↔
      (Request.entry subject a).1 = (Request.entry subject b).1 ∨
        a = none ∧ b = some .null ∨ a = some .null ∧ b = none := by
  rw [joined_iff, key_inj]
  cases a with
  | none =>
    cases b with
    | none => simp
    | some value =>
      have null : Json.null.stableKey = value.stableKey ↔ value = .null := eq_comm.trans Json.stableKey_eq_null_iff
      simp [Json.ofOption, null]
  | some value =>
    cases b with
    | none => simp [Json.ofOption, Json.stableKey_eq_null_iff]
    | some value' => simp [Json.ofOption]

/-! ### Loads and invocations -/

/-- What a load leaves of the requests of its matcher. -/
theorem Hub.coalescer_loadKeyed {hub : Hub} {matcher : String} (known : matcher ∈ hub.names) (key : String)
    (request : Request) : (hub.loadKeyed matcher key request).2.coalescer matcher =
      ((hub.coalescer matcher).load key request).2 := by
  rw [loadKeyed, coalescer_modifyCoalescer, if_pos ⟨rfl, known⟩]

/-- The load that an invocation waits for. -/
def Stage.load? : Stage → Option Load
  | .awaiting _ load => some load
  | _ => none

/-- Where there is a queue, two loads are the same one exactly if they have the same key. -/
theorem Hub.loadKeyed_eq_loadKeyed_iff {hub : Hub} {matcher : String} (known : matcher ∈ hub.names)
    (within : (hub.coalescer matcher).taken ≤ (hub.coalescer matcher).entries.length) {key key' : String}
    {request request' : Request} :
    (hub.loadKeyed matcher key request).1 =
        ((hub.loadKeyed matcher key request).2.loadKeyed matcher key' request').1 ↔ key = key' := by
  have after := hub.coalescer_loadKeyed known key request
  have tickets : (hub.loadKeyed matcher key request).1.ticket =
      (((hub.loadKeyed matcher key request).2.coalescer matcher).load key' request').1 ↔ key = key' := by
    rw [after]
    exact Coalescer.load_eq_load_iff within
  rw [← tickets]
  exact Load.mk.injEq .. ▸ and_iff_right rfl

theorem Hub.Within.taken_le {hub : Hub} (within : hub.Within) (matcher : String) :
    (hub.coalescer matcher).taken ≤ (hub.coalescer matcher).entries.length := by
  simpa [account, Coalescer.account] using within matcher

theorem Hub.loadKeyed_of_account {hub later : Hub} {matcher : String}
    (same : later.account matcher = hub.account matcher) (key : String) (request : Request) :
    (later.loadKeyed matcher key request).1 = (hub.loadKeyed matcher key request).1 :=
  congrArg (Load.mk matcher) (Coalescer.load_of_account same key request)

namespace Invocation

variable {scope : Scope} {definition : Definition} {evaluate : BatchEvaluator}

section

variable (batching : scope.batching = true) (batched : definition.matcher.evaluator = .batch evaluate)

include batching batched

/-- An invocation of a batched matcher queues its request under the key of the argument. -/
theorem dispatch_of_batch (index span : Nat) (args : Option Json) (scene : Scene) :
    dispatch scope definition index span args scene =
      let entry := Request.entry scope.subject args
      let loaded := (scene.hub.openQueue definition.name evaluate).loadKeyed definition.name entry.1 entry.2
      (.awaiting span loaded.1,
        ⟨loaded.2.await loaded.1 [index], scene.journal.record (.requested definition.name args)⟩) := by
  unfold dispatch
  rw [batched]
  simp [batching, Request.entry]

/-- Two invocations of one batched matcher, one after the other, wait for the same load exactly if the keys of their
requests are the same. -/
theorem load?_dispatch_eq_iff {scene : Scene} (within : scene.hub.Within) (index index' span span' : Nat)
    (a b : Option Json) :
    (dispatch scope definition index span a scene).1.load? =
        (dispatch scope definition index' span' b (dispatch scope definition index span a scene).2).1.load? ↔
      (Request.entry scope.subject a).1 = (Request.entry scope.subject b).1 := by
  have opened := scene.hub.openQueue_extends definition.name evaluate
  have known := scene.hub.mem_names_openQueue definition.name evaluate
  have same (hub : Hub) (load : Load) (waiter : Place) :
      ((hub.await load waiter).openQueue definition.name evaluate).account definition.name =
        hub.account definition.name := by
    rw [Hub.account, Hub.coalescer_openQueue]
    exact Hub.account_of_ledger (hub.ledger_await load waiter) definition.name
  rw [dispatch_of_batch batching batched, dispatch_of_batch batching batched]
  dsimp only [Stage.load?]
  rw [Hub.loadKeyed_of_account (same ..), Option.some_inj]
  exact Hub.loadKeyed_eq_loadKeyed_iff known ((within.mono opened).taken_le definition.name)

end

end Invocation

/-- Loads and invocations of a batched matcher disagree in one case only on which requests are the same: two loads for
one subject share an entry exactly if two invocations do, or if one request has no argument and the argument of the
other one is null.  Invocations share an entry exactly if their keys are the same. -/
theorem Hub.load_merges_iff {scene : Scene} (within : scene.hub.Within) {scope : Scope}
    (batching : scope.batching = true) {definition : Definition} {evaluate : BatchEvaluator}
    (batched : definition.matcher.evaluator = .batch evaluate) (index index' span span' : Nat) (a b : Option Json) :
    let loaded := (scene.hub.openQueue definition.name evaluate).load definition.name ⟨scope.subject, a⟩
    let asked := Invocation.dispatch scope definition index span a scene
    let asked' := Invocation.dispatch scope definition index' span' b asked.2
    (loaded.1 = (loaded.2.load definition.name ⟨scope.subject, b⟩).1 ↔
        asked.1.load? = asked'.1.load? ∨ a = none ∧ b = some .null ∨ a = some .null ∧ b = none) ∧
      (asked.1.load? = asked'.1.load? ↔
        (Request.entry scope.subject a).1 = (Request.entry scope.subject b).1) ∧
      asked.1.load?.isSome := by
  intro loaded asked asked'
  have known := scene.hub.mem_names_openQueue definition.name evaluate
  have within' := (within.mono (scene.hub.openQueue_extends definition.name evaluate)).taken_le definition.name
  have invocations := Invocation.load?_dispatch_eq_iff batching batched within index index' span span' a b
  refine ⟨?_, invocations, ?_⟩
  · rw [invocations, ← Request.joined_iff_entry]
    exact Hub.loadKeyed_eq_loadKeyed_iff known within'
  · simp only [asked, Invocation.dispatch_of_batch batching batched, Stage.load?, Option.isSome_some]

/-- Members in another order: both the loads and the invocations share an entry. -/
theorem Hub.load_merges_reordered :
    let scene : Scene := ⟨.empty, .empty⟩
    let scope : Scope := ⟨.str "ann", "vip", true, 0, none⟩
    let evaluate : BatchEvaluator := fun _ _ => .starts (.done (.value ()))
    let a : Json := .obj [("min", .int 1), ("max", .int 5)]
    let b : Json := .obj [("max", .int 5), ("min", .int 1)]
    let definition : Definition := ⟨"age", some a, ⟨some .any, .batch evaluate⟩, 0⟩
    let loaded := (scene.hub.openQueue "age" evaluate).load "age" ⟨.str "ann", some a⟩
    let asked := Invocation.dispatch scope definition 0 0 (some a) scene
    let asked' := Invocation.dispatch scope definition 1 1 (some b) asked.2
    (scene.hub.Within ∧ scope.batching = true ∧ definition.matcher.evaluator = .batch evaluate) ∧
      asked.1.load? = asked'.1.load? ∧ loaded.1 = (loaded.2.load "age" ⟨.str "ann", some b⟩).1 := by
  intro scene scope evaluate a b definition loaded asked asked'
  have within : scene.hub.Within := fun _ => Nat.le_refl 0
  have batching : scope.batching = true := rfl
  have batched : definition.matcher.evaluator = .batch evaluate := rfl
  obtain ⟨loads, invocations, -⟩ := Hub.load_merges_iff within batching batched 0 1 0 1 (some a) (some b)
  have together : asked.1.load? = asked'.1.load? := invocations.2 (by decide)
  exact ⟨⟨within, batching, batched⟩, together, loads.2 (.inl together)⟩

/-- A load without argument joins one with the argument null, where an invocation without argument queues a request of
its own. -/
theorem Hub.absent_load_joins_null :
    let evaluate : BatchEvaluator := fun _ _ => .starts (.done (.value ()))
    let scope : Scope := ⟨.null, "s", true, 0, none⟩
    let asker (args : Option Json) : Definition := ⟨"m", args, ⟨none, .batch evaluate⟩, 0⟩
    let scene : Scene := ⟨Hub.empty.openQueue "m" evaluate, .empty⟩
    let loaded := scene.hub.load "m" ⟨.null, some .null⟩
    let asked := Invocation.dispatch scope (asker (some .null)) 0 0 (some .null) scene
    let asked' := Invocation.dispatch scope (asker none) 1 1 none asked.2
    (loaded.2.load "m" ⟨.null, none⟩).1 = loaded.1 ∧ (loaded.2.load "m" ⟨.null, none⟩).2.pending = 1 ∧
      (Request.entry .null none).1 ≠ (Request.entry .null (some .null)).1 ∧ asked'.2.hub.pending = 2 := by
  decide

end Segmentation
