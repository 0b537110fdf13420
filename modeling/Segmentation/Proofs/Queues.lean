import Segmentation.Flight
import Segmentation.Proofs.Coalescer.History
import Segmentation.Proofs.Keyed

/-!
# What the queues of a hub accepted

An `Account` tells what a queue accepted and how much of that was taken.  Most of what is done with a hub leaves all
accounts alone.  A load only adds to what was accepted (`Hub.Extends`).  Taking batches takes the whole of every queue,
in one batch for each queue that is not empty (`Hub.takeFlights_numbered`).
-/

namespace Segmentation

/-- How much of what a queue accepted was taken, and all that it accepted. -/
structure Account where
  taken : Nat
  accepted : List (String × Request)

namespace Account

/-- What was accepted and not taken. -/
def rest (account : Account) : List (String × Request) := account.accepted.drop account.taken

end Account

namespace Coalescer

def account (c : Coalescer Request) : Account := ⟨c.taken, c.entries.map loaded⟩

theorem account_modify (c : Coalescer Request) (ticket : Nat) {f : Entry Request → Entry Request}
    (keeps : ∀ e, loaded (f e) = loaded e) : (c.modify ticket f).account = c.account := by
  rw [account, map_loaded_modify c ticket keeps]
  rfl

@[simp] theorem account_await (c : Coalescer Request) (ticket : Nat) (waiter : Place) :
    (c.await ticket waiter).account = c.account := account_modify c ticket fun _ => rfl

@[simp] theorem account_dismiss (c : Coalescer Request) (ticket : Nat) : (c.dismiss ticket).account = c.account :=
  account_modify c ticket fun _ => rfl

@[simp] theorem account_retain (c : Coalescer Request) (ticket : Nat) : (c.retain ticket).account = c.account :=
  account_modify c ticket fun _ => rfl

@[simp] theorem account_release (c : Coalescer Request) (ticket : Nat) : (c.release ticket).account = c.account :=
  account_modify c ticket fun _ => rfl

@[simp] theorem account_resolve (c : Coalescer Request) (ticket : Nat) (value : Bool) :
    (c.resolve ticket value).2.account = c.account := by
  unfold resolve
  split
  · rfl
  · exact account_modify c ticket fun _ => rfl

/-- A load takes nothing, and accepts at most the request. -/
theorem account_load (c : Coalescer Request) (key : String) (request : Request) :
    (c.load key request).2.account.taken = c.account.taken ∧
      c.account.accepted <+: (c.load key request).2.account.accepted := by
  unfold load
  split
  · exact ⟨rfl, List.prefix_rfl⟩
  · refine ⟨rfl, ?_⟩
    simp [account]

theorem rest_account (c : Coalescer Request) : c.account.rest = (c.entries.drop c.taken).map loaded := by
  simp [account, Account.rest, List.map_drop]

theorem pending_eq_zero_iff (c : Coalescer Request) : c.pending = 0 ↔ c.account.rest = [] := by
  rw [rest_account, List.map_eq_nil_iff, List.drop_eq_nil_iff, pending]
  omega

theorem lt_of_mem_queue {c : Coalescer Request} {ticket : Nat} (mem : ticket ∈ c.queue) :
    ticket < c.account.accepted.length := by
  unfold queue at mem
  rw [List.mem_range'_1] at mem
  simp only [account, List.length_map]
  omega

/-- What is left of a queue when a batch was taken, if there was one. -/
def drained (c : Coalescer Request) : Coalescer Request :=
  if c.pending = 0 then c else { c with taken := c.entries.length }

theorem takeBatch_eq (c : Coalescer Request) :
    c.takeBatch = if c.pending = 0 then none else some (c.queue, c.drained) := by
  unfold takeBatch drained
  split
  · rfl
  · rfl

@[simp] theorem drained_empty : drained .empty = .empty := rfl

/-- Taking a batch forgets nothing, and leaves nothing. -/
theorem account_drained (c : Coalescer Request) : c.drained.account.accepted = c.account.accepted ∧
    (c.account.taken ≤ c.account.accepted.length → c.drained.account.taken = c.account.accepted.length) := by
  have length : c.account.accepted.length = c.entries.length := by simp [account]
  rw [length]
  unfold drained
  split
  · rename_i nothing
    refine ⟨rfl, fun within : c.taken ≤ _ => ?_⟩
    change c.taken = c.entries.length
    unfold pending at nothing
    omega
  · exact ⟨rfl, fun _ => rfl⟩

/-- A batch holds all that was accepted and not taken. -/
theorem requests_queue (c : Coalescer Request) : c.requests c.queue = c.account.rest.map (·.2) := by
  rw [← map_contents, contents_queue]
  change ((c.entries.map loaded).zipIdx.drop c.taken).map (Prod.snd ∘ Prod.fst) =
    ((c.entries.map loaded).drop c.taken).map (·.2)
  rw [← List.map_map, List.map_drop, List.zipIdx_map_fst]

end Coalescer

namespace Hub

/-- The matchers that have queues, in the order in which these were made. -/
def names (hub : Hub) : List String := hub.queues.map (·.1)

/-- The account of a matcher's queue; an empty one if there is none. -/
def account (hub : Hub) (name : String) : Account := (hub.coalescer name).account

/-- All accounts with the names of their queues. -/
def accounts (hub : Hub) : List (String × Account) :=
  hub.queues.map fun (name, queue) => (name, queue.coalescer.account)

/-- What of a hub only loading, and taking batches, changes. -/
def ledger (hub : Hub) : List (String × Account) × Nat × List Load := (hub.accounts, hub.nextFlight, hub.reloads)

theorem map_fst_accounts (hub : Hub) : hub.accounts.map (·.1) = hub.names := by
  simp [accounts, names, Function.comp_def]

theorem account_eq_lookup (hub : Hub) (name : String) :
    hub.account name = (Keyed.get? hub.accounts name).getD (Coalescer.account .empty) := by
  have looked : Keyed.get? hub.accounts name = (hub.queue? name).map (·.coalescer.account) :=
    Keyed.get?_map hub.queues (fun _ queue => queue.coalescer.account) name
  rw [looked, account, coalescer]
  cases hub.queue? name <;> rfl

section SameLedger

variable {before later : Hub} (same : later.ledger = before.ledger)

include same

theorem names_of_ledger : later.names = before.names := by
  have accounts : later.accounts = before.accounts := congrArg (·.1) same
  rw [← map_fst_accounts, accounts, map_fst_accounts]

theorem account_of_ledger (name : String) : later.account name = before.account name := by
  have accounts : later.accounts = before.accounts := congrArg (·.1) same
  rw [account_eq_lookup, accounts, account_eq_lookup]

theorem nextFlight_of_ledger : later.nextFlight = before.nextFlight := congrArg (·.2.1) same

theorem reloads_of_ledger : later.reloads = before.reloads := congrArg (·.2.2) same

end SameLedger

/-! ### What leaves the accounts alone -/

variable (hub : Hub)

theorem ledger_modifyCoalescer (matcher : String) {f : Coalescer Request → Coalescer Request}
    (keeps : ∀ c, (f c).account = c.account) : (hub.modifyCoalescer matcher f).ledger = hub.ledger := by
  have accounts : (hub.modifyCoalescer matcher f).accounts = hub.accounts := by
    unfold accounts modifyCoalescer
    rw [List.map_map]
    refine List.map_congr_left fun entry _ => ?_
    obtain ⟨name, queue⟩ := entry
    by_cases same : name = matcher
    · simp [same, keeps]
    · simp [same]
  unfold ledger
  rw [accounts]
  rfl

@[simp] theorem ledger_await (load : Load) (waiter : Place) : (hub.await load waiter).ledger = hub.ledger :=
  ledger_modifyCoalescer hub load.matcher fun c => c.account_await load.ticket waiter

@[simp] theorem ledger_wakeAll (waiters : List Place) : (hub.wakeAll waiters).ledger = hub.ledger := rfl

@[simp] theorem ledger_tell (load : Load) (waiter : Place) : (hub.tell load waiter).ledger = hub.ledger := by
  unfold tell
  split
  · rfl
  · exact ledger_modifyCoalescer hub load.matcher fun c => c.account_dismiss load.ticket

@[simp] theorem ledger_resolve (load : Load) (value : Bool) :
    (hub.resolve load value).2.ledger = hub.ledger := by
  unfold resolve
  split
  · exact ledger_modifyCoalescer hub load.matcher fun c => c.account_resolve load.ticket value
  · rfl

@[simp] theorem ledger_retain (load : Load) : (hub.retain load).ledger = hub.ledger :=
  ledger_modifyCoalescer hub load.matcher fun c => c.account_retain load.ticket

@[simp] theorem ledger_release (load : Load) : (hub.release load).ledger = hub.ledger := by
  have released : (hub.modifyCoalescer load.matcher (·.release load.ticket)).ledger = hub.ledger :=
    ledger_modifyCoalescer hub load.matcher fun c => c.account_release load.ticket
  unfold release
  simp only
  split
  · exact released
  · exact released

@[simp] theorem ledger_releaseAll (loads : List Load) : (hub.releaseAll loads).ledger = hub.ledger := by
  unfold releaseAll
  induction loads generalizing hub with
  | nil => rfl
  | cons load loads ih => rw [List.foldl_cons, ih, ledger_release]

@[simp] theorem ledger_resolveAll (loads : List Load) (value : Bool) :
    (hub.resolveAll loads value).2.ledger = hub.ledger := by
  unfold resolveAll
  generalize 0 = count
  induction loads generalizing hub count with
  | nil => rfl
  | cons load loads ih => rw [List.foldl_cons, ih, ledger_resolve]

@[simp] theorem ledger_keep (load : Load) : (hub.keep load).ledger = hub.ledger := ledger_retain hub load

@[simp] theorem ledger_goOff (purpose : Purpose) : (hub.goOff purpose).ledger = hub.ledger := by
  cases purpose <;> simp [goOff]

end Hub

namespace Scene

variable (scene : Scene)

@[simp] theorem ledger_setAlarm (deadline : Nat) (purpose : Purpose) :
    (scene.setAlarm deadline purpose).hub.ledger = scene.hub.ledger := rfl

@[simp] theorem ledger_answerAt (deadline : Nat) (load : Load) (value : Bool) :
    (scene.answerAt deadline load value).hub.ledger = scene.hub.ledger := Hub.ledger_retain _ _

end Scene

namespace Hub

/-! ### Loading -/

section Modified

variable (hub : Hub)

theorem queue?_modifyCoalescer (matcher name : String) (f : Coalescer Request → Coalescer Request) :
    (hub.modifyCoalescer matcher f).queue? name =
      if name = matcher then (hub.queue? name).map fun queue => { queue with coalescer := f queue.coalescer }
      else hub.queue? name :=
  Keyed.get?_modify hub.queues matcher name fun queue => { queue with coalescer := f queue.coalescer }

theorem names_modifyCoalescer (matcher : String) (f : Coalescer Request → Coalescer Request) :
    (hub.modifyCoalescer matcher f).names = hub.names :=
  Keyed.keys_modify hub.queues matcher fun queue => { queue with coalescer := f queue.coalescer }

theorem isSome_queue?_iff (name : String) : (hub.queue? name).isSome ↔ name ∈ hub.names :=
  Keyed.isSome_get?_iff hub.queues name

theorem coalescer_of_not_mem {name : String} (absent : name ∉ hub.names) : hub.coalescer name = .empty := by
  have none : hub.queue? name = none := by
    rw [← Option.not_isSome_iff_eq_none, isSome_queue?_iff hub]
    exact absent
  simp [coalescer, none]

theorem modifyCoalescer_of_not_mem {name : String} (absent : name ∉ hub.names)
    (f : Coalescer Request → Coalescer Request) : hub.modifyCoalescer name f = hub := by
  have same : hub.queues.map (fun (other, queue) =>
      if other = name then (other, { queue with coalescer := f queue.coalescer }) else (other, queue)) = hub.queues := by
    refine (List.map_congr_left fun entry mem => ?_).trans (List.map_id _)
    have other : entry.1 ≠ name := fun here => absent (here ▸ List.mem_map_of_mem mem)
    exact if_neg other
  exact congrArg (fun queues => { hub with queues := queues }) same

/-- Where there is no queue nothing is queued. -/
theorem load_of_not_mem {name : String} (absent : name ∉ hub.names) (request : Request) :
    (hub.load name request).2 = hub :=
  hub.modifyCoalescer_of_not_mem absent fun _ => ((hub.coalescer name).load request.stableKey request).2

theorem coalescer_modifyCoalescer (matcher name : String) (f : Coalescer Request → Coalescer Request) :
    (hub.modifyCoalescer matcher f).coalescer name =
      if name = matcher ∧ name ∈ hub.names then f (hub.coalescer name) else hub.coalescer name := by
  unfold coalescer
  rw [queue?_modifyCoalescer]
  by_cases same : name = matcher
  · by_cases open_ : name ∈ hub.names
    · obtain ⟨queue, found⟩ := Option.isSome_iff_exists.1 ((isSome_queue?_iff hub _).2 open_)
      subst same
      simp [open_, found]
    · have none := Option.not_isSome_iff_eq_none.1 (mt (isSome_queue?_iff hub _).1 open_)
      simp [open_, none]
  · simp [same]

end Modified

/-- Nothing was taken, and what was accepted is still there. -/
structure Extends (before later : Hub) : Prop where
  names : before.names <+: later.names
  nodup : before.names.Nodup → later.names.Nodup
  taken : ∀ name, (later.account name).taken = (before.account name).taken
  accepted : ∀ name, (before.account name).accepted <+: (later.account name).accepted
  nextFlight : later.nextFlight = before.nextFlight

namespace Extends

theorem of_ledger {before later : Hub} (same : later.ledger = before.ledger) : before.Extends later where
  names := names_of_ledger same ▸ List.prefix_rfl
  nodup := by rw [names_of_ledger same]; exact id
  taken name := by rw [account_of_ledger same]
  accepted name := account_of_ledger same name ▸ List.prefix_rfl
  nextFlight := nextFlight_of_ledger same

theorem refl (hub : Hub) : hub.Extends hub := .of_ledger rfl

theorem trans {a b c : Hub} (first : a.Extends b) (second : b.Extends c) : a.Extends c where
  names := first.names.trans second.names
  nodup := second.nodup ∘ first.nodup
  taken name := (second.taken name).trans (first.taken name)
  accepted name := (first.accepted name).trans (second.accepted name)
  nextFlight := second.nextFlight.trans first.nextFlight

end Extends

/-- No queue has taken more than it accepted. -/
def Within (hub : Hub) : Prop := ∀ name, (hub.account name).taken ≤ (hub.account name).accepted.length

theorem Within.mono {before later : Hub} (within : before.Within) (ext : before.Extends later) : later.Within :=
  fun name => ext.taken name ▸ Nat.le_trans (within name) (ext.accepted name).length_le

/-- The requests of tickets that were given out stay the same. -/
theorem Extends.requests_eq {before later : Hub} (h : before.Extends later) {name : String} {tickets : List Nat}
    (given : ∀ ticket ∈ tickets, ticket < (before.account name).accepted.length) :
    (later.coalescer name).requests tickets = (before.coalescer name).requests tickets := by
  refine List.filterMap_congr fun ticket mem => ?_
  have read (c : Coalescer Request) :
      (c.get? ticket).map (·.request) = (c.account.accepted[ticket]?).map (·.2) := by
    simp [Coalescer.account, Coalescer.get?, Coalescer.loaded, Function.comp_def]
  have same := List.prefix_iff_getElem?.1 (h.accepted name) ticket (given ticket mem)
  rw [read, read]
  refine congrArg _ ?_
  exact same.trans (List.getElem?_eq_getElem (given ticket mem)).symm

/-- A new queue is as empty as one that is not there. -/
theorem coalescer_openQueue (hub : Hub) (matcher : String) (evaluate : BatchEvaluator) (name : String) :
    (hub.openQueue matcher evaluate).coalescer name = hub.coalescer name := by
  unfold openQueue
  split
  · rfl
  · unfold coalescer queue?
    simp only [List.lookup_append]
    cases List.lookup name hub.queues with
    | some queue => rfl
    | none =>
      by_cases here : name = matcher
      · simp [here]
      · simp [List.lookup_cons, beq_false_of_ne here]

theorem openQueue_extends (hub : Hub) (matcher : String) (evaluate : BatchEvaluator) :
    hub.Extends (hub.openQueue matcher evaluate) := by
  have same (name : String) : (hub.openQueue matcher evaluate).account name = hub.account name := by
    rw [account, account, coalescer_openQueue]
  refine ⟨?_, ?_, fun name => by rw [same], fun name => same name ▸ List.prefix_rfl, ?_⟩
  · unfold openQueue
    split
    · exact List.prefix_rfl
    · simp [names]
  · intro nodup
    unfold openQueue
    split
    · exact nodup
    · rename_i closed
      have absent : matcher ∉ hub.names := fun mem => closed ((isSome_queue?_iff hub _).2 mem)
      simpa [names, List.nodup_append] using ⟨nodup, fun name queue mem same => absent (same ▸ List.mem_map_of_mem mem)⟩
  · unfold openQueue
    split <;> rfl

theorem mem_names_openQueue (hub : Hub) (matcher : String) (evaluate : BatchEvaluator) :
    matcher ∈ (hub.openQueue matcher evaluate).names := by
  unfold openQueue
  split
  · rename_i opened
    exact (isSome_queue?_iff hub matcher).1 opened
  · simp [names]

theorem loadKeyed_extends (hub : Hub) (matcher key : String) (request : Request) :
    hub.Extends (hub.loadKeyed matcher key request).2 where
  names := (hub.names_modifyCoalescer matcher _).symm ▸ List.prefix_rfl
  nodup := by
    rw [loadKeyed, names_modifyCoalescer]
    exact id
  taken name := by
    unfold account loadKeyed
    rw [coalescer_modifyCoalescer]
    split
    · rename_i here
      rw [here.1]
      exact ((hub.coalescer matcher).account_load key request).1
    · rfl
  accepted name := by
    unfold account loadKeyed
    rw [coalescer_modifyCoalescer]
    split
    · rename_i here
      rw [here.1]
      exact ((hub.coalescer matcher).account_load key request).2
    · exact List.prefix_rfl
  nextFlight := rfl

/-! ### Taking batches -/

/-- Takes a batch from the queue of one matcher. -/
def takeFlight (r : List Flight × Hub) (matcher : String) : List Flight × Hub :=
  match (r.2.coalescer matcher).takeBatch with
  | none => r
  | some (tickets, coalescer) =>
    (r.1 ++ [⟨r.2.nextFlight, matcher, tickets, .boarding⟩],
      { r.2.modifyCoalescer matcher (fun _ => coalescer) with nextFlight := r.2.nextFlight + 1 })

theorem takeFlights_eq (hub : Hub) : hub.takeFlights = hub.names.foldl takeFlight ([], hub) := by
  unfold takeFlights names
  rw [List.foldl_map]
  rfl

/-- The tickets in the queues of the given matchers, where there are any. -/
def batches (hub : Hub) (matchers : List String) : List (String × List Nat) :=
  matchers.filterMap fun name =>
    if (hub.coalescer name).pending = 0 then none else some (name, (hub.coalescer name).queue)

theorem mem_batches {hub : Hub} {matchers : List String} {name : String} {tickets : List Nat}
    (mem : (name, tickets) ∈ hub.batches matchers) : name ∈ matchers ∧ tickets = (hub.coalescer name).queue := by
  obtain ⟨other, known, found⟩ := List.mem_filterMap.1 mem
  split at found
  · cases found
  · cases found
    exact ⟨known, rfl⟩

/-- Batches to be boarded, with consecutive numbers. -/
def numbered (first : Nat) (batches : List (String × List Nat)) : List Flight :=
  (batches.zipIdx first).map fun ((matcher, tickets), id) => ⟨id, matcher, tickets, .boarding⟩

theorem numbered_append (first : Nat) (some more : List (String × List Nat)) :
    numbered first (some ++ more) = numbered first some ++ numbered (first + some.length) more := by
  rw [numbered, List.zipIdx_append, List.map_append]
  rfl

/-- What is left of a hub when batches of the given matchers were taken. -/
structure Drained (before : Hub) (matchers : List String) (later : Hub) : Prop where
  names : later.names = before.names
  coalescer : ∀ name, later.coalescer name =
    if name ∈ matchers then (before.coalescer name).drained else before.coalescer name
  nextFlight : later.nextFlight = before.nextFlight + (before.batches matchers).length
  reloads : later.reloads = before.reloads

theorem batches_cons (hub : Hub) (matcher : String) (matchers : List String) :
    hub.batches (matcher :: matchers) = hub.batches [matcher] ++ hub.batches matchers :=
  List.filterMap_append (l := [matcher])

/-- The queues of other matchers are as before. -/
theorem Drained.batches_eq {before later : Hub} {matchers others : List String}
    (drained : Drained before matchers later) (apart : ∀ name ∈ others, name ∉ matchers) : later.batches others = before.batches others :=
  List.filterMap_congr fun name mem => by rw [drained.coalescer name, if_neg (apart name mem)]

theorem Drained.cons {before between later : Hub} {matcher : String} {matchers : List String}
    (first : Drained before [matcher] between) (rest : Drained between matchers later) (fresh : matcher ∉ matchers) :
    Drained before (matcher :: matchers) later where
  names := rest.names.trans first.names
  coalescer name := by
    rw [rest.coalescer name, first.coalescer name]
    by_cases here : name = matcher
    · subst here
      simp [fresh]
    · simp [here]
  nextFlight := by
    have same := first.batches_eq fun name mem here => fresh (List.mem_singleton.1 here ▸ mem)
    rw [rest.nextFlight, same, first.nextFlight, batches_cons before matcher matchers, List.length_append,
      Nat.add_assoc]
  reloads := rest.reloads.trans first.reloads

/-- From the queue of one matcher a batch is taken, unless nothing is in it. -/
theorem takeFlight_spec (flights : List Flight) (hub : Hub) {matcher : String} (known : matcher ∈ hub.names) :
    (takeFlight (flights, hub) matcher).1 = flights ++ numbered hub.nextFlight (hub.batches [matcher]) ∧
      Drained hub [matcher] (takeFlight (flights, hub) matcher).2 := by
  unfold takeFlight
  rw [Coalescer.takeBatch_eq]
  by_cases nothing : (hub.coalescer matcher).pending = 0
  · have none_taken : hub.batches [matcher] = [] := by simp [batches, nothing]
    rw [if_pos nothing, none_taken]
    refine ⟨(List.append_nil _).symm, rfl, fun name => ?_, by rw [none_taken]; rfl, rfl⟩
    by_cases here : name = matcher
    · subst here
      simp [Coalescer.drained, nothing]
    · simp [here]
  · have all_taken : hub.batches [matcher] = [(matcher, (hub.coalescer matcher).queue)] := by simp [batches, nothing]
    let emptied := (hub.coalescer matcher).drained
    rw [if_neg nothing, all_taken]
    refine ⟨rfl, hub.names_modifyCoalescer matcher fun _ => emptied, fun name => ?_, by rw [all_taken]; rfl, rfl⟩
    refine (hub.coalescer_modifyCoalescer matcher name fun _ => emptied).trans ?_
    by_cases here : name = matcher
    · subst here
      simp [known, emptied]
    · simp [here]

theorem foldl_takeFlight (matchers : List String) (nodup : matchers.Nodup) (flights : List Flight) (hub : Hub)
    (known : ∀ name ∈ matchers, name ∈ hub.names) :
    (matchers.foldl takeFlight (flights, hub)).1 =
        flights ++ numbered hub.nextFlight (hub.batches matchers) ∧
      Drained hub matchers (matchers.foldl takeFlight (flights, hub)).2 := by
  induction matchers generalizing flights hub with
  | nil => exact ⟨by simp [batches, numbered], rfl, by simp, rfl, rfl⟩
  | cons matcher matchers ih =>
    obtain ⟨fresh, nodup⟩ := List.nodup_cons.1 nodup
    obtain ⟨known, known_rest⟩ := List.forall_mem_cons.1 known
    obtain ⟨first_taken, first⟩ := takeFlight_spec flights hub known
    obtain ⟨rest_taken, rest⟩ := ih nodup (takeFlight (flights, hub) matcher).1
      (takeFlight (flights, hub) matcher).2 (first.names ▸ known_rest)
    refine ⟨?_, first.cons rest fresh⟩
    -- the batches of the other matchers are numbered after the first one
    have same := first.batches_eq fun name mem here => fresh (List.mem_singleton.1 here ▸ mem)
    rw [List.foldl_cons]
    refine rest_taken.trans ?_
    rw [first_taken, same, first.nextFlight, batches_cons hub matcher matchers, numbered_append, List.append_assoc]

/-- From every queue that is not empty one batch is taken, which holds the whole queue. -/
theorem takeFlights_numbered {hub : Hub} (nodup : hub.names.Nodup) :
    hub.takeFlights.1 = numbered hub.nextFlight (hub.batches hub.names) ∧
      Drained hub hub.names hub.takeFlights.2 := by
  rw [takeFlights_eq]
  exact foldl_takeFlight hub.names nodup [] hub fun _ mem => mem

/-- The requests in the queues that are not empty. -/
def queued (hub : Hub) : List (String × List Request) :=
  hub.names.filterMap fun name =>
    if (hub.account name).rest = [] then none else some (name, (hub.account name).rest.map (·.2))

theorem nodup_queued {hub : Hub} (nodup : hub.names.Nodup) : (hub.queued.map (·.1)).Nodup := by
  refine nodup.sublist ?_
  unfold queued
  induction hub.names with
  | nil => exact .slnil
  | cons name names ih =>
    by_cases nothing : (hub.account name).rest = []
    · simpa [nothing] using ih.cons name
    · simpa [nothing] using ih

theorem queued_ne_nil {hub : Hub} {batch : String × List Request} (mem : batch ∈ hub.queued) : batch.2 ≠ [] := by
  obtain ⟨name, -, found⟩ := List.mem_filterMap.1 mem
  split at found
  · cases found
  · rename_i some
    cases found
    simpa using some

/-- The batches taken hold the requests in the queues. -/
theorem map_numbered_queued {hub later : Hub} (first : Nat) (drained : Drained hub hub.names later) :
    (numbered first (hub.batches hub.names)).map (fun flight =>
      (flight.matcher, (later.coalescer flight.matcher).requests flight.tickets)) = hub.queued := by
  have forgotten (batches : List (String × List Nat)) :
      (numbered first batches).map (fun flight => (flight.matcher, flight.tickets)) = batches := by
    unfold numbered
    rw [List.map_map]
    exact List.zipIdx_map_fst first batches
  have through : (numbered first (hub.batches hub.names)).map (fun flight =>
      (flight.matcher, (later.coalescer flight.matcher).requests flight.tickets)) =
      (hub.batches hub.names).map fun (name, tickets) => (name, (later.coalescer name).requests tickets) := by
    nth_rewrite 2 [← forgotten (hub.batches hub.names)]
    rw [List.map_map]
    rfl
  rw [through, batches, queued, List.map_filterMap]
  refine List.filterMap_congr fun name mem => ?_
  have same : (later.coalescer name).requests = (hub.coalescer name).requests := by
    rw [drained.coalescer name, if_pos mem, Coalescer.drained]
    split
    · rfl
    · rfl
  by_cases nothing : (hub.account name).rest = []
  · have none_pending := (Coalescer.pending_eq_zero_iff (hub.coalescer name)).2 nothing
    simp [nothing, none_pending]
  · have some_pending := mt (Coalescer.pending_eq_zero_iff (hub.coalescer name)).1 nothing
    simp only [nothing, some_pending, if_false, Option.map_some, same, Coalescer.requests_queue]
    rfl

theorem map_id_numbered (first : Nat) (batches : List (String × List Nat)) :
    (numbered first batches).map (·.id) = List.range' first batches.length := by
  unfold numbered
  rw [List.map_map]
  exact List.zipIdx_map_snd first batches

theorem Drained.account {before later : Hub} {matchers : List String} (h : Drained before matchers later)
    (name : String) : (later.account name).accepted = (before.account name).accepted ∧
      (name ∈ matchers → (before.account name).taken ≤ (before.account name).accepted.length →
        (later.account name).taken = (before.account name).accepted.length) := by
  unfold Hub.account
  rw [h.coalescer name]
  obtain ⟨same, all⟩ := (before.coalescer name).account_drained
  by_cases mem : name ∈ matchers
  · rw [if_pos mem]
    exact ⟨same, fun _ => all⟩
  · rw [if_neg mem]
    exact ⟨rfl, fun known => absurd known mem⟩

/-- Everything that was accepted was taken. -/
def IsDrained (hub : Hub) : Prop := ∀ name, (hub.account name).taken = (hub.account name).accepted.length

theorem IsDrained.rest {hub : Hub} (drained : hub.IsDrained) (name : String) : (hub.account name).rest = [] := by
  rw [Account.rest, drained name, List.drop_length]

theorem IsDrained.of_ledger {before later : Hub} (drained : before.IsDrained) (same : later.ledger = before.ledger) :
    later.IsDrained := by
  intro name
  rw [account_of_ledger same]
  exact drained name

theorem account_of_not_mem {hub : Hub} {name : String} (absent : name ∉ hub.names) :
    hub.account name = Coalescer.account .empty := by rw [account, coalescer_of_not_mem hub absent]

/-- When a batch of every queue was taken, everything was taken. -/
theorem Drained.isDrained {before later : Hub} (h : Drained before before.names later)
    (within : ∀ name, (before.account name).taken ≤ (before.account name).accepted.length) : later.IsDrained := by
  intro name
  obtain ⟨same, all⟩ := h.account name
  by_cases known : name ∈ before.names
  · rw [same, all known (within name)]
  · rw [account_of_not_mem (h.names.symm ▸ known)]
    rfl

/-- Where all queues are empty no batch is taken. -/
theorem takeFlights_of_drained {hub : Hub} (drained : hub.IsDrained) : hub.takeFlights = ([], hub) := by
  rw [takeFlights_eq]
  generalize hub.names = matchers
  induction matchers with
  | nil => rfl
  | cons matcher matchers ih =>
    have nothing : (hub.coalescer matcher).pending = 0 :=
      (Coalescer.pending_eq_zero_iff _).2 (drained.rest matcher)
    have skipped : takeFlight ([], hub) matcher = ([], hub) := by
      simp [takeFlight, Coalescer.takeBatch_eq, nothing]
    rw [List.foldl_cons, skipped, ih]

/-- Nothing is pending where everything was taken. -/
theorem pending_of_drained {hub : Hub} (nodup : hub.names.Nodup) (drained : hub.IsDrained) : hub.pending = 0 := by
  have each : ∀ entry ∈ hub.queues, entry.2.coalescer.pending = 0 := by
    intro entry mem
    have found : hub.queue? entry.1 = some entry.2 := Keyed.get?_of_mem nodup mem
    have nothing := drained.rest entry.1
    rw [account, coalescer, found, ← Coalescer.pending_eq_zero_iff] at nothing
    exact nothing
  unfold pending
  revert each
  generalize hub.queues = queues
  intro each
  induction queues with
  | nil => rfl
  | cons entry queues ih =>
    rw [List.foldl_cons, each entry List.mem_cons_self]
    exact ih fun other mem => each other (List.mem_cons_of_mem _ mem)

/-- No matcher has two queues. -/
theorem filter_queued {hub : Hub} (nodup : hub.names.Nodup) (name : String) :
    hub.queued.filter (·.1 = name) =
      if (hub.account name).rest = [] then [] else [(name, (hub.account name).rest.map (·.2))] := by
  have listed (matchers : List String) (nodup : matchers.Nodup) :
      (matchers.filterMap fun name =>
        if (hub.account name).rest = [] then none else some (name, (hub.account name).rest.map (·.2))).filter
          (·.1 = name) =
        if name ∈ matchers ∧ (hub.account name).rest ≠ [] then [(name, (hub.account name).rest.map (·.2))] else [] := by
    induction matchers with
    | nil => simp
    | cons matcher matchers ih =>
      obtain ⟨fresh, nodup⟩ := List.nodup_cons.1 nodup
      have later := ih nodup
      by_cases nothing : (hub.account matcher).rest = []
      · by_cases here : name = matcher
        · subst here
          simpa [nothing] using later
        · simpa [nothing, here] using later
      · by_cases here : name = matcher
        · subst here
          simpa [nothing, fresh] using later
        · simpa [nothing, here, Ne.symm here] using later
  have absent (out : name ∉ hub.names) : (hub.account name).rest = [] := by
    rw [account_of_not_mem out]
    rfl
  rw [queued, listed hub.names nodup]
  by_cases known : name ∈ hub.names
  · by_cases nothing : (hub.account name).rest = [] <;> simp [known, nothing]
  · simp [known, absent known]

/-- The requests that the queue of a matcher ever accepted. -/
def requests (hub : Hub) (name : String) : List Request := (hub.account name).accepted.map (·.2)

/-- The requests that were accepted meanwhile, for every matcher for which there are any. -/
def loadedSince (before later : Hub) : List (String × List Request) :=
  later.names.filterMap fun name =>
    let new := (later.requests name).drop (before.requests name).length
    if new = [] then none else some (name, new)

/-- If nothing was queued, what is queued later was accepted meanwhile. -/
theorem queued_of_drained {before later : Hub} (drained : before.IsDrained) (ext : before.Extends later) :
    later.queued = before.loadedSince later := by
  refine List.filterMap_congr fun name _ => ?_
  have start : (later.account name).taken = (before.account name).accepted.length :=
    (ext.taken name).trans (drained name)
  have same : (later.requests name).drop (before.requests name).length = (later.account name).rest.map (·.2) := by
    rw [requests, requests, Account.rest, start, List.length_map, List.map_drop]
  simp only [same, List.map_eq_nil_iff]

theorem requests_of_drained {before later : Hub} (drained : before.IsDrained) (ext : before.Extends later)
    (name : String) : later.requests name = before.requests name ++ (later.account name).rest.map (·.2) := by
  have start : (later.account name).taken = (before.account name).accepted.length :=
    (ext.taken name).trans (drained name)
  have parted := List.prefix_iff_eq_append.1 (ext.accepted name)
  rw [requests, requests, Account.rest, start, ← List.map_append, parted]

end Hub

end Segmentation
