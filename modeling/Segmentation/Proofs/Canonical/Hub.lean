import Segmentation.Proofs.Canonical.Values
import Segmentation.Proofs.Past.Hub

/-!
# Hubs with canonical requests

A coalescer keeps requests and does not read them (`Coalescer.map`).  So a hub in which every request has its canonical
argument goes the same way (`Hub.canonical`): who waits, what is answered and which alarms are set is the same.
-/

namespace Segmentation

/-! ### Coalescers with other requests -/

/-- The same entry for another request. -/
def Entry.map {ρ σ : Type} (f : ρ → σ) (entry : Entry ρ) : Entry σ :=
  ⟨entry.key, f entry.request, entry.state, entry.resolvers, entry.waiters⟩

namespace Coalescer

variable {ρ σ : Type} (f : ρ → σ) (c : Coalescer ρ)

/-- The same coalescer with other requests under the keys. -/
def map : Coalescer σ := ⟨c.entries.map (Entry.map f), c.taken⟩

@[simp] theorem get?_map (ticket : Nat) : (c.map f).get? ticket = (c.get? ticket).map (Entry.map f) :=
  List.getElem?_map

@[simp] theorem state_map (ticket : Nat) : (c.map f).state ticket = c.state ticket := by
  rw [state, get?_map, Option.map_map, state]
  rfl

@[simp] theorem waiters_map (ticket : Nat) : (c.map f).waiters ticket = c.waiters ticket := by
  rw [waiters, get?_map, Option.map_map, waiters]
  rfl

@[simp] theorem pending_map : (c.map f).pending = c.pending := by simp [pending, map]

@[simp] theorem queue_map : (c.map f).queue = c.queue := by simp [queue, map]

@[simp] theorem queued?_map (key : String) : (c.map f).queued? key = c.queued? key := by
  simp only [queued?, map, ← List.map_drop, List.findIdx?_map]
  rfl

theorem requests_map (tickets : List Nat) : (c.map f).requests tickets = (c.requests tickets).map f := by
  simp only [requests, get?_map, Option.map_map, List.map_filterMap]
  rfl

theorem load_map (key : String) (request : ρ) :
    (c.map f).load key (f request) = ((c.load key request).1, (c.load key request).2.map f) := by
  unfold load
  rw [queued?_map]
  cases c.queued? key with
  | some ticket => rfl
  | none => simp [map, Entry.map]

theorem takeBatch_map : (c.map f).takeBatch = c.takeBatch.map fun taken => (taken.1, taken.2.map f) := by
  unfold takeBatch
  rw [pending_map, queue_map]
  split
  · rfl
  · simp [map]

theorem modify_map {change : Entry ρ → Entry ρ} {change' : Entry σ → Entry σ}
    (same : ∀ entry, (change entry).map f = change' (entry.map f)) (ticket : Nat) :
    (c.modify ticket change).map f = (c.map f).modify ticket change' := by
  unfold modify map
  congr 1
  refine List.ext_getElem? fun index => ?_
  rw [List.getElem?_map, List.getElem?_modify, List.getElem?_modify, List.getElem?_map]
  cases c.entries[index]? with
  | none => rfl
  | some entry =>
    by_cases here : ticket = index
    · simp [here, same]
    · simp [here]

theorem resolve_map (ticket : Nat) (value : Bool) :
    (c.map f).resolve ticket value = ((c.resolve ticket value).1, (c.resolve ticket value).2.map f) := by
  unfold resolve isResolved
  rw [state_map]
  split
  · rfl
  · exact congrArg (true, ·) (c.modify_map f (fun _ => rfl) ticket).symm

theorem await_map (ticket : Nat) (waiter : Place) : (c.await ticket waiter).map f = (c.map f).await ticket waiter :=
  c.modify_map f (fun _ => rfl) ticket

theorem retain_map (ticket : Nat) : (c.retain ticket).map f = (c.map f).retain ticket :=
  c.modify_map f (fun _ => rfl) ticket

theorem release_map (ticket : Nat) : (c.release ticket).map f = (c.map f).release ticket :=
  c.modify_map f (fun _ => rfl) ticket

end Coalescer

/-! ### Hubs -/

noncomputable def BatchQueue.canonical (queue : BatchQueue) : BatchQueue :=
  ⟨BatchEvaluator.canonical queue.evaluate, queue.coalescer.map Request.canonical⟩

namespace Hub

variable (hub : Hub)

noncomputable def canonical : Hub :=
  { hub with queues := hub.queues.map fun entry => (entry.1, entry.2.canonical) }

@[simp] theorem canonical_empty : Hub.empty.canonical = .empty := rfl

@[simp] theorem alarms_canonical : hub.canonical.alarms = hub.alarms := rfl

@[simp] theorem woken_canonical : hub.canonical.woken = hub.woken := rfl

theorem queue?_canonical (matcher : String) :
    hub.canonical.queue? matcher = (hub.queue? matcher).map BatchQueue.canonical := by
  unfold queue? canonical
  dsimp only
  induction hub.queues with
  | nil => rfl
  | cons entry queues ih =>
    rw [List.map_cons, List.lookup_cons, List.lookup_cons, ih]
    split <;> rfl

theorem coalescer_canonical (matcher : String) :
    hub.canonical.coalescer matcher = (hub.coalescer matcher).map Request.canonical := by
  unfold coalescer
  rw [queue?_canonical]
  cases hub.queue? matcher <;> rfl

@[simp] theorem state_canonical (load : Load) : hub.canonical.state load = hub.state load := by
  rw [state, coalescer_canonical, Coalescer.state_map, state]

@[simp] theorem waiters_canonical (load : Load) : hub.canonical.waiters load = hub.waiters load := by
  rw [waiters, coalescer_canonical, Coalescer.waiters_map, waiters]

theorem modifyCoalescer_canonical {change change' : Coalescer Request → Coalescer Request}
    (same : ∀ c, (change c).map Request.canonical = change' (c.map Request.canonical)) (matcher : String) :
    (hub.modifyCoalescer matcher change).canonical = hub.canonical.modifyCoalescer matcher change' := by
  simp only [modifyCoalescer, canonical, List.map_map]
  congr 1
  refine List.map_congr_left fun entry _ => ?_
  by_cases here : entry.1 = matcher
  · simp [here, BatchQueue.canonical, same]
  · simp [here]

theorem openQueue_canonical (matcher : String) (evaluate : BatchEvaluator) :
    (hub.openQueue matcher evaluate).canonical =
      hub.canonical.openQueue matcher (BatchEvaluator.canonical evaluate) := by
  unfold openQueue
  rw [queue?_canonical, Option.isSome_map]
  split
  · rfl
  · simp [canonical, BatchQueue.canonical, Coalescer.map, Coalescer.empty]

theorem loadKeyed_canonical (matcher key : String) (request : Request) :
    hub.canonical.loadKeyed matcher key request.canonical =
      ((hub.loadKeyed matcher key request).1, (hub.loadKeyed matcher key request).2.canonical) := by
  simp only [loadKeyed, coalescer_canonical, Coalescer.load_map]
  rw [modifyCoalescer_canonical]
  exact fun _ => rfl

theorem load_canonical (matcher : String) (request : Request) :
    hub.canonical.load matcher request.canonical =
      ((hub.load matcher request).1, (hub.load matcher request).2.canonical) := by
  rw [load, Request.stableKey_canonical]
  exact hub.loadKeyed_canonical matcher request.stableKey request

theorem await_canonical (load : Load) (waiter : Place) :
    (hub.await load waiter).canonical = hub.canonical.await load waiter :=
  hub.modifyCoalescer_canonical (fun c => c.await_map _ _ _) _

theorem wakeAll_canonical (waiters : List Place) : (hub.wakeAll waiters).canonical = hub.canonical.wakeAll waiters :=
  rfl

theorem resolve_canonical (load : Load) (value : Bool) :
    hub.canonical.resolve load value = ((hub.resolve load value).1, (hub.resolve load value).2.canonical) := by
  unfold resolve
  rw [state_canonical, waiters_canonical]
  split
  · rw [wakeAll_canonical, modifyCoalescer_canonical]
    exact fun c => (congrArg Prod.snd (c.resolve_map _ _ _)).symm
  · rfl

theorem retain_canonical (load : Load) : (hub.retain load).canonical = hub.canonical.retain load :=
  hub.modifyCoalescer_canonical (fun c => c.retain_map _ _) _

theorem keep_canonical (load : Load) : (hub.keep load).canonical = hub.canonical.keep load := by
  unfold keep
  rw [← retain_canonical]
  rfl

theorem release_canonical (load : Load) : (hub.release load).canonical = hub.canonical.release load := by
  have released : (hub.modifyCoalescer load.matcher (·.release load.ticket)).canonical =
      hub.canonical.modifyCoalescer load.matcher (·.release load.ticket) :=
    hub.modifyCoalescer_canonical (fun c => c.release_map _ _) load.matcher
  unfold release
  dsimp only
  rw [← released, state_canonical, state_canonical, waiters_canonical]
  split <;> rfl

theorem releaseAll_canonical (loads : List Load) :
    (hub.releaseAll loads).canonical = hub.canonical.releaseAll loads := by
  unfold releaseAll
  induction loads generalizing hub with
  | nil => rfl
  | cons load loads ih => rw [List.foldl_cons, ih, release_canonical, List.foldl_cons]

theorem resolveAll_canonical (loads : List Load) (value : Bool) :
    hub.canonical.resolveAll loads value =
      ((hub.resolveAll loads value).1, (hub.resolveAll loads value).2.canonical) := by
  unfold resolveAll
  generalize 0 = count
  induction loads generalizing hub count with
  | nil => rfl
  | cons load loads ih => simp only [List.foldl_cons, resolve_canonical, ih]

theorem takeDue_canonical (now : Nat) :
    hub.canonical.takeDue now = ((hub.takeDue now).1, (hub.takeDue now).2.canonical) := rfl

theorem goOff_canonical (purpose : Purpose) : (hub.goOff purpose).canonical = hub.canonical.goOff purpose := by
  cases purpose with
  | wake waiter => rfl
  | resumeBatch flight => rfl
  | answer load value => rw [goOff, release_canonical, goOff, resolve_canonical]

theorem advance_canonical (now : Nat) : (hub.advance now).canonical = hub.canonical.advance now := by
  unfold advance
  rw [takeDue_canonical]
  generalize hub.takeDue now = r
  obtain ⟨due, hub⟩ := r
  dsimp only
  induction due generalizing hub with
  | nil => rfl
  | cons alarm due ih => rw [List.foldl_cons, ih, goOff_canonical, List.foldl_cons]

@[simp] theorem nextAlarm_canonical : hub.canonical.nextAlarm = hub.nextAlarm := rfl

@[simp] theorem answerAlarms_canonical : hub.canonical.answerAlarms = hub.answerAlarms := rfl

@[simp] theorem rouses_canonical (alarm : Alarm) : hub.canonical.rouses alarm = hub.rouses alarm := by
  unfold rouses
  split <;> simp

@[simp] theorem firstRousing_canonical (now : Nat) : hub.canonical.firstRousing now = hub.firstRousing now := by
  unfold firstRousing
  rw [takeDue_canonical]
  exact congrArg (Option.map _) (congrArg (List.find? · _) (funext hub.rouses_canonical))

end Hub

/-! ### Scenes -/

namespace Scene

noncomputable def canonical (scene : Scene) : Scene := ⟨scene.hub.canonical, scene.journal.canonical⟩

variable (scene : Scene)

@[simp] theorem hub_canonical : scene.canonical.hub = scene.hub.canonical := rfl

@[simp] theorem journal_canonical : scene.canonical.journal = scene.journal.canonical := rfl

theorem setAlarm_canonical (deadline : Nat) (purpose : Purpose) :
    (scene.setAlarm deadline purpose).canonical = scene.canonical.setAlarm deadline purpose := rfl

theorem answerAt_canonical (deadline : Nat) (load : Load) (value : Bool) :
    (scene.answerAt deadline load value).canonical = scene.canonical.answerAt deadline load value := by
  unfold answerAt
  rw [setAlarm_canonical]
  congr 1
  exact congrArg (Scene.mk · scene.journal.canonical) (scene.hub.retain_canonical load)

end Scene

end Segmentation
