import Segmentation.Proofs.Queues

/-!
# The entries of a hub

Every load has one entry in the queue of its matcher (`Hub.entryOf?`), which says how it stands with the load, how many
resolvers there are, and who waits.  What is done with one load concerns the entry of no other.
-/

namespace Segmentation

/-! ### States, resolvers and waiters of loads -/

namespace Hub

/-- The entry of a load. -/
def entryOf? (hub : Hub) (load : Load) : Option (Entry Request) := (hub.coalescer load.matcher).get? load.ticket

/-- Number of resolvers of a load. -/
def resolvers (hub : Hub) (load : Load) : Nat := ((hub.entryOf? load).map (·.resolvers)).getD 0

variable (hub : Hub)

theorem state_eq (load : Load) : hub.state load = ((hub.entryOf? load).map (·.state)).getD .lost := rfl

theorem isSome_entryOf?_of_waiting {hub : Hub} {load : Load} (waits : hub.state load = .waiting) :
    (hub.entryOf? load).isSome := by
  rw [state_eq] at waits
  cases found : hub.entryOf? load with
  | none =>
    rw [found] at waits
    cases waits
  | some entry => rfl

theorem waiters_eq (load : Load) : hub.waiters load = ((hub.entryOf? load).map (·.waiters)).getD [] := rfl

theorem isSome_entryOf?_of_mem_waiters {hub : Hub} {load : Load} {place : Place} (mem : place ∈ hub.waiters load) :
    (hub.entryOf? load).isSome := by
  rw [waiters_eq] at mem
  cases found : hub.entryOf? load with
  | none =>
    rw [found] at mem
    cases mem
  | some entry => rfl

theorem isSome_entryOf?_iff (load : Load) :
    (hub.entryOf? load).isSome ↔ load.ticket < (hub.account load.matcher).accepted.length := by
  simp [entryOf?, Coalescer.get?, account, Coalescer.account]

/-- What was accepted under a ticket stands in its entry. -/
theorem getElem?_accepted (load : Load) : (hub.account load.matcher).accepted[load.ticket]? =
    (hub.entryOf? load).map Coalescer.loaded := by
  rw [account, Coalescer.account, List.getElem?_map]
  rfl

/-- The entries of a queue do not depend on what is done to another one, or if nothing is done to this one. -/
theorem entryOf?_modifyCoalescer_congr (matcher : String) {f g : Coalescer Request → Coalescer Request}
    (same : f (hub.coalescer matcher) = g (hub.coalescer matcher)) (other : Load) :
    (hub.modifyCoalescer matcher f).entryOf? other = (hub.modifyCoalescer matcher g).entryOf? other := by
  rw [entryOf?, entryOf?, coalescer_modifyCoalescer, coalescer_modifyCoalescer]
  by_cases here : other.matcher = matcher
  · rw [here, same]
  · rw [if_neg (fun both => here both.1), if_neg (fun both => here both.1)]

/-- A change of one entry concerns no other one. -/
theorem entryOf?_modify (load : Load) (f : Entry Request → Entry Request) (other : Load) :
    (hub.modifyCoalescer load.matcher (·.modify load.ticket f)).entryOf? other =
      if other = load then (hub.entryOf? load).map f else hub.entryOf? other := by
  obtain ⟨matcher, ticket⟩ := load
  obtain ⟨name, number⟩ := other
  simp only [entryOf?, coalescer_modifyCoalescer, Load.mk.injEq]
  by_cases known : name ∈ hub.names
  · by_cases same : name = matcher
    · subst same
      simp only [known, and_self, true_and, if_true, Coalescer.get?_modify]
      by_cases here : number = ticket
      · subst here
        simp
      · simp [here, Ne.symm here]
    · simp [same]
  · by_cases same : name = matcher
    · subst same
      simp [known, coalescer_of_not_mem hub known, Coalescer.get?, Coalescer.empty]
    · simp [same]

theorem entryOf?_resolve (load : Load) (value : Bool) (other : Load) : (hub.resolve load value).2.entryOf? other =
    if other = load ∧ hub.state load = .waiting then (hub.entryOf? load).map fun e => { e with state := .answered value }
    else hub.entryOf? other := by
  unfold resolve
  by_cases waits : hub.state load = .waiting
  · have open_ : (hub.coalescer load.matcher).isResolved load.ticket = false := by
      have same : (hub.coalescer load.matcher).state load.ticket = .waiting := waits
      simp [Coalescer.isResolved, same]
    have answered : ((hub.coalescer load.matcher).resolve load.ticket value).2 =
        (hub.coalescer load.matcher).modify load.ticket fun e => { e with state := .answered value } := by
      rw [Coalescer.resolve, open_]
      rfl
    simp only [waits, and_true, if_true]
    refine Eq.trans ?_ (hub.entryOf?_modify load _ other)
    exact hub.entryOf?_modifyCoalescer_congr load.matcher (f := fun c => (c.resolve load.ticket value).2) answered other
  · simp [waits]

theorem entryOf?_release (load other : Load) : (hub.release load).entryOf? other =
    if other = load then (hub.entryOf? load).map fun e =>
      { e with
        resolvers := e.resolvers - 1
        state := if e.resolvers ≤ 1 ∧ e.state = .waiting then .lost else e.state }
    else hub.entryOf? other := by
  have released := hub.entryOf?_modify load (fun e : Entry Request =>
    { e with
      resolvers := e.resolvers - 1
      state := if e.resolvers ≤ 1 ∧ e.state = .waiting then .lost else e.state }) other
  unfold release
  dsimp only
  split
  · exact released
  · exact released

theorem entryOf?_retain (load other : Load) : (hub.retain load).entryOf? other =
    if other = load then (hub.entryOf? load).map fun e => { e with resolvers := e.resolvers + 1 }
    else hub.entryOf? other := hub.entryOf?_modify load _ other

theorem entryOf?_await (load : Load) (waiter : Place) (other : Load) : (hub.await load waiter).entryOf? other =
    if other = load then (hub.entryOf? load).map fun e => { e with waiters := e.waiters ++ [waiter] }
    else hub.entryOf? other := hub.entryOf?_modify load _ other

/-! #### Answering -/

@[simp] theorem resolvers_resolve (load : Load) (value : Bool) (other : Load) :
    (hub.resolve load value).2.resolvers other = hub.resolvers other := by
  rw [resolvers, resolvers, entryOf?_resolve]
  split
  · rename_i here
    rw [here.1, Option.map_map]
    rfl
  · rfl

@[simp] theorem waiters_resolve (load : Load) (value : Bool) (other : Load) :
    (hub.resolve load value).2.waiters other = hub.waiters other := by
  rw [waiters_eq, waiters_eq, entryOf?_resolve]
  split
  · rename_i here
    rw [here.1, Option.map_map]
    rfl
  · rfl

theorem state_resolve (load : Load) (value : Bool) (other : Load) : (hub.resolve load value).2.state other =
    if other = load ∧ hub.state load = .waiting then .answered value else hub.state other := by
  rw [state_eq, entryOf?_resolve]
  split
  · rename_i here
    obtain ⟨e, found⟩ := Option.isSome_iff_exists.1 (isSome_entryOf?_of_waiting here.2)
    rw [found]
    rfl
  · rfl

theorem woken_resolve (load : Load) (value : Bool) : (hub.resolve load value).2.woken =
    hub.woken ++ if hub.state load = .waiting then hub.waiters load else [] := by
  unfold resolve
  split
  · rfl
  · exact (List.append_nil _).symm

@[simp] theorem kept_resolve (load : Load) (value : Bool) : (hub.resolve load value).2.kept = hub.kept := by
  unfold resolve
  split <;> rfl

/-! #### Giving up resolvers -/

theorem resolvers_release (load other : Load) :
    (hub.release load).resolvers other = hub.resolvers other - if other = load then 1 else 0 := by
  rw [resolvers, resolvers, entryOf?_release]
  split
  · rename_i here
    rw [here]
    cases hub.entryOf? load <;> rfl
  · rfl

@[simp] theorem waiters_release (load other : Load) : (hub.release load).waiters other = hub.waiters other := by
  rw [waiters_eq, waiters_eq, entryOf?_release]
  split
  · rename_i here
    rw [here, Option.map_map]
    rfl
  · rfl

theorem state_release (load other : Load) : (hub.release load).state other =
    if other = load ∧ hub.resolvers load ≤ 1 ∧ hub.state load = .waiting then .lost else hub.state other := by
  rw [state_eq, state_eq, state_eq, entryOf?_release, resolvers]
  by_cases here : other = load
  · subst here
    cases hub.entryOf? other with
    | none => simp
    | some e => simp
  · simp [here]

theorem woken_release (load : Load) : (hub.release load).woken =
    hub.woken ++ if hub.state load = .waiting ∧ (hub.release load).state load = .lost then hub.waiters load else [] := by
  have same : (hub.release load).state load = (hub.modifyCoalescer load.matcher (·.release load.ticket)).state load := by
    unfold release
    dsimp only
    split <;> rfl
  rw [same]
  unfold release
  dsimp only
  split
  · rfl
  · exact (List.append_nil _).symm

@[simp] theorem kept_release (load : Load) : (hub.release load).kept = hub.kept := by
  unfold release
  dsimp only
  split <;> rfl

/-! #### Copying resolvers -/

theorem resolvers_retain {load : Load} (held : hub.resolvers load ≠ 0) (other : Load) :
    (hub.retain load).resolvers other = hub.resolvers other + if other = load then 1 else 0 := by
  unfold resolvers at held ⊢
  rw [entryOf?_retain]
  split
  · rename_i here
    rw [here]
    cases found : hub.entryOf? load with
    | none => simp [found] at held
    | some e => rfl
  · rfl

@[simp] theorem state_retain (load other : Load) : (hub.retain load).state other = hub.state other := by
  rw [state_eq, state_eq, entryOf?_retain]
  split
  · rename_i here
    rw [here, Option.map_map]
    rfl
  · rfl

@[simp] theorem waiters_retain (load other : Load) : (hub.retain load).waiters other = hub.waiters other := by
  rw [waiters_eq, waiters_eq, entryOf?_retain]
  split
  · rename_i here
    rw [here, Option.map_map]
    rfl
  · rfl

/-! #### Loading -/

theorem entryOf?_openQueue (matcher : String) (evaluate : BatchEvaluator) (load : Load) :
    (hub.openQueue matcher evaluate).entryOf? load = hub.entryOf? load := by
  rw [entryOf?, entryOf?, coalescer_openQueue]

/-- A request that is loaded is queued: it was so before, or it is new. -/
theorem loadKeyed_spec {matcher : String} (known : matcher ∈ hub.names)
    (within : (hub.account matcher).taken ≤ (hub.account matcher).accepted.length) (key : String) (request : Request) :
    let r := hub.loadKeyed matcher key request
    r.1.matcher = matcher ∧ (hub.account matcher).taken ≤ r.1.ticket ∧
      (((∃ e, hub.entryOf? r.1 = some e ∧ e.key = key) ∧ ∀ other, r.2.entryOf? other = hub.entryOf? other) ∨
        (hub.entryOf? r.1 = none ∧ ∀ other, r.2.entryOf? other =
          if other = r.1 then some ⟨key, request, .waiting, 1, []⟩ else hub.entryOf? other)) := by
  have loaded (c : Coalescer Request) (other : Load) :
      (hub.modifyCoalescer matcher fun _ => c).entryOf? other =
        if other.matcher = matcher then c.get? other.ticket else hub.entryOf? other := by
    rw [entryOf?, coalescer_modifyCoalescer]
    by_cases same : other.matcher = matcher
    · rw [if_pos ⟨same, same ▸ known⟩, if_pos same]
    · rw [if_neg (fun both => same both.1), if_neg same]
      rfl
  intro r
  cases queued : (hub.coalescer matcher).queued? key with
  | some ticket =>
    have r_eq : r = (⟨matcher, ticket⟩, hub.modifyCoalescer matcher fun _ => hub.coalescer matcher) := by
      simp only [r, loadKeyed, Coalescer.load, queued]
    obtain ⟨le, there⟩ := Coalescer.queued?_eq_some queued
    rw [r_eq]
    refine ⟨rfl, le, .inl ⟨there, fun other => ?_⟩⟩
    rw [loaded]
    split
    · rename_i same
      rw [entryOf?, same]
    · rfl
  | none =>
    have r_eq : r = (⟨matcher, (hub.coalescer matcher).entries.length⟩, hub.modifyCoalescer matcher fun _ =>
        { hub.coalescer matcher with
          entries := (hub.coalescer matcher).entries ++ [⟨key, request, .waiting, 1, []⟩] }) := by
      simp only [r, loadKeyed, Coalescer.load, queued]
    have length_eq : (hub.account matcher).accepted.length = (hub.coalescer matcher).entries.length := by
      simp [account, Coalescer.account]
    rw [r_eq]
    refine ⟨rfl, length_eq ▸ within, .inr ⟨List.getElem?_eq_none (Nat.le_refl _), fun other => ?_⟩⟩
    rw [loaded]
    obtain ⟨name, number⟩ := other
    simp only [Load.mk.injEq, entryOf?, Coalescer.get?]
    by_cases same : name = matcher
    · subst same
      simp only [if_true, true_and, List.getElem?_append]
      by_cases here : number = (hub.coalescer name).entries.length
      · simp [here]
      · by_cases below : number < (hub.coalescer name).entries.length
        · simp [here, below]
        · have beyond : number - (hub.coalescer name).entries.length ≠ 0 := by omega
          simp [here, below, beyond]
    · simp [same]

end Hub

end Segmentation
