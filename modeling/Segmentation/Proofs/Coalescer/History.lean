import Mathlib.Data.List.Enum
import Mathlib.Data.List.Nodup
import Segmentation.Coalescer

/-!
# What a coalescer owes to its history

A history of a coalescer is the list of all calls to it and to the resolvers of its batches, each with what it gave,
the latest call first; `History` says which histories are possible.  From a history alone one can read which
requests were accepted (`accepted`), in which batches they were taken (`batches`), and which answer the resolver of a
ticket was given first (`firstAnswer`).  The coalescer agrees with its history in all of this (`Reflects`,
`History.reflects`), so no request is lost, doubled, or answered in place of another one (`History.faithful`).
-/

namespace Segmentation.Coalescer

variable {ρ : Type}

/-- A call and what it gave. -/
inductive Interaction (ρ : Type) where
  | load (key : String) (request : ρ) (ticket : Nat)
  /-- The requests of the batch with their keys and their tickets, if there was a batch. -/
  | take (batch : Option (List ((String × ρ) × Nat)))
  /-- Somebody begins to wait for a ticket. -/
  | await (ticket : Nat)
  /-- A further resolver of a ticket is made, or one is given up. -/
  | clone (ticket : Nat)
  | drop (ticket : Nat)
  /-- `first` is what the resolver gave. -/
  | resolve (ticket : Nat) (value first : Bool)

namespace Interaction

def isTake : Interaction ρ → Bool
  | .take _ => true
  | _ => false

end Interaction

/-! ### Reading a history -/

section Reading

open Interaction

/-- The keys loaded since a batch was last taken. -/
def openKeys : List (Interaction ρ) → List String
  | [] => []
  | .load key _ _ :: earlier => key :: openKeys earlier
  | .take _ :: _ => []
  | _ :: earlier => openKeys earlier

/-- The requests, with their keys, whose load repeats no other one since a batch was last taken, in the order of
their loads. -/
def accepted : List (Interaction ρ) → List (String × ρ)
  | [] => []
  | .load key request _ :: earlier =>
    accepted earlier ++ if key ∈ openKeys earlier then [] else [(key, request)]
  | _ :: earlier => accepted earlier

/-- The batches taken, the first one first. -/
def batches : List (Interaction ρ) → List (List ((String × ρ) × Nat))
  | [] => []
  | .take batch :: earlier => batches earlier ++ batch.toList
  | _ :: earlier => batches earlier

/-- The value of the first call to a resolver of a ticket. -/
def firstAnswer (ticket : Nat) : List (Interaction ρ) → Option Bool
  | [] => none
  | .resolve t value _ :: earlier => firstAnswer ticket earlier <|> if t = ticket then some value else none
  | _ :: earlier => firstAnswer ticket earlier

/-- The number of resolvers of a ticket that were not given up. -/
def resolversLeft (ticket : Nat) : List (Interaction ρ) → Nat
  | [] => 1
  | .clone t :: earlier => resolversLeft ticket earlier + if t = ticket then 1 else 0
  | .drop t :: earlier => resolversLeft ticket earlier - if t = ticket then 1 else 0
  | _ :: earlier => resolversLeft ticket earlier

/-- What becomes of a ticket: the first answer, however often another one was tried; without an answer it is lost
with the last of its resolvers. -/
def owed (history : List (Interaction ρ)) (ticket : Nat) : TicketState :=
  match firstAnswer ticket history with
  | some value => .answered value
  | none => if resolversLeft ticket history = 0 then .lost else .waiting

end Reading

/-! ### Possible histories -/

/-- The requests of a batch with their keys and tickets. -/
def contents (c : Coalescer ρ) (tickets : List Nat) : List ((String × ρ) × Nat) :=
  tickets.filterMap fun ticket => (c.get? ticket).map fun e => ((e.key, e.request), ticket)

/-- Whether there is a resolver of a ticket outside of the queue, and it was not given up. -/
def HasResolver (c : Coalescer ρ) (ticket : Nat) : Prop :=
  ticket < c.taken ∧ ∃ e, c.get? ticket = some e ∧ 0 < e.resolvers

/-- One call.  A resolver can be used by whoever has it, and nobody has one before the batch was taken. -/
inductive Step : Coalescer ρ → Interaction ρ → Coalescer ρ → Prop
  | load (c : Coalescer ρ) (key : String) (request : ρ) :
    Step c (.load key request (c.load key request).1) (c.load key request).2
  | take {c d : Coalescer ρ} {tickets : List Nat} (h : c.takeBatch = some (tickets, d)) :
    Step c (.take (some (c.contents tickets))) d
  | takeNone {c : Coalescer ρ} (h : c.takeBatch = none) : Step c (.take none) c
  | await (c : Coalescer ρ) (ticket : Nat) (waiter : Place) : Step c (.await ticket) (c.await ticket waiter)
  | clone {c : Coalescer ρ} {ticket : Nat} (h : c.HasResolver ticket) : Step c (.clone ticket) (c.retain ticket)
  | drop {c : Coalescer ρ} {ticket : Nat} (h : c.HasResolver ticket) : Step c (.drop ticket) (c.release ticket)
  | resolve {c : Coalescer ρ} {ticket : Nat} (h : c.HasResolver ticket) (value : Bool) :
    Step c (.resolve ticket value (c.resolve ticket value).1) (c.resolve ticket value).2

/-- The calls, the latest first, that lead from the empty coalescer to another one. -/
inductive History : List (Interaction ρ) → Coalescer ρ → Prop
  | empty : History [] .empty
  | call {earlier : List (Interaction ρ)} {c d : Coalescer ρ} {i : Interaction ρ} (h : History earlier c)
    (step : Step c i d) : History (i :: earlier) d

/-! ### Entries -/

/-- What of an entry never changes. -/
def loaded (e : Entry ρ) : String × ρ := (e.key, e.request)

theorem get?_modify (c : Coalescer ρ) (t s : Nat) (f : Entry ρ → Entry ρ) :
    (c.modify t f).get? s = (c.get? s).map fun e => if t = s then f e else e := by
  simp only [get?, modify, List.getElem?_modify]
  by_cases h : t = s
  · simp [h]
  · simp [h]

theorem map_loaded_modify (c : Coalescer ρ) (t : Nat) {f : Entry ρ → Entry ρ} (keeps : ∀ e, loaded (f e) = loaded e) :
    (c.modify t f).entries.map loaded = c.entries.map loaded := by
  apply List.ext_getElem?
  intro s
  have := get?_modify c t s f
  simp only [get?] at this
  simp only [List.getElem?_map, this, Option.map_map]
  congr 1
  funext e
  by_cases h : t = s
  · simp [h, keeps]
  · simp [h]

theorem contents_range' (c : Coalescer ρ) (start n : Nat) :
    c.contents (List.range' start n) = ((c.entries.map loaded).zipIdx.drop start).take n := by
  induction n generalizing start with
  | zero => simp [contents]
  | succ n ih =>
    have next := ih (start + 1)
    simp only [contents] at next
    simp only [contents, List.range'_succ, List.filterMap_cons]
    rcases Nat.lt_or_ge start c.entries.length with h | h
    · rw [List.drop_eq_getElem_cons (by simpa using h), List.take_succ_cons, ← next]
      simp [get?, h, loaded]
    · rw [List.drop_eq_nil_of_le (by simp; omega)] at next ⊢
      rw [next]
      simp [get?, List.getElem?_eq_none h]

/-- The queue is what is left of the entries. -/
theorem contents_queue (c : Coalescer ρ) : c.contents c.queue = (c.entries.map loaded).zipIdx.drop c.taken := by
  rw [queue, contents_range', List.take_of_length_le]
  simp

theorem map_key_contents_queue (c : Coalescer ρ) :
    (c.contents c.queue).map (·.1.1) = (c.entries.drop c.taken).map (·.key) := by
  have keys : (c.entries.map loaded).zipIdx.map (·.1.1) = c.entries.map (·.key) := by
    change (c.entries.map loaded).zipIdx.map (Prod.fst ∘ Prod.fst) = _
    rw [← List.map_map, List.zipIdx_map_fst, List.map_map]
    rfl
  rw [contents_queue, List.map_drop, keys, List.map_drop]

/-- A batch holds the requests that its evaluator is called with. -/
theorem map_contents (c : Coalescer ρ) (tickets : List Nat) :
    (c.contents tickets).map (·.1.2) = c.requests tickets := by
  simp [contents, requests, List.map_filterMap, Function.comp_def]

/-! ### The queued ticket with a key -/

theorem queued?_eq_none_iff (c : Coalescer ρ) (key : String) :
    c.queued? key = none ↔ key ∉ (c.entries.drop c.taken).map (·.key) := by
  simp only [queued?, Option.map_eq_none_iff, List.findIdx?_eq_none_iff, List.mem_map, not_exists, not_and,
    decide_eq_false_iff_not]

theorem queued?_eq_some {c : Coalescer ρ} {key : String} {ticket : Nat} (h : c.queued? key = some ticket) :
    c.taken ≤ ticket ∧ ∃ e, c.get? ticket = some e ∧ e.key = key := by
  obtain ⟨i, hi, rfl⟩ := Option.map_eq_some_iff.1 h
  obtain ⟨lt, hk, -⟩ := List.findIdx?_eq_some_iff_getElem.1 hi
  refine ⟨Nat.le_add_right _ _, (c.entries.drop c.taken)[i], ?_, by simpa using hk⟩
  rw [get?, ← List.getElem?_drop]
  exact List.getElem?_eq_getElem lt

/-- A queued request is found under its key. -/
theorem queued?_key {c : Coalescer ρ} (nodup : ((c.entries.drop c.taken).map (·.key)).Nodup) {ticket : Nat}
    {e : Entry ρ} (queued : c.taken ≤ ticket) (he : c.get? ticket = some e) : c.queued? e.key = some ticket := by
  have queued_at {t : Nat} {e' : Entry ρ} (ht : c.taken ≤ t) (he' : c.get? t = some e') :
      ((c.entries.drop c.taken).map (·.key))[t - c.taken]? = some e'.key := by
    rw [List.getElem?_map, List.getElem?_drop, Nat.add_sub_cancel' ht]
    exact congrArg _ he'
  cases h : c.queued? e.key with
  | none => exact absurd (List.mem_of_getElem? (queued_at queued he)) ((queued?_eq_none_iff c e.key).1 h)
  | some t =>
    obtain ⟨ht, e', he', hk⟩ := queued?_eq_some h
    have same := queued_at ht he'
    rw [hk, ← queued_at queued he,
      List.getElem?_inj (List.getElem?_eq_some_iff.1 (queued_at ht he')).1 nodup] at same
    exact congrArg some (by omega)

/-! ### The coalescer agrees with its history -/

/-- What a coalescer has in common with its history. -/
structure Reflects (history : List (Interaction ρ)) (c : Coalescer ρ) : Prop where
  loaded_eq : c.entries.map loaded = accepted history
  taken_le : c.taken ≤ c.entries.length
  batches_eq : (batches history).flatten = (c.entries.map loaded).zipIdx.take c.taken
  open_iff : ∀ key, key ∈ openKeys history ↔ key ∈ (c.entries.drop c.taken).map (·.key)
  nodup : ((c.entries.drop c.taken).map (·.key)).Nodup
  batch : ∀ b ∈ batches history, b ≠ [] ∧ (b.map (·.1.1)).Nodup
  entry : ∀ t e, c.get? t = some e → e.resolvers = resolversLeft t history ∧ e.state = owed history t
  untouched : ∀ t, c.taken ≤ t → firstAnswer t history = none ∧ resolversLeft t history = 1

namespace Reflects

variable {history : List (Interaction ρ)} {c : Coalescer ρ}

theorem empty : Reflects [] (empty : Coalescer ρ) where
  loaded_eq := rfl
  taken_le := Nat.le_refl 0
  batches_eq := rfl
  open_iff _ := by simp [openKeys, Coalescer.empty]
  nodup := List.nodup_nil
  batch _ h := by simp [batches] at h
  entry _ _ h := by simp [get?, Coalescer.empty] at h
  untouched _ _ := ⟨rfl, rfl⟩

private theorem map_key_drop (c : Coalescer ρ) (n : Nat) :
    (c.entries.drop n).map (·.key) = ((c.entries.map loaded).drop n).map (·.1) := by
  simp [loaded, List.map_drop, Function.comp_def]

/-- A call that only changes an entry, and nothing of what was loaded. -/
private theorem modify (h : Reflects history c) (i : Interaction ρ) (t : Nat) {f : Entry ρ → Entry ρ}
    (keeps : ∀ e, loaded (f e) = loaded e) (same_accepted : accepted (i :: history) = accepted history)
    (same_open : openKeys (i :: history) = openKeys history)
    (same_batches : batches (i :: history) = batches history)
    (entry : ∀ s e, c.get? s = some e → (if t = s then f e else e).resolvers = resolversLeft s (i :: history) ∧
      (if t = s then f e else e).state = owed (i :: history) s)
    (untouched : ∀ s, c.taken ≤ s → firstAnswer s (i :: history) = none ∧ resolversLeft s (i :: history) = 1) :
    Reflects (i :: history) (c.modify t f) where
  loaded_eq := by rw [map_loaded_modify c t keeps, same_accepted, h.loaded_eq]
  taken_le := by simpa [Coalescer.modify] using h.taken_le
  batches_eq := by rw [map_loaded_modify c t keeps, same_batches, h.batches_eq]; rfl
  open_iff key := by
    rw [same_open, h.open_iff, map_key_drop, map_key_drop, map_loaded_modify c t keeps]; rfl
  nodup := by
    rw [map_key_drop, map_loaded_modify c t keeps, ← map_key_drop]; exact h.nodup
  batch := by rw [same_batches]; exact h.batch
  entry s e he := by
    rw [get?_modify] at he
    obtain ⟨e', he', rfl⟩ := Option.map_eq_some_iff.1 he
    exact entry s e' he'
  untouched := untouched

/-- A load of a key that is queued changes nothing. -/
private theorem load_again (h : Reflects history c) {key : String} (request : ρ) {ticket : Nat}
    (hq : c.queued? key = some ticket) : Reflects (.load key request ticket :: history) c := by
  have queued : key ∈ (c.entries.drop c.taken).map (·.key) := by
    by_contra fresh
    rw [(queued?_eq_none_iff c key).2 fresh] at hq
    cases hq
  have mem : key ∈ openKeys history := (h.open_iff key).2 queued
  refine { h with loaded_eq := ?_, open_iff := ?_ }
  · rw [accepted, if_pos mem, List.append_nil, h.loaded_eq]
  · intro k
    rw [openKeys, List.mem_cons, h.open_iff k, or_iff_right_of_imp]
    rintro rfl
    exact queued

/-- A load of another key queues a request. -/
private theorem load_new (h : Reflects history c) {key : String} (request : ρ) (hq : c.queued? key = none) :
    Reflects (.load key request c.entries.length :: history)
      { c with entries := c.entries ++ [⟨key, request, .waiting, 1, []⟩] } := by
  have fresh := (queued?_eq_none_iff c key).1 hq
  have drop_eq (e : Entry ρ) : (c.entries ++ [e]).drop c.taken = c.entries.drop c.taken ++ [e] :=
    List.drop_append_of_le_length h.taken_le
  exact {
    loaded_eq := by
      rw [accepted, if_neg (fun mem => fresh ((h.open_iff key).1 mem)), List.map_append, h.loaded_eq]
      rfl
    taken_le := by simpa using Nat.le_succ_of_le h.taken_le
    batches_eq := by
      change (batches history).flatten = _
      rw [h.batches_eq, List.map_append, List.zipIdx_append, List.take_append_of_le_length]
      simpa using h.taken_le
    open_iff := by
      intro k
      simp only [drop_eq, List.map_append, List.mem_append, openKeys, List.mem_cons, h.open_iff k, List.map_cons,
        List.map_nil, List.not_mem_nil, or_false]
      exact or_comm
    nodup := by
      simp only [drop_eq, List.map_append, List.map_cons, List.map_nil]
      refine List.nodup_append.2 ⟨h.nodup, List.nodup_singleton key, ?_⟩
      rintro k hk _ hk' rfl
      exact fresh (List.mem_singleton.1 hk' ▸ hk)
    batch := h.batch
    entry := by
      intro t e he
      rw [get?, List.getElem?_append] at he
      split at he
      · exact h.entry t e he
      · rename_i beyond
        -- nobody has spoken of a ticket that is only given out now
        obtain ⟨answer, left⟩ := h.untouched t (by have := h.taken_le; omega)
        rw [List.getElem?_singleton] at he
        split at he
        · cases he
          simp [resolversLeft, owed, firstAnswer, answer, left]
        · cases he
    untouched := h.untouched }

theorem load (h : Reflects history c) (key : String) (request : ρ) :
    Reflects (.load key request (c.load key request).1 :: history) (c.load key request).2 := by
  unfold Coalescer.load
  cases hq : c.queued? key with
  | some ticket => exact h.load_again request hq
  | none => exact h.load_new request hq

theorem take (h : Reflects history c) {tickets : List Nat} {d : Coalescer ρ}
    (ht : c.takeBatch = some (tickets, d)) : Reflects (.take (some (c.contents tickets)) :: history) d := by
  obtain ⟨rfl, nonempty, -⟩ := takeBatch_eq_some ht
  obtain rfl : d = { c with taken := c.entries.length } := by
    unfold takeBatch at ht
    split at ht
    · cases ht
    · cases ht; rfl
  exact {
    loaded_eq := h.loaded_eq
    taken_le := Nat.le_refl _
    batches_eq := by
      simp only [batches, Option.toList_some, List.flatten_append, List.flatten_cons, List.flatten_nil,
        List.append_nil, h.batches_eq, contents_queue, List.take_append_drop]
      rw [List.take_of_length_le (by simp)]
    open_iff := by simp [openKeys]
    nodup := by simp
    batch := by
      intro b hb
      rw [batches, List.mem_append] at hb
      rcases hb with hb | hb
      · exact h.batch b hb
      · obtain rfl : b = c.contents c.queue := by simpa using hb
        rw [map_key_contents_queue]
        refine ⟨fun none => nonempty ?_, h.nodup⟩
        have length_eq := congrArg List.length (map_key_contents_queue c)
        rw [none] at length_eq
        rw [← List.length_eq_zero_iff, length_queue, pending]
        simpa using length_eq.symm
    entry := h.entry
    untouched := fun t le => h.untouched t (Nat.le_trans h.taken_le le) }

theorem takeNone (h : Reflects history c) (ht : c.takeBatch = none) : Reflects (.take none :: history) c := by
  have none_left : c.entries.drop c.taken = [] := by
    unfold takeBatch at ht
    split at ht
    · rename_i zero
      exact List.drop_eq_nil_of_le (Nat.le_of_sub_eq_zero zero)
    · cases ht
  have same : batches (.take none :: history) = batches history := List.append_nil _
  exact { h with
    batches_eq := by rw [same, h.batches_eq]
    batch := by rw [same]; exact h.batch
    open_iff := by simp [openKeys, none_left] }

theorem await (h : Reflects history c) (ticket : Nat) (waiter : Place) :
    Reflects (.await ticket :: history) (c.await ticket waiter) := by
  refine h.modify _ ticket (fun _ => rfl) rfl rfl rfl ?_ h.untouched
  intro s e he
  obtain ⟨left, state⟩ := h.entry s e he
  split <;> exact ⟨left, state⟩

/-- A call to a resolver, which concerns its own ticket alone. -/
private theorem use (h : Reflects history c) (i : Interaction ρ) {t : Nat} (has : c.HasResolver t)
    {f : Entry ρ → Entry ρ} (keeps : ∀ e, loaded (f e) = loaded e)
    (same_accepted : accepted (i :: history) = accepted history)
    (same_open : openKeys (i :: history) = openKeys history)
    (same_batches : batches (i :: history) = batches history)
    (others : ∀ s, t ≠ s → firstAnswer s (i :: history) = firstAnswer s history ∧
      resolversLeft s (i :: history) = resolversLeft s history)
    (own : ∀ e, e.resolvers = resolversLeft t history → 0 < e.resolvers → e.state = owed history t →
      (f e).resolvers = resolversLeft t (i :: history) ∧ (f e).state = owed (i :: history) t) :
    Reflects (i :: history) (c.modify t f) := by
  obtain ⟨lt, e, he, alive⟩ := has
  refine h.modify i t keeps same_accepted same_open same_batches ?_ ?_
  · intro s e' he'
    obtain ⟨left, state⟩ := h.entry s e' he'
    by_cases same : t = s
    · subst same
      obtain rfl : e = e' := Option.some_inj.1 (he.symm.trans he')
      rw [if_pos rfl]
      exact own e left alive state
    · obtain ⟨answer_eq, left_eq⟩ := others s same
      rw [if_neg same, owed, answer_eq, left_eq]
      exact ⟨left, state⟩
  · intro s hs
    obtain ⟨answer_eq, left_eq⟩ := others s (by omega)
    rw [answer_eq, left_eq]
    exact h.untouched s hs

theorem clone (h : Reflects history c) {ticket : Nat} (has : c.HasResolver ticket) :
    Reflects (.clone ticket :: history) (c.retain ticket) := by
  refine h.use _ has (fun _ => rfl) rfl rfl rfl ?_ ?_
  · intro s other
    simp [firstAnswer, resolversLeft, other]
  · intro e left alive state
    rw [left] at alive
    simp only [owed] at state ⊢
    simp only [firstAnswer, resolversLeft, if_true, left, state, true_and]
    rw [if_neg (by omega), if_neg (by omega)]

theorem drop (h : Reflects history c) {ticket : Nat} (has : c.HasResolver ticket) :
    Reflects (.drop ticket :: history) (c.release ticket) := by
  refine h.use _ has (fun _ => rfl) rfl rfl rfl ?_ ?_
  · intro s other
    simp [firstAnswer, resolversLeft, other]
  · intro e left alive state
    rw [left] at alive
    simp only [owed] at state ⊢
    simp only [firstAnswer, resolversLeft, if_true, left, true_and]
    rw [if_neg (by omega)] at state
    cases answer : firstAnswer ticket history with
    | some value => simp [state, answer]
    | none =>
      have last_iff : resolversLeft ticket history ≤ 1 ↔ resolversLeft ticket history - 1 = 0 := by omega
      simp [state, answer, last_iff]

/-- The state of a ticket that somebody can still answer. -/
theorem state_eq (h : Reflects history c) {ticket : Nat} (has : c.HasResolver ticket) :
    c.state ticket = match firstAnswer ticket history with
      | some value => .answered value
      | none => .waiting := by
  obtain ⟨-, e, he, alive⟩ := has
  obtain ⟨left, state⟩ := h.entry ticket e he
  rw [Coalescer.state, he, Option.map_some, Option.getD_some, state, owed, ← left, if_neg (by omega)]

/-- Of the calls to the resolvers of a ticket the first one gives true and the others change nothing. -/
theorem resolve_eq (h : Reflects history c) {ticket : Nat} (has : c.HasResolver ticket) (value : Bool) :
    c.resolve ticket value =
      if (firstAnswer ticket history).isNone then (true, c.modify ticket fun e => { e with state := .answered value })
      else (false, c) := by
  rw [Coalescer.resolve, isResolved, h.state_eq has]
  cases firstAnswer ticket history <;> simp

theorem resolve (h : Reflects history c) {ticket : Nat} (has : c.HasResolver ticket) (value : Bool) :
    Reflects (.resolve ticket value (c.resolve ticket value).1 :: history) (c.resolve ticket value).2 := by
  have others (first : Bool) (s : Nat) (other : ticket ≠ s) :
      firstAnswer s (.resolve ticket value first :: history) = firstAnswer s history ∧
        resolversLeft s (.resolve ticket value first :: history) = resolversLeft s history := by
    simp [firstAnswer, resolversLeft, other]
  rw [h.resolve_eq has]
  cases answer : firstAnswer ticket history with
  | none =>
    refine h.use _ has (fun _ => rfl) rfl rfl rfl (others _) ?_
    intro e left _ _
    simp [left, resolversLeft, owed, firstAnswer, answer]
  | some first =>
    have unchanged : c.modify ticket id = c := by simp [Coalescer.modify]
    rw [← unchanged]
    refine h.use _ has (fun _ => rfl) rfl rfl rfl (others _) ?_
    intro e left _ state
    rw [id, left, state]
    simp [resolversLeft, owed, firstAnswer, answer]

theorem step (h : Reflects history c) {i : Interaction ρ} {d : Coalescer ρ} (hs : Step c i d) :
    Reflects (i :: history) d := by
  cases hs with
  | load => exact h.load _ _
  | take ht => exact h.take ht
  | takeNone ht => exact h.takeNone ht
  | await => exact h.await _ _
  | clone has => exact h.clone has
  | drop has => exact h.drop has
  | resolve has value => exact h.resolve has value

end Reflects

theorem History.reflects {history : List (Interaction ρ)} {c : Coalescer ρ} (h : History history c) :
    Reflects history c := by
  induction h with
  | empty => exact .empty
  | call _ step ih => exact ih.step step

/-- What was possible at the end was possible before. -/
theorem History.before {later earlier : List (Interaction ρ)} {c : Coalescer ρ} (h : History (later ++ earlier) c) :
    ∃ b, History earlier b := by
  induction later generalizing c with
  | nil => exact ⟨c, h⟩
  | cons i later ih => cases h with
    | call h _ => exact ih h

/-! ### What a ticket stands for -/

/-- Entries stay, and so does what was loaded. -/
theorem Step.get? {c d : Coalescer ρ} {i : Interaction ρ} (hs : Step c i d) {t : Nat} {e : Entry ρ}
    (he : c.get? t = some e) : ∃ e', d.get? t = some e' ∧ loaded e' = loaded e := by
  have modified {s : Nat} {f : Entry ρ → Entry ρ} (keeps : ∀ e, loaded (f e) = loaded e) :
      ∃ e', (c.modify s f).get? t = some e' ∧ loaded e' = loaded e := by
    refine ⟨_, by rw [get?_modify, he]; rfl, ?_⟩
    split
    · exact keeps e
    · rfl
  cases hs with
  | load key request =>
    unfold Coalescer.load
    split
    · exact ⟨e, he, rfl⟩
    · refine ⟨e, ?_, rfl⟩
      have ht := (List.getElem?_eq_some_iff.1 he).1
      simpa [Coalescer.get?, List.getElem?_append_left ht] using he
  | take ht =>
    unfold takeBatch at ht
    split at ht
    · cases ht
    · cases ht; exact ⟨e, he, rfl⟩
  | takeNone => exact ⟨e, he, rfl⟩
  | await => exact modified fun _ => rfl
  | clone => exact modified fun _ => rfl
  | drop => exact modified fun _ => rfl
  | resolve has value =>
    unfold Coalescer.resolve
    split
    · exact ⟨e, he, rfl⟩
    · exact modified fun _ => rfl

/-- A ticket stays in the queue until a batch is taken. -/
theorem Step.taken_le_iff {c d : Coalescer ρ} {i : Interaction ρ} (hs : Step c i d) {t : Nat}
    (ht : t < c.entries.length) : d.taken ≤ t ↔ c.taken ≤ t ∧ ¬ i.isTake := by
  cases hs with
  | load key request =>
    unfold Coalescer.load
    split <;> simp [Interaction.isTake]
  | take h =>
    unfold takeBatch at h
    split at h
    · cases h
    · cases h; simp [Interaction.isTake, ht]
  | takeNone h =>
    unfold takeBatch pending at h
    split at h
    · simp [Interaction.isTake]; omega
    · cases h
  | await => simp [Interaction.isTake, Coalescer.await, modify]
  | clone => simp [Interaction.isTake, retain, modify]
  | drop => simp [Interaction.isTake, release, modify]
  | resolve has value =>
    unfold Coalescer.resolve
    split <;> simp [Interaction.isTake, modify]

/-- A load that repeats no open key gets a ticket of its own. -/
theorem Reflects.queued?_fresh {history : List (Interaction ρ)} {c : Coalescer ρ} (h : Reflects history c)
    {key : String} (fresh : key ∉ openKeys history) : c.queued? key = none :=
  (queued?_eq_none_iff c key).2 fun queued => fresh ((h.open_iff key).2 queued)

/-- Ever since a load its ticket stands for the key, and for the request unless the load repeated an open key; and it
is queued until a batch is taken. -/
theorem History.ticket {between earlier : List (Interaction ρ)} {key : String} {request : ρ} {ticket : Nat}
    {c : Coalescer ρ} (h : History (between ++ .load key request ticket :: earlier) c) :
    (∃ e, c.get? ticket = some e ∧ e.key = key ∧ (key ∉ openKeys earlier → e.request = request)) ∧
      (c.taken ≤ ticket ↔ ∀ i ∈ between, ¬ i.isTake) := by
  induction between generalizing c with
  | nil =>
    cases h with
    | @call _ b _ _ h step =>
      cases step with
      | load =>
        unfold Coalescer.load
        cases hq : b.queued? key with
        | some t =>
          obtain ⟨le, e, he, hk⟩ := queued?_eq_some hq
          refine ⟨⟨e, he, hk, fun fresh => ?_⟩, by simpa using le⟩
          rw [h.reflects.queued?_fresh fresh] at hq
          cases hq
        | none =>
          refine ⟨⟨⟨key, request, .waiting, 1, []⟩, by simp [Coalescer.get?], rfl, fun _ => rfl⟩, ?_⟩
          simpa using h.reflects.taken_le
  | cons i between ih =>
    cases h with
    | call h step =>
      -- The step keeps what the entry was loaded with, and it leaves the queue only if a batch is taken.
      obtain ⟨⟨e, he, hk, hr⟩, queued⟩ := ih h
      obtain ⟨e', he', same⟩ := step.get? he
      obtain ⟨same_key, same_request⟩ := Prod.mk.injEq .. ▸ same
      refine ⟨⟨e', he', same_key.trans hk, fun fresh => same_request.trans (hr fresh)⟩, ?_⟩
      rw [step.taken_le_iff (List.getElem?_eq_some_iff.1 he).1, queued, List.forall_mem_cons, and_comm]

/-- Two loads share a ticket exactly when they have one key and no batch was taken between them. -/
theorem History.same_ticket_iff {between earlier : List (Interaction ρ)} {key key' : String} {request request' : ρ}
    {ticket ticket' : Nat} {c : Coalescer ρ}
    (h : History (.load key' request' ticket' :: (between ++ .load key request ticket :: earlier)) c) :
    ticket = ticket' ↔ key = key' ∧ ∀ i ∈ between, ¬ i.isTake := by
  obtain ⟨⟨e', he', hk', -⟩, queued'⟩ := @History.ticket _ [] _ _ _ _ _ h
  cases h with
  | @call _ b _ _ h step =>
    obtain ⟨⟨e, he, hk, -⟩, queued⟩ := h.ticket
    obtain ⟨e₁, he₁, same⟩ := step.get? he
    have taken_iff := step.taken_le_iff (List.getElem?_eq_some_iff.1 he).1
    simp only [Interaction.isTake, Bool.false_eq_true, not_false_eq_true, and_true] at taken_iff
    rw [← queued]
    constructor
    · rintro rfl
      obtain rfl : e₁ = e' := Option.some_inj.1 (he₁.symm.trans he')
      refine ⟨?_, taken_iff.1 (queued'.2 (by simp))⟩
      rw [← hk, ← hk']
      exact (congrArg Prod.fst same).symm
    · -- The key is still queued, so the later load finds the ticket of the earlier one.
      rintro ⟨rfl, queued⟩
      cases step with
      | load => rw [Coalescer.load, ← hk, queued?_key h.reflects.nodup queued he]

/-! ### What a coalescer owes -/

/-- Nothing is lost, doubled, or answered in place of something else. -/
structure Faithful (history : List (Interaction ρ)) (c : Coalescer ρ) : Prop where
  /-- Two loads share a ticket exactly when they have one key and no batch was taken between them. -/
  share : ∀ later between earlier key request ticket key' request' ticket',
    history = later ++ .load key' request' ticket' :: (between ++ .load key request ticket :: earlier) →
    (ticket = ticket' ↔ key = key' ∧ ∀ i ∈ between, ¬ i.isTake)
  /-- The batches and then the queue list the accepted requests, each with its own ticket, in the order of loads. -/
  once : (batches history).flatten ++ c.contents c.queue = (accepted history).zipIdx
  /-- There is no empty batch, and no batch has a key twice. -/
  batch : ∀ b ∈ batches history, b ≠ [] ∧ (b.map (·.1.1)).Nodup
  queue : ((c.contents c.queue).map (·.1.1)).Nodup
  /-- The ticket of a load stands for a request with its key, and for its own one unless it repeats an open key. -/
  own : ∀ later key request ticket earlier, history = later ++ .load key request ticket :: earlier →
    ∃ kept, (accepted history)[ticket]? = some (key, kept) ∧ (key ∉ openKeys earlier → kept = request)
  /-- The ticket of a load has the first answer given to it. -/
  answer : ∀ later key request ticket earlier, history = later ++ .load key request ticket :: earlier →
    c.state ticket = owed history ticket
  /-- Only the first call to the resolvers of a ticket gives true. -/
  first : ∀ later ticket value (first : Bool) earlier, history = later ++ .resolve ticket value first :: earlier →
    (first ↔ firstAnswer ticket earlier = none)
  /-- A call to a resolver that gives false changes nothing. -/
  ignored : ∀ ticket value d, Step c (.resolve ticket value false) d → d = c

theorem History.faithful {history : List (Interaction ρ)} {c : Coalescer ρ} (h : History history c) :
    Faithful history c where
  share later between earlier key request ticket key' request' ticket' eq := by
    subst eq
    obtain ⟨b, hb⟩ := h.before
    exact hb.same_ticket_iff
  once := by
    rw [h.reflects.batches_eq, contents_queue, List.take_append_drop, h.reflects.loaded_eq]
  batch := h.reflects.batch
  queue := by
    rw [map_key_contents_queue]
    exact h.reflects.nodup
  own later key request ticket earlier eq := by
    subst eq
    obtain ⟨⟨e, he, hk, hr⟩, -⟩ := h.ticket
    refine ⟨e.request, ?_, hr⟩
    rw [← h.reflects.loaded_eq, List.getElem?_map, ← hk]
    exact congrArg (Option.map loaded) he
  answer later key request ticket earlier eq := by
    subst eq
    obtain ⟨⟨e, he, -⟩, -⟩ := h.ticket
    rw [state, he]
    exact (h.reflects.entry ticket e he).2
  first later ticket value first earlier eq := by
    subst eq
    obtain ⟨b, hb⟩ := h.before
    cases hb with
    | call hb step => cases step with
      | resolve has =>
        rw [hb.reflects.resolve_eq has]
        cases firstAnswer ticket earlier <;> simp
  ignored ticket value d step := by
    generalize hf : false = first at step
    cases step with
    | resolve has =>
      rw [h.reflects.resolve_eq has] at hf ⊢
      split at hf
      · cases hf
      · rw [if_neg ‹_›]

/-- The second load shares the ticket of the first one, the third load has a ticket of its own, and the first of two
answers stays. -/
theorem faithful_across_batches :
    let history : List (Interaction Nat) :=
      [.resolve 0 false false, .load "a" 30 1, .resolve 0 true true, .take (some [(("a", 10), 0)]),
        .load "a" 20 0, .load "a" 10 0]
    let c : Coalescer Nat := ⟨[⟨"a", 10, .answered true, 1, []⟩, ⟨"a", 30, .waiting, 1, []⟩], 1⟩
    History history c ∧ (batches history).flatten ++ c.contents c.queue = [(("a", 10), 0), (("a", 30), 1)] ∧
      c.state 0 = .answered true := by
  intro history c
  let queue : Coalescer Nat := ⟨[⟨"a", 10, .waiting, 1, []⟩], 0⟩
  have taken : queue.takeBatch = some ([0], { queue with taken := 1 }) := rfl
  have loaded : History [.load "a" 20 0, .load "a" 10 0] queue :=
    .call (.call .empty (.load .empty "a" 10)) (.load queue "a" 20)
  have answered := (loaded.call (.take taken)).call (.resolve ⟨Nat.one_pos, _, rfl, Nat.one_pos⟩ true)
  have possible : History history c :=
    (answered.call (.load _ "a" 30)).call (.resolve (c := c) ⟨Nat.one_pos, _, rfl, Nat.one_pos⟩ false)
  have faithful := History.faithful possible
  exact ⟨possible, faithful.once, faithful.answer [_, _, _, _] _ _ _ _ rfl⟩

end Segmentation.Coalescer
