import Segmentation.Proofs.Alarms
import Segmentation.Proofs.Entries
import Segmentation.Proofs.Turns

/-!
# Who can still answer a request

The resolver of a request is with its batch, and copies of it are with alarms, or with whoever kept them
(`Hub.holders`).  A request has the first answer that was given to it (`answers`); without one it waits as long as
there is a resolver, and is lost with the last one.  `Hub.Books` says that a hub knows of all this, and whatever
batches do keeps the books (`Drive.pollFlight_accounted`).  Those who wait for a request are woken as soon as it has an
answer or is lost (`Hub.Follows`).
-/

namespace Segmentation

/-! ### What happened to a load -/

/-- The answer that a load is given: by its resolver, or by its batch if that failed. -/
def Happening.answer? (load : Load) : Happening → Option Bool
  | .given target value => if target = load then some value else none
  | .landed _ loads true => if load ∈ loads then some false else none
  | _ => none

/-- The first answer that a load was given. -/
def answers (log : List Happening) (load : Load) : Option Bool := log.findSome? (·.answer? load)

/-- The loads whose batches have landed. -/
def landedLoads (log : List Happening) : List Load :=
  log.flatMap fun
    | .landed _ loads _ => loads
    | _ => []

theorem answers_append (log more : List Happening) (load : Load) :
    answers (log ++ more) load = (answers log load).or (answers more load) := List.findSome?_append

theorem landedLoads_append (log more : List Happening) :
    landedLoads (log ++ more) = landedLoads log ++ landedLoads more := List.flatMap_append

/-- What becomes of a ticket: the answer that it was given; without one it is lost when nobody can answer it. -/
def TicketState.become (answer : Option Bool) (holders : Nat) : TicketState :=
  match answer with
  | some value => .answered value
  | none => if holders = 0 then .lost else .waiting

namespace Hub

/-- The loads that alarms are going to answer. -/
def answering (hub : Hub) : List Load :=
  hub.alarms.filterMap fun alarm =>
    match alarm.purpose with
    | .answer load _ => some load
    | _ => none

/-- Whether a load is queued, as a number. -/
def queuing (hub : Hub) (load : Load) : Nat :=
  if (hub.account load.matcher).taken ≤ load.ticket ∧ (hub.entryOf? load).isSome then 1 else 0

/-- Who can still answer a load, while these are with batches in flight. -/
def holders (hub : Hub) (aloft : List Load) (load : Load) : Nat :=
  aloft.count load + hub.queuing load + hub.kept.count load + hub.answering.count load

/-- The hub knows of all answers, and of all who can give one. -/
structure Books (hub : Hub) (answer : Load → Option Bool) (holders : Load → Nat) : Prop where
  resolvers : ∀ load, hub.resolvers load = holders load
  state : ∀ load, hub.state load = .become (answer load) (holders load)

namespace Books

variable {hub : Hub} {answer : Load → Option Bool} {holders : Load → Nat}

/-- Whoever holds a resolver gives an answer. -/
theorem resolve (books : hub.Books answer holders) {load : Load} (held : holders load ≠ 0) (value : Bool) :
    (hub.resolve load value).2.Books
      (fun other => (answer other).or ((Happening.given load value).answer? other)) holders := by
  refine ⟨fun other => ?_, fun other => ?_⟩
  · rw [resolvers_resolve]
    exact books.resolvers other
  · rw [state_resolve, books.state load, books.state other, Happening.answer?]
    by_cases here : other = load
    · subst here
      cases answer other <;> simp [TicketState.become, held]
    · simp [here, Ne.symm here]

/-- A resolver is given up. -/
theorem release (books : hub.Books answer holders) (load : Load) :
    (hub.release load).Books answer fun other => holders other - if other = load then 1 else 0 := by
  refine ⟨fun other => ?_, fun other => ?_⟩
  · rw [resolvers_release, books.resolvers other]
  · rw [state_release, books.state load, books.state other, books.resolvers load]
    by_cases here : other = load
    · subst here
      cases answer other with
      | some value => simp [TicketState.become]
      | none =>
        simp only [TicketState.become, true_and, if_true]
        by_cases nobody : holders other = 0
        · simp [nobody]
        · by_cases one : holders other ≤ 1
          · simp [nobody, one]
          · have left : holders other - 1 ≠ 0 := by omega
            simp [nobody, one, left]
    · simp [here]

/-- A resolver is copied. -/
theorem retain (books : hub.Books answer holders) {load : Load} (held : holders load ≠ 0) :
    (hub.retain load).Books answer fun other => holders other + if other = load then 1 else 0 := by
  have alive : hub.resolvers load ≠ 0 := by rwa [books.resolvers]
  refine ⟨fun other => ?_, fun other => ?_⟩
  · rw [resolvers_retain hub alive, books.resolvers other]
  · rw [state_retain, books.state other]
    by_cases here : other = load
    · subst here
      cases answer other <;> simp [TicketState.become, held]
    · simp [here]

theorem releaseAll (books : hub.Books answer holders) (loads : List Load) :
    (hub.releaseAll loads).Books answer fun other => holders other - loads.count other := by
  induction loads generalizing hub holders with
  | nil => exact books
  | cons load loads ih =>
    have all := ih (books.release load)
    have fewer (other : Load) : (holders other - if other = load then 1 else 0) - loads.count other =
        holders other - (load :: loads).count other := by
      rw [List.count_cons]
      by_cases here : other = load
      · subst here
        simp only [if_true, beq_self_eq_true]
        omega
      · simp [here, Ne.symm here]
    simp only [fewer] at all
    exact all

theorem resolveAll (books : hub.Books answer holders) {loads : List Load} (held : ∀ load ∈ loads, holders load ≠ 0)
    (value : Bool) : (hub.resolveAll loads value).2.Books
      (fun other => (answer other).or (if other ∈ loads then some value else none)) holders := by
  unfold Hub.resolveAll
  generalize 0 = count
  induction loads generalizing hub answer count with
  | nil => simpa using books
  | cons load loads ih =>
    obtain ⟨first, rest⟩ := List.forall_mem_cons.1 held
    have all := ih (books.resolve first value) rest (if (hub.resolve load value).1 then count + 1 else count)
    have same (other : Load) : ((answer other).or ((Happening.given load value).answer? other)).or
        (if other ∈ loads then some value else none) =
        (answer other).or (if other ∈ load :: loads then some value else none) := by
      rw [Option.or_assoc, Happening.answer?]
      by_cases here : other = load
      · simp [here]
      · simp [here, Ne.symm here]
    simp only [same] at all
    exact all

/-- Only what can be read off the entries matters. -/
theorem of_eq (books : hub.Books answer holders) {later : Hub} {left : Load → Nat}
    (resolvers : ∀ load, later.resolvers load = hub.resolvers load) (state : ∀ load, later.state load = hub.state load)
    (same : ∀ load, left load = holders load) : later.Books answer left :=
  ⟨fun load => by rw [resolvers, books.resolvers, same], fun load => by rw [state, books.state, same]⟩

end Books

/-! ### Those who wait -/

/-- Nobody begins to wait or gives up waiting; a load that is open no longer stays as it is; and those who waited for
one that was open are woken when it no longer is. -/
structure Follows (before later : Hub) : Prop where
  waiters : ∀ load, later.waiters load = before.waiters load
  stays : ∀ load, before.waiters load ≠ [] → before.state load ≠ .waiting → later.state load = before.state load
  woken : ∃ more, later.woken = before.woken ++ more ∧
    ∀ load, before.state load = .waiting → later.state load ≠ .waiting → ∀ waiter ∈ before.waiters load, waiter ∈ more

namespace Follows

theorem of_eq {before later : Hub} (waiters : ∀ load, later.waiters load = before.waiters load)
    (state : ∀ load, later.state load = before.state load) (woken : later.woken = before.woken) :
    before.Follows later where
  waiters := waiters
  stays load _ _ := state load
  woken := ⟨[], woken.trans (List.append_nil _).symm, fun load open_ closed => absurd ((state load).trans open_) closed⟩

theorem of_entries {before later : Hub} (same : ∀ load, later.entryOf? load = before.entryOf? load)
    (woken : later.woken = before.woken) : before.Follows later :=
  .of_eq (fun load => by rw [waiters_eq, same, waiters_eq]) (fun load => by rw [state_eq, same, state_eq]) woken

theorem refl (hub : Hub) : hub.Follows hub := .of_entries (fun _ => rfl) rfl

theorem trans {a b c : Hub} (ab : a.Follows b) (bc : b.Follows c) : a.Follows c := by
  obtain ⟨first, woken, told⟩ := ab.woken
  obtain ⟨second, woken', told'⟩ := bc.woken
  refine ⟨fun load => (bc.waiters load).trans (ab.waiters load), fun load some_waits closed => ?_, first ++ second, ?_,
    fun load open_ closed waiter mem => ?_⟩
  · have same := ab.stays load some_waits closed
    rw [bc.stays load (by rwa [ab.waiters]) (by rwa [same]), same]
  · rw [woken', woken, List.append_assoc]
  · by_cases between : b.state load = .waiting
    · exact List.mem_append_right _ (told' load between closed waiter (by rwa [ab.waiters]))
    · exact List.mem_append_left _ (told load open_ between waiter mem)

end Follows

variable (hub : Hub)

theorem resolve_follows (load : Load) (value : Bool) : hub.Follows (hub.resolve load value).2 := by
  refine ⟨fun other => hub.waiters_resolve load value other, fun other _ closed => ?_, _, hub.woken_resolve load value,
    fun other open_ closed waiter mem => ?_⟩
  · rw [state_resolve, if_neg]
    rintro ⟨rfl, waits⟩
    exact closed waits
  · rw [state_resolve] at closed
    split at closed
    · rename_i here
      rw [if_pos here.2, ← here.1]
      exact mem
    · exact absurd open_ closed

theorem release_follows (load : Load) : hub.Follows (hub.release load) := by
  refine ⟨fun other => hub.waiters_release load other, fun other _ closed => ?_, _, hub.woken_release load,
    fun other open_ closed waiter mem => ?_⟩
  · rw [state_release, if_neg]
    rintro ⟨rfl, -, waits⟩
    exact closed waits
  · have lost := hub.state_release load other
    rw [lost] at closed
    split at closed
    · rename_i here
      obtain ⟨rfl, alone, waits⟩ := here
      rw [if_pos ⟨waits, by rw [lost, if_pos ⟨rfl, alone, waits⟩]⟩]
      exact mem
    · exact absurd open_ closed

theorem retain_follows (load : Load) : hub.Follows (hub.retain load) :=
  .of_eq (hub.waiters_retain load) (hub.state_retain load) rfl

theorem keep_follows (load : Load) : hub.Follows (hub.keep load) :=
  .of_eq (hub.waiters_retain load) (hub.state_retain load) rfl

theorem releaseAll_follows (loads : List Load) : hub.Follows (hub.releaseAll loads) := by
  refine List.foldlRecOn loads _ (motive := fun later => hub.Follows later) (.refl hub) fun later follows load _ => ?_
  exact follows.trans (later.release_follows load)

theorem resolveAll_follows (loads : List Load) (value : Bool) : hub.Follows (hub.resolveAll loads value).2 := by
  refine List.foldlRecOn loads _ (motive := fun r : Nat × Hub => hub.Follows r.2) (.refl hub)
    fun r follows load _ => ?_
  exact follows.trans (r.2.resolve_follows load value)

theorem setAlarm_follows (scene : Scene) (deadline : Nat) (purpose : Purpose) :
    scene.hub.Follows (scene.setAlarm deadline purpose).hub := .of_entries (fun _ => rfl) rfl

theorem answerAt_follows (scene : Scene) (deadline : Nat) (load : Load) (value : Bool) :
    scene.hub.Follows (scene.answerAt deadline load value).hub :=
  (scene.hub.retain_follows load).trans (setAlarm_follows { scene with hub := scene.hub.retain load } _ _)

end Hub

/-! ### Keeping account -/

theorem answers_singleton (happening : Happening) (load : Load) :
    answers [happening] load = happening.answer? load := by
  rw [answers, List.findSome?_cons]
  cases happening.answer? load <;> rfl

theorem Alarm.insert_perm (alarm : Alarm) (alarms : List Alarm) : (alarm.insert alarms).Perm (alarm :: alarms) := by
  induction alarms with
  | nil => exact .refl _
  | cons other others ih =>
    unfold insert
    split
    · exact .refl _
    · exact (ih.cons other).trans (.swap alarm other others)

namespace Hub

/-- A hub whose books are in order while some loads are with batches in flight.  A request that was taken is with its
batch, which is in flight or has landed; nobody else has got its resolver before. -/
structure Accounted (hub : Hub) (log : List Happening) (aloft : List Load) : Prop where
  books : hub.Books (answers log) (hub.holders aloft)
  within : ∀ name, (hub.account name).taken ≤ (hub.account name).accepted.length
  placed : ∀ load, (landedLoads log).count load + aloft.count load =
    if load.ticket < (hub.account load.matcher).taken then 1 else 0
  boarded : ∀ load, load ∈ hub.kept ∨ load ∈ hub.answering ∨ (answers log load).isSome →
    load.ticket < (hub.account load.matcher).taken

/-- Whether somebody has a resolver of a load. -/
def Held (hub : Hub) (aloft : List Load) (load : Load) : Prop :=
  load ∈ aloft ∨ load ∈ hub.kept ∨ load ∈ hub.answering

theorem Held.holders_ne_zero {hub : Hub} {aloft : List Load} {load : Load} (held : hub.Held aloft load) :
    hub.holders aloft load ≠ 0 := by
  unfold holders
  rcases held with mem | mem | mem
  · have some := List.count_pos_iff.2 mem
    omega
  · have some := List.count_pos_iff.2 mem
    omega
  · have some := List.count_pos_iff.2 mem
    omega

section SameAccounts

variable {before later : Hub} (same : ∀ name, later.account name = before.account name)

include same

theorem queuing_of_accounts (load : Load) : later.queuing load = before.queuing load := by
  have iff : (later.entryOf? load).isSome ↔ (before.entryOf? load).isSome := by
    rw [isSome_entryOf?_iff, isSome_entryOf?_iff, same]
  simp only [queuing, same, iff]

theorem holders_of_accounts (kept : later.kept = before.kept) (answering : later.answering = before.answering)
    (aloft : List Load) : later.holders aloft = before.holders aloft := by
  funext load
  rw [holders, holders, queuing_of_accounts same, kept, answering]

end SameAccounts

namespace Accounted

variable {hub : Hub} {log : List Happening} {aloft : List Load}

theorem taken (accounted : hub.Accounted log aloft) {load : Load}
    (known : hub.Held aloft load ∨ (answers log load).isSome) : load.ticket < (hub.account load.matcher).taken := by
  rcases known with (mem | kept | waits) | answered
  · have some := List.count_pos_iff.2 mem
    have placed := accounted.placed load
    by_contra queued
    rw [if_neg queued] at placed
    omega
  · exact accounted.boarded load (.inl kept)
  · exact accounted.boarded load (.inr (.inl waits))
  · exact accounted.boarded load (.inr (.inr answered))

/-- Nothing happened to the queues. -/
theorem of_accounts (accounted : hub.Accounted log aloft) {later : Hub} {log' : List Happening} {aloft' : List Load}
    (same : ∀ name, later.account name = hub.account name) (books : later.Books (answers log') (later.holders aloft'))
    (placed : ∀ load, (landedLoads log').count load + aloft'.count load =
      (landedLoads log).count load + aloft.count load)
    (boarded : ∀ load, load ∈ later.kept ∨ load ∈ later.answering ∨ (answers log' load).isSome →
      hub.Held aloft load ∨ (answers log load).isSome) : later.Accounted log' aloft' where
  books := books
  within name := by
    rw [same]
    exact accounted.within name
  placed load := by
    rw [same, placed]
    exact accounted.placed load
  boarded load known := by
    rw [same]
    exact accounted.taken (boarded load known)

/-- Only how often a load is with a batch matters. -/
theorem perm (accounted : hub.Accounted log aloft) {aloft' : List Load} (perm : aloft'.Perm aloft) :
    hub.Accounted log aloft' where
  books := accounted.books.of_eq (fun _ => rfl) (fun _ => rfl) fun load => by rw [holders, holders, perm.count_eq]
  within := accounted.within
  placed load := by
    rw [perm.count_eq]
    exact accounted.placed load
  boarded := accounted.boarded

theorem resolve (accounted : hub.Accounted log aloft) {load : Load} (held : hub.Held aloft load) (value : Bool) :
    (hub.resolve load value).2.Accounted (log ++ [.given load value]) aloft := by
  have same := account_of_ledger (hub.ledger_resolve load value)
  have kept := hub.kept_resolve load value
  have answering : (hub.resolve load value).2.answering = hub.answering := by
    rw [Hub.answering, alarms_resolve]
    rfl
  have books := accounted.books.resolve held.holders_ne_zero value
  have all : (fun other => (answers log other).or ((Happening.given load value).answer? other)) =
      answers (log ++ [.given load value]) := by
    funext other
    rw [answers_append, answers_singleton]
  rw [all, ← holders_of_accounts same kept answering aloft] at books
  refine accounted.of_accounts same books (fun other => ?_) fun other known => ?_
  · rw [landedLoads_append]
    simp [landedLoads]
  · rw [kept, answering, answers_append, answers_singleton, Option.isSome_or, Bool.or_eq_true] at known
    rcases or_assoc.2 known with held | answered | given
    · exact .inl (.inr held)
    · exact .inr answered
    · by_cases here : load = other
      · exact .inl (here ▸ held)
      · simp [Happening.answer?, here] at given

/-- A copy of a resolver is handed to somebody. -/
theorem copy (accounted : hub.Accounted log aloft) {load : Load} (held : hub.Held aloft load) {later : Hub}
    (same : later.ledger = (hub.retain load).ledger) (entries : later.entryOf? = (hub.retain load).entryOf?)
    (one_more : (later.kept ++ later.answering).Perm (load :: (hub.kept ++ hub.answering))) :
    later.Accounted log aloft := by
  have same_hub := account_of_ledger (same.trans (hub.ledger_retain load))
  refine accounted.of_accounts same_hub ?_ (fun _ => rfl) fun other known => ?_
  · refine (accounted.books.retain held.holders_ne_zero).of_eq (fun other => by rw [resolvers, entries]; rfl)
      (fun other => by rw [state_eq, entries]; rfl) fun other => ?_
    have count := one_more.count_eq other
    rw [List.count_append, List.count_cons, List.count_append] at count
    rw [holders, holders, queuing_of_accounts same_hub]
    by_cases here : other = load
    · simp only [here, beq_self_eq_true, if_true] at count ⊢
      omega
    · simp only [here, beq_eq_false_iff_ne.2 (Ne.symm here), Bool.false_eq_true, if_false] at count ⊢
      omega
  · have listed (mem : other ∈ later.kept ++ later.answering) : hub.Held aloft other := by
      rcases List.mem_cons.1 (one_more.subset mem) with rfl | mem
      · exact held
      · exact .inr (List.mem_append.1 mem)
    rcases known with kept | waits | answered
    · exact .inl (listed (List.mem_append_left _ kept))
    · exact .inl (listed (List.mem_append_right _ waits))
    · exact .inr answered

theorem keep (accounted : hub.Accounted log aloft) {load : Load} (held : hub.Held aloft load) :
    (hub.keep load).Accounted log aloft := by
  refine accounted.copy held rfl rfl ?_
  change ((hub.kept ++ [load]) ++ hub.answering).Perm _
  rw [List.append_assoc]
  exact List.perm_middle

/-- Of the alarms only those matter that answer something. -/
theorem setAlarms (accounted : hub.Accounted log aloft) {alarms : List Alarm}
    (same : ({ hub with alarms } : Hub).answering.Perm hub.answering) :
    ({ hub with alarms } : Hub).Accounted log aloft := by
  refine accounted.of_accounts (fun _ => rfl) (accounted.books.of_eq (fun _ => rfl) (fun _ => rfl) fun load => ?_)
    (fun _ => rfl) fun load known => ?_
  · rw [holders, holders, same.count_eq]
    rfl
  · rw [same.mem_iff] at known
    exact (or_assoc.2 known).imp_left .inr

/-- An alarm that answers nothing changes nothing. -/
theorem setAlarm {scene : Scene} (accounted : scene.hub.Accounted log aloft) (deadline : Nat) {purpose : Purpose}
    (idle : ∀ load value, purpose ≠ .answer load value) : (scene.setAlarm deadline purpose).hub.Accounted log aloft := by
  refine accounted.setAlarms (((Alarm.insert_perm _ _).filterMap _).trans ?_)
  cases purpose with
  | answer load value => exact absurd rfl (idle load value)
  | _ => exact .refl _

theorem answerAt {scene : Scene} (accounted : scene.hub.Accounted log aloft) (deadline : Nat) {load : Load}
    (held : scene.hub.Held aloft load) (value : Bool) : (scene.answerAt deadline load value).hub.Accounted log aloft := by
  refine accounted.copy held rfl rfl ?_
  have inserted : (scene.answerAt deadline load value).hub.answering.Perm (load :: scene.hub.answering) :=
    (Alarm.insert_perm _ _).filterMap _
  exact (inserted.append_left scene.hub.kept).trans List.perm_middle

/-- One of the copies is given up. -/
theorem letGo (accounted : hub.Accounted log aloft) {load : Load} {fewer : Hub} (same : fewer.ledger = hub.ledger)
    (entries : fewer.entryOf? = hub.entryOf?) (one_less : (load :: (fewer.kept ++ fewer.answering)).Perm
      (hub.kept ++ hub.answering)) : (fewer.release load).Accounted log aloft := by
  have same_fewer := account_of_ledger ((ledger_release fewer load).trans same)
  have kept := fewer.kept_release load
  have answering : (fewer.release load).answering = fewer.answering := by
    rw [Hub.answering, alarms_release]
    rfl
  refine accounted.of_accounts same_fewer ?_ (fun _ => rfl) fun other known => ?_
  · have books : fewer.Books (answers log) (hub.holders aloft) :=
      accounted.books.of_eq (fun other => by rw [resolvers, entries]; rfl)
        (fun other => by rw [state_eq, entries]; rfl) fun _ => rfl
    refine (books.release load).of_eq (fun _ => rfl) (fun _ => rfl) fun other => ?_
    have count := one_less.count_eq other
    rw [List.count_append, List.count_cons, List.count_append] at count
    rw [holders, holders, queuing_of_accounts same_fewer, kept, answering]
    by_cases here : other = load
    · simp only [here, beq_self_eq_true, if_true] at count ⊢
      omega
    · simp only [here, beq_eq_false_iff_ne.2 (Ne.symm here), Bool.false_eq_true, if_false] at count ⊢
      omega
  · have listed (mem : other ∈ fewer.kept ++ fewer.answering) : hub.Held aloft other :=
      .inr (List.mem_append.1 (one_less.subset (List.mem_cons_of_mem _ mem)))
    rw [kept, answering] at known
    rcases known with kept | waits | answered
    · exact .inl (listed (List.mem_append_left _ kept))
    · exact .inl (listed (List.mem_append_right _ waits))
    · exact .inr answered

/-- A batch lands, and gives up its resolvers. -/
theorem land {loads rest : List Load} (accounted : hub.Accounted log (loads ++ rest)) (id : Nat) (failed : Bool)
    {settled : Hub} (same : settled.ledger = hub.ledger) (kept : settled.kept = hub.kept)
    (alarms : settled.alarms = hub.alarms)
    (books : settled.Books (answers (log ++ [.landed id loads failed])) (hub.holders (loads ++ rest))) :
    (settled.releaseAll loads).Accounted (log ++ [.landed id loads failed]) rest := by
  have same_later := account_of_ledger ((ledger_releaseAll settled loads).trans same)
  have kept_later : (settled.releaseAll loads).kept = hub.kept := by
    rw [← kept]
    exact List.foldlRecOn loads _ (motive := fun later : Hub => later.kept = settled.kept) rfl
      fun later same load _ => (later.kept_release load).trans same
  have answering_later : (settled.releaseAll loads).answering = hub.answering := by
    rw [Hub.answering, alarms_releaseAll, alarms]
    rfl
  refine accounted.of_accounts same_later ?_ (fun load => ?_) fun load known => ?_
  · refine (books.releaseAll loads).of_eq (fun _ => rfl) (fun _ => rfl) fun load => ?_
    rw [holders, holders, queuing_of_accounts same_later, kept_later, answering_later, List.count_append]
    omega
  · have landed : landedLoads [.landed id loads failed] = loads := List.append_nil _
    rw [landedLoads_append, landed, List.count_append, List.count_append]
    omega
  · rw [kept_later, answering_later, answers_append, answers_singleton, Option.isSome_or, Bool.or_eq_true] at known
    rcases or_assoc.2 known with held | answered | given
    · exact .inl (.inr held)
    · exact .inr answered
    · by_cases here : load ∈ loads
      · exact .inl (.inl (List.mem_append_left _ here))
      · cases failed <;> simp [Happening.answer?, here] at given

/-- Nobody has the resolver of a request that is queued, and it has no answer. -/
theorem queued (accounted : hub.Accounted log aloft) {load : Load}
    (queued : (hub.account load.matcher).taken ≤ load.ticket) : answers log load = none ∧
      ∀ other : Hub, other.kept = hub.kept → other.answering = hub.answering →
        other.holders aloft load = other.queuing load := by
  have nobody : ¬ (hub.Held aloft load ∨ (answers log load).isSome) :=
    fun somebody => absurd (accounted.taken somebody) (Nat.not_lt.2 queued)
  refine ⟨?_, fun other kept answering => ?_⟩
  · by_contra answered
    exact nobody (.inr (Option.isSome_iff_ne_none.2 answered))
  · have not_aloft : aloft.count load = 0 := List.count_eq_zero.2 fun mem => nobody (.inl (.inl mem))
    have not_kept : hub.kept.count load = 0 := List.count_eq_zero.2 fun mem => nobody (.inl (.inr (.inl mem)))
    have not_waiting : hub.answering.count load = 0 := List.count_eq_zero.2 fun mem => nobody (.inl (.inr (.inr mem)))
    rw [holders, kept, answering, not_aloft, not_kept, not_waiting]
    omega

theorem waits_queued (accounted : hub.Accounted log aloft) {load : Load}
    (queued : (hub.account load.matcher).taken ≤ load.ticket) (there : (hub.entryOf? load).isSome) :
    hub.state load = .waiting := by
  obtain ⟨unanswered, alone⟩ := accounted.queued queued
  rw [accounted.books.state load, unanswered, (alone hub rfl rfl).trans (if_pos ⟨queued, there⟩)]
  rfl

/-- What comes into the queues concerns nobody who has a resolver. -/
theorem of_loaded (accounted : hub.Accounted log aloft) {later : Hub} (loaded : hub.Extends later)
    (kept : later.kept = hub.kept) (answering : later.answering = hub.answering)
    (books : later.Books (answers log) (later.holders aloft)) : later.Accounted log aloft where
  books := books
  within name := by
    rw [loaded.taken]
    exact Nat.le_trans (accounted.within name) (loaded.accepted name).length_le
  placed load := by
    rw [loaded.taken]
    exact accounted.placed load
  boarded load known := by
    rw [kept, answering] at known
    rw [loaded.taken]
    exact accounted.boarded load known

/-- Loading a request keeps the books; the request waits in the queue. -/
theorem loadKeyed (accounted : hub.Accounted log aloft) {matcher : String} (known : matcher ∈ hub.names)
    (key : String) (request : Request) : (hub.loadKeyed matcher key request).2.Accounted log aloft ∧
      (hub.loadKeyed matcher key request).2.state (hub.loadKeyed matcher key request).1 = .waiting := by
  obtain ⟨matcher_eq, queued, entries⟩ := hub.loadKeyed_spec known (accounted.within matcher) key request
  have loaded := hub.loadKeyed_extends matcher key request
  obtain ⟨load, later, r_eq⟩ : ∃ load later, hub.loadKeyed matcher key request = (load, later) := ⟨_, _, rfl⟩
  have kept : later.kept = hub.kept := (congrArg (·.2.kept) r_eq).symm
  have answering : later.answering = hub.answering := (congrArg (·.2.answering) r_eq).symm
  rw [r_eq] at matcher_eq queued entries loaded ⊢
  dsimp only at matcher_eq queued entries loaded ⊢
  rw [← matcher_eq] at queued
  obtain ⟨unanswered, alone⟩ := accounted.queued queued
  have others (other : Load) (same : later.entryOf? other = hub.entryOf? other) :
      later.holders aloft other = hub.holders aloft other := by
    rw [holders, holders, queuing, loaded.taken, same, kept, answering]
    rfl
  rcases entries with ⟨⟨entry, found, -⟩, same⟩ | ⟨-, grown⟩
  · -- The request was queued before, and nothing has changed.
    have same_holders : later.holders aloft = hub.holders aloft := funext fun other => others other (same other)
    have books : later.Books (answers log) (later.holders aloft) :=
      accounted.books.of_eq (fun other => by rw [resolvers, same]; rfl) (fun other => by rw [state_eq, same]; rfl)
        fun other => congrFun same_holders other
    refine ⟨accounted.of_loaded loaded kept answering books, ?_⟩
    rw [state_eq, same]
    exact accounted.waits_queued queued (Option.isSome_of_eq_some found)
  · -- The request is new: only the queue has a resolver of it.
    have here := (grown load).trans (if_pos rfl)
    have waits : later.state load = .waiting := by
      rw [state_eq, here]
      rfl
    have one : later.holders aloft load = 1 := by
      rw [alone later kept answering, queuing, loaded.taken]
      exact if_pos ⟨queued, Option.isSome_of_eq_some here⟩
    refine ⟨accounted.of_loaded loaded kept answering ⟨fun other => ?_, fun other => ?_⟩, waits⟩
    · by_cases new : other = load
      · rw [new, resolvers, here, one]
        rfl
      · have same := (grown other).trans (if_neg new)
        rw [others other same, resolvers, same]
        exact accounted.books.resolvers other
    · by_cases new : other = load
      · rw [new, waits, unanswered, one]
        rfl
      · have same := (grown other).trans (if_neg new)
        rw [others other same, state_eq, same]
        exact accounted.books.state other

end Accounted

/-- Nobody waits for a request that is loaded only now. -/
theorem loadKeyed_follows (hub : Hub) {matcher : String} (known : matcher ∈ hub.names)
    (within : (hub.account matcher).taken ≤ (hub.account matcher).accepted.length) (key : String) (request : Request) :
    hub.Follows (hub.loadKeyed matcher key request).2 := by
  obtain ⟨-, -, ⟨-, same⟩ | ⟨fresh, grown⟩⟩ := hub.loadKeyed_spec known within key request
  · exact .of_entries same rfl
  · have others {load : Load} (other : load ≠ (hub.loadKeyed matcher key request).1) :
        (hub.loadKeyed matcher key request).2.entryOf? load = hub.entryOf? load := by rw [grown, if_neg other]
    refine ⟨fun load => ?_, fun load waits _ => ?_, [], (List.append_nil _).symm, fun load open_ closed => ?_⟩
    · by_cases here : load = (hub.loadKeyed matcher key request).1
      · rw [here, waiters_eq, waiters_eq, fresh, grown, if_pos rfl]
        rfl
      · rw [waiters_eq, waiters_eq, others here]
    · have here : load ≠ (hub.loadKeyed matcher key request).1 := by
        rintro rfl
        rw [waiters_eq, fresh] at waits
        exact waits rfl
      rw [state_eq, state_eq, others here]
    · have here : load ≠ (hub.loadKeyed matcher key request).1 := by
        rintro rfl
        rw [state_eq, fresh] at open_
        cases open_
      rw [state_eq, others here] at closed
      exact absurd open_ closed

end Hub

/-! ### Batches -/

/-- A batch that goes on keeps the books, whatever it does with its resolvers. -/
theorem BatchTask.run_accounted {matcher : String} {tickets : List Nat} {aloft : List Load}
    (own : ∀ ticket ∈ tickets, ⟨matcher, ticket⟩ ∈ aloft) (task : BatchTask) {log : List Happening} {scene : Scene}
    (known : matcher ∈ scene.hub.names) (accounted : scene.hub.Accounted log aloft) :
    (task.run matcher tickets scene).2.hub.Accounted (log ++ task.given matcher tickets) aloft ∧
      scene.hub.Follows (task.run matcher tickets scene).2.hub := by
  -- whatever the batch answers or keeps is one of its own entries, which are aloft
  have held {entry : Nat} {load : Load} (found : entryLoad? matcher tickets entry = some load) (hub : Hub) :
      hub.Held aloft load := by
    obtain ⟨ticket, at_entry, rfl⟩ := Option.map_eq_some_iff.1 found
    exact .inl (own ticket (List.mem_of_getElem? at_entry))
  induction task generalizing log scene with
  | done ending => exact ⟨by rwa [given, List.append_nil], .refl _⟩
  | sleep ticks rest ih =>
    cases ticks with
    | zero => exact ih known accounted
    | succ ticks => exact ⟨by rwa [given, List.append_nil], .refl _⟩
  | resolve entry value rest ih =>
    rw [given]
    unfold run
    cases found : entryLoad? matcher tickets entry with
    | none => exact ih known accounted
    | some load =>
      have known_later : matcher ∈ (scene.hub.resolve load value).2.names := by
        rwa [Hub.names_of_ledger (Hub.ledger_resolve _ _ _)]
      have later := @ih _ { scene with hub := (scene.hub.resolve load value).2 } known_later
        (accounted.resolve (held found _) value)
      rw [List.append_assoc] at later
      exact ⟨later.1, (scene.hub.resolve_follows load value).trans later.2⟩
  | resolveLater ticks entry value rest ih =>
    rw [given]
    unfold run
    cases found : entryLoad? matcher tickets entry with
    | none => exact ih known accounted
    | some load =>
      have known_later : matcher ∈ (scene.answerAt (scene.journal.now + ticks) load value).hub.names := by
        rwa [Hub.names_of_ledger (Scene.ledger_answerAt _ _ _ _)]
      have later := ih known_later (accounted.answerAt (scene.journal.now + ticks) (held found _) value)
      exact ⟨later.1, (Hub.answerAt_follows scene _ load value).trans later.2⟩
  | keep entry rest ih =>
    rw [given]
    unfold run
    cases found : entryLoad? matcher tickets entry with
    | none => exact ih known accounted
    | some load =>
      have known_later : matcher ∈ (scene.hub.keep load).names := by
        rwa [Hub.names_of_ledger (Hub.ledger_keep _ _)]
      have later := @ih _ { scene with hub := scene.hub.keep load } known_later (accounted.keep (held found _))
      exact ⟨later.1, (scene.hub.keep_follows load).trans later.2⟩
  | loadInto peer request rest ih =>
    let loaded := scene.hub.load (peer.getD matcher) request
    let noted := { loaded.2 with reloads := loaded.2.reloads ++ [loaded.1] }
    have extends_ := scene.hub.loadKeyed_extends (peer.getD matcher) request.stableKey request
    -- a load into a queue that was never opened is lost
    obtain ⟨later, follows⟩ : loaded.2.Accounted log aloft ∧ scene.hub.Follows loaded.2 := by
      by_cases queued : peer.getD matcher ∈ scene.hub.names
      · exact ⟨(accounted.loadKeyed queued request.stableKey request).1,
          scene.hub.loadKeyed_follows queued (accounted.within _) request.stableKey request⟩
      · have same : loaded.2 = scene.hub := scene.hub.load_of_not_mem queued request
        rw [same]
        exact ⟨accounted, .refl _⟩
    have follows : scene.hub.Follows noted := ⟨follows.waiters, follows.stays, follows.woken⟩
    have both := @ih _ { scene with hub := noted } (extends_.names.subset known)
      ⟨⟨later.books.resolvers, later.books.state⟩, later.within, later.placed, later.boarded⟩
    exact ⟨both.1, follows.trans both.2⟩

namespace Flight

variable {log : List Happening} {rest : List Load}

theorem landContained_accounted (flight : Flight) (ending : Ending Unit) {scene : Scene}
    (accounted : scene.hub.Accounted log (flight.loads ++ rest)) :
    (flight.landContained ending scene).hub.Accounted (log ++ flight.lands (.ended ending)) rest ∧
      scene.hub.Follows (flight.landContained ending scene).hub := by
  have lands_eq : flight.lands (.ended ending) = [.landed flight.id flight.loads ending.isFailure] := rfl
  rw [lands_eq]
  unfold landContained Ending.isFailure
  cases ending.contained with
  | ok value =>
    refine ⟨accounted.land flight.id false rfl rfl rfl ?_, scene.hub.releaseAll_follows flight.loads⟩
    have nothing : answers (log ++ [.landed flight.id flight.loads false]) = answers log := by
      funext load
      rw [answers_append, answers_singleton]
      exact Option.or_none
    rw [nothing]
    exact accounted.books
  | error cause =>
    have held : ∀ load ∈ flight.loads, scene.hub.holders (flight.loads ++ rest) load ≠ 0 := fun load mem => by
      have own : scene.hub.Held (flight.loads ++ rest) load := .inl (List.mem_append_left _ mem)
      exact own.holders_ne_zero
    have books := accounted.books.resolveAll held false
    have all : (fun load => (answers log load).or (if load ∈ flight.loads then some false else none)) =
        answers (log ++ [.landed flight.id flight.loads true]) := by
      funext load
      rw [answers_append, answers_singleton]
      rfl
    rw [all] at books
    have kept : (scene.hub.resolveAll flight.loads false).2.kept = scene.hub.kept :=
      List.foldlRecOn flight.loads _ (motive := fun r : Nat × Hub => r.2.kept = scene.hub.kept) rfl
        fun r same load _ => (r.2.kept_resolve load false).trans same
    exact ⟨accounted.land flight.id true (Hub.ledger_resolveAll _ _ _) kept (Hub.alarms_resolveAll _ _ _) books,
      (scene.hub.resolveAll_follows flight.loads false).trans (Hub.releaseAll_follows _ _)⟩

/-- A call that is announced concerns no resolver. -/
theorem boards_accounted (flight : Flight) {hub : Hub} {aloft : List Load} (accounted : hub.Accounted log aloft)
    (scene : Scene) : hub.Accounted (log ++ flight.boards scene) aloft := by
  have nothing (load : Load) : answers (flight.boards scene) load = none ∧ landedLoads (flight.boards scene) = [] := by
    unfold boards
    split <;> exact ⟨rfl, rfl⟩
  have same : answers (log ++ flight.boards scene) = answers log := by
    funext load
    rw [answers_append, (nothing load).1, Option.or_none]
  refine accounted.of_accounts (fun _ => rfl) (same ▸ accounted.books) (fun load => ?_) fun load known => ?_
  · rw [landedLoads_append, (nothing load).2, List.append_nil]
  · rw [same] at known
    exact (or_assoc.2 known).imp_left .inr

/-- A batch that goes on keeps the books. -/
theorem advance_accounted (flight : Flight) {scene : Scene} (known : flight.matcher ∈ scene.hub.names)
    (accounted : scene.hub.Accounted log (flight.loads ++ rest)) :
    (flight.advance (flight.announce scene)).2.hub.Accounted (log ++ flight.boards scene ++ flight.gives scene)
        (flight.loads ++ rest) ∧
      scene.hub.Follows (flight.advance (flight.announce scene)).2.hub := by
  have own : ∀ ticket ∈ flight.tickets, (⟨flight.matcher, ticket⟩ : Load) ∈ flight.loads ++ rest :=
    fun ticket mem => List.mem_append_left _ (List.mem_map_of_mem mem)
  have called := flight.boards_accounted accounted scene
  have noted (r : FlightProgress × Scene) : (flight.noteEnd r).2.hub = r.2.hub := by
    obtain ⟨progress, scene⟩ := r
    cases progress <;> rfl
  have hub_eq := flight.hub_called scene
  rw [advance_eq, noted]
  unfold gives
  cases flight.next scene with
  | panics payload =>
    rw [List.append_nil]
    dsimp only
    rw [hub_eq]
    exact ⟨called, .refl _⟩
  | starts task =>
    rw [← hub_eq] at known called
    have ran := task.run_accounted own known called
    rwa [hub_eq] at ran

/-- A batch that is polled keeps the books, and if it lands gives up its resolvers. -/
theorem pollContained_accounted (flight : Flight) {scene : Scene} (known : flight.matcher ∈ scene.hub.names)
    (accounted : scene.hub.Accounted log (flight.loads ++ rest)) :
    (flight.pollContained scene).2.hub.Accounted (log ++ flight.happens scene)
      ((flight.pollContained scene).1.toList.flatMap loads ++ rest) ∧
      scene.hub.Follows (flight.pollContained scene).2.hub := by
  unfold pollContained happens
  cases due : flight.isDue scene.journal.now with
  | false =>
    simp only [Bool.not_false, if_true, List.append_nil]
    exact ⟨by simpa using accounted, .refl _⟩
  | true =>
    obtain ⟨advanced, follows⟩ := flight.advance_accounted known accounted
    simp only [Bool.not_true, Bool.false_eq_true, if_false]
    rw [← List.append_assoc, ← List.append_assoc]
    generalize flight.advance (flight.announce scene) = r at advanced follows ⊢
    obtain ⟨progress, later⟩ := r
    cases progress with
    | asleep deadline task =>
      have idle : ∀ load value, Purpose.resumeBatch flight.id ≠ .answer load value := nofun
      have set := Hub.Accounted.setAlarm advanced deadline idle
      refine ⟨?_, follows.trans (Hub.setAlarm_follows later _ _)⟩
      have same : (flight.sleepUntil deadline task later).1.loads = flight.loads := rfl
      simp only [lands, List.append_nil, Option.toList_some, List.flatMap_cons, List.flatMap_nil, same]
      exact set
    | ended ending =>
      obtain ⟨landed, settles⟩ := flight.landContained_accounted ending advanced
      exact ⟨landed, follows.trans settles⟩

end Flight

namespace Drive

/-- The loads that are with batches in flight. -/
def aloft (flights : List Flight) : List Load := flights.flatMap (·.loads)

variable {flights : List Flight} {log : List Happening} {scene : Scene}

/-- At the turn of a batch the books are kept. -/
theorem pollFlight_accounted (nodup : (ids flights).Nodup) (known : ∀ flight ∈ flights, flight.matcher ∈ scene.hub.names)
    (accounted : scene.hub.Accounted log (aloft flights)) (id : Nat) :
    (pollFlight flights scene id).2.hub.Accounted (log ++ turn flights scene id)
      (aloft (pollFlight flights scene id).1) ∧ scene.hub.Follows (pollFlight flights scene id).2.hub := by
  unfold turn
  cases found : flights.find? (·.id = id) with
  | none =>
    rw [pollFlight_of_none found]
    exact ⟨by rwa [List.append_nil], .refl _⟩
  | some flight =>
    have before : (aloft flights).Perm (flight.loads ++ aloft (flights.filter (·.id ≠ id))) :=
      (perm_others nodup found).flatMap_right Flight.loads
    have after : (aloft (pollFlight flights scene id).1).Perm
        ((flight.pollContained scene).1.toList.flatMap Flight.loads ++ aloft (flights.filter (·.id ≠ id))) := by
      have all := (perm_pollFlight nodup scene found).flatMap_right Flight.loads
      rwa [List.flatMap_append] at all
    obtain ⟨landed, follows⟩ := flight.pollContained_accounted (known flight (List.mem_of_find?_eq_some found))
      (accounted.perm before.symm)
    rw [pollFlight_scene found]
    exact ⟨landed.perm after, follows⟩

end Drive

/-! ### Taking batches -/

namespace Hub

variable {hub : Hub} {log : List Happening} {aloft : List Load}

theorem takeFlights_same (hub : Hub) :
    hub.takeFlights.2.woken = hub.woken ∧ hub.takeFlights.2.kept = hub.kept := by
  refine List.foldlRecOn hub.queues _ (motive := fun r : List Flight × Hub =>
    r.2.woken = hub.woken ∧ r.2.kept = hub.kept) ⟨rfl, rfl⟩ fun r same entry _ => ?_
  dsimp only
  split <;> exact same

/-- The loads that are taken, matcher by matcher. -/
theorem aloft_takeFlights (nodup : hub.names.Nodup) : Drive.aloft hub.takeFlights.1 =
    hub.names.flatMap fun name => (hub.coalescer name).queue.map (Load.mk name) := by
  have forgotten (first : Nat) (batches : List (String × List Nat)) :
      Drive.aloft (numbered first batches) = batches.flatMap fun (name, tickets) => tickets.map (Load.mk name) := by
    nth_rewrite 2 [← List.zipIdx_map_fst first batches]
    rw [Drive.aloft, numbered, List.flatMap_map, List.flatMap_map]
    rfl
  rw [(takeFlights_numbered nodup).1, forgotten]
  clear forgotten nodup
  unfold batches
  induction hub.names with
  | nil => rfl
  | cons name names ih =>
    rw [List.filterMap_cons, List.flatMap_cons, ← ih]
    by_cases nothing : (hub.coalescer name).pending = 0
    · have none_queued : (hub.coalescer name).queue = [] := by
        rw [← List.length_eq_zero_iff, Coalescer.length_queue]
        exact nothing
      rw [if_pos nothing, none_queued]
      rfl
    · rw [if_neg nothing]
      rfl

/-- What is taken is what was queued. -/
theorem mem_aloft_takeFlights_iff (nodup : hub.names.Nodup) (load : Load) :
    load ∈ Drive.aloft hub.takeFlights.1 ↔
      (hub.account load.matcher).taken ≤ load.ticket ∧ (hub.entryOf? load).isSome := by
  obtain ⟨matcher, ticket⟩ := load
  simp only [aloft_takeFlights nodup, List.mem_flatMap, List.mem_map, Load.mk.injEq, isSome_entryOf?_iff]
  constructor
  · rintro ⟨name, -, number, queued, rfl, rfl⟩
    refine ⟨?_, Coalescer.lt_of_mem_queue queued⟩
    rw [Coalescer.queue, List.mem_range'_1] at queued
    exact queued.1
  · rintro ⟨le, lt⟩
    have known : matcher ∈ hub.names := by
      by_contra absent
      rw [account_of_not_mem absent] at lt
      cases lt
    refine ⟨matcher, known, ticket, ?_, rfl, rfl⟩
    have length_eq : (hub.account matcher).accepted.length = (hub.coalescer matcher).entries.length := by
      simp [account, Coalescer.account]
    have le : (hub.coalescer matcher).taken ≤ ticket := le
    rw [Coalescer.queue, List.mem_range'_1]
    omega

theorem count_takeFlights (nodup : hub.names.Nodup) (load : Load) :
    (Drive.aloft hub.takeFlights.1).count load = hub.queuing load := by
  have once : (Drive.aloft hub.takeFlights.1).Nodup := by
    rw [aloft_takeFlights nodup, List.nodup_flatMap]
    refine ⟨fun name _ => ?_, nodup.imp fun {name other} differs load here there => ?_⟩
    · have injective : Function.Injective (Load.mk name) := fun a b same => (Load.mk.inj same).2
      exact List.Nodup.map injective List.nodup_range'
    · obtain ⟨_, -, rfl⟩ := List.mem_map.1 here
      obtain ⟨_, -, same⟩ := List.mem_map.1 there
      exact differs (Load.mk.inj same).1.symm
  rw [once.count, queuing]
  exact if_congr (mem_aloft_takeFlights_iff nodup load) rfl rfl

/-- A request that is taken keeps its entry: its state, its resolvers and those who wait for it. -/
theorem entryOf?_takeFlights (nodup : hub.names.Nodup) (load : Load) :
    hub.takeFlights.2.entryOf? load = hub.entryOf? load := by
  rw [entryOf?, (takeFlights_numbered nodup).2.coalescer]
  split
  · unfold Coalescer.drained
    split <;> rfl
  · rfl

/-- Taking batches hands resolvers to them, and nobody else has anything to do with it. -/
theorem Accounted.takeFlights (accounted : hub.Accounted log aloft) (nodup : hub.names.Nodup) :
    hub.takeFlights.2.Accounted log (aloft ++ Drive.aloft hub.takeFlights.1) ∧ hub.Follows hub.takeFlights.2 := by
  obtain ⟨-, drained⟩ := takeFlights_numbered nodup
  obtain ⟨woken, kept⟩ := hub.takeFlights_same
  have answering : hub.takeFlights.2.answering = hub.answering := by
    rw [Hub.answering, hub.takeFlights_spec.2]
    rfl
  have entries := entryOf?_takeFlights nodup
  have accepted (name : String) : (hub.takeFlights.2.account name).accepted = (hub.account name).accepted :=
    (drained.account name).1
  have taken (name : String) : (hub.takeFlights.2.account name).taken = (hub.account name).accepted.length := by
    have all := drained.isDrained accounted.within name
    rwa [accepted] at all
  have none_queued (load : Load) : hub.takeFlights.2.queuing load = 0 := by
    refine if_neg ?_
    rw [taken, entries, isSome_entryOf?_iff]
    omega
  refine ⟨⟨?_, fun name => ?_, fun load => ?_, fun load known => ?_⟩, .of_entries entries woken⟩
  · refine accounted.books.of_eq (fun load => by rw [resolvers, entries]; rfl)
      (fun load => by rw [state_eq, entries]; rfl) fun load => ?_
    rw [holders, holders, none_queued, kept, answering, List.count_append, count_takeFlights nodup]
    omega
  · exact Nat.le_of_eq (by rw [taken, accepted])
  · have placed := accounted.placed load
    have within := accounted.within load.matcher
    rw [List.count_append, count_takeFlights nodup, ← Nat.add_assoc, placed, taken]
    simp only [queuing, isSome_entryOf?_iff]
    split <;> split <;> split <;> omega
  · rw [kept, answering] at known
    rw [taken]
    exact Nat.lt_of_lt_of_le (accounted.boarded load known) (accounted.within load.matcher)

end Hub

end Segmentation
