import Segmentation.Proofs.Asking
import Segmentation.Proofs.Delivery
import Segmentation.Proofs.Settling

/-!
# What the leaves of batched matchers come to

An evaluation and its batches meet at a hub.  `Drive.FreeRun` is a run of both in which, besides, whoever kept a resolver
beyond the end of its batch answers with it, or gives it up, whenever he likes.  Each move keeps what there is to say
about the batches and the resolvers (`Drive.Manned`), and the evaluation is told of every request that is no longer
open (`Evaluation.Informed`).  So the leaf of a batched matcher has the first answer that its request was given; if the
batch failed before that it is false, and if nobody is left to answer the leaf fails (`Hub.fate`,
`Drive.FreeRun.leaves_fare`).
-/

namespace Segmentation

/-! ### Alarms that go off -/

/-- The answer that is given when an alarm goes off. -/
def Purpose.gives? : Purpose → Option Happening
  | .answer load value => some (.given load value)
  | _ => none

namespace Hub

variable {hub : Hub} {log : List Happening} {aloft : List Load}

theorem resolve_alarms (hub : Hub) (alarms : List Alarm) (load : Load) (value : Bool) :
    (({ hub with alarms } : Hub).resolve load value).2 = { (hub.resolve load value).2 with alarms } := by
  have same : ({ hub with alarms } : Hub).state load = hub.state load := rfl
  unfold resolve
  rw [same]
  split <;> rfl

theorem release_alarms (hub : Hub) (alarms : List Alarm) (load : Load) :
    ({ hub with alarms } : Hub).release load = { hub.release load with alarms } := by
  have same : ({ hub with alarms } : Hub).state load = hub.state load := rfl
  have after : (({ hub with alarms } : Hub).modifyCoalescer load.matcher (·.release load.ticket)).state load =
      (hub.modifyCoalescer load.matcher (·.release load.ticket)).state load := rfl
  unfold release
  dsimp only
  rw [same, after]
  split <;> rfl

/-- What an alarm does has nothing to do with the other alarms. -/
theorem goOff_alarms (hub : Hub) (alarms : List Alarm) (purpose : Purpose) :
    ({ hub with alarms } : Hub).goOff purpose = { hub.goOff purpose with alarms } := by
  cases purpose with
  | wake waiter => rfl
  | resumeBatch id => rfl
  | answer load value => rw [goOff, resolve_alarms, release_alarms, goOff]

theorem alarms_goOff (hub : Hub) (purpose : Purpose) : (hub.goOff purpose).alarms = hub.alarms := by
  cases purpose with
  | wake waiter => rfl
  | resumeBatch id => rfl
  | answer load value => rw [goOff, alarms_release, alarms_resolve]

/-- One of the alarms goes off. -/
theorem Accounted.goOff (accounted : hub.Accounted log aloft) {alarm : Alarm} {alarms : List Alarm}
    (set : hub.alarms.Perm (alarm :: alarms)) :
    (({ hub with alarms } : Hub).goOff alarm.purpose).Accounted (log ++ alarm.purpose.gives?.toList) aloft ∧
      hub.Follows (({ hub with alarms } : Hub).goOff alarm.purpose) := by
  have untold : hub.Follows { hub with alarms } := .of_entries (fun _ => rfl) rfl
  have answering : hub.answering.Perm ({ hub with alarms := alarm :: alarms } : Hub).answering := set.filterMap _
  obtain ⟨deadline, number, purpose⟩ := alarm
  cases purpose with
  | wake waiter =>
    have fewer : ({ hub with alarms } : Hub).Accounted log aloft := accounted.setAlarms answering.symm
    simp only [Purpose.gives?, Option.toList_none, List.append_nil]
    refine ⟨⟨⟨fewer.books.resolvers, fewer.books.state⟩, fewer.within, fewer.placed, fewer.boarded⟩, ?_⟩
    exact ⟨fun _ => rfl, fun _ _ _ => rfl, [waiter], rfl, fun load open_ closed => absurd open_ closed⟩
  | resumeBatch id =>
    simp only [Purpose.gives?, Option.toList_none, List.append_nil]
    exact ⟨accounted.setAlarms answering.symm, untold⟩
  | answer load value =>
    have held : hub.Held aloft load := .inr (.inr (answering.symm.subset List.mem_cons_self))
    have resolved := accounted.resolve held value
    have let_go : (({ (hub.resolve load value).2 with alarms } : Hub).release load).Accounted
        (log ++ [.given load value]) aloft := resolved.letGo rfl rfl ?_
    · rw [Hub.goOff, resolve_alarms]
      refine ⟨let_go, ?_⟩
      have answered := untold.trans (({ hub with alarms } : Hub).resolve_follows load value)
      rw [resolve_alarms] at answered
      exact answered.trans (Hub.release_follows _ load)
    · have before : (hub.resolve load value).2.answering = hub.answering := by
        rw [Hub.answering, alarms_resolve]
        rfl
      rw [before]
      exact List.perm_middle.symm.trans (answering.symm.append_left _)

theorem foldl_goOff_accounted (due rest : List Alarm) {hub : Hub} {log : List Happening}
    (accounted : hub.Accounted log aloft) (set : hub.alarms.Perm (due ++ rest)) :
    let later := due.foldl (fun hub alarm => hub.goOff alarm.purpose) ({ hub with alarms := rest } : Hub)
    later.Accounted (log ++ due.filterMap (·.purpose.gives?)) aloft ∧ hub.Follows later := by
  induction due generalizing hub log with
  | nil =>
    rw [List.filterMap_nil, List.append_nil]
    exact ⟨accounted.setAlarms (set.filterMap _).symm, .of_entries (fun _ => rfl) rfl⟩
  | cons alarm due ih =>
    obtain ⟨first, follows⟩ := accounted.goOff set
    have rest_set := List.Perm.of_eq (alarms_goOff ({ hub with alarms := due ++ rest } : Hub) alarm.purpose)
    obtain ⟨later, follows'⟩ := ih first rest_set
    have same : ({ ({ hub with alarms := due ++ rest } : Hub).goOff alarm.purpose with alarms := rest } : Hub) =
        ({ hub with alarms := rest } : Hub).goOff alarm.purpose := by
      rw [goOff_alarms hub (due ++ rest), goOff_alarms hub rest]
    have first_off := congrArg (due.foldl fun hub alarm => hub.goOff alarm.purpose) same
    have later := first_off ▸ later
    have follows' := first_off ▸ follows'
    have all : log ++ alarm.purpose.gives?.toList ++ due.filterMap (·.purpose.gives?) =
        log ++ (alarm :: due).filterMap (·.purpose.gives?) := by
      rw [List.append_assoc, List.filterMap_cons]
      cases alarm.purpose.gives? <;> rfl
    rw [all] at later
    exact ⟨later, follows.trans follows'⟩

/-- The alarms that are due go off. -/
theorem Accounted.advance (accounted : hub.Accounted log aloft) (now : Nat) :
    (hub.advance now).Accounted (log ++ hub.happensBy now) aloft ∧ hub.Follows (hub.advance now) := by
  have parted := List.filter_append_perm (fun alarm : Alarm => decide (alarm.deadline ≤ now)) hub.alarms
  have later : hub.alarms.filter (now < ·.deadline) =
      hub.alarms.filter fun alarm => !decide (alarm.deadline ≤ now) := by
    refine List.filter_congr fun alarm _ => ?_
    rw [← decide_not]
    exact decide_eq_decide.2 Nat.not_le.symm
  rw [← later] at parted
  exact foldl_goOff_accounted _ _ accounted parted.symm

end Hub

/-! ### Batches and their resolvers -/

/-- A move that concerns an evaluation only in what it is told of the requests that it waits for. -/
structure Hub.Proceeds (before later : Hub) : Prop where
  follows : before.Follows later
  accepted : ∀ name, (before.account name).accepted <+: (later.account name).accepted

namespace Hub.Proceeds

theorem of_ledger {before later : Hub} (same : later.ledger = before.ledger) (follows : before.Follows later) :
    before.Proceeds later :=
  ⟨follows, fun name => account_of_ledger same name ▸ List.prefix_rfl⟩

theorem refl (hub : Hub) : hub.Proceeds hub := .of_ledger rfl (.refl hub)

theorem trans {a b c : Hub} (ab : a.Proceeds b) (bc : b.Proceeds c) : a.Proceeds c :=
  ⟨ab.follows.trans bc.follows, fun name => (ab.accepted name).trans (bc.accepted name)⟩

end Hub.Proceeds

namespace Drive

/-- The batches in flight have numbers of their own, and the books of the hub are in order. -/
structure Manned (log : List Happening) (flights : List Flight) (hub : Hub) : Prop where
  names : hub.names.Nodup
  nodup : (ids flights).Nodup
  numbered : ∀ id ∈ ids flights, id < hub.nextFlight
  matchers : ∀ flight ∈ flights, flight.matcher ∈ hub.names
  accounted : hub.Accounted log (aloft flights)

namespace Manned

variable {log : List Happening} {flights : List Flight} {hub : Hub}

theorem start : Manned [] [] .empty where
  names := List.nodup_nil
  nodup := List.nodup_nil
  numbered := List.forall_mem_nil _
  matchers := List.forall_mem_nil _
  accounted :=
    { books := ⟨fun _ => rfl, fun _ => rfl⟩
      within := fun _ => Nat.le_refl _
      placed := fun load => (if_neg (Nat.not_lt_zero load.ticket)).symm
      boarded := fun load known => by simp [Hub.empty, Hub.answering, answers] at known }

/-- Nothing happened to the batches in flight. -/
theorem of_extends (manned : Manned log flights hub) {later : Hub} {log' : List Happening} (grown : hub.Extends later)
    (accounted : later.Accounted log' (aloft flights)) : Manned log' flights later where
  names := grown.nodup manned.names
  nodup := manned.nodup
  numbered id mem := grown.nextFlight ▸ manned.numbered id mem
  matchers flight mem := grown.names.subset (manned.matchers flight mem)
  accounted := accounted

theorem takeFlights (manned : Manned log flights hub) :
    Manned log (flights ++ hub.takeFlights.1) hub.takeFlights.2 ∧ hub.Proceeds hub.takeFlights.2 := by
  obtain ⟨drained, -, -, -, -, filled⟩ := taken_spec manned.names
  obtain ⟨accounted, follows⟩ := manned.accounted.takeFlights manned.names
  obtain ⟨nodup, numbered⟩ := ids_takeFlights manned.names manned.nodup manned.numbered
  have all_aloft : aloft (flights ++ hub.takeFlights.1) = aloft flights ++ aloft hub.takeFlights.1 :=
    List.flatMap_append
  refine ⟨⟨drained.names ▸ manned.names, nodup, numbered, List.forall_mem_append.2 ⟨fun flight old => ?_,
    fun flight young => (filled flight young).1⟩, all_aloft ▸ accounted⟩, follows,
    fun name => (drained.account name).1 ▸ List.prefix_rfl⟩
  exact drained.names ▸ manned.matchers flight old

theorem pollFlight {scene : Scene} (manned : Manned log flights scene.hub) (id : Nat) :
    Manned (log ++ turn flights scene id) (pollFlight flights scene id).1 (pollFlight flights scene id).2.hub ∧
      scene.hub.Proceeds (Drive.pollFlight flights scene id).2.hub := by
  obtain ⟨accounted, follows⟩ := pollFlight_accounted manned.nodup manned.matchers manned.accounted id
  have continues := pollFlight_continues flights scene id
  have in_flight := ids_pollFlight manned.nodup scene id
  have known : ∀ flight ∈ (Drive.pollFlight flights scene id).1, flight.matcher ∈ scene.hub.names :=
    forall_mem_pollFlight manned.matchers fun flight mem next polled => by
      rw [(flight.pollContained_asleep scene polled).2.1]
      exact manned.matchers flight mem
  refine ⟨⟨continues.extends_.nodup manned.names, ?_, fun other mem => ?_,
    fun flight mem => continues.extends_.names.subset (known flight mem), accounted⟩, follows,
    continues.extends_.accepted⟩
  · exact List.Nodup.sublist (List.sublist_append_right _ _) (in_flight.nodup_iff.2 manned.nodup)
  · rw [continues.extends_.nextFlight]
    exact manned.numbered other (in_flight.subset (List.mem_append_right _ mem))

theorem pollReady (ready : List Nat) (polled : Nat) (scene : Scene) (manned : Manned log flights scene.hub) :
    Manned (log ++ turns flights ready scene) (Drive.pollReady flights polled ready scene).1
        (Drive.pollReady flights polled ready scene).2.2.hub ∧
      scene.hub.Proceeds (Drive.pollReady flights polled ready scene).2.2.hub := by
  induction ready generalizing log flights polled scene with
  | nil => exact ⟨by rwa [turns, List.append_nil], .refl _⟩
  | cons id ready ih =>
    obtain ⟨first, proceeds⟩ := manned.pollFlight id
    obtain ⟨rest, proceeds'⟩ := ih
      (if (Drive.pollFlight flights scene id).1.length < flights.length then 0 else polled + 1) _ first
    rw [List.append_assoc] at rest
    exact ⟨rest, proceeds.trans proceeds'⟩

end Manned

end Drive

/-! ### The evaluation among them -/

/-- An evaluation that has not been polled since it was started, or is sound.  All its invocations ask as they should,
and it is going to be told of every request that is no longer open. -/
structure Evaluation.Informed (scope : Scope) (expr : Expr) (begun : Journal) (evaluation : Evaluation) (hub : Hub) :
    Prop where
  scope_eq : evaluation.session.scope = scope
  keys : evaluation.session.keys.Nodup
  leaves : ∀ d ∈ evaluation.session.definitions, d ∈ expr.leaves
  keyed : ∀ d ∈ expr.leaves, d.key ∈ evaluation.session.keys
  asks : evaluation.session.Asks hub
  seen : evaluation.seen ≤ hub.woken.length
  told : ∀ index, evaluation.session.Stale hub index → [index] ∈ hub.woken.drop evaluation.seen
  stands : evaluation = (Evaluation.start (.start scope) expr ⟨.empty, begun⟩).1 ∨ Evaluation.Sound expr evaluation

namespace Evaluation.Informed

variable {scope : Scope} {expr : Expr} {begun : Journal} {evaluation : Evaluation} {hub : Hub}

theorem start (scope : Scope) (expr : Expr) (begun : Journal) :
    Informed scope expr begun (Evaluation.start (.start scope) expr ⟨.empty, begun⟩).1 .empty := by
  have unbegun := Session.Unbegun.of_start scope expr begun
  obtain ⟨-, keyed, -⟩ := Session.launch_spec expr (.start scope) begun
  have fresh {index : Nat} {i : Invocation}
      (here : ((Session.start scope).launch expr begun).2.1.invocations[index]? = some i) : i.stage = .fresh :=
    (unbegun.fresh i (List.mem_of_getElem? here)).1
  refine ⟨unbegun.scope_eq, unbegun.nodup, fun d mem => ?_, keyed, fun index i here => ?_, Nat.le_refl _,
    fun index stale => ?_, .inl rfl⟩
  · obtain ⟨i, listed, rfl⟩ := List.mem_map.1 mem
    exact (unbegun.fresh i listed).2
  · rw [fresh here]
    exact fun load mem => nomatch mem
  · obtain ⟨i, span, load, here, waits, -⟩ := stale
    rw [fresh here] at waits
    cases waits

/-- Whatever else happens, the evaluation is going to be told of it. -/
theorem proceeds (informed : Informed scope expr begun evaluation hub) {later : Hub} (moved : hub.Proceeds later) :
    Informed scope expr begun evaluation later := by
  obtain ⟨more, woken, told⟩ := moved.follows.woken
  have news : later.woken.drop evaluation.seen = hub.woken.drop evaluation.seen ++ more := by
    rw [woken, List.drop_append_of_le_length informed.seen]
  refine ⟨informed.scope_eq, informed.keys, informed.leaves, informed.keyed, fun index i here => ?_, ?_,
    fun index stale => ?_, informed.stands⟩
  · exact (informed.asks index i here).mono moved.accepted (fun load => by rw [moved.follows.waiters])
      fun load waits closed => moved.follows.stays load (List.ne_nil_of_mem waits) closed
  · rw [woken, List.length_append]
    exact Nat.le_add_right_of_le informed.seen
  · obtain ⟨i, span, load, here, waits, closed⟩ := stale
    rw [news]
    by_cases open_ : hub.state load = .waiting
    · have asks := informed.asks index i here
      rw [waits] at asks
      exact List.mem_append_right _ (told load open_ closed [index] ((asks.1 load).2 rfl))
    · exact List.mem_append_left _ (informed.told index ⟨i, span, load, here, waits, open_⟩)

/-- A leaf that waits for a request that is no longer open waits for its outcome. -/
theorem awaits_of_stale (informed : Informed scope expr begun evaluation hub) {index : Nat}
    (stale : evaluation.session.Stale hub index) :
    Evaluation.Sound expr evaluation ∧ index ∈ evaluation.progress.leaves := by
  obtain ⟨i, span, load, here, waits, -⟩ := stale
  rcases informed.stands with rfl | sound
  · -- before the first poll no invocation has begun
    have unbegun := Session.Unbegun.of_start scope expr begun
    rw [(unbegun.fresh i (List.mem_of_getElem? here)).1] at waits
    cases waits
  · have known : i.definition ∈ expr.leaves :=
      informed.leaves _ (List.mem_map_of_mem (List.mem_of_getElem? here))
    have unset : evaluation.session.outcome? index = none := by
      rw [Session.outcome?_eq, here, Option.bind_some, waits]
    have own := Session.idxOf_key informed.keys here
    refine ⟨sound, ?_⟩
    have waiting := sound.stands.waits _ i.definition known (by rwa [own])
    rwa [own] at waiting

/-- A poll keeps the books, and after it no invocation waits for a request that is no longer open. -/
theorem poll (informed : Informed scope expr begun evaluation hub) (batching : scope.batching = true)
    {log : List Happening} {aloft : List Load} (accounted : hub.Accounted log aloft) (journal : Journal) :
    let r := evaluation.poll ⟨hub, journal⟩
    r.2.hub.Accounted log aloft ∧ hub.Minds r.2.hub ∧ Informed scope expr begun r.1 r.2.hub ∧
      r.1.session.definitions = evaluation.session.definitions ∧ ∀ index, ¬ r.1.session.Stale r.2.hub index := by
  intro r
  let news := evaluation.news hub
  have batching : evaluation.session.scope.batching = true := by rwa [informed.scope_eq]
  have accounted : (Scene.mk hub journal).hub.Accounted log aloft := accounted
  have attends := Session.advanceAll_attends (evaluation.progress.wakeAll news).due batching accounted informed.asks
  have same_keys : r.1.session.keys = evaluation.session.keys := Session.keys_advanceAll _ _ _
  have up_to_date (index : Nat) : ¬ r.1.session.Stale r.2.hub index := by
    intro stale
    obtain ⟨not_due, before⟩ := attends.stale index stale
    obtain ⟨sound, leaf⟩ := informed.awaits_of_stale before
    have told : index ∈ news := List.mem_flatten.2 ⟨[index], informed.told index before, List.mem_singleton_self index⟩
    have woken := sound.waits.wakeAll news
    rw [List.nil_append] at woken
    exact not_due (woken.mem_due _ index told (by rwa [Progress.leaves_wakeAll]))
  refine ⟨attends.accounted, attends.minds, ⟨attends.scope_eq.trans informed.scope_eq, same_keys ▸ informed.keys, ?_,
    same_keys ▸ informed.keyed, attends.asks, Nat.le_of_eq (congrArg List.length attends.woken.symm),
    fun index stale => absurd stale (up_to_date index), .inr ?_⟩, attends.definitions_eq, up_to_date⟩
  · exact fun d mem => informed.leaves d (attends.definitions_eq ▸ mem)
  · rcases informed.stands with rfl | sound
    · exact Evaluation.sound_first _ _ _ _
    · exact sound.poll _

/-- The invocation of a batched matcher that is up to date has made no request, or its outcome is what its request has
come to. -/
theorem outcome (informed : Informed scope expr begun evaluation hub) {index : Nat} {i : Invocation}
    (here : evaluation.session.invocations[index]? = some i) (batched : i.definition.matcher.isBatched = true)
    (up_to_date : ¬ evaluation.session.Stale hub index) :
    (hub.Silent index ∧ (evaluation.session.outcome? index = none ∨ i.definition.admitted = none ∧ ∃ message,
      evaluation.session.outcome? index = some (.error (scope.argumentError i.definition.name message)))) ∨
    ∃ load, hub.Asked index load ∧ i.definition.Requests hub load ∧
      evaluation.session.outcome? index = (hub.state load).outcome? i.definition.name scope.segment := by
  have asks := informed.asks index i here
  have outcome_eq := evaluation.session.outcome?_eq index
  rw [here, Option.bind_some] at outcome_eq
  rw [informed.scope_eq] at asks
  cases stage : i.stage with
  | fresh =>
    rw [stage] at asks outcome_eq
    exact .inl ⟨asks, .inl outcome_eq⟩
  | validating span deadline rest =>
    rw [stage] at asks outcome_eq
    exact .inl ⟨asks.1, .inl outcome_eq⟩
  | evaluating span args deadline rest =>
    rw [stage] at asks
    have single : i.definition.matcher.isBatched = false := asks
    rw [single] at batched
    cases batched
  | awaiting span load =>
    have open_ : hub.state load = .waiting := by
      by_contra closed
      exact up_to_date ⟨i, span, load, here, stage, closed⟩
    rw [stage] at asks outcome_eq
    refine .inr ⟨load, asks.1, asks.2, ?_⟩
    rw [outcome_eq, open_]
    rfl
  | settled o =>
    rw [stage] at asks outcome_eq
    rcases asks with single | ⟨silent, refused, message, error⟩ | ⟨load, asked, requests, became⟩
    · rw [single] at batched
      cases batched
    · exact .inl ⟨silent, .inr ⟨refused, message, by rw [outcome_eq, error]⟩⟩
    · exact .inr ⟨load, asked, requests, by rw [outcome_eq, became]⟩

end Evaluation.Informed

/-! ### What becomes of a request -/

/-- What becomes of a request, by what has happened: it has the first answer that it was given; without one it is lost
when its batch has landed and nobody has kept a resolver. -/
def Hub.fate (hub : Hub) (log : List Happening) (load : Load) : TicketState :=
  match answers log load with
  | some value => .answered value
  | none => if load ∈ landedLoads log ∧ load ∉ hub.kept ∧ load ∉ hub.answering then .lost else .waiting

/-- A batch that fails answers with false what has no answer by then; no later answer counts. -/
theorem answers_of_failed (before : List Happening) (flight : Nat) {loads : List Load} {load : Load} (mem : load ∈ loads)
    (after : List Happening) :
    answers (before ++ .landed flight loads true :: after) load = some ((answers before load).getD false) := by
  rw [answers_append, answers, answers, List.findSome?_cons, Happening.answer?, if_pos mem]
  cases List.findSome? (·.answer? load) before <;> rfl

/-- A hub whose books are in order knows what becomes of every request. -/
theorem Hub.Accounted.state_eq_fate {hub : Hub} {log : List Happening} {aloft : List Load}
    (accounted : hub.Accounted log aloft) {load : Load}
    (loaded : load.ticket < (hub.account load.matcher).accepted.length) : hub.state load = hub.fate log load := by
  rw [accounted.books.state load, fate]
  cases answers log load with
  | some value => rfl
  | none =>
    have placed := accounted.placed load
    have there : (hub.entryOf? load).isSome := (hub.isSome_entryOf?_iff load).2 loaded
    have nobody : hub.holders aloft load = 0 ↔ load ∈ landedLoads log ∧ load ∉ hub.kept ∧ load ∉ hub.answering := by
      rw [← List.count_pos_iff, ← List.count_eq_zero, ← List.count_eq_zero (a := load) (l := hub.answering), holders,
        queuing]
      simp only [there, and_true]
      split at placed <;> split <;> omega
    exact if_congr nobody rfl rfl

/-! ### Runs -/

namespace Drive

variable {κ : Type} [Client κ]

/-- Runs of a drive in which, between its moves, those who kept resolvers answer with them and give them up. -/
inductive FreeRun (client : κ) (first : Hub) : List Happening → Drive κ → Hub → Prop
  | start : FreeRun client first [] (.start client) first
  | pass {log : List Happening} {drive : Drive κ} {hub : Hub} (run : FreeRun client first log drive hub)
    (journal : Journal) : FreeRun client first (log ++ drive.happens ⟨hub, journal⟩) (drive.pass ⟨hub, journal⟩).1
      (drive.pass ⟨hub, journal⟩).2.hub
  | advance {log : List Happening} {drive : Drive κ} {hub : Hub} (run : FreeRun client first log drive hub) (now : Nat) :
    FreeRun client first (log ++ hub.happensBy now) (drive.advance hub now).1 (drive.advance hub now).2
  | answer {log : List Happening} {drive : Drive κ} {hub : Hub} (run : FreeRun client first log drive hub) {load : Load}
    (kept : load ∈ hub.kept) (value : Bool) :
    FreeRun client first (log ++ [.given load value]) drive (hub.resolve load value).2
  | letGo {log : List Happening} {drive : Drive κ} {hub : Hub} (run : FreeRun client first log drive hub) {load : Load}
    (kept : load ∈ hub.kept) :
    FreeRun client first log drive (({ hub with kept := hub.kept.erase load } : Hub).release load)

/-- A drive that is left alone with its batches makes such a run. -/
theorem Run.free {client : κ} {first : Hub} {log : List Happening} {drive : Drive κ} {hub : Hub}
    (run : Run client first log drive hub) : FreeRun client first log drive hub := by
  induction run with
  | start => exact .start
  | pass run journal ih => exact ih.pass journal
  | advance run now ih => exact ih.advance now

omit [Client κ] in
/-- A drive does with its alarms what a hub does. -/
theorem hub_advance (drive : Drive κ) (hub : Hub) (now : Nat) : (drive.advance hub now).2 = hub.advance now := by
  unfold advance Hub.advance
  refine (List.foldl_hom Prod.snd fun r alarm => ?_).symm
  obtain ⟨drive, hub⟩ := r
  obtain ⟨deadline, number, purpose⟩ := alarm
  cases purpose with
  | resumeBatch id => rfl
  | wake waiter => rfl
  | answer load value => rfl

omit [Client κ] in
/-- Those batches can go on whose alarms went off, or who could before. -/
theorem mem_ready_advance (drive : Drive κ) (hub : Hub) (t id : Nat) : id ∈ (drive.advance hub t).1.ready ↔
    id ∈ drive.ready ∨ ∃ alarm ∈ hub.alarms, alarm.deadline ≤ t ∧ alarm.purpose = .resumeBatch id := by
  have go {step : Drive κ × Hub → Alarm → Drive κ × Hub}
      (one : ∀ r alarm, id ∈ (step r alarm).1.ready ↔ id ∈ r.1.ready ∨ alarm.purpose = .resumeBatch id)
      (due : List Alarm) (r : Drive κ × Hub) :
      id ∈ (due.foldl step r).1.ready ↔ id ∈ r.1.ready ∨ ∃ alarm ∈ due, alarm.purpose = .resumeBatch id := by
    induction due generalizing r with
    | nil => simp
    | cons alarm due ih =>
      rw [List.foldl_cons, ih, one]
      simp only [List.mem_cons, exists_eq_or_imp, or_assoc]
  unfold advance
  refine (go (fun r alarm => ?_) (hub.takeDue t).1 (drive, (hub.takeDue t).2)).trans
    (or_congr_right (exists_congr fun alarm => ?_))
  · cases purpose : alarm.purpose with
    | resumeBatch other => simp only [List.mem_append, List.mem_singleton, Purpose.resumeBatch.injEq, eq_comm]
    | wake waiter => simp
    | answer load value => simp
  · simp only [Hub.takeDue, List.mem_filter, decide_eq_true_eq, and_assoc]

/-- A pass keeps the books.  Its poll lets all waiters wait, and what follows is not the business of the client. -/
theorem pass_keeps {scope : Scope} (batching : scope.batching = true) {expr : Expr} {begun : Journal}
    {log : List Happening} {drive : Drive Evaluation} {hub : Hub} (manned : Manned log drive.flights hub)
    (informed : drive.client.Informed scope expr begun hub) (journal : Journal) :
    let polled := drive.pollClient ⟨hub, journal⟩
    let passed := drive.pass ⟨hub, journal⟩
    polled.2.hub.Accounted log (aloft drive.flights) ∧ hub.Minds polled.2.hub ∧
      polled.1.client.session.definitions = drive.client.session.definitions ∧
      polled.1.client.Informed scope expr begun polled.2.hub ∧ polled.2.hub.Proceeds passed.2.hub ∧
      Manned (log ++ drive.happens ⟨hub, journal⟩) passed.1.flights passed.2.hub := by
  intro polled passed
  obtain ⟨flights, -, grown, -⟩ := drive.pollClient_spec ⟨hub, journal⟩
  obtain ⟨accounted, minds, same, told⟩ : polled.2.hub.Accounted log (aloft drive.flights) ∧ hub.Minds polled.2.hub ∧
      polled.1.client.session.definitions = drive.client.session.definitions ∧
      polled.1.client.Informed scope expr begun polled.2.hub := by
    unfold polled pollClient
    split
    · exact ⟨manned.accounted, .refl hub, rfl, informed⟩
    · obtain ⟨accounted, minds, informed, same, -⟩ := informed.poll batching manned.accounted journal
      exact ⟨accounted, minds, same, informed⟩
  obtain ⟨taken, takes⟩ := (manned.of_extends grown accounted).takeFlights
  let batches := polled.1.takeBatches polled.2
  obtain ⟨landed, goes_on⟩ := taken.pollReady batches.1.ready 0 batches.2
  rw [← flights] at landed goes_on
  exact ⟨accounted, minds, same, told, takes.trans goes_on, landed⟩

/-- What every move keeps. -/
theorem FreeRun.keeps {scope : Scope} (batching : scope.batching = true) {expr : Expr} {begun : Journal}
    {log : List Happening} {drive : Drive Evaluation} {hub : Hub}
    (run : FreeRun (Evaluation.start (.start scope) expr ⟨.empty, begun⟩).1 .empty log drive hub) :
    Manned log drive.flights hub ∧ drive.client.Informed scope expr begun hub := by
  induction run with
  | start => exact ⟨.start, .start scope expr begun⟩
  | @pass log drive hub run journal ih =>
    obtain ⟨manned, informed⟩ := ih
    obtain ⟨-, -, -, told, proceeds, landed⟩ := pass_keeps batching manned informed journal
    exact ⟨landed, told.proceeds proceeds⟩
  | @advance log drive hub run now ih =>
    obtain ⟨manned, informed⟩ := ih
    obtain ⟨flights, ledger⟩ := drive.advance_spec hub now
    obtain ⟨accounted, follows⟩ := manned.accounted.advance now
    rw [← drive.hub_advance hub now] at accounted follows
    rw [flights, Evaluation.client_advance]
    exact ⟨manned.of_extends (.of_ledger ledger) accounted, informed.proceeds (.of_ledger ledger follows)⟩
  | @answer log drive hub run load kept value ih =>
    obtain ⟨manned, informed⟩ := ih
    have ledger := hub.ledger_resolve load value
    exact ⟨manned.of_extends (.of_ledger ledger) (manned.accounted.resolve (.inr (.inl kept)) value),
      informed.proceeds (.of_ledger ledger (hub.resolve_follows load value))⟩
  | @letGo log drive hub run load kept ih =>
    obtain ⟨manned, informed⟩ := ih
    let fewer : Hub := { hub with kept := hub.kept.erase load }
    have ledger : (fewer.release load).ledger = hub.ledger := Hub.ledger_release fewer load
    have one_less : (load :: (fewer.kept ++ fewer.answering)).Perm (hub.kept ++ hub.answering) :=
      (List.perm_cons_erase kept).symm.append_right hub.answering
    have untold : hub.Follows fewer := .of_entries (fun _ => rfl) rfl
    have follows := untold.trans (fewer.release_follows load)
    exact ⟨manned.of_extends (.of_ledger ledger) (manned.accounted.letGo rfl rfl one_less),
      informed.proceeds (.of_ledger ledger follows)⟩

end Drive

/-- How the invocation of a batched matcher fares.  Either it has made no request, because its argument is being
validated or was refused.  Or it has made one, and its outcome is what has become of that; if the evaluation has not
taken it up yet, it is awake and does so at its next poll. -/
inductive Evaluation.Fares (scope : Scope) (log : List Happening) (evaluation : Evaluation) (hub : Hub) (index : Nat)
    (definition : Definition) : Prop
  | unasked (silent : hub.Silent index) (outcome : evaluation.session.outcome? index = none ∨
      definition.admitted = none ∧ ∃ message,
        evaluation.session.outcome? index = some (.error (scope.argumentError definition.name message)))
  | asked (load : Load) (asked : hub.Asked index load) (requests : definition.Requests hub load)
      (outcome : evaluation.session.outcome? index = (hub.fate log load).outcome? definition.name scope.segment ∨
        evaluation.session.outcome? index = none ∧ Client.settled evaluation = false ∧
          Client.stirred evaluation hub = true ∧
          ∀ journal, (evaluation.poll ⟨hub, journal⟩).1.session.outcome? index =
            (hub.fate log load).outcome? definition.name scope.segment)

/-- An evaluation that is told of an invocation for which a leaf waits is awake. -/
theorem Evaluation.awake_of_told {evaluation : Evaluation} {hub : Hub} {index : Nat}
    (told : [index] ∈ hub.woken.drop evaluation.seen) (leaf : index ∈ evaluation.progress.leaves) :
    Client.settled evaluation = false ∧ Client.stirred evaluation hub = true := by
  constructor
  · by_contra settled
    have settled : Client.settled evaluation = true := by simpa using settled
    rw [Progress.leaves_settled settled] at leaf
    cases leaf
  · exact List.any_eq_true.2 ⟨index, List.mem_flatten.2 ⟨[index], told, List.mem_singleton_self index⟩,
      (Progress.isSome_seat? index _).2 leaf⟩

/-- While an evaluation sleeps it is not told of anybody for whom a leaf waits. -/
theorem Evaluation.not_told {evaluation : Evaluation} {hub : Hub}
    (asleep : Client.settled evaluation = true ∨ Client.stirred evaluation hub = false) {index : Nat}
    (leaf : index ∈ evaluation.progress.leaves) : [index] ∉ hub.woken.drop evaluation.seen := by
  intro told
  obtain ⟨unsettled, stirred⟩ := awake_of_told told leaf
  rw [unsettled, stirred] at asleep
  cases asleep <;> contradiction

/-- As long as the evaluation and the hub are kept up to date, every invocation of a batched matcher fares well. -/
theorem Evaluation.Informed.fares {scope : Scope} {expr : Expr} {begun : Journal} {evaluation : Evaluation} {hub : Hub}
    (informed : Informed scope expr begun evaluation hub) (batching : scope.batching = true) {log : List Happening}
    {aloft : List Load} (accounted : hub.Accounted log aloft) {index : Nat} {i : Invocation}
    (here : evaluation.session.invocations[index]? = some i) (batched : i.definition.matcher.isBatched = true) :
    evaluation.Fares scope log hub index i.definition := by
  have fate {load : Load} (requests : i.definition.Requests hub load) : hub.state load = hub.fate log load := by
    obtain ⟨-, args, request, -, found⟩ := requests
    exact accounted.state_eq_fate (List.getElem?_eq_some_iff.1 found).1
  by_cases stale : evaluation.session.Stale hub index
  · obtain ⟨sound, leaf⟩ := informed.awaits_of_stale stale
    have is_told := informed.told index stale
    have told : index ∈ evaluation.news hub := List.mem_flatten.2 ⟨[index], is_told, List.mem_singleton_self index⟩
    obtain ⟨k, span, load, found, waits, closed⟩ := stale
    obtain rfl := Option.some.inj (here.symm.trans found)
    have asks := informed.asks index i here
    rw [waits] at asks
    obtain ⟨asked, requests⟩ := asks
    obtain ⟨unsettled, stirred⟩ := awake_of_told is_told leaf
    refine .asked load asked requests (.inr ⟨?_, unsettled, stirred, fun journal => ?_⟩)
    · rw [Session.outcome?_eq, here, Option.bind_some, waits]
    · -- what the invocation has after the poll is what its request has come to
      obtain ⟨-, minds, later, same_definitions, up_to_date⟩ := informed.poll batching accounted journal
      have definition_eq := congrArg (·[index]?) same_definitions
      simp only [Session.definitions, List.getElem?_map, here, Option.map_some] at definition_eq
      obtain ⟨j, there, same⟩ := Option.map_eq_some_iff.1 definition_eq
      have still : [index] ∈ (evaluation.poll ⟨hub, journal⟩).2.hub.waiters load :=
        minds.grows load ((asked load).2 rfl)
      rcases later.outcome there (same ▸ batched) (up_to_date index) with ⟨silent, -⟩ | ⟨other, waits_for, -, became⟩
      · exact absurd still (silent load)
      · obtain rfl := (waits_for load).1 still
        rw [became, minds.stays load (List.ne_nil_of_mem ((asked load).2 rfl)) closed, same, fate requests]
  · rcases informed.outcome here batched stale with ⟨silent, outcome⟩ | ⟨load, asked, requests, became⟩
    · exact .unasked silent outcome
    · exact .asked load asked requests (.inl (by rw [became, fate requests]))

namespace Drive

/-- Whatever batched evaluators do with the resolvers of their entries, every leaf has an invocation whose outcome it
shares, and every invocation of a batched matcher fares well. -/
theorem FreeRun.leaves_fare {scope : Scope} (batching : scope.batching = true) {expr : Expr} {begun : Journal}
    {log : List Happening} {drive : Drive Evaluation} {hub : Hub}
    (run : FreeRun (Evaluation.start (.start scope) expr ⟨.empty, begun⟩).1 .empty log drive hub) :
    (∀ d ∈ expr.leaves, ∃ (index : Nat) (i : Invocation), drive.client.session.invocations[index]? = some i ∧
      i.definition.key = d.key ∧
      drive.client.session.outcomeFor d = drive.client.session.outcome? index) ∧
    ∀ (index : Nat) (i : Invocation), drive.client.session.invocations[index]? = some i →
      i.definition ∈ expr.leaves ∧
      (i.definition.matcher.isBatched = true → drive.client.Fares scope log hub index i.definition) := by
  obtain ⟨manned, informed⟩ := run.keeps batching
  refine ⟨fun d mem => ?_, fun index i here => ⟨?_, informed.fares batching manned.accounted here⟩⟩
  · obtain ⟨i, listed, same⟩ := List.mem_map.1 (informed.keyed d mem)
    obtain ⟨index, here⟩ := List.mem_iff_getElem?.1 listed
    refine ⟨index, i, here, same, ?_⟩
    have shared : drive.client.session.outcomeFor d = drive.client.session.outcomeFor i.definition := by
      rw [Session.outcomeFor, Session.outcomeFor, same]
    rw [shared, Session.outcomeFor_of_getElem? informed.keys here]
  · exact informed.leaves _ (List.mem_map_of_mem (List.mem_of_getElem? here))

/-- A batched evaluator that says yes to its first entry, then no, keeps a resolver of its second entry, and fails. -/
def failsHalfway : BatchEvaluator := fun _ _ =>
  .starts (.resolve 0 true (.resolve 0 false (.keep 1 (.done (.failed ⟨"no connection", []⟩)))))

/-- Three requests to one matcher, of which two are to be denied. -/
def threeRequests : Expr :=
  let asks (args : Json) : Expr := .leaf ⟨"status", some args, ⟨none, .batch failsHalfway⟩, 0⟩
  .and [asks .null, .not (asks (.bool true)), .not (asks (.bool false))]

/-- The first answer of the first entry counts; the others are false when the batch fails, and what is answered later
changes nothing. -/
theorem failing_batch_fares :
    let scope : Scope := ⟨.null, "premium", true, 0, none⟩
    ∃ log drive hub,
      FreeRun (Evaluation.start (.start scope) threeRequests ⟨.empty, .empty⟩).1 .empty log drive hub ∧
      drive.client.outcome?.map Except.toOption = some (some true) ∧
      [0, 1, 2].map (fun index => (drive.client.session.outcome? index).map Except.toOption) =
        [some (some true), some (some false), some (some false)] ∧
      ∀ (index : Nat) (i : Invocation), drive.client.session.invocations[index]? = some i →
        i.definition.matcher.isBatched = true → drive.client.Fares scope log hub index i.definition := by
  intro scope
  let evaluation := (Evaluation.start (.start scope) threeRequests ⟨.empty, .empty⟩).1
  have launched : FreeRun evaluation .empty [] (.start evaluation) .empty := .start
  have first := launched.pass .empty
  have answered := first.answer (by decide : (⟨"status", 1⟩ : Load) ∈ _) true
  have run := (answered.letGo (by decide : (⟨"status", 1⟩ : Load) ∈ _)).pass .empty
  exact ⟨_, _, _, run, by decide +kernel, by decide +kernel, fun index i here => ((run.leaves_fare rfl).2 index i here).2⟩

end Drive

end Segmentation
