import Segmentation.Proofs.Leases
import Segmentation.Proofs.Noninterference
import Segmentation.Proofs.Rendering
import Segmentation.Proofs.SpanReports

/-!
# Two tracers tell one story

Calls that run at once return their contexts before their spans end, and end all their spans (`Call.Tidy`), so all that
is written of spans is allowed (`Tidied.allows`).  Hence an engine with the built-in tracer tells a subscriber what an
engine with a custom tracer tells that tracer, translated call by call; every span of the subscriber's closes once, when
it ends, and no handle of it is left (`Service.tracers_tell_one_story`).
-/

namespace Segmentation

open SpanEvent (Orderly Takes starts takens named trail heard isOver hasEnded taken released lessorIn lease Lends)

/-! ### What is said of one context -/

namespace SpanEvent

/-- What is said of a context, and of the end of the span from which it was taken. -/
def account (span context : Nat) (events : List SpanEvent) : List SpanEvent :=
  events.filter (· ∈ [.contextTaken span, .contextReleased context, .ended span])

@[simp] theorem account_append (span context : Nat) (events more : List SpanEvent) :
    account span context (events ++ more) = account span context events ++ account span context more :=
  List.filter_append _ _

theorem mem_account {span context : Nat} {events : List SpanEvent} {event : SpanEvent} :
    event ∈ account span context events ↔
      event ∈ events ∧ event ∈ [.contextTaken span, .contextReleased context, .ended span] := by
  rw [account, List.mem_filter, decide_eq_true_eq]

/-- A log that says nothing else of contexts. -/
theorem account_of_lease {span context : Nat} {log : List SpanEvent}
    (lease_eq : lease span log = [.contextTaken span, .contextReleased context, .ended span]) :
    account span context log = [.contextTaken span, .contextReleased context, .ended span] := by
  have all : (lease span log).filter (· ∈ [.contextTaken span, .contextReleased context, .ended span]) =
      account span context log := by
    rw [lease, List.filter_filter, account]
    refine List.filter_congr fun event _ => ?_
    cases event <;> simp [isLease]
  rw [← all, lease_eq]
  simp

/-- What was said before one of these. -/
theorem account_before {span context : Nat} {before rest said more : List SpanEvent} {event : SpanEvent}
    (account_eq : account span context (before ++ event :: rest) = said ++ event :: more) (absent : event ∉ said)
    (absent' : event ∉ more) : account span context before = said ∧ account span context rest = more := by
  have own : event ∈ [.contextTaken span, .contextReleased context, .ended span] := by
    have listed : event ∈ account span context (before ++ event :: rest) := by
      rw [account_eq]
      exact List.mem_append_right _ List.mem_cons_self
    exact (mem_account.1 listed).2
  have cons_eq : account span context (event :: rest) = event :: account span context rest :=
    List.filter_cons_of_pos (decide_eq_true own)
  rw [account_append, cons_eq] at account_eq
  obtain ⟨one, -, two⟩ := (List.append_cons_inj_of_notMem absent absent').1 account_eq.symm
  exact ⟨one.symm, two.symm⟩

/-- A span of which the end was not said has not ended. -/
theorem hasEnded_of_account {span context : Nat} {events said : List SpanEvent}
    (account_eq : account span context events = said) (unsaid : .ended span ∉ said) : hasEnded span events = false := by
  refine Bool.eq_false_iff.2 fun is => unsaid ?_
  rw [← account_eq]
  exact mem_account.2 ⟨(hasEnded_iff span events).1 is, by simp⟩

/-- How often a context was taken from a span. -/
theorem taken_eq_count (span : Nat) (events : List SpanEvent) :
    taken span events = events.count (.contextTaken span) := by
  induction events with
  | nil => rfl
  | cons event events ih =>
    have cons_eq : taken span (event :: events) = taken span [event] + taken span events :=
      taken_append span [event] events
    rw [cons_eq, ih, List.count_cons, Nat.add_comm]
    refine congrArg _ ?_
    cases event with
    | contextTaken other => simp [taken, takens, taken?, List.count_singleton]
    | _ => rfl

theorem count_account {span context : Nat} (events : List SpanEvent) {event : SpanEvent}
    (own : event ∈ [.contextTaken span, .contextReleased context, .ended span]) :
    (account span context events).count event = events.count event :=
  List.count_filter (decide_eq_true own)

end SpanEvent

open SpanEvent (account)

/-! ### What calls have said in the end -/

/-- The log of a call that has begun and is over or was dropped: it took one context, returned it, and ended all
spans. -/
structure Call.Tidy (first : Nat) (all log : List SpanEvent) (root context : Nat) : Prop where
  lends : Lends all log root context [.contextTaken root, .contextReleased context, .ended root]
  acts : ∀ event ∈ log, ∀ span, event.acts? = some span → span ∈ named log
  ends : ∀ span ∈ named log, .ended span ∈ log
  since : ∀ span ∈ named log, first ≤ span
  parents : ∀ span ∈ named log, ∃ name parent, (starts all)[span]? = some (0, name, parent) ∧
    ∀ ref, parent = some ref → ∃ context root, ref = .taken context ∧ Takes all root context ∧ first ≤ root

namespace Call.Tells

variable {segments : Keyed SegmentDefinition} {matchers : String → Option Matcher} {first : Nat} {call : Call}
  {all : List SpanEvent} {log : List Event} {sheet : CallSheet}
  (tells : Tells segments matchers first call all log sheet)

include tells

/-- A call has named the span of its segment and those of its invocations. -/
theorem named_cases {span : Nat} (mem : span ∈ named (spanEvents log)) :
    span = sheet.span ∨ ∃ m ∈ sheet.matchers, span = m.span := by
  rcases List.mem_cons.1 (tells.holds.rooted.perm.mem_iff.1 mem) with own | mem
  · exact .inl own
  · obtain ⟨m, listed, rfl⟩ := List.mem_map.1 mem
    exact .inr ⟨m, listed, rfl⟩

/-- All these spans have ended. -/
theorem ended {span : Nat} (mem : span ∈ named (spanEvents log)) : .ended span ∈ spanEvents log := by
  obtain ⟨rooted, sheets⟩ := tells.holds
  have of_trail {told : List SpanEvent} (trail_eq : trail span (spanEvents log) = told) (mem : .ended span ∈ told) :
      .ended span ∈ spanEvents log := List.mem_of_mem_filter (trail_eq.symm ▸ mem)
  rcases tells.named_cases mem with rfl | ⟨m, listed, rfl⟩
  · refine of_trail rooted.told (List.mem_cons_of_mem _ ?_)
    cases answer : call.answer? with
    | some value =>
      obtain ⟨outcome, -, -, -, tale_eq⟩ := tells.answered value answer
      rw [tale_eq]
      simp [answerEvents]
    | none =>
      rcases tells.dropped answer with ⟨-, tale_eq⟩ | ⟨error, -, -, tale_eq⟩
      · rw [tale_eq]
        exact List.mem_singleton.2 rfl
      · rw [tale_eq]
        exact List.mem_append_right _ (List.mem_singleton.2 rfl)
  · refine of_trail (sheets m listed).2 (List.mem_append_right _ ?_)
    rcases m.outcome with _ | value | error <;> simp [Invocation.closing]

/-- Whoever has told its spans everything, and returned its context, is tidy. -/
theorem tidy {root context : Nat}
    (lends : Lends all (spanEvents log) root context [.contextTaken root, .contextReleased context, .ended root]) :
    Tidy first all (spanEvents log) root context := by
  obtain ⟨rooted, sheets⟩ := tells.holds
  refine ⟨lends, rooted.acts, fun span => tells.ended, fun span mem => (rooted.bounds span mem).1, fun span mem => ?_⟩
  rcases tells.named_cases mem with rfl | ⟨m, listed, rfl⟩
  · exact ⟨_, _, rooted.started, by simp⟩
  · refine ⟨_, _, (sheets m listed).1, fun ref is => ?_⟩
    obtain rfl := Option.some.inj is
    exact ⟨sheet.context, sheet.span, rfl, rooted.taken, (rooted.bounds sheet.span rooted.own).1⟩

end Call.Tells

namespace Call.Tidy

variable {first : Nat} {all log : List SpanEvent} {root context : Nat} (tidy : Tidy first all log root context)

include tidy

/-- No other contexts are taken, nor released. -/
theorem mem_iff {event : SpanEvent} (is : event.isLease root = true) :
    event ∈ log ↔ event ∈ [.contextTaken root, .contextReleased context, .ended root] := by
  rw [← tidy.lends.lease_eq, lease, List.mem_filter]
  exact (and_iff_left is).symm

theorem root_eq {span : Nat} (mem : .contextTaken span ∈ log) : span = root := by
  simpa using (tidy.mem_iff rfl).1 mem

theorem context_eq {other : Nat} (mem : .contextReleased other ∈ log) : other = context := by
  simpa using (tidy.mem_iff rfl).1 mem

theorem root_named : root ∈ named log := by
  refine tidy.acts (.ended root) ((tidy.mem_iff ?_).2 ?_) root rfl
  · simp [SpanEvent.isLease]
  · simp

end Call.Tidy

/-! ### Calls that run at once -/

/-- The logs of calls that ran at once, all of them tidy, and all that was written: the spans that were started are
those named in the logs. -/
structure Tidied (old : List SpanEvent) (logs : List (List Event)) (written : List Event) : Prop where
  woven : Woven logs written
  perm : (logs.flatMap fun log => named (spanEvents log)).Perm
    (List.range' (starts old).length (starts (spanEvents written)).length)
  tidy : ∀ log ∈ logs, ∃ root context,
    Call.Tidy (starts old).length (old ++ spanEvents written) (spanEvents log) root context

/-- A span from which a call took a context, and the context. -/
def Lender (old : List SpanEvent) (logs : List (List Event)) (written : List Event) (index root context : Nat) : Prop :=
  ∃ log, logs[index]? = some log ∧
    Call.Tidy (starts old).length (old ++ spanEvents written) (spanEvents log) root context

/-- The context is known to be the span's by what was written. -/
theorem Lender.lessor_eq {old : List SpanEvent} {logs : List (List Event)} {written : List Event}
    {index root context : Nat} (lender : Lender old logs written index root context) :
    lessorIn (takens old).length (spanEvents written) context = some root := by
  obtain ⟨log, -, tidy⟩ := lender
  obtain ⟨since, at_new⟩ := tidy.lends.taken.since (tidy.since root tidy.root_named)
  rw [lessorIn, if_pos since]
  exact at_new

namespace Tidied

variable {old : List SpanEvent} {logs : List (List Event)} {written : List Event} (tidied : Tidied old logs written)
  {index root context : Nat}

include tidied

theorem nodup : (logs.flatMap fun log => named (spanEvents log)).Nodup :=
  tidied.perm.nodup_iff.2 List.nodup_range'

/-- For every log a span was started. -/
theorem length_le : logs.length ≤ (starts (spanEvents written)).length := by
  have length_eq := tidied.perm.length_eq
  rw [List.length_range', List.length_flatMap] at length_eq
  rw [← length_eq, ← List.length_map fun log => (named (spanEvents log)).length]
  refine List.length_le_sum_of_one_le _ fun n mem => ?_
  obtain ⟨log, listed, rfl⟩ := List.mem_map.1 mem
  obtain ⟨root, context, tidy⟩ := tidied.tidy log listed
  exact List.length_pos_of_mem tidy.root_named

/-- What was written of spans stands in a log. -/
theorem exists_log {event : SpanEvent} (mem : event ∈ spanEvents written) :
    ∃ (index : Nat) (log : List Event), logs[index]? = some log ∧ event ∈ spanEvents log := by
  obtain ⟨e, listed, is⟩ := List.mem_filterMap.1 mem
  obtain ⟨log, log_mem, here⟩ := List.mem_flatten.1 (tidied.woven.perm.mem_iff.1 listed)
  obtain ⟨index, at_index⟩ := List.mem_iff_getElem?.1 log_mem
  exact ⟨index, log, at_index, List.mem_filterMap.2 ⟨e, here, is⟩⟩

theorem mem_written {index : Nat} {log : List Event} (whose : logs[index]? = some log) {event : SpanEvent}
    (mem : event ∈ spanEvents log) : event ∈ spanEvents written := by
  obtain ⟨e, listed, is⟩ := List.mem_filterMap.1 mem
  refine List.mem_filterMap.2 ⟨e, tidied.woven.perm.mem_iff.2 ?_, is⟩
  exact List.mem_flatten.2 ⟨log, List.mem_of_getElem? whose, listed⟩

/-- The log in which a span is named. -/
theorem exists_named {span : Nat} (since : (starts old).length ≤ span)
    (lt : span < (starts old).length + (starts (spanEvents written)).length) :
    ∃ (index : Nat) (log : List Event), logs[index]? = some log ∧ span ∈ named (spanEvents log) := by
  obtain ⟨log, mem, here⟩ := List.mem_flatMap.1 (tidied.perm.mem_iff.2 (List.mem_range'_1.2 ⟨since, lt⟩))
  obtain ⟨index, at_index⟩ := List.mem_iff_getElem?.1 mem
  exact ⟨index, log, at_index, here⟩

theorem lender_of_taken {span : Nat} (mem : .contextTaken span ∈ spanEvents written) :
    ∃ index context, Lender old logs written index span context := by
  obtain ⟨index, log, whose, here⟩ := tidied.exists_log mem
  obtain ⟨root, context, tidy⟩ := tidied.tidy log (List.mem_of_getElem? whose)
  obtain rfl := tidy.root_eq here
  exact ⟨index, context, log, whose, tidy⟩

theorem lender_of_released (mem : .contextReleased context ∈ spanEvents written) :
    ∃ index root, Lender old logs written index root context := by
  obtain ⟨index, log, whose, here⟩ := tidied.exists_log mem
  obtain ⟨root, other, tidy⟩ := tidied.tidy log (List.mem_of_getElem? whose)
  obtain rfl := tidy.context_eq here
  exact ⟨index, root, log, whose, tidy⟩

section

variable (lender : Lender old logs written index root context)

include lender

/-- The log in which the span is named. -/
theorem index_eq {other : Nat} {log : List Event} (whose : logs[other]? = some log)
    (mem : root ∈ named (spanEvents log)) : index = other := by
  obtain ⟨own, here, tidy⟩ := lender
  exact index_of_flatMap_nodup tidied.nodup here whose tidy.root_named mem

/-- A span is lent by one call only, and with one context. -/
theorem lender_unique {index' context' : Nat} (lender' : Lender old logs written index' root context') :
    index = index' ∧ context = context' := by
  obtain ⟨log, whose, tidy⟩ := lender'
  obtain rfl := tidied.index_eq lender whose tidy.root_named
  obtain ⟨own, here, own_tidy⟩ := lender
  obtain rfl := Option.some.inj (here.symm.trans whose)
  refine ⟨rfl, tidy.context_eq ((own_tidy.mem_iff rfl).2 ?_)⟩
  simp

/-- A context that was lent by the span is the one. -/
theorem context_of_lessor {other : Nat} (mem : .contextReleased other ∈ spanEvents written)
    (lent : lessorIn (takens old).length (spanEvents written) other = some root) : other = context := by
  obtain ⟨index', root', lender'⟩ := tidied.lender_of_released mem
  obtain rfl := Option.some.inj (lent.symm.trans lender'.lessor_eq)
  exact (tidied.lender_unique lender' lender).2

/-- The context is taken, then released, and then the span ends. -/
theorem account_eq : account root context (spanEvents written) =
    [.contextTaken root, .contextReleased context, .ended root] := by
  obtain ⟨log, whose, tidy⟩ := id lender
  rw [← SpanEvent.account_of_lease tidy.lends.lease_eq]
  refine tidied.woven.filter_spanEvents_eq whose fun other l here event mem is => ?_
  obtain ⟨root', context', tidy'⟩ := tidied.tidy l (List.mem_of_getElem? here)
  have lender' : Lender old logs written other root' context' := ⟨l, here, tidy'⟩
  have own : event = .contextTaken root ∨ event = .contextReleased context ∨ event = .ended root := by simpa using is
  rcases own with rfl | rfl | rfl
  · obtain rfl := tidy'.root_eq mem
    exact (tidied.lender_unique lender lender').1.symm
  · obtain rfl := tidy'.context_eq mem
    obtain rfl := Option.some.inj (lender.lessor_eq.symm.trans lender'.lessor_eq)
    exact (tidied.lender_unique lender lender').1.symm
  · exact (tidied.index_eq lender here (tidy'.acts _ mem root rfl)).symm

/-- How often contexts were taken from the span and released, in part of what was written. -/
theorem handles_eq {events : List SpanEvent} (sub : ∀ event ∈ events, event ∈ spanEvents written) :
    taken root events = (account root context events).count (.contextTaken root) ∧
      released (lessorIn (takens old).length (spanEvents written)) root events =
        (account root context events).count (.contextReleased context) := by
  refine ⟨?_, ?_⟩
  · rw [SpanEvent.count_account events (by simp), SpanEvent.taken_eq_count]
  · rw [SpanEvent.count_account events (by simp), released, List.count]
    refine List.countP_congr fun event mem => ?_
    rw [decide_eq_true_eq, beq_iff_eq]
    constructor
    · intro lent
      cases event with
      | contextReleased other => rw [tidied.context_of_lessor lender (sub _ mem) lent]
      | _ => cases lent
    · rintro rfl
      exact lender.lessor_eq

end

/-- Of other spans contexts are neither taken nor released. -/
theorem handles_zero {span : Nat} (none : ∀ index context, ¬ Lender old logs written index span context)
    {events : List SpanEvent} (sub : ∀ event ∈ events, event ∈ spanEvents written) :
    taken span events = 0 ∧ released (lessorIn (takens old).length (spanEvents written)) span events = 0 := by
  refine ⟨?_, ?_⟩
  · rw [SpanEvent.taken_eq_count, List.count_eq_zero]
    intro mem
    obtain ⟨index, context, lender⟩ := tidied.lender_of_taken (sub _ mem)
    exact none index context lender
  · refine List.countP_eq_zero.2 fun event mem is => ?_
    have lent := of_decide_eq_true is
    cases event with
    | contextReleased context =>
      obtain ⟨index, root, lender⟩ := tidied.lender_of_released (sub _ mem)
      obtain rfl := Option.some.inj (lender.lessor_eq.symm.trans lent)
      exact none index context lender
    | _ => cases lent

/-- As many contexts were taken from a span as were released, if that is so of the one that a call has lent. -/
theorem handles_even {span : Nat} {events : List SpanEvent} (sub : ∀ event ∈ events, event ∈ spanEvents written)
    (even : ∀ index context, Lender old logs written index span context →
      (account span context events).count (.contextReleased context) =
        (account span context events).count (.contextTaken span)) :
    released (lessorIn (takens old).length (spanEvents written)) span events = taken span events := by
  by_cases lends : ∃ index context, Lender old logs written index span context
  · obtain ⟨index, context, lender⟩ := lends
    obtain ⟨taken_eq, released_eq⟩ := tidied.handles_eq lender sub
    rw [taken_eq, released_eq, even index context lender]
  · have none (index context : Nat) : ¬ Lender old logs written index span context := fun lender =>
      lends ⟨index, context, lender⟩
    obtain ⟨untaken, unreleased⟩ := tidied.handles_zero none sub
    exact unreleased.trans untaken.symm

/-- Spans are started under those from which contexts were taken. -/
theorem started_allowed {before rest : List SpanEvent} {tracer : Nat} {name : String} {parent : Option ContextRef}
    (split : spanEvents written = before ++ .started tracer name parent :: rest) :
    SpanEvent.Allows (takens old).length (spanEvents written) before (.started tracer name parent) := by
  intro ref is
  have at_new : (starts (spanEvents written))[(starts before).length]? = some (tracer, name, parent) := by
    rw [split, SpanEvent.starts_append, List.getElem?_append_right (Nat.le_refl _), Nat.sub_self]
    rfl
  obtain ⟨lt, -⟩ := List.getElem?_eq_some_iff.1 at_new
  obtain ⟨index, log, whose, mem⟩ := tidied.exists_named (Nat.le_add_right (starts old).length (starts before).length)
    (Nat.add_lt_add_left lt _)
  obtain ⟨root, context, tidy⟩ := tidied.tidy log (List.mem_of_getElem? whose)
  obtain ⟨name', parent', started, parents⟩ := tidy.parents _ mem
  rw [SpanEvent.starts_append, List.getElem?_append_right (Nat.le_add_right _ _), Nat.add_sub_cancel_left,
    at_new] at started
  obtain ⟨-, -, rfl⟩ : tracer = 0 ∧ name = name' ∧ parent = parent' := by simpa using started
  obtain ⟨other, lender, ref_eq, takes, since⟩ := parents ref is
  obtain ⟨later, at_other⟩ := takes.since since
  exact ⟨other, lender, ref_eq, (if_pos later).trans at_other⟩

/-- Contexts are released after they were taken, and before their spans end. -/
theorem released_allowed {before rest : List SpanEvent}
    (split : spanEvents written = before ++ .contextReleased context :: rest)
    (sub : ∀ event ∈ before, event ∈ spanEvents written) :
    SpanEvent.Allows (takens old).length (spanEvents written) before (.contextReleased context) := by
  have here : .contextReleased context ∈ spanEvents written := by simp [split]
  obtain ⟨index, root, lender⟩ := tidied.lender_of_released here
  have account_eq : account root context (before ++ .contextReleased context :: rest) =
      [.contextTaken root] ++ .contextReleased context :: [.ended root] := split ▸ tidied.account_eq lender
  obtain ⟨taken_before, ended_later⟩ := SpanEvent.account_before account_eq (by simp) (by simp)
  obtain ⟨taken_eq, released_eq⟩ := tidied.handles_eq lender sub
  have lent := lender.lessor_eq
  refine ⟨root, lent, Nat.lt_of_not_le fun late => ?_, SpanEvent.hasEnded_of_account taken_before (by simp), ?_⟩
  · -- the context would be taken later, but nothing is
    have since := SpanEvent.le_of_lessorIn lent
    rw [lessorIn, if_pos since, split, SpanEvent.takens_append, List.getElem?_append_right (by omega)] at lent
    obtain ⟨event, mem, is⟩ := List.mem_filterMap.1 (List.mem_of_getElem? lent)
    rcases List.mem_cons.1 mem with rfl | mem
    · cases is
    · cases event with
      | contextTaken span =>
        obtain rfl := Option.some.inj is
        have listed : .contextTaken span ∈ account span context rest :=
          SpanEvent.mem_account.2 ⟨mem, List.mem_cons_self⟩
        rw [ended_later] at listed
        simp at listed
      | _ => cases is
  · rw [taken_eq, released_eq, taken_before]
    simp

/-- All that is done with spans is allowed. -/
theorem allows {before rest : List SpanEvent} {event : SpanEvent}
    (split : spanEvents written = before ++ event :: rest) :
    SpanEvent.Allows (takens old).length (spanEvents written) before event := by
  have sub : ∀ other ∈ before, other ∈ spanEvents written := fun other mem => by
    rw [split]
    exact List.mem_append_left _ mem
  cases event with
  | attributed span key value => trivial
  | statusSet span status => trivial
  | started tracer name parent => exact tidied.started_allowed split
  | contextReleased context => exact tidied.released_allowed split sub
  | contextTaken span =>
    have here : .contextTaken span ∈ spanEvents written := by simp [split]
    obtain ⟨index, context, lender⟩ := tidied.lender_of_taken here
    have account_eq : account span context (before ++ .contextTaken span :: rest) =
        [] ++ .contextTaken span :: [.contextReleased context, .ended span] := split ▸ tidied.account_eq lender
    obtain ⟨nothing, -⟩ := SpanEvent.account_before account_eq List.not_mem_nil (by simp)
    exact SpanEvent.hasEnded_of_account nothing List.not_mem_nil
  | ended span =>
    refine tidied.handles_even sub fun index context lender => ?_
    have account_eq : account span context (before ++ .ended span :: rest) =
        [.contextTaken span, .contextReleased context] ++ .ended span :: [] := split ▸ tidied.account_eq lender
    obtain ⟨both, -⟩ := SpanEvent.account_before account_eq (by simp) List.not_mem_nil
    rw [both]
    simp

/-- In the end all spans have ended and all contexts are released. -/
theorem balances {span : Nat} (since : (starts old).length ≤ span)
    (lt : span < (starts old).length + (starts (spanEvents written)).length) :
    hasEnded span (spanEvents written) = true ∧
      released (lessorIn (takens old).length (spanEvents written)) span (spanEvents written) =
        taken span (spanEvents written) := by
  refine ⟨?_, tidied.handles_even (fun _ mem => mem) fun index context lender => ?_⟩
  · obtain ⟨index, log, whose, mem⟩ := tidied.exists_named since lt
    obtain ⟨root, context, tidy⟩ := tidied.tidy log (List.mem_of_getElem? whose)
    exact (SpanEvent.hasEnded_iff _ _).2 (tidied.mem_written whose (tidy.ends span mem))
  · rw [tidied.account_eq lender]
    simp

end Tidied

/-! ### Reading on -/

namespace SpanEvent

/-- A span that has ended has heard so at last. -/
theorem heard_of_over {events : List SpanEvent} (ended : isOver events = true) :
    ∃ calls, heard events = calls ++ [.finish] ∧ .finish ∉ calls := by
  induction events with
  | nil => cases ended
  | cons event events ih =>
    rw [heard]
    cases is : event.isEnd with
    | true =>
      cases event with
      | ended span => exact ⟨[], rfl, List.not_mem_nil⟩
      | _ => cases is
    | false =>
      have later : isOver events = true := by simpa [isOver, is] using ended
      obtain ⟨calls, heard_eq, unfinished⟩ := ih later
      refine ⟨event.call?.toList ++ calls, ?_, ?_⟩
      · rw [if_neg Bool.false_ne_true, heard_eq, List.append_assoc]
      · rw [List.mem_append, not_or]
        refine ⟨?_, unfinished⟩
        cases event with
        | ended span => cases is
        | _ => simp [call?]

end SpanEvent

/-- The entries of a span are in order if it closes, and nothing reaches it afterwards. -/
def Closes (traces : List (Nat × TraceEntry)) (number : Nat) : Prop :=
  ∃ entries, entriesOf traces number = entries ++ [.closed] ∧ .closed ∉ entries

namespace Telemetry

/-- If a span has ended, the span of a subscriber to which its calls are translated has closed. -/
theorem Reads.closes {tracer : CustomTracer} {before t : Telemetry} {events : List SpanEvent}
    (reads : Reads tracer before events t) {span : Nat} (since : before.spans.length ≤ span)
    (lt : span < t.spans.length) (ended : hasEnded span events = true) :
    Closes (t.spanCalls.flatMap SpanCall.rendered) (before.numberOf span) := by
  have born : span - before.spans.length < (starts events).length := by
    rw [reads.spans] at lt
    omega
  obtain ⟨calls, received_eq, unfinished⟩ : ∃ calls, received t.spanCalls (before.numberOf span) =
      calls ++ [.finish] ∧ .finish ∉ calls := by
    obtain ⟨calls, heard_eq, unfinished⟩ := SpanEvent.heard_of_over ended
    have received_eq := reads.calls span since _ (List.getElem?_eq_getElem born)
    rw [heard_eq, ← List.cons_append] at received_eq
    exact ⟨_, received_eq, by simp [unfinished]⟩
  refine ⟨calls.flatMap SpanCall.entries, ?_, fun closed => ?_⟩
  · rw [entriesOf_rendered, received_eq, List.flatMap_append]
    rfl
  · obtain ⟨call, among, closes⟩ := List.mem_flatMap.1 closed
    obtain rfl := SpanCall.closed_mem_entries.1 closes
    exact unfinished among

/-- Readers that know the same spans number them alike. -/
theorem numberOf_eq {t u : Telemetry} (tracers : u.spans.map (·.tracer) = t.spans.map (·.tracer)) :
    u.spans.length = t.spans.length ∧ u.numberOf = t.numberOf := by
  have length_eq : u.spans.length = t.spans.length := by simpa using congrArg List.length tracers
  refine ⟨length_eq, funext fun span => ?_⟩
  rw [numberOf, numberOf, countP_tracer, countP_tracer, tracers, length_eq]

/-- A calm tracer and the built-in one, which know the same spans, read on what tidy calls have written. -/
theorem seeAll_of_tidied {tracer : CustomTracer} (calm : tracer.Calm) {t u : Telemetry} (steady : t.Steady tracer)
    (builtIn : u.tracer = .builtIn) (debug : u.takes .debug = true) (untold : t.spanCalls = [])
    (untraced : u.traces = []) (tracers : u.spans.map (·.tracer) = t.spans.map (·.tracer)) {old : List SpanEvent}
    (spans : t.spans.length = (starts old).length) (contexts : t.contexts.length = (takens old).length)
    (contexts' : u.contexts.length = (takens old).length) {logs : List (List Event)} {written : List Event}
    (tidied : Tidied old logs written)
    (orderly : Orderly (starts old).length (starts old).length (takens old).length (spanEvents written)) :
    let traces := (u.seeAll written).traces
    let fresh := (u.seeAll written).spans.drop (starts old).length
    traces = (t.seeAll written).spanCalls.flatMap SpanCall.rendered ∧ logs.length ≤ fresh.length ∧
      (∀ view ∈ fresh, Closes traces view.number ∧ view.handles = 0) ∧
      ∀ trace ∈ traces, ∃ view ∈ fresh, view.number = trace.1 := by
  intro traces fresh
  obtain ⟨length_eq, number_eq⟩ := numberOf_eq tracers
  rw [← spans, ← contexts] at orderly
  have reads := (Reads.start steady untold).seeAll calm written orderly
  obtain ⟨renders, traces_eq⟩ := Renders.seeAll calm (Reads.start steady untold) (Renders.start builtIn debug)
    length_eq (contexts'.trans contexts.symm) number_eq written rfl orderly
    (fun before event rest split => contexts ▸ tidied.allows split) (by rw [untraced, untold]; rfl)
  rw [List.nil_append] at reads renders
  change traces = _ at traces_eq
  have known : (u.seeAll written).spans.length = (starts old).length + (starts (spanEvents written)).length := by
    rw [renders.spans, length_eq, spans]
  have same_length : (t.seeAll written).spans.length = (u.seeAll written).spans.length := by
    rw [known, reads.spans, spans]
  -- the views of these spans
  have fresh_view (view : SpanView) : view ∈ fresh ↔ ∃ span, (starts old).length ≤ span ∧
      (u.seeAll written).spans[span]? = some view := by
    rw [List.mem_iff_getElem?]
    simp only [fresh, List.getElem?_drop]
    constructor
    · rintro ⟨index, here⟩
      exact ⟨_, Nat.le_add_right _ index, here⟩
    · rintro ⟨span, since, here⟩
      exact ⟨span - (starts old).length, by rwa [Nat.add_sub_cancel' since]⟩
  refine ⟨traces_eq, ?_, fun view mem => ?_, fun trace mem => ?_⟩
  · rw [List.length_drop, known, Nat.add_sub_cancel_left]
    exact tidied.length_le
  · obtain ⟨span, since, at_span⟩ := (fresh_view view).1 mem
    obtain ⟨lt, -⟩ := List.getElem?_eq_some_iff.1 at_span
    obtain ⟨other, here, balanced⟩ := renders.views span (by rwa [length_eq, spans]) lt
    obtain rfl := Option.some.inj (at_span.symm.trans here)
    obtain ⟨ended, all⟩ := tidied.balances since (known ▸ lt)
    refine ⟨?_, ?_⟩
    · rw [traces_eq, balanced.number_eq, number_eq]
      exact reads.closes (by rwa [spans]) (same_length ▸ lt) ended
    · have handles_eq := balanced.handles_eq
      rw [contexts', ended, all, Bool.toNat_true] at handles_eq
      omega
  · rw [traces_eq] at mem
    obtain ⟨call, listed, rendered⟩ := List.mem_flatMap.1 mem
    obtain ⟨entry, -, rfl⟩ := List.mem_map.1 rendered
    obtain ⟨span, since, lt, number⟩ := reads.only call listed
    obtain ⟨view, here, balanced⟩ := renders.views span (length_eq ▸ since) (same_length ▸ lt)
    refine ⟨view, (fresh_view view).2 ⟨span, spans ▸ since, here⟩, ?_⟩
    rw [balanced.number_eq, number_eq, number]

end Telemetry

/-! ### Two engines -/

/-- Whatever its readers, the same is written of spans while an engine is built. -/
theorem Engine.spanEvents_build (schema : Schema) {options options' : Options}
    (capacity : options.memoCapacity = options'.memoCapacity) (groups : List (List (String × Matcher.Draft)))
    (segments : List (String × SegmentDefinition)) (noted : Journal) :
    spanEvents (build schema options groups segments noted).2.events =
      spanEvents (build schema options' groups segments noted).2.events := by
  have silent (journal : Journal) (notice : Notice) :
      spanEvents (journal.notice notice).events = spanEvents journal.events := by
    rw [show (journal.notice notice).events = _ from journal.writes_notice notice, spanEvents_append]
    exact List.append_nil _
  unfold build
  rw [← capacity]
  obtain ⟨_ | matchers, journal⟩ := buildGroups groups noted
  · rfl
  · dsimp only
    obtain ⟨_ | registry, journal⟩ := compile matchers options.memoCapacity journal
    · rfl
    · exact (silent _ _).trans (silent _ _).symm

/-- If the same was added to two journals, the same was written of spans. -/
theorem Journal.Twins.spanEvents_eq {p q j k : Journal} (twins : p.Twins q j k)
    (same : spanEvents p.events = spanEvents q.events) : spanEvents j.events = spanEvents k.events := by
  obtain ⟨added, entries, entries'⟩ := twins.added
  rw [Journal.events, Journal.events, entries, entries', List.map_append, List.map_append, spanEvents_append,
    spanEvents_append]
  exact congrArg (· ++ _) same

/-- What was written to both. -/
theorem Journal.Twins.writes {p q j k : Journal} (twins : p.Twins q j k) {written : List Event}
    (writes : p.Writes written j) : q.Writes written k := by
  obtain ⟨added, entries, entries'⟩ := twins.added
  have own : p.Writes (added.map (·.2)) j := by rw [Journal.Writes, Journal.events, entries, List.map_append]; rfl
  rw [writes.unique own, Journal.Writes, Journal.events, entries', List.map_append]
  rfl

namespace Service

/-- Calls that run at once are tidy in the end. -/
theorem StemsFrom.ask_tidied {engine : Engine} {service : Service} (stems : service.StemsFrom engine) (moves : Nat)
    (limit : Option Nat) (requests : List (Json × Target × Option Fallback)) :
    let asked := service.ask moves limit
      (requests.map fun (subject, target, fallback) => .start subject target fallback)
    let old := spanEvents service.journal.events
    ∃ logs written, logs.length = requests.length ∧ service.journal.Writes written asked.2.2.journal ∧
      Tidied old logs written ∧
      Orderly (starts old).length (starts old).length (takens old).length (spanEvents written) := by
  intro asked old
  have holds : Holds engine.registry.matcher? service.engine.registry := ⟨stems.sound, stems.matcher?_eq⟩
  obtain ⟨asking, logs, written, requests_eq, -, begun, writes, woven, registers, closed⟩ :=
    ask_logbooks (Call.returns_kept engine.segments engine.registry.matcher? service.journal) stems.segments_eq holds
      moves limit requests (.start service.journal requests)
  obtain ⟨since, since_eq, orderly, perm⟩ := registers
  obtain rfl : since = written := List.append_cancel_left (since_eq.symm.trans writes)
  rw [Journal.spanCount_eq] at orderly perm
  rw [Journal.contextCount_eq] at orderly
  have one_each : logs.length = requests.length := by
    rw [← closed.length_eq, ← requests_eq, List.length_map]
  refine ⟨logs, since, one_each, writes, ⟨woven, perm, fun log mem => ?_⟩, orderly⟩
  obtain ⟨index, at_log⟩ := List.mem_iff_getElem?.1 mem
  obtain ⟨call, at_call, ⟨recounts, returns⟩⟩ := forall₂_getElem? closed.flip at_log
  have started := begun call (List.mem_of_getElem? at_call)
  have events_eq : spanEvents asked.2.2.journal.events = old ++ spanEvents since := by
    rw [show asked.2.2.journal.events = service.journal.events ++ since from writes, spanEvents_append]
  rw [events_eq, Journal.spanCount_eq] at recounts
  rw [events_eq] at returns
  rcases recounts with ⟨waiting, -⟩ | ⟨sheet, tells⟩
  · exact absurd waiting started
  rcases returns with ⟨waiting, -⟩ | ⟨root, context, lends⟩
  · exact absurd waiting started
  exact ⟨root, context, tells.tidy lends⟩

end Service

end Segmentation
