import Segmentation.Proofs.Invocations
import Segmentation.Proofs.Sightings
import Segmentation.Proofs.Tracing

/-!
# What a tracer is told of calls

A custom tracer that never panics is asked for one span for the segment of every call, and under it for one span for
each key at the leaves of its expression; all of them end, and nothing is told to them afterwards.  The span of an
invocation is told the outcome to which this came, and the span of the segment the outcome of the evaluation and the
answer.  So it is whether calls run alone or at once, and whether they are answered or dropped
(`Service.calls_trace_spans`).
-/

namespace Segmentation

open SpanEvent (Orderly starts takens named trail heard)

/-! ### Trails in logs that are woven -/

/-- What only one log says is said in the same order where the logs are woven. -/
theorem Woven.filter_eq {logs : List (List Event)} {written : List Event} (woven : Woven logs written)
    {p : Event → Bool} {index : Nat} {log : List Event} (whose : logs[index]? = some log)
    (others : ∀ other ≠ index, ∀ l, logs[other]? = some l → l.filter p = []) : written.filter p = log.filter p := by
  induction woven generalizing log with
  | start blank => rw [blank log (List.mem_of_getElem? whose)]
  | @turn logs written woven turned before there more ih =>
    rw [List.filter_append]
    rcases getElem?_set_cases whose with ⟨rfl, rfl⟩ | ⟨same, whose⟩
    · rw [List.filter_append, ih there fun other differs l here => others other differs l ?_]
      rw [List.getElem?_set_ne differs.symm]
      exact here
    · obtain ⟨lt, -⟩ := List.getElem?_eq_some_iff.1 there
      have silent := others turned (Ne.symm same) (before ++ more) (List.getElem?_set_self lt)
      obtain ⟨silent_before, silent_more⟩ := List.append_eq_nil_iff.1 ((List.filter_append ..).symm.trans silent)
      rw [silent_more, List.append_nil]
      refine ih whose fun other differs l here => ?_
      by_cases mine : other = turned
      · subst mine
        rw [there] at here
        rwa [← Option.some.inj here]
      · exact others other differs l (by rwa [List.getElem?_set_ne (Ne.symm mine)])

/-- What stands in two of several lists stands in their concatenation twice. -/
theorem index_of_flatMap_nodup {α β : Type} {f : α → List β} {l : List α} (nodup : (l.flatMap f).Nodup) {i j : Nat}
    {a b : α} (at_i : l[i]? = some a) (at_j : l[j]? = some b) {x : β} (in_a : x ∈ f a) (in_b : x ∈ f b) : i = j := by
  have apart := List.pairwise_iff_getElem.1 (List.nodup_flatMap.1 nodup).2
  obtain ⟨lt, rfl⟩ := List.getElem?_eq_some_iff.1 at_i
  obtain ⟨lt', rfl⟩ := List.getElem?_eq_some_iff.1 at_j
  rcases Nat.lt_trichotomy i j with before | same | after
  · exact absurd in_b (apart i j lt lt' before in_a)
  · exact same
  · exact absurd in_a (apart j i lt' lt after in_b)

/-- What only one log says of spans is said in the same order where the logs are woven. -/
theorem Woven.filter_spanEvents_eq {logs : List (List Event)} {written : List Event} (woven : Woven logs written)
    {p : SpanEvent → Bool} {index : Nat} {log : List Event} (whose : logs[index]? = some log)
    (own : ∀ (other : Nat) (l : List Event), logs[other]? = some l → ∀ event ∈ spanEvents l, p event = true →
      other = index) :
    (spanEvents written).filter p = (spanEvents log).filter p := by
  have filter_eq (events : List Event) :
      (spanEvents events).filter p = spanEvents (events.filter fun event => event.spanEvent?.any p) := by
    unfold spanEvents
    rw [List.filter_filterMap, List.filterMap_filter]
    refine List.filterMap_congr fun event _ => ?_
    cases event.spanEvent? with
    | none => rfl
    | some e => simp [Option.filter]
  rw [filter_eq, filter_eq]
  refine congrArg spanEvents (woven.filter_eq whose fun other differs l here => ?_)
  refine List.filter_eq_nil_iff.2 fun event mem is => differs ?_
  cases span? : event.spanEvent? with
  | none => simp [span?] at is
  | some e =>
    rw [span?] at is
    exact own other l here e (List.mem_filterMap.2 ⟨event, mem, span?⟩) is

/-- What is done with a span is done by the call that has named it. -/
theorem Woven.trail_eq {logs : List (List Event)} {written : List Event} (woven : Woven logs written)
    (nodup : (logs.flatMap fun log => named (spanEvents log)).Nodup)
    (acts : ∀ log ∈ logs, ∀ event ∈ spanEvents log, ∀ span, event.acts? = some span → span ∈ named (spanEvents log))
    {index : Nat} {log : List Event} (whose : logs[index]? = some log) {span : Nat} (mine : span ∈ named (spanEvents log)) :
    trail span (spanEvents written) = trail span (spanEvents log) := by
  refine woven.filter_spanEvents_eq whose fun other l here event mem is => ?_
  have also := acts l (List.mem_of_getElem? here) event mem span (of_decide_eq_true is)
  exact (index_of_flatMap_nodup nodup whose here mine also).symm

/-! ### Reading on -/

/-- What is written after a journal. -/
theorem Journal.Writes.entries {earlier later : Journal} {written : List Event} (writes : earlier.Writes written later) :
    (later.entries.drop earlier.entries.length).map (·.2) = written := by
  have length_eq : earlier.entries.length = earlier.events.length := (List.length_map _).symm
  have events_eq : later.entries.map (·.2) = earlier.events ++ written := writes
  rw [List.map_drop, events_eq, length_eq, List.drop_left]

/-- Of a context that was taken since from a span that was started since, all that was written before is no matter. -/
theorem SpanEvent.Takes.since {old new : List SpanEvent} {span context : Nat} (takes : Takes (old ++ new) span context)
    (started_since : (starts old).length ≤ span) :
    (takens old).length ≤ context ∧ (takens new)[context - (takens old).length]? = some span := by
  have at_all := takes.getElem?
  obtain ⟨before, after, all_eq, rfl, there⟩ := takes
  have later : (takens old).length ≤ (takens before).length := by
    rcases List.append_eq_append_iff.1 all_eq with ⟨more, rfl, -⟩ | ⟨more, old_eq, -⟩
    · rw [SpanEvent.takens_append, List.length_append]
      exact Nat.le_add_right _ _
    · rw [old_eq, SpanEvent.starts_append, List.length_append] at started_since
      omega
  refine ⟨later, ?_⟩
  rw [SpanEvent.takens_append, List.getElem?_append_right later] at at_all
  exact at_all

namespace Telemetry

variable {tracer : CustomTracer} {before final : Telemetry} {old new : List SpanEvent}

/-- What a calm tracer that has read one journal reads of a later one. -/
theorem readOn_reads (calm : tracer.Calm) (level : Option Level) (logger : Logger) (observer : Option ErrorObserver)
    {earlier later : Journal} {written : List Event} {logs : List (List Event)} (writes : earlier.Writes written later)
    (registers : earlier.Registers later.events logs) :
    let telemetry := (start level (.custom tracer) logger observer).seeAll earlier.events
    ∃ before final, before.spans.length = (starts (spanEvents earlier.events)).length ∧
      before.contexts.length = (takens (spanEvents earlier.events)).length ∧
      Reads tracer before (spanEvents written) final ∧
      (telemetry.readOn earlier later).1.spanCalls = final.spanCalls := by
  intro telemetry
  obtain ⟨steady, spans, contexts⟩ := (steady_start level logger observer).seeAll calm earlier.events
  have spans_eq : telemetry.spans.length = (starts (spanEvents earlier.events)).length := spans.trans (Nat.zero_add _)
  have contexts_eq : telemetry.contexts.length = (takens (spanEvents earlier.events)).length :=
    contexts.trans (Nat.zero_add _)
  let before : Telemetry := { telemetry with sightings := [] }
  have fresh : Reads tracer before [] before :=
    .start ⟨steady.tracer_eq, steady.usable, steady.unbacked⟩ rfl
  obtain ⟨since, since_eq, orderly, -⟩ := registers
  obtain rfl : since = written := List.append_cancel_left (since_eq.symm.trans writes)
  have read := fresh.seeAll calm since (by
    change Orderly telemetry.spans.length telemetry.spans.length telemetry.contexts.length _
    rw [spans_eq, contexts_eq, ← Journal.spanCount_eq, ← Journal.contextCount_eq]
    exact orderly)
  refine ⟨before, before.seeAll since, spans_eq, contexts_eq, read, ?_⟩
  rw [← writes.entries]
  rfl

variable (reads : Reads tracer before new final) (spans_eq : before.spans.length = (starts old).length)

include reads spans_eq

/-- What was received by a span that was started since. -/
theorem Reads.received_eq {span tracer : Nat} {name : String} {parent : Option ContextRef}
    (since : (starts old).length ≤ span) (started : (starts (old ++ new))[span]? = some (tracer, name, parent)) :
    received final.spanCalls (before.numberOf span) =
      .start name ((parent.map final.context).map (·.number)) :: heard (trail span new) := by
  rw [SpanEvent.starts_append, List.getElem?_append_right since, ← spans_eq] at started
  exact reads.calls span (spans_eq ▸ since) _ started

omit spans_eq in
/-- A context that was taken since from such a span tells its number. -/
theorem Reads.number_of_context (contexts_eq : before.contexts.length = (takens old).length) {span context : Nat}
    (since : (starts old).length ≤ span) (taken : SpanEvent.Takes (old ++ new) span context) :
    (final.context (.taken context)).number = before.numberOf span := by
  obtain ⟨later, at_new⟩ := taken.since since
  have listed : (final.contexts.map (·.number))[context]? = some (before.numberOf span) := by
    rw [reads.contexts, List.getElem?_append_right (by rw [List.length_map]; omega), List.length_map, contexts_eq,
      List.getElem?_map, at_new]
    rfl
  rw [List.getElem?_map] at listed
  obtain ⟨view, here, number_eq⟩ := Option.map_eq_some_iff.1 listed
  change (final.contexts.getD context .blank).number = _
  rw [List.getD_eq_getElem?_getD, here]
  exact number_eq

end Telemetry

/-! ### Records of spans -/

namespace SpanCall

/-- What a span is told of an error. -/
def ofError (error : Error) : List SpanCall :=
  [.attribute "error.kind" (.string error.kind.name), .attribute "error.message" (.string error.message),
    .attribute "error.stack" (.string error.chain), .status ⟨.error, some error.message⟩]

/-- What the span of a segment is told of the outcome of the evaluation. -/
def ofVerdict : Outcome → List SpanCall
  | .ok _ => [.status ⟨.ok, none⟩]
  | .error error => ofError error

/-- What the span of an invocation is told of its outcome, if there is one. -/
def ofOutcome : Option Outcome → List SpanCall
  | none => []
  | some (.ok value) => [.attribute "matcher.result" (.bool value), .status ⟨.ok, none⟩]
  | some (.error error) => ofError error

/-- What the span of an invocation is told at first. -/
def introduction (segment : String) (definition : Definition) : List SpanCall :=
  [.attribute "matcher.name" (.string definition.name), .attribute "segment.name" (.string segment)] ++
  (definition.args.map fun args => SpanCall.attribute "matcher.args" (.string args.stableKey)).toList

end SpanCall

/-- A call, with the number of the span of its segment, and its invocations with the numbers of their spans. -/
structure SpanRecord where
  transcript : Transcript
  number : Nat
  matchers : List MatcherSheet

namespace SpanRecord

variable (described : Except Error Node) (r : SpanRecord)

/-- The numbers of all spans of the call. -/
def numbers : List Nat := r.number :: r.matchers.map (·.span)

/-- There is an invocation for each key of the tree that is described, and for nothing else. -/
def Covers : Prop :=
  (∃ error, described = .error error ∧ r.matchers = []) ∨
  ∃ expr, described = .ok (Expr.toNode expr) ∧ (r.matchers.map (·.definition.key)).Nodup ∧
    (∀ key, key ∈ r.matchers.map (·.definition.key) ↔ key ∈ expr.toNode.keys) ∧
    ∀ m ∈ r.matchers, ∃ e ∈ expr.leaves, m.definition.Alike e

/-- All invocations have outcomes, which make this outcome of the tree that is described. -/
def Decides (outcome : Outcome) : Prop :=
  (∃ error error', described = .error error ∧ outcome = .error error') ∨
  ∃ expr, described = .ok (Expr.toNode expr) ∧ (∀ m ∈ r.matchers, m.outcome.isSome) ∧
    expr.Concludes (fun d => outcomeIn r.matchers d.key) outcome

/-- What the span of the segment is told.  If the call was answered these are the outcome of the evaluation and the
answer, and of an error that which is logged.  A call that was dropped may have come to an error; it has not come to a
value. -/
def Tells (told : List SpanCall) : Prop :=
  match r.transcript.answer with
  | some value => ∃ outcome, r.Decides described outcome ∧ value = r.transcript.call.verdict outcome ∧
      appeals r.transcript.log = r.transcript.call.told outcome ∧
      told = SpanCall.ofVerdict outcome ++ [.attribute "segment.result" (.bool value)]
  | none => (appeals r.transcript.log = [] ∧ told = []) ∨
      ∃ error, r.Decides described (.error error) ∧
        appeals r.transcript.log = r.transcript.call.told (.error error) ∧ told = SpanCall.ofVerdict (.error error)

/-- The spans of a call received what the record says, each of them one start at first and one end at last. -/
structure Faithful (calls : List (Nat × SpanCall)) : Prop where
  covers : r.Covers described
  earned : r.transcript.call.Earned r.matchers
  segment : ∃ told, r.Tells described told ∧ received calls r.number =
    .start ("segment:" ++ r.transcript.call.target.name) none ::
      .attribute "segment.name" (.string r.transcript.call.target.name) :: told ++ [.finish]
  matchers : ∀ m ∈ r.matchers, received calls m.span =
    .start ("matcher:" ++ m.definition.name) (some r.number) ::
      SpanCall.introduction r.transcript.call.target.name m.definition ++ SpanCall.ofOutcome m.outcome ++ [.finish]
  ends : ∀ number ∈ r.numbers, ∃ told, received calls number = told ++ [.finish] ∧ .finish ∉ told

end SpanRecord

namespace SpanCall

theorem heard_matcher (segment : String) (m : MatcherSheet) :
    heard (m.events segment fun span => [.ended span]) =
      introduction segment m.definition ++ ofOutcome m.outcome ++ [.finish] := by
  obtain ⟨span, definition, outcome⟩ := m
  unfold MatcherSheet.events Invocation.introduction introduction
  cases definition.args with
  | none =>
    rcases outcome with _ | value | error <;> rfl
  | some args =>
    rcases outcome with _ | value | error <;> rfl

theorem heard_answered (span : Nat) (outcome : Outcome) (value : Bool) :
    heard (Call.verdictEvents span outcome ++ Call.answerEvents span value) =
      ofVerdict outcome ++ [.attribute "segment.result" (.bool value)] ++ [.finish] := by
  cases outcome <;> rfl

theorem finish_not_mem_ofVerdict (outcome : Outcome) : SpanCall.finish ∉ ofVerdict outcome := by
  cases outcome <;> simp [ofVerdict, ofError]

theorem finish_not_mem_ofOutcome (outcome : Option Outcome) : SpanCall.finish ∉ ofOutcome outcome := by
  rcases outcome with _ | value | error <;> simp [ofOutcome, ofError]

theorem finish_not_mem_introduction (segment : String) (definition : Definition) :
    SpanCall.finish ∉ introduction segment definition := by
  unfold introduction
  cases definition.args <;> simp

end SpanCall

/-- The same invocation, its span known by its number. -/
def MatcherSheet.numbered (number : Nat → Nat) (m : MatcherSheet) : MatcherSheet := { m with span := number m.span }

theorem outcomeIn_numbered (number : Nat → Nat) (ms : List MatcherSheet) (key : String) :
    outcomeIn (ms.map (·.numbered number)) key = outcomeIn ms key := by
  unfold outcomeIn
  rw [List.find?_map, Option.bind_map]
  rfl

theorem map_key_numbered (number : Nat → Nat) (ms : List MatcherSheet) :
    (ms.map (·.numbered number)).map (·.definition.key) = ms.map (·.definition.key) := by
  rw [List.map_map]
  rfl

/-- What the record of a call says of it, its spans known by their numbers. -/
def Call.record (call : Call) (log : List Event) (number : Nat → Nat) (sheet : CallSheet) : SpanRecord :=
  ⟨⟨call.request, call.answer?, log⟩, number sheet.span, sheet.matchers.map (·.numbered number)⟩

section

variable {engine : Engine} {service : Service} (stems : service.StemsFrom engine) {call : Call} {log : List Event}
  {number : Nat → Nat} {sheet : CallSheet}

include stems

/-- Whatever is built for a call is described alike by any service that stems from the same engine. -/
theorem Service.StemsFrom.describes {built : Except Error Expr}
    (builds : call.Builds engine.segments engine.registry.matcher? built) :
    (∃ error error', built = .error error ∧ (service.engine.describe call.subject call.target).1 = .error error') ∨
    ∃ expr other, built = .ok expr ∧ (service.engine.describe call.subject call.target).1 = .ok (Expr.toNode other) ∧
      expr.Alike other := by
  obtain ⟨registry, holds, rfl⟩ := builds
  have both := Engine.buildExpr_alike holds.1 stems.sound (holds.2.trans stems.matcher?_eq.symm) engine.segments
    call.subject call.target
  have describe_eq : (service.engine.describe call.subject call.target).1 =
      (Engine.buildExpr engine.segments service.engine.registry call.subject call.target).1.map (·.toNode) := by
    rw [← stems.segments_eq]
    rfl
  rw [describe_eq]
  generalize (Engine.buildExpr engine.segments registry call.subject call.target).1 = one at both
  generalize (Engine.buildExpr engine.segments service.engine.registry call.subject call.target).1 = two at both
  cases one with
  | error error =>
    cases two with
    | error error' => exact .inl ⟨error, error', rfl, rfl⟩
    | ok expr => exact False.elim both
  | ok expr =>
    cases two with
    | error error => exact False.elim both
    | ok other => exact .inr ⟨expr, other, rfl, rfl, both⟩

theorem Call.Covers.record (covers : call.Covers engine.segments engine.registry.matcher? sheet.matchers) :
    (call.record log number sheet).Covers (service.engine.describe call.subject call.target).1 := by
  obtain ⟨-, ⟨error, builds, none⟩ | ⟨expr, builds, covered⟩⟩ := covers
  · obtain ⟨_, error', -, described⟩ | ⟨_, _, built, -⟩ := stems.describes builds
    · exact .inl ⟨error', described, by rw [Call.record, none]; rfl⟩
    · cases built
  · obtain ⟨_, _, built, -⟩ | ⟨_, other, built, described, alike⟩ := stems.describes builds
    · cases built
    · obtain rfl := Except.ok.inj built
      have keys_eq : other.toNode.keys = expr.leaves.map (·.key) :=
        (Expr.keys_toNode other).trans (Expr.keys_eq_of_alike alike.leaves).symm
      refine .inr ⟨other, described, ?_, fun key => ?_, fun m mem => ?_⟩
      · rw [Call.record, map_key_numbered]
        exact covered.nodup
      · rw [Call.record, map_key_numbered, keys_eq]
        exact covered.keys key
      · obtain ⟨m, listed, rfl⟩ := List.mem_map.1 mem
        exact (Expr.exists_alike alike.leaves).1 m.definition (covered.known m listed)

theorem Call.Decides.record {outcome : Outcome}
    (decides : call.Decides engine.segments engine.registry.matcher? sheet.matchers outcome) :
    (call.record log number sheet).Decides (service.engine.describe call.subject call.target).1 outcome := by
  obtain ⟨-, ⟨error, builds, -, rfl⟩ | ⟨expr, builds, -, settled, concludes⟩⟩ := decides
  · obtain ⟨_, error', -, described⟩ | ⟨_, _, built, -⟩ := stems.describes builds
    · exact .inl ⟨error', error, described, rfl⟩
    · cases built
  · obtain ⟨_, _, built, -⟩ | ⟨_, other, built, described, alike⟩ := stems.describes builds
    · cases built
    · obtain rfl := Except.ok.inj built
      refine .inr ⟨other, described, fun m mem => ?_, ?_⟩
      · obtain ⟨m, listed, rfl⟩ := List.mem_map.1 mem
        exact settled m listed
      · have same : (fun d : Definition => outcomeIn (call.record log number sheet).matchers d.key) =
            fun d => outcomeIn sheet.matchers d.key := funext fun d => outcomeIn_numbered number sheet.matchers d.key
        rw [same]
        exact alike.concludes (fun d d' same => by rw [same.key_eq]) concludes

/-- What is told to the span of the segment after its name. -/
theorem Call.Tells.told {first : Nat} {all : List SpanEvent}
    (tells : Call.Tells engine.segments engine.registry.matcher? first call all log sheet) :
    ∃ told, (call.record log number sheet).Tells (service.engine.describe call.subject call.target).1 told ∧
      heard sheet.tale = told ++ [.finish] ∧ .finish ∉ told := by
  unfold SpanRecord.Tells
  cases answer : (call.record log number sheet).transcript.answer with
  | some value =>
    obtain ⟨outcome, decides, value_eq, appeals_eq, tale_eq⟩ := tells.answered value answer
    refine ⟨_, ⟨outcome, decides.record stems, value_eq, appeals_eq, rfl⟩, ?_, ?_⟩
    · rw [tale_eq]
      exact SpanCall.heard_answered sheet.span outcome value
    · simp [SpanCall.finish_not_mem_ofVerdict]
  | none =>
    rcases tells.dropped answer with ⟨quiet, tale_eq⟩ | ⟨error, decides, appeals_eq, tale_eq⟩
    · refine ⟨[], .inl ⟨quiet, rfl⟩, ?_, List.not_mem_nil⟩
      rw [tale_eq]
      rfl
    · refine ⟨_, .inr ⟨error, decides.record stems, appeals_eq, rfl⟩, ?_, SpanCall.finish_not_mem_ofVerdict _⟩
      rw [tale_eq]
      rfl

/-- The record of a call is faithful to what its spans received. -/
theorem Call.Tells.believable {tracer : CustomTracer} {before final : Telemetry} {old new : List SpanEvent}
    (tells : Call.Tells engine.segments engine.registry.matcher? (starts old).length call (old ++ new) log sheet)
    (reads : Telemetry.Reads tracer before new final) (spans_eq : before.spans.length = (starts old).length)
    (contexts_eq : before.contexts.length = (takens old).length)
    (own : ∀ span ∈ named (spanEvents log), trail span new = trail span (spanEvents log)) :
    (call.record log before.numberOf sheet).Faithful (service.engine.describe call.subject call.target).1
      final.spanCalls := by
  obtain ⟨rooted, matchers⟩ := tells.holds
  have root_since := (rooted.bounds sheet.span rooted.own).1
  obtain ⟨told, tells_told, heard_tale, unfinished⟩ := tells.told stems
  have segment : received final.spanCalls (before.numberOf sheet.span) =
      .start ("segment:" ++ call.target.name) none :: .attribute "segment.name" (.string call.target.name) :: told ++
        [.finish] := by
    rw [reads.received_eq spans_eq root_since rooted.started, own _ rooted.own, rooted.told]
    have heard_cons : heard (.attributed sheet.span "segment.name" (.string call.target.name) :: sheet.tale) =
        .attribute "segment.name" (.string call.target.name) :: heard sheet.tale := rfl
    rw [heard_cons, heard_tale]
    rfl
  have matcher (m : MatcherSheet) (mem : m ∈ sheet.matchers) : received final.spanCalls (before.numberOf m.span) =
      .start ("matcher:" ++ m.definition.name) (some (before.numberOf sheet.span)) ::
        SpanCall.introduction call.target.name m.definition ++ SpanCall.ofOutcome m.outcome ++ [.finish] := by
    obtain ⟨started, trail_eq⟩ := matchers m mem
    have mine : m.span ∈ named (spanEvents log) :=
      rooted.perm.mem_iff.2 (List.mem_cons_of_mem _ (List.mem_map_of_mem mem))
    have parent : ((some (ContextRef.taken sheet.context)).map final.context).map (·.number) =
        some (before.numberOf sheet.span) := congrArg some (reads.number_of_context contexts_eq root_since rooted.taken)
    rw [reads.received_eq spans_eq (rooted.bounds m.span mine).1 started, own _ mine, trail_eq, parent,
      SpanCall.heard_matcher]
    rfl
  refine ⟨tells.covers.record stems, ?_, ⟨told, tells_told, segment⟩, fun m mem => ?_, fun number mem => ?_⟩
  · intro m mem
    obtain ⟨m, listed, rfl⟩ := List.mem_map.1 mem
    exact tells.covers.1 m listed
  · obtain ⟨m, listed, rfl⟩ := List.mem_map.1 mem
    exact matcher m listed
  · rcases List.mem_cons.1 mem with rfl | mem
    · exact ⟨_, segment, by simp [unfinished]⟩
    · obtain ⟨n, n_listed, rfl⟩ := List.mem_map.1 mem
      obtain ⟨m, listed, rfl⟩ := List.mem_map.1 n_listed
      refine ⟨_, matcher m listed, ?_⟩
      simp [SpanCall.finish_not_mem_introduction, SpanCall.finish_not_mem_ofOutcome]

end

/-- Records of calls, one for each log. -/
theorem records_of_logs {Suits : SpanRecord → Prop} {number : Nat → Nat} {calls : List Call} {logs : List (List Event)}
    (each : List.Forall₂ (fun call log => ∃ r : SpanRecord, r.transcript = ⟨call.request, call.answer?, log⟩ ∧ Suits r ∧
      r.numbers.Perm ((named (spanEvents log)).map number)) calls logs) :
    ∃ rs : List SpanRecord, rs.map (·.transcript.request) = calls.map Call.request ∧
      rs.map (·.transcript.answer) = calls.map Call.answer? ∧ rs.map (·.transcript.log) = logs ∧
      (∀ r ∈ rs, Suits r) ∧
      (rs.flatMap (·.numbers)).Perm ((logs.flatMap fun log => named (spanEvents log)).map number) := by
  induction each with
  | nil => exact ⟨[], rfl, rfl, rfl, List.forall_mem_nil _, .refl _⟩
  | @cons call log calls logs first rest ih =>
    obtain ⟨r, transcript_eq, suits, perm⟩ := first
    obtain ⟨rs, requests, answers, logs_eq, all, perms⟩ := ih
    refine ⟨r :: rs, ?_, ?_, ?_, List.forall_mem_cons.2 ⟨suits, all⟩, ?_⟩
    · rw [List.map_cons, List.map_cons, requests, transcript_eq]
    · rw [List.map_cons, List.map_cons, answers, transcript_eq]
    · rw [List.map_cons, logs_eq, transcript_eq]
    · rw [List.flatMap_cons, List.flatMap_cons, List.map_append]
      exact perm.append perms

namespace Service

/-- Calls of a service that has any history behind it, run at once, up to any limit, under a custom tracer that never
panics and has seen all that happened before.  For every call there is one span, without a parent, and under it one for
each key of the tree that is described, and no other span receives anything.  Every span ends once, and then receives
nothing.  The span of an invocation tells its outcome; that of the segment tells the outcome of the evaluation and the
answer, unless the call was dropped. -/
theorem calls_trace_spans {schema : Schema} {options : Options} {groups : List (List (String × Matcher.Draft))}
    {segments : List (String × SegmentDefinition)} {noted : Journal} {engine : Engine}
    (built : (Engine.build schema options groups segments noted).1 = .ok engine) {tracer : CustomTracer}
    (calm : tracer.Calm) (level : Option Level) (logger : Logger) (observer : Option ErrorObserver)
    (journal : Journal) (strays : List Nat) (history others : List Usage) (moves : Nat) (limit : Option Nat)
    (requests : List (Json × Target × Option Fallback)) :
    let service := useAll ⟨engine, journal, strays⟩ history
    let asked := service.ask moves limit
      (requests.map fun (subject, target, fallback) => .start subject target fallback)
    let telemetry := (Telemetry.start level (.custom tracer) logger observer).seeAll service.journal.events
    let calls := (telemetry.readOn service.journal asked.2.2.journal).1.spanCalls
    let describe (t : Transcript) :=
      ((useAll ⟨engine, journal, strays⟩ others).engine.describe t.call.subject t.call.target).1
    ∃ (rs : List SpanRecord) (written : List Event), rs.map (·.transcript.request) = requests ∧
      rs.map (·.transcript.answer) = asked.2.1 ∧ service.journal.Writes written asked.2.2.journal ∧
      Woven (rs.map (·.transcript.log)) written ∧ (∀ r ∈ rs, r.Faithful (describe r.transcript) calls) ∧
      (rs.flatMap (·.numbers)).Nodup ∧ ∀ call ∈ calls, call.1 ∈ rs.flatMap (·.numbers) := by
  intro service asked telemetry calls describe
  obtain ⟨_, -, registry_eq⟩ := Engine.registry_of_build built
  have fresh : (⟨engine, journal, strays⟩ : Service).StemsFrom engine :=
    ⟨rfl, registry_eq ▸ Registry.sound_compile _ _, rfl⟩
  have stems : service.StemsFrom engine := fresh.useAll history
  have describing := fresh.useAll others
  have holds : Holds engine.registry.matcher? service.engine.registry := ⟨stems.sound, stems.matcher?_eq⟩
  obtain ⟨asking, logs, written, requests_eq, answers_eq, begun, writes, woven, registers, closed⟩ :=
    ask_logbooks (Call.traced_kept engine.segments engine.registry.matcher? service.journal) stems.segments_eq holds
      moves limit requests (.start service.journal requests)
  obtain ⟨before, final, spans_eq, contexts_eq, reads, calls_eq⟩ :=
    Telemetry.readOn_reads calm level logger observer writes registers
  have final_calls : calls = final.spanCalls := calls_eq
  obtain ⟨since, since_eq, -, perm⟩ := registers
  obtain rfl : since = written := List.append_cancel_left (since_eq.symm.trans writes)
  have nodup : (logs.flatMap fun log => named (spanEvents log)).Nodup := perm.nodup_iff.2 List.nodup_range'
  have bounds : ∀ span ∈ logs.flatMap fun log => named (spanEvents log), before.spans.length ≤ span := by
    intro span mem
    rw [spans_eq, ← Journal.spanCount_eq]
    exact (List.mem_range'_1.1 (perm.mem_iff.1 mem)).1
  have events_eq : spanEvents asked.2.2.journal.events = spanEvents service.journal.events ++ spanEvents since := by
    rw [show asked.2.2.journal.events = service.journal.events ++ since from writes, spanEvents_append]
  -- every call has begun, so it has a sheet
  have sheets {index : Nat} {call : Call} {log : List Event} (at_call : asking[index]? = some call)
      (at_log : logs[index]? = some log) : ∃ sheet, Call.Tells engine.segments engine.registry.matcher?
        (starts (spanEvents service.journal.events)).length call
        (spanEvents service.journal.events ++ spanEvents since) log sheet := by
    obtain ⟨_, here, recounts⟩ := forall₂_getElem? closed at_call
    obtain rfl := Option.some.inj (at_log.symm.trans here)
    rw [events_eq, Journal.spanCount_eq] at recounts
    rcases recounts with ⟨waiting, -⟩ | tells
    · exact absurd waiting (begun call (List.mem_of_getElem? at_call))
    · exact tells
  have acts : ∀ log ∈ logs, ∀ event ∈ spanEvents log, ∀ span, event.acts? = some span → span ∈ named (spanEvents log) := by
    intro log mem
    obtain ⟨index, at_log⟩ := List.mem_iff_getElem?.1 mem
    obtain ⟨call, at_call, -⟩ := forall₂_getElem? closed.flip at_log
    obtain ⟨sheet, tells⟩ := sheets at_call at_log
    exact tells.holds.rooted.acts
  have each : List.Forall₂ (fun call log => ∃ r : SpanRecord, r.transcript = ⟨call.request, call.answer?, log⟩ ∧
      r.Faithful (describe r.transcript) calls ∧ r.numbers.Perm ((named (spanEvents log)).map before.numberOf))
      asking logs := by
    refine forall₂_of_getElem? closed.length_eq fun index call log at_call at_log => ?_
    obtain ⟨sheet, tells⟩ := sheets at_call at_log
    refine ⟨call.record log before.numberOf sheet, rfl, ?_, ?_⟩
    · rw [final_calls]
      exact tells.believable describing reads spans_eq contexts_eq fun span mine => woven.trail_eq nodup acts at_log mine
    · have numbered := (tells.holds.rooted.perm.map before.numberOf).symm
      rw [List.map_cons, List.map_map] at numbered
      refine .trans (.of_eq ?_) numbered
      change _ :: (sheet.matchers.map _).map _ = _
      rw [List.map_map]
      rfl
  obtain ⟨rs, requests_eq', answers_eq', logs_eq, faithful, numbers⟩ := records_of_logs each
  refine ⟨rs, since, requests_eq'.trans requests_eq, answers_eq'.trans answers_eq, writes, logs_eq ▸ woven, faithful, ?_,
    fun call mem => ?_⟩
  · refine numbers.nodup_iff.2 (List.Nodup.map_on (fun span mem span' mem' same => ?_) nodup)
    exact Telemetry.numberOf_inj (bounds span mem) (bounds span' mem') same
  · rw [final_calls] at mem
    obtain ⟨span, new, old, number_eq⟩ := reads.only call mem
    rw [number_eq]
    refine numbers.mem_iff.2 (List.mem_map_of_mem (perm.mem_iff.2 (List.mem_range'_1.2 ?_)))
    rw [reads.spans] at old
    rw [Journal.spanCount_eq, ← spans_eq]
    exact ⟨new, old⟩

/-! A segment that asks one matcher at two leaves, and one that takes its time. -/

def gradualMatchers : List (List (String × Matcher.Draft)) :=
  [[("member", ⟨none, some fun _ _ => .starts (.done (.value true)), none⟩),
    ("slow", ⟨none, some fun _ _ => .starts (.sleep 10 (.done (.value true))), none⟩)]]

def gradualSegments : List (String × SegmentDefinition) :=
  [("gradual", fun _ => .and [.matcher "member", .matcher "member", .matcher "slow"])]

/-- A new engine with these matchers and this segment. -/
def gradualEngine : Engine :=
  ⟨.any, Keyed.ofList gradualSegments,
    .compile [("member", ⟨none, .single fun _ _ => .starts (.done (.value true))⟩),
      ("slow", ⟨none, .single fun _ _ => .starts (.sleep 10 (.done (.value true)))⟩)] defaultMemoCapacity, .default⟩

/-- A call is dropped while one of its invocations sleeps: three spans were started, and all of them have ended. -/
theorem dropped_call_ends_its_spans :
    let tracer : CustomTracer := ⟨fun _ _ => false, fun _ => false⟩
    let asked := (⟨gradualEngine, .empty, []⟩ : Service).ask 20 (some 5) [.start .null (.named "gradual") none]
    let calls := ((Telemetry.start none (.custom tracer) .silent none).readOn .empty asked.2.2.journal).1.spanCalls
    let described : Except Error Node := .ok (.and [.leaf "member" none, .leaf "member" none, .leaf "slow" none])
    tracer.Calm ∧ ∃ r : SpanRecord, r.transcript.answer = none ∧ r.Faithful described calls ∧
      (r.matchers.map (·.definition.key)).Perm ["member", "slow"] ∧
      calls.map (·.1) = [1, 1, 2, 2, 2, 2, 2, 2, 3, 3, 3, 3, 1] := by
  intro tracer asked calls described
  have calm : tracer.Calm := ⟨fun _ _ => rfl, fun _ => rfl⟩
  have built : (Engine.build .any .default gradualMatchers gradualSegments .empty).1 = .ok gradualEngine := rfl
  obtain ⟨rs, written, requests_eq, answers_eq, -, -, faithful, -⟩ :=
    calls_trace_spans built calm none .silent none .empty [] [] [] 20 (some 5) [(.null, .named "gradual", none)]
  have same : (useAll ⟨gradualEngine, .empty, []⟩ []).ask 20 (some 5)
      ([(.null, .named "gradual", none)].map fun (subject, target, fallback) => .start subject target fallback) =
      asked := rfl
  rw [same] at answers_eq
  obtain ⟨r, rfl, request_eq⟩ := List.map_eq_singleton_iff.1 requests_eq
  have dropped : [r.transcript.answer] = [none] := answers_eq.trans (by decide +kernel)
  have all := faithful r List.mem_cons_self
  have describe_eq : (gradualEngine.describe r.transcript.call.subject r.transcript.call.target).1 = described := by
    rw [Transcript.call, request_eq]
    rfl
  change r.Faithful (gradualEngine.describe r.transcript.call.subject r.transcript.call.target).1 calls at all
  rw [describe_eq] at all
  refine ⟨calm, r, List.singleton_inj.1 dropped, all, ?_, by decide +kernel⟩
  obtain ⟨error, described_eq, -⟩ | ⟨expr, described_eq, nodup, keys, -⟩ := all.covers
  · exact absurd described_eq nofun
  · refine (List.perm_ext_iff_of_nodup nodup (by decide)).2 fun key => ?_
    rw [keys, ← Except.ok.inj described_eq]
    have keys_eq : Node.keys (.and [.leaf "member" none, .leaf "member" none, .leaf "slow" none]) =
        ["member", "member", "slow"] := rfl
    rw [keys_eq]
    simp

end Service

end Segmentation
