import Segmentation.Proofs.Invocations
import Segmentation.Proofs.Timetable
import Segmentation.Proofs.Trails

/-!
# The sheets of a call

A call has a span for its segment, without a parent, and under it one for each of its invocations.  A `CallSheet` lists
them; it holds of what the call has written (`CallSheet.Holds`) whatever others write meanwhile.  The sheets of an
evaluation are for the keys at the leaves (`Evaluation.Underway.coveredBy`), and with their outcomes they decide what the
evaluation comes to (`Evaluation.Underway.decides`).
-/

namespace Segmentation

open SpanEvent (Orderly Concerns starts takens named trail)

/-- The outcome at a stage, if there is one. -/
def Stage.result? : Stage → Option Outcome
  | .settled outcome => some outcome
  | _ => none

/-- The span of an invocation. -/
structure MatcherSheet where
  span : Nat
  definition : Definition
  outcome : Option Outcome

/-- What follows the start of the span; without an outcome it ends with what is given. -/
def MatcherSheet.events (segment : String) (ending : Nat → List SpanEvent) (m : MatcherSheet) : List SpanEvent :=
  Invocation.introduction segment m.definition m.span ++
    match m.outcome with
    | some outcome => Invocation.closing m.span outcome
    | none => ending m.span

/-- The spans of a call: that of its segment with a context taken from it, what was told to it, and those of the
invocations. -/
structure CallSheet where
  span : Nat
  context : Nat
  tale : List SpanEvent
  matchers : List MatcherSheet

/-- The span of a segment was started, a context was taken from it, and it was told something; the call has started this
span and some others, and has done nothing with any but these.  Here `all` is what was ever written of spans, and `log`
what of it the call has written. -/
structure Rooted (first : Nat) (segment : String) (all log : List SpanEvent) (span context : Nat) (tale : List SpanEvent)
    (others : List Nat) : Prop where
  started : (starts all)[span]? = some (0, "segment:" ++ segment, none)
  taken : SpanEvent.Takes all span context
  told : trail span log = .attributed span "segment.name" (.string segment) :: tale
  perm : (named log).Perm (span :: others)
  nodup : (named log).Nodup
  bounds : ∀ span ∈ named log, first ≤ span ∧ span < (starts all).length
  acts : ∀ event ∈ log, ∀ span, event.acts? = some span → span ∈ named log

namespace Rooted

variable {first : Nat} {segment : String} {all log : List SpanEvent} {span context : Nat} {tale : List SpanEvent}
  {others : List Nat}

theorem own (rooted : Rooted first segment all log span context tale others) : span ∈ named log :=
  rooted.perm.mem_iff.2 List.mem_cons_self

theorem not_mem (rooted : Rooted first segment all log span context tale others) : span ∉ others :=
  (List.nodup_cons.1 (rooted.perm.nodup_iff.1 rooted.nodup)).1

theorem getElem?_grown {α : Type} {l : List α} {index : Nat} {a : α} (here : l[index]? = some a) (more : List α) :
    (l ++ more)[index]? = some a := by
  rw [List.getElem?_append_left (List.getElem?_eq_some_iff.1 here).1]
  exact here

/-- Others may write meanwhile. -/
theorem later (rooted : Rooted first segment all log span context tale others) (more : List SpanEvent) :
    Rooted first segment (all ++ more) log span context tale others := by
  refine ⟨?_, rooted.taken.append more, rooted.told, rooted.perm, rooted.nodup, fun other mem => ?_, rooted.acts⟩
  · rw [SpanEvent.starts_append]
    exact getElem?_grown rooted.started _
  · have bounds := rooted.bounds other mem
    rw [SpanEvent.starts_append, List.length_append]
    omega

/-- Something more is told to the span. -/
theorem tell (rooted : Rooted first segment all log span context tale others) {more : List SpanEvent}
    (concerns : Concerns span more) :
    Rooted first segment (all ++ more) (log ++ more) span context (tale ++ trail span more) others := by
  obtain ⟨started, taken, told, perm, nodup, bounds, acts⟩ := rooted.later more
  have named_eq : named (log ++ more) = named log := by
    rw [SpanEvent.named_append, concerns.unnamed, List.append_nil]
  refine ⟨started, taken, ?_, ?_, ?_, ?_, fun event mem other is => ?_⟩
  · rw [SpanEvent.trail_append, told]
    rfl
  · rw [named_eq]
    exact perm
  · rw [named_eq]
    exact nodup
  · rw [named_eq]
    exact bounds
  · rw [named_eq]
    rcases List.mem_append.1 mem with old | new
    · exact acts event old other is
    · obtain rfl := concerns.acts event new other is
      exact rooted.own

/-- Something is done with other spans of the call, old and new ones. -/
theorem trace {before after : Journal} {mine written : List Event} {more : List Nat}
    (rooted : Rooted first segment (spanEvents before.events) (spanEvents mine) span context tale others)
    (traces : before.Traces first others written after) (perm : more.Perm (others ++ named (spanEvents written))) :
    Rooted first segment (spanEvents after.events) (spanEvents (mine ++ written)) span context tale more := by
  obtain ⟨started, taken, told, old_perm, nodup, bounds, acts⟩ := rooted.later (spanEvents written)
  have events_eq : spanEvents after.events = spanEvents before.events ++ spanEvents written := by
    rw [show after.events = before.events ++ written from traces.writes, spanEvents_append]
  have above : first ≤ before.spanCount := by
    have own := rooted.bounds span rooted.own
    rw [before.spanCount_eq]
    omega
  have old (other : Nat) (mem : other ∈ named (spanEvents mine)) : other < before.spanCount := by
    rw [before.spanCount_eq]
    exact (rooted.bounds other mem).2
  have own : span < before.spanCount := old span rooted.own
  rw [events_eq, spanEvents_append]
  refine ⟨started, taken, ?_, ?_, ?_, fun other mem => ?_, fun event mem other is => ?_⟩
  · have untouched : trail span (spanEvents written) = [] := by
      refine SpanEvent.trail_eq_nil fun event mem is => ?_
      rcases traces.acts event mem span is with known | new
      · exact rooted.not_mem known
      · exact Nat.lt_irrefl _ (Nat.lt_of_lt_of_le own (traces.named_ge span new).1)
    rw [SpanEvent.trail_append, untouched, List.append_nil]
    exact told
  · rw [SpanEvent.named_append]
    exact (old_perm.append_right _).trans (perm.symm.cons span)
  · rw [SpanEvent.named_append, List.nodup_append]
    refine ⟨nodup, ?_, fun a is_old b is_new same => ?_⟩
    · rw [traces.named_eq]
      exact List.nodup_range'
    · have lt := old a is_old
      have ge := (traces.named_ge b is_new).1
      omega
  · rw [SpanEvent.named_append, List.mem_append] at mem
    rcases mem with mem | mem
    · exact bounds other mem
    · have new := traces.named_ge other mem
      rw [← events_eq, ← after.spanCount_eq]
      omega
  · rw [SpanEvent.named_append, List.mem_append]
    rcases List.mem_append.1 mem with mem | mem
    · exact .inl (acts event mem other is)
    · exact (traces.acts event mem other is).imp_left fun known =>
        old_perm.mem_iff.2 (List.mem_cons_of_mem _ known)

end Rooted

namespace CallSheet

/-- The sheet holds of what a call has written. -/
structure Holds (first : Nat) (segment : String) (ending : Nat → List SpanEvent) (all log : List SpanEvent)
    (sheet : CallSheet) : Prop where
  rooted : Rooted first segment all log sheet.span sheet.context sheet.tale (sheet.matchers.map (·.span))
  matchers : ∀ m ∈ sheet.matchers,
    (starts all)[m.span]? = some (0, "matcher:" ++ m.definition.name, some (.taken sheet.context)) ∧
      trail m.span log = m.events segment ending

variable {first : Nat} {segment : String} {ending : Nat → List SpanEvent} {all log : List SpanEvent} {sheet : CallSheet}

/-- Others may write meanwhile. -/
theorem Holds.later (holds : sheet.Holds first segment ending all log) (more : List SpanEvent) :
    sheet.Holds first segment ending (all ++ more) log := by
  refine ⟨holds.rooted.later more, fun m mem => ⟨?_, (holds.matchers m mem).2⟩⟩
  rw [SpanEvent.starts_append]
  exact Rooted.getElem?_grown (holds.matchers m mem).1 _

/-- Something more is told to the span of the segment. -/
theorem Holds.tell (holds : sheet.Holds first segment ending all log) {more : List SpanEvent}
    (concerns : Concerns sheet.span more) :
    CallSheet.Holds first segment ending (all ++ more) (log ++ more)
      { sheet with tale := sheet.tale ++ trail sheet.span more } := by
  refine ⟨holds.rooted.tell concerns, fun m mem => ⟨((holds.later more).matchers m mem).1, ?_⟩⟩
  have none : trail m.span more = [] := by
    refine SpanEvent.trail_eq_nil fun event listed is => holds.rooted.not_mem ?_
    have same := concerns.acts event listed m.span is
    exact same ▸ List.mem_map_of_mem mem
  rw [SpanEvent.trail_append, none, List.append_nil]
  exact (holds.matchers m mem).2

/-- How spans end that have an outcome does not depend on how others end. -/
theorem Holds.settled (holds : sheet.Holds first segment ending all log) (settled : ∀ m ∈ sheet.matchers, m.outcome.isSome)
    (other : Nat → List SpanEvent) : sheet.Holds first segment other all log := by
  refine ⟨holds.rooted, fun m mem => ⟨(holds.matchers m mem).1, (holds.matchers m mem).2.trans ?_⟩⟩
  obtain ⟨outcome, ended⟩ := Option.isSome_iff_exists.1 (settled m mem)
  rw [MatcherSheet.events, MatcherSheet.events, ended]

variable {before later : Journal} {mine written : List Event}

/-- Something more is told to the span of the segment, and something to others than spans. -/
theorem Holds.write (holds : sheet.Holds first segment ending (spanEvents before.events) (spanEvents mine))
    (writes : before.Writes written later) (concerns : Concerns sheet.span (spanEvents written)) :
    before.Traces first (named (spanEvents mine)) written later ∧
      CallSheet.Holds first segment ending (spanEvents later.events) (spanEvents (mine ++ written))
        { sheet with tale := sheet.tale ++ trail sheet.span (spanEvents written) } := by
  have own := holds.rooted.own
  have bounds := holds.rooted.bounds sheet.span own
  rw [← before.spanCount_eq] at bounds
  refine ⟨.of_concerns writes concerns bounds own, ?_⟩
  rw [show later.events = before.events ++ written from writes, spanEvents_append, spanEvents_append]
  exact holds.tell concerns

/-- The spans end that have no outcome. -/
def remains (sheet : CallSheet) : List SpanEvent :=
  (sheet.matchers.filter fun m => m.outcome.isNone).map fun m => .ended m.span

theorem trail_remains (nodup : (sheet.matchers.map (·.span)).Nodup) {m : MatcherSheet} (mem : m ∈ sheet.matchers) :
    trail m.span sheet.remains = if m.outcome.isNone then [.ended m.span] else [] := by
  unfold remains
  generalize sheet.matchers = ms at nodup mem
  induction ms with
  | nil => cases mem
  | cons other ms ih =>
    obtain ⟨new, nodup⟩ := List.nodup_cons.1 nodup
    rcases List.mem_cons.1 mem with rfl | mem
    · have elsewhere : trail m.span ((ms.filter fun m => m.outcome.isNone).map fun m => .ended m.span) = [] := by
        refine SpanEvent.trail_eq_nil fun event listed is => ?_
        obtain ⟨n, n_listed, rfl⟩ := List.mem_map.1 listed
        have same : n.span = m.span := Option.some.inj is
        exact new (List.mem_map.2 ⟨n, List.mem_of_mem_filter n_listed, same⟩)
      rw [List.filter_cons]
      split
      · rw [List.map_cons, trail, List.filter_cons_of_pos (by simp [SpanEvent.acts?])]
        exact congrArg _ elsewhere
      · exact elsewhere
    · have ne : other.span ≠ m.span := fun same => new (List.mem_map.2 ⟨m, mem, same.symm⟩)
      rw [List.filter_cons]
      split
      · rw [List.map_cons, trail, List.filter_cons_of_neg (by simpa [SpanEvent.acts?] using ne)]
        exact ih nodup mem
      · exact ih nodup mem

/-- When the spans that have no outcome end, all have ended. -/
theorem Holds.close (holds : sheet.Holds first segment (fun _ => []) (spanEvents before.events) (spanEvents mine))
    (writes : before.Writes written later) (ends : spanEvents written = sheet.remains) :
    before.Traces first (named (spanEvents mine)) written later ∧
      sheet.Holds first segment (fun span => [.ended span]) (spanEvents later.events) (spanEvents (mine ++ written)) := by
  have rooted := holds.rooted
  have known : ∀ m ∈ sheet.matchers, m.span ∈ named (spanEvents mine) := fun m mem =>
    rooted.perm.mem_iff.2 (List.mem_cons_of_mem _ (List.mem_map_of_mem mem))
  have acts : ∀ event ∈ sheet.remains, ∀ span, event.acts? = some span → span ∈ sheet.matchers.map (·.span) := by
    intro event mem span is
    obtain ⟨m, listed, rfl⟩ := List.mem_map.1 mem
    obtain rfl := Option.some.inj is
    exact List.mem_map_of_mem (List.mem_of_mem_filter listed)
  have quiet (f : SpanEvent → Option Nat) (none : ∀ span, f (.ended span) = none) :
      sheet.remains.filterMap f = [] := by
    refine List.filterMap_eq_nil_iff.2 fun event mem => ?_
    obtain ⟨m, -, rfl⟩ := List.mem_map.1 mem
    exact none m.span
  have no_starts : starts sheet.remains = [] := by
    refine List.filterMap_eq_nil_iff.2 fun event mem => ?_
    obtain ⟨m, -, rfl⟩ := List.mem_map.1 mem
    rfl
  have no_names : named sheet.remains = [] := quiet _ fun _ => rfl
  -- what remains are ends of spans that the sheet knows
  have traces : before.Traces first (sheet.matchers.map (·.span)) written later := by
    refine ⟨writes, ?_, ?_, ?_⟩
    · rw [ends]
      refine SpanEvent.orderly_of_acts _ (fun event mem span is => ?_) no_starts (quiet _ fun _ => rfl)
      obtain ⟨m, listed, rfl⟩ := List.mem_map.1 (acts event mem span is)
      have bounds := rooted.bounds m.span (known m listed)
      rwa [← before.spanCount_eq] at bounds
    · rw [ends, no_names, no_starts]
      rfl
    · rw [ends]
      exact fun event mem span is => .inl (acts event mem span is)
  have sub : sheet.matchers.map (·.span) ⊆ named (spanEvents mine) := fun span mem => by
    obtain ⟨m, listed, rfl⟩ := List.mem_map.1 mem
    exact known m listed
  refine ⟨traces.mono sub, rooted.trace traces ?_, fun m mem => ?_⟩
  · rw [ends, no_names, List.append_nil]
  · obtain ⟨started, told⟩ := holds.matchers m mem
    have nodup : (sheet.matchers.map (·.span)).Nodup := (List.nodup_cons.1 (rooted.perm.nodup_iff.1 rooted.nodup)).2
    constructor
    · rw [show later.events = before.events ++ written from writes, spanEvents_append, SpanEvent.starts_append]
      exact Rooted.getElem?_grown started _
    · rw [spanEvents_append, SpanEvent.trail_append, told, ends, sheet.trail_remains nodup mem, MatcherSheet.events,
        MatcherSheet.events]
      cases m.outcome with
      | none => rw [List.append_nil]; rfl
      | some outcome => exact List.append_nil _

end CallSheet

/-! ### Sessions and their sheets -/

namespace Stage

/-- What was done with the span of an invocation: its introduction, and its end if there is an outcome. -/
theorem trail_shown {span : Nat} {stage : Stage} (owns : stage.Owns span) (scope : Scope) (definition : Definition) :
    trail span (stage.shown scope definition span) =
      (MatcherSheet.mk span definition stage.result?).events scope.segment fun _ => [] := by
  have introduced : trail span (Invocation.opening scope definition span) =
      Invocation.introduction scope.segment definition span := by
    rw [Invocation.opening_eq]
    refine (List.filter_cons_of_neg (by simp [SpanEvent.acts?])).trans (SpanEvent.trail_of_acts ?_)
    exact Invocation.introduction_acts scope.segment definition span
  cases stage with
  | fresh => exact owns.elim
  | settled outcome =>
    have closed := SpanEvent.trail_of_acts (Invocation.closing_acts span outcome)
    exact (SpanEvent.trail_append _ _ span).trans (congrArg₂ _ introduced closed)
  | validating own deadline rest => exact introduced.trans (List.append_nil _).symm
  | evaluating own args deadline rest => exact introduced.trans (List.append_nil _).symm
  | awaiting own load => exact introduced.trans (List.append_nil _).symm

end Stage

/-- The sheet of an invocation. -/
structure MatcherSheet.Of (i : Invocation) (m : MatcherSheet) : Prop where
  definition_eq : m.definition = i.definition
  outcome_eq : m.outcome = i.stage.result?
  owns : i.stage.Owns m.span

/-- The scope of a call whose evaluation has some context. -/
def Call.scopeIn (call : Call) (context : Nat) : Scope := ⟨call.subject, call.target.name, true, 0, some (.taken context)⟩

theorem forall₂_of_getElem? {α β : Type} {R : α → β → Prop} {l : List α} {m : List β} (length_eq : l.length = m.length)
    (each : ∀ (index : Nat) (a : α) (b : β), l[index]? = some a → m[index]? = some b → R a b) : List.Forall₂ R l m := by
  induction l generalizing m with
  | nil =>
    obtain rfl := List.length_eq_zero_iff.1 length_eq.symm
    exact .nil
  | cons a l ih =>
    cases m with
    | nil => cases length_eq
    | cons b m => exact .cons (each 0 a b rfl rfl) (ih (Nat.succ.inj length_eq) fun index => each (index + 1))

/-- Spans none of which is missing. -/
theorem knownSpans_map_some (spans : List Nat) : knownSpans (spans.map some) = spans := by
  rw [knownSpans, List.flatMap_map]
  exact List.flatMap_singleton' spans

namespace Session

variable {first : Nat} {session : Session} {journal : Journal} {log : List Event}

/-- Before an invocation has begun it has no span. -/
theorem Unbegun.traced {scope : Scope} {definitions : List Definition} (unbegun : session.Unbegun scope definitions)
    (below : ∀ event ∈ spanEvents log, ∀ span, event.acts? = some span → span < journal.spanCount) :
    session.Traced first journal log (List.replicate session.invocations.length none) := by
  have unknown : knownSpans (List.replicate session.invocations.length none) = [] := by simp [knownSpans]
  refine ⟨List.length_replicate, fun index i span? here known => ?_, ?_, ?_, below⟩
  · obtain rfl : span? = none := List.eq_of_mem_replicate (List.mem_of_getElem? known)
    exact (unbegun.fresh i (List.mem_of_getElem? here)).1
  · rw [unknown]
    exact List.nodup_nil
  · rw [unknown]
    exact List.forall_mem_nil _

/-- When all invocations have begun their spans make a sheet. -/
theorem Traced.sheets {spans : List (Option Nat)} (traced : session.Traced first journal log spans)
    (begun : ∀ index < spans.length, ∃ span, spans[index]? = some (some span)) :
    ∃ ms : List MatcherSheet, ms.map (·.span) = knownSpans spans ∧ List.Forall₂ MatcherSheet.Of session.invocations ms ∧
      ∀ m ∈ ms, (starts (spanEvents journal.events))[m.span]? =
          some (session.scope.tracer, "matcher:" ++ m.definition.name, session.scope.parent) ∧
        trail m.span (spanEvents log) = m.events session.scope.segment fun _ => [] := by
  obtain ⟨numbers, rfl⟩ : ∃ numbers : List Nat, spans = numbers.map some := by
    clear traced
    induction spans with
    | nil => exact ⟨[], rfl⟩
    | cons span? spans ih =>
      obtain ⟨numbers, rfl⟩ := ih fun index lt => begun (index + 1) (Nat.succ_lt_succ lt)
      obtain ⟨span, is⟩ := begun 0 (Nat.zero_lt_succ _)
      obtain rfl := Option.some.inj is
      exact ⟨span :: numbers, rfl⟩
  have length_eq : session.invocations.length = numbers.length := by
    rw [← traced.length_eq, List.length_map]
  let ms := session.invocations.zipWith (fun i span => MatcherSheet.mk span i.definition i.stage.result?) numbers
  have spans_eq : ms.map (·.span) = numbers :=
    List.ext_getElem (by simp [ms, length_eq]) fun index lt lt' => by simp [ms]
  have of_index (index : Nat) (m : MatcherSheet) (listed : ms[index]? = some m) :
      ∃ i, session.invocations[index]? = some i ∧ m = ⟨m.span, i.definition, i.stage.result?⟩ ∧
        i.Traced session.scope (spanEvents journal.events) (spanEvents log) (some m.span) := by
    obtain ⟨i, span, at_i, at_span, rfl⟩ := List.getElem?_zipWith_eq_some.1 listed
    exact ⟨i, at_i, rfl, traced.each index i (some span) at_i (by rw [List.getElem?_map, at_span]; rfl)⟩
  refine ⟨ms, by rw [knownSpans_map_some, spans_eq], ?_, fun m mem => ?_⟩
  · refine forall₂_of_getElem? (by simp [ms, length_eq]) fun index i m here listed => ?_
    obtain ⟨j, at_j, is, own⟩ := of_index index m listed
    obtain rfl := Option.some.inj (here.symm.trans at_j)
    rw [is]
    exact ⟨rfl, rfl, own.1⟩
  · obtain ⟨index, listed⟩ := List.mem_iff_getElem?.1 mem
    obtain ⟨i, -, is, owns, started, told⟩ := of_index index m listed
    have name_eq : m.definition.name = i.definition.name := by rw [is]
    refine ⟨name_eq ▸ started, told.trans ?_⟩
    rw [Stage.trail_shown owns, ← is]

/-- An invocation that is dropped ends its span, if it has no outcome. -/
private theorem invocation_drop {scope : Scope} (traced : scope.parent.isSome) {i : Invocation} {m : MatcherSheet}
    (of : MatcherSheet.Of i m) (journal : Journal) :
    ∃ written, journal.Writes written (i.drop scope journal) ∧ appeals written = [] ∧
      spanEvents written = if m.outcome.isNone then [.ended m.span] else [] := by
  obtain ⟨-, outcome_eq, owns⟩ := of
  have ends {span : Nat} (own : span = m.span) (journal : Journal) :
      ∃ written, journal.Writes written (journal.recordAll (scope.spanEvents [.ended span])) ∧ appeals written = [] ∧
        spanEvents written = [.ended m.span] := by
    rw [own, Scope.spanEvents, if_pos traced]
    exact ⟨_, journal.writes_recordAll _, rfl, rfl⟩
  unfold Invocation.drop
  rw [outcome_eq]
  cases stage : i.stage with
  | fresh => exact absurd stage owns.ne_fresh
  | validating span deadline rest => exact ends (by rwa [stage] at owns) journal
  | awaiting span load => exact ends (by rwa [stage] at owns) journal
  | settled outcome => exact ⟨[], Journal.writes_nil rfl, rfl, rfl⟩
  | evaluating span args deadline rest =>
    have own : span = m.span := by rwa [stage] at owns
    obtain ⟨written, writes, quiet, told⟩ := ends own (journal.record (.evaluatorDropped i.definition.name))
    have dropped := journal.writes_record (.evaluatorDropped i.definition.name)
    exact ⟨_, dropped.trans writes, quiet, told⟩

/-- When a session is dropped the spans end whose invocations have no outcome. -/
theorem drop_writes {ms : List MatcherSheet} (of : List.Forall₂ MatcherSheet.Of session.invocations ms)
    (traced : session.scope.parent.isSome) (journal : Journal) :
    ∃ written, journal.Writes written (session.drop journal) ∧ appeals written = [] ∧
      spanEvents written = (ms.filter fun m => m.outcome.isNone).map fun m => .ended m.span := by
  unfold drop
  generalize session.invocations = invocations at of
  induction of generalizing journal with
  | nil => exact ⟨[], Journal.writes_nil rfl, rfl, rfl⟩
  | @cons i m rest ms i_of _ ih =>
    obtain ⟨first, writes, quiet, told⟩ := invocation_drop traced i_of journal
    obtain ⟨more, writes', quiet', told'⟩ := ih (i.drop session.scope journal)
    refine ⟨first ++ more, writes.trans writes', ?_, ?_⟩
    · rw [appeals_append, quiet, quiet', List.append_nil]
    · rw [spanEvents_append, told, told', List.filter_cons]
      split <;> rfl

/-- The spans on the sheet of a call are those of the invocations of its session. -/
theorem traced_of_holds {call : Call} {span context : Nat} {tale : List SpanEvent} {ms : List MatcherSheet}
    (holds : CallSheet.Holds first call.target.name (fun _ => []) (spanEvents journal.events) (spanEvents log)
      ⟨span, context, tale, ms⟩)
    (scope_eq : session.scope = call.scopeIn context) (of : List.Forall₂ MatcherSheet.Of session.invocations ms) :
    session.Traced first journal log (ms.map (some ·.span)) := by
  have known_eq : knownSpans (ms.map (some ·.span)) = ms.map (·.span) := by
    have same : ms.map (some ·.span) = (ms.map (·.span)).map some := (List.map_map ..).symm
    rw [same, knownSpans_map_some]
  have sub : ∀ s ∈ ms.map (·.span), s ∈ named (spanEvents log) := fun s mem =>
    holds.rooted.perm.mem_iff.2 (List.mem_cons_of_mem _ mem)
  refine ⟨?_, fun index i span? here listed => ?_, ?_, fun s mem => ?_, fun event mem s acts => ?_⟩
  · rw [List.length_map]
    exact of.length_eq.symm
  · obtain ⟨m, at_m, definition_eq, outcome_eq, owns⟩ := forall₂_getElem? of here
    rw [List.getElem?_map, at_m] at listed
    obtain rfl := Option.some.inj listed
    obtain ⟨started, told⟩ := holds.matchers m (List.mem_of_getElem? at_m)
    refine ⟨owns, ?_, ?_⟩
    · rw [scope_eq, ← definition_eq]
      exact started
    · rw [told, Stage.trail_shown owns, scope_eq, ← definition_eq, ← outcome_eq]
      rfl
  · rw [known_eq]
    exact (List.nodup_cons.1 (holds.rooted.perm.nodup_iff.1 holds.rooted.nodup)).2
  · rw [known_eq] at mem
    rw [journal.spanCount_eq]
    exact holds.rooted.bounds s (sub s mem)
  · rw [journal.spanCount_eq]
    exact (holds.rooted.bounds s (holds.rooted.acts event mem s acts)).2

end Session

/-! ### Passes of a drive -/

/-- Nothing was said of spans, and nobody was told of an error. -/
def Journal.Mutes (before later : Journal) : Prop :=
  ∃ written, before.Writes written later ∧ spanEvents written = [] ∧ appeals written = []

namespace Journal.Mutes

theorem refl {before later : Journal} (same : later.events = before.events) : before.Mutes later :=
  ⟨[], writes_nil same, rfl, rfl⟩

theorem trans {a b c : Journal} (ab : a.Mutes b) (bc : b.Mutes c) : a.Mutes c := by
  obtain ⟨first, writes, mute, quiet⟩ := ab
  obtain ⟨second, writes', mute', quiet'⟩ := bc
  refine ⟨first ++ second, writes.trans writes', ?_, ?_⟩
  · rw [spanEvents_append, mute, mute', List.append_nil]
  · rw [appeals_append, quiet, quiet', List.append_nil]

end Journal.Mutes

theorem Journal.Notes.mutes {before later : Journal} {happened : List Happening} (notes : before.Notes happened later) :
    before.Mutes later := by
  obtain ⟨written, writes, all, -⟩ := notes
  refine ⟨written, writes, spanEvents_of_none fun event mem => ?_, (silent_of_all fun event mem => (all event mem).silent).2⟩
  have note := all event mem
  cases event with
  | span event => exact note.elim
  | _ => rfl

namespace Session

theorem invocationFor_mutes (session : Session) (definition : Definition) (journal : Journal) :
    journal.Mutes (session.invocationFor definition journal).2.2 := by
  unfold invocationFor
  dsimp only
  split
  · exact ⟨_, journal.writes_notice _, rfl, rfl⟩
  · exact .refl rfl

mutual

theorem launch_mutes : (expr : Expr) → (session : Session) → (journal : Journal) →
    journal.Mutes (session.launch expr journal).2.2
  | .leaf d, session, journal => session.invocationFor_mutes d journal
  | .and es, session, journal => launchAll_mutes es session journal
  | .or es, session, journal => launchAll_mutes es session journal
  | .not e, session, journal => launch_mutes e session journal

theorem launchAll_mutes : (exprs : List Expr) → (session : Session) → (journal : Journal) →
    journal.Mutes (session.launchAll exprs journal).2.2
  | [], _, _ => .refl rfl
  | e :: es, session, journal => (launch_mutes e session journal).trans (launchAll_mutes es _ _)

end

end Session

namespace Drive

variable {first : Nat} {drive : Drive Evaluation} {scene : Scene} {log : List Event} {spans : List (Option Nat)}

/-- The invocations that a pass goes on with. -/
def looked (drive : Drive Evaluation) (scene : Scene) : List Nat :=
  if Client.settled drive.client then []
  else (drive.client.progress.wakeAll (drive.client.news scene.hub)).due

/-- The first pass goes on with all invocations. -/
theorem looked_first (scope : Scope) (expr : Expr) (before journal : Journal) :
    let evaluation := (Evaluation.start (.start scope) expr ⟨.empty, before⟩).1
    ∀ index < evaluation.session.invocations.length, index ∈ (Drive.start evaluation).looked ⟨.empty, journal⟩ := by
  intro evaluation index lt
  have unbegun := Session.Unbegun.of_start scope expr before
  obtain ⟨-, -, launched⟩ := Session.launch_spec expr (.start scope) before
  have waits : Client.settled evaluation = false := Evaluation.launched_waits (.start scope) expr ⟨.empty, before⟩
  have looked_eq : (Drive.start evaluation).looked ⟨.empty, journal⟩ =
      ((Session.start scope).launch expr before).1.due := by
    unfold looked
    exact if_neg (by simp [Drive.start, waits])
  have here := List.getElem?_eq_getElem lt
  have known := (unbegun.fresh _ (List.getElem_mem lt)).2
  rw [looked_eq, launched.due_eq, launched.leaves_eq, List.mem_map]
  exact ⟨_, known, Session.idxOf_key unbegun.nodup here⟩

/-- A pass keeps the invocations. -/
theorem keys_pass (drive : Drive Evaluation) (scene : Scene) :
    (drive.pass scene).1.client.session.keys = drive.client.session.keys := by
  rw [Evaluation.client_pass]
  split
  · rfl
  · exact Session.keys_advanceAll _ drive.client.session scene

/-- A pass leaves the trails of the invocations with which it goes on. -/
theorem pass_trails (traced : drive.client.session.Traced first scene.journal log spans)
    (above : first ≤ scene.journal.spanCount) (tracer : drive.client.session.scope.tracer = 0) {context : Nat}
    (taken : context < scene.journal.contextCount) (parent : drive.client.session.scope.parent = some (.taken context)) :
    ∃ written later, Session.Trails first (drive.looked scene) log spans (drive.client.session, scene)
      ((drive.pass scene).1.client.session, (drive.pass scene).2) written later := by
  obtain ⟨polled, later, trails⟩ : ∃ written later, Session.Trails first (drive.looked scene) log spans
      (drive.client.session, scene) ((drive.pass scene).1.client.session, (drive.pollClient scene).2) written later := by
    have client_eq : (drive.pass scene).1.client = (drive.pollClient scene).1.client := rfl
    rw [client_eq]
    unfold looked pollClient
    split
    · exact traced.advanceAll above tracer taken parent []
    · exact traced.advanceAll above tracer taken parent _
  obtain ⟨noted, writes, mute, -⟩ := (drive.notes_pass scene).mutes
  have events_eq : spanEvents (drive.pass scene).2.journal.events = spanEvents (drive.pollClient scene).2.journal.events := by
    rw [show (drive.pass scene).2.journal.events = (drive.pollClient scene).2.journal.events ++ noted from writes,
      spanEvents_append, mute, List.append_nil]
  have count_eq : (drive.pass scene).2.journal.spanCount = (drive.pollClient scene).2.journal.spanCount := by
    rw [writes.spanCount, mute]
    rfl
  have log_eq : spanEvents (log ++ (polled ++ noted)) = spanEvents (log ++ polled) := by
    rw [← List.append_assoc, spanEvents_append, mute, List.append_nil]
  refine ⟨polled ++ noted, later, trails.traces.trans (.silent writes mute), ?_, ?_, trails.scope_eq, trails.begun⟩
  · rw [spanEvents_append, mute, List.append_nil]
    exact trails.perm
  · obtain ⟨length_eq, each, nodup, bounds, below⟩ := trails.traced
    refine ⟨length_eq, ?_, nodup, ?_, ?_⟩
    · rw [events_eq, log_eq]
      exact each
    · rw [count_eq]
      exact bounds
    · rw [count_eq, log_eq]
      exact below

end Drive

namespace Flush

theorem pollFlights_mutes (flights : List Flight) (scene : Scene) :
    scene.journal.Mutes (pollFlights flights scene).2.journal := by
  unfold pollFlights
  refine List.foldlRecOn flights _ (motive := fun r : List Flight × Scene => scene.journal.Mutes r.2.journal)
    (.refl rfl) fun r mutes flight _ => ?_
  exact mutes.trans (flight.notes_pollContained r.2).mutes

theorem pass_mutes (flush : Flush) (scene : Scene) : scene.journal.Mutes (flush.pass scene).2.journal := by
  have polled := pollFlights_mutes flush.flights scene
  unfold pass
  split
  · exact .refl rfl
  · generalize pollFlights flush.flights scene = r at polled
    obtain ⟨flights, later⟩ := r
    cases flights with
    | cons flight flights => exact polled
    | nil =>
      refine polled.trans ?_
      change later.journal.Mutes (nextRound { flush with flights := [] } later).2.journal
      unfold nextRound
      split
      · exact .refl rfl
      · rename_i taken hub _ _
        exact pollFlights_mutes taken ⟨hub, later.journal⟩

end Flush

theorem Flight.dropAll_mutes (flights : List Flight) (scene : Scene) :
    scene.journal.Mutes (flights.foldl (fun scene flight => flight.drop scene) scene).journal := by
  refine List.foldlRecOn flights _ (motive := fun later : Scene => scene.journal.Mutes later.journal) (.refl rfl)
    fun later mutes flight _ => mutes.trans ?_
  unfold drop
  dsimp only
  split
  · exact ⟨_, later.journal.writes_record _, rfl, rfl⟩
  · exact .refl rfl

/-! ### What sheets decide -/

/-- The outcome of the invocation with a key, if it is on the sheets and has one. -/
def outcomeIn (ms : List MatcherSheet) (key : String) : Option Outcome :=
  (ms.find? (·.definition.key = key)).bind (·.outcome)

/-- There is one sheet for each key at the leaves. -/
structure Expr.CoveredBy (expr : Expr) (ms : List MatcherSheet) : Prop where
  nodup : (ms.map (·.definition.key)).Nodup
  keys : ∀ key, key ∈ ms.map (·.definition.key) ↔ key ∈ expr.leaves.map (·.key)
  known : ∀ m ∈ ms, m.definition ∈ expr.leaves

section

variable {scope : Scope} {expr : Expr} {log : List Event} {evaluation : Evaluation} {ms : List MatcherSheet}

theorem map_key_of_sheets {invocations : List Invocation} (of : List.Forall₂ MatcherSheet.Of invocations ms) :
    ms.map (·.definition.key) = invocations.map (·.definition.key) := by
  induction of with
  | nil => rfl
  | cons same _ ih => rw [List.map_cons, List.map_cons, ih, same.definition_eq]

theorem outcomeIn_of_sheets {session : Session} (of : List.Forall₂ MatcherSheet.Of session.invocations ms) (d : Definition) :
    session.outcomeFor d = outcomeIn ms d.key := by
  have found : session.outcomeFor d = (session.invocations.find? (·.definition.key = d.key)).bind (·.stage.result?) := by
    rw [Session.outcomeFor]
    cases here : session.invocations.findIdx? (·.definition.key = d.key) with
    | none =>
      rw [List.findIdx?_eq_none_iff] at here
      rw [List.find?_eq_none.2 fun i mem => by simpa using here i mem]
      rfl
    | some index =>
      obtain ⟨i, at_index, found⟩ : ∃ i, session.invocations[index]? = some i ∧
          session.invocations.find? (·.definition.key = d.key) = some i := by
        obtain ⟨lt, is, before⟩ := List.findIdx?_eq_some_iff_getElem.1 here
        refine ⟨session.invocations[index], List.getElem?_eq_getElem lt, ?_⟩
        exact List.find?_eq_some_iff_getElem.2 ⟨is, index, lt, rfl, fun j below => by simpa using before j below⟩
      rw [found, Option.bind_some, Option.bind_some, Session.outcome?_eq, at_index, Option.bind_some]
      cases i.stage <;> rfl
  rw [found, outcomeIn]
  generalize session.invocations = invocations at of
  induction of with
  | nil => rfl
  | @cons i m rest sheets same _ ih =>
    rw [List.find?_cons, List.find?_cons, same.definition_eq]
    cases decide (i.definition.key = d.key) with
    | true => exact same.outcome_eq.symm
    | false => exact ih

/-- The sheets of an evaluation that is under way are those of its leaves. -/
theorem Evaluation.Underway.coveredBy (underway : evaluation.Underway scope expr log)
    (of : List.Forall₂ MatcherSheet.Of evaluation.session.invocations ms) : expr.CoveredBy ms := by
  have keys_eq : ms.map (·.definition.key) = evaluation.session.keys := map_key_of_sheets of
  refine ⟨keys_eq ▸ underway.performs.nodup, fun key => ?_, fun m mem => ?_⟩
  · rw [keys_eq]
    constructor
    · intro mem
      obtain ⟨i, listed, rfl⟩ := List.mem_map.1 mem
      exact List.mem_map_of_mem (underway.performs.known i listed)
    · intro mem
      obtain ⟨d, leaf, rfl⟩ := List.mem_map.1 mem
      exact underway.sound.keyed d leaf
  · obtain ⟨index, here⟩ := List.mem_iff_getElem?.1 mem
    obtain ⟨i, at_i, same⟩ := forall₂_getElem? of.flip here
    rw [same.definition_eq]
    exact underway.performs.known i (List.mem_of_getElem? at_i)

/-- When the evaluation has an outcome it is the one that the sheets make. -/
theorem Evaluation.Underway.decides (underway : evaluation.Underway scope expr log)
    (of : List.Forall₂ MatcherSheet.Of evaluation.session.invocations ms) {outcome : Outcome}
    (ended : evaluation.outcome? = some outcome) :
    (∀ m ∈ ms, m.outcome.isSome) ∧ expr.Concludes (fun d => outcomeIn ms d.key) outcome := by
  have same : evaluation.session.outcomeFor = fun d => outcomeIn ms d.key :=
    funext fun d => outcomeIn_of_sheets of d
  have concludes := underway.sound.concludes ended
  rw [same] at concludes
  refine ⟨fun m mem => ?_, concludes⟩
  obtain ⟨index, here⟩ := List.mem_iff_getElem?.1 mem
  obtain ⟨i, at_i, is⟩ := forall₂_getElem? of.flip here
  have all := underway.sound.isSome_outcome?_iff.1 (Option.isSome_iff_exists.2 ⟨outcome, ended⟩)
  have listed := List.mem_of_getElem? at_i
  obtain ⟨o, known⟩ := Option.isSome_iff_exists.1 (all i.definition (underway.performs.known i listed))
  rw [is.outcome_eq, Session.settled_of_outcomeFor underway.performs.nodup listed known]
  rfl

end

end Segmentation
