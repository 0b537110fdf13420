import Segmentation.Proofs.Logbooks
import Segmentation.Proofs.Sheets
import Segmentation.Proofs.Yields

/-!
# What calls tell their spans

When a call begins all its invocations begin, each with a span under that of the segment.  The span of the segment is
told what the evaluation came to, and then the answer.  Every poll keeps to that (`Call.Traced.poll`), and dropping a
call ends the spans that have not ended (`Call.Traced.closed`).  So the spans that are started while calls run at once
are those on the sheets of the calls (`Call.traced_kept`).
-/

namespace Segmentation

open SpanEvent (Orderly Concerns starts takens named trail)

namespace Call

section

variable (segments : Keyed SegmentDefinition) (matchers : String → Option Matcher)

/-- The outcomes are such that the invocations may have come to them. -/
def Earned (call : Call) (ms : List MatcherSheet) : Prop :=
  ∀ m ∈ ms, ∀ outcome, m.outcome = some outcome → ∃ context, m.definition.Yields (call.scopeIn context) outcome

/-- The sheets are those of the expression of the call, if there is one. -/
def Covers (call : Call) (ms : List MatcherSheet) : Prop :=
  call.Earned ms ∧
    ((∃ error, call.Builds segments matchers (.error error) ∧ ms = []) ∨
      ∃ expr, call.Builds segments matchers (.ok expr) ∧ expr.CoveredBy ms)

/-- The sheets decide what the evaluation of the call comes to. -/
def Decides (call : Call) (ms : List MatcherSheet) (outcome : Outcome) : Prop :=
  call.Earned ms ∧
    ((∃ error, call.Builds segments matchers (.error error) ∧ ms = [] ∧ outcome = .error error) ∨
      ∃ expr, call.Builds segments matchers (.ok expr) ∧ expr.CoveredBy ms ∧ (∀ m ∈ ms, m.outcome.isSome) ∧
        expr.Concludes (fun d => outcomeIn ms d.key) outcome)

variable {segments matchers}

theorem Decides.covers {call : Call} {ms : List MatcherSheet} {outcome : Outcome}
    (decides : call.Decides segments matchers ms outcome) : call.Covers segments matchers ms := by
  obtain ⟨earned, ⟨error, builds, none, -⟩ | ⟨expr, builds, covered, -⟩⟩ := decides
  · exact ⟨earned, .inl ⟨error, builds, none⟩⟩
  · exact ⟨earned, .inr ⟨expr, builds, covered⟩⟩

/-- All outcomes are there. -/
theorem Decides.settled {call : Call} {ms : List MatcherSheet} {outcome : Outcome}
    (decides : call.Decides segments matchers ms outcome) : ∀ m ∈ ms, m.outcome.isSome := by
  obtain ⟨-, ⟨error, -, rfl, -⟩ | ⟨expr, -, -, settled, -⟩⟩ := decides
  · exact List.forall_mem_nil _
  · exact settled

/-- A session comes to what it may come to. -/
theorem earned_of_earns {call : Call} {session : Session} {context : Nat} (scope_eq : session.scope = call.scopeIn context)
    (earns : session.Earns) {ms : List MatcherSheet} (of : List.Forall₂ MatcherSheet.Of session.invocations ms) :
    call.Earned ms := by
  intro m mem outcome ended
  obtain ⟨index, here⟩ := List.mem_iff_getElem?.1 mem
  obtain ⟨i, whose, i_of⟩ : ∃ i, session.invocations[index]? = some i ∧ MatcherSheet.Of i m :=
    forall₂_getElem? of.flip here
  refine ⟨context, ?_⟩
  have earned := earns i (List.mem_of_getElem? whose)
  rw [scope_eq, ← i_of.definition_eq] at earned
  have result : i.stage.result? = some outcome := i_of.outcome_eq.symm.trans ended
  cases stage : i.stage with
  | settled o =>
    rw [stage] at earned result
    obtain rfl := Option.some.inj result
    exact earned
  | _ => simp [stage, Stage.result?] at result

end

/-- What the span of a segment is told of the outcome of the evaluation. -/
def verdictEvents (span : Nat) : Outcome → List SpanEvent
  | .ok _ => [.statusSet span ⟨.ok, none⟩]
  | .error error => SpanEvent.ofError span error

/-- What it is told of the answer. -/
def answerEvents (span : Nat) (value : Bool) : List SpanEvent :=
  [.attributed span "segment.result" (.bool value), .ended span]

theorem verdictEvents_acts (span : Nat) (outcome : Outcome) :
    ∀ event ∈ verdictEvents span outcome, event.acts? = some span := by
  cases outcome with
  | ok value => simp [verdictEvents, SpanEvent.acts?]
  | error error => simp [verdictEvents, SpanEvent.ofError, SpanEvent.acts?]

theorem named_verdictEvents (span : Nat) (outcome : Outcome) : named (verdictEvents span outcome) = [] := by
  cases outcome <;> rfl

theorem answerEvents_acts (span : Nat) (value : Bool) : ∀ event ∈ answerEvents span value, event.acts? = some span := by
  simp [answerEvents, SpanEvent.acts?]

/-- The sheet of a call that has not ended its spans. -/
abbrev HasSheet (first : Nat) (call : Call) (all : List SpanEvent) (log : List Event) (sheet : CallSheet) : Prop :=
  sheet.Holds first call.target.name (fun _ => []) all (spanEvents log)

/-- What a call has told its spans, by the stage that it has got to. -/
def Traced (segments : Keyed SegmentDefinition) (matchers : String → Option Matcher) (first : Nat) (call : Call)
    (all : List SpanEvent) (log : List Event) : Prop :=
  match call.stage with
  | .waiting => log = []
  | .driving span context _ drive => ∃ ms, call.HasSheet first all log ⟨span, context, [], ms⟩ ∧
      drive.client.session.scope = call.scopeIn context ∧ drive.client.session.Earns ∧
      List.Forall₂ MatcherSheet.Of drive.client.session.invocations ms
  | .flushing span context _ outcome _ _ => ∃ ms, call.HasSheet first all log ⟨span, context, [], ms⟩ ∧
      call.Decides segments matchers ms outcome ∧ appeals log = []
  | .recovering span _ _ rest => ∃ context ms error fallback,
      call.HasSheet first all log ⟨span, context, verdictEvents span (.error error), ms⟩ ∧
      call.Decides segments matchers ms (.error error) ∧ call.fallback = some fallback ∧
      rest.final = (fallback [error]).final .panicked ∧ appeals log = call.told (.error error)
  | .answered value => ∃ span context ms outcome,
      call.HasSheet first all log ⟨span, context, verdictEvents span outcome ++ answerEvents span value, ms⟩ ∧
      call.Decides segments matchers ms outcome ∧ value = call.verdict outcome ∧ appeals log = call.told outcome

variable {segments : Keyed SegmentDefinition} {matchers : String → Option Matcher} {first : Nat} {call : Call}
  {log : List Event}

/-- A step of a call keeps to its sheet. -/
def KeepsSheet (segments : Keyed SegmentDefinition) (matchers : String → Option Matcher) (first : Nat) (log : List Event)
    (before : Journal) (r : Call × Journal) : Prop :=
  ∃ written, before.Traces first (named (spanEvents log)) written r.2 ∧
    r.1.Traced segments matchers first (spanEvents r.2.events) (log ++ written)

theorem KeepsSheet.after {a b : Journal} {written : List Event} {r : Call × Journal}
    (traces : a.Traces first (named (spanEvents log)) written b)
    (keeps : KeepsSheet segments matchers first (log ++ written) b r) : KeepsSheet segments matchers first log a r := by
  obtain ⟨more, traces', traced⟩ := keeps
  refine ⟨written ++ more, traces.append traces', ?_⟩
  rw [← List.append_assoc]
  exact traced

theorem HasSheet.mute {before : Journal} {sheet : CallSheet}
    (has : call.HasSheet first (spanEvents before.events) log sheet) {written : List Event} {later : Journal}
    (writes : before.Writes written later) (none : spanEvents written = []) :
    before.Traces first (named (spanEvents log)) written later ∧
      call.HasSheet first (spanEvents later.events) (log ++ written) sheet := by
  have concerns : Concerns sheet.span (spanEvents written) := none ▸ SpanEvent.concerns_nil sheet.span
  have told := CallSheet.Holds.write has writes concerns
  rw [none] at told
  have same : sheet.tale ++ trail sheet.span [] = sheet.tale := List.append_nil _
  rw [same] at told
  exact told

/-- The span of the segment is told just that. -/
theorem HasSheet.tellAll {before : Journal} {sheet : CallSheet}
    (has : call.HasSheet first (spanEvents before.events) log sheet) {events : List SpanEvent}
    (acts : ∀ event ∈ events, event.acts? = some sheet.span) (unnamed : named events = []) :
    before.Traces first (named (spanEvents log)) (events.map .span) (before.recordAll (events.map .span)) ∧
      call.HasSheet first (spanEvents (before.recordAll (events.map .span)).events) (log ++ events.map .span)
        { sheet with tale := sheet.tale ++ events } := by
  have concerns : Concerns sheet.span (spanEvents (events.map .span)) := by
    rw [spanEvents_map_span]
    exact SpanEvent.concerns_of_acts acts unnamed
  have told := CallSheet.Holds.write has (Journal.writes_recordAll before (events.map .span)) concerns
  rw [spanEvents_map_span, SpanEvent.trail_of_acts acts] at told
  exact told

theorem finish_keepsSheet {span context : Nat} {ms : List MatcherSheet} {outcome : Outcome} {journal : Journal}
    (has : call.HasSheet first (spanEvents journal.events) log ⟨span, context, verdictEvents span outcome, ms⟩)
    (decides : call.Decides segments matchers ms outcome) (told : appeals log = call.told outcome) :
    KeepsSheet segments matchers first log journal (call.finish span (call.verdict outcome) journal) := by
  obtain ⟨traces, has⟩ := has.tellAll (answerEvents_acts span (call.verdict outcome)) rfl
  refine ⟨_, traces, span, context, ms, outcome, has, decides, rfl, ?_⟩
  rw [appeals_append, told]
  exact List.append_nil _

theorem recovered_keepsSheet {span context : Nat} {ms : List MatcherSheet} {error : Error} {fallback : Fallback}
    {journal : Journal}
    (has : call.HasSheet first (spanEvents journal.events) log ⟨span, context, verdictEvents span (.error error), ms⟩)
    (decides : call.Decides segments matchers ms (.error error)) (asked : call.fallback = some fallback)
    {running : Running (Ending Bool)} (comes : running.final = (fallback [error]).final .panicked)
    (told : appeals log = call.told (.error error)) :
    KeepsSheet segments matchers first log journal (call.recovered span running journal) := by
  cases running with
  | asleep deadline rest =>
    have nothing : journal.Writes [] journal.countAlarm := Journal.writes_nil rfl
    obtain ⟨traces, has⟩ := has.mute nothing rfl
    refine ⟨[], traces, context, ms, error, fallback, has, decides, asked, comes, ?_⟩
    rw [List.append_nil]
    exact told
  | ended ending =>
    have comes : ending = (fallback [error]).final .panicked := comes
    have verdict : call.verdict (.error error) = rescue fallback error := by rw [Call.verdict, asked]
    simp only [recovered]
    cases contained : ending.contained with
    | ok value =>
      have value_eq : call.verdict (.error error) = value := by rw [verdict, rescue, ← comes, contained]
      rw [← value_eq]
      exact finish_keepsSheet has decides told
    | error cause =>
      have value_eq : call.verdict (.error error) = false := by rw [verdict, rescue, ← comes, contained]
      obtain ⟨traces, has⟩ := has.mute (Journal.writes_notice journal (.fallbackFailed call.target.name cause.message)) rfl
      rw [← value_eq]
      refine .after traces (finish_keepsSheet has decides ?_)
      rw [appeals_append, told]
      exact List.append_nil _

/-- The outcome of the evaluation is told to the span, and an error to whoever has to hear of it. -/
theorem conclude_keepsSheet {span context : Nat} {ms : List MatcherSheet} {outcome : Outcome} {journal : Journal}
    (has : call.HasSheet first (spanEvents journal.events) log ⟨span, context, [], ms⟩)
    (decides : call.Decides segments matchers ms outcome) (quiet : appeals log = []) :
    KeepsSheet segments matchers first log journal (call.conclude span outcome journal) := by
  obtain ⟨traces, has⟩ := has.tellAll (verdictEvents_acts span outcome) (named_verdictEvents span outcome)
  unfold conclude
  cases outcome with
  | ok value =>
    refine .after traces (finish_keepsSheet has decides ?_)
    rw [appeals_append, quiet]
    rfl
  | error error =>
    obtain ⟨traces', has⟩ := has.mute (Journal.writes_record _ (.errorReported error call.target.name call.subject)) rfl
    have silent : appeals ((verdictEvents span (.error error)).map .span) = [] := rfl
    refine .after traces (.after traces' ?_)
    dsimp only
    cases asks : call.fallback with
    | none =>
      have verdict_eq : call.verdict (.error error) = false := by
        unfold verdict
        rw [asks]
      dsimp only
      rw [← verdict_eq]
      refine finish_keepsSheet has decides ?_
      rw [appeals_append, appeals_append, quiet, silent, told, asks]
      rfl
    | some fallback =>
      obtain ⟨traces'', has⟩ := has.mute (Journal.writes_record _ (.fallbackAsked [error])) rfl
      refine .after traces'' (recovered_keepsSheet has decides asks (Launch.final_start _ _ _) ?_)
      rw [appeals_append, appeals_append, appeals_append, quiet, silent, told, asks]
      rfl

theorem flushQueues_keepsSheet {span context : Nat} {ms : List MatcherSheet} {outcome : Outcome} (invocations : Nat)
    (flush : Flush) {scene : Scene}
    (has : call.HasSheet first (spanEvents scene.journal.events) log ⟨span, context, [], ms⟩)
    (decides : call.Decides segments matchers ms outcome) (quiet : appeals log = []) :
    KeepsSheet segments matchers first log scene.journal
      (call.flushQueues span context outcome invocations flush scene) := by
  obtain ⟨noted, writes, mute, silent⟩ := flush.pass_mutes scene
  obtain ⟨traces, has⟩ := has.mute writes mute
  refine .after traces ?_
  unfold flushQueues
  generalize flush.pass scene = r at has
  obtain ⟨flush, later⟩ := r
  dsimp only at has ⊢
  split
  · obtain ⟨traces, has⟩ := has.mute
      (Journal.writes_notice later.journal (.segmentEvaluated call.target.name invocations flush.flushed)) rfl
    have release : Concerns span (spanEvents [.span (.contextReleased context)]) :=
      ⟨by simp [spanEvents, Event.spanEvent?, SpanEvent.acts?], rfl, rfl, rfl⟩
    obtain ⟨traces', has⟩ := CallSheet.Holds.write has (Journal.writes_record _ (.span (.contextReleased context))) release
    refine .after traces (.after traces' ?_)
    have unchanged : HasSheet first { call with strays := later.hub.answerAlarms } _ _ _ := has
    refine conclude_keepsSheet unchanged decides ?_
    rw [appeals_append, appeals_append, appeals_append, quiet, silent]
    rfl
  · obtain ⟨traces, has⟩ := has.mute (Journal.writes_nil rfl) rfl
    refine ⟨[], traces, ms, has, decides, ?_⟩
    rw [List.append_nil, appeals_append, quiet, silent]
    rfl

/-- A pass of a drive, after which all invocations have begun and the evaluation may be over. -/
theorem driveOn_keepsSheet {span context : Nat} {drive : Drive Evaluation} {scene : Scene} {spans : List (Option Nat)}
    (rooted : Rooted first call.target.name (spanEvents scene.journal.events) (spanEvents log) span context []
      (knownSpans spans))
    (traced : drive.client.session.Traced first scene.journal log spans)
    (scope_eq : drive.client.session.scope = call.scopeIn context) (earns : drive.client.session.Earns)
    (begin : ∀ index < spans.length, index ∈ drive.looked scene ∨ ∃ span, spans[index]? = some (some span))
    {expr : Expr} (builds : call.Builds segments matchers (.ok expr)) {written : List Event}
    (writes : scene.journal.Writes written (drive.pass scene).2.journal) {scope : Scope}
    (underway : (drive.pass scene).1.client.Underway scope expr (log ++ written)) (quiet : appeals (log ++ written) = []) :
    KeepsSheet segments matchers first log scene.journal (call.driveOn span context drive scene) := by
  have own := rooted.bounds span rooted.own
  have above : first ≤ scene.journal.spanCount := by
    rw [scene.journal.spanCount_eq]
    omega
  have taken : context < scene.journal.contextCount := by
    rw [scene.journal.contextCount_eq]
    exact (List.getElem?_eq_some_iff.1 rooted.taken.getElem?).1
  have tracer : drive.client.session.scope.tracer = 0 := by
    rw [scope_eq]
    rfl
  have parent : drive.client.session.scope.parent = some (.taken context) := by
    rw [scope_eq]
    rfl
  obtain ⟨_, later, trails⟩ := Drive.pass_trails traced above tracer taken parent
  obtain rfl := writes.unique trails.traces.writes
  have known : knownSpans spans ⊆ named (spanEvents log) := fun other mem =>
    rooted.perm.mem_iff.2 (List.mem_cons_of_mem span mem)
  have scope_later : (drive.pass scene).1.client.session.scope = call.scopeIn context := trails.scope_eq.trans scope_eq
  have length_eq : later.length = spans.length := by
    rw [trails.traced.length_eq, traced.length_eq]
    have pass_length := congrArg List.length (drive.keys_pass scene)
    simpa [Session.keys] using pass_length
  -- after the pass every invocation has begun, so each has a sheet
  obtain ⟨ms, spans_eq, of, each⟩ := trails.traced.sheets fun index lt =>
    trails.begun index lt (begin index (length_eq ▸ lt))
  have rooted' := rooted.trace trails.traces trails.perm
  rw [← spans_eq] at rooted'
  dsimp only at each of
  rw [scope_later] at each
  have has : call.HasSheet first (spanEvents (drive.pass scene).2.journal.events) (log ++ written)
      ⟨span, context, [], ms⟩ := ⟨rooted', each⟩
  have earns := Drive.pass_earns earns (scope_eq ▸ rfl) scene
  refine .after (trails.traces.mono known) ?_
  unfold driveOn
  generalize drive.pass scene = r at has underway of scope_later earns
  obtain ⟨drive, after⟩ := r
  dsimp only at has underway of scope_later earns ⊢
  have earned := earned_of_earns scope_later earns of
  split
  · rename_i outcome _ ended
    obtain ⟨settled, concludes⟩ := underway.decides of ended
    exact flushQueues_keepsSheet _ .start has
      ⟨earned, .inr ⟨expr, builds, underway.coveredBy of, settled, concludes⟩⟩ quiet
  · refine ⟨[], .silent (Journal.writes_nil rfl) rfl, ?_⟩
    rw [List.append_nil]
    exact ⟨ms, has, scope_later, earns, of⟩

/-- What a call writes as it begins: it starts its span, names the segment, and takes a context. -/
def prelude (call : Call) (journal : Journal) : List SpanEvent :=
  [.started 0 ("segment:" ++ call.target.name) none, .attributed journal.spanCount "segment.name" (.string call.target.name),
    .contextTaken journal.spanCount]

/-- The span of the segment has no invocations under it yet. -/
theorem prelude_rooted (call : Call) {journal : Journal} (above : first ≤ journal.spanCount) :
    journal.Traces first [] ((call.prelude journal).map .span) (journal.recordAll ((call.prelude journal).map .span)) ∧
      Rooted first call.target.name (spanEvents (journal.recordAll ((call.prelude journal).map .span)).events)
        (call.prelude journal) journal.spanCount journal.contextCount [] [] := by
  have writes := journal.writes_recordAll ((call.prelude journal).map .span)
  have names : named (call.prelude journal) = [journal.spanCount] := by
    simp [prelude, named, List.filterMap_cons, SpanEvent.named?]
  have acts : ∀ event ∈ call.prelude journal, ∀ span, event.acts? = some span → span ∈ named (call.prelude journal) := by
    rw [names]
    simp [prelude, SpanEvent.acts?]
  refine ⟨⟨writes, ?_, ?_, ?_⟩, ?_⟩
  · rw [spanEvents_map_span]
    simp [prelude, Orderly, above]
  · rw [spanEvents_map_span, names]
    rfl
  · rw [spanEvents_map_span]
    exact fun event mem span is => .inr (acts event mem span is)
  · rw [show (journal.recordAll ((call.prelude journal).map .span)).events = journal.events ++ _ from writes,
      spanEvents_append, spanEvents_map_span]
    refine ⟨?_, ?_, ?_, ?_, ?_, ?_, acts⟩
    · rw [SpanEvent.starts_append, journal.spanCount_eq, List.getElem?_append_right (Nat.le_refl _), Nat.sub_self]
      rfl
    · refine ⟨spanEvents journal.events ++ (call.prelude journal).take 2, [], by simp [prelude], ?_, ?_⟩
      · rw [SpanEvent.takens_append, journal.contextCount_eq]
        exact congrArg List.length (List.append_nil _)
      · rw [SpanEvent.starts_append, journal.spanCount_eq, List.length_append]
        exact Nat.lt_succ_self _
    · simp [prelude, trail, SpanEvent.acts?]
    · rw [names]
    · rw [names]
      exact List.nodup_singleton _
    · rw [names, SpanEvent.starts_append, List.length_append, ← journal.spanCount_eq]
      simp [prelude, starts, SpanEvent.start?, above]

/-- A call that begins starts its span, and its invocations start theirs. -/
theorem begins_keepsSheet {registry : Registry} (holds : Service.Holds matchers registry) {journal : Journal}
    (above : first ≤ journal.spanCount) :
    let r := call.begins segments registry journal
    KeepsSheet segments matchers first [] journal (r.1, r.2.2) := by
  obtain ⟨opens, rooted⟩ := call.prelude_rooted above
  let opened : Journal := journal.recordAll ((call.prelude journal).map .span)
  have has : call.HasSheet first (spanEvents opened.events) ((call.prelude journal).map .span)
      ⟨journal.spanCount, journal.contextCount, [], []⟩ := by
    refine ⟨?_, List.forall_mem_nil _⟩
    rw [spanEvents_map_span]
    exact rooted
  dsimp only
  rcases call.begins_cases holds journal with ⟨error, builds, refused⟩ | ⟨expr, builds, starts⟩
  · -- the expression is refused: the context is released, and the call is over
    rw [refused]
    have release : Concerns journal.spanCount (spanEvents [.span (.contextReleased journal.contextCount)]) :=
      ⟨by simp [spanEvents, Event.spanEvent?, SpanEvent.acts?], rfl, rfl, rfl⟩
    obtain ⟨traces, has⟩ := CallSheet.Holds.write has (opened.writes_record _) release
    have refuses := conclude_keepsSheet has
      ⟨fun _ mem => (List.not_mem_nil mem).elim, .inl ⟨error, builds, rfl, rfl⟩⟩ rfl
    exact .after opens (.after traces refuses)
  · rw [starts]
    have idle : deeds ((call.prelude journal).map .span) = [] := rfl
    obtain ⟨launched, launches, launch_quiet, performs⟩ := Evaluation.start_performs (call.scope journal) rfl rfl
      idle expr ⟨.empty, opened⟩
    obtain ⟨written, writes, quiet, underway⟩ := Drive.first_pass_underway rfl performs
    obtain ⟨_, writes', silent, -⟩ := Session.launch_mutes expr (.start (call.scope journal)) opened
    obtain rfl := launches.unique writes'
    obtain ⟨traces, has⟩ := has.mute launches silent
    refine .after opens (.after traces ?_)
    have unbegun := Session.Unbegun.of_start (call.scope journal) expr opened
    have below : ∀ event ∈ spanEvents ((call.prelude journal).map .span ++ launched), ∀ span, event.acts? = some span →
        span < (Evaluation.start (.start (call.scope journal)) expr ⟨.empty, opened⟩).2.journal.spanCount := by
      intro event mem span is
      rw [Journal.spanCount_eq]
      exact (has.rooted.bounds span (has.rooted.acts event mem span is)).2
    have rooted := has.rooted
    have earns : ((Session.start (call.scope journal)).launch expr opened).2.1.Earns := fun i mem => by
      rw [(unbegun.fresh i mem).1]
      trivial
    refine driveOn_keepsSheet ?_ (unbegun.traced below) unbegun.scope_eq earns (fun index lt => .inl ?_) builds writes
      underway ?_
    · -- Before the first poll no invocation has a span.
      have unknown (n : Nat) : knownSpans (List.replicate n none) = [] := by simp [knownSpans]
      rw [unknown]
      exact rooted
    · rw [List.length_replicate] at lt
      exact Drive.looked_first (call.scope journal) expr opened _ index lt
    · rw [appeals_append, appeals_append, launch_quiet, quiet]
      rfl

/-- Every poll keeps the sheet of a call, whatever others have done meanwhile. -/
theorem Traced.poll {journal : Journal} (traced : call.Traced segments matchers first (spanEvents journal.events) log)
    (course : call.Course segments matchers log) {registry : Registry} (holds : Service.Holds matchers registry)
    (above : first ≤ journal.spanCount) :
    let r := call.poll segments registry journal
    KeepsSheet segments matchers first log journal (r.1, r.2.2) := by
  have stays : KeepsSheet segments matchers first log journal (call, journal) := by
    refine ⟨[], .silent (Journal.writes_nil rfl) rfl, ?_⟩
    rwa [List.append_nil]
  unfold Call.poll
  unfold Traced at traced
  unfold Course at course
  cases stage : call.stage with
  | waiting =>
    simp only [stage] at traced ⊢
    rw [traced]
    exact begins_keepsSheet holds above
  | driving span context hub drive =>
    simp only [stage] at traced course ⊢
    obtain ⟨ms, has, scope_eq, earns, of⟩ := traced
    obtain ⟨begun, expr, builds, underway, quiet⟩ := course
    obtain ⟨written, writes, silent, underway⟩ := Drive.pass_underway underway ⟨hub, journal⟩
    have known : knownSpans (ms.map (some ·.span)) = ms.map (·.span) := by
      have spans := knownSpans_map_some (ms.map (·.span))
      rwa [List.map_map] at spans
    refine driveOn_keepsSheet ?_ (Session.traced_of_holds has scope_eq of) scope_eq earns (fun index lt => .inr ?_) builds
      writes underway ?_
    · rw [known]
      exact has.rooted
    · rw [List.length_map] at lt
      exact ⟨ms[index].span, by simp [lt]⟩
    · rw [appeals_append, quiet, silent, List.append_nil]
  | flushing span context hub outcome invocations flush =>
    simp only [stage] at traced ⊢
    obtain ⟨ms, has, decides, quiet⟩ := traced
    have here : call.HasSheet first (spanEvents (Scene.mk hub journal).journal.events) log ⟨span, context, [], ms⟩ := has
    exact flushQueues_keepsSheet invocations flush here decides quiet
  | recovering span deadline alarm rest =>
    simp only [stage] at traced ⊢
    obtain ⟨context, ms, error, fallback, has, decides, asked, comes, told⟩ := traced
    split
    · exact recovered_keepsSheet has decides asked ((Task.final_start _ _).trans comes) told
    · exact stays
  | answered value => exact stays

theorem Traced.advance {all : List SpanEvent} (traced : call.Traced segments matchers first all log) (now : Nat) :
    (call.advance now).Traced segments matchers first all log := by
  obtain ⟨subject, target, fallback, stage, strays⟩ := call
  cases stage with
  | driving span context hub drive =>
    obtain ⟨ms, has, scope_eq, earns, of⟩ := traced
    have same := Evaluation.client_advance drive hub now
    rw [← same] at scope_eq earns of
    exact ⟨ms, has, scope_eq, earns, of⟩
  | _ => exact traced

/-- Others may write meanwhile. -/
theorem Traced.later {all : List SpanEvent} (traced : call.Traced segments matchers first all log) (more : List SpanEvent) :
    call.Traced segments matchers first (all ++ more) log := by
  unfold Traced at traced ⊢
  cases stage : call.stage with
  | waiting => simpa only [stage] using traced
  | driving span context hub drive =>
    simp only [stage] at traced ⊢
    obtain ⟨ms, has, rest⟩ := traced
    exact ⟨ms, has.later more, rest⟩
  | flushing span context hub outcome invocations flush =>
    simp only [stage] at traced ⊢
    obtain ⟨ms, has, rest⟩ := traced
    exact ⟨ms, has.later more, rest⟩
  | recovering span deadline alarm rest =>
    simp only [stage] at traced ⊢
    obtain ⟨context, ms, error, fallback, has, rest⟩ := traced
    exact ⟨context, ms, error, fallback, has.later more, rest⟩
  | answered value =>
    simp only [stage] at traced ⊢
    obtain ⟨span, context, ms, outcome, has, rest⟩ := traced
    exact ⟨span, context, ms, outcome, has.later more, rest⟩

/-! ### Calls that are over -/

/-- What a call that is over, or was dropped, has told its spans.  All of them have ended.  If it was answered, the span
of the segment was told the outcome and the answer; if it was dropped, perhaps an error to which the evaluation came. -/
structure Tells (segments : Keyed SegmentDefinition) (matchers : String → Option Matcher) (first : Nat) (call : Call)
    (all : List SpanEvent) (log : List Event) (sheet : CallSheet) : Prop where
  holds : sheet.Holds first call.target.name (fun span => [.ended span]) all (spanEvents log)
  covers : call.Covers segments matchers sheet.matchers
  answered : ∀ value, call.answer? = some value → ∃ outcome, call.Decides segments matchers sheet.matchers outcome ∧
    value = call.verdict outcome ∧ appeals log = call.told outcome ∧
    sheet.tale = verdictEvents sheet.span outcome ++ answerEvents sheet.span value
  dropped : call.answer? = none → (appeals log = [] ∧ sheet.tale = [.ended sheet.span]) ∨
    ∃ error, call.Decides segments matchers sheet.matchers (.error error) ∧ appeals log = call.told (.error error) ∧
      sheet.tale = verdictEvents sheet.span (.error error) ++ [.ended sheet.span]

/-- A call that has begun tells its spans everything by the time that it is over. -/
def Recounts (segments : Keyed SegmentDefinition) (matchers : String → Option Matcher) (first : Nat) (call : Call)
    (all : List SpanEvent) (log : List Event) : Prop :=
  call.stage = .waiting ∧ log = [] ∨ ∃ sheet, Tells segments matchers first call all log sheet

/-- The span of the segment ends, and contexts are released. -/
private theorem holds_farewell {ending : Nat → List SpanEvent} {journal : Journal} {sheet : CallSheet} {segment : String}
    (holds : sheet.Holds first segment ending (spanEvents journal.events) (spanEvents log)) (released : List Nat) :
    let written : List SpanEvent := released.map .contextReleased ++ [.ended sheet.span]
    journal.Traces first (named (spanEvents log)) (written.map .span) (journal.recordAll (written.map .span)) ∧
      CallSheet.Holds first segment ending (spanEvents (journal.recordAll (written.map .span)).events)
        (spanEvents (log ++ written.map .span)) { sheet with tale := sheet.tale ++ [.ended sheet.span] } := by
  intro written
  have quiet {α : Type} (f : SpanEvent → Option α) (silent : ∀ context, f (.contextReleased context) = none) :
      (released.map SpanEvent.contextReleased).filterMap f = [] := by
    refine List.filterMap_eq_nil_iff.2 fun event mem => ?_
    obtain ⟨context, -, rfl⟩ := List.mem_map.1 mem
    exact silent context
  have concerns : Concerns sheet.span (spanEvents (written.map .span)) := by
    rw [spanEvents_map_span]
    refine ⟨fun event mem other is => ?_, ?_, ?_, ?_⟩
    · rcases List.mem_append.1 mem with mem | mem
      · obtain ⟨context, -, rfl⟩ := List.mem_map.1 mem
        cases is
      · obtain rfl := List.mem_singleton.1 mem
        exact (Option.some.inj is).symm
    · rw [SpanEvent.starts_append, starts, quiet _ fun _ => rfl]
      rfl
    · rw [SpanEvent.takens_append, takens, quiet _ fun _ => rfl]
      rfl
    · rw [SpanEvent.named_append, named, quiet _ fun _ => rfl]
      rfl
  have told := holds.write (journal.writes_recordAll (written.map .span)) concerns
  have trail_eq : trail sheet.span (spanEvents (written.map .span)) = [.ended sheet.span] := by
    have nothing : trail sheet.span (released.map .contextReleased) = [] :=
      SpanEvent.trail_eq_nil fun event mem => by
        obtain ⟨context, -, rfl⟩ := List.mem_map.1 mem
        exact nofun
    rw [spanEvents_map_span, SpanEvent.trail_append, nothing]
    simp [trail, SpanEvent.acts?]
  rwa [trail_eq] at told

/-- Dropping a call ends the spans that have not ended. -/
theorem Traced.closed {journal : Journal} (traced : call.Traced segments matchers first (spanEvents journal.events) log)
    (course : call.Course segments matchers log) :
    ∃ more, journal.Traces first (named (spanEvents log)) more (call.drop journal) ∧
      call.Recounts segments matchers first (spanEvents (call.drop journal).events) (log ++ more) := by
  unfold Traced at traced
  unfold Course at course
  unfold Call.drop
  cases stage : call.stage with
  | waiting =>
    simp only [stage] at traced ⊢
    exact ⟨[], .silent (Journal.writes_nil rfl) rfl, .inl ⟨stage, by rw [traced]; rfl⟩⟩
  | driving span context hub drive =>
    simp only [stage] at traced course ⊢
    obtain ⟨ms, has, scope_eq, earns, of⟩ := traced
    obtain ⟨begun, expr, builds, underway, quiet⟩ := course
    -- the batches go first, then the invocations that are not over, and the call's own span last
    obtain ⟨dropped, writes, mute, silent⟩ := Flight.dropAll_mutes drive.flights ⟨hub, journal⟩
    obtain ⟨traces, has⟩ := has.mute writes mute
    obtain ⟨ended, writes', silent', ends⟩ := Session.drop_writes of (scope_eq ▸ rfl) (drive.drop ⟨hub, journal⟩).journal
    obtain ⟨traces', holds⟩ := CallSheet.Holds.close has writes' ends
    obtain ⟨traces'', holds⟩ := holds_farewell holds [context]
    refine ⟨_, traces.append (traces'.append traces''), .inr ⟨⟨span, context, [.ended span], ms⟩, ?_⟩⟩
    rw [← List.append_assoc, ← List.append_assoc]
    refine ⟨holds, ⟨earned_of_earns scope_eq earns of, .inr ⟨expr, builds, underway.coveredBy of⟩⟩, ?_, fun _ => .inl ⟨?_, rfl⟩⟩
    · simp [answer?, stage]
    · rw [appeals_append, appeals_append, appeals_append, quiet, silent, silent']
      rfl
  | flushing span context hub outcome invocations flush =>
    simp only [stage] at traced ⊢
    obtain ⟨ms, has, decides, quiet⟩ := traced
    obtain ⟨dropped, writes, mute, silent⟩ := Flight.dropAll_mutes flush.flights ⟨hub, journal⟩
    obtain ⟨traces, has⟩ := has.mute writes mute
    obtain ⟨traces', holds⟩ := holds_farewell (CallSheet.Holds.settled has decides.settled _) [context]
    refine ⟨_, traces.append traces', .inr ⟨⟨span, context, [.ended span], ms⟩, ?_⟩⟩
    rw [← List.append_assoc]
    refine ⟨holds, decides.covers, ?_, fun _ => .inl ⟨?_, rfl⟩⟩
    · simp [answer?, stage]
    · rw [appeals_append, appeals_append, quiet, silent]
      rfl
  | recovering span deadline alarm rest =>
    simp only [stage] at traced ⊢
    obtain ⟨context, ms, error, fallback, has, decides, asked, comes, told⟩ := traced
    obtain ⟨traces, holds⟩ := holds_farewell (CallSheet.Holds.settled has decides.settled _) []
    refine ⟨_, traces, .inr ⟨_, holds, decides.covers, ?_, fun _ => .inr ⟨error, decides, ?_, rfl⟩⟩⟩
    · simp [answer?, stage]
    · rw [appeals_append, told]
      exact List.append_nil _
  | answered value =>
    simp only [stage] at traced ⊢
    obtain ⟨span, context, ms, outcome, has, decides, value_eq, told⟩ := traced
    refine ⟨[], .silent (Journal.writes_nil rfl) rfl,
      .inr ⟨⟨span, context, verdictEvents span outcome ++ answerEvents span value, ms⟩, ?_⟩⟩
    rw [List.append_nil]
    refine ⟨CallSheet.Holds.settled has decides.settled _, decides.covers, fun given answered => ?_, ?_⟩
    · have same : value = given := by simpa [answer?, stage] using answered
      exact ⟨outcome, decides, same ▸ value_eq, told, same ▸ rfl⟩
    · simp [answer?, stage]

/-- Others may write meanwhile. -/
theorem Recounts.later {all : List SpanEvent} (recounts : call.Recounts segments matchers first all log)
    (more : List SpanEvent) : call.Recounts segments matchers first (all ++ more) log := by
  rcases recounts with waiting | ⟨sheet, holds, covers, answered, dropped⟩
  · exact .inl waiting
  · exact .inr ⟨sheet, holds.later more, covers, answered, dropped⟩

end Call

/-- All that was written of spans since a journal is in order, and the spans that were started are those named in the
logs. -/
def Journal.Registers (first : Journal) (events : List Event) (logs : List (List Event)) : Prop :=
  ∃ written, events = first.events ++ written ∧
    Orderly first.spanCount first.spanCount first.contextCount (spanEvents written) ∧
    (logs.flatMap fun log => named (spanEvents log)).Perm
      (List.range' first.spanCount (starts (spanEvents written)).length)

namespace Journal.Registers

variable {first journal later : Journal} {logs : List (List Event)}

theorem start (first : Journal) (requests : List (Json × Target × Option Fallback)) :
    first.Registers first.events (requests.map fun _ => []) := by
  have nothing : ((requests.map fun _ => ([] : List Event)).flatMap fun log => named (spanEvents log)) = [] := by
    refine List.flatMap_eq_nil_iff.2 fun log mem => ?_
    obtain ⟨_, -, rfl⟩ := List.mem_map.1 mem
    rfl
  refine ⟨[], (List.append_nil _).symm, trivial, ?_⟩
  rw [nothing]
  exact .refl _

theorem above (registers : first.Registers journal.events logs) : first.spanCount ≤ journal.spanCount := by
  obtain ⟨written, writes, -⟩ := registers
  rw [Journal.Writes.spanCount writes]
  exact Nat.le_add_right _ _

theorem turn (registers : first.Registers journal.events logs) {index : Nat} {log more : List Event}
    (whose : logs[index]? = some log) (traces : journal.Traces first.spanCount (named (spanEvents log)) more later) :
    first.Registers later.events (logs.set index (log ++ more)) := by
  obtain ⟨written, writes, orderly, perm⟩ := registers
  have spans := Journal.Writes.spanCount writes
  have contexts := Journal.Writes.contextCount writes
  refine ⟨written ++ more, ?_, ?_, ?_⟩
  · rw [show later.events = journal.events ++ more from traces.writes, writes, List.append_assoc]
  · rw [spanEvents_append]
    refine orderly.append ?_
    rw [← spans, ← contexts]
    exact traces.orderly
  · have grown : named (spanEvents (log ++ more)) = named (spanEvents log) ++ named (spanEvents more) := by
      rw [spanEvents_append, SpanEvent.named_append]
    refine (flatMap_set_perm (f := fun log => named (spanEvents log)) whose grown).trans ?_
    refine (perm.append_right _).trans ?_
    rw [traces.named_eq, spans, spanEvents_append, SpanEvent.starts_append, List.length_append, List.range'_append_1]

end Journal.Registers

/-- Calls that run at once trace their spans, each its own, and nobody else starts spans meanwhile. -/
theorem Call.traced_kept (segments : Keyed SegmentDefinition) (matchers : String → Option Matcher) (first : Journal) :
    Bookkeeping segments matchers
      (fun events call log => call.Course segments matchers log ∧
        call.Traced segments matchers first.spanCount (spanEvents events) log)
      (fun events call log => call.Recounts segments matchers first.spanCount (spanEvents events) log)
      first.Registers where
  start events subject target fallback := ⟨rfl, rfl⟩
  kept_later more kept := ⟨kept.1, by rw [spanEvents_append]; exact kept.2.later _⟩
  closed_later more closed := by
    rw [spanEvents_append]
    exact closed.later _
  poll holds journal _ _ kept _ _ whose joint := by
    obtain ⟨more, traces, traced⟩ := kept.2.poll kept.1 holds joint.above
    obtain ⟨written, writes, course, same⟩ := kept.1.poll holds journal
    obtain rfl := traces.writes.unique writes
    exact ⟨more, writes, ⟨course, traced⟩, joint.turn whose traces, same⟩
  advance kept now := ⟨kept.1.advance now, kept.2.advance now⟩
  drop kept _ _ whose joint := by
    obtain ⟨more, traces, recounts⟩ := kept.2.closed kept.1
    exact ⟨more, traces.writes, recounts, joint.turn whose traces⟩

end Segmentation
