import Segmentation.Proofs.Tracing

/-!
# Contexts are returned before their spans end

A call takes one context, from the span of its segment, and the context is lent to all of its invocations.  The call
releases it when the queues are empty, when there is no expression to evaluate, or when it is dropped, and ends the span
after that (`Call.Returns`).  Its invocations neither take nor release any, and end no spans but their own
(`Drive.pass_spares`).
-/

namespace Segmentation

open SpanEvent (Takes)

namespace SpanEvent

/-- Whether a context is taken or released, or the span ends. -/
def isLease (span : Nat) : SpanEvent → Bool
  | .contextTaken _ => true
  | .contextReleased _ => true
  | .ended other => other = span
  | _ => false

/-- What is said of contexts, and of the end of the span. -/
def lease (span : Nat) (events : List SpanEvent) : List SpanEvent := events.filter (isLease span)

@[simp] theorem lease_append (span : Nat) (events more : List SpanEvent) :
    lease span (events ++ more) = lease span events ++ lease span more := List.filter_append _ _

/-- What is done with another span is of no interest. -/
theorem lease_of_acts {span other : Nat} (differs : other ≠ span) {events : List SpanEvent}
    (acts : ∀ event ∈ events, event.acts? = some other) : lease span events = [] := by
  refine List.filter_eq_nil_iff.2 fun event mem => ?_
  have acts := acts event mem
  cases event with
  | ended e =>
    obtain rfl := Option.some.inj acts
    simpa [isLease] using differs
  | contextTaken s => cases acts
  | contextReleased c => cases acts
  | _ => exact Bool.false_ne_true

/-- The context was taken from the span, and this is what the log says of contexts and of the end of the span. -/
structure Lends (all log : List SpanEvent) (span context : Nat) (said : List SpanEvent) : Prop where
  taken : Takes all span context
  lease_eq : lease span log = said

/-- Others may write meanwhile. -/
theorem Lends.later {all log said : List SpanEvent} {span context : Nat} (lends : Lends all log span context said)
    (more : List SpanEvent) : Lends (all ++ more) log span context said :=
  ⟨lends.taken.append more, lends.lease_eq⟩

end SpanEvent

open SpanEvent (lease Lends)

/-- What is written says nothing of contexts, nor of the end of the span. -/
def Journal.Spares (span : Nat) (before later : Journal) : Prop :=
  ∃ written, before.Writes written later ∧ lease span (spanEvents written) = []

namespace Journal.Spares

variable {span : Nat}

theorem refl {before later : Journal} (same : later.events = before.events) : before.Spares span later :=
  ⟨[], writes_nil same, rfl⟩

theorem trans {a b c : Journal} (ab : a.Spares span b) (bc : b.Spares span c) : a.Spares span c := by
  obtain ⟨first, writes, spared⟩ := ab
  obtain ⟨second, writes', spared'⟩ := bc
  refine ⟨first ++ second, writes.trans writes', ?_⟩
  rw [spanEvents_append, SpanEvent.lease_append, spared, spared', List.append_nil]

theorem recordAll (journal : Journal) {events : List Event} (none : lease span (spanEvents events) = []) :
    journal.Spares span (journal.recordAll events) := ⟨events, journal.writes_recordAll events, none⟩

theorem record (journal : Journal) {event : Event} (none : lease span (spanEvents [event]) = []) :
    journal.Spares span (journal.record event) := ⟨[event], journal.writes_record event, none⟩

theorem spanCount_le {before later : Journal} (spares : before.Spares span later) :
    before.spanCount ≤ later.spanCount := by
  obtain ⟨written, writes, -⟩ := spares
  rw [writes.spanCount]
  exact Nat.le_add_right _ _

end Journal.Spares

/-- The log goes on. -/
theorem SpanEvent.Lends.write {before later : Journal} {log written : List Event} {span context : Nat}
    {said : List SpanEvent} (lends : Lends (spanEvents before.events) (spanEvents log) span context said)
    (writes : before.Writes written later) : Lends (spanEvents later.events) (spanEvents (log ++ written)) span context
      (said ++ lease span (spanEvents written)) := by
  refine ⟨?_, ?_⟩
  · rw [show later.events = before.events ++ written from writes, spanEvents_append]
    exact lends.taken.append _
  · rw [spanEvents_append, SpanEvent.lease_append, lends.lease_eq]

theorem Journal.Mutes.spares {before later : Journal} (mutes : before.Mutes later) (span : Nat) :
    before.Spares span later := by
  obtain ⟨written, writes, mute, -⟩ := mutes
  refine ⟨written, writes, ?_⟩
  rw [mute]
  rfl

/-! ### Invocations -/

/-- The stage is that of an invocation without a span, or with a later one. -/
def Stage.Above (root : Nat) (stage : Stage) : Prop := stage = .fresh ∨ ∃ span, root < span ∧ stage.Owns span

namespace Invocation

variable {scope : Scope} {root : Nat}

theorem Shows.spares {definition : Definition} {span : Nat} {sofar : List SpanEvent} {before : Journal}
    {r : Stage × Scene} (shows : Shows scope definition span sofar before r) (above : root < span) :
    before.Spares root r.2.journal := by
  obtain ⟨written, writes, -, none | ⟨outcome, closes⟩, -⟩ := shows
  · refine ⟨written, writes, ?_⟩
    rw [none]
    rfl
  · refine ⟨written, writes, ?_⟩
    rw [closes]
    exact SpanEvent.lease_of_acts (Nat.ne_of_gt above) (closing_acts span outcome)

/-- An invocation that goes on has a later span, if it has one. -/
theorem advance_spares (definition : Definition) (traced : scope.parent.isSome) (index : Nat) {stage : Stage}
    (above : stage.Above root) {scene : Scene} (below : root < scene.journal.spanCount) :
    let r := advance scope definition index stage scene
    scene.journal.Spares root r.2.journal ∧ r.1.Above root := by
  rcases above with rfl | ⟨span, above, owns⟩
  · have shows := begins_shows definition index traced scene
    let opened := scene.journal.recordAll (scope.spanEvents (opening scope definition scene.journal.spanCount))
    have opens : scene.journal.Spares root opened := by
      refine ⟨_, Journal.writes_recordAll _ _, ?_⟩
      rw [spanEvents_eq traced, spanEvents_map_span, opening_eq]
      change lease root (introduction scope.segment definition scene.journal.spanCount) = []
      exact SpanEvent.lease_of_acts (Nat.ne_of_gt below) (introduction_acts scope.segment definition _)
    have owns : (begins scope definition index scene).1.Owns scene.journal.spanCount := by
      obtain ⟨_, -, -, -, owns⟩ := shows
      exact owns
    exact ⟨opens.trans (shows.spares below), .inr ⟨_, below, owns⟩⟩
  · have shows := advance_shows definition index span traced owns scene
    refine ⟨shows.spares above, .inr ⟨span, above, ?_⟩⟩
    obtain ⟨_, -, -, -, owns⟩ := shows
    exact owns

/-- An invocation that is dropped ends no span but its own. -/
theorem drop_spares {i : Invocation} (above : i.stage.Above root) (scope : Scope) (journal : Journal) :
    journal.Spares root (i.drop scope journal) := by
  have ends {span : Nat} (above : root < span) (journal : Journal) :
      journal.Spares root (journal.recordAll (scope.spanEvents [.ended span])) := by
    refine ⟨_, Journal.writes_recordAll _ _, ?_⟩
    unfold Scope.spanEvents
    split
    · rw [spanEvents_map_span]
      exact SpanEvent.lease_of_acts (Nat.ne_of_gt above) (List.forall_mem_singleton.2 rfl)
    · rfl
  unfold Invocation.drop
  rcases above with fresh | ⟨span, above, owns⟩
  · rw [fresh]
    exact .refl rfl
  · cases stage : i.stage with
    | fresh => exact .refl rfl
    | settled outcome => exact .refl rfl
    | validating own deadline rest =>
      obtain rfl : own = span := by rwa [stage] at owns
      exact ends above journal
    | awaiting own load =>
      obtain rfl : own = span := by rwa [stage] at owns
      exact ends above journal
    | evaluating own args deadline rest =>
      obtain rfl : own = span := by rwa [stage] at owns
      exact .trans (.record journal rfl) (ends above _)

end Invocation

namespace Session

/-- All invocations have later spans, if they have any. -/
structure Above (root : Nat) (session : Session) : Prop where
  traced : session.scope.parent.isSome
  stages : ∀ i ∈ session.invocations, i.stage.Above root

variable {root : Nat} {session : Session} (above : session.Above root)

include above

theorem Above.advance {scene : Scene} (below : root < scene.journal.spanCount) (index : Nat) :
    scene.journal.Spares root (session.advance scene index).2.journal ∧ (session.advance scene index).1.Above root := by
  unfold Session.advance
  cases here : session.invocations[index]? with
  | none => exact ⟨.refl rfl, above⟩
  | some i =>
    obtain ⟨spares, later⟩ := Invocation.advance_spares i.definition above.traced index
      (above.stages i (List.mem_of_getElem? here)) below
    refine ⟨spares, above.traced, fun j mem => ?_⟩
    rcases List.mem_or_eq_of_mem_set mem with old | rfl
    · exact above.stages j old
    · exact later

theorem Above.drop (journal : Journal) : journal.Spares root (session.drop journal) := by
  refine List.foldlRecOn session.invocations _ (motive := fun later => journal.Spares root later) (.refl rfl)
    fun later spares i mem => ?_
  exact spares.trans (Invocation.drop_spares (above.stages i mem) session.scope later)

end Session

/-- A pass takes and releases no contexts, and does not end the span of the segment. -/
theorem Drive.pass_spares {root : Nat} {drive : Drive Evaluation} (above : drive.client.session.Above root)
    {scene : Scene} (below : root < scene.journal.spanCount) :
    scene.journal.Spares root (drive.pass scene).2.journal ∧ (drive.pass scene).1.client.session.Above root := by
  have polled : scene.journal.Spares root (drive.pollClient scene).2.journal ∧
      (drive.pollClient scene).1.client.session.Above root := by
    unfold pollClient
    split
    · exact ⟨.refl rfl, above⟩
    · let spared (r : Session × Scene) : Prop := scene.journal.Spares root r.2.journal ∧ r.1.Above root
      refine List.foldlRecOn (motive := spared) _ _ ⟨.refl rfl, above⟩ fun r spared index _ => ?_
      obtain ⟨spares, later⟩ := spared.2.advance (Nat.lt_of_lt_of_le below spared.1.spanCount_le) index
      exact ⟨spared.1.trans spares, later⟩
  exact ⟨polled.1.trans ((drive.notes_pass scene).mutes.spares root), polled.2⟩

/-! ### Calls -/

namespace Call

/-- What a call has said of contexts and of the end of the span of its segment, by the stage that it has got to. -/
def Leases (call : Call) (all : List SpanEvent) (log : List Event) : Prop :=
  match call.stage with
  | .waiting => log = []
  | .driving span context _ drive =>
    Lends all (spanEvents log) span context [.contextTaken span] ∧ drive.client.session.Above span
  | .flushing span context _ _ _ _ => Lends all (spanEvents log) span context [.contextTaken span]
  | .recovering span _ _ _ =>
    ∃ context, Lends all (spanEvents log) span context [.contextTaken span, .contextReleased context]
  | .answered _ => ∃ span context,
    Lends all (spanEvents log) span context [.contextTaken span, .contextReleased context, .ended span]

/-- A call that has begun has released its context by the time that it is over, and then ended the span. -/
def Returns (call : Call) (all : List SpanEvent) (log : List Event) : Prop :=
  call.stage = .waiting ∧ log = [] ∨ ∃ span context,
    Lends all (spanEvents log) span context [.contextTaken span, .contextReleased context, .ended span]

/-- A step of a call keeps to its lease. -/
def KeepsLease (log : List Event) (before : Journal) (r : Call × Journal) : Prop :=
  ∃ written, before.Writes written r.2 ∧ r.1.Leases (spanEvents r.2.events) (log ++ written)

variable {log : List Event} {call : Call} {span context : Nat}

theorem KeepsLease.after {a b : Journal} {written : List Event} {r : Call × Journal} (writes : a.Writes written b)
    (keeps : KeepsLease (log ++ written) b r) : KeepsLease log a r := by
  obtain ⟨more, writes', leases⟩ := keeps
  refine ⟨written ++ more, writes.trans writes', ?_⟩
  rwa [← List.append_assoc]

/-- What is written before a step may be of no interest. -/
theorem KeepsLease.spared {a b : Journal} (spares : a.Spares span b) {said : List SpanEvent}
    (lends : Lends (spanEvents a.events) (spanEvents log) span context said) {r : Call × Journal}
    (keeps : ∀ more, Lends (spanEvents b.events) (spanEvents more) span context said → KeepsLease more b r) :
    KeepsLease log a r := by
  obtain ⟨written, writes, none⟩ := spares
  have grown := lends.write writes
  rw [none, List.append_nil] at grown
  exact .after writes (keeps _ grown)

/-- Nothing is written in a step. -/
theorem KeepsLease.still {before later : Journal} (same : later.events = before.events)
    (leases : call.Leases (spanEvents before.events) log) : KeepsLease log before (call, later) := by
  refine ⟨[], Journal.writes_nil same, ?_⟩
  rwa [same, List.append_nil]

section

variable {journal : Journal}
  (lends : Lends (spanEvents journal.events) (spanEvents log) span context
    [.contextTaken span, .contextReleased context])

include lends

theorem finish_keepsLease (value : Bool) : KeepsLease log journal (call.finish span value journal) := by
  have grown := lends.write (journal.writes_recordAll
    [.span (.attributed span "segment.result" (.bool value)), .span (.ended span)])
  have ends : lease span [.attributed span "segment.result" (.bool value), .ended span] = [.ended span] := by
    simp [lease, SpanEvent.isLease]
  refine ⟨_, journal.writes_recordAll _, span, context, ?_⟩
  rw [← ends]
  exact grown

theorem recovered_keepsLease (running : Running (Ending Bool)) :
    KeepsLease log journal (call.recovered span running journal) := by
  cases running with
  | asleep deadline rest => exact .still rfl ⟨context, lends⟩
  | ended ending =>
    simp only [recovered]
    split
    · exact finish_keepsLease lends _
    · exact .spared (.record _ rfl) lends fun more lends => finish_keepsLease lends false

theorem conclude_keepsLease (outcome : Outcome) : KeepsLease log journal (call.conclude span outcome journal) := by
  unfold conclude
  cases outcome with
  | ok value => exact .spared (.record _ rfl) lends fun more lends => finish_keepsLease lends value
  | error error =>
    have tells : journal.Spares span (((journal.recordAll ((SpanEvent.ofError span error).map .span))).record
        (.errorReported error call.target.name call.subject)) := .trans (.recordAll _ rfl) (.record _ rfl)
    dsimp only
    cases call.fallback with
    | none => exact .spared tells lends fun more lends => finish_keepsLease lends false
    | some fallback =>
      exact .spared (tells.trans (.record _ rfl)) lends fun more lends => recovered_keepsLease lends _

end

/-- The context is released when the queues are empty, and the span ends after that. -/
theorem flushQueues_keepsLease {scene : Scene}
    (lends : Lends (spanEvents scene.journal.events) (spanEvents log) span context [.contextTaken span])
    (outcome : Outcome) (invocations : Nat) (flush : Flush) :
    KeepsLease log scene.journal (call.flushQueues span context outcome invocations flush scene) := by
  have flushed : scene.journal.Spares span (flush.pass scene).2.journal := (flush.pass_mutes scene).spares span
  unfold flushQueues
  generalize flush.pass scene = r at flushed
  obtain ⟨flush, later⟩ := r
  refine .spared flushed lends fun more lends => ?_
  dsimp only
  split
  · have noted : later.journal.Spares span (later.journal.notice
        (.segmentEvaluated call.target.name invocations flush.flushed)) := .record _ rfl
    refine .spared noted lends fun more lends => ?_
    exact .after (Journal.writes_record _ _) (conclude_keepsLease (lends.write (Journal.writes_record _ _)) outcome)
  · exact .still rfl lends

theorem driveOn_keepsLease {drive : Drive Evaluation} {scene : Scene}
    (lends : Lends (spanEvents scene.journal.events) (spanEvents log) span context [.contextTaken span])
    (above : drive.client.session.Above span) :
    KeepsLease log scene.journal (call.driveOn span context drive scene) := by
  have below : span < scene.journal.spanCount := by
    obtain ⟨before, after, events_eq, -, lt⟩ := lends.taken
    rw [scene.journal.spanCount_eq, events_eq, SpanEvent.starts_append, List.length_append]
    exact Nat.lt_add_right _ lt
  obtain ⟨passed, above⟩ := Drive.pass_spares above below
  unfold driveOn
  generalize drive.pass scene = r at passed above
  obtain ⟨drive, later⟩ := r
  refine .spared passed lends fun more lends => ?_
  dsimp only at lends above ⊢
  split
  · exact flushQueues_keepsLease lends _ _ _
  · exact .still rfl ⟨lends, above⟩

/-- A call that begins takes a context.  If there is no expression to evaluate it releases it at once. -/
theorem begins_keepsLease (segments : Keyed SegmentDefinition) (registry : Registry) (journal : Journal) :
    let r := call.begins segments registry journal
    KeepsLease [] journal (r.1, r.2.2) := by
  let opened : Journal := journal.recordAll ((call.prelude journal).map .span)
  have opens : journal.Writes ((call.prelude journal).map .span) opened := journal.writes_recordAll _
  have lends : Lends (spanEvents opened.events) (spanEvents ((call.prelude journal).map .span)) journal.spanCount
      journal.contextCount [.contextTaken journal.spanCount] := by
    obtain ⟨-, rooted⟩ := call.prelude_rooted (Nat.zero_le journal.spanCount)
    refine ⟨rooted.taken, ?_⟩
    rw [spanEvents_map_span]
    rfl
  unfold begins
  dsimp only
  refine .after opens ?_
  cases Engine.buildExpr segments registry call.subject call.target with
  | mk built later =>
    cases built with
    | error error =>
      exact .after (opened.writes_record _) (conclude_keepsLease (lends.write (opened.writes_record _)) (.error error))
    | ok expr =>
      refine .spared ((Session.launch_mutes expr (.start ⟨call.subject, call.target.name, true, 0,
        some (.taken journal.contextCount)⟩) opened).spares _) lends fun more lends => ?_
      have unbegun := Session.Unbegun.of_start ⟨call.subject, call.target.name, true, 0,
        some (.taken journal.contextCount)⟩ expr opened
      refine driveOn_keepsLease lends ⟨?_, fun i mem => .inl (unbegun.fresh i mem).1⟩
      exact (congrArg (fun scope : Scope => scope.parent.isSome) unbegun.scope_eq).trans rfl

/-- Every poll keeps to the lease, whatever others have done meanwhile. -/
theorem Leases.poll {journal : Journal} (leases : call.Leases (spanEvents journal.events) log)
    (segments : Keyed SegmentDefinition) (registry : Registry) :
    let r := call.poll segments registry journal
    KeepsLease log journal (r.1, r.2.2) := by
  have stays : KeepsLease log journal (call, journal) := .still rfl leases
  unfold Call.poll
  unfold Leases at leases
  cases stage : call.stage with
  | waiting =>
    simp only [stage] at leases ⊢
    rw [leases]
    exact begins_keepsLease segments registry journal
  | driving span context hub drive =>
    simp only [stage] at leases ⊢
    have lends : Lends (spanEvents (Scene.mk hub journal).journal.events) (spanEvents log) span context
      [.contextTaken span] := leases.1
    exact driveOn_keepsLease lends leases.2
  | flushing span context hub outcome invocations flush =>
    simp only [stage] at leases ⊢
    have lends : Lends (spanEvents (Scene.mk hub journal).journal.events) (spanEvents log) span context
      [.contextTaken span] := leases
    exact flushQueues_keepsLease lends outcome invocations flush
  | recovering span deadline alarm rest =>
    simp only [stage] at leases ⊢
    obtain ⟨context, lends⟩ := leases
    split
    · exact recovered_keepsLease lends _
    · exact stays
  | answered value => exact stays

theorem Leases.advance {all : List SpanEvent} (leases : call.Leases all log) (now : Nat) :
    (call.advance now).Leases all log := by
  obtain ⟨subject, target, fallback, stage, strays⟩ := call
  cases stage with
  | driving span context hub drive =>
    obtain ⟨lends, above⟩ := leases
    rw [← Evaluation.client_advance drive hub now] at above
    exact ⟨lends, above⟩
  | _ => exact leases

/-- Others may write meanwhile. -/
theorem Leases.later {all : List SpanEvent} (leases : call.Leases all log) (more : List SpanEvent) :
    call.Leases (all ++ more) log := by
  obtain ⟨subject, target, fallback, stage, strays⟩ := call
  cases stage with
  | waiting => exact leases
  | driving span context hub drive => exact ⟨leases.1.later more, leases.2⟩
  | flushing span context hub outcome invocations flush => exact SpanEvent.Lends.later leases more
  | recovering span deadline alarm rest =>
    obtain ⟨context, lends⟩ := leases
    exact ⟨context, lends.later more⟩
  | answered value =>
    obtain ⟨span, context, lends⟩ := leases
    exact ⟨span, context, lends.later more⟩

theorem Returns.later {all : List SpanEvent} (returns : call.Returns all log) (more : List SpanEvent) :
    call.Returns (all ++ more) log := by
  rcases returns with waiting | ⟨span, context, lends⟩
  · exact .inl waiting
  · exact .inr ⟨span, context, lends.later more⟩

/-- After what is of no interest the context is released and the span ends. -/
private theorem returns_farewell {before journal : Journal} (spares : before.Spares span journal)
    (lends : Lends (spanEvents before.events) (spanEvents log) span context [.contextTaken span]) :
    let later := journal.recordAll [.span (.contextReleased context), .span (.ended span)]
    ∃ more, before.Writes more later ∧ call.Returns (spanEvents later.events) (log ++ more) := by
  intro later
  obtain ⟨dropped, writes, none⟩ := spares
  have grown := lends.write writes
  rw [none, List.append_nil] at grown
  have parting := grown.write (journal.writes_recordAll [.span (.contextReleased context), .span (.ended span)])
  have ends : lease span [.contextReleased context, .ended span] = [.contextReleased context, .ended span] := by
    simp [lease, SpanEvent.isLease]
  refine ⟨_, writes.trans (journal.writes_recordAll _), .inr ⟨span, context, ?_⟩⟩
  rw [← List.append_assoc, ← List.singleton_append, ← ends]
  exact parting

/-- A call that is dropped releases its context, unless it has done so, and ends its span. -/
theorem Leases.drop {journal : Journal} (leases : call.Leases (spanEvents journal.events) log) :
    ∃ more, journal.Writes more (call.drop journal) ∧
      call.Returns (spanEvents (call.drop journal).events) (log ++ more) := by
  unfold Leases at leases
  unfold Call.drop
  cases stage : call.stage with
  | waiting =>
    simp only [stage] at leases ⊢
    exact ⟨[], Journal.writes_nil rfl, .inl ⟨stage, by rw [leases]; rfl⟩⟩
  | driving span context hub drive =>
    simp only [stage] at leases ⊢
    obtain ⟨lends, above⟩ := leases
    have spares := ((Flight.dropAll_mutes drive.flights ⟨hub, journal⟩).spares span).trans
      (above.drop (drive.drop ⟨hub, journal⟩).journal)
    exact returns_farewell spares lends
  | flushing span context hub outcome invocations flush =>
    simp only [stage] at leases ⊢
    exact returns_farewell ((Flight.dropAll_mutes flush.flights ⟨hub, journal⟩).spares span) leases
  | recovering span deadline alarm rest =>
    simp only [stage] at leases ⊢
    obtain ⟨context, lends⟩ := leases
    have grown := lends.write (journal.writes_record (.span (.ended span)))
    have ends : lease span [.ended span] = [.ended span] := by simp [lease, SpanEvent.isLease]
    refine ⟨_, journal.writes_record _, .inr ⟨span, context, ?_⟩⟩
    have said : lease span (spanEvents [.span (.ended span)]) = [.ended span] := ends
    rw [said] at grown
    exact grown
  | answered value =>
    simp only [stage] at leases ⊢
    refine ⟨[], Journal.writes_nil rfl, .inr ?_⟩
    rwa [List.append_nil]

/-- Calls that run at once trace their spans, and return their contexts before these end. -/
theorem returns_kept (segments : Keyed SegmentDefinition) (matchers : String → Option Matcher) (first : Journal) :
    Bookkeeping segments matchers
      (fun events call log => (call.Course segments matchers log ∧
        call.Traced segments matchers first.spanCount (spanEvents events) log) ∧ call.Leases (spanEvents events) log)
      (fun events call log => call.Recounts segments matchers first.spanCount (spanEvents events) log ∧
        call.Returns (spanEvents events) log)
      first.Registers where
  start events subject target fallback :=
    ⟨(traced_kept segments matchers first).start events subject target fallback, rfl⟩
  kept_later more kept := by
    refine ⟨(traced_kept segments matchers first).kept_later more kept.1, ?_⟩
    rw [spanEvents_append]
    exact kept.2.later _
  closed_later more closed := by
    refine ⟨(traced_kept segments matchers first).closed_later more closed.1, ?_⟩
    rw [spanEvents_append]
    exact closed.2.later _
  poll {registry} holds _ _ _ kept _ _ whose joint := by
    obtain ⟨more, writes, traced, joint, same⟩ := (traced_kept segments matchers first).poll holds kept.1 whose joint
    obtain ⟨written, writes', leases⟩ := kept.2.poll segments registry
    obtain rfl := writes.unique writes'
    exact ⟨more, writes, ⟨traced, leases⟩, joint, same⟩
  advance kept now := ⟨(traced_kept segments matchers first).advance kept.1 now, kept.2.advance now⟩
  drop kept _ _ whose joint := by
    obtain ⟨more, writes, recounts, joint⟩ := (traced_kept segments matchers first).drop kept.1 whose joint
    obtain ⟨written, writes', returns⟩ := kept.2.drop
    obtain rfl := writes.unique writes'
    exact ⟨more, writes, ⟨recounts, returns⟩, joint⟩

end Call

end Segmentation
