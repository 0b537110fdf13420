import Segmentation.Proofs.Deeds

/-!
# Trails of spans

What is written of spans (`spanEvents`) tells which spans are started, which contexts are taken, and what is done with
each of them: its trail.  Every span has a number, and what is done with it names this number.

* A span is started before anything is done with it (`SpanEvent.Orderly`).
* Right after its start a span gets the name of its segment, once, so the spans that a log has started can be read off
  it (`SpanEvent.named`).
* An invocation leaves the trail that its stage tells (`Stage.shown`), and the invocations of a session leave different
  ones (`Session.Traced`).
-/

namespace Segmentation

/-! ### What is written of spans -/

/-- What an event says of spans. -/
def Event.spanEvent? : Event → Option SpanEvent
  | .span event => some event
  | _ => none

/-- What is said of spans. -/
def spanEvents (log : List Event) : List SpanEvent := log.filterMap Event.spanEvent?

@[simp] theorem spanEvents_append (log more : List Event) : spanEvents (log ++ more) = spanEvents log ++ spanEvents more :=
  List.filterMap_append

@[simp] theorem spanEvents_map_span (events : List SpanEvent) : spanEvents (events.map .span) = events := by
  rw [spanEvents, List.filterMap_map]
  exact List.filterMap_some

theorem spanEvents_of_none {log : List Event} (none : ∀ event ∈ log, event.spanEvent? = none) : spanEvents log = [] :=
  List.filterMap_eq_nil_iff.2 none

namespace SpanEvent

/-- The span that is started: the number of the tracer, the name, and the parent. -/
def start? : SpanEvent → Option (Nat × String × Option ContextRef)
  | .started tracer name parent => some (tracer, name, parent)
  | _ => none

/-- The span that a context is taken from. -/
def taken? : SpanEvent → Option Nat
  | .contextTaken span => some span
  | _ => none

/-- The span with which something is done. -/
def acts? : SpanEvent → Option Nat
  | .attributed span _ _ => some span
  | .statusSet span _ => some span
  | .ended span => some span
  | _ => none

/-- The span that gets the name of its segment. -/
def named? : SpanEvent → Option Nat
  | .attributed span key _ => if key = "segment.name" then some span else none
  | _ => none

/-- The spans that are started, in order. -/
def starts (events : List SpanEvent) : List (Nat × String × Option ContextRef) := events.filterMap start?

/-- The spans from which contexts are taken, in order. -/
def takens (events : List SpanEvent) : List Nat := events.filterMap taken?

/-- The spans that get the names of their segments, in order. -/
def named (events : List SpanEvent) : List Nat := events.filterMap named?

/-- What is done with a span. -/
def trail (span : Nat) (events : List SpanEvent) : List SpanEvent := events.filter (·.acts? = some span)

section

variable (events more : List SpanEvent)

@[simp] theorem starts_append : starts (events ++ more) = starts events ++ starts more := List.filterMap_append

@[simp] theorem takens_append : takens (events ++ more) = takens events ++ takens more := List.filterMap_append

@[simp] theorem named_append : named (events ++ more) = named events ++ named more := List.filterMap_append

@[simp] theorem trail_append (span : Nat) : trail span (events ++ more) = trail span events ++ trail span more :=
  List.filter_append _ _

end

theorem trail_eq_nil {span : Nat} {events : List SpanEvent} (other : ∀ event ∈ events, event.acts? ≠ some span) :
    trail span events = [] := List.filter_eq_nil_iff.2 fun event mem => by simpa using other event mem

/-- Spans, numbered from the given count on, are started by the first tracer before anything is done with them, and
contexts are taken before they are used; nothing is done with spans before the first one. -/
def Orderly (first count contexts : Nat) : List SpanEvent → Prop
  | [] => True
  | .started tracer _ parent :: rest =>
    (tracer = 0 ∧ ∀ context, parent = some (.taken context) → context < contexts) ∧ Orderly first (count + 1) contexts rest
  | .contextTaken span :: rest => (first ≤ span ∧ span < count) ∧ Orderly first count (contexts + 1) rest
  | .attributed span _ _ :: rest => (first ≤ span ∧ span < count) ∧ Orderly first count contexts rest
  | .statusSet span _ :: rest => (first ≤ span ∧ span < count) ∧ Orderly first count contexts rest
  | .ended span :: rest => (first ≤ span ∧ span < count) ∧ Orderly first count contexts rest
  | .contextReleased _ :: rest => Orderly first count contexts rest

theorem Orderly.append {first count contexts : Nat} {events more : List SpanEvent} (here : Orderly first count contexts events)
    (later : Orderly first (count + (starts events).length) (contexts + (takens events).length) more) :
    Orderly first count contexts (events ++ more) := by
  induction events generalizing count contexts with
  | nil => exact later
  | cons event events ih =>
    cases event with
    | started tracer name parent =>
      refine ⟨here.1, ih here.2 ?_⟩
      have length_eq : (starts (.started tracer name parent :: events)).length = (starts events).length + 1 := rfl
      rwa [length_eq, ← Nat.add_assoc, Nat.add_right_comm] at later
    | contextTaken span =>
      refine ⟨here.1, ih here.2 ?_⟩
      have length_eq : (takens (.contextTaken span :: events)).length = (takens events).length + 1 := rfl
      rwa [length_eq, ← Nat.add_assoc contexts, Nat.add_right_comm contexts] at later
    | contextReleased context => exact ih here later
    | attributed span key value => exact ⟨here.1, ih here.2 later⟩
    | statusSet span status => exact ⟨here.1, ih here.2 later⟩
    | ended span => exact ⟨here.1, ih here.2 later⟩

/-- One event and the others. -/
theorem Orderly.of_cons {first count contexts : Nat} {event : SpanEvent} {events : List SpanEvent}
    (orderly : Orderly first count contexts (event :: events)) : Orderly first count contexts [event] ∧
      Orderly first (count + (starts [event]).length) (contexts + (takens [event]).length) events := by
  cases event with
  | contextReleased context => exact ⟨trivial, orderly⟩
  | _ => exact ⟨⟨orderly.1, trivial⟩, orderly.2⟩

/-- A context was taken from a span that was there. -/
def Takes (events : List SpanEvent) (span context : Nat) : Prop :=
  ∃ before after, events = before ++ .contextTaken span :: after ∧ (takens before).length = context ∧
    span < (starts before).length

theorem Takes.append {events : List SpanEvent} {span context : Nat} (takes : Takes events span context)
    (more : List SpanEvent) : Takes (events ++ more) span context := by
  obtain ⟨before, after, rfl, rest⟩ := takes
  exact ⟨before, after ++ more, by simp, rest⟩

theorem Takes.getElem? {events : List SpanEvent} {span context : Nat} (takes : Takes events span context) :
    (takens events)[context]? = some span := by
  obtain ⟨before, after, rfl, rfl, -⟩ := takes
  rw [takens_append, List.getElem?_append_right (Nat.le_refl _), Nat.sub_self]
  rfl

/-- Nothing is done but with one span, which is there: none is started or named, and no context is taken. -/
structure Concerns (span : Nat) (events : List SpanEvent) : Prop where
  acts : ∀ event ∈ events, ∀ other, event.acts? = some other → other = span
  starts_eq : starts events = []
  takens_eq : takens events = []
  unnamed : named events = []

theorem concerns_nil (span : Nat) : Concerns span [] := ⟨List.forall_mem_nil _, rfl, rfl, rfl⟩

/-- What is done with a span is no start of one. -/
theorem starts_of_acts {span : Nat} {events : List SpanEvent} (acts : ∀ event ∈ events, event.acts? = some span) :
    starts events = [] := by
  refine List.filterMap_eq_nil_iff.2 fun event mem => ?_
  have acts := acts event mem
  cases event with
  | started tracer name parent => cases acts
  | _ => rfl

/-- What is done with a span takes no context from it. -/
theorem takens_of_acts {span : Nat} {events : List SpanEvent} (acts : ∀ event ∈ events, event.acts? = some span) :
    takens events = [] := by
  refine List.filterMap_eq_nil_iff.2 fun event mem => ?_
  have acts := acts event mem
  cases event with
  | contextTaken other => cases acts
  | _ => rfl

/-- All that is done is done with the span. -/
theorem concerns_of_acts {span : Nat} {events : List SpanEvent} (acts : ∀ event ∈ events, event.acts? = some span)
    (unnamed : named events = []) : Concerns span events :=
  ⟨fun event mem _ is => Option.some.inj (is.symm.trans (acts event mem)), starts_of_acts acts, takens_of_acts acts,
    unnamed⟩

theorem trail_of_acts {span : Nat} {events : List SpanEvent} (acts : ∀ event ∈ events, event.acts? = some span) :
    trail span events = events := List.filter_eq_self.2 fun event mem => by simpa using acts event mem

/-- What is done with one span leaves no trail of another one. -/
theorem trail_singleton_other {event : SpanEvent} {own span : Nat} (acts : event.acts? = some own) (other : span ≠ own) :
    trail span [event] = [] := by
  refine trail_eq_nil (List.forall_mem_singleton.2 fun is => ?_)
  exact other (Option.some.inj (is.symm.trans acts))

/-- What is done with spans that are there is in order. -/
theorem orderly_of_acts {first count : Nat} (contexts : Nat) {events : List SpanEvent}
    (acts : ∀ event ∈ events, ∀ span, event.acts? = some span → first ≤ span ∧ span < count)
    (no_starts : starts events = []) (no_takens : takens events = []) : Orderly first count contexts events := by
  induction events with
  | nil => trivial
  | cons event events ih =>
    obtain ⟨here, rest⟩ := List.forall_mem_cons.1 acts
    cases event with
    | started tracer name parent => cases no_starts
    | contextTaken span => cases no_takens
    | contextReleased context => exact ih rest no_starts no_takens
    | attributed span key value => exact ⟨here span rfl, ih rest no_starts no_takens⟩
    | statusSet span status => exact ⟨here span rfl, ih rest no_starts no_takens⟩
    | ended span => exact ⟨here span rfl, ih rest no_starts no_takens⟩

end SpanEvent

open SpanEvent (Orderly Concerns starts takens named trail)

namespace Journal

theorem spanCount_eq (journal : Journal) : journal.spanCount = (starts (spanEvents journal.events)).length := by
  unfold spanCount starts spanEvents
  generalize journal.events = events
  induction events with
  | nil => rfl
  | cons event events ih =>
    cases event with
    | span event => cases event <;> simp [List.filterMap_cons, Event.spanEvent?, SpanEvent.start?, ih]
    | _ => simp [List.filterMap_cons, Event.spanEvent?, ih]

theorem contextCount_eq (journal : Journal) : journal.contextCount = (takens (spanEvents journal.events)).length := by
  unfold contextCount takens spanEvents
  generalize journal.events = events
  induction events with
  | nil => rfl
  | cons event events ih =>
    cases event with
    | span event => cases event <;> simp [List.filterMap_cons, Event.spanEvent?, SpanEvent.taken?, ih]
    | _ => simp [List.filterMap_cons, Event.spanEvent?, ih]

variable {before later : Journal} {written : List Event}

theorem Writes.spanCount (writes : before.Writes written later) :
    later.spanCount = before.spanCount + (starts (spanEvents written)).length := by
  rw [later.spanCount_eq, before.spanCount_eq, show later.events = before.events ++ written from writes]
  simp

theorem Writes.contextCount (writes : before.Writes written later) :
    later.contextCount = before.contextCount + (takens (spanEvents written)).length := by
  rw [later.contextCount_eq, before.contextCount_eq, show later.events = before.events ++ written from writes]
  simp

/-- What was written is in order, names exactly the spans that it starts, and does nothing with spans but these and those
given. -/
structure Traces (first : Nat) (own : List Nat) (before : Journal) (written : List Event) (later : Journal) : Prop where
  writes : before.Writes written later
  orderly : Orderly first before.spanCount before.contextCount (spanEvents written)
  named_eq : named (spanEvents written) = List.range' before.spanCount (starts (spanEvents written)).length
  acts : ∀ event ∈ spanEvents written, ∀ span, event.acts? = some span → span ∈ own ∨ span ∈ named (spanEvents written)

namespace Traces

variable {first : Nat} {own : List Nat}

theorem silent (writes : before.Writes written later) (none : spanEvents written = []) :
    before.Traces first own written later := by
  refine ⟨writes, ?_, ?_, ?_⟩
  · rw [none]
    trivial
  · rw [none]
    rfl
  · rw [none]
    exact fun event mem => nomatch mem

theorem trans {a b c : Journal} {one two : List Event} (ab : a.Traces first own one b)
    (bc : b.Traces first (own ++ named (spanEvents one)) two c) : a.Traces first own (one ++ two) c := by
  have span_eq := ab.writes.spanCount
  have context_eq := ab.writes.contextCount
  refine ⟨ab.writes.trans bc.writes, ?_, ?_, ?_⟩
  · rw [spanEvents_append]
    refine ab.orderly.append ?_
    rw [← span_eq, ← context_eq]
    exact bc.orderly
  · rw [spanEvents_append, SpanEvent.named_append, SpanEvent.starts_append, List.length_append, ab.named_eq, bc.named_eq, span_eq]
    exact List.range'_append_1
  · intro event mem span acts
    rw [spanEvents_append, SpanEvent.named_append, List.mem_append] at *
    rcases mem with mem | mem
    · exact (ab.acts event mem span acts).imp_right .inl
    · rcases bc.acts event mem span acts with known | new
      · exact (List.mem_append.1 known).imp_right .inl
      · exact .inr (.inr new)

/-- Whoever goes on owns what was named before. -/
theorem append {a b c : Journal} {log one two : List Event} (ab : a.Traces first (named (spanEvents log)) one b)
    (bc : b.Traces first (named (spanEvents (log ++ one))) two c) :
    a.Traces first (named (spanEvents log)) (one ++ two) c := by
  rw [spanEvents_append, SpanEvent.named_append] at bc
  exact ab.trans bc

theorem mono {more : List Nat} (traces : before.Traces first own written later) (sub : own ⊆ more) :
    before.Traces first more written later :=
  ⟨traces.writes, traces.orderly, traces.named_eq, fun event mem span acts =>
    (traces.acts event mem span acts).imp_left fun known => sub known⟩

/-- The spans that are named are new. -/
theorem named_ge (traces : before.Traces first own written later) :
    ∀ span ∈ named (spanEvents written), before.spanCount ≤ span ∧ span < later.spanCount := by
  intro span mem
  rw [traces.named_eq, List.mem_range'_1] at mem
  rw [traces.writes.spanCount]
  exact mem

/-- A span is started under a context that was taken, and then nothing is done but with this span. -/
theorem of_start {name : String} {parent : Option ContextRef} {done : List SpanEvent} (writes : before.Writes written later)
    (events_eq : spanEvents written = .started 0 name parent :: done) (no_starts : starts done = [])
    (no_takens : takens done = []) (named_eq : named done = [before.spanCount])
    (acts : ∀ event ∈ done, ∀ other, event.acts? = some other → other = before.spanCount)
    (taken : ∀ context, parent = some (.taken context) → context < before.contextCount)
    (above : first ≤ before.spanCount) : before.Traces first own written later := by
  have named_all : named (spanEvents written) = [before.spanCount] := by
    rw [events_eq]
    exact named_eq
  have one_start : (starts (spanEvents written)).length = 1 := by
    rw [events_eq]
    exact congrArg (·.length + 1) no_starts
  refine ⟨writes, ?_, ?_, fun event mem other is => .inr ?_⟩
  · rw [events_eq]
    refine ⟨⟨rfl, taken⟩, SpanEvent.orderly_of_acts _ (fun event mem other is => ?_) no_starts no_takens⟩
    obtain rfl := acts event mem other is
    exact ⟨above, Nat.lt_succ_self _⟩
  · rw [named_all, one_start]
    rfl
  · rw [named_all, List.mem_singleton]
    rw [events_eq] at mem
    rcases List.mem_cons.1 mem with rfl | mem
    · cases is
    · exact acts event mem other is

/-- Something is done with a span that is there. -/
theorem of_concerns {span : Nat} (writes : before.Writes written later) (concerns : Concerns span (spanEvents written))
    (bounds : first ≤ span ∧ span < before.spanCount) (known : span ∈ own) : before.Traces first own written later := by
  refine ⟨writes, ?_, ?_, fun event mem other acts => ?_⟩
  · refine SpanEvent.orderly_of_acts _ (fun event mem other acts => ?_) concerns.starts_eq concerns.takens_eq
    obtain rfl := concerns.acts event mem other acts
    exact bounds
  · rw [concerns.unnamed, concerns.starts_eq]
    rfl
  · obtain rfl := concerns.acts event mem other acts
    exact .inl known

end Traces

end Journal

/-! ### Invocations -/

namespace Stage

/-- What is written of the span of an invocation up to a stage. -/
def shown (scope : Scope) (definition : Definition) (span : Nat) : Stage → List SpanEvent
  | .fresh => []
  | .settled outcome => Invocation.opening scope definition span ++ Invocation.closing span outcome
  | _ => Invocation.opening scope definition span

/-- The stage is that of an invocation with this span. -/
def Owns (span : Nat) : Stage → Prop
  | .fresh => False
  | .validating own _ _ => own = span
  | .evaluating own _ _ _ => own = span
  | .awaiting own _ => own = span
  | .settled _ => True

theorem Owns.ne_fresh {span : Nat} {stage : Stage} (owns : stage.Owns span) : stage ≠ .fresh := by
  rintro rfl
  exact owns

end Stage

namespace Invocation

/-- What of the beginning of a span follows its start. -/
def introduction (segment : String) (definition : Definition) (span : Nat) : List SpanEvent :=
  [.attributed span "matcher.name" (.string definition.name), .attributed span "segment.name" (.string segment)] ++
  (definition.args.map fun args => SpanEvent.attributed span "matcher.args" (.string args.stableKey)).toList

section

variable (segment : String) (definition : Definition) (span : Nat)

theorem introduction_acts : ∀ event ∈ introduction segment definition span, event.acts? = some span := by
  unfold introduction
  cases definition.args <;> simp [SpanEvent.acts?]

theorem named_introduction : named (introduction segment definition span) = [span] := by
  unfold introduction
  cases definition.args <;> rfl

/-- Nothing is started, and no context is taken, in what follows the start of a span. -/
theorem introduction_plain : starts (introduction segment definition span) = [] ∧
    takens (introduction segment definition span) = [] := by
  unfold introduction
  cases definition.args <;> exact ⟨rfl, rfl⟩

end

theorem closing_acts (span : Nat) (outcome : Outcome) : ∀ event ∈ closing span outcome, event.acts? = some span := by
  cases outcome with
  | ok value => simp [closing, SpanEvent.acts?]
  | error error => simp [closing, SpanEvent.ofError, SpanEvent.acts?]

theorem closing_concerns (span : Nat) (outcome : Outcome) : Concerns span (closing span outcome) := by
  refine SpanEvent.concerns_of_acts (closing_acts span outcome) ?_
  cases outcome <;> rfl

variable (scope : Scope) (definition : Definition) (index span : Nat)

theorem opening_eq : opening scope definition span =
    .started scope.tracer ("matcher:" ++ definition.name) scope.parent ::
      introduction scope.segment definition span := rfl

/-- What is written brings the span up to date with the stage. -/
def Shows (sofar : List SpanEvent) (before : Journal) (r : Stage × Scene) : Prop :=
  ∃ written, before.Writes written r.2.journal ∧ sofar ++ spanEvents written = r.1.shown scope definition span ∧
    (spanEvents written = [] ∨ ∃ outcome, spanEvents written = closing span outcome) ∧ r.1.Owns span

variable {scope definition span}

theorem Shows.after {sofar : List SpanEvent} {before between : Journal} {r : Stage × Scene} {first : List Event}
    (writes : before.Writes first between) (none : spanEvents first = [])
    (shows : Shows scope definition span sofar between r) : Shows scope definition span sofar before r := by
  obtain ⟨written, writes', shown, all, owns⟩ := shows
  refine ⟨first ++ written, writes.trans writes', ?_, ?_, owns⟩
  · rw [spanEvents_append, none, List.nil_append]
    exact shown
  · rw [spanEvents_append, none, List.nil_append]
    exact all

theorem Shows.still {sofar : List SpanEvent} {before : Journal} {stage : Stage} {scene : Scene}
    (same : scene.journal.events = before.events) (shown : sofar = stage.shown scope definition span)
    (owns : stage.Owns span) : Shows scope definition span sofar before (stage, scene) := by
  refine ⟨[], Journal.writes_nil same, ?_, .inl rfl, owns⟩
  rw [← shown]
  exact List.append_nil _

theorem Shows.concerns {sofar : List SpanEvent} {before : Journal} {r : Stage × Scene}
    (shows : Shows scope definition span sofar before r) : ∃ written, before.Writes written r.2.journal ∧
      Concerns span (spanEvents written) ∧ sofar ++ spanEvents written = r.1.shown scope definition span ∧
      r.1.Owns span := by
  obtain ⟨written, writes, shown, all, owns⟩ := shows
  refine ⟨written, writes, ?_, shown, owns⟩
  rcases all with none | ⟨outcome, closes⟩
  · rw [none]
    exact SpanEvent.concerns_nil span
  · rw [closes]
    exact closing_concerns span outcome

variable (traced : scope.parent.isSome)

include traced

/-- What an invocation writes when it begins: the start of its span, and then what is done with this span alone. -/
theorem opening_writes {rest : List Event} (concerns : Concerns span (spanEvents rest)) :
    ∃ done, spanEvents (scope.spanEvents (opening scope definition span) ++ rest) =
        .started scope.tracer ("matcher:" ++ definition.name) scope.parent :: done ∧
      starts done = [] ∧ takens done = [] ∧ named done = [span] ∧
      ∀ event ∈ done, ∀ other, event.acts? = some other → other = span := by
  obtain ⟨no_starts, no_takens⟩ := introduction_plain scope.segment definition span
  refine ⟨introduction scope.segment definition span ++ spanEvents rest, ?_, ?_, ?_, ?_, ?_⟩
  · rw [spanEvents_append, spanEvents_eq traced, spanEvents_map_span]
    rfl
  · rw [SpanEvent.starts_append, no_starts, concerns.starts_eq]
    rfl
  · rw [SpanEvent.takens_append, no_takens, concerns.takens_eq]
    rfl
  · rw [SpanEvent.named_append, named_introduction, concerns.unnamed]
    rfl
  · refine List.forall_mem_append.2 ⟨fun event mem other is => ?_, concerns.acts⟩
    exact Option.some.inj (is.symm.trans (introduction_acts _ _ _ event mem))

theorem settle_shows (outcome : Outcome) (scene : Scene) :
    Shows scope definition span (opening scope definition span) scene.journal (settle scope span outcome scene) := by
  refine ⟨_, Journal.writes_recordAll _ _, ?_, .inr ⟨outcome, ?_⟩, trivial⟩
  · rw [spanEvents_eq traced, spanEvents_map_span]
    rfl
  · rw [spanEvents_eq traced, spanEvents_map_span]

variable (definition span)

theorem evaluated_shows (args : Option Json) (running : Running (Ending Bool)) (scene : Scene) :
    Shows scope definition span (opening scope definition span) scene.journal
      (evaluated scope definition index span args running scene) := by
  cases running with
  | ended ending =>
    exact .after (Journal.writes_record scene.journal (.evaluatorEnded definition.name)) rfl
      (settle_shows traced (verdict scope definition.name args ending)
        { scene with journal := scene.journal.record (.evaluatorEnded definition.name) })
  | asleep deadline rest => exact .still rfl rfl rfl

theorem dispatch_shows (args : Option Json) (scene : Scene) :
    Shows scope definition span (opening scope definition span) scene.journal
      (dispatch scope definition index span args scene) := by
  unfold dispatch
  cases definition.matcher.evaluator with
  | single evaluate =>
    exact .after (Journal.writes_record scene.journal (.invoked definition.name args)) rfl
      (evaluated_shows definition index span traced args _
        { scene with journal := scene.journal.record (.invoked definition.name args) })
  | batch evaluate =>
    dsimp only
    split
    · exact settle_shows traced _ scene
    · exact .after (Journal.writes_record scene.journal (.requested definition.name args)) rfl (.still rfl rfl rfl)

theorem validated_shows (running : Running Checked) (scene : Scene) :
    Shows scope definition span (opening scope definition span) scene.journal
      (validated scope definition index span running scene) := by
  unfold validated
  cases running with
  | asleep deadline rest => exact .still rfl rfl rfl
  | ended checked =>
    dsimp only
    split
    · exact dispatch_shows definition index span traced _ scene
    · exact settle_shows traced _ scene

omit span in
/-- An invocation that begins starts the next span. -/
theorem begins_shows (scene : Scene) :
    let span := scene.journal.spanCount
    let opened := scene.journal.recordAll (scope.spanEvents (opening scope definition span))
    Shows scope definition span (opening scope definition span) opened (begins scope definition index scene) := by
  intro span opened
  unfold begins
  dsimp only
  split
  · rename_i raw _ _
    exact .after (Journal.writes_record opened (.argumentChecked definition.name raw)) rfl
      (validated_shows definition index span traced _ { scene with journal := opened.record _ })
  · exact settle_shows traced _ { scene with journal := opened }
  · exact dispatch_shows definition index span traced _ { scene with journal := opened }

/-- An invocation that goes on does something with its own span at most. -/
theorem advance_shows {stage : Stage} (owns : stage.Owns span) (scene : Scene) :
    Shows scope definition span (stage.shown scope definition span) scene.journal
      (advance scope definition index stage scene) := by
  cases stage with
  | fresh => exact owns.elim
  | validating own deadline rest =>
    obtain rfl : own = span := owns
    simp only [advance]
    split
    · exact .still rfl rfl rfl
    · exact validated_shows definition index own traced _ scene
  | evaluating own args deadline rest =>
    obtain rfl : own = span := owns
    simp only [advance]
    split
    · exact .still rfl rfl rfl
    · exact evaluated_shows definition index own traced args _ scene
  | awaiting own load =>
    obtain rfl : own = span := owns
    simp only [advance]
    split
    · exact .still rfl rfl rfl
    · exact settle_shows traced _ scene
    · exact settle_shows traced _ scene
  | settled outcome => exact .still rfl rfl trivial

end Invocation

/-! ### Sessions -/

/-- The spans among some that may be missing. -/
def knownSpans (spans : List (Option Nat)) : List Nat := spans.flatMap Option.toList

theorem mem_knownSpans {spans : List (Option Nat)} {span : Nat} : span ∈ knownSpans spans ↔ some span ∈ spans := by
  simp [knownSpans]

theorem index_of_known {spans : List (Option Nat)} (nodup : (knownSpans spans).Nodup) {j k span : Nat}
    (at_j : spans[j]? = some (some span)) (at_k : spans[k]? = some (some span)) : j = k := by
  have later {span? : Option Nat} {rest : List (Option Nat)} {k : Nat} (nodup : (knownSpans (span? :: rest)).Nodup)
      (first : span? = some span) (at_k : rest[k]? = some (some span)) : False := by
    subst first
    have fresh : span ∉ knownSpans rest := (List.nodup_cons.1 nodup).1
    exact fresh (mem_knownSpans.2 (List.mem_of_getElem? at_k))
  induction spans generalizing j k with
  | nil => cases at_j
  | cons span? rest ih =>
    cases j with
    | zero =>
      cases k with
      | zero => rfl
      | succ k => exact (later nodup (Option.some.inj at_j) at_k).elim
    | succ j =>
      cases k with
      | zero => exact (later nodup (Option.some.inj at_k) at_j).elim
      | succ k =>
        have rest_nodup : (knownSpans rest).Nodup := (List.nodup_append.1 nodup).2.1
        exact congrArg (· + 1) (ih rest_nodup at_j at_k)

namespace Invocation

/-- The span of an invocation that has begun was started under the parent of the session, and what was done with it is
what the stage tells; `all` is what was ever written of spans. -/
def Traced (scope : Scope) (all log : List SpanEvent) (i : Invocation) : Option Nat → Prop
  | none => i.stage = .fresh
  | some span => i.stage.Owns span ∧
      (starts all)[span]? = some (scope.tracer, "matcher:" ++ i.definition.name, scope.parent) ∧
      trail span log = trail span (i.stage.shown scope i.definition span)

/-- What is done with other spans changes nothing. -/
theorem Traced.append {scope : Scope} {all log : List SpanEvent} {i : Invocation} {span? : Option Nat}
    (traced : i.Traced scope all log span?) (more : List SpanEvent) {written : List SpanEvent}
    (other : ∀ span, span? = some span → trail span written = []) :
    i.Traced scope (all ++ more) (log ++ written) span? := by
  cases span? with
  | none => exact traced
  | some span =>
    obtain ⟨owns, started, shown⟩ := traced
    refine ⟨owns, ?_, ?_⟩
    · rw [SpanEvent.starts_append, List.getElem?_append_left (List.getElem?_eq_some_iff.1 started).1]
      exact started
    · rw [SpanEvent.trail_append, other span rfl, List.append_nil]
      exact shown

end Invocation

namespace Session

/-- Every invocation that has begun has a span of its own. -/
structure Traced (first : Nat) (journal : Journal) (log : List Event) (session : Session) (spans : List (Option Nat)) :
    Prop where
  length_eq : spans.length = session.invocations.length
  each : ∀ (index : Nat) (i : Invocation) (span? : Option Nat), session.invocations[index]? = some i →
    spans[index]? = some span? → i.Traced session.scope (spanEvents journal.events) (spanEvents log) span?
  nodup : (knownSpans spans).Nodup
  bounds : ∀ span ∈ knownSpans spans, first ≤ span ∧ span < journal.spanCount
  below : ∀ event ∈ spanEvents log, ∀ span, event.acts? = some span → span < journal.spanCount

/-- Going on with some invocations leaves their trails, and then they have begun. -/
structure Trails (first : Nat) (indices : List Nat) (log : List Event) (spans : List (Option Nat)) (before : Session × Scene)
    (r : Session × Scene) (written : List Event) (later : List (Option Nat)) : Prop where
  traces : before.2.journal.Traces first (knownSpans spans) written r.2.journal
  perm : (knownSpans later).Perm (knownSpans spans ++ named (spanEvents written))
  traced : r.1.Traced first r.2.journal (log ++ written) later
  scope_eq : r.1.scope = before.1.scope
  begun : ∀ index < later.length, index ∈ indices ∨ (∃ span, spans[index]? = some (some span)) →
    ∃ span, later[index]? = some (some span)

variable {first : Nat} {session : Session} {scene : Scene} {log : List Event} {spans : List (Option Nat)}

/-- An invocation gets to another stage, and nothing is done but with its own span: all others keep their trails. -/
private theorem Traced.replace {index span : Nat} {i : Invocation} (here : session.invocations[index]? = some i)
    (traced : session.Traced first scene.journal log spans) {stage : Stage} {after : Journal} {written : List Event}
    (writes : scene.journal.Writes written after)
    (acts : ∀ event ∈ spanEvents written, ∀ other, event.acts? = some other → other = span)
    (own : ({ i with stage } : Invocation).Traced session.scope (spanEvents after.events) (spanEvents (log ++ written))
      (some span))
    (foreign : ∀ j, spans[j]? = some (some span) → j = index) (bounds : first ≤ span ∧ span < after.spanCount)
    (nodup : (knownSpans (spans.set index (some span))).Nodup) :
    ({ session with invocations := session.invocations.set index { i with stage } } : Session).Traced first after
      (log ++ written) (spans.set index (some span)) := by
  have lt := (List.getElem?_eq_some_iff.1 here).1
  have count_le : scene.journal.spanCount ≤ after.spanCount := by
    rw [writes.spanCount]
    exact Nat.le_add_right _ _
  refine ⟨?_, fun j k span? at_j at_span => ?_, nodup, fun other mem => ?_, fun event listed other is => ?_⟩
  · rw [List.length_set, List.length_set]
    exact traced.length_eq
  · rcases getElem?_set_cases at_j with ⟨rfl, rfl⟩ | ⟨same, at_j⟩
    · obtain ⟨-, rfl⟩ := (getElem?_set_cases at_span).resolve_right fun other => other.1 rfl
      exact own
    · rw [List.getElem?_set_ne (Ne.symm same)] at at_span
      rw [show after.events = scene.journal.events ++ written from writes, spanEvents_append, spanEvents_append]
      refine (traced.each j k span? at_j at_span).append _ fun other is_other => ?_
      subst is_other
      refine SpanEvent.trail_eq_nil fun event listed is => ?_
      obtain rfl := acts event listed other is
      exact same (foreign j at_span)
  · rcases List.mem_or_eq_of_mem_set (mem_knownSpans.1 mem) with old | new
    · have old_bounds := traced.bounds other (mem_knownSpans.2 old)
      exact ⟨old_bounds.1, Nat.lt_of_lt_of_le old_bounds.2 count_le⟩
    · obtain rfl := Option.some.inj new
      exact bounds
  · rw [spanEvents_append, List.mem_append] at listed
    rcases listed with old | new
    · exact Nat.lt_of_lt_of_le (traced.below event old other is) count_le
    · obtain rfl := acts event new other is
      exact bounds.2

/-- An invocation whose span is there goes on. -/
private theorem trails_of_shows {index : Nat} {i : Invocation} {span : Nat} (here : session.invocations[index]? = some i)
    (known : spans[index]? = some (some span)) (traced : session.Traced first scene.journal log spans) {r : Stage × Scene}
    (shows : Invocation.Shows session.scope i.definition span (i.stage.shown session.scope i.definition span)
      scene.journal r) :
    ∃ written, Trails first [index] log spans (session, scene)
      ({ session with invocations := session.invocations.set index { i with stage := r.1 } }, r.2) written spans := by
  obtain ⟨written, writes, concerns, shown, owns⟩ := shows.concerns
  have mem : span ∈ knownSpans spans := mem_knownSpans.2 (List.mem_of_getElem? known)
  have bounds := traced.bounds span mem
  obtain ⟨-, started, told⟩ := traced.each index i _ here known
  have own : ({ i with stage := r.1 } : Invocation).Traced session.scope (spanEvents r.2.journal.events)
      (spanEvents (log ++ written)) (some span) := by
    refine ⟨owns, ?_, ?_⟩
    · rw [show r.2.journal.events = scene.journal.events ++ written from writes, spanEvents_append,
        SpanEvent.starts_append, List.getElem?_append_left (List.getElem?_eq_some_iff.1 started).1]
      exact started
    · rw [spanEvents_append, SpanEvent.trail_append, told, ← SpanEvent.trail_append, shown]
  have spans_eq : spans.set index (some span) = spans := by
    obtain ⟨lt, is⟩ := List.getElem?_eq_some_iff.1 known
    rw [← is]
    exact List.set_getElem_self lt
  have later := traced.replace here writes concerns.acts own
    (fun j at_span => index_of_known traced.nodup at_span known)
    ⟨bounds.1, by rw [writes.spanCount]; exact Nat.lt_add_right _ bounds.2⟩
    (by rw [spans_eq]; exact traced.nodup)
  rw [spans_eq] at later
  refine ⟨written, .of_concerns writes concerns bounds mem, ?_, later, rfl, fun j lt begun => ?_⟩
  · rw [concerns.unnamed, List.append_nil]
  · rcases begun with is_index | begun
    · obtain rfl := List.mem_singleton.1 is_index
      exact ⟨span, known⟩
    · exact begun

/-- An invocation that begins starts a span of its own, the next one. -/
private theorem trails_of_begins {index : Nat} {i : Invocation} (here : session.invocations[index]? = some i)
    (unknown : spans[index]? = some none) (traced : session.Traced first scene.journal log spans)
    (above : first ≤ scene.journal.spanCount) (tracer : session.scope.tracer = 0) {context : Nat}
    (taken : context < scene.journal.contextCount) (parent : session.scope.parent = some (.taken context))
    {r : Stage × Scene}
    (shows : Invocation.Shows session.scope i.definition scene.journal.spanCount
      (Invocation.opening session.scope i.definition scene.journal.spanCount)
      (scene.journal.recordAll (session.scope.spanEvents (Invocation.opening session.scope i.definition scene.journal.spanCount)))
      r) :
    ∃ written, Trails first [index] log spans (session, scene)
      ({ session with invocations := session.invocations.set index { i with stage := r.1 } }, r.2) written
      (spans.set index (some scene.journal.spanCount)) := by
  let span := scene.journal.spanCount
  let opened := session.scope.spanEvents (Invocation.opening session.scope i.definition span)
  obtain ⟨rest, rest_writes, concerns, shown, owns⟩ := shows.concerns
  have traced_parent : session.scope.parent.isSome := by rw [parent]; rfl
  have writes : scene.journal.Writes (opened ++ rest) r.2.journal := (Journal.writes_recordAll _ _).trans rest_writes
  obtain ⟨done, events_eq, no_starts, no_takens, named_eq, acts⟩ := Invocation.opening_writes traced_parent concerns
  -- what is written is about no span but the new one
  have written_acts : ∀ event ∈ spanEvents (opened ++ rest), ∀ other, event.acts? = some other → other = span := by
    intro event listed other is
    rw [events_eq] at listed
    rcases List.mem_cons.1 listed with rfl | listed
    · cases is
    · exact acts event listed other is
  have starts_eq : starts (spanEvents (opened ++ rest)) =
      [(session.scope.tracer, "matcher:" ++ i.definition.name, session.scope.parent)] := by
    rw [events_eq]
    exact congrArg (_ :: ·) no_starts
  have count_eq : r.2.journal.spanCount = span + 1 := by
    rw [writes.spanCount, starts_eq]
    rfl
  have own : ({ i with stage := r.1 } : Invocation).Traced session.scope (spanEvents r.2.journal.events)
      (spanEvents (log ++ (opened ++ rest))) (some span) := by
    refine ⟨owns, ?_, ?_⟩
    · rw [show r.2.journal.events = scene.journal.events ++ (opened ++ rest) from writes, spanEvents_append,
        SpanEvent.starts_append, List.getElem?_append_right (Nat.le_of_eq (scene.journal.spanCount_eq).symm),
        ← scene.journal.spanCount_eq, Nat.sub_self, starts_eq]
      rfl
    · -- Nothing was done with the span before its start.
      have untouched : trail span (spanEvents log) = [] := SpanEvent.trail_eq_nil fun event mem acts =>
        Nat.lt_irrefl _ (traced.below event mem span acts)
      have shown_eq : spanEvents (opened ++ rest) = r.1.shown session.scope i.definition span := by
        change spanEvents (session.scope.spanEvents (Invocation.opening session.scope i.definition span) ++ rest) = _
        rw [spanEvents_append, Invocation.spanEvents_eq traced_parent, spanEvents_map_span]
        exact shown
      rw [spanEvents_append, SpanEvent.trail_append, untouched, List.nil_append, shown_eq]
  -- all known spans lie below the new one, so it is known once
  have fresh : span ∉ knownSpans spans := fun mem => Nat.lt_irrefl _ (traced.bounds span mem).2
  have perm : (knownSpans (spans.set index (some span))).Perm (knownSpans spans ++ [span]) :=
    flatMap_set_perm unknown rfl
  have nodup : (knownSpans (spans.set index (some span))).Nodup := by
    rw [perm.nodup_iff, List.nodup_append]
    refine ⟨traced.nodup, List.nodup_cons.2 ⟨List.not_mem_nil, List.nodup_nil⟩, fun old mem new is_new same => ?_⟩
    obtain rfl := List.mem_singleton.1 is_new
    exact fresh (same ▸ mem)
  have later := traced.replace here writes written_acts own
    (fun j at_span => absurd (mem_knownSpans.2 (List.mem_of_getElem? at_span)) fresh)
    ⟨above, by rw [count_eq]; exact Nat.lt_succ_self _⟩ nodup
  rw [tracer] at events_eq
  refine ⟨opened ++ rest, .of_start writes events_eq no_starts no_takens named_eq acts (fun other is_parent => ?_) above, ?_,
    later, rfl, fun j lt begun => ?_⟩
  · rw [parent] at is_parent
    cases is_parent
    exact taken
  · rw [events_eq]
    exact named_eq ▸ perm
  · rw [List.length_set] at lt
    by_cases same : j = index
    · subst same
      exact ⟨span, List.getElem?_set_self lt⟩
    · rw [List.getElem?_set_ne (fun eq => same eq.symm)]
      exact begun.resolve_left fun mem => same (List.mem_singleton.1 mem)

/-- What an invocation does when the session goes on with it. -/
theorem Traced.advance (traced : session.Traced first scene.journal log spans) (above : first ≤ scene.journal.spanCount)
    (tracer : session.scope.tracer = 0) {context : Nat} (taken : context < scene.journal.contextCount)
    (parent : session.scope.parent = some (.taken context)) (index : Nat) :
    ∃ written later, Trails first [index] log spans (session, scene) (session.advance scene index) written later := by
  have traced_parent : session.scope.parent.isSome := by rw [parent]; rfl
  unfold Session.advance
  cases here : session.invocations[index]? with
  | none =>
    have beyond : session.invocations.length ≤ index := List.getElem?_eq_none_iff.1 here
    refine ⟨[], spans, .silent (Journal.writes_nil rfl) rfl, ?_, ?_, rfl, fun j lt begun => ?_⟩
    · exact List.Perm.of_eq (List.append_nil _).symm
    · rw [List.append_nil]
      exact traced
    · refine begun.resolve_left fun mem => ?_
      obtain rfl := List.mem_singleton.1 mem
      rw [traced.length_eq] at lt
      omega
  | some i =>
    have lt : index < spans.length := by
      rw [traced.length_eq]
      exact (List.getElem?_eq_some_iff.1 here).1
    cases known : spans[index]? with
    | none => exact absurd (List.getElem?_eq_none_iff.1 known) (Nat.not_le_of_lt lt)
    | some span? =>
      have own := traced.each index i span? here known
      cases span? with
      | none =>
        have fresh : i.stage = .fresh := own
        dsimp only
        rw [fresh]
        obtain ⟨written, trails⟩ := trails_of_begins here known traced above tracer taken parent
          (Invocation.begins_shows i.definition index traced_parent scene)
        exact ⟨written, _, trails⟩
      | some span =>
        obtain ⟨written, trails⟩ := trails_of_shows here known traced
          (Invocation.advance_shows i.definition index span traced_parent own.1 scene)
        exact ⟨written, _, trails⟩

theorem Traced.advanceAll (traced : session.Traced first scene.journal log spans) (above : first ≤ scene.journal.spanCount)
    (tracer : session.scope.tracer = 0) {context : Nat} (taken : context < scene.journal.contextCount)
    (parent : session.scope.parent = some (.taken context)) (indices : List Nat) :
    ∃ written later, Trails first indices log spans (session, scene) (advanceAll indices session scene) written later := by
  induction indices generalizing session scene log spans with
  | nil =>
    refine ⟨[], spans, .silent (Journal.writes_nil rfl) rfl, ?_, ?_, rfl, fun j lt begun => ?_⟩
    · exact List.Perm.of_eq (List.append_nil _).symm
    · rw [List.append_nil]
      exact traced
    · exact begun.resolve_left List.not_mem_nil
  | cons index indices ih =>
    obtain ⟨one, between, trails⟩ := traced.advance above tracer taken parent index
    have spans_le := trails.traces.writes.spanCount
    have contexts_le := trails.traces.writes.contextCount
    dsimp only at spans_le contexts_le
    obtain ⟨two, later, rest⟩ := ih trails.traced (by omega) (by rw [trails.scope_eq]; exact tracer) (by omega)
      (by rw [trails.scope_eq]; exact parent)
    refine ⟨one ++ two, later, trails.traces.trans (rest.traces.mono trails.perm.subset), ?_, ?_,
      rest.scope_eq.trans trails.scope_eq, fun j lt begun => ?_⟩
    · rw [spanEvents_append, SpanEvent.named_append, ← List.append_assoc]
      exact rest.perm.trans (trails.perm.append_right _)
    · rw [← List.append_assoc]
      exact rest.traced
    · have same_length : between.length = later.length := by
        rw [trails.traced.length_eq, rest.traced.length_eq]
        have keys_eq := congrArg List.length (keys_advanceAll indices (session.advance scene index).1
          (session.advance scene index).2)
        simpa [keys] using keys_eq.symm
      refine rest.begun j lt ?_
      rcases begun with mem | begun
      · rcases List.mem_cons.1 mem with is_index | mem
        · exact .inr (trails.begun j (same_length ▸ lt) (.inl (List.mem_singleton.2 is_index)))
        · exact .inl mem
      · exact .inr (trails.begun j (same_length ▸ lt) (.inr begun))

end Session

end Segmentation
