import Segmentation.Proofs.Sightings

/-!
# What a subscriber receives

Every call that a tracer's span receives has its entries in a subscriber's span (`SpanCall.rendered`).  Such a span has
handles: the guard that its owner has, and the contexts that were taken from it.  It closes with the last of them, which
is the guard if every context is released before the span ends (`SpanEvent.Allows`).  `SpanView.Balanced` accounts for
the handles until then.
-/

namespace Segmentation

open SpanEvent (starts takens trail isOver)

/-! ### Translating calls -/

/-- The code of a status in the fields of a subscriber's span. -/
def StatusCode.text : StatusCode → String
  | .unset => "UNSET"
  | .ok => "OK"
  | .error => "ERROR"

namespace SpanCall

/-- What a subscriber that takes events at debug level receives for a call. -/
def entries : SpanCall → List TraceEntry
  | .start name parent => [.opened parent [("otel.name", .str name)]]
  | .attribute key value =>
    if key ∈ Telemetry.knownFields then [.recorded key (Telemetry.fieldValue value)]
    else [.event .debug "span attribute" [("attribute", .str key), ("value", .str value.display)]]
  | .status s =>
    .recorded "otel.status_code" (.str s.code.text) ::
      (s.message.map fun message => TraceEntry.recorded "otel.status_message" (.str message)).toList
  | .finish => [.closed]

/-- The entries for a call, of the span with the same number. -/
def rendered (call : Nat × SpanCall) : List (Nat × TraceEntry) := call.2.entries.map (call.1, ·)

/-- A span closes when it ends, and at no other call. -/
theorem closed_mem_entries {call : SpanCall} : .closed ∈ call.entries ↔ call = .finish := by
  rcases call with ⟨name, parent⟩ | ⟨key, value⟩ | s | _
  · simp [entries]
  · simp only [entries]
    split <;> simp
  · cases message : s.message <;> simp [entries, message]
  · simp [entries]

end SpanCall

/-- The entries of the span with a number. -/
def entriesOf (traces : List (Nat × TraceEntry)) (number : Nat) : List TraceEntry :=
  traces.filterMap fun (n, entry) => if n = number then some entry else none

/-- Span by span the entries are those for the calls. -/
theorem entriesOf_rendered (calls : List (Nat × SpanCall)) (number : Nat) :
    entriesOf (calls.flatMap SpanCall.rendered) number = (received calls number).flatMap SpanCall.entries := by
  induction calls with
  | nil => rfl
  | cons call calls ih =>
    obtain ⟨n, call⟩ := call
    have entries_eq : entriesOf (((n, call) :: calls).flatMap SpanCall.rendered) number =
        entriesOf (SpanCall.rendered (n, call)) number ++ entriesOf (calls.flatMap SpanCall.rendered) number := by
      rw [List.flatMap_cons]
      exact List.filterMap_append
    have received_eq : received ((n, call) :: calls) number = received [(n, call)] number ++ received calls number :=
      received_append [(n, call)] calls number
    rw [entries_eq, ih, received_eq, List.flatMap_append]
    refine congrArg (· ++ _) ?_
    rw [entriesOf, SpanCall.rendered, List.filterMap_map]
    by_cases same : n = number
    · subst same
      rw [received_self]
      simp
    · rw [received_other same]
      simp [same]

/-! ### Accounts of handles -/

namespace SpanEvent

/-- The context that is released. -/
def released? : SpanEvent → Option Nat
  | .contextReleased context => some context
  | _ => none

/-- Whether a span has ended. -/
def hasEnded (span : Nat) (events : List SpanEvent) : Bool := isOver (trail span events)

/-- How many contexts were taken from a span. -/
def taken (span : Nat) (events : List SpanEvent) : Nat := (takens events).count span

/-- How many contexts of a span were released, given the spans from which contexts are taken. -/
def released (lessor : Nat → Option Nat) (span : Nat) (events : List SpanEvent) : Nat :=
  events.countP fun event => event.released?.bind lessor = some span

variable (lessor : Nat → Option Nat) (span : Nat) (events more : List SpanEvent)

@[simp] theorem hasEnded_append : hasEnded span (events ++ more) = (hasEnded span events || hasEnded span more) := by
  simp [hasEnded, isOver]

@[simp] theorem taken_append : taken span (events ++ more) = taken span events + taken span more := by
  simp [taken]

@[simp] theorem released_append :
    released lessor span (events ++ more) = released lessor span events + released lessor span more :=
  List.countP_append

/-- A span has ended when it was said so. -/
theorem hasEnded_iff : hasEnded span events = true ↔ .ended span ∈ events := by
  unfold hasEnded isOver
  rw [List.any_eq_true]
  constructor
  · rintro ⟨event, mem, ends⟩
    obtain ⟨listed, acts⟩ := List.mem_filter.1 mem
    cases event with
    | ended other =>
      obtain rfl : other = span := by simpa [acts?] using acts
      exact listed
    | _ => cases ends
  · intro mem
    exact ⟨_, List.mem_filter.2 ⟨mem, by simp [acts?]⟩, rfl⟩

/-- The span from which a context was taken, unless that was before. -/
def lessorIn (contexts : Nat) (events : List SpanEvent) (context : Nat) : Option Nat :=
  if contexts ≤ context then (takens events)[context - contexts]? else none

variable {events}

theorem le_of_lessorIn {contexts context span : Nat} (lent : lessorIn contexts events context = some span) :
    contexts ≤ context := by
  refine Nat.le_of_not_lt fun before => ?_
  rw [lessorIn, if_neg (Nat.not_le_of_lt before)] at lent
  cases lent

/-- Of a context that is taken already. -/
theorem lessorIn_eq {contexts : Nat} {done rest : List SpanEvent} (split : events = done ++ rest) {context : Nat}
    (since : contexts ≤ context) (lt : context < contexts + (takens done).length) :
    lessorIn contexts events context = (takens done)[context - contexts]? := by
  rw [lessorIn, if_pos since, split, takens_append, List.getElem?_append_left (by omega)]

/-- Of the context that is taken next. -/
theorem lessorIn_next {contexts : Nat} {done rest : List SpanEvent} {span : Nat}
    (split : events = done ++ .contextTaken span :: rest) :
    lessorIn contexts events (contexts + (takens done).length) = some span := by
  rw [lessorIn, if_pos (Nat.le_add_right _ _), Nat.add_sub_cancel_left, split, takens_append,
    List.getElem?_append_right (Nat.le_refl _), Nat.sub_self]
  rfl

/-- What may be done next: contexts are taken from spans that have not ended, and released before these end; parents are
contexts that were taken.  All that is done is given, and what was done already. -/
def Allows (contexts : Nat) (all done : List SpanEvent) : SpanEvent → Prop
  | .started _ _ parent => ∀ ref, parent = some ref →
      ∃ context span, ref = .taken context ∧ lessorIn contexts all context = some span
  | .contextTaken span => hasEnded span done = false
  | .contextReleased context => ∃ span, lessorIn contexts all context = some span ∧
      context < contexts + (takens done).length ∧ hasEnded span done = false ∧
      released (lessorIn contexts all) span done < taken span done
  | .ended span => released (lessorIn contexts all) span done = taken span done
  | _ => True

/-- The number of the span from which a parent was taken. -/
def parentNumber (number : Nat → Nat) : ContextRef → Nat
  | .taken context => ((lessor context).map number).getD 0
  | _ => 0

/-- The calls of which a tracer is told by an event, given the numbers of spans and the index of the first one. -/
def callsTold (number : Nat → Nat) (first : Nat) (done : List SpanEvent) : SpanEvent → List (Nat × SpanCall)
  | .started _ name parent =>
    [(number (first + (starts done).length), .start name (parent.map (parentNumber lessor number)))]
  | .attributed span key value => if hasEnded span done then [] else [(number span, .attribute key value)]
  | .statusSet span status => if hasEnded span done then [] else [(number span, .status status)]
  | .ended span => if hasEnded span done then [] else [(number span, .finish)]
  | _ => []

end SpanEvent

open SpanEvent (hasEnded taken released)

/-- The view of a span accounts for what was done: the handles are the guard, until the span ends, and the contexts that
were not released. -/
structure SpanView.Balanced (lessor : Nat → Option Nat) (number span : Nat) (done : List SpanEvent) (view : SpanView) :
    Prop where
  number_eq : view.number = number
  ended_eq : view.ended = hasEnded span done
  usable : view.disabled = false
  handles_eq : view.handles + released lessor span done + (hasEnded span done).toNat = 1 + taken span done

namespace SpanView.Balanced

variable {lessor : Nat → Option Nat} {number span : Nat} {done : List SpanEvent} {view : SpanView} {event : SpanEvent}

/-- The account after one more event, given what it is to the handles. -/
theorem concat (number_eq : view.number = number) (usable : view.disabled = false)
    (ended_eq : view.ended = (hasEnded span done || hasEnded span [event]))
    (handles_eq : view.handles + (released lessor span done + released lessor span [event]) +
      (hasEnded span done || hasEnded span [event]).toNat = 1 + (taken span done + taken span [event])) :
    view.Balanced lessor number span (done ++ [event]) := by
  refine ⟨number_eq, ?_, usable, ?_⟩
  · rw [SpanEvent.hasEnded_append]
    exact ended_eq
  · rw [SpanEvent.hasEnded_append, SpanEvent.taken_append, SpanEvent.released_append]
    exact handles_eq

/-- An event that is no matter of handles. -/
theorem other (balanced : view.Balanced lessor number span done) (open_yet : hasEnded span [event] = false)
    (untaken : taken span [event] = 0) (unreleased : released lessor span [event] = 0) :
    view.Balanced lessor number span (done ++ [event]) := by
  refine .concat balanced.number_eq balanced.usable ?_ ?_
  · rw [open_yet, Bool.or_false]
    exact balanced.ended_eq
  · rw [open_yet, untaken, unreleased, Bool.or_false]
    exact balanced.handles_eq

end SpanView.Balanced

/-- The call that a subscriber's span receives. -/
def Sighting.trace? : Sighting → Option (Nat × TraceEntry)
  | .trace span entry => some (span, entry)
  | _ => none

namespace Telemetry

/-- The entries of a subscriber's spans. -/
def traces (t : Telemetry) : List (Nat × TraceEntry) := t.sightings.filterMap Sighting.trace?

variable (t : Telemetry)

/-- Only what is done with spans is told to the spans of a subscriber. -/
theorem traces_see {event : Event} (other : event.spanEvent? = none) :
    (t.see event).traces = t.traces ∧ (t.see event).level = t.level := by
  have sighted (t : Telemetry) {s : Sighting} (other : s.trace? = none) : (t.sight s).traces = t.traces := by
    have nothing : [s].filterMap Sighting.trace? = [] := by simp [other]
    rw [traces, sight, List.filterMap_append, nothing]
    exact List.append_nil _
  have diagnosed (t : Telemetry) (level : Level) (text : String) (fields : List (String × Json)) :
      (t.diagnose level text fields).traces = t.traces ∧ (t.diagnose level text fields).level = t.level := by
    unfold diagnose
    split
    · exact ⟨sighted t rfl, rfl⟩
    · exact ⟨rfl, rfl⟩
  cases event with
  | span event => cases other
  | noticed notice => exact diagnosed t _ _ _
  | errorReported error segment subject =>
    have logged : (t.log error segment subject).traces = t.traces ∧ (t.log error segment subject).level = t.level := by
      unfold log
      split
      · exact ⟨rfl, rfl⟩
      · exact diagnosed t _ _ _
      · dsimp only
        split
        · exact ⟨(diagnosed _ _ _ _).1.trans (sighted t rfl), (diagnosed _ _ _ _).2⟩
        · exact ⟨sighted t rfl, rfl⟩
    have observed (t : Telemetry) : (t.observe error segment subject).traces = t.traces ∧
        (t.observe error segment subject).level = t.level := by
      unfold observe
      split
      · exact ⟨rfl, rfl⟩
      · dsimp only
        split
        · exact ⟨(diagnosed _ _ _ _).1.trans (sighted t rfl), (diagnosed _ _ _ _).2⟩
        · exact ⟨sighted t rfl, rfl⟩
    exact ⟨(observed _).1.trans logged.1, (observed _).2.trans logged.2⟩
  | _ => exact ⟨rfl, rfl⟩

/-! ### Whatever the tracer -/

/-- How many spans there are of the first tracer. -/
theorem countP_tracer (views : List SpanView) :
    views.countP (·.tracer = 0) = (views.map (·.tracer)).countP (· = 0) := by
  rw [List.countP_map]
  rfl

/-- Spans are started and contexts taken whatever the tracer makes of them; `spans` and `contexts` are those that were
added.  The tracer and the subscriber's level stay. -/
structure Grows (before : Telemetry) (spans contexts : List Nat) (later : Telemetry) : Prop where
  tracer : later.tracer = before.tracer
  level : later.level = before.level
  tracers : later.spans.map (·.tracer) = before.spans.map (·.tracer) ++ spans
  contexts : later.contexts.length = before.contexts.length + contexts.length

namespace Grows

variable {t}

theorem of_eq {later : Telemetry} (tracer : later.tracer = t.tracer) (level : later.level = t.level)
    (spans : later.spans = t.spans) (contexts : later.contexts = t.contexts) : t.Grows [] [] later :=
  ⟨tracer, level, by rw [spans, List.append_nil], by rw [contexts]; rfl⟩

theorem trans {a b c : Telemetry} {spans contexts spans' contexts' : List Nat} (ab : a.Grows spans contexts b)
    (bc : b.Grows spans' contexts' c) : a.Grows (spans ++ spans') (contexts ++ contexts') c := by
  refine ⟨bc.tracer.trans ab.tracer, bc.level.trans ab.level, ?_, ?_⟩
  · rw [bc.tracers, ab.tracers, List.append_assoc]
  · rw [bc.contexts, ab.contexts, List.length_append, Nat.add_assoc]

theorem modifySpan (span : Nat) {f : SpanView → SpanView} (keeps : ∀ view, (f view).tracer = view.tracer) :
    t.Grows [] [] (t.modifySpan span f) := by
  refine ⟨rfl, rfl, ?_, rfl⟩
  rw [List.append_nil]
  exact map_modify_of_keeps keeps t.spans span

theorem diagnose (level : Level) (text : String) (fields : List (String × Json)) :
    t.Grows [] [] (t.diagnose level text fields) := by
  unfold Telemetry.diagnose
  split <;> exact .of_eq rfl rfl rfl rfl

theorem trace (view : SpanView) (entry : TraceEntry) : t.Grows [] [] (t.trace view entry) := by
  unfold Telemetry.trace
  split <;> exact .of_eq rfl rfl rfl rfl

theorem traceCall (view : SpanView) (call : SpanCall) : t.Grows [] [] (t.traceCall view call) := by
  rcases call with ⟨name, parent⟩ | ⟨key, value⟩ | s | _
  · exact .of_eq rfl rfl rfl rfl
  · simp only [Telemetry.traceCall]
    split
    · exact .trace _ _
    · split
      · exact .trace _ _
      · exact .of_eq rfl rfl rfl rfl
  · simp only [Telemetry.traceCall]
    split
    · exact .trans (.trace _ _) (.trace _ _)
    · exact .trace _ _
  · exact .of_eq rfl rfl rfl rfl

theorem dropHandle (span : Nat) : t.Grows [] [] (t.dropHandle span) := by
  unfold Telemetry.dropHandle
  cases t.spans[span]? with
  | none => exact .of_eq rfl rfl rfl rfl
  | some view =>
    have given : t.Grows [] [] (t.modifySpan span fun v => { v with handles := v.handles - 1 }) :=
      .modifySpan span fun _ => rfl
    dsimp only
    split
    · exact given.trans (.trace _ _)
    · exact given

theorem reach (span : Nat) (call : SpanCall) : t.Grows [] [] (t.reach span call) := by
  unfold Telemetry.reach
  cases t.spans[span]? with
  | none => exact .of_eq rfl rfl rfl rfl
  | some view =>
    dsimp only
    split
    · exact .of_eq rfl rfl rfl rfl
    · split
      · exact .of_eq rfl rfl rfl rfl
      · exact .traceCall view call
      · rename_i tracer _
        have handed : t.Grows [] [] ((t.sight (.spanCall view.number call)).modifySpan span fun v =>
            { v with calls := v.calls ++ [call], disabled := tracer.panics view.calls call }) :=
          .trans (.of_eq rfl rfl rfl rfl : t.Grows [] [] (t.sight _)) (.modifySpan span fun _ => rfl)
        split
        · exact handed.trans (.diagnose _ _ _)
        · exact handed

theorem startSpan (tracer : Nat) (name : String) (parent : Option ContextRef) :
    t.Grows [tracer] [] (t.startSpan tracer name parent) := by
  have added (view : SpanView) (own : view.tracer = tracer) :
      t.Grows [tracer] [] { t with spans := t.spans ++ [view] } := by
    refine ⟨rfl, rfl, ?_, rfl⟩
    rw [← own]
    exact List.map_append
  unfold Telemetry.startSpan
  dsimp only
  split
  · exact added _ rfl
  · exact (added _ rfl).trans (.trace _ _)
  · have told (view : SpanView) (own : view.tracer = tracer) (s : Sighting) :
        t.Grows [tracer] [] (({ t with spans := t.spans ++ [view] } : Telemetry).sight s) :=
      (added view own).trans (.of_eq rfl rfl rfl rfl)
    split
    · exact (told _ rfl _).trans (.diagnose _ _ _)
    · exact told _ rfl _

theorem takeContext (span : Nat) : t.Grows [] [span] (t.takeContext span) := by
  have added : t.Grows [] [span] { t with contexts := t.contexts ++ [t.contextOf span] } :=
    ⟨rfl, rfl, (List.append_nil _).symm, List.length_append⟩
  unfold Telemetry.takeContext
  dsimp only
  split
  · exact added.trans (.modifySpan span fun _ => rfl)
  · exact added

theorem endSpan (span : Nat) : t.Grows [] [] (t.endSpan span) := by
  unfold Telemetry.endSpan
  cases t.spans[span]? with
  | none => exact .of_eq rfl rfl rfl rfl
  | some view =>
    have finished : t.Grows [] [] ((t.reach span .finish).modifySpan span fun v => { v with ended := true }) :=
      .trans (.reach span .finish) (.modifySpan span fun _ => rfl)
    dsimp only
    split
    · exact .of_eq rfl rfl rfl rfl
    · split
      · exact finished.trans (.dropHandle span)
      · exact finished

theorem seeSpan (event : SpanEvent) :
    t.Grows ((starts [event]).map (·.1)) (takens [event]) (t.seeSpan event) := by
  cases event with
  | started tracer name parent => exact .startSpan tracer name parent
  | attributed span key value => exact .reach span _
  | statusSet span status => exact .reach span _
  | contextTaken span => exact .takeContext span
  | ended span => exact .endSpan span
  | contextReleased context =>
    change t.Grows [] [] (t.releaseContext context)
    unfold releaseContext
    split
    · exact .dropHandle _
    · exact .of_eq rfl rfl rfl rfl

/-- What was started and taken is known after all events. -/
theorem seeAll (events : List Event) :
    t.Grows ((starts (spanEvents events)).map (·.1)) (takens (spanEvents events)) (t.seeAll events) := by
  induction events generalizing t with
  | nil => exact .of_eq rfl rfl rfl rfl
  | cons event events ih =>
    have one : t.Grows ((starts (spanEvents [event])).map (·.1)) (takens (spanEvents [event])) (t.see event) := by
      cases span : event.spanEvent? with
      | none =>
        have agrees := t.agrees_see span
        have silent : spanEvents [event] = [] := spanEvents_of_none (by simp [span])
        rw [silent]
        exact .of_eq agrees.tracer (t.traces_see span).2 agrees.spans agrees.contexts
      | some e =>
        cases event with
        | span event => exact seeSpan event
        | _ => cases span
    rw [← List.singleton_append, spanEvents_append, SpanEvent.starts_append, SpanEvent.takens_append, List.map_append]
    exact one.trans ih

end Grows

/-! ### The built-in tracer -/

/-- Subscribers that take events at debug level take spans, too. -/
theorem tracesSpans_of_debug {t : Telemetry} (debug : t.takes .debug = true) : t.tracesSpans = true := by
  unfold tracesSpans takes at *
  generalize t.level = level at *
  cases level with
  | none => cases debug
  | some most => exact decide_eq_true (Nat.le_of_succ_le (of_decide_eq_true debug))

/-- Entries of the span with a number reach the subscriber. -/
def receive (number : Nat) (entries : List TraceEntry) : Telemetry :=
  { t with sightings := t.sightings ++ entries.map (.trace number) }

@[simp] theorem traces_receive (number : Nat) (entries : List TraceEntry) :
    (t.receive number entries).traces = t.traces ++ entries.map (number, ·) := by
  have own : (entries.map (Sighting.trace number)).filterMap Sighting.trace? = entries.map (number, ·) := by
    have wrapped : Sighting.trace? ∘ Sighting.trace number = some ∘ (number, ·) := rfl
    rw [List.filterMap_map, wrapped, List.filterMap_eq_map]
  rw [traces, receive, List.filterMap_append, own]
  rfl

section

variable {t} (debug : t.takes .debug = true) (view : SpanView)

include debug

theorem trace_eq (entry : TraceEntry) : t.trace view entry = t.receive view.number [entry] := by
  rw [trace, if_pos (tracesSpans_of_debug debug)]
  rfl

theorem traceCall_attribute (key : String) (value : Attribute) : t.traceCall view (.attribute key value) =
    t.receive view.number (SpanCall.attribute key value).entries := by
  simp only [traceCall, SpanCall.entries]
  by_cases known : key ∈ knownFields
  · rw [if_pos known, if_pos known]
    exact trace_eq debug view _
  · rw [if_neg known, if_neg known, if_pos debug]
    exact trace_eq debug view _

theorem traceCall_status (s : SpanStatus) :
    t.traceCall view (.status s) = t.receive view.number (SpanCall.status s).entries := by
  obtain ⟨code, _ | text⟩ := s
  · have call_eq : t.traceCall view (.status ⟨code, none⟩) =
        t.trace view (.recorded "otel.status_code" (.str code.text)) := by
      cases code <;> rfl
    rw [call_eq]
    exact trace_eq debug view _
  · have call_eq : t.traceCall view (.status ⟨code, some text⟩) =
        (t.trace view (.recorded "otel.status_code" (.str code.text))).trace view
          (.recorded "otel.status_message" (.str text)) := by
      cases code <;> rfl
    have again : (t.receive view.number [.recorded "otel.status_code" (.str code.text)]).takes .debug = true := debug
    rw [call_eq, trace_eq debug, trace_eq again]
    simp [SpanCall.entries, receive]

theorem dropHandle_eq {span : Nat} {view : SpanView} (here : t.spans[span]? = some view) :
    t.dropHandle span =
      let given := t.modifySpan span fun v => { v with handles := v.handles - 1 }
      if view.handles = 1 then given.receive view.number [.closed] else given := by
  unfold dropHandle
  rw [here]
  have given : (t.modifySpan span fun v => { v with handles := v.handles - 1 }).takes .debug = true := debug
  dsimp only
  rw [trace_eq given]

variable (builtIn : t.tracer = .builtIn)

include builtIn

omit debug in
theorem reach_builtIn {span : Nat} {view : SpanView} (here : t.spans[span]? = some view)
    (usable : view.disabled = false) (call : SpanCall) :
    t.reach span call = if view.ended then t else t.traceCall view call := by
  unfold reach
  rw [here]
  simp only [usable, Bool.or_false, builtIn]

/-- A span that ends with no other handle than its guard closes. -/
theorem endSpan_builtIn {span : Nat} {view : SpanView} (here : t.spans[span]? = some view)
    (usable : view.disabled = false) (open_yet : view.ended = false) (last : view.handles = 1) :
    t.endSpan span = ({ t with spans := t.spans.modify span fun v =>
      { v with ended := true, handles := v.handles - 1 } } : Telemetry).receive view.number [.closed] := by
  have reached : t.reach span .finish = t := by
    rw [reach_builtIn builtIn here usable, open_yet]
    rfl
  let finished := t.modifySpan span fun v => { v with ended := true }
  have there : finished.spans[span]? = some { view with ended := true } := by
    change (t.spans.modify span _)[span]? = _
    rw [List.getElem?_modify_eq, here]
    rfl
  have closed : finished.dropHandle span = _ := dropHandle_eq (t := finished) debug there
  have still : (t.modifySpan span fun v => { v with ended := true }).tracer = .builtIn := builtIn
  unfold endSpan
  rw [here]
  dsimp only
  rw [open_yet, if_neg Bool.false_ne_true, reached, still]
  dsimp only
  rw [closed]
  dsimp only
  rw [if_pos last]
  change ({ t with spans := (t.spans.modify span _).modify span _ } : Telemetry).receive _ _ = _
  rw [List.modify_modify_eq]
  rfl

/-- The subscriber learns of a span that is started. -/
theorem startSpan_builtIn (tracer : Nat) (name : String) (parent : Option ContextRef) :
    let number := t.spans.countP (·.tracer = tracer) + 1
    let parentSpan := ((parent.map t.context).bind (·.backing)).bind fun span => t.spans[span]?.map (·.number)
    t.startSpan tracer name parent = ({ t with
      spans := t.spans ++ [⟨tracer, name, number, false, false, [], 1⟩] } : Telemetry).receive number
        [.opened parentSpan [("otel.name", .str name)]] := by
  intro number parentSpan
  have opened : ({ t with spans := t.spans ++ [⟨tracer, name, number, false, false, [], 1⟩] } : Telemetry).takes
      .debug = true := debug
  have traced := trace_eq opened ⟨tracer, name, number, false, false, [], 1⟩
    (.opened parentSpan [("otel.name", .str name)])
  rw [← traced]
  obtain ⟨level, tracer', logger, observer, spans, contexts, sightings⟩ := t
  obtain rfl : tracer' = .builtIn := builtIn
  rfl

omit debug in
/-- A context of a span that has not ended is a handle. -/
theorem takeContext_builtIn {span : Nat} {view : SpanView} (here : t.spans[span]? = some view)
    (open_yet : view.ended = false) : t.takeContext span =
      { t with contexts := t.contexts ++ [⟨view.name, view.number, some span⟩],
               spans := t.spans.modify span fun v => { v with handles := v.handles + 1 } } := by
  have context_eq : t.contextOf span = ⟨view.name, view.number, some span⟩ := by
    unfold contextOf
    simp only [here, builtIn, open_yet]
    rfl
  unfold takeContext
  rw [context_eq]
  rfl

end

end Telemetry

end Segmentation
