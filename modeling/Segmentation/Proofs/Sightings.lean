import Segmentation.Proofs.Trails
import Segmentation.Telemetry.Report

/-!
# What a calm tracer receives

A custom tracer that never panics receives for every span its start, then what is done with it, up to its end
(`SpanEvent.heard`).  Spans get consecutive numbers, and a span that has a parent is started with the number of the
span from which the context was taken.  `Telemetry.Reads` says this of what is seen of events in order; whatever else
is seen changes nothing (`Telemetry.Reads.seeAll`).
-/

namespace Segmentation

open SpanEvent (Orderly starts takens trail)

/-- The tracer never panics. -/
structure CustomTracer.Calm (tracer : CustomTracer) : Prop where
  panics : ∀ received call, tracer.panics received call = false
  panicsOnContext : ∀ received, tracer.panicsOnContext received = false

namespace SpanEvent

/-- The call by which a tracer learns of something that is done with a span. -/
def call? : SpanEvent → Option SpanCall
  | .attributed _ key value => some (.attribute key value)
  | .statusSet _ status => some (.status status)
  | .ended _ => some .finish
  | _ => none

/-- Whether a span ends. -/
def isEnd : SpanEvent → Bool
  | .ended _ => true
  | _ => false

/-- What a tracer hears of what is done with a span: all until the span ends. -/
def heard : List SpanEvent → List SpanCall
  | [] => []
  | event :: events => event.call?.toList ++ if event.isEnd then [] else heard events

/-- Whether the span has ended. -/
def isOver (events : List SpanEvent) : Bool := events.any isEnd

/-- What comes after the end is not heard. -/
theorem heard_append (events more : List SpanEvent) :
    heard (events ++ more) = if isOver events then heard events else heard events ++ heard more := by
  induction events with
  | nil => rfl
  | cons event events ih =>
    have over_cons : isOver (event :: events) = (event.isEnd || isOver events) := rfl
    rw [List.cons_append, heard, heard, ih, over_cons]
    cases event.isEnd with
    | true => rfl
    | false =>
      rw [Bool.false_or]
      cases isOver events with
      | true => rfl
      | false => exact (List.append_assoc ..).symm

theorem isOver_append (events more : List SpanEvent) : isOver (events ++ more) = (isOver events || isOver more) :=
  List.any_append

end SpanEvent

open SpanEvent (heard isOver)

/-- The calls that the span with a number received. -/
def received (calls : List (Nat × SpanCall)) (number : Nat) : List SpanCall :=
  calls.filterMap fun (n, call) => if n = number then some call else none

theorem received_append (calls more : List (Nat × SpanCall)) (number : Nat) :
    received (calls ++ more) number = received calls number ++ received more number := List.filterMap_append

theorem received_self (number : Nat) (call : SpanCall) : received [(number, call)] number = [call] := by
  simp [received]

theorem received_other {number other : Nat} (differs : other ≠ number) (call : SpanCall) :
    received [(other, call)] number = [] := by
  simp [received, differs]

/-- The call that a sighting is. -/
def Sighting.spanCall? : Sighting → Option (Nat × SpanCall)
  | .spanCall number call => some (number, call)
  | _ => none

namespace Telemetry

/-- The calls that spans received. -/
def spanCalls (t : Telemetry) : List (Nat × SpanCall) := t.sightings.filterMap Sighting.spanCall?

/-- Nothing is different for spans. -/
structure Agrees (before later : Telemetry) : Prop where
  tracer : later.tracer = before.tracer
  spans : later.spans = before.spans
  contexts : later.contexts = before.contexts
  spanCalls : later.spanCalls = before.spanCalls

namespace Agrees

theorem refl (t : Telemetry) : t.Agrees t := ⟨rfl, rfl, rfl, rfl⟩

theorem trans {a b c : Telemetry} (ab : a.Agrees b) (bc : b.Agrees c) : a.Agrees c :=
  ⟨bc.tracer.trans ab.tracer, bc.spans.trans ab.spans, bc.contexts.trans ab.contexts, bc.spanCalls.trans ab.spanCalls⟩

end Agrees

variable (t : Telemetry)

theorem agrees_sight {s : Sighting} (other : s.spanCall? = none) : t.Agrees (t.sight s) := by
  refine ⟨rfl, rfl, rfl, ?_⟩
  have nothing : [s].filterMap Sighting.spanCall? = [] := by simp [other]
  rw [spanCalls, sight, List.filterMap_append, nothing]
  exact List.append_nil _

theorem agrees_diagnose (level : Level) (text : String) (fields : List (String × Json)) :
    t.Agrees (t.diagnose level text fields) := by
  unfold diagnose
  split
  · exact t.agrees_sight rfl
  · exact .refl t

/-- What is no matter of spans changes nothing for them. -/
theorem agrees_see {event : Event} (other : event.spanEvent? = none) : t.Agrees (t.see event) := by
  cases event with
  | span event => cases other
  | noticed notice => exact t.agrees_diagnose _ _ _
  | errorReported error segment subject =>
    have logged : t.Agrees (t.log error segment subject) := by
      unfold log
      cases t.logger with
      | silent => exact .refl t
      | reporting => exact t.agrees_diagnose _ _ _
      | callback panics =>
        have sighted := t.agrees_sight (s := .logged error segment subject) rfl
        cases panics with
        | false => exact sighted
        | true => exact sighted.trans (agrees_diagnose _ _ _ _)
    have observed (t : Telemetry) : t.Agrees (t.observe error segment subject) := by
      unfold observe
      cases t.observer with
      | none => exact .refl _
      | some observer =>
        have sighted := t.agrees_sight (s := .observed error segment subject) rfl
        dsimp only
        split
        · exact sighted.trans (agrees_diagnose _ _ _ _)
        · exact sighted
    exact logged.trans (observed _)
  | _ => exact .refl t

/-- A context that no span of the subscriber's is behind is released without anybody's notice. -/
theorem releaseContext_of_unbacked {t : Telemetry} (unbacked : ∀ context ∈ t.contexts, context.backing = none)
    (context : Nat) : t.releaseContext context = t := by
  have nothing : (t.contexts.getD context .blank).backing = none := by
    rw [List.getD_eq_getElem?_getD]
    cases here : t.contexts[context]? with
    | none => rfl
    | some c => exact unbacked c (List.mem_of_getElem? here)
  rw [releaseContext, nothing]

/-! ### A calm tracer -/

/-- The tracer has not panicked, so no span is disabled; and no context is backed. -/
structure Steady (tracer : CustomTracer) (t : Telemetry) : Prop where
  tracer_eq : t.tracer = .custom tracer
  usable : ∀ (span : Nat) (view : SpanView), t.spans[span]? = some view → view.disabled = false
  unbacked : ∀ context ∈ t.contexts, context.backing = none

variable {t} {tracer : CustomTracer}

theorem Steady.agrees (steady : t.Steady tracer) {later : Telemetry} (agrees : t.Agrees later) : later.Steady tracer := by
  refine ⟨agrees.tracer.trans steady.tracer_eq, ?_, ?_⟩
  · rw [agrees.spans]
    exact steady.usable
  · rw [agrees.contexts]
    exact steady.unbacked

/-- A call that reaches a span. -/
def hand (t : Telemetry) (span : Nat) (view : SpanView) (call : SpanCall) : Telemetry :=
  { t with
    sightings := t.sightings ++ [.spanCall view.number call]
    spans := t.spans.modify span fun v => { v with calls := v.calls ++ [call], disabled := false } }

section

variable (steady : t.Steady tracer) (calm : tracer.Calm)

include steady calm

theorem reach_eq {span : Nat} {view : SpanView} (here : t.spans[span]? = some view) (call : SpanCall) :
    t.reach span call = if view.ended then t else t.hand span view call := by
  unfold reach
  simp only [here, steady.usable span view here, Bool.or_false, steady.tracer_eq, calm.panics, Bool.false_eq_true,
    if_false]
  rfl

theorem endSpan_eq {span : Nat} {view : SpanView} (here : t.spans[span]? = some view) :
    t.endSpan span = if view.ended then t else
      (t.hand span view .finish).modifySpan span fun v => { v with ended := true } := by
  unfold endSpan
  rw [here]
  dsimp only
  split
  · rfl
  · rename_i open_yet
    rw [reach_eq steady calm here, if_neg open_yet]
    have tracer_eq : ((t.hand span view .finish).modifySpan span fun v => { v with ended := true }).tracer =
        .custom tracer := steady.tracer_eq
    rw [tracer_eq]

theorem startSpan_eq (number : Nat) (name : String) (parent : Option ContextRef) :
    t.startSpan number name parent =
      { t with
        spans := t.spans ++ [⟨number, name, t.spans.countP (·.tracer = number) + 1, false, false,
          [.start name ((parent.map t.context).map (·.number))], 1⟩]
        sightings := t.sightings ++ [.spanCall (t.spans.countP (·.tracer = number) + 1)
          (.start name ((parent.map t.context).map (·.number)))] } := by
  unfold startSpan
  simp only [steady.tracer_eq, calm.panics]
  rfl

theorem takeContext_eq (span : Nat) : ∃ context, context.backing = none ∧
    t.takeContext span = { t with contexts := t.contexts ++ [context] } ∧
    ∀ view, t.spans[span]? = some view → context.number = view.number := by
  have context_eq : t.contextOf span = match t.spans[span]? with
      | some view => ⟨view.name, view.number, none⟩
      | none => .blank := by
    unfold contextOf
    cases here : t.spans[span]? with
    | none => rfl
    | some view => simp [steady.tracer_eq, steady.usable span view here, calm.panicsOnContext]
  refine ⟨t.contextOf span, ?_, ?_, fun view here => ?_⟩
  · rw [context_eq]
    split <;> rfl
  · have unbacked : (t.contextOf span).backing.isSome = false := by
      rw [context_eq]
      split <;> rfl
    unfold takeContext
    simp [unbacked]
  · rw [context_eq, here]

omit calm in
theorem releaseContext_eq (context : Nat) : t.releaseContext context = t :=
  releaseContext_of_unbacked steady.unbacked context

omit calm in
/-- A change of one span that disables nothing. -/
theorem Steady.modify {later : Telemetry} (tracer_eq : later.tracer = t.tracer) (contexts : later.contexts = t.contexts)
    {span : Nat} {f : SpanView → SpanView} (spans : later.spans = t.spans.modify span f)
    (keeps : ∀ view, view.disabled = false → (f view).disabled = false) :
    later.Steady tracer ∧ later.spans.length = t.spans.length ∧ later.contexts.length = t.contexts.length := by
  refine ⟨⟨tracer_eq.trans steady.tracer_eq, fun other view here => ?_, contexts ▸ steady.unbacked⟩, ?_, by rw [contexts]⟩
  · rw [spans, List.getElem?_modify] at here
    obtain ⟨before, was, rfl⟩ := Option.map_eq_some_iff.1 here
    have usable := steady.usable other before was
    split
    · exact keeps before usable
    · exact usable
  · rw [spans, List.length_modify]

/-- What a calm tracer is told of a span leaves no other spans or contexts than there are. -/
theorem Steady.reach (span : Nat) (call : SpanCall) : (t.reach span call).Steady tracer ∧
    (t.reach span call).spans.length = t.spans.length ∧ (t.reach span call).contexts.length = t.contexts.length := by
  cases here : t.spans[span]? with
  | none =>
    have unknown : t.reach span call = t := by simp [Telemetry.reach, here]
    rw [unknown]
    exact ⟨steady, rfl, rfl⟩
  | some view =>
    rw [reach_eq steady calm here]
    split
    · exact ⟨steady, rfl, rfl⟩
    · exact steady.modify rfl rfl rfl fun _ _ => rfl

theorem Steady.endSpan (span : Nat) : (t.endSpan span).Steady tracer ∧
    (t.endSpan span).spans.length = t.spans.length ∧ (t.endSpan span).contexts.length = t.contexts.length := by
  cases here : t.spans[span]? with
  | none =>
    have unknown : t.endSpan span = t := by simp [Telemetry.endSpan, here]
    rw [unknown]
    exact ⟨steady, rfl, rfl⟩
  | some view =>
    rw [endSpan_eq steady calm here]
    split
    · exact ⟨steady, rfl, rfl⟩
    · obtain ⟨handed, spans, contexts⟩ : (t.hand span view .finish).Steady tracer ∧ _ :=
        steady.modify rfl rfl rfl fun _ _ => rfl
      have finished : ((t.hand span view .finish).modifySpan span fun v => { v with ended := true }).Steady tracer ∧ _ ∧ _ :=
        handed.modify rfl rfl rfl fun _ usable => usable
      exact ⟨finished.1, finished.2.1.trans spans, finished.2.2.trans contexts⟩

/-- A calm tracer sees every span that is started, and every context that is taken. -/
theorem Steady.seeSpan (event : SpanEvent) : (t.seeSpan event).Steady tracer ∧
    (t.seeSpan event).spans.length = t.spans.length + (starts [event]).length ∧
    (t.seeSpan event).contexts.length = t.contexts.length + (takens [event]).length := by
  cases event with
  | started number name parent =>
    change (t.startSpan number name parent).Steady tracer ∧ (t.startSpan number name parent).spans.length = _ ∧
      (t.startSpan number name parent).contexts.length = _
    rw [startSpan_eq steady calm]
    refine ⟨⟨steady.tracer_eq, fun span view here => ?_, steady.unbacked⟩, by simp [starts, SpanEvent.start?], rfl⟩
    rcases List.mem_append.1 (List.mem_of_getElem? here) with mem | mem
    · obtain ⟨other, there⟩ := List.mem_iff_getElem?.1 mem
      exact steady.usable other view there
    · rw [List.mem_singleton.1 mem]
  | attributed span key value => exact steady.reach calm span _
  | statusSet span status => exact steady.reach calm span _
  | contextTaken span =>
    obtain ⟨context, unbacked, taken, -⟩ := takeContext_eq steady calm span
    change (t.takeContext span).Steady tracer ∧ (t.takeContext span).spans.length = _ ∧
      (t.takeContext span).contexts.length = _
    rw [taken]
    refine ⟨⟨steady.tracer_eq, steady.usable, fun other mem => ?_⟩, rfl, by simp [takens, SpanEvent.taken?]⟩
    rcases List.mem_append.1 mem with mem | mem
    · exact steady.unbacked other mem
    · rw [List.mem_singleton.1 mem, unbacked]
  | ended span => exact steady.endSpan calm span
  | contextReleased context =>
    change (t.releaseContext context).Steady tracer ∧ (t.releaseContext context).spans.length = _ ∧
      (t.releaseContext context).contexts.length = _
    rw [releaseContext_eq steady]
    exact ⟨steady, rfl, rfl⟩

/-- It sees all spans and contexts of a journal. -/
theorem Steady.seeAll (events : List Event) : (t.seeAll events).Steady tracer ∧
    (t.seeAll events).spans.length = t.spans.length + (starts (spanEvents events)).length ∧
    (t.seeAll events).contexts.length = t.contexts.length + (takens (spanEvents events)).length := by
  induction events generalizing t with
  | nil => exact ⟨steady, rfl, rfl⟩
  | cons event events ih =>
    have one : (t.see event).Steady tracer ∧
        (t.see event).spans.length = t.spans.length + (starts (spanEvents [event])).length ∧
        (t.see event).contexts.length = t.contexts.length + (takens (spanEvents [event])).length := by
      cases span : event.spanEvent? with
      | none =>
        have agrees := t.agrees_see span
        have silent : spanEvents [event] = [] := spanEvents_of_none (by simp [span])
        rw [silent]
        exact ⟨steady.agrees agrees, congrArg List.length agrees.spans, congrArg List.length agrees.contexts⟩
      | some e =>
        cases event with
        | span event => exact steady.seeSpan calm event
        | _ => cases span
    obtain ⟨later, spans, contexts⟩ := ih one.1
    rw [← List.singleton_append, spanEvents_append, SpanEvent.starts_append, SpanEvent.takens_append, List.length_append,
      List.length_append, ← Nat.add_assoc, ← Nat.add_assoc, ← one.2.1, ← one.2.2]
    exact ⟨later, spans, contexts⟩

end

theorem steady_start (level : Option Level) (logger : Logger) (observer : Option ErrorObserver) :
    (start level (.custom tracer) logger observer).Steady tracer := ⟨rfl, nofun, nofun⟩

/-! ### Reading on -/

/-- The number of a span that was started since. -/
def numberOf (before : Telemetry) (span : Nat) : Nat :=
  before.spans.countP (·.tracer = 0) + (span - before.spans.length) + 1

theorem numberOf_inj {before : Telemetry} {span other : Nat} (new : before.spans.length ≤ span)
    (new' : before.spans.length ≤ other) (same : before.numberOf span = before.numberOf other) : span = other := by
  unfold numberOf at same
  omega

/-- What was seen of events in order: every span that was started since has received its start, and what was done with
it until it ended, and nothing else was received by any. -/
structure Reads (tracer : CustomTracer) (before : Telemetry) (events : List SpanEvent) (t : Telemetry) : Prop where
  steady : t.Steady tracer
  spans : t.spans.length = before.spans.length + (starts events).length
  count : t.spans.countP (·.tracer = 0) = before.spans.countP (·.tracer = 0) + (starts events).length
  views : ∀ span, before.spans.length ≤ span → span < t.spans.length → ∃ view, t.spans[span]? = some view ∧
    view.number = before.numberOf span ∧ view.ended = isOver (trail span events)
  contexts : t.contexts.map (·.number) = before.contexts.map (·.number) ++ (takens events).map before.numberOf
  calls : ∀ span, before.spans.length ≤ span → ∀ start, (starts events)[span - before.spans.length]? = some start →
    received t.spanCalls (before.numberOf span) =
      .start start.2.1 ((start.2.2.map t.context).map (·.number)) :: heard (trail span events)
  parents : ∀ start ∈ starts events, ∀ context, start.2.2 = some (.taken context) → context < t.contexts.length
  only : ∀ call ∈ t.spanCalls, ∃ span, before.spans.length ≤ span ∧ span < t.spans.length ∧
    call.1 = before.numberOf span
  below : ∀ event ∈ events, ∀ span, event.acts? = some span → span < t.spans.length

/-- A change of one element that keeps what is looked at. -/
theorem map_modify_of_keeps {α β : Type} {g : α → β} {f : α → α} (keeps : ∀ a, g (f a) = g a) (l : List α)
    (index : Nat) : (l.modify index f).map g = l.map g := by
  refine List.ext_getElem? fun i => ?_
  rw [List.getElem?_map, List.getElem?_map, List.getElem?_modify]
  cases l[i]? with
  | none => rfl
  | some a =>
    by_cases same : index = i
    · simp [same, keeps]
    · simp [same]

namespace Reads

variable {before : Telemetry} {events : List SpanEvent}

theorem start (steady : before.Steady tracer) (fresh : before.spanCalls = []) : Reads tracer before [] before where
  steady := steady
  spans := rfl
  count := rfl
  views span new old := absurd old (Nat.not_lt.2 new)
  contexts := (List.append_nil _).symm
  calls _ _ _ here := nomatch here
  parents _ mem := nomatch mem
  only call mem := by
    rw [fresh] at mem
    cases mem
  below _ mem := nomatch mem

variable (reads : Reads tracer before events t) (calm : tracer.Calm)

include reads

theorem agrees {later : Telemetry} (agrees : t.Agrees later) : Reads tracer before events later := by
  have context_eq : later.context = t.context := by
    funext ref
    cases ref with
    | taken context => exact congrArg (fun contexts => contexts.getD context ContextView.blank) agrees.contexts
    | _ => rfl
  refine ⟨reads.steady.agrees agrees, ?_, ?_, ?_, ?_, ?_, ?_, ?_, ?_⟩
  · rw [agrees.spans]
    exact reads.spans
  · rw [agrees.spans]
    exact reads.count
  · rw [agrees.spans]
    exact reads.views
  · rw [agrees.contexts]
    exact reads.contexts
  · rw [agrees.spanCalls, context_eq]
    exact reads.calls
  · rw [agrees.contexts]
    exact reads.parents
  · rw [agrees.spanCalls, agrees.spans]
    exact reads.only
  · rw [agrees.spans]
    exact reads.below

theorem above : before.spans.length ≤ t.spans.length := by
  rw [reads.spans]
  exact Nat.le_add_right _ _

/-- Nothing is done with a span before it is started. -/
theorem untouched : trail t.spans.length events = [] :=
  SpanEvent.trail_eq_nil fun event mem acts => Nat.lt_irrefl _ (reads.below event mem _ acts)

/-- The next span has received nothing yet. -/
theorem unreceived : received t.spanCalls (before.numberOf t.spans.length) = [] := by
  refine List.filterMap_eq_nil_iff.2 fun call mem => if_neg fun same => ?_
  obtain ⟨other, new, old, is⟩ := reads.only call mem
  have := numberOf_inj new reads.above (is.symm.trans same)
  omega

/-- Spans are still started before something is done with them. -/
theorem below_concat {event : SpanEvent} {later : Telemetry} (grows : t.spans.length ≤ later.spans.length)
    (own : ∀ span, event.acts? = some span → span < later.spans.length) :
    ∀ e ∈ events ++ [event], ∀ span, e.acts? = some span → span < later.spans.length := by
  intro e mem span acts
  rcases List.mem_append.1 mem with mem | mem
  · exact Nat.lt_of_lt_of_le (reads.below e mem span acts) grows
  · rw [List.mem_singleton.1 mem] at acts
    exact own span acts

/-- An event of which no span hears changes nothing. -/
theorem unheard {event : SpanEvent} (no_starts : starts [event] = []) (no_takens : takens [event] = [])
    (deaf : ∀ span, heard (trail span (events ++ [event])) = heard (trail span events) ∧
      isOver (trail span (events ++ [event])) = isOver (trail span events))
    (below : ∀ span, event.acts? = some span → span < t.spans.length) : Reads tracer before (events ++ [event]) t := by
  have starts_eq : starts (events ++ [event]) = starts events := by
    rw [SpanEvent.starts_append, no_starts, List.append_nil]
  refine ⟨reads.steady, ?_, ?_, fun span new old => ?_, ?_, fun span new start here => ?_, ?_, reads.only,
    reads.below_concat (Nat.le_refl _) below⟩
  · rw [starts_eq]
    exact reads.spans
  · rw [starts_eq]
    exact reads.count
  · rw [(deaf span).2]
    exact reads.views span new old
  · rw [SpanEvent.takens_append, no_takens, List.append_nil]
    exact reads.contexts
  · rw [(deaf span).1]
    exact reads.calls span new start (starts_eq ▸ here)
  · rw [starts_eq]
    exact reads.parents

/-- A span is started. -/
theorem startSpan (calm : tracer.Calm) (name : String) {parent : Option ContextRef}
    (taken : ∀ context, parent = some (.taken context) → context < t.contexts.length) :
    Reads tracer before (events ++ [.started 0 name parent]) (t.startSpan 0 name parent) := by
  have started := startSpan_eq reads.steady calm 0 name parent
  have steady : (t.startSpan 0 name parent).Steady tracer := (reads.steady.seeSpan calm (.started 0 name parent)).1
  -- the number of the new span is the one that is foretold for its place
  have number_eq : t.spans.countP (·.tracer = 0) + 1 = before.numberOf t.spans.length := by
    rw [reads.count, numberOf, reads.spans]
    omega
  have trail_eq (span : Nat) : trail span (events ++ [.started 0 name parent]) = trail span events := by
    rw [SpanEvent.trail_append]
    exact List.append_nil _
  have spanCalls_eq : (t.startSpan 0 name parent).spanCalls = t.spanCalls ++
      [(before.numberOf t.spans.length, .start name ((parent.map t.context).map (·.number)))] := by
    rw [started, ← number_eq]
    exact List.filterMap_append
  have length_eq : (t.startSpan 0 name parent).spans.length = t.spans.length + 1 := by
    rw [started, List.length_append]
    rfl
  have context_eq : (t.startSpan 0 name parent).context = t.context := by
    rw [started]
    rfl
  have starts_eq : starts (events ++ [.started 0 name parent]) = starts events ++ [(0, name, parent)] :=
    SpanEvent.starts_append ..
  refine ⟨steady, ?_, ?_, fun span new old => ?_, ?_, fun span new s here => ?_, fun s mem context is => ?_,
    fun call mem => ?_, reads.below_concat (by omega) fun span acts => nomatch acts⟩
  · rw [length_eq, reads.spans, starts_eq, List.length_append]
    rfl
  · rw [started, List.countP_append, reads.count, starts_eq, List.length_append]
    rfl
  · rw [trail_eq, started]
    rw [length_eq] at old
    by_cases last : span = t.spans.length
    · subst last
      refine ⟨_, List.getElem?_concat_length, number_eq, ?_⟩
      rw [reads.untouched]
      rfl
    · obtain ⟨view, here, rest⟩ := reads.views span new (by omega)
      exact ⟨view, by rw [List.getElem?_append_left (by omega), here], rest⟩
  · have takens_eq : takens (events ++ [.started 0 name parent]) = takens events := by
      rw [SpanEvent.takens_append]
      exact List.append_nil _
    rw [started, takens_eq]
    exact reads.contexts
  · rw [trail_eq, spanCalls_eq, received_append, context_eq]
    rw [starts_eq] at here
    -- the new span is told its start, and the older ones nothing
    by_cases last : span = t.spans.length
    · subst last
      have s_eq : s = (0, name, parent) := by
        rw [reads.spans, Nat.add_sub_cancel_left, List.getElem?_concat_length] at here
        exact (Option.some.inj here).symm
      rw [reads.unreceived, received_self, reads.untouched, s_eq]
      rfl
    · have lt : span - before.spans.length < (starts events ++ [(0, name, parent)]).length :=
        (List.getElem?_eq_some_iff.1 here).1
      rw [List.length_append, List.length_singleton] at lt
      have spans := reads.spans
      rw [List.getElem?_append_left (by omega)] at here
      have differs : before.numberOf t.spans.length ≠ before.numberOf span := fun same =>
        last (numberOf_inj reads.above new same).symm
      rw [reads.calls span new s here, received_other differs, List.append_nil]
  · have contexts_eq : (t.startSpan 0 name parent).contexts = t.contexts := by rw [started]
    rw [contexts_eq]
    rw [starts_eq] at mem
    rcases List.mem_append.1 mem with mem | mem
    · exact reads.parents s mem context is
    · rw [List.mem_singleton.1 mem] at is
      exact taken context is
  · rw [length_eq]
    rw [spanCalls_eq] at mem
    rcases List.mem_append.1 mem with mem | mem
    · obtain ⟨span, new, old, is⟩ := reads.only call mem
      exact ⟨span, new, by omega, is⟩
    · exact ⟨t.spans.length, reads.above, by omega, by rw [List.mem_singleton.1 mem]⟩

/-- A context is taken. -/
theorem takeContext (calm : tracer.Calm) {span : Nat} (new : before.spans.length ≤ span) (old : span < t.spans.length) :
    Reads tracer before (events ++ [.contextTaken span]) (t.takeContext span) := by
  obtain ⟨context, -, taken, number_eq⟩ := takeContext_eq reads.steady calm span
  have steady : (t.takeContext span).Steady tracer := (reads.steady.seeSpan calm (.contextTaken span)).1
  have starts_eq : starts (events ++ [.contextTaken span]) = starts events := by
    rw [SpanEvent.starts_append]
    exact List.append_nil _
  have trail_eq (other : Nat) : trail other (events ++ [.contextTaken span]) = trail other events := by
    rw [SpanEvent.trail_append]
    exact List.append_nil _
  have spans_eq : (t.takeContext span).spans = t.spans := by rw [taken]
  have spanCalls_eq : (t.takeContext span).spanCalls = t.spanCalls := by
    rw [taken]
    rfl
  have contexts_eq : (t.takeContext span).contexts = t.contexts ++ [context] := by rw [taken]
  refine ⟨steady, ?_, ?_, ?_, ?_, fun other new' s here => ?_, fun s mem c is => ?_, ?_,
    reads.below_concat (Nat.le_of_eq (congrArg _ spans_eq.symm)) fun other acts => nomatch acts⟩
  · rw [spans_eq, starts_eq]
    exact reads.spans
  · rw [spans_eq, starts_eq]
    exact reads.count
  · simp only [spans_eq, trail_eq]
    exact reads.views
  · obtain ⟨view, here, view_number, -⟩ := reads.views span new old
    rw [contexts_eq, List.map_append, reads.contexts, SpanEvent.takens_append, List.map_append, List.append_assoc]
    simp [takens, SpanEvent.taken?, number_eq view here, view_number]
  · rw [starts_eq] at here
    rw [spanCalls_eq, trail_eq, reads.calls other new' s here]
    -- The contexts that were taken before are those that they were.
    have same : s.2.2.map (t.takeContext span).context = s.2.2.map t.context := by
      cases parent : s.2.2 with
      | none => rfl
      | some ref =>
        cases ref with
        | taken c =>
          have lt := reads.parents s (List.mem_of_getElem? here) c parent
          simp [Telemetry.context, contexts_eq, List.getElem?_append_left lt]
        | _ => rfl
    rw [same]
  · rw [starts_eq] at mem
    have lt := reads.parents s mem c is
    rw [contexts_eq, List.length_append]
    exact Nat.lt_add_right _ lt
  · rw [spanCalls_eq, spans_eq]
    exact reads.only

/-- Something is done with a span that has ended, and nobody hears of it. -/
theorem act_ended {span : Nat} {view : SpanView} (new : before.spans.length ≤ span) (here : t.spans[span]? = some view)
    (ended : view.ended = true) {event : SpanEvent} (acts : event.acts? = some span) :
    Reads tracer before (events ++ [event]) t := by
  have old := (List.getElem?_eq_some_iff.1 here).1
  have is_over : isOver (trail span events) = true := by
    obtain ⟨seen, there, -, ended_eq⟩ := reads.views span new old
    obtain rfl : view = seen := Option.some.inj (here.symm.trans there)
    exact ended_eq.symm.trans ended
  have alone : ∀ e ∈ [event], e.acts? = some span := List.forall_mem_singleton.2 acts
  refine reads.unheard (SpanEvent.starts_of_acts alone) (SpanEvent.takens_of_acts alone) (fun other => ?_) fun other is => ?_
  · rw [SpanEvent.trail_append]
    by_cases own : other = span
    · subst own
      rw [SpanEvent.heard_append, if_pos is_over, SpanEvent.isOver_append, is_over]
      exact ⟨rfl, rfl⟩
    · rw [SpanEvent.trail_singleton_other acts own, List.append_nil]
      exact ⟨rfl, rfl⟩
  · rw [acts] at is
    exact Option.some.inj is ▸ old

/-- Something is done with a span that has not ended. -/
theorem act {span : Nat} {view : SpanView} (new : before.spans.length ≤ span) (here : t.spans[span]? = some view)
    (open_yet : view.ended = false) {event : SpanEvent} {call : SpanCall} (acts : event.acts? = some span)
    (is : event.call? = some call) {later : Telemetry} (steady : later.Steady tracer)
    (contexts_eq : later.contexts = t.contexts) {f : SpanView → SpanView}
    (keeps : ∀ view, (f view).number = view.number ∧ (f view).tracer = view.tracer)
    (ends : (f view).ended = event.isEnd) (spans_eq : later.spans = t.spans.modify span f)
    (calls_eq : later.spanCalls = t.spanCalls ++ [(view.number, call)]) :
    Reads tracer before (events ++ [event]) later := by
  have old := (List.getElem?_eq_some_iff.1 here).1
  obtain ⟨number_eq, is_open⟩ : view.number = before.numberOf span ∧ isOver (trail span events) = false := by
    obtain ⟨seen, there, number_eq, ended_eq⟩ := reads.views span new old
    obtain rfl : view = seen := Option.some.inj (here.symm.trans there)
    exact ⟨number_eq, ended_eq.symm.trans open_yet⟩
  have alone : ∀ e ∈ [event], e.acts? = some span := List.forall_mem_singleton.2 acts
  -- the event starts no span, takes no context, and is read in the trail of this span only
  have starts_eq : starts (events ++ [event]) = starts events := by
    rw [SpanEvent.starts_append, SpanEvent.starts_of_acts alone, List.append_nil]
  have takens_eq : takens (events ++ [event]) = takens events := by
    rw [SpanEvent.takens_append, SpanEvent.takens_of_acts alone, List.append_nil]
  have trail_other {other : Nat} (differs : other ≠ span) : trail other (events ++ [event]) = trail other events := by
    rw [SpanEvent.trail_append, SpanEvent.trail_singleton_other acts differs, List.append_nil]
  have trail_own : trail span (events ++ [event]) = trail span events ++ [event] := by
    rw [SpanEvent.trail_append, SpanEvent.trail_of_acts alone]
  have context_eq : later.context = t.context := by
    funext ref
    cases ref with
    | taken context => exact congrArg (fun contexts => contexts.getD context ContextView.blank) contexts_eq
    | _ => rfl
  have length_eq : later.spans.length = t.spans.length := by rw [spans_eq, List.length_modify]
  refine ⟨steady, ?_, ?_, fun other new' old' => ?_, ?_, fun other new' s at_s => ?_, ?_, fun c mem => ?_,
    reads.below_concat (Nat.le_of_eq length_eq.symm) fun other is_other => ?_⟩
  · rw [length_eq, starts_eq]
    exact reads.spans
  · have tracers : later.spans.map (·.tracer) = t.spans.map (·.tracer) := by
      rw [spans_eq]
      exact map_modify_of_keeps (fun view => (keeps view).2) _ _
    have counted (l : List SpanView) : l.countP (·.tracer = 0) = (l.map (·.tracer)).countP (· = 0) := by
      rw [List.countP_map]
      rfl
    rw [counted, tracers, ← counted, starts_eq]
    exact reads.count
  · rw [length_eq] at old'
    obtain ⟨seen, there, other_number, other_ended⟩ := reads.views other new' old'
    rw [spans_eq, List.getElem?_modify, there]
    by_cases own : other = span
    · subst own
      obtain rfl : view = seen := Option.some.inj (here.symm.trans there)
      refine ⟨f view, by simp, (keeps view).1.trans other_number, ?_⟩
      rw [trail_own, SpanEvent.isOver_append, is_open, ends, Bool.false_or]
      exact (Bool.or_false _).symm
    · refine ⟨seen, by simp [Ne.symm own], other_number, ?_⟩
      rw [trail_other own, other_ended]
  · rw [contexts_eq, takens_eq]
    exact reads.contexts
  · rw [starts_eq] at at_s
    rw [calls_eq, received_append, reads.calls other new' s at_s, context_eq, number_eq]
    by_cases own : other = span
    · subst own
      have heard_one : heard [event] = [call] := by simp [heard, is]
      rw [received_self, trail_own, SpanEvent.heard_append, is_open, heard_one]
      rfl
    · have differs : before.numberOf span ≠ before.numberOf other := fun same => own (numberOf_inj new new' same).symm
      rw [received_other differs, trail_other own, List.append_nil]
  · rw [starts_eq, contexts_eq]
    exact reads.parents
  · rw [length_eq]
    rw [calls_eq] at mem
    rcases List.mem_append.1 mem with mem | mem
    · exact reads.only c mem
    · rw [List.mem_singleton.1 mem]
      exact ⟨span, new, old, number_eq⟩
  · rw [acts] at is_other
    rw [length_eq]
    exact Option.some.inj is_other ▸ old

/-- A span is told of a call that does not end it. -/
theorem reach (calm : tracer.Calm) {span : Nat} (bounds : before.spans.length ≤ span ∧ span < t.spans.length)
    {event : SpanEvent} {call : SpanCall} (acts : event.acts? = some span) (is : event.call? = some call)
    (lasting : event.isEnd = false) : Reads tracer before (events ++ [event]) (t.reach span call) := by
  obtain ⟨view, here, -⟩ := reads.views span bounds.1 bounds.2
  have steady := (reads.steady.reach calm span call).1
  rw [reach_eq reads.steady calm here] at steady ⊢
  cases ended : view.ended with
  | true => exact reads.act_ended bounds.1 here ended acts
  | false =>
    rw [ended] at steady
    exact reads.act bounds.1 here ended acts is steady rfl
      (f := fun v => { v with calls := v.calls ++ [call], disabled := false }) (fun _ => ⟨rfl, rfl⟩)
      (ended.trans lasting.symm) rfl List.filterMap_append

theorem endSpan (calm : tracer.Calm) {span : Nat} (bounds : before.spans.length ≤ span ∧ span < t.spans.length) :
    Reads tracer before (events ++ [.ended span]) (t.endSpan span) := by
  obtain ⟨view, here, -⟩ := reads.views span bounds.1 bounds.2
  have steady := (reads.steady.endSpan calm span).1
  rw [endSpan_eq reads.steady calm here] at steady ⊢
  cases ended : view.ended with
  | true => exact reads.act_ended bounds.1 here ended rfl
  | false =>
    rw [ended] at steady
    refine reads.act bounds.1 here ended rfl rfl steady rfl
      (f := fun v => { v with calls := v.calls ++ [.finish], disabled := false, ended := true })
      (fun _ => ⟨rfl, rfl⟩) rfl ?_ List.filterMap_append
    change (t.spans.modify span _).modify span _ = _
    rw [List.modify_modify_eq]
    rfl

/-- One more event is seen. -/
theorem seeSpan (calm : tracer.Calm) (event : SpanEvent)
    (orderly : Orderly before.spans.length t.spans.length t.contexts.length [event]) :
    Reads tracer before (events ++ [event]) (t.seeSpan event) := by
  cases event with
  | started number name parent =>
    obtain ⟨⟨rfl, taken⟩, -⟩ := orderly
    exact reads.startSpan calm name taken
  | contextTaken span => exact reads.takeContext calm orderly.1.1 orderly.1.2
  | attributed span key value => exact reads.reach calm orderly.1 rfl rfl rfl
  | statusSet span status => exact reads.reach calm orderly.1 rfl rfl rfl
  | ended span => exact reads.endSpan calm orderly.1
  | contextReleased context =>
    have trail_eq (span : Nat) : trail span (events ++ [.contextReleased context]) = trail span events := by
      rw [SpanEvent.trail_append]
      exact List.append_nil _
    change Reads tracer before _ (t.releaseContext context)
    rw [releaseContext_eq reads.steady]
    refine reads.unheard rfl rfl (fun span => ?_) fun span acts => nomatch acts
    rw [trail_eq]
    exact ⟨rfl, rfl⟩

/-- What is seen of events in order, and of others. -/
theorem seeAll (calm : tracer.Calm) (written : List Event)
    (orderly : Orderly before.spans.length t.spans.length t.contexts.length (spanEvents written)) :
    Reads tracer before (events ++ spanEvents written) (t.seeAll written) := by
  induction written generalizing t events with
  | nil =>
    rw [show events ++ spanEvents [] = events from List.append_nil _]
    exact reads
  | cons event written ih =>
    cases span : event.spanEvent? with
    | none =>
      have same : spanEvents (event :: written) = spanEvents written := List.filterMap_cons_none span
      rw [same] at orderly ⊢
      have agrees := t.agrees_see span
      refine ih (reads.agrees agrees) ?_
      rw [agrees.spans, agrees.contexts]
      exact orderly
    | some e =>
      obtain rfl : event = .span e := by
        cases event with
        | span event => exact congrArg Event.span (Option.some.inj span)
        | _ => cases span
      have cons_eq : spanEvents (.span e :: written) = [e] ++ spanEvents written := rfl
      rw [cons_eq, ← List.append_assoc]
      obtain ⟨here, later⟩ := Orderly.of_cons orderly
      obtain ⟨-, spans, contexts⟩ := reads.steady.seeSpan calm e
      refine ih (reads.seeSpan calm e here) ?_
      change Orderly _ (t.seeSpan e).spans.length (t.seeSpan e).contexts.length _
      rw [spans, contexts]
      exact later

end Reads

end Telemetry

end Segmentation
