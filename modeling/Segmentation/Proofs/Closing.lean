import Segmentation.Proofs.Sightings
import Segmentation.Span.Guard

/-!
# Ends of spans

What a span of a custom tracer receives, where the tracer may panic on any call (`Telemetry.guarded_span_is_told`).  The
owner acts on the span through a guard and drops the guard at last.  The span receives its start and what is done with
it, up to its end or the first call on which the tracer panics, whichever comes first (`CustomTracer.bears`).  So it is
ended at most once, last of all, and it is ended if and only if there was no panic before: a span that is disabled by a
panic is never ended.  Nobody else sees anything of the panics (`Telemetry.others`).
-/

namespace Segmentation

open SpanEvent (starts trail heard isOver)

/-- What is done with its span by a guard on which calls are made, and which is dropped then. -/
def GuardCall.lifetime (span : Nat) (calls : List GuardCall) : List SpanEvent :=
  (calls ++ [GuardCall.finish]).flatMap (GuardCall.events span)

namespace CustomTracer

/-- A tracer that never panics. -/
def calm : CustomTracer := ⟨fun _ _ => false, fun _ => false⟩

/-- Of some calls for a span that has received others before, those that the span gets: when the tracer panics on one of
them the span is disabled. -/
def bears (tracer : CustomTracer) (received : List SpanCall) : List SpanCall → List SpanCall
  | [] => []
  | call :: calls => call :: if tracer.panics received call then [] else tracer.bears (received ++ [call]) calls

variable (tracer : CustomTracer)

/-- The last call comes through, or the tracer panics on one of those before it. -/
theorem bears_concat (received calls : List SpanCall) (last : SpanCall) :
    (tracer.bears received (calls ++ [last]) = calls ++ [last] ∧
      ∀ before call, before ++ [call] <+: calls → tracer.panics (received ++ before) call = false) ∨
    ∃ before call, tracer.bears received (calls ++ [last]) = before ++ [call] ∧ before ++ [call] <+: calls ∧
      tracer.panics (received ++ before) call = true := by
  induction calls generalizing received with
  | nil =>
    refine .inl ⟨by simp [bears], fun before call ahead => ?_⟩
    exact absurd (List.prefix_nil.1 ahead) (List.append_ne_nil_of_right_ne_nil _ (List.cons_ne_nil _ _))
  | cons first calls ih =>
    rw [List.cons_append, bears]
    cases panics : tracer.panics received first with
    | true => exact .inr ⟨[], first, rfl, by simp, by rw [List.append_nil, panics]⟩
    | false =>
      rcases ih (received ++ [first]) with ⟨all, quiet⟩ | ⟨before, call, here, ahead, panics⟩
      · refine .inl ⟨congrArg (first :: ·) all, fun before call ahead => ?_⟩
        cases before with
        | nil =>
          obtain rfl := (List.cons_prefix_cons.1 ahead).1
          rwa [List.append_nil]
        | cons c before =>
          obtain ⟨rfl, rest⟩ := List.cons_prefix_cons.1 ahead
          simpa using quiet before call rest
      · refine .inr ⟨first :: before, call, congrArg (first :: ·) here, List.cons_prefix_cons.2 ⟨rfl, ahead⟩, ?_⟩
        simpa using panics

/-- Where the last call is unlike the others it comes at most once, and nothing after it; and it comes if and only if the
tracer does not panic on any other one. -/
theorem bears_closing {calls : List SpanCall} {last : SpanCall} (unlike : last ∉ calls) :
    let told := tracer.bears [] (calls ++ [last])
    (told.count last = 1 ↔
      ∀ before call, before ++ [call] <+: told → call ≠ last → tracer.panics before call = false) ∧
    told.count last ≤ 1 ∧ ∀ before after, told = before ++ last :: after → after = [] := by
  intro told
  rcases tracer.bears_concat [] calls last with ⟨all, quiet⟩ | ⟨before, call, here, ahead, panics⟩
  · have all : told = calls ++ [last] := all
    have once : told.count last = 1 := by
      rw [all, List.count_append, List.count_eq_zero.2 unlike, List.count_singleton_self]
    refine ⟨iff_of_true once fun before call ahead other => ?_, Nat.le_of_eq once, fun before after split => ?_⟩
    · rw [all] at ahead
      rcases List.prefix_concat_iff.1 ahead with same | ahead
      · exact absurd (List.append_inj_right' same rfl) (by simpa using other)
      · exact quiet before call ahead
    · rcases List.eq_nil_or_concat after with none | ⟨rest, x, rfl⟩
      · exact none
      · rw [all, List.concat_eq_append, ← List.cons_append, ← List.append_assoc] at split
        have calls_eq : calls = before ++ last :: rest := List.append_inj_left' split rfl
        exact absurd (by simp [calls_eq]) unlike
  · have here : told = before ++ [call] := here
    have never : last ∉ told := fun mem => unlike (ahead.subset (here ▸ mem))
    have other : call ≠ last := fun same => never (by simp [here, same])
    refine ⟨iff_of_false ?_ fun quiet => ?_, ?_, fun before after split => absurd (by simp [split]) never⟩
    · rw [List.count_eq_zero.2 never]
      exact Nat.zero_ne_one
    · exact absurd panics (by simp [quiet before call (here ▸ List.prefix_rfl) other])
    · rw [List.count_eq_zero.2 never]
      exact Nat.zero_le 1

end CustomTracer

/-! ### One span -/

/-- What is known of a span when a call has come for it. -/
def SpanView.take (tracer : CustomTracer) (view : SpanView) (call : SpanCall) : SpanView :=
  if view.ended || view.disabled then view
  else { view with calls := view.calls ++ [call], disabled := tracer.panics view.calls call }

/-- What is known of a span when something was done with it. -/
def SpanView.hear (tracer : CustomTracer) (view : SpanView) (event : SpanEvent) : SpanView :=
  let taken := (event.call?.map (view.take tracer)).getD view
  { taken with ended := view.ended || event.isEnd }

/-- Over its life a span gets what its tracer bears. -/
theorem SpanView.calls_foldl_hear (tracer : CustomTracer) (view : SpanView) (events : List SpanEvent) :
    (events.foldl (hear tracer) view).calls =
      view.calls ++ if view.ended || view.disabled then [] else tracer.bears view.calls (heard events) := by
  induction events generalizing view with
  | nil => simp [heard, CustomTracer.bears]
  | cons event events ih =>
    rw [List.foldl_cons, ih, heard]
    cases closed : view.ended || view.disabled with
    | true =>
      have taken (call : SpanCall) : view.take tracer call = view := by rw [take, if_pos closed]
      have same : (event.call?.map (view.take tracer)).getD view = view := by
        cases event.call? with
        | none => rfl
        | some call => exact taken call
      have closed' : (view.ended || event.isEnd || view.disabled) = true := by
        rw [Bool.or_right_comm, closed, Bool.true_or]
      simp [hear, same, closed']
    | false =>
      obtain ⟨opened, enabled⟩ := Bool.or_eq_false_iff.1 closed
      cases silent : event.call? with
      | none =>
        have goes : event.isEnd = false := by
          cases event with
          | ended span => cases silent
          | _ => rfl
        simp [hear, silent, goes, opened, enabled]
      | some call =>
        have taken : view.take tracer call =
            { view with calls := view.calls ++ [call], disabled := tracer.panics view.calls call } := by
          rw [take, closed]
          rfl
        cases last : event.isEnd <;> cases panics : tracer.panics view.calls call <;>
          simp [hear, silent, taken, last, panics, opened, CustomTracer.bears]

/-- Only what a change makes of the element in its place matters. -/
private theorem modify_congr_at {α : Type} {l : List α} {index : Nat} {a : α} (here : l[index]? = some a) {f g : α → α}
    (same : f a = g a) : l.modify index f = l.modify index g := by
  refine List.ext_getElem? fun other => ?_
  rw [List.getElem?_modify, List.getElem?_modify]
  by_cases own : index = other
  · subst own
    simp [here, same]
  · simp [own]

namespace Telemetry

/-! ### What the telemetry has of every span -/

/-- There is one tracer, a custom one.  Its spans are numbered from one, every one has received what it is known to
have, and no context refers to a span of the subscriber's. -/
structure Attended (tracer : CustomTracer) (t : Telemetry) : Prop where
  tracer_eq : t.tracer = .custom tracer
  single : ∀ view ∈ t.spans, view.tracer = 0
  numbered : ∀ span view, t.spans[span]? = some view → view.number = span + 1
  told : ∀ span, received t.spanCalls (span + 1) = t.spans[span]?.elim [] (·.calls)
  unbacked : ∀ context ∈ t.contexts, context.backing = none

theorem attended_start (tracer : CustomTracer) (level : Option Level) (logger : Logger) (observer : Option ErrorObserver) :
    (start level (.custom tracer) logger observer).Attended tracer :=
  ⟨rfl, List.forall_mem_nil _, nofun, fun _ => rfl, List.forall_mem_nil _⟩

variable {tracer : CustomTracer} {t : Telemetry}

namespace Attended

variable (attended : t.Attended tracer)

include attended

theorem agrees {later : Telemetry} (agrees : t.Agrees later) : later.Attended tracer where
  tracer_eq := agrees.tracer.trans attended.tracer_eq
  single := agrees.spans ▸ attended.single
  numbered := agrees.spans ▸ attended.numbered
  told span := by rw [agrees.spanCalls, agrees.spans, attended.told]
  unbacked := agrees.contexts ▸ attended.unbacked

/-- One span receives some calls. -/
theorem change {later : Telemetry} (tracer_eq : later.tracer = t.tracer) (contexts : later.contexts = t.contexts)
    {span : Nat} {view : SpanView} (here : t.spans[span]? = some view) {f : SpanView → SpanView}
    (spans : later.spans = t.spans.modify span f) (tracer_keeps : (f view).tracer = view.tracer)
    (number_keeps : (f view).number = view.number) (calls : List SpanCall) (gets : (f view).calls = view.calls ++ calls)
    (spanCalls : later.spanCalls = t.spanCalls ++ calls.map (view.number, ·)) : later.Attended tracer := by
  have each {other : Nat} {v : SpanView} (there : later.spans[other]? = some v) :
      ∃ before, t.spans[other]? = some before ∧ v.tracer = before.tracer ∧ v.number = before.number := by
    rw [spans, List.getElem?_modify] at there
    obtain ⟨before, was, rfl⟩ := Option.map_eq_some_iff.1 there
    refine ⟨before, was, ?_⟩
    split
    · rename_i same
      obtain rfl : view = before := Option.some.inj (here.symm.trans (same ▸ was))
      exact ⟨tracer_keeps, number_keeps⟩
    · exact ⟨rfl, rfl⟩
  have number_eq := attended.numbered span view here
  refine ⟨tracer_eq.trans attended.tracer_eq, fun v mem => ?_, fun other v there => ?_, fun other => ?_,
    contexts ▸ attended.unbacked⟩
  · obtain ⟨other, there⟩ := List.mem_iff_getElem?.1 mem
    obtain ⟨before, was, tracers, -⟩ := each there
    exact tracers.trans (attended.single before (List.mem_of_getElem? was))
  · obtain ⟨before, was, -, numbers⟩ := each there
    exact numbers.trans (attended.numbered other before was)
  · rw [spanCalls, received_append, attended.told, spans, List.getElem?_modify]
    by_cases same : span = other
    · subst same
      have own : received (calls.map (view.number, ·)) (span + 1) = calls := by
        simp [received, number_eq, List.filterMap_map]
      simp [here, own, gets]
    · have others : received (calls.map (view.number, ·)) (other + 1) = [] := by
        simp [received, number_eq, same]
      cases t.spans[other]? <;> simp [others, same]

/-- A call comes for a span. -/
theorem reach {span : Nat} {view : SpanView} (here : t.spans[span]? = some view) (call : SpanCall) :
    (t.reach span call).Attended tracer ∧ (t.reach span call).contexts = t.contexts ∧
      (t.reach span call).spans = t.spans.modify span (·.take tracer call) := by
  cases closed : view.ended || view.disabled with
  | true =>
    have nothing : t.reach span call = t := by simp only [Telemetry.reach, here, closed, if_true]
    have unchanged : view.take tracer call = view := by rw [SpanView.take, if_pos closed]
    rw [nothing, modify_congr_at here (g := id) unchanged, List.modify_id]
    exact ⟨attended, rfl, rfl⟩
  | false =>
    have taken : view.take tracer call =
        { view with calls := view.calls ++ [call], disabled := tracer.panics view.calls call } := by
      rw [SpanView.take, closed]
      rfl
    have reached : ((t.sight (.spanCall view.number call)).modifySpan span (·.take tracer call)).Agrees
        (t.reach span call) := by
      have same : (t.sight (.spanCall view.number call)).modifySpan span (·.take tracer call) =
          (t.sight (.spanCall view.number call)).modifySpan span fun v =>
            { v with calls := v.calls ++ [call], disabled := tracer.panics view.calls call } :=
        congrArg (fun spans => { t.sight (.spanCall view.number call) with spans := spans }) (modify_congr_at here taken)
      simp only [Telemetry.reach, here, closed, Bool.false_eq_true, if_false, attended.tracer_eq, same]
      split
      · exact agrees_diagnose _ _ _ _
      · exact .refl _
    have handed : ((t.sight (.spanCall view.number call)).modifySpan span (·.take tracer call)).Attended tracer :=
      attended.change rfl rfl here rfl (by rw [taken]) (by rw [taken]) [call] (by rw [taken]) List.filterMap_append
    exact ⟨handed.agrees reached, reached.contexts, reached.spans⟩

/-- A span is ended. -/
theorem endSpan {span : Nat} {view : SpanView} (here : t.spans[span]? = some view) :
    (t.endSpan span).Attended tracer ∧ (t.endSpan span).contexts = t.contexts ∧
      (t.endSpan span).spans = t.spans.modify span (·.hear tracer (.ended span)) := by
  cases closed : view.ended with
  | true =>
    have nothing : t.endSpan span = t := by simp only [Telemetry.endSpan, here, closed, if_true]
    have unchanged : ∀ v : SpanView, v.ended = true → v.hear tracer (.ended span) = v := by
      rintro ⟨_, _, _, _, _, _, _⟩ ⟨⟩
      rfl
    rw [nothing, modify_congr_at here (g := id) (unchanged view closed), List.modify_id]
    exact ⟨attended, rfl, rfl⟩
  | false =>
    obtain ⟨reached, contexts, spans⟩ := attended.reach here .finish
    have ends : t.endSpan span = (t.reach span .finish).modifySpan span fun v => { v with ended := true } := by
      have tracer_eq : ((t.reach span .finish).modifySpan span fun v => { v with ended := true }).tracer =
          .custom tracer := reached.tracer_eq
      unfold Telemetry.endSpan
      simp only [here, closed, Bool.false_eq_true, if_false, tracer_eq]
    have there : (t.reach span .finish).spans[span]? = some (view.take tracer .finish) := by
      rw [spans, List.getElem?_modify, here]
      simp
    have spans_eq : (t.endSpan span).spans = t.spans.modify span (·.hear tracer (.ended span)) := by
      rw [ends, modifySpan, spans, List.modify_modify_eq]
      exact modify_congr_at here (by simp [SpanView.hear, SpanEvent.call?, SpanEvent.isEnd])
    refine ⟨?_, by rw [ends]; exact contexts, spans_eq⟩
    rw [ends]
    exact reached.change rfl rfl there rfl rfl rfl [] (List.append_nil _).symm (List.append_nil _).symm

/-- Something is done with a span. -/
theorem hear {span : Nat} {view : SpanView} (here : t.spans[span]? = some view) {event : SpanEvent}
    (acts : event.acts? = some span) : (t.seeSpan event).Attended tracer ∧
      (t.seeSpan event).contexts = t.contexts ∧
      (t.seeSpan event).spans = t.spans.modify span (·.hear tracer event) := by
  have lasting (call : SpanCall) {event : SpanEvent} (is : event.call? = some call) (goes : event.isEnd = false) :
      (·.take tracer call) = (SpanView.hear tracer · event) := by
    funext v
    have ended_eq : (v.take tracer call).ended = v.ended := by
      unfold SpanView.take
      split <;> rfl
    simp [SpanView.hear, is, goes, ← ended_eq]
  cases event with
  | started number name parent => cases acts
  | contextTaken span => cases acts
  | contextReleased context => cases acts
  | attributed other key value =>
    obtain rfl : other = span := Option.some.inj acts
    rw [← lasting (.attribute key value) rfl rfl]
    exact attended.reach here _
  | statusSet other status =>
    obtain rfl : other = span := Option.some.inj acts
    rw [← lasting (.status status) rfl rfl]
    exact attended.reach here _
  | ended other =>
    obtain rfl : other = span := Option.some.inj acts
    exact attended.endSpan here

/-- A span is started. -/
theorem startSpan (name : String) (parent : Option ContextRef) : (t.startSpan 0 name parent).Attended tracer ∧
    ∃ view number, (t.startSpan 0 name parent).spans = t.spans ++ [view] ∧ view.ended = false ∧
      view.calls = [.start name number] ∧ view.disabled = tracer.panics [] (.start name number) := by
  have number_eq : t.spans.countP (·.tracer = 0) = t.spans.length :=
    List.countP_eq_length.2 fun view mem => decide_eq_true (attended.single view mem)
  let call : SpanCall := .start name ((parent.map t.context).map (·.number))
  let view : SpanView := ⟨0, name, t.spans.length + 1, false, tracer.panics [] call, [call], 1⟩
  have started : Agrees ({ t with spans := t.spans ++ [view] }.sight (.spanCall (t.spans.length + 1) call))
      (t.startSpan 0 name parent) := by
    simp only [Telemetry.startSpan, attended.tracer_eq, number_eq]
    split
    · exact agrees_diagnose _ _ _ _
    · exact .refl _
  have spanCalls_eq : ({ t with spans := t.spans ++ [view] }.sight (.spanCall (t.spans.length + 1) call)).spanCalls =
      t.spanCalls ++ [(t.spans.length + 1, call)] := List.filterMap_append
  have new : ({ t with spans := t.spans ++ [view] }.sight (.spanCall (t.spans.length + 1) call)).Attended tracer := by
    refine ⟨attended.tracer_eq, fun v mem => ?_, fun span v here => ?_, fun span => ?_, attended.unbacked⟩
    · rcases List.mem_append.1 mem with mem | mem
      · exact attended.single v mem
      · rw [List.mem_singleton.1 mem]
    · have here : (t.spans ++ [view])[span]? = some v := here
      rcases Nat.lt_trichotomy span t.spans.length with old | last | beyond
      · rw [List.getElem?_append_left old] at here
        exact attended.numbered span v here
      · subst last
        rw [List.getElem?_concat_length] at here
        rw [← Option.some.inj here]
      · rw [List.getElem?_eq_none (by simp; omega)] at here
        cases here
    · rw [spanCalls_eq, received_append, attended.told]
      change _ = (t.spans ++ [view])[span]?.elim [] (·.calls)
      by_cases last : span = t.spans.length
      · subst last
        rw [received_self, List.getElem?_concat_length, List.getElem?_eq_none (Nat.le_refl _)]
        rfl
      · rw [received_other (by omega), List.append_nil]
        rcases Nat.lt_or_gt_of_ne last with old | beyond
        · rw [List.getElem?_append_left old]
        · rw [List.getElem?_eq_none (by omega), List.getElem?_eq_none (by simp; omega)]
  exact ⟨new.agrees started, view, _, started.spans, rfl, rfl, rfl⟩

/-- A context is taken. -/
theorem takeContext (span : Nat) : (t.takeContext span).Attended tracer ∧ (t.takeContext span).spans = t.spans := by
  have unbacked : (t.contextOf span).backing = none := by
    unfold contextOf
    cases t.spans[span]? with
    | none => rfl
    | some view =>
      rw [attended.tracer_eq]
      dsimp only
      split <;> rfl
  have taken : t.takeContext span = { t with contexts := t.contexts ++ [t.contextOf span] } := by
    unfold Telemetry.takeContext
    simp [unbacked]
  rw [taken]
  refine ⟨⟨attended.tracer_eq, attended.single, attended.numbered, attended.told, ?_⟩, rfl⟩
  exact List.forall_mem_append.2 ⟨attended.unbacked, List.forall_mem_singleton.2 unbacked⟩

/-- Something is done with a span, if there is one: it hears of it, and the others do not. -/
theorem act {event : SpanEvent} {own : Nat} (acts : event.acts? = some own) : (t.seeSpan event).Attended tracer ∧
    (t.seeSpan event).spans.length = t.spans.length ∧ ∀ span view, t.spans[span]? = some view →
      (t.seeSpan event).spans[span]? = some ((trail span [event]).foldl (SpanView.hear tracer) view) := by
  cases here : t.spans[own]? with
  | none =>
    have nothing : t.seeSpan event = t := by
      cases event with
      | started number name parent => cases acts
      | contextTaken span => cases acts
      | contextReleased context => cases acts
      | _ =>
        obtain rfl := Option.some.inj acts
        simp [Telemetry.seeSpan, Telemetry.reach, Telemetry.endSpan, here]
    rw [nothing]
    refine ⟨attended, rfl, fun span view there => ?_⟩
    rw [SpanEvent.trail_singleton_other acts (by rintro rfl; cases here.symm.trans there)]
    exact there
  | some own_view =>
    obtain ⟨later, -, spans⟩ := attended.hear here acts
    refine ⟨later, by rw [spans, List.length_modify], fun span view there => ?_⟩
    rw [spans, List.getElem?_modify, there]
    by_cases same : own = span
    · subst same
      simp [SpanEvent.trail_of_acts (List.forall_mem_singleton.2 acts)]
    · simp [SpanEvent.trail_singleton_other acts (Ne.symm same), same]

/-- One more event is seen. -/
theorem seeSpan {event : SpanEvent} (single : ∀ start ∈ starts [event], start.1 = 0) :
    (t.seeSpan event).Attended tracer ∧ (t.seeSpan event).spans.length = t.spans.length + (starts [event]).length ∧
      ∀ span view, t.spans[span]? = some view →
        (t.seeSpan event).spans[span]? = some ((trail span [event]).foldl (SpanView.hear tracer) view) := by
  cases acts : event.acts? with
  | some own =>
    rw [SpanEvent.starts_of_acts (List.forall_mem_singleton.2 acts), List.length_nil, Nat.add_zero]
    exact attended.act acts
  | none =>
    have nothing (span : Nat) : trail span [event] = [] :=
      SpanEvent.trail_eq_nil (List.forall_mem_singleton.2 (by simp [acts]))
    simp only [nothing, List.foldl_nil]
    cases event with
    | started number name parent =>
      obtain rfl : number = 0 := single (number, name, parent) (List.mem_singleton.2 rfl)
      obtain ⟨later, view, number, spans, -⟩ := attended.startSpan name parent
      refine ⟨later, ?_, fun span view here => ?_⟩
      · change (t.startSpan 0 name parent).spans.length = _
        rw [spans, List.length_append]
        rfl
      · change (t.startSpan 0 name parent).spans[span]? = _
        rw [spans, List.getElem?_append_left (List.getElem?_eq_some_iff.1 here).1, here]
    | contextTaken span =>
      obtain ⟨later, spans⟩ := attended.takeContext span
      refine ⟨later, congrArg List.length spans, fun other view here => ?_⟩
      change (t.takeContext span).spans[other]? = _
      rw [spans, here]
    | contextReleased context =>
      change (t.releaseContext context).Attended tracer ∧ (t.releaseContext context).spans.length = _ ∧
        ∀ span view, _ → (t.releaseContext context).spans[span]? = _
      rw [releaseContext_of_unbacked attended.unbacked]
      exact ⟨attended, rfl, fun _ _ here => here⟩
    | attributed span key value => cases acts
    | statusSet span status => cases acts
    | ended span => cases acts

/-- A journal is seen. -/
theorem seeAll {events : List Event} (single : ∀ start ∈ starts (spanEvents events), start.1 = 0) :
    (t.seeAll events).Attended tracer ∧
      (t.seeAll events).spans.length = t.spans.length + (starts (spanEvents events)).length ∧
      ∀ span view, t.spans[span]? = some view → (t.seeAll events).spans[span]? =
        some ((trail span (spanEvents events)).foldl (SpanView.hear tracer) view) := by
  induction events generalizing t with
  | nil => exact ⟨attended, rfl, fun _ _ here => here⟩
  | cons event events ih =>
    cases spoken : event.spanEvent? with
    | none =>
      have same : spanEvents (event :: events) = spanEvents events := List.filterMap_cons_none spoken
      have agrees := t.agrees_see spoken
      rw [same] at single ⊢
      have later := ih (attended.agrees agrees) single
      rw [agrees.spans] at later
      exact later
    | some e =>
      obtain rfl : event = .span e := by
        cases event with
        | span event => exact congrArg Event.span (Option.some.inj spoken)
        | _ => cases spoken
      have cons_eq : spanEvents (.span e :: events) = [e] ++ spanEvents events := rfl
      rw [cons_eq, SpanEvent.starts_append] at single
      obtain ⟨now, length, views⟩ := attended.seeSpan fun start mem => single start (List.mem_append_left _ mem)
      obtain ⟨later, lengths, views'⟩ := ih now fun start mem => single start (List.mem_append_right _ mem)
      refine ⟨later, ?_, fun span view here => ?_⟩
      · rw [cons_eq, SpanEvent.starts_append, List.length_append, ← Nat.add_assoc, ← length]
        exact lengths
      · rw [cons_eq, SpanEvent.trail_append, List.foldl_append]
        exact views' span _ (views span view here)

end Attended

end Telemetry

/-! ### What others see -/

/-- Whether it concerns the tracer alone: a span is called, or it is said that the tracer panicked. -/
def Sighting.ofTracer : Sighting → Bool
  | .spanCall _ _ => true
  | .diagnostic _ text _ =>
    text = "tracer span panicked, span disabled" || text = "tracer panicked while starting a span"
  | _ => false

namespace Telemetry

/-- What is seen by others than the tracer. -/
def others (t : Telemetry) : List Sighting := t.sightings.filter (!·.ofTracer)

/-- Others than the tracer have seen the same, and will. -/
structure Elsewhere (t later : Telemetry) : Prop where
  level : later.level = t.level
  logger : later.logger = t.logger
  observer : later.observer = t.observer
  others : later.others = t.others

namespace Elsewhere

variable {a b c : Telemetry}

theorem refl (a : Telemetry) : a.Elsewhere a := ⟨rfl, rfl, rfl, rfl⟩

theorem symm (ab : a.Elsewhere b) : b.Elsewhere a := ⟨ab.level.symm, ab.logger.symm, ab.observer.symm, ab.others.symm⟩

theorem trans (ab : a.Elsewhere b) (bc : b.Elsewhere c) : a.Elsewhere c :=
  ⟨bc.level.trans ab.level, bc.logger.trans ab.logger, bc.observer.trans ab.observer, bc.others.trans ab.others⟩

/-- Both see the same. -/
theorem sight (ab : a.Elsewhere b) (s : Sighting) : (a.sight s).Elsewhere (b.sight s) :=
  ⟨ab.level, ab.logger, ab.observer, by
    unfold Telemetry.others Telemetry.sight
    rw [List.filter_append, List.filter_append]
    exact congrArg (· ++ _) ab.others⟩

theorem diagnose (ab : a.Elsewhere b) (level : Level) (text : String) (fields : List (String × Json)) :
    (a.diagnose level text fields).Elsewhere (b.diagnose level text fields) := by
  have takes_eq : b.takes level = a.takes level := by rw [takes, takes, ab.level]
  unfold Telemetry.diagnose
  rw [takes_eq]
  split
  · exact ab.sight _
  · exact ab

/-- What concerns the tracer alone is nothing to others. -/
theorem sight_ofTracer (ab : a.Elsewhere b) {s : Sighting} (own : s.ofTracer = true) : a.Elsewhere (b.sight s) :=
  ⟨ab.level, ab.logger, ab.observer, by
    have nothing : [s].filter (!·.ofTracer) = [] := by simp [own]
    unfold Telemetry.others Telemetry.sight
    rw [List.filter_append, nothing, List.append_nil]
    exact ab.others⟩

theorem diagnose_ofTracer (ab : a.Elsewhere b) {level : Level} {text : String} {fields : List (String × Json)}
    (own : Sighting.ofTracer (.diagnostic level text fields) = true) : a.Elsewhere (b.diagnose level text fields) := by
  unfold Telemetry.diagnose
  split
  · exact ab.sight_ofTracer own
  · exact ab

/-- What is no matter of spans is seen by both in the same way. -/
theorem see (ab : a.Elsewhere b) {event : Event} (other : event.spanEvent? = none) :
    (a.see event).Elsewhere (b.see event) := by
  cases event with
  | span event => cases other
  | noticed notice => exact ab.diagnose _ _ _
  | errorReported error segment subject =>
    have logged : (a.log error segment subject).Elsewhere (b.log error segment subject) := by
      unfold log
      rw [ab.logger]
      cases a.logger with
      | silent => exact ab
      | reporting => exact ab.diagnose _ _ _
      | callback panics =>
        cases panics with
        | false => exact ab.sight _
        | true => exact (ab.sight _).diagnose _ _ _
    change ((a.log error segment subject).observe error segment subject).Elsewhere
      ((b.log error segment subject).observe error segment subject)
    unfold observe
    rw [logged.observer]
    cases (a.log error segment subject).observer with
    | none => exact logged
    | some observer =>
      dsimp only
      split
      · exact (logged.sight _).diagnose _ _ _
      · exact logged.sight _
  | _ => exact ab

end Elsewhere

variable {tracer : CustomTracer} {t : Telemetry}

theorem reach_elsewhere (tracer_eq : t.tracer = .custom tracer) (span : Nat) (call : SpanCall) :
    t.Elsewhere (t.reach span call) := by
  unfold reach
  cases t.spans[span]? with
  | none => exact .refl t
  | some view =>
    dsimp only
    split
    · exact .refl t
    · rw [tracer_eq]
      dsimp only
      have told : t.Elsewhere ((t.sight (.spanCall view.number call)).modifySpan span fun v =>
          { v with calls := v.calls ++ [call], disabled := tracer.panics view.calls call }) :=
        ((Elsewhere.refl t).sight_ofTracer rfl).trans ⟨rfl, rfl, rfl, rfl⟩
      split
      · exact told.diagnose_ofTracer rfl
      · exact told

theorem startSpan_elsewhere (tracer_eq : t.tracer = .custom tracer) (number : Nat) (name : String)
    (parent : Option ContextRef) : t.Elsewhere (t.startSpan number name parent) := by
  unfold startSpan
  rw [tracer_eq]
  dsimp only
  have told (view : SpanView) (number : Nat) (call : SpanCall) :
      t.Elsewhere (sight { t with spans := t.spans ++ [view] } (.spanCall number call)) := by
    have grown : t.Elsewhere { t with spans := t.spans ++ [view] } := ⟨rfl, rfl, rfl, rfl⟩
    exact grown.sight_ofTracer rfl
  rw [tracer_eq] at told
  split
  · exact (told _ _ _).diagnose_ofTracer rfl
  · exact told _ _ _

theorem Attended.endSpan_elsewhere (attended : t.Attended tracer) (span : Nat) : t.Elsewhere (t.endSpan span) := by
  unfold Telemetry.endSpan
  cases here : t.spans[span]? with
  | none => exact .refl t
  | some view =>
    dsimp only
    split
    · exact .refl t
    · have reached := attended.reach here .finish
      have custom : ((t.reach span .finish).modifySpan span fun v => { v with ended := true }).tracer =
          .custom tracer := reached.1.tracer_eq
      rw [custom]
      exact (reach_elsewhere attended.tracer_eq span .finish).trans ⟨rfl, rfl, rfl, rfl⟩

/-- What is done with spans concerns the tracer alone. -/
theorem Attended.seeSpan_elsewhere (attended : t.Attended tracer) (event : SpanEvent) : t.Elsewhere (t.seeSpan event) := by
  cases event with
  | started number name parent => exact startSpan_elsewhere attended.tracer_eq number name parent
  | attributed span key value => exact reach_elsewhere attended.tracer_eq span _
  | statusSet span status => exact reach_elsewhere attended.tracer_eq span _
  | contextTaken span =>
    change t.Elsewhere (t.takeContext span)
    unfold Telemetry.takeContext
    dsimp only
    split
    · exact ⟨rfl, rfl, rfl, rfl⟩
    · exact ⟨rfl, rfl, rfl, rfl⟩
  | contextReleased context =>
    change t.Elsewhere (t.releaseContext context)
    rw [releaseContext_of_unbacked attended.unbacked]
    exact .refl t
  | ended span => exact attended.endSpan_elsewhere span

/-- However many panics there are, others see the same. -/
theorem Attended.seeAll_elsewhere {tracer' : CustomTracer} {t' : Telemetry} (attended : t.Attended tracer)
    (attended' : t'.Attended tracer') (same : t.Elsewhere t') {events : List Event}
    (single : ∀ start ∈ starts (spanEvents events), start.1 = 0) : (t.seeAll events).Elsewhere (t'.seeAll events) := by
  induction events generalizing t t' with
  | nil => exact same
  | cons event events ih =>
    have parts : ∀ start ∈ starts (spanEvents [event]) ++ starts (spanEvents events), start.1 = 0 := by
      rw [← SpanEvent.starts_append, ← spanEvents_append]
      exact single
    have now (start) (mem : start ∈ starts (spanEvents [event])) : start.1 = 0 := parts start (List.mem_append_left _ mem)
    have step : (t.see event).Elsewhere (t'.see event) := by
      cases spoken : event.spanEvent? with
      | none => exact same.see spoken
      | some e =>
        cases event with
        | span event =>
          exact ((attended.seeSpan_elsewhere event).symm.trans same).trans (attended'.seeSpan_elsewhere event)
        | _ => cases spoken
    exact ih (attended.seeAll now).1 (attended'.seeAll now).1 step fun start mem => parts start (List.mem_append_right _ mem)

end Telemetry

/-! ### The life of a guard -/

/-- The life of a guard ends its span. -/
theorem GuardCall.heard_lifetime (span : Nat) (calls : List GuardCall) :
    ∃ told, heard (lifetime span calls) = told ++ [.finish] ∧ SpanCall.finish ∉ told := by
  induction calls with
  | nil => exact ⟨[], rfl, List.not_mem_nil⟩
  | cons call calls ih =>
    obtain ⟨told, all, none⟩ := ih
    have cons_eq : lifetime span (call :: calls) = call.events span ++ lifetime span calls := rfl
    rw [cons_eq]
    rcases call with ⟨key, value⟩ | status | error | _
    · exact ⟨.attribute key value :: told, congrArg (_ :: ·) all, by simp [none]⟩
    · exact ⟨.status status :: told, congrArg (_ :: ·) all, by simp [none]⟩
    · refine ⟨(SpanEvent.ofError span error).flatMap (·.call?.toList) ++ told, ?_, ?_⟩
      · change (SpanEvent.ofError span error).flatMap (·.call?.toList) ++ heard (lifetime span calls) = _
        rw [all, List.append_assoc]
      · simp [SpanEvent.ofError, SpanEvent.call?, none]
    · exact ⟨[], rfl, List.not_mem_nil⟩

namespace Telemetry

/-- A span that is owned by a guard is told of its start and of what is done with the guard, until it is ended or the
tracer panics: it is ended at most once, it is told nothing after its end, and it is ended if and only if the tracer did
not panic on another of its calls.  Whether the tracer panics is nothing to others. -/
theorem guarded_span_is_told (tracer : CustomTracer) (level : Option Level) (logger : Logger)
    (observer : Option ErrorObserver) (earlier later : List Event) (name : String) (parent : Option ContextRef)
    (calls : List GuardCall) (single : ∀ start ∈ starts (spanEvents (earlier ++ later)), start.1 = 0)
    (owned : trail (starts (spanEvents earlier)).length (spanEvents later) =
      GuardCall.lifetime (starts (spanEvents earlier)).length calls) :
    let span := (starts (spanEvents earlier)).length
    let seen (tracer : CustomTracer) :=
      (start level (.custom tracer) logger observer).seeAll (earlier ++ .span (.started 0 name parent) :: later)
    let told := received (seen tracer).spanCalls (span + 1)
    (∃ number, told = tracer.bears [] (.start name number :: heard (GuardCall.lifetime span calls))) ∧
    (told.count .finish = 1 ↔
      ∀ before call, before ++ [call] <+: told → call ≠ .finish → tracer.panics before call = false) ∧
    told.count .finish ≤ 1 ∧ (∀ before after, told = before ++ .finish :: after → after = []) ∧
    (seen tracer).others = (seen .calm).others := by
  intro span seen told
  rw [spanEvents_append, SpanEvent.starts_append] at single
  have single_earlier (start) (mem : start ∈ starts (spanEvents earlier)) : start.1 = 0 :=
    single start (List.mem_append_left _ mem)
  have single_later (start) (mem : start ∈ starts (spanEvents later)) : start.1 = 0 :=
    single start (List.mem_append_right _ mem)
  have split (t : Telemetry) : t.seeAll (earlier ++ .span (.started 0 name parent) :: later) =
      ((t.seeAll earlier).startSpan 0 name parent).seeAll later := List.foldl_append
  obtain ⟨before, length, -⟩ := (attended_start tracer level logger observer).seeAll single_earlier
  have length : ((start level (.custom tracer) logger observer).seeAll earlier).spans.length = span :=
    length.trans (Nat.zero_add _)
  obtain ⟨begun, view, number, spans, opened, first, disabled⟩ := before.startSpan name parent
  obtain ⟨after, -, views⟩ := begun.seeAll single_later
  have here : (((start level (.custom tracer) logger observer).seeAll earlier).startSpan 0 name parent).spans[span]? =
      some view := by
    rw [spans, ← length, List.getElem?_concat_length]
  have told_eq : told = tracer.bears [] (.start name number :: heard (GuardCall.lifetime span calls)) := by
    change received (seen tracer).spanCalls (span + 1) = _
    have last : (seen tracer).spans[span]? = some ((GuardCall.lifetime span calls).foldl (SpanView.hear tracer) view) := by
      change ((start level (.custom tracer) logger observer).seeAll _).spans[span]? = _
      rw [split, views span view here, owned]
    have attended : (seen tracer).Attended tracer := by
      change ((start level (.custom tracer) logger observer).seeAll _).Attended tracer
      rw [split]
      exact after
    rw [attended.told, last]
    change ((GuardCall.lifetime span calls).foldl (SpanView.hear tracer) view).calls = _
    rw [SpanView.calls_foldl_hear, opened, disabled, first]
    rfl
  obtain ⟨others, all, unlike⟩ := GuardCall.heard_lifetime span calls
  have unlike : SpanCall.finish ∉ .start name number :: others := by simp [unlike]
  have closing := tracer.bears_closing unlike
  rw [List.cons_append, ← all, ← told_eq] at closing
  refine ⟨⟨number, told_eq⟩, closing.1, closing.2.1, closing.2.2, ?_⟩
  have single_all : ∀ start ∈ starts (spanEvents (earlier ++ .span (.started 0 name parent) :: later)), start.1 = 0 := by
    have cons_eq : spanEvents (.span (.started 0 name parent) :: later) = [.started 0 name parent] ++ spanEvents later := rfl
    rw [spanEvents_append, cons_eq, SpanEvent.starts_append, SpanEvent.starts_append]
    exact List.forall_mem_append.2 ⟨single_earlier, List.forall_mem_cons.2 ⟨rfl, single_later⟩⟩
  exact ((attended_start tracer level logger observer).seeAll_elsewhere (attended_start .calm level logger observer)
    ⟨rfl, rfl, rfl, rfl⟩ single_all).others.symm

/-- A tracer that panics on attributes of spans without parents. -/
def fussy : CustomTracer where
  panics
    | [.start _ none], .attribute _ _ => true
    | _, _ => false
  panicsOnContext _ := false

/-- An evaluator's span that is ended early, and the span of its segment, which is disabled. -/
theorem spans_of_fussy_tracer_are_told :
    let earlier : List Event := [.span (.started 0 "segment:a" none), .span (.contextTaken 0)]
    let later : List Event :=
      [.span (.attributed 1 "matcher.args" (.string "[1]")), .span (.attributed 0 "segment.name" (.string "a")),
        .span (.ended 1), .span (.attributed 1 "late" (.bool true)), .span (.ended 0), .span (.ended 1)]
    let calls : List GuardCall := [.attribute "matcher.args" (.string "[1]"), .finish, .attribute "late" (.bool true)]
    let seen (tracer : CustomTracer) := (start (some .warn) (.custom tracer) .silent none).seeAll
      (earlier ++ .span (.started 0 "matcher:m" (some (.taken 0))) :: later)
    trail 1 (spanEvents later) = GuardCall.lifetime 1 calls ∧
      received (seen fussy).spanCalls 1 = [.start "segment:a" none, .attribute "segment.name" (.string "a")] ∧
      received (seen fussy).spanCalls 2 =
        [.start "matcher:m" (some 1), .attribute "matcher.args" (.string "[1]"), .finish] ∧
      (received (seen fussy).spanCalls 2).count .finish ≤ 1 ∧ (seen fussy).others = (seen .calm).others := by
  intro earlier later calls seen
  have owned : trail 1 (spanEvents later) = GuardCall.lifetime 1 calls := by decide
  obtain ⟨-, -, once, -, others⟩ := guarded_span_is_told fussy (some .warn) .silent none earlier later "matcher:m"
    (some (.taken 0)) calls (by decide) owned
  exact ⟨owned, by decide, by decide, once, others⟩

/-- The span that was disabled is dropped, and was never ended. -/
theorem disabled_span_is_never_ended :
    let seen := (start none (.custom fussy) .silent none).seeAll
      (.span (.started 0 "a" none) :: (GuardCall.lifetime 0 [.attribute "k" (.bool true)]).map .span)
    received seen.spanCalls 1 = [.start "a" none, .attribute "k" (.bool true)] ∧
      (received seen.spanCalls 1).count .finish = 0 := by
  decide

end Telemetry

end Segmentation
