import Segmentation.Proofs.Subscriber

/-!
# What the built-in tracer makes of spans

As long as every context is released before its span ends (`SpanEvent.Allows`), a subscriber's span closes where the
span ends, and not before: its handles are accounted for (`SpanView.Balanced`).  So the built-in tracer makes the same
of all that is done with spans as a custom tracer that never panics: what that one is told, translated call by call
(`Telemetry.Renders.seeAll`).
-/

namespace Segmentation

open SpanEvent (Orderly starts takens trail isOver hasEnded taken released lessorIn callsTold)

namespace Telemetry

/-! ### Reading on -/

/-- What the built-in tracer has made of events that were allowed: every span that was started since has an account of
its handles, every context that was taken since is backed by its span, and nothing was done with spans to come. -/
structure Renders (base : Telemetry) (lessor : Nat → Option Nat) (done : List SpanEvent) (u : Telemetry) : Prop where
  builtIn : u.tracer = .builtIn
  debug : u.takes .debug = true
  spans : u.spans.length = base.spans.length + (starts done).length
  count : u.spans.countP (·.tracer = 0) = base.spans.countP (·.tracer = 0) + (starts done).length
  contexts : u.contexts.length = base.contexts.length + (takens done).length
  views : ∀ span, base.spans.length ≤ span → span < u.spans.length →
    ∃ view, u.spans[span]? = some view ∧ view.Balanced lessor (base.numberOf span) span done
  backed : ∀ context, base.contexts.length ≤ context → context < u.contexts.length → ∃ span,
    lessor context = some span ∧ base.spans.length ≤ span ∧ span < u.spans.length ∧
      (u.contexts.getD context .blank).backing = some span
  unborn : ∀ span, u.spans.length ≤ span →
    hasEnded span done = false ∧ taken span done = 0 ∧ released lessor span done = 0

namespace Renders

variable {base u : Telemetry} {lessor : Nat → Option Nat} {done : List SpanEvent}

theorem start (builtIn : base.tracer = .builtIn) (debug : base.takes .debug = true) : Renders base lessor [] base where
  builtIn := builtIn
  debug := debug
  spans := rfl
  count := rfl
  contexts := rfl
  views _ since lt := absurd lt (Nat.not_lt.2 since)
  backed _ since lt := absurd lt (Nat.not_lt.2 since)
  unborn _ _ := ⟨rfl, rfl, rfl⟩

/-- An event that is no matter of the handles of a span. -/
def Leaves (lessor : Nat → Option Nat) (event : SpanEvent) (span : Nat) : Prop :=
  hasEnded span [event] = false ∧ taken span [event] = 0 ∧ released lessor span [event] = 0

theorem leaves {event : SpanEvent} {span : Nat} (lasting : event ≠ .ended span) (untaken : event ≠ .contextTaken span)
    (unreleased : ∀ context, event = .contextReleased context → lessor context ≠ some span) :
    Leaves lessor event span := by
  refine ⟨?_, ?_, ?_⟩
  · refine Bool.eq_false_iff.2 fun is => lasting ?_
    exact (List.mem_singleton.1 ((SpanEvent.hasEnded_iff span [event]).1 is)).symm
  · refine List.count_eq_zero.2 fun mem => untaken ?_
    cases event with
    | contextTaken other => rw [List.mem_singleton.1 mem]
    | _ => cases mem
  · refine List.countP_eq_zero.2 fun other mem is => ?_
    obtain rfl := List.mem_singleton.1 mem
    cases other with
    | contextReleased context => exact unreleased context rfl (of_decide_eq_true is)
    | _ => cases of_decide_eq_true is

variable (renders : Renders base lessor done u)

include renders

/-- What is no matter of spans changes nothing. -/
theorem agrees {later : Telemetry} (agrees : u.Agrees later) (level_eq : later.level = u.level) :
    Renders base lessor done later := by
  refine ⟨agrees.tracer.trans renders.builtIn, ?_, ?_, ?_, ?_, ?_, ?_, ?_⟩
  · unfold takes
    rw [level_eq]
    exact renders.debug
  · rw [agrees.spans]
    exact renders.spans
  · rw [agrees.spans]
    exact renders.count
  · rw [agrees.contexts]
    exact renders.contexts
  · rw [agrees.spans]
    exact renders.views
  · rw [agrees.contexts, agrees.spans]
    exact renders.backed
  · rw [agrees.spans]
    exact renders.unborn

/-- An event that is no matter of the handles of a span to come. -/
theorem unborn_concat {event : SpanEvent} {span : Nat} (beyond : u.spans.length ≤ span)
    (leaves : Leaves lessor event span) : hasEnded span (done ++ [event]) = false ∧ taken span (done ++ [event]) = 0 ∧
      released lessor span (done ++ [event]) = 0 := by
  obtain ⟨open_yet, untaken, unreleased⟩ := leaves
  obtain ⟨open_before, untaken_before, unreleased_before⟩ := renders.unborn span beyond
  rw [SpanEvent.hasEnded_append, SpanEvent.taken_append, SpanEvent.released_append, open_yet, untaken, unreleased,
    open_before, untaken_before, unreleased_before]
  exact ⟨rfl, rfl, rfl⟩

/-- Something is done with one span, and perhaps a context is added. -/
theorem modify {event : SpanEvent} (no_start : starts [event] = []) {span : Nat} (old : span < u.spans.length)
    {f : SpanView → SpanView} (keeps : ∀ view, (f view).tracer = view.tracer)
    (own : ∀ view : SpanView, view.Balanced lessor (base.numberOf span) span done →
      (f view).Balanced lessor (base.numberOf span) span (done ++ [event]))
    (others : ∀ other ≠ span, Leaves lessor event other) {later : Telemetry} (builtIn : later.tracer = u.tracer)
    (level_eq : later.level = u.level) (spans_eq : later.spans = u.spans.modify span f)
    (contexts : later.contexts.length = u.contexts.length + (takens [event]).length)
    (backed : ∀ context, base.contexts.length ≤ context → context < later.contexts.length → ∃ span,
      lessor context = some span ∧ base.spans.length ≤ span ∧ span < u.spans.length ∧
        (later.contexts.getD context .blank).backing = some span) :
    Renders base lessor (done ++ [event]) later := by
  have length_eq : later.spans.length = u.spans.length := by rw [spans_eq, List.length_modify]
  have starts_eq : starts (done ++ [event]) = starts done := by
    rw [SpanEvent.starts_append, no_start, List.append_nil]
  refine ⟨builtIn.trans renders.builtIn, ?_, ?_, ?_, ?_, fun other since lt => ?_, ?_, fun other beyond => ?_⟩
  · unfold takes
    rw [level_eq]
    exact renders.debug
  · rw [length_eq, starts_eq]
    exact renders.spans
  · rw [countP_tracer, spans_eq, map_modify_of_keeps keeps, ← countP_tracer, starts_eq]
    exact renders.count
  · rw [contexts, renders.contexts, SpanEvent.takens_append, List.length_append, Nat.add_assoc]
  · rw [length_eq] at lt
    obtain ⟨view, here, balanced⟩ := renders.views other since lt
    rw [spans_eq, List.getElem?_modify, here]
    by_cases same : span = other
    · subst same
      exact ⟨f view, by simp, own view balanced⟩
    · obtain ⟨open_yet, untaken, unreleased⟩ := others other (Ne.symm same)
      exact ⟨view, by simp [same], balanced.other open_yet untaken unreleased⟩
  · rw [length_eq]
    exact backed
  · rw [length_eq] at beyond
    exact renders.unborn_concat beyond (others other (by omega))

/-- The parent of a span is the subscriber's span behind the context that is given. -/
theorem parent_eq {parent : Option ContextRef} (parents : ∀ ref, parent = some ref →
      ∃ context span, ref = .taken context ∧ lessor context = some span)
    (taken : ∀ context, parent = some (.taken context) →
      base.contexts.length ≤ context ∧ context < u.contexts.length) :
    (((parent.map u.context).bind (·.backing)).bind fun span => u.spans[span]?.map (·.number)) =
      parent.map (SpanEvent.parentNumber lessor base.numberOf) := by
  cases is : parent with
  | none => rfl
  | some ref =>
    obtain ⟨context, span, rfl, lent⟩ := parents ref is
    obtain ⟨since, lt⟩ := taken context is
    obtain ⟨other, lent', since', old, backing⟩ := renders.backed context since lt
    obtain rfl := Option.some.inj (lent.symm.trans lent')
    obtain ⟨view, here, balanced⟩ := renders.views span since' old
    have backing : (u.context (.taken context)).backing = some span := backing
    simp [backing, here, balanced.number_eq, SpanEvent.parentNumber, lent]

/-- A span is started. -/
theorem startSpan (name : String) {parent : Option ContextRef} (parents : ∀ ref, parent = some ref →
      ∃ context span, ref = .taken context ∧ lessor context = some span)
    (taken : ∀ context, parent = some (.taken context) →
      base.contexts.length ≤ context ∧ context < u.contexts.length) :
    Renders base lessor (done ++ [.started 0 name parent]) (u.startSpan 0 name parent) ∧
      (u.startSpan 0 name parent).traces = u.traces ++
        (callsTold lessor base.numberOf base.spans.length done (.started 0 name parent)).flatMap SpanCall.rendered := by
  have number_eq : u.spans.countP (·.tracer = 0) + 1 = base.numberOf u.spans.length := by
    rw [renders.count, numberOf, renders.spans]
    omega
  let opened : Telemetry :=
    { u with spans := u.spans ++ [⟨0, name, base.numberOf u.spans.length, false, false, [], 1⟩] }
  have started : u.startSpan 0 name parent = opened.receive (base.numberOf u.spans.length)
      [.opened (parent.map (SpanEvent.parentNumber lessor base.numberOf)) [("otel.name", .str name)]] := by
    rw [← renders.parent_eq parents taken, startSpan_builtIn renders.debug renders.builtIn, number_eq]
  have starts_eq : starts (done ++ [.started 0 name parent]) = starts done ++ [(0, name, parent)] :=
    SpanEvent.starts_append ..
  have leaves (span : Nat) : Leaves lessor (.started 0 name parent) span :=
    leaves (by simp) (by simp) (by simp)
  rw [started]
  refine ⟨⟨renders.builtIn, renders.debug, ?_, ?_, ?_, fun span since lt => ?_, fun context since lt => ?_,
    fun span beyond => ?_⟩, ?_⟩
  · change (u.spans ++ [_]).length = _
    rw [List.length_append, renders.spans, starts_eq, List.length_append]
    rfl
  · change (u.spans ++ [_]).countP _ = _
    rw [List.countP_append, renders.count, starts_eq, List.length_append]
    rfl
  · rw [SpanEvent.takens_append]
    exact renders.contexts.trans (by rw [List.length_append]; rfl)
  · change span < (u.spans ++ [_]).length at lt
    change ∃ view, (u.spans ++ [_])[span]? = some view ∧ _
    rw [List.length_append, List.length_singleton] at lt
    -- the new span has one handle, and the others have as many as before
    by_cases last : span = u.spans.length
    · subst last
      obtain ⟨open_yet, untaken, unreleased⟩ := renders.unborn_concat (Nat.le_refl _) (leaves u.spans.length)
      refine ⟨_, List.getElem?_concat_length, rfl, ?_, rfl, ?_⟩
      · rw [open_yet]
      · rw [open_yet, untaken, unreleased]
        rfl
    · obtain ⟨open_yet, untaken, unreleased⟩ := leaves span
      obtain ⟨view, here, balanced⟩ := renders.views span since (by omega)
      refine ⟨view, ?_, balanced.other open_yet untaken unreleased⟩
      rw [List.getElem?_append_left (by omega), here]
  · obtain ⟨span, lent, since', old, backing⟩ := renders.backed context since lt
    refine ⟨span, lent, since', ?_, backing⟩
    change span < (u.spans ++ [_]).length
    rw [List.length_append]
    exact Nat.lt_add_right _ old
  · change (u.spans ++ [_]).length ≤ span at beyond
    rw [List.length_append, List.length_singleton] at beyond
    exact renders.unborn_concat (by omega) (leaves span)
  · rw [traces_receive, callsTold, ← renders.spans]
    simp [SpanCall.rendered, SpanCall.entries, opened, traces]

/-- The subscriber is told of an attribute or a status, unless the span has ended. -/
theorem reach {span : Nat} (since : base.spans.length ≤ span) (old : span < u.spans.length) {event : SpanEvent}
    {call : SpanCall} (is : (∃ key value, event = .attributed span key value ∧ call = .attribute key value) ∨
      ∃ status, event = .statusSet span status ∧ call = .status status) :
    Renders base lessor (done ++ [event]) (u.reach span call) ∧
      (u.reach span call).traces = u.traces ++
        (callsTold lessor base.numberOf base.spans.length done event).flatMap SpanCall.rendered := by
  obtain ⟨view, here, balanced⟩ := renders.views span since old
  have traced : u.traceCall view call = u.receive view.number call.entries := by
    rcases is with ⟨key, value, rfl, rfl⟩ | ⟨status, rfl, rfl⟩
    · exact traceCall_attribute renders.debug view key value
    · exact traceCall_status renders.debug view status
  have reached : u.reach span call =
      u.receive (base.numberOf span) (if hasEnded span done then [] else call.entries) := by
    rw [reach_builtIn renders.builtIn here balanced.usable, balanced.ended_eq, ← balanced.number_eq]
    split
    · simp [receive]
    · exact traced
  have leaves (other : Nat) : Leaves lessor event other := by
    rcases is with ⟨key, value, rfl, rfl⟩ | ⟨status, rfl, rfl⟩ <;> exact leaves (by simp) (by simp) (by simp)
  obtain ⟨no_start, no_taken, told_eq⟩ : starts [event] = [] ∧ takens [event] = [] ∧
      callsTold lessor base.numberOf base.spans.length done event =
        if hasEnded span done then [] else [(base.numberOf span, call)] := by
    rcases is with ⟨key, value, rfl, rfl⟩ | ⟨status, rfl, rfl⟩ <;> exact ⟨rfl, rfl, rfl⟩
  have own (view : SpanView) (balanced : view.Balanced lessor (base.numberOf span) span done) :
      view.Balanced lessor (base.numberOf span) span (done ++ [event]) := by
    obtain ⟨open_yet, untaken, unreleased⟩ := leaves span
    exact balanced.other open_yet untaken unreleased
  rw [reached]
  refine ⟨renders.modify no_start old (f := id) (fun _ => rfl) own (fun other _ => leaves other) rfl rfl
    (List.modify_id _ _).symm (by rw [no_taken]; rfl) renders.backed, ?_⟩
  rw [traces_receive, told_eq]
  split
  · rfl
  · simp [SpanCall.rendered]

/-- A context that is taken from a span that has not ended is one more handle. -/
theorem takeContext {span : Nat} (since : base.spans.length ≤ span) (old : span < u.spans.length)
    (open_yet : hasEnded span done = false) (lent : lessor u.contexts.length = some span) :
    Renders base lessor (done ++ [.contextTaken span]) (u.takeContext span) ∧
      (u.takeContext span).traces = u.traces := by
  obtain ⟨view, here, balanced⟩ := renders.views span since old
  let added : ContextView := ⟨view.name, view.number, some span⟩
  rw [takeContext_builtIn renders.builtIn here (balanced.ended_eq.trans open_yet)]
  have still : hasEnded span [.contextTaken span] = false :=
    Bool.eq_false_iff.2 fun is => nomatch (SpanEvent.hasEnded_iff span _).1 is
  have one : taken span [.contextTaken span] = 1 := List.count_singleton_self
  have others (other : Nat) (differs : other ≠ span) : Leaves lessor (.contextTaken span) other := by
    refine leaves (by simp) ?_ (by simp)
    rintro same
    exact differs (SpanEvent.contextTaken.inj same).symm
  refine ⟨renders.modify rfl old (f := fun v => { v with handles := v.handles + 1 }) (fun _ => rfl) ?_ others rfl rfl
    rfl ?_ fun context since' lt => ?_, rfl⟩
  · intro view balanced
    have unreleased : released lessor span [.contextTaken span] = 0 := rfl
    have handles_eq := balanced.handles_eq
    refine .concat balanced.number_eq balanced.usable ?_ ?_
    · rw [still, Bool.or_false]
      exact balanced.ended_eq
    · rw [still, one, unreleased, Bool.or_false]
      dsimp only
      omega
  · rw [List.length_append]
    rfl
  · change ∃ lender, lessor context = some lender ∧ base.spans.length ≤ lender ∧ lender < u.spans.length ∧
      ((u.contexts ++ [added]).getD context .blank).backing = some lender
    change context < (u.contexts ++ [added]).length at lt
    rw [List.length_append, List.length_singleton] at lt
    by_cases last : context = u.contexts.length
    · subst last
      refine ⟨span, lent, since, old, ?_⟩
      rw [List.getD_eq_getElem?_getD, List.getElem?_concat_length]
      rfl
    · obtain ⟨lender, lent, above, below, backing⟩ := renders.backed context since' (by omega)
      refine ⟨lender, lent, above, below, ?_⟩
      rwa [List.getD_eq_getElem?_getD, List.getElem?_append_left (by omega), ← List.getD_eq_getElem?_getD]

/-- A context that is released before its span ends was not the last handle. -/
theorem releaseContext {context span : Nat} (since : base.contexts.length ≤ context) (lt : context < u.contexts.length)
    (lent : lessor context = some span) (open_yet : hasEnded span done = false)
    (few : released lessor span done < taken span done) :
    Renders base lessor (done ++ [.contextReleased context]) (u.releaseContext context) ∧
      (u.releaseContext context).traces = u.traces := by
  obtain ⟨lender, lent', since', old, backing⟩ := renders.backed context since lt
  obtain rfl := Option.some.inj (lent.symm.trans lent')
  obtain ⟨view, here, balanced⟩ := renders.views span since' old
  have more : view.handles ≠ 1 := by
    have handles_eq := balanced.handles_eq
    rw [open_yet, Bool.toNat_false] at handles_eq
    omega
  have dropped : u.releaseContext context = u.modifySpan span fun v => { v with handles := v.handles - 1 } := by
    unfold Telemetry.releaseContext
    rw [backing]
    dsimp only
    rw [dropHandle_eq renders.debug here]
    exact if_neg more
  have still : hasEnded span [.contextReleased context] = false :=
    Bool.eq_false_iff.2 fun is => nomatch (SpanEvent.hasEnded_iff span _).1 is
  have untaken : taken span [.contextReleased context] = 0 := rfl
  have one : released lessor span [.contextReleased context] = 1 := by
    simp [released, SpanEvent.released?, lent]
  have others (other : Nat) (differs : other ≠ span) : Leaves lessor (.contextReleased context) other := by
    refine leaves (by simp) (by simp) fun released same => ?_
    obtain rfl := SpanEvent.contextReleased.inj same
    rw [lent]
    exact fun is => differs (Option.some.inj is).symm
  rw [dropped]
  refine ⟨renders.modify rfl old (f := fun v => { v with handles := v.handles - 1 }) (fun _ => rfl)
    (fun view balanced => ?_) others rfl rfl rfl rfl renders.backed, rfl⟩
  have handles_eq := balanced.handles_eq
  rw [open_yet, Bool.toNat_false] at handles_eq
  refine .concat balanced.number_eq balanced.usable ?_ ?_
  · rw [still, Bool.or_false]
    exact balanced.ended_eq
  · rw [still, one, untaken, open_yet, Bool.or_false, Bool.toNat_false]
    dsimp only
    omega

/-- A span closes when it ends, if all contexts of it were released. -/
theorem endSpan {span : Nat} (since : base.spans.length ≤ span) (old : span < u.spans.length)
    (all : released lessor span done = taken span done) :
    Renders base lessor (done ++ [.ended span]) (u.endSpan span) ∧
      (u.endSpan span).traces = u.traces ++
        (callsTold lessor base.numberOf base.spans.length done (.ended span)).flatMap SpanCall.rendered := by
  obtain ⟨view, here, balanced⟩ := renders.views span since old
  have ends : hasEnded span [.ended span] = true := (SpanEvent.hasEnded_iff span _).2 (List.mem_singleton.2 rfl)
  have untaken : taken span [.ended span] = 0 := rfl
  have unreleased : released lessor span [.ended span] = 0 := rfl
  have others (other : Nat) (differs : other ≠ span) : Leaves lessor (.ended span) other :=
    leaves (fun same => differs (SpanEvent.ended.inj same).symm) (by simp) (by simp)
  cases ended : hasEnded span done with
  | true =>
    have still : u.endSpan span = u := by
      unfold Telemetry.endSpan
      rw [here]
      exact if_pos (balanced.ended_eq.trans ended)
    have nothing : callsTold lessor base.numberOf base.spans.length done (.ended span) = [] := if_pos ended
    rw [still, nothing]
    refine ⟨renders.modify rfl old (f := id) (fun _ => rfl) (fun view balanced => ?_) others rfl rfl
      (List.modify_id _ _).symm rfl renders.backed, (List.append_nil _).symm⟩
    have handles_eq := balanced.handles_eq
    refine .concat balanced.number_eq balanced.usable ?_ ?_
    · rw [ended, Bool.true_or]
      exact balanced.ended_eq.trans ended
    · rw [untaken, unreleased, ended, Bool.true_or]
      rwa [ended] at handles_eq
  | false =>
    -- as many contexts were released as were taken, so the last handle is the one that ends
    have last (view : SpanView) (balanced : view.Balanced lessor (base.numberOf span) span done) :
        view.handles = 1 := by
      have handles_eq := balanced.handles_eq
      rw [ended, Bool.toNat_false, all] at handles_eq
      omega
    have finish : callsTold lessor base.numberOf base.spans.length done (.ended span) =
        [(base.numberOf span, .finish)] :=
      if_neg (Bool.eq_false_iff.1 ended)
    rw [endSpan_builtIn renders.debug renders.builtIn here balanced.usable (balanced.ended_eq.trans ended)
      (last view balanced), finish]
    refine ⟨renders.modify rfl old (f := fun v => { v with ended := true, handles := v.handles - 1 }) (fun _ => rfl)
      (fun view balanced => ?_) others rfl rfl rfl rfl renders.backed, ?_⟩
    · have one := last view balanced
      refine .concat balanced.number_eq balanced.usable ?_ ?_
      · rw [ends, Bool.or_true]
      · rw [untaken, unreleased, ends, Bool.or_true, Bool.toNat_true, all]
        dsimp only
        omega
    · rw [traces_receive, balanced.number_eq]
      rfl

variable {all rest : List SpanEvent}

omit renders in
/-- One more event is seen. -/
theorem seeSpan (renders : Renders base (lessorIn base.contexts.length all) done u) {event : SpanEvent}
    (split : all = done ++ event :: rest) (allows : SpanEvent.Allows base.contexts.length all done event)
    (orderly : Orderly base.spans.length u.spans.length u.contexts.length [event]) :
    Renders base (lessorIn base.contexts.length all) (done ++ [event]) (u.seeSpan event) ∧
      (u.seeSpan event).traces = u.traces ++
        (callsTold (lessorIn base.contexts.length all) base.numberOf base.spans.length done event).flatMap
          SpanCall.rendered := by
  cases event with
  | started number name parent =>
    obtain ⟨⟨rfl, taken⟩, -⟩ := orderly
    refine renders.startSpan name allows fun context is => ⟨?_, taken context is⟩
    obtain ⟨other, span, same, lent⟩ := allows _ is
    obtain rfl := ContextRef.taken.inj same
    exact SpanEvent.le_of_lessorIn lent
  | attributed span key value => exact renders.reach orderly.1.1 orderly.1.2 (.inl ⟨key, value, rfl, rfl⟩)
  | statusSet span status => exact renders.reach orderly.1.1 orderly.1.2 (.inr ⟨status, rfl, rfl⟩)
  | contextTaken span =>
    have lent : lessorIn base.contexts.length all u.contexts.length = some span := by
      rw [renders.contexts]
      exact SpanEvent.lessorIn_next split
    obtain ⟨later, same⟩ := renders.takeContext orderly.1.1 orderly.1.2 allows lent
    exact ⟨later, same.trans (List.append_nil _).symm⟩
  | contextReleased context =>
    obtain ⟨span, lent, lt, open_yet, few⟩ := allows
    obtain ⟨later, same⟩ := renders.releaseContext (SpanEvent.le_of_lessorIn lent) (renders.contexts ▸ lt) lent open_yet
      few
    exact ⟨later, same.trans (List.append_nil _).symm⟩
  | ended span => exact renders.endSpan orderly.1.1 orderly.1.2 allows

end Renders

/-! ### Both tracers -/

/-- The parent of a span has the number of the span from which the context was taken that is given. -/
theorem Reads.parent_eq {tracer : CustomTracer} {base t : Telemetry} {all done rest : List SpanEvent}
    (reads : Reads tracer base done t) {name : String} {parent : Option ContextRef} {number : Nat}
    (split : all = done ++ .started number name parent :: rest)
    (allows : SpanEvent.Allows base.contexts.length all done (.started number name parent))
    (taken : ∀ context, parent = some (.taken context) → context < t.contexts.length) :
    (parent.map t.context).map (·.number) =
      parent.map (SpanEvent.parentNumber (lessorIn base.contexts.length all) base.numberOf) := by
  cases is : parent with
  | none => rfl
  | some ref =>
    obtain ⟨context, span, rfl, lent⟩ := allows ref is
    have since := SpanEvent.le_of_lessorIn lent
    have known := congrArg List.length reads.contexts
    rw [List.length_append, List.length_map, List.length_map, List.length_map] at known
    have lt := taken context is
    have at_done : (takens done)[context - base.contexts.length]? = some span :=
      (SpanEvent.lessorIn_eq split since (known ▸ lt)).symm.trans lent
    have listed : (t.contexts.map (·.number))[context]? = some (base.numberOf span) := by
      rw [reads.contexts, List.getElem?_append_right (by rw [List.length_map]; exact since), List.length_map,
        List.getElem?_map, at_done]
      rfl
    rw [List.getElem?_map] at listed
    obtain ⟨view, here, view_number⟩ := Option.map_eq_some_iff.1 listed
    have context_eq : t.context (.taken context) = view := by
      change t.contexts.getD context .blank = view
      rw [List.getD_eq_getElem?_getD, here]
      rfl
    simp [context_eq, view_number, SpanEvent.parentNumber, lent]

/-- What a calm tracer is told by one more event. -/
theorem Reads.spanCalls_seeSpan {tracer : CustomTracer} (calm : tracer.Calm) {base t : Telemetry}
    {all done rest : List SpanEvent} (reads : Reads tracer base done t) {event : SpanEvent}
    (split : all = done ++ event :: rest) (allows : SpanEvent.Allows base.contexts.length all done event)
    (orderly : Orderly base.spans.length t.spans.length t.contexts.length [event]) :
    (t.seeSpan event).spanCalls = t.spanCalls ++
      callsTold (lessorIn base.contexts.length all) base.numberOf base.spans.length done event := by
  have hands {span : Nat} (call : SpanCall) (bounds : base.spans.length ≤ span ∧ span < t.spans.length) :
      (t.reach span call).spanCalls =
        t.spanCalls ++ if hasEnded span done then [] else [(base.numberOf span, call)] := by
    obtain ⟨view, here, number_eq, ended_eq⟩ := reads.views span bounds.1 bounds.2
    rw [reach_eq reads.steady calm here, ended_eq, ← number_eq]
    change _ = t.spanCalls ++ if isOver (trail span done) = true then [] else _
    split
    · exact (List.append_nil _).symm
    · exact List.filterMap_append
  cases event with
  | started number name parent =>
    obtain ⟨⟨rfl, given⟩, -⟩ := orderly
    have number_eq : t.spans.countP (·.tracer = 0) + 1 =
        base.numberOf (base.spans.length + (starts done).length) := by
      rw [reads.count, numberOf]
      omega
    change (t.startSpan 0 name parent).spanCalls = _
    rw [startSpan_eq reads.steady calm, callsTold, ← number_eq, ← reads.parent_eq split allows given]
    exact List.filterMap_append
  | attributed span key value => exact hands _ orderly.1
  | statusSet span status => exact hands _ orderly.1
  | contextTaken span =>
    obtain ⟨context, -, taken, -⟩ := takeContext_eq reads.steady calm span
    change (t.takeContext span).spanCalls = _
    rw [taken]
    exact (List.append_nil _).symm
  | contextReleased context =>
    change (t.releaseContext context).spanCalls = _
    rw [releaseContext_eq reads.steady]
    exact (List.append_nil _).symm
  | ended span =>
    obtain ⟨view, here, number_eq, ended_eq⟩ := reads.views span orderly.1.1 orderly.1.2
    change (t.endSpan span).spanCalls = t.spanCalls ++ if isOver (trail span done) = true then [] else _
    rw [endSpan_eq reads.steady calm here, ended_eq, ← number_eq]
    split
    · exact (List.append_nil _).symm
    · exact List.filterMap_append

/-- As long as all is allowed the built-in tracer makes of all events what a calm tracer is told of them, translated. -/
theorem Renders.seeAll {tracer : CustomTracer} (calm : tracer.Calm) {base base' t u : Telemetry}
    {all done : List SpanEvent} (reads : Reads tracer base done t)
    (renders : Renders base' (lessorIn base'.contexts.length all) done u)
    (spans_eq : base'.spans.length = base.spans.length) (contexts_eq : base'.contexts.length = base.contexts.length)
    (number_eq : base'.numberOf = base.numberOf) (written : List Event) (split : all = done ++ spanEvents written)
    (orderly : Orderly base.spans.length t.spans.length t.contexts.length (spanEvents written))
    (allows : ∀ before event rest, all = before ++ event :: rest →
      SpanEvent.Allows base.contexts.length all before event)
    (same : u.traces = t.spanCalls.flatMap SpanCall.rendered) :
    Renders base' (lessorIn base'.contexts.length all) all (u.seeAll written) ∧
      (u.seeAll written).traces = (t.seeAll written).spanCalls.flatMap SpanCall.rendered := by
  induction written generalizing t u done with
  | nil =>
    have done_eq : all = done := split.trans (List.append_nil _)
    rw [← done_eq] at renders
    exact ⟨renders, same⟩
  | cons event written ih =>
    cases span : event.spanEvent? with
    | none =>
      have silent : spanEvents (event :: written) = spanEvents written := List.filterMap_cons_none span
      rw [silent] at orderly split
      have agrees := t.agrees_see span
      obtain ⟨traces_eq, level_eq⟩ := u.traces_see span
      refine ih (reads.agrees agrees) (renders.agrees (u.agrees_see span) level_eq) split ?_ ?_
      · rw [agrees.spans, agrees.contexts]
        exact orderly
      · rw [traces_eq, agrees.spanCalls]
        exact same
    | some e =>
      obtain rfl : event = .span e := by
        cases event with
        | span event => exact congrArg Event.span (Option.some.inj span)
        | _ => cases span
      have cons_eq : spanEvents (.span e :: written) = e :: spanEvents written := rfl
      rw [cons_eq] at orderly split
      obtain ⟨here, later⟩ := Orderly.of_cons orderly
      have allowed := allows done e (spanEvents written) split
      have heard := reads.spanCalls_seeSpan calm split allowed here
      have known := congrArg List.length reads.contexts
      rw [List.length_append, List.length_map, List.length_map, List.length_map] at known
      obtain ⟨rendered, received⟩ := renders.seeSpan split (contexts_eq ▸ allowed) (by
        rw [spans_eq, renders.spans, spans_eq, ← reads.spans, renders.contexts, contexts_eq, ← known]
        exact here)
      obtain ⟨-, spans, contexts⟩ := reads.steady.seeSpan calm e
      refine ih (reads.seeSpan calm e here) rendered ?_ ?_ ?_
      · rw [split, List.append_assoc]
        rfl
      · change Orderly _ (t.seeSpan e).spans.length (t.seeSpan e).contexts.length _
        rw [spans, contexts]
        exact later
      · change (u.seeSpan e).traces = (t.seeSpan e).spanCalls.flatMap SpanCall.rendered
        rw [received, heard, same, List.flatMap_append, number_eq, spans_eq, contexts_eq]

end Telemetry

end Segmentation
