import Segmentation.Proofs.Chronicle
import Segmentation.Proofs.Settling

/-!
# What invocations do

An invocation opens its span, asks the schema about its argument, and calls a single evaluator or loads a request if
the argument was accepted: these are its deeds.  They stand in the journal, and `Definition.deeds` tells them from the
definition alone.  Going on with an invocation adds the deeds that are due (`Invocation.advance_does`), so a session has
done at any time exactly what its invocations have come to, each of them once (`Session.Performs`).
-/

namespace Segmentation

/-! ### What user code comes to -/

/-- The result of a task, however long it sleeps. -/
def Task.final {ρ : Type} : Task ρ → ρ
  | .done result => result
  | .sleep _ rest => rest.final

/-- The result of what a call gave. -/
def Launch.final {ρ : Type} (ofPanic : Payload → ρ) : Launch (Task ρ) → ρ
  | .panics payload => ofPanic payload
  | .starts task => task.final

/-- The result of a task that was started. -/
def Running.final {ρ : Type} : Running ρ → ρ
  | .ended result => result
  | .asleep _ rest => rest.final

theorem Task.final_start {ρ : Type} (now : Nat) (task : Task ρ) : (task.start now).final = task.final := by
  induction task with
  | done result => rfl
  | sleep ticks rest ih =>
    cases ticks with
    | zero => exact ih
    | succ ticks => rfl

theorem Launch.final_start {ρ : Type} (now : Nat) (ofPanic : Payload → ρ) (launch : Launch (Task ρ)) :
    (launch.start now ofPanic).final = launch.final ofPanic := by
  cases launch with
  | panics payload => rfl
  | starts task => exact task.final_start now

/-! ### Deeds -/

/-- What an invocation does. -/
inductive Deed where
  /-- It begins, and opens its span. -/
  | ran (span : String)
  /-- The schema of the matcher is asked about an argument. -/
  | checked (matcher : String) (argument : Json)
  /-- The single evaluator is called. -/
  | called (matcher : String) (args : Option Json)
  /-- A request is loaded for the batched evaluator. -/
  | loaded (matcher : String) (args : Option Json)

/-- The deed that an event notes.  Spans without a parent are those of calls. -/
def Event.deed? : Event → Option Deed
  | .span (.started _ name (some _)) => some (.ran name)
  | .argumentChecked matcher argument => some (.checked matcher argument)
  | .invoked matcher args => some (.called matcher args)
  | .requested matcher args => some (.loaded matcher args)
  | _ => none

/-- Whether an event hands an error to somebody, or says something of the caller's. -/
def Event.isAppeal : Event → Bool
  | .errorReported _ _ _ => true
  | .fallbackAsked _ => true
  | .noticed (.message _ _) => true
  | _ => false

/-- The deeds among some events. -/
def deeds (log : List Event) : List Deed := log.filterMap Event.deed?

/-- The errors handed to somebody among some events. -/
def appeals (log : List Event) : List Event := log.filter Event.isAppeal

@[simp] theorem deeds_nil : deeds [] = [] := rfl

@[simp] theorem appeals_nil : appeals [] = [] := rfl

@[simp] theorem deeds_append (log more : List Event) : deeds (log ++ more) = deeds log ++ deeds more :=
  List.filterMap_append

@[simp] theorem appeals_append (log more : List Event) : appeals (log ++ more) = appeals log ++ appeals more :=
  List.filter_append ..

namespace Definition

variable (definition : Definition)

/-- What the evaluator is to decide on, if there is something: the argument that the schema makes of the one bound, or
no argument if the matcher takes none. -/
def admitted : Option (Option Json) :=
  match definition.matcher.schema, definition.args with
  | none, args => some args
  | some _, none => none
  | some schema, some raw =>
    match (schema raw).final .error with
    | .ok (.accepted value) => some (some value)
    | _ => none

/-- What is done before there is anything to decide on. -/
def preparation : List Deed :=
  .ran ("matcher:" ++ definition.name) ::
    match definition.matcher.schema, definition.args with
    | some _, some raw => [.checked definition.name raw]
    | _, _ => []

/-- What is done with what there is to decide on. -/
def decision (args : Option Json) : Deed :=
  match definition.matcher.evaluator with
  | .single _ => .called definition.name args
  | .batch _ => .loaded definition.name args

/-- All that an invocation of a definition does. -/
def deeds : List Deed := definition.preparation ++ (definition.admitted.map definition.decision).toList

end Definition

namespace Stage

/-- What an invocation at some stage has done. -/
def deeds (definition : Definition) : Stage → List Deed
  | .fresh => []
  | .validating _ _ _ => definition.preparation
  | _ => definition.deeds

/-- The stage goes with the span, of which `log` tells: a validation comes to what the schema says, and an outcome
stands at the end of the span. -/
def Follows (definition : Definition) (span : Nat) (log : List Event) : Stage → Prop
  | .fresh => False
  | .validating own _ rest => own = span ∧ ∃ schema raw, definition.matcher.schema = some schema ∧
      definition.args = some raw ∧ rest.final = (schema raw).final .error
  | .evaluating own _ _ _ => own = span
  | .awaiting own _ => own = span
  | .settled outcome => (Invocation.closing span outcome).map Event.span ⊆ log

/-- The events tell of the invocation: of the beginning of its span, and of the end with the outcome. -/
def Noted (scope : Scope) (definition : Definition) (log : List Event) (stage : Stage) : Prop :=
  stage = .fresh ∨ ∃ span, (Invocation.opening scope definition span).map Event.span ⊆ log ∧
    stage.Follows definition span log

theorem Follows.mono {definition : Definition} {span : Nat} {log later : List Event} (sub : log ⊆ later)
    {stage : Stage} (follows : stage.Follows definition span log) : stage.Follows definition span later := by
  cases stage with
  | settled outcome => exact List.Subset.trans follows sub
  | _ => exact follows

theorem Noted.mono {scope : Scope} {definition : Definition} {log later : List Event} (sub : log ⊆ later)
    {stage : Stage} (noted : stage.Noted scope definition log) : stage.Noted scope definition later := by
  rcases noted with fresh | ⟨span, opening, follows⟩
  · exact .inl fresh
  · exact .inr ⟨span, List.Subset.trans opening sub, follows.mono sub⟩

end Stage

/-! ### Going on with an invocation -/

namespace Invocation

/-- What is written adds to the deeds so far what the stage has come to. -/
def Does (definition : Definition) (span : Nat) (sofar : List Deed) (before : Journal) (r : Stage × Scene) : Prop :=
  ∃ written, before.Writes written r.2.journal ∧ sofar ++ deeds written = r.1.deeds definition ∧ appeals written = [] ∧
    r.1.Follows definition span written

theorem Does.after {definition : Definition} {span : Nat} {sofar : List Deed} {before between : Journal}
    {r : Stage × Scene} {first : List Event} (writes : before.Writes first between) (quiet : appeals first = [])
    (does : Does definition span (sofar ++ deeds first) between r) : Does definition span sofar before r := by
  obtain ⟨written, writes', deeds_eq, quiet', follows⟩ := does
  refine ⟨first ++ written, writes.trans writes', ?_, ?_, follows.mono (List.subset_append_right _ _)⟩
  · rw [deeds_append, ← List.append_assoc, deeds_eq]
  · rw [appeals_append, quiet, quiet', List.append_nil]

variable {scope : Scope}

/-- The end of a span is no deed, and nobody is told of an error. -/
theorem closing_silent (span : Nat) (outcome : Outcome) :
    deeds ((closing span outcome).map .span) = [] ∧ appeals ((closing span outcome).map .span) = [] := by
  cases outcome <;> exact ⟨rfl, rfl⟩

theorem opening_spec {parent : ContextRef} (parent_eq : scope.parent = some parent) (definition : Definition) (span : Nat) :
    deeds ((opening scope definition span).map .span) = [.ran ("matcher:" ++ definition.name)] ∧
      appeals ((opening scope definition span).map .span) = [] := by
  unfold opening
  rw [parent_eq]
  cases definition.args <;> exact ⟨rfl, rfl⟩

/-- What a schema comes to decides on what is admitted. -/
theorem judge_eq (scope : Scope) (definition : Definition) {schema : Schema} {raw : Json}
    (takes : definition.matcher.schema = some schema) (bound : definition.args = some raw) :
    (∃ value, judge scope definition.name ((schema raw).final .error) = .ok value ∧
      definition.admitted = some (some value)) ∨
    (∃ error, judge scope definition.name ((schema raw).final .error) = .error error ∧
      definition.admitted = none) := by
  simp only [Definition.admitted, takes, bound]
  cases (schema raw).final .error with
  | error payload => exact .inr ⟨_, rfl, rfl⟩
  | ok validation =>
    cases validation with
    | accepted value => exact .inl ⟨value, rfl, rfl⟩
    | empty => exact .inr ⟨_, rfl, rfl⟩
    | rejected issues => exact .inr ⟨_, rfl, rfl⟩

variable (traced : scope.parent.isSome)

include traced

theorem spanEvents_eq (events : List SpanEvent) : scope.spanEvents events = events.map Event.span := by
  rw [Scope.spanEvents, if_pos traced]

theorem settle_does (definition : Definition) (span : Nat) (outcome : Outcome) (scene : Scene) :
    Does definition span definition.deeds scene.journal (settle scope span outcome scene) := by
  obtain ⟨no_deeds, no_appeals⟩ := closing_silent span outcome
  have writes := Journal.writes_recordAll scene.journal ((closing span outcome).map Event.span)
  rw [← spanEvents_eq traced] at writes
  refine ⟨_, writes, ?_, ?_, ?_⟩
  · rw [spanEvents_eq traced, no_deeds, List.append_nil]
    rfl
  · rw [spanEvents_eq traced, no_appeals]
  · rw [spanEvents_eq traced]
    exact List.Subset.refl _

variable (definition : Definition) (index span : Nat)

theorem evaluated_does (args : Option Json) (running : Running (Ending Bool)) (scene : Scene) :
    Does definition span definition.deeds scene.journal
      (evaluated scope definition index span args running scene) := by
  cases running with
  | ended ending =>
    have noted := Journal.writes_record scene.journal (.evaluatorEnded definition.name)
    refine Does.after noted rfl ?_
    have settled := settle_does traced definition span (verdict scope definition.name args ending)
      { scene with journal := scene.journal.record (.evaluatorEnded definition.name) }
    rwa [← List.append_nil definition.deeds] at settled
  | asleep deadline rest => exact ⟨[], Journal.writes_nil rfl, List.append_nil _, rfl, rfl⟩

theorem dispatch_does (batching : scope.batching = true) {args : Option Json}
    (admitted : definition.admitted = some args) (scene : Scene) :
    Does definition span definition.preparation scene.journal (dispatch scope definition index span args scene) := by
  have deeds_eq : definition.deeds = definition.preparation ++ [definition.decision args] := by
    rw [Definition.deeds, admitted]
    rfl
  unfold dispatch
  cases evaluator : definition.matcher.evaluator with
  | single evaluate =>
    have noted := Journal.writes_record scene.journal (.invoked definition.name args)
    refine Does.after noted rfl ?_
    have decision : definition.decision args = .called definition.name args := by
      rw [Definition.decision, evaluator]
    rw [decision] at deeds_eq
    have evaluated := evaluated_does traced definition index span args
      ((evaluate (scene.journal.invocations definition.name) ⟨scope.subject, args⟩).start scene.journal.now .panicked)
      { scene with journal := scene.journal.record (.invoked definition.name args) }
    rwa [deeds_eq] at evaluated
  | batch evaluate =>
    have decision : definition.decision args = .loaded definition.name args := by
      rw [Definition.decision, evaluator]
    rw [decision] at deeds_eq
    simp only [batching, Bool.not_true, Bool.false_eq_true, if_false]
    exact ⟨_, Journal.writes_record _ _, deeds_eq.symm, rfl, rfl⟩

theorem validated_does (batching : scope.batching = true) {schema : Schema} {raw : Json}
    (takes : definition.matcher.schema = some schema) (bound : definition.args = some raw) {running : Running Checked}
    (comes : running.final = (schema raw).final .error) (scene : Scene) :
    Does definition span definition.preparation scene.journal
      (validated scope definition index span running scene) := by
  cases running with
  | asleep deadline rest =>
    exact ⟨[], Journal.writes_nil rfl, List.append_nil _, rfl, rfl, schema, raw, takes, bound, comes⟩
  | ended checked =>
    have comes : checked = (schema raw).final .error := comes
    rcases judge_eq scope definition takes bound with ⟨value, judged, admitted⟩ | ⟨error, judged, admitted⟩
    · rw [← comes] at judged
      simp only [validated, judged]
      exact dispatch_does traced definition index span batching admitted scene
    · rw [← comes] at judged
      simp only [validated, judged]
      have settled := settle_does traced definition span (.error error) scene
      rwa [Definition.deeds, admitted, Option.map_none, Option.toList_none, List.append_nil] at settled

/-- From its beginning on an invocation does what its definition says. -/
theorem begins_does (batching : scope.batching = true) (scene : Scene) :
    ∃ written, scene.journal.Writes written (begins scope definition index scene).2.journal ∧
      deeds written = (begins scope definition index scene).1.deeds definition ∧ appeals written = [] ∧
      (begins scope definition index scene).1.Noted scope definition written := by
  obtain ⟨parent, parent_eq⟩ := Option.isSome_iff_exists.1 traced
  let span := scene.journal.spanCount
  let opened := (opening scope definition span).map Event.span
  let first : Scene := { scene with journal := scene.journal.recordAll (scope.spanEvents (opening scope definition span)) }
  obtain ⟨ran, no_appeals⟩ : deeds opened = [.ran ("matcher:" ++ definition.name)] ∧ appeals opened = [] :=
    opening_spec parent_eq definition span
  have opens : scene.journal.Writes opened first.journal := by
    change scene.journal.Writes opened (scene.journal.recordAll (scope.spanEvents (opening scope definition span)))
    rw [spanEvents_eq traced]
    exact Journal.writes_recordAll _ _
  -- after its span was started it goes on as its schema says
  have rest : Does definition span (deeds opened) first.journal (begins scope definition index scene) := by
    unfold begins
    rw [ran]
    dsimp only
    cases takes : definition.matcher.schema with
    | none =>
      have prepared : definition.preparation = [.ran ("matcher:" ++ definition.name)] := by
        rw [Definition.preparation, takes]
      rw [← prepared]
      refine dispatch_does traced definition index span batching ?_ first
      rw [Definition.admitted, takes]
    | some schema =>
      cases bound : definition.args with
      | none =>
        have all : definition.deeds = [.ran ("matcher:" ++ definition.name)] := by
          rw [Definition.deeds, Definition.preparation, Definition.admitted, takes, bound]
          rfl
        rw [← all]
        exact settle_does traced definition span _ first
      | some raw =>
        have noted := Journal.writes_record first.journal (.argumentChecked definition.name raw)
        refine Does.after noted rfl ?_
        have prepared : definition.preparation =
            [.ran ("matcher:" ++ definition.name), .checked definition.name raw] := by
          rw [Definition.preparation, takes, bound]
        have validated := validated_does traced definition index span batching takes bound
          (Launch.final_start first.journal.now .error (schema raw))
          { first with journal := first.journal.record (.argumentChecked definition.name raw) }
        rwa [prepared] at validated
  obtain ⟨more, writes, deeds_eq, quiet, follows⟩ := rest
  refine ⟨opened ++ more, opens.trans writes, ?_, ?_, .inr ⟨span, ?_, ?_⟩⟩
  · rw [deeds_append, deeds_eq]
  · rw [appeals_append, no_appeals, quiet, List.append_nil]
  · exact List.subset_append_left _ _
  · exact follows.mono (List.subset_append_right _ _)

/-- Going on with an invocation, wherever it is, does what is due. -/
theorem advance_does (batching : scope.batching = true) {stage : Stage} {log : List Event}
    (noted : stage.Noted scope definition log) (scene : Scene) :
    ∃ written, scene.journal.Writes written (advance scope definition index stage scene).2.journal ∧
      stage.deeds definition ++ deeds written = (advance scope definition index stage scene).1.deeds definition ∧
      appeals written = [] ∧ (advance scope definition index stage scene).1.Noted scope definition (log ++ written) := by
  have stays : ∃ written, scene.journal.Writes written scene.journal ∧
      stage.deeds definition ++ deeds written = stage.deeds definition ∧ appeals written = [] ∧
      stage.Noted scope definition (log ++ written) :=
    ⟨[], Journal.writes_nil rfl, List.append_nil _, rfl, noted.mono (List.subset_append_left _ _)⟩
  have goes_on {span : Nat} {r : Stage × Scene} (opening : (opening scope definition span).map Event.span ⊆ log)
      (does : Does definition span (stage.deeds definition) scene.journal r) :
      ∃ written, scene.journal.Writes written r.2.journal ∧
        stage.deeds definition ++ deeds written = r.1.deeds definition ∧ appeals written = [] ∧
        r.1.Noted scope definition (log ++ written) := by
    obtain ⟨written, writes, deeds_eq, quiet, follows⟩ := does
    exact ⟨written, writes, deeds_eq, quiet, .inr ⟨span, List.Subset.trans opening (List.subset_append_left _ _),
      follows.mono (List.subset_append_right _ _)⟩⟩
  rcases noted with rfl | ⟨span, opening, follows⟩
  · obtain ⟨written, writes, deeds_eq, quiet, noted⟩ := begins_does traced definition index batching scene
    exact ⟨written, writes, deeds_eq, quiet, noted.mono (List.subset_append_right _ _)⟩
  · cases stage with
    | fresh => exact absurd follows id
    | validating own deadline rest =>
      obtain ⟨rfl, schema, raw, takes, bound, comes⟩ := follows
      simp only [advance]
      split
      · exact stays
      · have comes : (rest.start scene.journal.now).final = (schema raw).final .error :=
          (Task.final_start _ _).trans comes
        exact goes_on opening (validated_does traced definition index own batching takes bound comes scene)
    | evaluating own args deadline rest =>
      obtain rfl : own = span := follows
      simp only [advance]
      split
      · exact stays
      · exact goes_on opening (evaluated_does traced definition index own args _ scene)
    | awaiting own load =>
      obtain rfl : own = span := follows
      simp only [advance]
      split
      · exact stays
      · exact goes_on opening (settle_does traced definition own _ scene)
      · exact goes_on opening (settle_does traced definition own _ scene)
    | settled outcome => exact stays

end Invocation

/-! ### Sessions -/

/-- What is found in a list with an element replaced is the new element, or what was found elsewhere before. -/
theorem getElem?_set_cases {α : Type} {l : List α} {index other : Nat} {a b : α}
    (found : (l.set index a)[other]? = some b) : (other = index ∧ b = a) ∨ (other ≠ index ∧ l[other]? = some b) := by
  by_cases same : other = index
  · subst same
    obtain ⟨lt, -⟩ := List.getElem?_eq_some_iff.1 found
    rw [List.length_set] at lt
    rw [List.getElem?_set_self lt] at found
    exact .inl ⟨rfl, (Option.some.inj found).symm⟩
  · rw [List.getElem?_set_ne (Ne.symm same)] at found
    exact .inr ⟨same, found⟩

/-- An element that is replaced by one that adds something to it. -/
theorem flatMap_set_perm {α β : Type} {f : α → List β} {l : List α} {index : Nat} {a b : α} {new : List β}
    (h : l[index]? = some a) (grown : f b = f a ++ new) :
    ((l.set index b).flatMap f).Perm (l.flatMap f ++ new) := by
  induction l generalizing index with
  | nil => cases h
  | cons first l ih =>
    cases index with
    | zero =>
      obtain rfl : first = a := Option.some.inj h
      rw [List.set_cons_zero, List.flatMap_cons, List.flatMap_cons, grown, List.append_assoc, List.append_assoc]
      exact List.perm_append_comm.append_left _
    | succ index =>
      rw [List.set_cons_succ, List.flatMap_cons, List.flatMap_cons, List.append_assoc]
      exact (ih h).append_left _

namespace Session

/-- What a session with batches and spans has done is what its invocations have come to.  Each is for one of the given
definitions, and there is one for each key. -/
structure Performs (scope : Scope) (definitions : List Definition) (log : List Event) (session : Session) : Prop where
  scope_eq : session.scope = scope
  batching : scope.batching = true
  traced : scope.parent.isSome
  nodup : session.keys.Nodup
  known : ∀ i ∈ session.invocations, i.definition ∈ definitions
  deeds : (deeds log).Perm (session.invocations.flatMap fun i => i.stage.deeds i.definition)
  noted : ∀ i ∈ session.invocations, i.stage.Noted scope i.definition log

namespace Performs

variable {scope : Scope} {definitions : List Definition} {log : List Event} {session : Session}

theorem start (batching : scope.batching = true) (traced : scope.parent.isSome)
    (idle : Segmentation.deeds log = []) : (Session.start scope).Performs scope [] log where
  scope_eq := rfl
  batching := batching
  traced := traced
  nodup := List.nodup_nil
  known := List.forall_mem_nil _
  deeds := by
    rw [idle]
    exact .refl _
  noted := List.forall_mem_nil _

/-- What others write changes nothing. -/
theorem append (performs : session.Performs scope definitions log) {written : List Event}
    (idle : Segmentation.deeds written = []) : session.Performs scope definitions (log ++ written) where
  scope_eq := performs.scope_eq
  batching := performs.batching
  traced := performs.traced
  nodup := performs.nodup
  known := performs.known
  deeds := by
    rw [deeds_append, idle, List.append_nil]
    exact performs.deeds
  noted i mem := (performs.noted i mem).mono (List.subset_append_left _ _)

theorem weaken (performs : session.Performs scope definitions log) {more : List Definition} (sub : definitions ⊆ more) :
    session.Performs scope more log where
  scope_eq := performs.scope_eq
  batching := performs.batching
  traced := performs.traced
  nodup := performs.nodup
  known i mem := sub (performs.known i mem)
  deeds := performs.deeds
  noted := performs.noted

/-- One invocation does something. -/
theorem set (performs : session.Performs scope definitions log) {index : Nat} {i j : Invocation} {written : List Event}
    (here : session.invocations[index]? = some i) (same : j.definition = i.definition)
    (grown : i.stage.deeds i.definition ++ Segmentation.deeds written = j.stage.deeds i.definition)
    (noted : j.stage.Noted scope i.definition (log ++ written)) :
    Performs scope definitions (log ++ written) { session with invocations := session.invocations.set index j } where
  scope_eq := performs.scope_eq
  batching := performs.batching
  traced := performs.traced
  nodup := by
    rw [keys_set here same]
    exact performs.nodup
  known k mem := by
    rcases List.mem_or_eq_of_mem_set mem with mem | rfl
    · exact performs.known k mem
    · rw [same]
      exact performs.known i (List.mem_of_getElem? here)
  deeds := by
    have grown_here : j.stage.deeds j.definition = i.stage.deeds i.definition ++ Segmentation.deeds written := by
      rw [grown, same]
    have all := flatMap_set_perm (f := fun i : Invocation => i.stage.deeds i.definition) here grown_here
    rw [deeds_append]
    exact (performs.deeds.append_right _).trans all.symm
  noted k mem := by
    rcases List.mem_or_eq_of_mem_set mem with mem | rfl
    · exact (performs.noted k mem).mono (List.subset_append_left _ _)
    · rw [same]
      exact noted

theorem advance (performs : session.Performs scope definitions log) (scene : Scene) (index : Nat) :
    ∃ written, scene.journal.Writes written (session.advance scene index).2.journal ∧ appeals written = [] ∧
      (session.advance scene index).1.Performs scope definitions (log ++ written) := by
  unfold Session.advance
  cases here : session.invocations[index]? with
  | none =>
    refine ⟨[], Journal.writes_nil rfl, rfl, ?_⟩
    rwa [List.append_nil]
  | some i =>
    obtain rfl : session.scope = scope := performs.scope_eq
    obtain ⟨written, writes, grown, quiet, noted⟩ := Invocation.advance_does performs.traced i.definition index
      performs.batching (performs.noted i (List.mem_of_getElem? here)) scene
    exact ⟨written, writes, quiet, performs.set here rfl grown noted⟩

theorem advanceAll (performs : session.Performs scope definitions log) (indices : List Nat) (scene : Scene) :
    ∃ written, scene.journal.Writes written (advanceAll indices session scene).2.journal ∧ appeals written = [] ∧
      (Session.advanceAll indices session scene).1.Performs scope definitions (log ++ written) := by
  induction indices generalizing session log scene with
  | nil =>
    refine ⟨[], Journal.writes_nil rfl, rfl, ?_⟩
    rwa [List.append_nil]
  | cons index indices ih =>
    obtain ⟨first, writes, quiet, performs⟩ := performs.advance scene index
    obtain ⟨rest, writes', quiet', performs⟩ := ih performs (session.advance scene index).2
    refine ⟨first ++ rest, writes.trans writes', ?_, ?_⟩
    · rw [appeals_append, quiet, quiet', List.append_nil]
    · rwa [← List.append_assoc]

/-! #### Launching -/

theorem takeSeat (performs : session.Performs scope definitions log) (index : Nat) :
    (session.takeSeat index).2.Performs scope definitions log := by
  have same {i j : Invocation} (here : session.invocations[index]? = some i) (definition : j.definition = i.definition)
      (stage : j.stage = i.stage) :
      Performs scope definitions log { session with invocations := session.invocations.set index j } := by
    have idle : i.stage.deeds i.definition ++ Segmentation.deeds [] = j.stage.deeds i.definition := by
      rw [stage]
      exact List.append_nil _
    have noted : j.stage.Noted scope i.definition (log ++ []) := by
      rw [stage, List.append_nil]
      exact performs.noted i (List.mem_of_getElem? here)
    have unchanged := performs.set here definition idle noted
    rwa [List.append_nil] at unchanged
  unfold Session.takeSeat
  cases here : session.invocations[index]? with
  | none => exact performs
  | some i =>
    cases vacant : i.vacant with
    | nil =>
      simp only [vacant]
      exact same here rfl rfl
    | cons seat seats =>
      simp only [vacant]
      exact same here rfl rfl

theorem invocationFor (performs : session.Performs scope definitions log) (d : Definition) (journal : Journal) :
    ∃ written, journal.Writes written (session.invocationFor d journal).2.2 ∧ appeals written = [] ∧
      (session.invocationFor d journal).2.1.Performs scope (definitions ++ [d]) (log ++ written) := by
  have weakened := performs.weaken (List.subset_append_left definitions [d])
  unfold Session.invocationFor
  by_cases known : d.key ∈ session.keys
  · simp only [findIdx?_key known]
    exact ⟨_, Journal.writes_notice _ _, rfl, weakened.append rfl⟩
  · simp only [findIdx?_no_key known]
    refine ⟨[], Journal.writes_nil rfl, rfl, ?_⟩
    rw [List.append_nil]
    refine ⟨performs.scope_eq, performs.batching, performs.traced, ?_, ?_, ?_, ?_⟩
    · have grown : keys { session with invocations := session.invocations ++ [⟨d, .fresh, 0, []⟩] } =
          session.keys ++ [d.key] := by simp [keys]
      rw [grown]
      refine List.nodup_append.2 ⟨performs.nodup, List.pairwise_singleton _ _, ?_⟩
      intro key mem other last same
      rw [List.mem_singleton.1 last] at same
      exact known (same ▸ mem)
    · intro i mem
      rcases List.mem_append.1 mem with mem | mem
      · exact weakened.known i mem
      · rw [List.mem_singleton.1 mem]
        exact List.mem_append_right _ (List.mem_singleton_self d)
    · rw [List.flatMap_append]
      exact (List.append_nil _).symm ▸ performs.deeds
    · intro i mem
      rcases List.mem_append.1 mem with mem | mem
      · exact performs.noted i mem
      · rw [List.mem_singleton.1 mem]
        exact .inl rfl

mutual

theorem launch : (expr : Expr) → {definitions : List Definition} → {log : List Event} → {session : Session} →
    session.Performs scope definitions log → (journal : Journal) →
    ∃ written, journal.Writes written (session.launch expr journal).2.2 ∧ appeals written = [] ∧
      (session.launch expr journal).2.1.Performs scope (definitions ++ expr.leaves) (log ++ written)
  | .leaf d, _, _, _, performs, journal => by
    obtain ⟨written, writes, quiet, performs⟩ := performs.invocationFor d journal
    exact ⟨written, writes, quiet, performs.takeSeat _⟩
  | .and es, _, _, _, performs, journal => launchAll es performs journal
  | .or es, _, _, _, performs, journal => launchAll es performs journal
  | .not e, _, _, _, performs, journal => launch e performs journal

theorem launchAll : (exprs : List Expr) → {definitions : List Definition} → {log : List Event} → {session : Session} →
    session.Performs scope definitions log → (journal : Journal) →
    ∃ written, journal.Writes written (session.launchAll exprs journal).2.2 ∧ appeals written = [] ∧
      (session.launchAll exprs journal).2.1.Performs scope (definitions ++ Expr.leavesOfAll exprs) (log ++ written)
  | [], _, _, _, performs, journal => by
    refine ⟨[], Journal.writes_nil rfl, rfl, ?_⟩
    rw [Expr.leavesOfAll, List.append_nil, List.append_nil]
    exact performs
  | e :: es, _, _, session, performs, journal => by
    obtain ⟨first, writes, quiet, performs⟩ := launch e performs journal
    obtain ⟨rest, writes', quiet', performs⟩ := launchAll es performs (session.launch e journal).2.2
    refine ⟨first ++ rest, writes.trans writes', ?_, ?_⟩
    · rw [appeals_append, quiet, quiet', List.append_nil]
    · rw [Expr.leavesOfAll, ← List.append_assoc, ← List.append_assoc]
      exact performs

end

end Performs

end Session

end Segmentation
