import Segmentation.Proofs.Termination

/-!
# How calls recover from errors

A call is answered whatever its segment, its matchers and its fallback do.  A value is its answer.  Of an error the
logger hears, then the observer, then the fallback, each once, and the answer is what the fallback says, or false
(`Service.calls_recover`).  `Telemetry.see_hears` reads off the journal what loggers and observers hear: nothing else
that is seen is an error handed to somebody.
-/

namespace Segmentation

/-! ### What loggers and observers hear -/

/-- Whether somebody is handed an error: the logger, the observer, or the subscriber in place of a logger. -/
def Sighting.isTelling : Sighting → Bool
  | .logged _ _ _ => true
  | .observed _ _ _ => true
  | .diagnostic .error _ _ => true
  | _ => false

namespace Telemetry

/-- The errors that somebody was handed so far. -/
def told (t : Telemetry) : List Sighting := t.sightings.filter (·.isTelling)

/-- What the logger hears of an error. -/
def logs (t : Telemetry) (error : Error) (segment : String) (subject : Json) : List Sighting :=
  match t.logger with
  | .silent => []
  | .callback _ => [.logged error segment subject]
  | .reporting =>
    if t.takes .error then
      [.diagnostic .error "segment evaluation failed"
        [("error", .str error.chain), ("kind", .str error.kind.name),
          ("matcher", .str (error.matcherName?.getD "-")), ("segment", .str segment)]]
    else []

/-- What the observer hears of an error. -/
def observes (t : Telemetry) (error : Error) (segment : String) (subject : Json) : List Sighting :=
  match t.observer with
  | none => []
  | some _ => [.observed error segment subject]

/-- What of an event is heard of: of an error that is reported the logger hears first, and then the observer. -/
def hears (t : Telemetry) : Event → List Sighting
  | .errorReported error segment subject => t.logs error segment subject ++ t.observes error segment subject
  | _ => []

/-- The same people listen, and this is what they heard in between. -/
structure Heard (before : Telemetry) (more : List Sighting) (later : Telemetry) : Prop where
  level : later.level = before.level
  logger : later.logger = before.logger
  observer : later.observer = before.observer
  told : later.told = before.told ++ more

namespace Heard

theorem of_eq {before later : Telemetry} (level : later.level = before.level) (logger : later.logger = before.logger)
    (observer : later.observer = before.observer) (sightings : later.sightings = before.sightings) :
    before.Heard [] later :=
  ⟨level, logger, observer, by rw [Telemetry.told, sightings, List.append_nil]; rfl⟩

theorem refl (t : Telemetry) : t.Heard [] t := .of_eq rfl rfl rfl rfl

theorem trans {a b c : Telemetry} {first second : List Sighting} (ab : a.Heard first b) (bc : b.Heard second c) :
    a.Heard (first ++ second) c where
  level := bc.level.trans ab.level
  logger := bc.logger.trans ab.logger
  observer := bc.observer.trans ab.observer
  told := by rw [bc.told, ab.told, List.append_assoc]

theorem quiet {a b c : Telemetry} (ab : a.Heard [] b) (bc : b.Heard [] c) : a.Heard [] c := ab.trans bc

/-- Whoever listens later hears the same. -/
theorem hears_eq {before later : Telemetry} {more : List Sighting} (heard : before.Heard more later) :
    later.hears = before.hears := by
  obtain ⟨level, logger, observer, -⟩ := heard
  cases before
  cases later
  subst level logger observer
  rfl

end Heard

variable (t : Telemetry)

theorem sight_heard {s : Sighting} (telling : s.isTelling = true) : t.Heard [s] (t.sight s) := by
  refine ⟨rfl, rfl, rfl, ?_⟩
  rw [told, sight, List.filter_append, List.filter_singleton, telling]
  rfl

theorem sight_calm {s : Sighting} (calm : s.isTelling = false) : t.Heard [] (t.sight s) := by
  refine ⟨rfl, rfl, rfl, ?_⟩
  rw [told, sight, List.filter_append, List.filter_singleton, calm]
  rfl

theorem diagnose_heard {level : Level} (calm : level ≠ .error) (text : String) (fields : List (String × Json)) :
    t.Heard [] (t.diagnose level text fields) := by
  unfold diagnose
  split
  · refine t.sight_calm ?_
    cases level with
    | error => exact absurd rfl calm
    | _ => rfl
  · exact .refl t

theorem warn_heard (text : String) (fields : List (String × Json)) : t.Heard [] (t.diagnose .warn text fields) := by
  have calm : Level.warn ≠ .error := nofun
  exact t.diagnose_heard calm text fields

theorem trace_heard (view : SpanView) (entry : TraceEntry) : t.Heard [] (t.trace view entry) := by
  unfold trace
  split
  · exact t.sight_calm rfl
  · exact .refl t

theorem traceCall_heard (view : SpanView) (call : SpanCall) : t.Heard [] (t.traceCall view call) := by
  unfold traceCall
  split
  · exact .refl t
  · split
    · exact t.trace_heard _ _
    · split
      · exact t.trace_heard _ _
      · exact .refl t
  · dsimp only
    split
    · exact (t.trace_heard _ _).quiet (trace_heard _ _ _)
    · exact t.trace_heard _ _
  · exact .refl t

theorem dropHandle_heard (span : Nat) : t.Heard [] (t.dropHandle span) := by
  unfold dropHandle
  split
  · exact .refl t
  · dsimp only
    have fewer : t.Heard [] (t.modifySpan span fun v => { v with handles := v.handles - 1 }) := .of_eq rfl rfl rfl rfl
    split
    · exact fewer.quiet (trace_heard _ _ _)
    · exact fewer

theorem reach_heard (span : Nat) (call : SpanCall) : t.Heard [] (t.reach span call) := by
  unfold reach
  split
  · exact .refl t
  · split
    · exact .refl t
    · split
      · exact .refl t
      · exact t.traceCall_heard _ _
      · rename_i view _ _ _ tracer _
        dsimp only
        have called : t.Heard [] ((t.sight (.spanCall view.number call)).modifySpan span fun v =>
            { v with calls := v.calls ++ [call], disabled := tracer.panics view.calls call }) :=
          (t.sight_calm rfl).quiet (.of_eq rfl rfl rfl rfl)
        split
        · exact called.quiet (warn_heard _ _ _)
        · exact called

theorem startSpan_heard (tracer : Nat) (name : String) (parent : Option ContextRef) :
    t.Heard [] (t.startSpan tracer name parent) := by
  unfold startSpan
  dsimp only
  split
  · exact .of_eq rfl rfl rfl rfl
  · have opened : t.Heard [] { t with spans := t.spans ++
        [⟨tracer, name, t.spans.countP (·.tracer = tracer) + 1, false, false, [], 1⟩] } := .of_eq rfl rfl rfl rfl
    exact opened.quiet (trace_heard _ _ _)
  · have called (spans : List SpanView) (number : Nat) (call : SpanCall) :
        t.Heard [] ({ t with spans }.sight (.spanCall number call)) := by
      have opened : t.Heard [] { t with spans } := .of_eq rfl rfl rfl rfl
      exact opened.quiet (sight_calm _ rfl)
    split
    · exact (called _ _ _).quiet (warn_heard _ _ _)
    · exact called _ _ _

theorem takeContext_heard (span : Nat) : t.Heard [] (t.takeContext span) := by
  unfold takeContext
  dsimp only
  split
  · exact .of_eq rfl rfl rfl rfl
  · exact .of_eq rfl rfl rfl rfl

theorem endSpan_heard (span : Nat) : t.Heard [] (t.endSpan span) := by
  unfold endSpan
  split
  · exact .refl t
  · split
    · exact .refl t
    · dsimp only
      have ended : t.Heard [] ((t.reach span .finish).modifySpan span fun v => { v with ended := true }) :=
        (t.reach_heard span .finish).quiet (.of_eq rfl rfl rfl rfl)
      split
      · exact ended.quiet (dropHandle_heard _ _)
      · exact ended

/-- What happens to spans is no error handed to anybody. -/
theorem seeSpan_heard (event : SpanEvent) : t.Heard [] (t.seeSpan event) := by
  cases event with
  | started tracer name parent => exact t.startSpan_heard tracer name parent
  | attributed span key value => exact t.reach_heard span _
  | statusSet span status => exact t.reach_heard span _
  | contextTaken span => exact t.takeContext_heard span
  | ended span => exact t.endSpan_heard span
  | contextReleased context =>
    simp only [seeSpan, releaseContext]
    split
    · exact t.dropHandle_heard _
    · exact .refl t

theorem log_heard (error : Error) (segment : String) (subject : Json) :
    t.Heard (t.logs error segment subject) (t.log error segment subject) := by
  unfold log logs
  cases t.logger with
  | silent => exact .refl t
  | reporting =>
    dsimp only [diagnose]
    split
    · exact t.sight_heard rfl
    · exact .refl t
  | callback panics =>
    dsimp only
    have logged : t.Heard _ (t.sight (.logged error segment subject)) := t.sight_heard rfl
    split
    · exact logged.trans (warn_heard _ _ _)
    · exact logged

theorem observe_heard (error : Error) (segment : String) (subject : Json) :
    t.Heard (t.observes error segment subject) (t.observe error segment subject) := by
  unfold observe observes
  cases t.observer with
  | none => exact .refl t
  | some observer =>
    dsimp only
    have observed : t.Heard _ (t.sight (.observed error segment subject)) := t.sight_heard rfl
    split
    · exact observed.trans (warn_heard _ _ _)
    · exact observed

/-- Loggers and observers hear of the errors that are reported to them, whether they panic or not, and of nothing
else. -/
theorem see_hears (event : Event) (own : ∀ level text, event ≠ .noticed (.message level text)) :
    t.Heard (t.hears event) (t.see event) := by
  cases event with
  | span event => exact t.seeSpan_heard event
  | errorReported error segment subject =>
    have logged := t.log_heard error segment subject
    have observed := (t.log error segment subject).observe_heard error segment subject
    have same : (t.log error segment subject).observes error segment subject = t.observes error segment subject := by
      rw [observes, observes, logged.observer]
    rw [same] at observed
    exact logged.trans observed
  | noticed notice =>
    have calm : notice.render.1 ≠ .error := by
      cases notice with
      | message level text => exact absurd rfl (own level text)
      | _ => nofun
    exact t.diagnose_heard calm _ _
  | _ => exact .refl t

theorem seeAll_hears (events : List Event) (own : ∀ level text, .noticed (.message level text) ∉ events) :
    t.Heard (events.flatMap t.hears) (t.seeAll events) := by
  induction events generalizing t with
  | nil => exact .refl t
  | cons event events ih =>
    have first := t.see_hears event fun level text same => own level text (same ▸ List.mem_cons_self)
    have rest := ih (t.see event) fun level text mem => own level text (List.mem_cons_of_mem _ mem)
    rw [first.hears_eq] at rest
    exact first.trans rest

/-- Only errors that are handed to somebody are heard of. -/
theorem flatMap_hears (events : List Event) : events.flatMap t.hears = (appeals events).flatMap t.hears := by
  induction events with
  | nil => rfl
  | cons event events ih =>
    rw [List.flatMap_cons, ih]
    cases event with
    | errorReported error segment subject => rfl
    | fallbackAsked errors => rfl
    | noticed notice => cases notice <;> rfl
    | _ => rfl

end Telemetry

/-! ### Calls -/

/-- A draft whose batched evaluator, if it has one, loads nothing. -/
def Matcher.Draft.Loadless (draft : Matcher.Draft) : Prop :=
  ∀ evaluate, draft.batch = some evaluate → BatchEvaluator.Loadless evaluate

theorem Matcher.Draft.loadless_build {draft : Matcher.Draft} (loadless : draft.Loadless) {matcher : Matcher}
    (built : draft.build = .ok matcher) : matcher.Loadless := by
  intro evaluate batched
  unfold build at built
  split at built
  · obtain rfl := Except.ok.inj built
    obtain rfl := Evaluator.batch.inj batched
    exact loadless _ ‹_›
  · obtain rfl := Except.ok.inj built
    cases batched
  · cases built

theorem Call.own_told (call : Call) (outcome : Outcome) (level : Level) (text : String) :
    .noticed (.message level text) ∉ call.told outcome := by
  unfold told
  cases outcome with
  | ok value => exact List.not_mem_nil
  | error error => cases call.fallback <;> simp

/-- Whoever says something of his own stands out. -/
theorem own_of_appeals {events : List Event} {level : Level} {text : String}
    (quiet : .noticed (.message level text) ∉ appeals events) : .noticed (.message level text) ∉ events :=
  fun mem => quiet (List.mem_filter.2 ⟨mem, rfl⟩)

/-- The log that is written into alone is all that is written. -/
theorem Woven.lone {log written : List Event} (woven : Woven [log] written) : written = log := by
  have whole : written.Perm log := by simpa using woven.perm
  exact ((woven.sublist log List.mem_cons_self).eq_of_length whole.length_eq.symm).symm

namespace Transcript

variable {segments : Keyed SegmentDefinition} {matchers : String → Option Matcher}

theorem Sound.own {t : Transcript} (sound : t.Sound segments matchers) (level : Level) (text : String) :
    .noticed (.message level text) ∉ appeals t.log := by
  rcases sound.told with nothing | ⟨error, told⟩
  · rw [nothing]
    exact List.not_mem_nil
  · rw [told]
    exact t.call.own_told _ level text

/-- While calls run, loggers and observers hear of the errors that these hand them, and of nothing else. -/
theorem heard_of_woven {ts : List Transcript} (sound : ∀ t ∈ ts, t.Sound segments matchers)
    {written rest : List Event} (woven : Woven (ts.map (·.log)) written) (quiet : appeals rest = [])
    (telemetry : Telemetry) :
    (telemetry.seeAll (written ++ rest)).told = telemetry.told ++ (appeals written).flatMap telemetry.hears := by
  have all : appeals (written ++ rest) = appeals written := by rw [appeals_append, quiet, List.append_nil]
  have own (level : Level) (text : String) : .noticed (.message level text) ∉ written ++ rest := by
    refine own_of_appeals fun mem => ?_
    rw [all] at mem
    obtain ⟨log, listed, said⟩ := List.mem_flatten.1 ((woven.filter Event.isAppeal).perm.mem_iff.1 mem)
    obtain ⟨_, logged, rfl⟩ := List.mem_map.1 listed
    obtain ⟨t, mem, rfl⟩ := List.mem_map.1 logged
    exact (sound t mem).own level text said
  rw [(telemetry.seeAll_hears _ own).told, telemetry.flatMap_hears, all]

end Transcript

/-- What the loggers and observers of a call heard, and whom the call asked, when its evaluation came to this
outcome. -/
structure Call.Recovered (segments : Keyed SegmentDefinition) (matchers : String → Option Matcher) (call : Call)
    (written : List Event) (outcome : Outcome) : Prop where
  concluded : call.Concluded segments matchers written outcome
  told : appeals written = call.told outcome
  heard : ∀ telemetry : Telemetry,
    (telemetry.seeAll written).told = telemetry.told ++ (call.told outcome).flatMap telemetry.hears

namespace Service

/-- When a run has finished all its calls are answered. -/
theorem answered_of_finished {service : Service} {moves : Nat} {limit : Option Nat} {calls : List Call}
    (finished : (service.ask moves limit calls).1 = .finished) :
    ∀ answer ∈ (service.ask moves limit calls).2.1, answer.isSome := by
  let begun : Beside Party := ⟨service.engine.party service.journal calls, service.strays⟩
  have verdict : (Machine.run limit moves begun).1 = .finished := finished
  have ended : Machine.finished (Machine.run limit moves begun).2 = true :=
    Machine.finished_of_runFor (Prod.ext verdict rfl)
  intro answer mem
  obtain ⟨call, listed, rfl⟩ := List.mem_map.1 mem
  exact List.all_eq_true.1 ended call listed

/-- A call that is alone and runs to its end is answered as its outcome demands, and tells of it what is to be
told. -/
theorem lone_call_recovers {matchers : String → Option Matcher} {service : Service}
    (holds : Holds matchers service.engine.registry) (moves : Nat) (limit : Option Nat) (subject : Json)
    (target : Target) (fallback : Option Fallback) :
    let call := Call.start subject target fallback
    let asked := service.ask moves limit [call]
    asked.1 = .finished → ∃ outcome written, asked.2.1 = [some (call.verdict outcome)] ∧
      service.journal.Writes written asked.2.2.journal ∧
      call.Recovered service.engine.segments matchers written outcome := by
  intro call asked finished
  obtain ⟨ts, written, rest, requests_eq, answers_eq, writes, idle, quiet, woven, sound⟩ :=
    ask_transcripts holds moves limit [(subject, target, fallback)]
  obtain ⟨t, rfl, request_eq⟩ := List.map_eq_singleton_iff.1 requests_eq
  obtain rfl := woven.lone
  have answers_eq : [t.answer] = asked.2.1 := answers_eq
  have whose : t.call = call := by
    rw [Transcript.call, request_eq]
  have answered := answered_of_finished finished t.answer (answers_eq ▸ List.mem_singleton_self _)
  obtain ⟨value, answer⟩ := Option.isSome_iff_exists.1 answered
  obtain ⟨outcome, concluded, rfl, told⟩ := (sound t List.mem_cons_self).answered value answer
  have heard := Transcript.heard_of_woven sound woven quiet
  rw [whose] at answer concluded told
  refine ⟨outcome, t.log ++ rest, ?_, writes, concluded.append idle, ?_, fun telemetry => ?_⟩
  · rw [← answers_eq, answer]
  · rw [appeals_append, quiet, List.append_nil, told]
  · rw [heard telemetry, told]

/-- Whatever users do that made the engine and listen to it, a call comes to one of four ends.  It is dropped, or waits
for what never comes, or never ends, which only batches can do that go on loading; or it is answered, and then of an
error the logger has heard, and after it the observer, and at last the fallback, each once and of the same error.  So
it is also with calls that run at once: of each the same is told, and nothing else is. -/
theorem calls_recover {schema : Schema} {options : Options} {groups : List (List (String × Matcher.Draft))}
    {segments : List (String × SegmentDefinition)} {noted : Journal} {engine : Engine}
    (built : (Engine.build schema options groups segments noted).1 = .ok engine)
    (journal : Journal) (strays : List Nat) (history : List Usage) (limit : Option Nat) :
    let service := useAll ⟨engine, journal, strays⟩ history
    (∀ (subject : Json) (target : Target) (fallback : Option Fallback) (moves : Nat),
      let call := Call.start subject target fallback
      let asked := service.ask moves limit [call]
      asked.1 = .exhausted ∨ asked.1 = .stalled ∨ asked.1 = .abandoned ∨ asked.1 = .finished ∧
        ∃ outcome written, asked.2.1 = [some (call.verdict outcome)] ∧
          service.journal.Writes written asked.2.2.journal ∧
          call.Recovered engine.segments engine.registry.matcher? written outcome) ∧
    ((∀ group ∈ groups, ∀ entry ∈ group, entry.2.Loadless) →
      ∀ (subject : Json) (target : Target) (fallback : Option Fallback), ∃ enough, ∀ moves, enough ≤ moves →
        (service.ask moves limit [.start subject target fallback]).1 ≠ .exhausted) ∧
    ∀ (requests : List (Json × Target × Option Fallback)) (moves : Nat),
      let asked := service.ask moves limit
        (requests.map fun (subject, target, fallback) => .start subject target fallback)
      (asked.1 = .finished → ∀ answer ∈ asked.2.1, answer.isSome) ∧
      ∃ (ts : List Transcript) (written : List Event), ts.map (·.request) = requests ∧
        ts.map (·.answer) = asked.2.1 ∧ service.journal.Writes written asked.2.2.journal ∧
        (∀ t ∈ ts, t.Sound engine.segments engine.registry.matcher?) ∧
        Woven (ts.map fun t => appeals t.log) (appeals written) ∧
        ∀ telemetry : Telemetry, (telemetry.seeAll written).told =
          telemetry.told ++ (appeals written).flatMap telemetry.hears := by
  intro service
  obtain ⟨compiled, -, registry_eq⟩ := Engine.registry_of_build built
  have fresh : (⟨engine, journal, strays⟩ : Service).StemsFrom engine :=
    ⟨rfl, registry_eq ▸ Registry.sound_compile _ _, rfl⟩
  have stems : service.StemsFrom engine := fresh.useAll history
  have holds : Holds engine.registry.matcher? service.engine.registry := ⟨stems.sound, stems.matcher?_eq⟩
  refine ⟨fun subject target fallback moves => ?_, fun loadless => ?_, fun requests moves => ⟨answered_of_finished, ?_⟩⟩
  · have recovers := lone_call_recovers holds moves limit subject target fallback
    rw [stems.segments_eq] at recovers
    dsimp only at recovers ⊢
    generalize (service.ask moves limit [.start subject target fallback]).1 = verdict at recovers
    cases verdict with
    | exhausted => exact .inl rfl
    | stalled => exact .inr (.inl rfl)
    | abandoned => exact .inr (.inr (.inl rfl))
    | finished => exact .inr (.inr (.inr ⟨rfl, recovers rfl⟩))
  · refine ask_ends holds (fun name matcher known => ?_) limit
    obtain ⟨group, listed, draft, mem, drafted⟩ := Engine.drafted_of_build built known
    exact Matcher.Draft.loadless_build (loadless group listed _ mem) drafted
  · obtain ⟨ts, written, rest, requests_eq, answers_eq, writes, -, quiet, woven, sound⟩ :=
      ask_transcripts holds moves limit requests
    rw [stems.segments_eq] at sound
    have all : appeals (written ++ rest) = appeals written := by rw [appeals_append, quiet, List.append_nil]
    refine ⟨ts, written ++ rest, requests_eq, answers_eq, writes, sound, ?_, fun telemetry => ?_⟩
    · have parts := woven.filter Event.isAppeal
      rw [List.map_map] at parts
      rw [all]
      exact parts
    · rw [all]
      exact Transcript.heard_of_woven sound woven quiet telemetry

/-! A matcher that panics, a logger and an observer that panic when they hear of it, and a fallback that panics when it
is asked. -/

def riskyMatchers : List (List (String × Matcher.Draft)) :=
  [[("risky", ⟨none, some fun _ _ => .panics (.text "too risky"), none⟩)]]

def riskySegments : List (String × SegmentDefinition) := [("risky", fun _ => .matcher "risky")]

/-- A new engine with this matcher and this segment. -/
def riskyEngine : Engine :=
  ⟨.any, Keyed.ofList riskySegments,
    .compile [("risky", ⟨none, .single fun _ _ => .panics (.text "too risky")⟩)] defaultMemoCapacity, .default⟩

def riskyError : Error := .matcherEvaluation "risky" "risky" .null none (.ofPanic (.text "too risky"))

/-- None of the panics comes through: the call ends, is answered with false, and everybody is told once of one error. -/
theorem panics_are_told_once_each :
    let fallback : Fallback := fun _ => .panics .other
    let call := Call.start .null (.named "risky") (some fallback)
    let service : Service := ⟨riskyEngine, .empty, []⟩
    let asked := service.ask 9 none [call]
    (∃ enough, ∀ moves, enough ≤ moves → (service.ask moves none [call]).1 ≠ .exhausted) ∧
    asked.1 = .finished ∧ asked.2.1 = [some false] ∧
      ∃ written, service.journal.Writes written asked.2.2.journal ∧
        appeals written = [.errorReported riskyError "risky" .null, .fallbackAsked [riskyError]] ∧
        ((⟨none, .disabled, .callback true, some ⟨true⟩, [], [], []⟩ : Telemetry).seeAll written).told =
          [.logged riskyError "risky" .null, .observed riskyError "risky" .null] := by
  intro fallback call service asked
  have built : (Engine.build .any .default riskyMatchers riskySegments .empty).1 = .ok riskyEngine := rfl
  obtain ⟨ends, eventually, -⟩ := calls_recover built .empty [] [] none
  have finished : asked.1 = .finished := by decide
  have loadless : ∀ group ∈ riskyMatchers, ∀ entry ∈ group, entry.2.Loadless := by
    intro group listed entry mem
    obtain rfl := List.mem_singleton.1 listed
    obtain rfl := List.mem_singleton.1 mem
    nofun
  refine ⟨eventually loadless .null (.named "risky") (some fallback), finished, by decide, ?_⟩
  rcases ends .null (.named "risky") (some fallback) 9 with
    other | other | other | ⟨-, outcome, written, -, writes, recovered⟩
  · exact absurd (finished.symm.trans other) nofun
  · exact absurd (finished.symm.trans other) nofun
  · exact absurd (finished.symm.trans other) nofun
  · have all : asked.2.2.journal.events = written := writes
    have appeals_eq : appeals written = [.errorReported riskyError "risky" .null, .fallbackAsked [riskyError]] := by
      rw [← all]
      rfl
    have told := recovered.told.symm.trans appeals_eq
    refine ⟨written, writes, appeals_eq, ?_⟩
    rw [recovered.heard, told]
    rfl

end Service

end Segmentation
