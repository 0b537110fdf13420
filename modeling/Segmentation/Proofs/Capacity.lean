import Segmentation.Proofs.Canonical.Party

/-!
# The capacity of the memos does not show

Engines that differ in the capacity of their memos stay parallel whatever they are used for
(`Service.Parallel.useAll`).  So they give the same answers and do the same, arguments compared by their stable keys,
if nobody can tell apart arguments with one stable key (`Service.capacity_does_not_show`).
-/

namespace Segmentation

/-! ### Receiving a subject -/

/-- The same task, with journals that are the same in canonical form. -/
structure Solo.Parallel {ρ : Type} (solo solo' : Solo ρ) : Prop where
  running : solo.running = solo'.running
  journal : solo.journal.canonical = solo'.journal.canonical

namespace Solo.Parallel

variable {ρ : Type} {solo solo' : Solo ρ}

theorem now (parallel : solo.Parallel solo') : solo.journal.now = solo'.journal.now := by
  rw [← solo.journal.now_canonical, parallel.journal, Journal.now_canonical]

theorem poll (parallel : solo.Parallel solo') : solo.poll.Parallel solo'.poll := by
  obtain ⟨j, running⟩ := solo
  obtain ⟨k, running'⟩ := solo'
  have now_eq : j.now = k.now := parallel.now
  obtain ⟨rfl, journals⟩ : running = running' ∧ j.canonical = k.canonical := ⟨parallel.running, parallel.journal⟩
  cases running with
  | ended result => exact parallel
  | asleep deadline rest =>
    simp only [Solo.poll, now_eq]
    split
    · exact ⟨rfl, journals⟩
    · exact parallel

theorem lockstep : Machine.Lockstep id id (Parallel (ρ := ρ)) where
  finished parallel := by simp only [Machine.finished, Solo.result?, parallel.running]
  awake parallel := by simp only [Machine.awake, Solo.isDue, parallel.running, parallel.now]
  nextAlarm parallel := by simp only [Machine.nextAlarm, parallel.running]
  poll parallel _ := parallel.poll
  advance {_ _ u v} parallel same := by
    obtain rfl : u = v := same
    exact ⟨parallel.running, congrArg (·.moveTo u) parallel.journal⟩

end Solo.Parallel

/-! ### Services -/

/-- The fallbacks that are given are discreet. -/
def Usage.Discreet : Usage → Prop
  | .ask calls _ _ => ∀ call ∈ calls, ∀ fallback, call.2.2 = some fallback → fallback.Discreet
  | _ => True

namespace Service

/-- Services with the same matchers, whatever their registries remember, and journals that are the same in canonical
form. -/
structure Parallel (matchers : String → Option Matcher) (service service' : Service) : Prop where
  schema : service.engine.schema = service'.engine.schema
  segments : service.engine.segments = service'.engine.segments
  offers : service.engine.registry.Offers matchers
  offers' : service'.engine.registry.Offers matchers
  strays : service.strays = service'.strays
  journal : service.journal.canonical = service'.journal.canonical

namespace Parallel

variable {matchers : String → Option Matcher} {service service' : Service}
  (parallel : service.Parallel matchers service')

include parallel

theorem receive (moves : Nat) (input : Json) :
    (service.receive moves input).1 = (service'.receive moves input).1 ∧
      (service.receive moves input).2.Parallel matchers (service'.receive moves input).2 := by
  have received : service.engine.receive input = service'.engine.receive input := congrFun parallel.schema input
  unfold Service.receive
  rw [received]
  cases service'.engine.receive input with
  | panics payload => exact ⟨rfl, parallel⟩
  | starts task =>
    have now_eq : service.journal.now = service'.journal.now := by
      rw [← service.journal.now_canonical, parallel.journal, Journal.now_canonical]
    have opened : (Solo.start service.journal task).Parallel (Solo.start service'.journal task) :=
      ⟨by simp only [Solo.start, now_eq], parallel.journal⟩
    have runs := Solo.Parallel.lockstep.beside.run none moves
      (s := ⟨Solo.start service.journal task, service.strays⟩)
      (t := ⟨Solo.start service'.journal task, service'.strays⟩) ⟨opened.poll, parallel.strays⟩
    dsimp only
    generalize Machine.run none moves (⟨Solo.start service.journal task, service.strays⟩ : Beside (Solo Checked)) = r
      at runs
    generalize Machine.run none moves (⟨Solo.start service'.journal task, service'.strays⟩ : Beside (Solo Checked)) = r'
      at runs
    obtain ⟨-, solos, others⟩ := runs
    have result : r.2.machine.result? = r'.2.machine.result? := by simp only [Solo.result?, solos.running]
    rw [result]
    cases r'.2.machine.result? with
    | none => exact ⟨rfl, parallel.schema, parallel.segments, parallel.offers, parallel.offers', others, solos.journal⟩
    | some checked =>
      refine ⟨rfl, parallel.schema, parallel.segments, parallel.offers, parallel.offers', others, ?_⟩
      unfold Engine.noteChecked
      dsimp only
      split
      · rw [Journal.notice_canonical, solos.journal, Journal.notice_canonical]
      · exact solos.journal

theorem describe (subject : Json) (target : Target) :
    (service.engine.describe subject target).1.map Node.canonical =
      (service'.engine.describe subject target).1.map Node.canonical := by
  have matchers_eq := parallel.offers.holds.2.trans parallel.offers'.holds.2.symm
  have built := Engine.buildExpr_canonical parallel.offers.holds.1 parallel.offers'.holds.1 matchers_eq
    service.engine.segments subject target
  have node (r : Except Error Expr) : (r.map (·.toNode)).map Node.canonical = (r.map Expr.canonical).map (·.toNode) := by
    cases r with
    | error => rfl
    | ok e => exact congrArg Except.ok e.toNode_canonical.symm
  unfold Engine.describe
  dsimp only
  rw [node, node, built, parallel.segments]

theorem ask (moves : Nat) (limit : Option Nat) {calls : List Call} (discreet : ∀ call ∈ calls, call.Discreet) :
    (service.ask moves limit calls).1 = (service'.ask moves limit calls).1 ∧
      (service.ask moves limit calls).2.1 = (service'.ask moves limit calls).2.1 ∧
      (service.ask moves limit calls).2.2.Parallel matchers (service'.ask moves limit calls).2.2 := by
  have same : List.Forall₂ Call.Parallel calls calls :=
    List.forall₂_same.2 fun call mem => ⟨rfl, discreet call mem, discreet call mem⟩
  have opened : (service.engine.party service.journal calls).Parallel matchers
      (service'.engine.party service'.journal calls) :=
    ⟨parallel.segments, parallel.offers, parallel.offers', same, rfl, parallel.journal⟩
  have runs := Party.Parallel.lockstep.beside.run limit moves
    (s := ⟨service.engine.party service.journal calls, service.strays⟩)
    (t := ⟨service'.engine.party service'.journal calls, service'.strays⟩) ⟨opened.poll, parallel.strays⟩
  unfold Service.ask
  dsimp only
  generalize Machine.run limit moves
    (⟨service.engine.party service.journal calls, service.strays⟩ : Beside Party) = r at runs
  generalize Machine.run limit moves
    (⟨service'.engine.party service'.journal calls, service'.strays⟩ : Beside Party) = r' at runs
  obtain ⟨verdict, parties, others⟩ := runs
  refine ⟨verdict, parties.answers_eq, parallel.schema, parallel.segments, parties.offers, parties.offers', ?_, ?_⟩
  · rw [others, parties.leftovers_eq]
  · rw [verdict]
    split
    · exact parties.journal
    · exact parties.drop

theorem use {usage : Usage} (discreet : usage.Discreet) :
    (service.use usage).Parallel matchers (service'.use usage) := by
  cases usage with
  | receive input moves => exact (parallel.receive moves input).2
  | describe subject target =>
    have kept := parallel.offers.holds.buildExpr service.engine.segments subject target
    have kept' := parallel.offers'.holds.buildExpr service'.engine.segments subject target
    exact ⟨parallel.schema, parallel.segments, ⟨kept, parallel.offers.discreet⟩, ⟨kept', parallel.offers.discreet⟩,
      parallel.strays, parallel.journal⟩
  | ask calls limit moves =>
    refine (parallel.ask moves limit fun call mem => ?_).2.2
    obtain ⟨⟨subject, target, fallback⟩, listed, rfl⟩ := List.mem_map.1 mem
    exact ⟨discreet _ listed, trivial⟩

theorem useAll {history : List Usage} (discreet : ∀ usage ∈ history, usage.Discreet) :
    (service.useAll history).Parallel matchers (service'.useAll history) := by
  induction history generalizing service service' with
  | nil => exact parallel
  | cons usage history ih =>
    exact ih (parallel.use (discreet usage List.mem_cons_self)) fun later mem =>
      discreet later (List.mem_cons_of_mem _ mem)

end Parallel

end Service

/-! ### Engines with other memos -/

/-- A draft whose schema and evaluators cannot tell apart arguments with one stable key. -/
structure Matcher.Draft.Discreet (draft : Matcher.Draft) : Prop where
  schema : ∀ schema, draft.schema = some schema → schema.Discreet
  single : ∀ evaluate, draft.single = some evaluate → SingleEvaluator.Discreet evaluate
  batch : ∀ evaluate, draft.batch = some evaluate → BatchEvaluator.Discreet evaluate

theorem Matcher.Draft.Discreet.build {draft : Matcher.Draft} (discreet : draft.Discreet) {matcher : Matcher}
    (built : draft.build = .ok matcher) : matcher.Discreet := by
  unfold Draft.build at built
  split at built
  · obtain rfl := Except.ok.inj built
    exact ⟨discreet.schema, discreet.batch _ ‹_›⟩
  · obtain rfl := Except.ok.inj built
    exact ⟨discreet.schema, discreet.single _ ‹_›⟩
  · cases built

/-- The matchers are known by their names, whatever the capacity of their memos. -/
theorem Registry.matcher?_compile (matchers : List (String × Matcher)) (capacity capacity' : Nat) :
    (compile matchers capacity).matcher? = (compile matchers capacity').matcher? := by
  funext name
  simp only [matcher?, get?, compile, Keyed.get?]
  induction Keyed.ofList matchers with
  | nil => rfl
  | cons pair pairs ih =>
    simp only [List.map_cons, List.lookup_cons]
    split
    · rfl
    · exact ih

namespace Engine

theorem noteMatchers_compile (matchers : List (String × Matcher)) (capacity capacity' : Nat) (journal : Journal) :
    noteMatchers (.compile matchers capacity) journal = noteMatchers (.compile matchers capacity') journal := by
  simp only [noteMatchers, Registry.compile, List.foldl_map]

/-- Compiling that does not panic registers all matchers and notes them. -/
theorem compile_of_ok {matchers : List (String × Matcher)} {capacity : Nat} {journal : Journal} {registry : Registry}
    (compiled : (compile matchers capacity journal).1 = .ok registry) :
    compile matchers capacity journal =
      (.ok (.compile matchers capacity), noteMatchers (.compile matchers capacity) journal) := by
  unfold compile at compiled ⊢
  dsimp only at compiled ⊢
  split at compiled
  · rename_i fits
    rw [if_pos fits]
  · rename_i full
    rw [if_neg full]
    -- There is no matcher that would need room.
    cases handles : (Registry.compile matchers capacity).handles with
    | nil =>
      unfold noteMatchers
      rw [handles]
      rfl
    | cons pair pairs =>
      rw [handles] at compiled
      cases compiled

/-- With another capacity, for which there is room, the same engine is built but for its memos, and the same is
noted. -/
theorem build_with_capacity {schema : Schema} {options : Options} {groups : List (List (String × Matcher.Draft))}
    {segments : List (String × SegmentDefinition)} {noted : Journal} {engine : Engine}
    (built : (build schema options groups segments noted).1 = .ok engine) {capacity : Nat}
    (room : Memo.isReservable capacity = true) :
    ∃ engine', build schema { options with memoCapacity := capacity } groups segments noted =
        (.ok engine', (build schema options groups segments noted).2) ∧
      engine'.schema = engine.schema ∧ engine'.segments = engine.segments ∧
      ∃ matchers, engine.registry = .compile matchers options.memoCapacity ∧
        engine'.registry = .compile matchers capacity := by
  unfold build at built ⊢
  generalize buildGroups groups noted = r at built ⊢
  obtain ⟨_ | matchers, journal⟩ := r
  · cases built
  · have compiled : compile matchers capacity journal =
        (.ok (.compile matchers capacity), noteMatchers (.compile matchers capacity) journal) := by
      simp only [compile, room, if_true]
    have given : compile matchers options.memoCapacity journal =
        (.ok (.compile matchers options.memoCapacity), noteMatchers (.compile matchers capacity) journal) := by
      rw [noteMatchers_compile matchers capacity options.memoCapacity]
      cases registered : (compile matchers options.memoCapacity journal).1 with
      | ok registry => exact compile_of_ok registered
      | error error =>
        dsimp only at built
        rw [← Prod.eta (compile matchers options.memoCapacity journal), registered] at built
        cases built
    have names : (Registry.compile matchers capacity).names =
        (Registry.compile matchers options.memoCapacity).names := by
      simp [Registry.names, Keyed.keys, Registry.compile]
    dsimp only at built ⊢
    rw [given] at built ⊢
    rw [compiled]
    obtain rfl := Except.ok.inj built
    refine ⟨⟨schema, .ofList segments, .compile matchers capacity, { options with memoCapacity := capacity }⟩, ?_, rfl,
      rfl, matchers, rfl, rfl⟩
    simp only [names]

end Engine

/-! ### Capacities -/

namespace Service

/-- What calls do that a service is asked for: each that is answered does what the definitions in the tree of its
segment do, one for each key at the leaves and each of them once. -/
def AsksOnce (service : Service) (requests : List (Json × Target × Option Fallback))
    (asked : Verdict × List (Option Bool) × Service) : Prop :=
  ∃ (ts : List Transcript) (written rest : List Event), ts.map (·.request) = requests ∧
    ts.map (·.answer) = asked.2.1 ∧ service.journal.Writes (written ++ rest) asked.2.2.journal ∧
    (deeds (written ++ rest)).Perm (ts.flatMap fun t => deeds t.log) ∧
    ∀ t ∈ ts, t.answer.isSome → ∀ node, (service.engine.describe t.call.subject t.call.target).1 = .ok node →
      ∃ expr definitions outcome, node = expr.toNode ∧ t.RunsOnce expr definitions outcome

theorem StemsFrom.asksOnce {service : Service} {engine : Engine} (stems : service.StemsFrom engine) (moves : Nat)
    (limit : Option Nat) (requests : List (Json × Target × Option Fallback)) :
    service.AsksOnce requests (service.ask moves limit
      (requests.map fun (subject, target, fallback) => .start subject target fallback)) := by
  obtain ⟨ts, written, rest, requests_eq, answers_eq, writes, idle, -, woven, sound⟩ :=
    ask_transcripts ⟨stems.sound, stems.matcher?_eq⟩ moves limit requests
  rw [stems.segments_eq] at sound
  refine ⟨ts, written, rest, requests_eq, answers_eq, writes, ?_, fun t mem answered =>
    (described_runs_once stems (sound t mem) answered).2⟩
  have all := woven.perm.filterMap Event.deed?
  rw [← List.flatMap_id, List.filterMap_flatMap, List.flatMap_map] at all
  rw [deeds_append, idle, List.append_nil]
  exact all

/-- Engines of discreet matchers that differ in the capacity of their memos are both built, if there is room, and
after the same usages give the same answers: to a subject, to a description, and to calls, which also do the same at
the same instants.  Arguments are compared by their stable keys.  What the memos have forgotten makes no difference
within a call either: each key is asked once. -/
theorem capacity_does_not_show {schema : Schema} {options : Options} {groups : List (List (String × Matcher.Draft))}
    {segments : List (String × SegmentDefinition)} {noted : Journal} {engine : Engine}
    (built : (Engine.build schema options groups segments noted).1 = .ok engine)
    (discreet : ∀ group ∈ groups, ∀ entry ∈ group, entry.2.Discreet) {capacity : Nat}
    (room : Memo.isReservable capacity = true) :
    ∃ engine', Engine.build schema { options with memoCapacity := capacity } groups segments noted =
        (.ok engine', (Engine.build schema options groups segments noted).2) ∧
      ∀ (journal : Journal) (strays : List Nat) (history : List Usage), (∀ usage ∈ history, usage.Discreet) →
        let service := useAll ⟨engine, journal, strays⟩ history
        let service' := useAll ⟨engine', journal, strays⟩ history
        service.journal.canonical = service'.journal.canonical ∧
        (∀ moves input, (service.receive moves input).1 = (service'.receive moves input).1) ∧
        (∀ subject target, (service.engine.describe subject target).1.map Node.canonical =
          (service'.engine.describe subject target).1.map Node.canonical) ∧
        (∀ moves limit subject,
          service.engine.matching (service.ask moves limit (service.engine.callsForAll subject)).2.1 =
            service'.engine.matching (service'.ask moves limit (service'.engine.callsForAll subject)).2.1) ∧
        ∀ moves limit requests, (Usage.ask requests limit moves).Discreet →
          let calls := requests.map fun (subject, target, fallback) => .start subject target fallback
          let asked := service.ask moves limit calls
          let asked' := service'.ask moves limit calls
          asked.1 = asked'.1 ∧ asked.2.1 = asked'.2.1 ∧
            asked.2.2.journal.canonical = asked'.2.2.journal.canonical ∧
            service.AsksOnce requests asked ∧ service'.AsksOnce requests asked' := by
  obtain ⟨engine', built', schema_eq, segments_eq, matchers, registry_eq, registry_eq'⟩ :=
    Engine.build_with_capacity built room
  refine ⟨engine', built', fun journal strays history discreet_history => ?_⟩
  intro service service'
  have holds : Holds engine.registry.matcher? engine.registry := by
    rw [registry_eq]
    exact ⟨Registry.sound_compile _ _, rfl⟩
  have holds' : Holds engine.registry.matcher? engine'.registry := by
    rw [registry_eq, registry_eq']
    exact ⟨Registry.sound_compile _ _, Registry.matcher?_compile _ _ _⟩
  have known (name : String) (matcher : Matcher) (registered : engine.registry.matcher? name = some matcher) :
      matcher.Discreet := by
    obtain ⟨group, listed, draft, mem, drafted⟩ := Engine.drafted_of_build built registered
    exact (discreet group listed _ mem).build drafted
  have start : Parallel engine.registry.matcher? (⟨engine, journal, strays⟩ : Service) ⟨engine', journal, strays⟩ :=
    ⟨schema_eq.symm, segments_eq.symm, ⟨holds, known⟩, ⟨holds', known⟩, rfl, rfl⟩
  have parallel : service.Parallel engine.registry.matcher? service' := start.useAll discreet_history
  have fresh : (⟨engine, journal, strays⟩ : Service).StemsFrom engine := ⟨rfl, holds.1, holds.2⟩
  have fresh' : (⟨engine', journal, strays⟩ : Service).StemsFrom engine := ⟨segments_eq, holds'.1, holds'.2⟩
  refine ⟨parallel.journal, fun moves input => (parallel.receive moves input).1, parallel.describe,
    fun moves limit subject => ?_, fun moves limit requests discreet_requests => ?_⟩
  · have names : service.engine.segmentNames = service'.engine.segmentNames := by
      unfold Engine.segmentNames
      rw [parallel.segments]
    have calls : service.engine.callsForAll subject = service'.engine.callsForAll subject := by
      unfold Engine.callsForAll
      rw [names]
    have discreet_calls : ∀ call ∈ service.engine.callsForAll subject, call.Discreet := by
      intro call mem
      obtain ⟨name, -, rfl⟩ := List.mem_map.1 mem
      exact ⟨nofun, trivial⟩
    rw [← calls, (parallel.ask moves limit discreet_calls).2.1]
    unfold Engine.matching
    rw [names]
  · intro calls asked asked'
    have discreet_calls : ∀ call ∈ calls, call.Discreet := by
      intro call mem
      obtain ⟨⟨subject, target, fallback⟩, listed, rfl⟩ := List.mem_map.1 mem
      exact ⟨discreet_requests _ listed, trivial⟩
    obtain ⟨verdict, answers, later⟩ := parallel.ask moves limit discreet_calls
    exact ⟨verdict, answers, later.journal, (fresh.useAll history).asksOnce moves limit requests,
      (fresh'.useAll history).asksOnce moves limit requests⟩

/-! A segment that binds 1, then 2, and then 1.0 to one matcher. -/

theorem discreet_acceptAnything : Schema.Discreet acceptAnything := by
  intro raw raw' same
  have accepts (raw : Json) : Schema.canonical acceptAnything raw = .starts (.done (.ok (.accepted raw.canonical))) := rfl
  rw [accepts, accepts, Json.canonical_eq_iff.2 same]

def trioMatchers : List (List (String × Matcher.Draft)) :=
  [[("member", ⟨some acceptAnything, some fun _ _ => .starts (.done (.value true)), none⟩)]]

def trioSegments : List (String × SegmentDefinition) :=
  [("trio", fun _ => .and
    [.matcherWith "member" (.int 1), .matcherWith "member" (.int 2), .matcherWith "member" (.float oneAsFloat)])]

/-- A new engine with this matcher and this segment, and with memos of some capacity. -/
def trioEngine (capacity : Nat) : Engine :=
  ⟨.any, .ofList trioSegments,
    .compile [("member", ⟨some acceptAnything, .single fun _ _ => .starts (.done (.value true))⟩)] capacity,
    { Options.default with memoCapacity := capacity }⟩

/-- One call for the segment. -/
def trioUsage : Usage := .ask [(.null, .named "trio", none)] none 9

/-- A memo without room has forgotten the definition for 1 when 1.0 is bound.  Still the evaluator is called twice
only, and the next call is answered as with any other memo. -/
theorem trio_without_memo :
    let service := useAll ⟨trioEngine defaultMemoCapacity, .empty, []⟩ [trioUsage]
    let service' := useAll ⟨trioEngine 0, .empty, []⟩ [trioUsage]
    (service.engine.registry.nextSerial, service'.engine.registry.nextSerial) = (2, 3) ∧
      service.journal.invocations "member" = 2 ∧ service'.journal.invocations "member" = 2 ∧
      (service'.ask 9 none [.start .null (.named "trio") none]).2.1 = [some true] := by
  have built : (Engine.build .any .default trioMatchers trioSegments .empty).1 = .ok (trioEngine defaultMemoCapacity) :=
    rfl
  have discreet : ∀ group ∈ trioMatchers, ∀ entry ∈ group, entry.2.Discreet := by
    intro group listed entry mem
    obtain rfl := List.mem_singleton.1 listed
    obtain rfl := List.mem_singleton.1 mem
    exact ⟨fun _ eq => Option.some.inj eq ▸ discreet_acceptAnything, fun _ eq => Option.some.inj eq ▸ fun _ _ _ _ => rfl,
      nofun⟩
  have room : Memo.isReservable 0 = true := by decide
  have usual : trioUsage.Discreet := by
    intro call mem
    obtain rfl := List.mem_singleton.1 mem
    exact nofun
  obtain ⟨engine', built', same⟩ := capacity_does_not_show built discreet room
  obtain rfl : trioEngine 0 = engine' := Except.ok.inj (congrArg (·.1) built')
  obtain ⟨journals, -, -, -, ask⟩ := same .empty [] [trioUsage] fun usage mem => List.mem_singleton.1 mem ▸ usual
  have invoked : (useAll ⟨trioEngine defaultMemoCapacity, .empty, []⟩ [trioUsage]).journal.invocations "member" = 2 := by
    decide +kernel
  obtain ⟨-, answers, -⟩ := ask 9 none [(.null, .named "trio", none)] usual
  simp only [List.map_cons, List.map_nil] at answers
  dsimp only
  refine ⟨by decide +kernel, invoked, ?_, ?_⟩
  · rw [← Journal.invocations_canonical, ← journals, Journal.invocations_canonical]
    exact invoked
  · rw [← answers]
    decide +kernel

end Service

end Segmentation
