import Segmentation.Proofs.Crossings
import Segmentation.Proofs.Paces

/-!
# How evaluations come to their ends

An evaluation on its way with its batches is a `Drive.Journey`: its invocations are on time, its batches make their
voyages, and the journal tells of all that was called.  Every pass (`Journey.pass`) and every jump of the clock
(`Journey.advance`) keeps it so.  Where batched evaluators load nothing and answer all their entries nobody waits in vain:
as long as it has not finished somebody is awake, or an alarm is set up to which somebody takes (`Journey.goes_on`).  So
the evaluation comes to its end at the instant at which the last one of its invocations is over (`Drive.arrives`).
-/

namespace Segmentation

/-! ### What becomes of invocations -/

/-- A batched evaluator that loads nothing and answers all its entries. -/
structure BatchEvaluator.Replies (evaluate : BatchEvaluator) : Prop where
  loadless : BatchEvaluator.Loadless evaluate
  settles : ∀ number requests entry, entry < requests.length →
    ∃ wait value, (evaluate number requests).task.Settles entry wait value

/-- What becomes of an invocation that begins with all the others, and the instant at which all is over that it began.
Its argument may be refused, its single evaluator decides, or its entry in a batch is answered. -/
inductive Definition.Ends (scope : Scope) (begun : Nat) (batches : List (List Request)) (definition : Definition) :
    Outcome → Nat → Prop
  | refused {error : Error} (judged : definition.judged scope = .error error) :
    definition.Ends scope begun batches (.error error) (begun + definition.delay)
  | decided {args : Option Json} {evaluate : SingleEvaluator} (judged : definition.judged scope = .ok args)
    (single : definition.matcher.evaluator = .single evaluate) (count : Nat) :
    definition.Ends scope begun batches
      (Invocation.verdict scope definition.name args ((evaluate count ⟨scope.subject, args⟩).final .panicked))
      (begun + definition.delay + (evaluate count ⟨scope.subject, args⟩).delay)
  | answered {args : Option Json} {evaluate : BatchEvaluator} (judged : definition.judged scope = .ok args)
    (batched : definition.matcher.evaluator = .batch evaluate) {batch : List Request} (boards : batch ∈ batches)
    (number : Nat) {entry wait : Nat} {value : Bool} {args' : Option Json}
    (listed : batch[entry]? = some ⟨scope.subject, args'⟩)
    (same : (Request.entry scope.subject args').1 = (Request.entry scope.subject args).1)
    (settles : (evaluate number batch).task.Settles entry wait value) :
    definition.Ends scope begun batches (.ok value)
      (begun + definition.delay + max wait (evaluate number batch).task.delay)

theorem Definition.Ends.mono {scope : Scope} {begun : Nat} {batches more : List (List Request)} {definition : Definition}
    {outcome : Outcome} {last : Nat} (ends : definition.Ends scope begun batches outcome last) (sub : batches ⊆ more) :
    definition.Ends scope begun more outcome last := by
  cases ends with
  | refused judged => exact .refused judged
  | decided judged single count => exact .decided judged single count
  | answered judged batched boards number listed same settles =>
    exact .answered judged batched (sub boards) number listed same settles

/-- What is admitted was judged to be right. -/
theorem Definition.judged_of_admitted (scope : Scope) {definition : Definition} {args : Option Json}
    (admitted : definition.admitted = some args) : definition.judged scope = .ok args := by
  cases judged : definition.judged scope with
  | error error =>
    rw [Definition.admitted_of_refused judged] at admitted
    cases admitted
  | ok other =>
    rw [Definition.admitted_of_judged judged] at admitted
    rw [Option.some.inj admitted]

namespace Stage

variable {scope : Scope} {definition : Definition} {index : Nat} {hub : Hub} {stage : Stage}

/-- Who has asked waits for the answer, or has taken it for its outcome. -/
theorem Asks.of_asked (asks : stage.Asks scope definition index hub) (batched : definition.matcher.isBatched = true)
    {load : Load} (asked : hub.Asked index load) : definition.Requests hub load ∧
      ((∃ span, stage = .awaiting span load) ∨ ∃ outcome, stage = .settled outcome ∧
        (hub.state load).outcome? definition.name scope.segment = some outcome) := by
  have waits : [index] ∈ hub.waiters load := (asked load).2 rfl
  cases stage with
  | fresh => exact absurd waits (asks load)
  | validating span deadline rest => exact absurd waits (asks.1 load)
  | evaluating span args deadline rest =>
    have single : definition.matcher.isBatched = false := asks
    rw [single] at batched
    cases batched
  | awaiting span other =>
    obtain ⟨waiting, requests⟩ := asks
    obtain rfl := (waiting load).1 waits
    exact ⟨requests, .inl ⟨span, rfl⟩⟩
  | settled outcome =>
    rcases asks with single | ⟨silent, -⟩ | ⟨other, waiting, requests, answered⟩
    · rw [single] at batched
      cases batched
    · exact absurd waits (silent load)
    · obtain rfl := (waiting load).1 waits
      exact ⟨requests, .inr ⟨outcome, rfl, answered⟩⟩

/-- Who has not asked has not passed its validation, or was refused. -/
theorem Asks.asked_or_silent (asks : stage.Asks scope definition index hub)
    (batched : definition.matcher.isBatched = true) : (∃ load, hub.Asked index load) ∨
      hub.Silent index ∧ (stage = .fresh ∨ (∃ span deadline rest, stage = .validating span deadline rest) ∨
        definition.admitted = none) := by
  cases stage with
  | fresh => exact .inr ⟨asks, .inl rfl⟩
  | validating span deadline rest => exact .inr ⟨asks.1, .inr (.inl ⟨span, deadline, rest, rfl⟩)⟩
  | evaluating span args deadline rest =>
    have single : definition.matcher.isBatched = false := asks
    rw [single] at batched
    cases batched
  | awaiting span load => exact .inl ⟨load, asks.1⟩
  | settled outcome =>
    rcases asks with single | ⟨silent, refused, -⟩ | ⟨load, waiting, -⟩
    · rw [single] at batched
      cases batched
    · exact .inr ⟨silent, .inr (.inr refused)⟩
    · exact .inl ⟨load, waiting⟩

/-- Who has asked has ended its validation. -/
theorem Timed.delay_le {begun now : Nat} (timed : stage.Timed scope definition begun now)
    (asked : (∃ span load, stage = .awaiting span load) ∨ ∃ outcome, stage = .settled outcome) :
    begun + definition.delay ≤ now := by
  rcases asked with ⟨span, load, rfl⟩ | ⟨outcome, rfl⟩
  · exact timed.1
  · exact timed.1

/-- Who has not ended its validation does so now at the earliest. -/
theorem Timed.le_delay {begun now : Nat} (timed : stage.Timed scope definition begun now)
    (young : stage = .fresh ∨ ∃ span deadline rest, stage = .validating span deadline rest) :
    now ≤ begun + definition.delay := by
  rcases young with rfl | ⟨span, deadline, rest, rfl⟩
  · have timed : begun = now := timed
    omega
  · obtain ⟨ahead, ends, -⟩ := timed
    omega

end Stage

/-! ### Requests on their way -/

/-- All that the queues have accepted are requests of the subject, under their keys. -/
def Hub.Speaks (subject : Json) (hub : Hub) : Prop :=
  ∀ name, ∀ entry ∈ (hub.account name).accepted, ∃ args, entry = Request.entry subject args

namespace Hub.Speaks

variable {subject : Json} {before later : Hub}

theorem of_accepted (speaks : before.Speaks subject)
    (same : ∀ name, (later.account name).accepted = (before.account name).accepted) : later.Speaks subject :=
  fun name entry mem => speaks name entry (same name ▸ mem)

/-- What came into empty queues are requests of the subject. -/
theorem enters (speaks : before.Speaks subject) (drained : before.IsDrained) (grown : before.Extends later)
    {asked : List (String × Option Json)} (enters : Hub.Enters subject asked before later) : later.Speaks subject := by
  intro name entry mem
  obtain ⟨more, accepted⟩ := grown.accepted name
  have rest_eq : (later.account name).rest = more := by
    rw [Account.rest, grown.taken, drained name, ← accepted, List.drop_left]
  rw [← accepted] at mem
  rcases List.mem_append.1 mem with old | new
  · exact speaks name entry old
  · rw [← rest_eq, enters name, drained.rest name] at new
    obtain ⟨args, -, rfl⟩ := List.mem_map.1 (mem_of_mem_firsts new)
    exact ⟨args, rfl⟩

end Hub.Speaks

/-- Behind the poll of the client nothing comes into the queues, if nothing is queued in the end. -/
theorem Drive.accepted_pass {drive : Drive Evaluation} {scene : Scene} (sound : drive.Sound scene.hub)
    (within : (drive.pollClient scene).2.hub.Within) (drained : (drive.pass scene).2.hub.IsDrained) (name : String) :
    ((drive.pass scene).2.hub.account name).accepted = ((drive.pollClient scene).2.hub.account name).accepted := by
  obtain ⟨-, -, -, -, ⟨taken, takes, goes_on⟩, -⟩ := drive.pass_spec sound
  have known (name : String) :
      (taken.account name).taken = ((drive.pollClient scene).2.hub.account name).accepted.length := by
    by_cases mem : name ∈ (drive.pollClient scene).2.hub.names
    · exact (takes.account name).2 mem (within name)
    · have nothing : (taken.account name) = (drive.pollClient scene).2.hub.account name := by
        rw [Hub.account, takes.coalescer, if_neg mem, Hub.account]
      rw [nothing, Hub.account_of_not_mem mem]
      rfl
  have grown := goes_on.extends_
  have same_length : ((drive.pass scene).2.hub.account name).accepted.length = (taken.account name).accepted.length := by
    rw [← drained name, grown.taken, known, (takes.account name).1]
  rw [← (takes.account name).1]
  exact ((grown.accepted name).eq_of_length same_length.symm).symm

/-- Whoever has asked did so when its validation ended, and its request went on a voyage at that instant. -/
def Session.Boards (session : Session) (begun : Nat) (voyages : List Voyage) (hub : Hub) : Prop :=
  ∀ (index : Nat) (i : Invocation) (load : Load), session.invocations[index]? = some i →
    i.definition.matcher.isBatched = true → hub.Asked index load →
    ∃ voyage ∈ voyages, voyage.began = begun + i.definition.delay ∧ voyage.matcher = load.matcher ∧
      load.ticket ∈ voyage.tickets

theorem Session.Boards.of_waiters {session : Session} {begun : Nat} {voyages : List Voyage} {before later : Hub}
    (boards : session.Boards begun voyages before) (same : ∀ load, later.waiters load = before.waiters load) :
    session.Boards begun voyages later := fun index i load here batched asked =>
  boards index i load here batched fun other => same other ▸ asked other

/-- The requests of a pass set out at once, and those who wait for older ones still do. -/
theorem Drive.boards_pass {scope : Scope} {expr : Expr} {before : Journal} {begun : Nat} {drive : Drive Evaluation}
    {scene : Scene} {staff : String → BatchEvaluator → Prop} {voyages more : List Voyage} {passed : Evaluation}
    {later : Hub}
    (boards : drive.client.session.Boards begun voyages scene.hub)
    (informed : drive.client.Informed scope expr before scene.hub) (informed' : passed.Informed scope expr before later)
    (same : passed.session.definitions = drive.client.session.definitions)
    (minds : scene.hub.Minds (drive.pollClient scene).2.hub)
    (waiters : ∀ load, later.waiters load = (drive.pollClient scene).2.hub.waiters load)
    (inquires : scene.Inquires staff (drive.pollClient scene).2)
    (timed : drive.client.session.Timed begun scene.journal.now) (timed' : passed.session.Timed begun scene.journal.now)
    (set_out : ∀ load, ((drive.pollClient scene).2.hub.account load.matcher).taken ≤ load.ticket →
      ((drive.pollClient scene).2.hub.entryOf? load).isSome → ∃ voyage ∈ more,
        voyage.began = scene.journal.now ∧ voyage.matcher = load.matcher ∧ load.ticket ∈ voyage.tickets) :
    passed.session.Boards begun (voyages ++ more) later := by
  intro index i load here batched asked
  obtain ⟨requests, stage⟩ := (informed'.asks index i here).of_asked batched asked
  have waits : [index] ∈ (drive.pollClient scene).2.hub.waiters load := by
    rw [← waiters]
    exact (asked load).2 rfl
  -- the invocation before the pass
  obtain ⟨old, there, definition⟩ : ∃ old, drive.client.session.invocations[index]? = some old ∧
      old.definition = i.definition := by
    have at_index := congrArg (·[index]?) same
    simp only [Session.definitions, List.getElem?_map, here, Option.map_some] at at_index
    exact Option.map_eq_some_iff.1 at_index.symm
  have old_batched : old.definition.matcher.isBatched = true := definition ▸ batched
  rcases (informed.asks index old there).asked_or_silent old_batched with ⟨first, asked_first⟩ | ⟨silent, young⟩
  · -- it asked before, and still waits for the same load
    have still : [index] ∈ later.waiters first := by
      rw [waiters]
      exact minds.grows first ((asked_first first).2 rfl)
    obtain rfl := (asked first).1 still
    obtain ⟨voyage, listed, began, on_board⟩ := boards index old first there old_batched asked_first
    exact ⟨voyage, List.mem_append_left _ listed, definition ▸ began, on_board⟩
  · -- it asked in this pass
    have behind : ((drive.pollClient scene).2.hub.account load.matcher).taken ≤ load.ticket := by
      rw [inquires.loads.extends_.taken]
      exact (inquires.waiters load _ waits).resolve_left (silent load)
    obtain ⟨voyage, listed, began, on_board⟩ := set_out load behind (Hub.isSome_entryOf?_of_mem_waiters waits)
    refine ⟨voyage, List.mem_append_right _ listed, began.trans ?_, on_board⟩
    have reached : begun + i.definition.delay ≤ scene.journal.now := by
      refine (timed' index i here).delay_le (stage.imp ?_ ?_)
      · rintro ⟨span, awaits⟩
        exact ⟨span, load, awaits⟩
      · rintro ⟨outcome, settled, -⟩
        exact ⟨outcome, settled⟩
    have early (young : old.stage = .fresh ∨ ∃ span deadline rest, old.stage = .validating span deadline rest) :
        scene.journal.now ≤ begun + i.definition.delay := definition ▸ (timed index old there).le_delay young
    rcases young with fresh | validating | refused
    · exact Nat.le_antisymm (early (.inl fresh)) reached
    · exact Nat.le_antisymm (early (.inr validating)) reached
    · obtain ⟨-, args, request, admitted, -⟩ := requests
      rw [← definition, refused] at admitted
      cases admitted

/-! ### What the journal tells -/

theorem Journal.Dates.unique {before later : Journal} {written written' : List Event} (dates : before.Dates written later)
    (dates' : before.Dates written' later) : written = written' :=
  List.append_cancel_left (dates.writes.symm.trans dates'.writes)

/-- What was written since another journal tells of calls of single evaluators, and of batches. -/
def Journal.Tells (first : Journal) (calls : List (Nat × String × Option Json)) (chronicle : List (Nat × Happening))
    (later : Journal) : Prop :=
  ∃ written, later.entries = first.entries ++ written ∧ calls.Perm (Journal.calls written) ∧
    Journal.batchCalls written = Segmentation.batchCalls chronicle

/-- A note about a batch tells of no call of a single evaluator. -/
theorem Event.IsBatchNote.call? {event : Event} (note : event.IsBatchNote) : event.call? = none := by
  unfold IsBatchNote at note
  split at note
  all_goals first | rfl | exact note.elim

/-- The poll of a pass tells of the calls of single evaluators, and what follows of batches. -/
theorem Drive.tells_pass {first : Journal} {begun : Nat} {chronicle : List (Nat × Happening)} {drive : Drive Evaluation}
    {scene : Scene} (tells : first.Tells (drive.client.session.calls begun) chronicle scene.journal)
    (polled : ∃ written, scene.journal.Dates written (drive.pollClient scene).2.journal ∧
      ((drive.pollClient scene).1.client.session.calls begun).Perm
        (drive.client.session.calls begun ++ Journal.calls (written.map (scene.journal.now, ·)))) :
    first.Tells ((drive.pollClient scene).1.client.session.calls begun)
      (chronicle ++ (drive.happens scene).map (scene.journal.now, ·)) (drive.pass scene).2.journal := by
  obtain ⟨sofar, entries, calls, batches⟩ := tells
  obtain ⟨asked, dates, all⟩ := polled
  obtain ⟨asked', dates', batchless⟩ := (drive.pollClient_stands scene).journal
  obtain rfl := dates.unique dates'
  obtain ⟨noted, writes, notes, told⟩ := drive.notes_pass scene
  have dated := (drive.pass_stands scene).journal.dates writes
  have silent : noted.filterMap Event.call? = [] := List.filterMap_eq_nil_iff.2 fun event mem => (notes event mem).call?
  refine ⟨sofar ++ (asked ++ noted).map (scene.journal.now, ·), ?_, ?_, ?_⟩
  · rw [dated.2, dates.1, dates.2, entries, List.map_append, List.append_assoc, List.append_assoc]
  · rw [List.map_append, Journal.calls_append, Journal.calls_append, Journal.calls_map noted, silent, List.map_nil,
      List.append_nil]
    exact all.trans (calls.append_right _)
  · have batched : noted.filterMap Event.batchCall? = (drive.happens scene).filterMap Happening.batchCall? :=
      told.trans (Happening.filterMap_batchCall? _).symm
    have split (some more : List (Nat × Event)) :
        Journal.batchCalls (some ++ more) = Journal.batchCalls some ++ Journal.batchCalls more := List.filterMap_append
    rw [List.map_append, split, split, Journal.batchCalls_silent batchless, List.nil_append, batchCalls_eq batched,
      batchCalls_append, batches]

/-! ### Journeys -/

/-- A batch is called for somebody. -/
theorem Expr.Calls.exists_asked {expr : Expr} {subject : Json} {begun t : Nat} {matcher : String}
    {calls : List (List Request)} (made : expr.Calls subject begun matcher t calls) {batch : List Request}
    (mem : batch ∈ calls) : ∃ d ∈ expr.invoked, d.name = matcher ∧ begun + d.delay = t ∧
      ∃ args, d.admitted = some args ∧ ⟨subject, args⟩ ∈ batch := by
  obtain ⟨args, perm, -, rfl⟩ := made
  split at mem
  · cases mem
  · rename_i some_asked
    have some_first : firsts (fun arg : Option Json => (arg.map Json.stableKey).getD "") args ≠ [] :=
      fun nothing => some_asked (eq_nil_of_firsts nothing)
    obtain ⟨arg, first⟩ := List.exists_mem_of_ne_nil _ some_first
    obtain rfl := List.mem_singleton.1 mem
    obtain ⟨⟨name, other⟩, asks, own⟩ := List.mem_filterMap.1 (perm.subset (mem_of_mem_firsts first))
    obtain ⟨rfl, rfl⟩ : name = matcher ∧ other = arg := by
      have own : (if name = matcher then some other else none) = some arg := own
      split at own
      · rename_i same
        exact ⟨same, Option.some.inj own⟩
      · cases own
    obtain ⟨d, invoked, asks_at⟩ := List.mem_filterMap.1 asks
    unfold Definition.askedAt at asks_at
    split at asks_at
    · rename_i due
      obtain ⟨args', admitted, same⟩ := Option.map_eq_some_iff.1 asks_at
      obtain ⟨rfl, rfl⟩ := Prod.mk.inj same
      exact ⟨d, invoked, rfl, due.2, args', admitted, List.mem_map_of_mem first⟩
    · cases asks_at

/-- The evaluators of the batched matchers in an expression. -/
def Expr.staff (expr : Expr) (name : String) (evaluate : BatchEvaluator) : Prop :=
  ∃ d ∈ expr.leaves, d.name = name ∧ d.matcher.evaluator = .batch evaluate

/-- Somebody takes until an instant at the least: for the validation of its argument, or for all that it begins. -/
inductive Expr.Reaches (expr : Expr) (scope : Scope) (begun : Nat) (chronicle : List (Nat × Happening)) (now : Nat) : Prop
  | begins (le : now ≤ begun)
  | validates {d : Definition} (invoked : d ∈ expr.invoked) (le : now ≤ begun + d.delay)
  | ends {d : Definition} {outcome : Outcome} {last : Nat} (invoked : d ∈ expr.invoked)
    (ends : d.Ends scope begun (callsAt chronicle d.name (begun + d.delay)) outcome last) (le : now ≤ last)

theorem Expr.Reaches.mono {expr : Expr} {scope : Scope} {begun now : Nat} {chronicle : List (Nat × Happening)}
    (reaches : expr.Reaches scope begun chronicle now) (more : List (Nat × Happening)) :
    expr.Reaches scope begun (chronicle ++ more) now := by
  cases reaches with
  | begins le => exact .begins le
  | validates invoked le => exact .validates invoked le
  | ends invoked ends le =>
    refine .ends invoked (ends.mono ?_) le
    rw [callsAt_append]
    exact List.subset_append_left _ _

namespace Drive

/-- An evaluation on its way with its batches: no invocation is late, every request that was made is on its voyage, and
the journal tells of all that was called. -/
structure Travels (scope : Scope) (expr : Expr) (first : Journal) (begun : Nat) (chronicle : List (Nat × Happening))
    (voyages : List Voyage) (drive : Drive Evaluation) (scene : Scene) : Prop where
  run : Run (Evaluation.start (.start scope) expr ⟨.empty, first⟩).1 .empty (chronicle.map (·.2)) drive scene.hub
  timed : drive.client.session.Timed begun scene.journal.now
  fleet : Fleet expr.staff scene.journal.now chronicle voyages drive.flights drive.ready scene.hub
  timely : scene.Timely
  started : begun ≤ scene.journal.now
  boards : drive.client.session.Boards begun voyages scene.hub
  speaks : scene.hub.Speaks scope.subject
  tells : first.Tells (drive.client.session.calls begun) chronicle scene.journal
  reaches : expr.Reaches scope begun chronicle scene.journal.now

/-- It is on schedule, and everybody in it who sleeps will be woken. -/
structure Journey (scope : Scope) (expr : Expr) (first : Journal) (begun horizon : Nat)
    (chronicle : List (Nat × Happening)) (voyages : List Voyage) (drive : Drive Evaluation) (scene : Scene) : Prop
    extends Travels scope expr first begun chronicle voyages drive scene where
  onSchedule : drive.OnSchedule scope expr begun horizon scene.journal.now chronicle scene.hub
  paced : drive.client.Paced begun scene.journal.now scene.hub

variable {scope : Scope} {expr : Expr} {first : Journal} {begun horizon : Nat} {chronicle : List (Nat × Happening)}
  {voyages : List Voyage} {drive : Drive Evaluation} {scene : Scene}

namespace Travels

theorem informed (travels : Travels scope expr first begun chronicle voyages drive scene)
    (batching : scope.batching = true) : drive.client.Informed scope expr first scene.hub :=
  (travels.run.free.keeps batching).2

/-- A pass after which the evaluation is on schedule, and at whose poll nobody was late. -/
theorem pass (travels : Travels scope expr first begun chronicle voyages drive scene) (batching : scope.batching = true)
    (replies : ∀ name evaluate, expr.staff name evaluate → BatchEvaluator.Replies evaluate)
    (modest : drive.Modest scene.hub) {now : Nat} (now_is : scene.journal.now = now)
    (onSchedule : (drive.pass scene).1.OnSchedule scope expr begun horizon now
      (chronicle ++ (drive.happens scene).map (now, ·)) (drive.pass scene).2.hub)
    {asked : List (String × Option Json)}
    (enters : Hub.Enters scope.subject asked scene.hub (drive.pollClient scene).2.hub)
    (paced : (drive.pollClient scene).1.client.Paced begun now (drive.pollClient scene).2.hub)
    (tells : ∃ written, scene.journal.Dates written (drive.pollClient scene).2.journal ∧
      ((drive.pollClient scene).1.client.session.calls begun).Perm
        (drive.client.session.calls begun ++ Journal.calls (written.map (now, ·)))) :
    ∃ more, Journey scope expr first begun horizon (chronicle ++ (drive.happens scene).map (now, ·)) (voyages ++ more)
      (drive.pass scene).1 (drive.pass scene).2 := by
  subst now_is
  obtain ⟨hub, journal⟩ := scene
  obtain ⟨manned, informed⟩ := travels.run.free.keeps batching
  obtain ⟨accounted, minds, same, told, proceeds, -⟩ := pass_keeps batching manned informed journal
  have run : Run (Evaluation.start (.start scope) expr ⟨.empty, first⟩).1 .empty
      ((chronicle ++ (drive.happens ⟨hub, journal⟩).map (journal.now, ·)).map (·.2)) (drive.pass ⟨hub, journal⟩).1
      (drive.pass ⟨hub, journal⟩).2.hub := by
    rw [map_snd_append]
    exact travels.run.pass journal
  have within : hub.Within := fun name => Nat.le_of_eq (modest.drained name)
  have employed (i : Invocation) (mem : i ∈ drive.client.session.invocations) (evaluate : BatchEvaluator)
      (batched : i.definition.matcher.evaluator = .batch evaluate) : expr.staff i.definition.name evaluate :=
    ⟨i.definition, informed.leaves _ (List.mem_map_of_mem mem), rfl, batched⟩
  have inquires := drive.pollClient_inquires employed ⟨hub, journal⟩ within
  obtain ⟨more, fleet, set_out⟩ := travels.fleet.pass
    (fun name evaluate employed => (replies name evaluate employed).loadless)
    inquires accounted
  have stands := drive.pass_stands ⟨hub, journal⟩
  have now_eq : (drive.pass ⟨hub, journal⟩).2.journal.now = journal.now := stands.journal.now.trans inquires.now
  have asleep : (drive.pass ⟨hub, journal⟩).1.client.Paced begun journal.now (drive.pass ⟨hub, journal⟩).2.hub :=
    paced.stands told.seen stands.alarms stands.woken
  obtain ⟨_, delivered⟩ := modest.delivered
  have accepted := accepted_pass delivered.sound (within.mono inquires.loads.extends_) onSchedule.modest.drained
  refine ⟨more, ⟨run, ?_, ?_, pass_timely drive (inquires.timely travels.timely), now_eq ▸ travels.started, ?_, ?_,
    tells_pass travels.tells tells, ?_⟩, ?_, ?_⟩
  · rw [now_eq]
    exact asleep.timed
  · rw [now_eq]
    exact fleet
  · exact boards_pass travels.boards informed (run.free.keeps batching).2 same minds proceeds.follows.waiters inquires
      travels.timed asleep.timed set_out
  · exact (travels.speaks.enters modest.drained inquires.loads.extends_ enters).of_accepted accepted
  · rw [now_eq]
    exact travels.reaches.mono _
  · rw [now_eq]
    exact onSchedule
  · rw [now_eq]
    exact asleep

/-- An evaluation that was launched and has not begun. -/
theorem start (scope : Scope) (expr : Expr) (first : Journal) :
    let started := Evaluation.start (.start scope) expr ⟨.empty, first⟩
    Travels scope expr first first.now [] [] (.start started.1) started.2 := by
  intro started
  have notices : first.Adds (fun event => event.IsBatchless ∧ event.call? = none) started.2.journal :=
    Session.launch_adds (fun _ => ⟨rfl, rfl⟩) expr _ first
  have now_eq : started.2.journal.now = first.now := notices.now
  have unbegun := Session.Unbegun.of_start scope expr first
  have blank : started.1.session.calls first.now = [] := List.flatMap_eq_nil_iff.2 fun i mem => by
    rw [(unbegun.fresh i mem).1]
    rfl
  refine ⟨.start, ?_, .start _ _, ⟨List.forall_mem_nil _, .nil⟩, Nat.le_of_eq now_eq.symm,
    fun index i load here batched asked => ?_,
    fun name entry mem => ?_, ?_, .begins (Nat.le_of_eq now_eq)⟩
  · rw [now_eq]
    exact (Evaluation.Paced.start scope expr first).timed
  · cases (asked load).2 rfl
  · cases mem
  · obtain ⟨written, dates, plain⟩ := notices
    refine ⟨_, dates.2, ?_, ?_⟩
    · have silent : written.filterMap Event.call? = [] := List.filterMap_eq_nil_iff.2 fun event mem => (plain event mem).2
      change (started.1.session.calls first.now).Perm _
      rw [blank, Journal.calls_map, silent]
      exact .nil
    · exact Journal.batchCalls_silent (fun event mem => (plain event mem).1) first.now

end Travels

/-- A pass polls its client as it is, unless it has settled. -/
theorem pollClient_paced {hub : Hub} {journal : Journal} (paced : drive.client.Paced begun journal.now hub)
    (polls : let r := drive.client.poll ⟨hub, journal⟩
      r.1.Paced begun journal.now r.2.hub ∧ ∃ written, journal.Dates written r.2.journal ∧
        (r.1.session.calls begun).Perm
          (drive.client.session.calls begun ++ Journal.calls (written.map (journal.now, ·)))) :
    let r := drive.pollClient ⟨hub, journal⟩
    r.1.client.Paced begun journal.now r.2.hub ∧ ∃ written, journal.Dates written r.2.journal ∧
      (r.1.client.session.calls begun).Perm
        (drive.client.session.calls begun ++ Journal.calls (written.map (journal.now, ·))) := by
  unfold pollClient
  split
  · refine ⟨paced, [], ⟨rfl, (List.append_nil _).symm⟩, ?_⟩
    exact .of_eq (List.append_nil _).symm
  · exact polls

/-- The batched evaluators of an expression load nothing. -/
theorem loadless_of_replies (replies : ∀ name evaluate, expr.staff name evaluate → BatchEvaluator.Replies evaluate) :
    ∀ d ∈ expr.leaves, d.matcher.Loadless := fun d mem evaluate batched =>
  (replies d.name evaluate ⟨d, mem, rfl, batched⟩).loadless

namespace Journey

section

variable (batching : scope.batching = true)
  (replies : ∀ name evaluate, expr.staff name evaluate → BatchEvaluator.Replies evaluate)

include batching replies

/-- The first pass. -/
theorem first_pass (first : Journal) :
    let started := Evaluation.start (.start scope) expr ⟨.empty, first⟩
    let drive := Drive.start started.1
    ∃ voyages, Journey scope expr first first.now (first.now + 1) ((drive.happens started.2).map (first.now, ·)) voyages
      (drive.pass started.2).1 (drive.pass started.2).2 := by
  intro started drive
  have notices : first.Adds (fun _ => True) started.2.journal := Session.launch_adds (fun _ => trivial) expr _ first
  have paced : drive.client.Paced first.now started.2.journal.now .empty := notices.now ▸ .start scope expr first
  have unbegun := Session.Unbegun.of_start scope expr first
  have polled := pollClient_paced paced (paced.poll_looking (unbegun.scope_eq.symm ▸ batching) fun index i here sleeps => by
    rw [(unbegun.fresh i (List.mem_of_getElem? here)).1] at sleeps
    cases sleeps)
  rw [notices.now] at polled
  obtain ⟨more, journey⟩ := (Travels.start scope expr first).pass batching replies (modest_start _) notices.now
    (onSchedule_first expr batching (loadless_of_replies replies) first started.2.journal notices.now)
    (asks_first expr batching first started.2.journal notices.now).2 polled.1 polled.2
  exact ⟨more, journey⟩

/-- Every later pass. -/
theorem pass (journey : Journey scope expr first begun horizon chronicle voyages drive scene) :
    ∃ more, Journey scope expr first begun (max horizon (scene.journal.now + 1))
      (chronicle ++ (drive.happens scene).map (scene.journal.now, ·)) (voyages ++ more) (drive.pass scene).1
      (drive.pass scene).2 := by
  obtain ⟨hub, journal⟩ := scene
  have onSchedule := journey.onSchedule
  obtain ⟨-, asked, -, enters⟩ := onSchedule.asks batching rfl
  have paced : drive.client.Paced begun journal.now hub := journey.paced
  have polled := pollClient_paced paced (paced.poll onSchedule.clocked batching)
  exact journey.toTravels.pass batching replies onSchedule.modest rfl
    (onSchedule.pass batching (loadless_of_replies replies) rfl) enters polled.1 polled.2

end

/-- Time goes on to the first alarm while all sleep. -/
theorem advance (journey : Journey scope expr first begun horizon chronicle voyages drive scene)
    (asleep : drive.awake scene.hub = false) {t : Nat} (next : scene.hub.nextAlarm = some t)
    (reaches : expr.Reaches scope begun chronicle t) :
    Journey scope expr first begun (max horizon t) (chronicle ++ (scene.hub.happensBy t).map (t, ·)) voyages
      (drive.advance scene.hub t).1 ⟨(drive.advance scene.hub t).2, scene.journal.moveTo t⟩ := by
  obtain ⟨hub, journal⟩ := scene
  obtain ⟨le, earliest⟩ := journey.timely.first next
  have earliest' : ∀ d ∈ hub.deadlines, t ≤ d := fun d mem => by
    obtain ⟨alarm, set, rfl⟩ := List.mem_map.1 mem
    exact earliest alarm set
  have hub_eq : (drive.advance hub t).2 = hub.advance t := drive.hub_advance hub t
  have client : (drive.advance hub t).1.client = drive.client := Evaluation.client_advance drive hub t
  have unready : drive.ready = [] := by
    simp only [awake, Bool.or_eq_false_iff, Bool.not_eq_false', List.isEmpty_iff] at asleep
    exact asleep.2
  have paced := journey.paced.advance journey.onSchedule.clocked (client_sleeps asleep) le earliest
  have onSchedule := journey.onSchedule.advance asleep earliest'
  have fleet := journey.fleet.advance unready le earliest
  have run := journey.run.advance t
  have follows := (journey.fleet.manned.accounted.advance t).2
  obtain ⟨-, ledger⟩ := drive.advance_spec hub t
  rw [hub_eq] at onSchedule fleet run ledger ⊢
  refine ⟨⟨?_, client ▸ paced.timed, fleet, advance_timely hub journey.timely t, Nat.le_trans journey.started le, ?_, ?_,
    ?_, reaches.mono _⟩, onSchedule, client ▸ paced⟩
  · rw [map_snd_append]
    exact run
  · rw [client]
    exact journey.boards.of_waiters follows.waiters
  · exact journey.speaks.of_accepted fun name => congrArg Account.accepted (Hub.account_of_ledger ledger name)
  · obtain ⟨written, entries, calls, batches⟩ := journey.tells
    refine ⟨written, entries, client ▸ calls, ?_⟩
    rw [batchCalls_append, batchCalls_silent (happensBy_silent (fun _ _ => rfl) hub t), List.append_nil]
    exact batches

end Journey

/-! ### Nobody waits in vain -/

/-- A batch that was called is one of the calls of its instant. -/
theorem mem_callsAt {t flight : Nat} {matcher : String} {requests : List Request}
    (boarded : (t, Happening.boarded flight matcher requests) ∈ chronicle) : requests ∈ callsAt chronicle matcher t := by
  refine List.mem_map.2 ⟨(flight, matcher, requests), List.mem_filter.2 ⟨?_, decide_eq_true rfl⟩, rfl⟩
  exact List.mem_filterMap.2 ⟨_, List.mem_filter.2 ⟨boarded, decide_eq_true rfl⟩, rfl⟩

namespace Journey

section

variable (batching : scope.batching = true)
  (replies : ∀ name evaluate, expr.staff name evaluate → BatchEvaluator.Replies evaluate)
  {matchers : String → Option Matcher} (bound : ∀ d ∈ expr.leaves, matchers d.name = some d.matcher)

include bound in
/-- A matcher has one evaluator. -/
theorem evaluator_eq {d : Definition} (leaf : d ∈ expr.leaves) {evaluate : BatchEvaluator}
    (employed : expr.staff d.name evaluate) : d.matcher.evaluator = .batch evaluate := by
  obtain ⟨e, other, same, batched⟩ := employed
  have same_matcher := bound e other
  rw [same, bound d leaf] at same_matcher
  rw [Option.some.inj same_matcher]
  exact batched

include batching replies bound in
/-- Whoever has asked has its request on a voyage, which answers it in time. -/
theorem answers (journey : Journey scope expr first begun horizon chronicle voyages drive scene) {index : Nat}
    {i : Invocation} {load : Load} (here : drive.client.session.invocations[index]? = some i)
    (batched : i.definition.matcher.isBatched = true) (asked : scene.hub.Asked index load) :
    ∃ voyage ∈ voyages, ∃ wait value, i.definition.Ends scope begun
        (callsAt chronicle i.definition.name (begun + i.definition.delay)) (.ok value)
        (begun + i.definition.delay + max wait voyage.task.delay) ∧
      voyage.lands = begun + i.definition.delay + voyage.task.delay ∧
      Promised (scene.hub.state load) (Promises drive.flights scene.hub load) scene.journal.now
        (begun + i.definition.delay + wait) value := by
  have informed := journey.informed batching
  obtain ⟨voyage, listed, began, matcher, on_board⟩ := journey.boards index i load here batched asked
  obtain ⟨⟨name, args, request, admitted, accepted⟩, -⟩ := (informed.asks index i here).of_asked batched asked
  have leaf : i.definition ∈ expr.leaves := informed.leaves _ (List.mem_map_of_mem (List.mem_of_getElem? here))
  have sails := journey.fleet.sails voyage listed
  obtain ⟨entry, ticket⟩ := List.mem_iff_getElem?.1 on_board
  -- the entry of the voyage is the request
  obtain ⟨key, request', given, there⟩ := sails.given entry load.ticket ticket
  rw [matcher, accepted] at given
  obtain ⟨rfl, rfl⟩ := Prod.mk.inj (Option.some.inj given)
  obtain ⟨args', speaks⟩ := journey.speaks load.matcher _ (List.mem_of_getElem? accepted)
  obtain ⟨same, rfl⟩ := Prod.mk.inj speaks
  obtain ⟨evaluate, number, employed, calls⟩ := sails.called
  rw [matcher, name] at employed
  obtain ⟨wait, value, settles⟩ := (replies _ evaluate employed).settles number voyage.requests entry
    (List.getElem?_eq_some_iff.1 there).1
  have boarded := mem_callsAt sails.boarded
  rw [began, matcher, name] at boarded
  have ends : i.definition.Ends scope begun (callsAt chronicle i.definition.name (begun + i.definition.delay)) (.ok value)
      (begun + i.definition.delay + max wait (evaluate number voyage.requests).task.delay) :=
    .answered (Definition.judged_of_admitted scope admitted) (evaluator_eq bound leaf employed) boarded number there
      same.symm settles
  rw [← calls] at ends settles
  refine ⟨voyage, listed, wait, value, ends, by rw [Voyage.lands, began], ?_⟩
  rw [← began]
  refine journey.fleet.keeps voyage listed entry load wait value ?_ settles
  rw [BatchTask.entryLoad?, ticket, matcher]
  rfl

include replies bound in
/-- A voyage was made for somebody. -/
theorem voyage_reaches (journey : Journey scope expr first begun horizon chronicle voyages drive scene) {voyage : Voyage}
    (listed : voyage ∈ voyages) {t : Nat} (le : t ≤ voyage.lands) : expr.Reaches scope begun chronicle t := by
  have sails := journey.fleet.sails voyage listed
  have boarded := mem_callsAt sails.boarded
  have served := journey.onSchedule.served voyage.matcher voyage.began
  have calls : expr.Calls scope.subject begun voyage.matcher voyage.began
      (callsAt chronicle voyage.matcher voyage.began) := by
    refine served.1 (Nat.lt_of_not_le fun behind => ?_)
    rw [served.2 behind] at boarded
    cases boarded
  obtain ⟨d, invoked, name, due, args, admitted, request⟩ := calls.exists_asked boarded
  obtain ⟨entry, there⟩ := List.mem_iff_getElem?.1 request
  obtain ⟨evaluate, number, employed, task⟩ := sails.called
  rw [← name] at employed
  obtain ⟨wait, value, settles⟩ := (replies _ evaluate employed).settles number voyage.requests entry
    (List.getElem?_eq_some_iff.1 there).1
  rw [← due, ← name] at boarded
  refine .ends invoked (.answered (Definition.judged_of_admitted scope admitted)
    (evaluator_eq bound (mem_of_mem_firsts invoked) employed) boarded number there rfl settles) ?_
  rw [due, ← task]
  rw [Voyage.lands] at le
  omega

/-- Somebody reaches the next alarm who reaches one of the alarms. -/
theorem exists_next (journey : Journey scope expr first begun horizon chronicle voyages drive scene) {alarm : Alarm}
    (set : alarm ∈ scene.hub.alarms) (reaches : ∀ t ≤ alarm.deadline, expr.Reaches scope begun chronicle t) :
    ∃ t, scene.hub.nextAlarm = some t ∧ expr.Reaches scope begun chronicle t := by
  cases alarms : scene.hub.alarms with
  | nil =>
    rw [alarms] at set
    cases set
  | cons next others =>
    have next_eq : scene.hub.nextAlarm = some next.deadline := by
      rw [Hub.nextAlarm, alarms]
      rfl
    exact ⟨_, next_eq, reaches _ ((journey.timely.first next_eq).2 alarm set)⟩

/-- While no batch can go on all batches in flight have alarms set. -/
theorem flight_alarmed (journey : Journey scope expr first begun horizon chronicle voyages drive scene)
    (unready : drive.ready = []) {flight : Flight} (mem : flight ∈ drive.flights) : ∃ deadline rest number,
      flight.stage = .asleep deadline rest ∧ ⟨deadline, number, .resumeBatch flight.id⟩ ∈ scene.hub.alarms ∧
      ∃ voyage ∈ voyages, deadline ≤ voyage.lands := by
  cases stage : flight.stage with
  | boarding =>
    have ready := (journey.fleet.boarding flight mem stage).1
    rw [unready] at ready
    cases ready
  | asleep deadline rest =>
    obtain ⟨⟨voyage, listed, -, -, -, deadline', rest', stage', lands⟩, due⟩ := journey.fleet.asleep flight mem _ _ stage
    obtain ⟨rfl, rfl⟩ := FlightStage.asleep.inj (stage.symm.trans stage')
    rw [unready] at due
    obtain ⟨-, number, set⟩ := due.resolve_left fun now => nomatch now.2
    exact ⟨deadline, rest, number, rfl, set, voyage, listed, by omega⟩

include batching in
/-- A drive that has not finished though all batches have landed has an invocation without an outcome. -/
theorem exists_unsettled (journey : Journey scope expr first begun horizon chronicle voyages drive scene)
    (running : drive.finished = false) (landed : drive.flights = []) : ∃ (index : Nat) (i : Invocation),
      drive.client.session.invocations[index]? = some i ∧ ∀ outcome, i.stage ≠ .settled outcome := by
  have sound := journey.onSchedule.clocked.sound
  obtain ⟨d, leaf, unset⟩ : ∃ d ∈ expr.leaves, drive.client.session.outcomeFor d = none := by
    by_contra all
    have settled : Client.settled drive.client = true := sound.isSome_outcome?_iff.2 fun d leaf =>
      Option.isSome_iff_ne_none.2 fun unset => all ⟨d, leaf, unset⟩
    simp [finished, landed, settled] at running
  have keyed := sound.keyed d leaf
  obtain ⟨i, mem, key⟩ := List.mem_map.1 keyed
  obtain ⟨index, here⟩ := List.mem_iff_getElem?.1 mem
  rw [Session.outcomeFor_eq keyed, ← key, Session.idxOf_key (journey.informed batching).keys here, Session.outcome?_eq,
    here, Option.bind_some] at unset
  refine ⟨index, i, here, fun outcome stage => ?_⟩
  rw [stage] at unset
  cases unset

include batching replies bound in
/-- While all batches have landed, who waits for an answer has one promised to it. -/
theorem awaited_alarm (journey : Journey scope expr first begun horizon chronicle voyages drive scene)
    (asleep : drive.awake scene.hub = false) (landed : drive.flights = []) {index : Nat} {i : Invocation}
    (here : drive.client.session.invocations[index]? = some i) {span : Nat} {load : Load}
    (stage : i.stage = .awaiting span load) (batched : i.definition.matcher.isBatched = true)
    (invoked : i.definition ∈ expr.invoked) :
    ∃ t, scene.hub.nextAlarm = some t ∧ expr.Reaches scope begun chronicle t := by
  have informed := journey.informed batching
  have asks := informed.asks index i here
  rw [stage] at asks
  have waiting : scene.hub.state load = .waiting := by
    by_contra closed
    have stale : drive.client.session.Stale scene.hub index := ⟨i, span, load, here, stage, closed⟩
    exact Evaluation.not_told (client_sleeps asleep) (informed.awaits_of_stale stale).2 (informed.told index stale)
  obtain ⟨voyage, listed, wait, value, ends, -, promised⟩ := journey.answers batching replies bound here batched asks.1
  rcases promised with ⟨-, ⟨number, set⟩ | ⟨flight, mem, deadline, rest, sleeping, promises⟩, -⟩ | ⟨answered, -⟩
  · exact journey.exists_next set fun t (le : t ≤ begun + i.definition.delay + wait) => .ends invoked ends (by omega)
  · rw [landed] at mem
    cases mem
  · rw [waiting] at answered
    cases answered

include batching replies bound in
/-- A drive that has not finished and in which all sleep has an alarm set, up to which somebody takes. -/
theorem goes_on (journey : Journey scope expr first begun horizon chronicle voyages drive scene)
    (running : drive.finished = false) (asleep : drive.awake scene.hub = false) :
    ∃ t, scene.hub.nextAlarm = some t ∧ expr.Reaches scope begun chronicle t := by
  have clocked := journey.onSchedule.clocked
  have unready : drive.ready = [] := by
    simp only [awake, Bool.or_eq_false_iff, Bool.not_eq_false', List.isEmpty_iff] at asleep
    exact asleep.2
  cases flights : drive.flights with
  | cons flight others =>
    have mem : flight ∈ drive.flights := flights ▸ List.mem_cons_self
    obtain ⟨deadline, rest, number, -, set, voyage, listed, le⟩ := journey.flight_alarmed unready mem
    exact journey.exists_next set fun t before => journey.voyage_reaches replies bound listed (Nat.le_trans before le)
  | nil =>
    obtain ⟨index, i, here, unsettled⟩ := journey.exists_unsettled batching running flights
    have invoked : i.definition ∈ expr.invoked := by
      rw [← clocked.definitions_eq]
      exact List.mem_map_of_mem (List.mem_of_getElem? here)
    have timed := journey.timed index i here
    have sleeps {deadline : Nat} (until_then : i.stage.deadline? = some deadline) :
        ∃ number, ⟨deadline, number, .wake [index]⟩ ∈ scene.hub.alarms :=
      (journey.paced.sleeps clocked (client_sleeps asleep) here until_then).2
    cases stage : i.stage with
    | fresh => exact absurd stage (clocked.begins here)
    | settled outcome => exact absurd stage (unsettled outcome)
    | validating span deadline rest =>
      rw [stage] at timed
      obtain ⟨number, set⟩ := sleeps (by rw [stage]; rfl)
      have ends := timed.2.1
      exact journey.exists_next set fun t (le : t ≤ deadline) => .validates invoked (by omega)
    | evaluating span args deadline rest =>
      rw [stage, clocked.scope_eq] at timed
      obtain ⟨-, judged, evaluate, count, single, -, ends⟩ := timed
      obtain ⟨number, set⟩ := sleeps (by rw [stage]; rfl)
      exact journey.exists_next set fun t (le : t ≤ deadline) =>
        .ends invoked (.decided judged single count) (by omega)
    | awaiting span load =>
      rw [stage] at timed
      obtain ⟨-, args, evaluate, -, evaluator⟩ := timed
      have batched : i.definition.matcher.isBatched = true := by rw [Matcher.isBatched, evaluator]
      exact journey.awaited_alarm batching replies bound asleep flights here stage batched invoked

end

end Journey

/-! ### Arrival -/

/-- A drive at its end: all invocations have come to what they come to, and somebody took until now. -/
structure Arrived (scope : Scope) (expr : Expr) (first : Journal) (chronicle : List (Nat × Happening))
    (drive : Drive Evaluation) (scene : Scene) : Prop where
  concludes : ∃ outcome, drive.client.outcome? = some outcome ∧
    Expr.Concludes drive.client.session.outcomeFor expr outcome
  ends : ∀ d ∈ expr.invoked, ∃ outcome last,
    d.Ends scope first.now (callsAt chronicle d.name (first.now + d.delay)) outcome last ∧
    drive.client.session.outcomeFor d = some outcome ∧ last ≤ scene.journal.now
  started : first.now ≤ scene.journal.now
  reaches : expr.Reaches scope first.now chronicle scene.journal.now
  calls : ∀ matcher t, expr.Calls scope.subject first.now matcher t (callsAt chronicle matcher t)
  tells : first.Tells (expr.invoked.flatMap (·.calls first.now)) chronicle scene.journal

namespace Journey

variable (batching : scope.batching = true)
  (replies : ∀ name evaluate, expr.staff name evaluate → BatchEvaluator.Replies evaluate)
  {matchers : String → Option Matcher} (bound : ∀ d ∈ expr.leaves, matchers d.name = some d.matcher)

include batching replies bound

/-- Every journey comes to its end. -/
theorem finishes (journey : Journey scope expr first begun horizon chronicle voyages drive scene) :
    ∃ horizon chronicle voyages, ∃ final : Drive Evaluation × Scene, Machine.Finishes (drive, scene) final ∧
      final.1.finished = true ∧ Journey scope expr first begun horizon chronicle voyages final.1 final.2 := by
  -- what is left to begin with, and for what is the same in it what is left to do
  induction greater : drive.client.session.weight using Nat.strongRecOn
    generalizing horizon chronicle voyages drive scene with
  | ind weight fewer =>
  induction smaller : drive.toil scene.hub using Nat.strongRecOn
    generalizing horizon chronicle voyages drive scene with
  | ind size less =>
    subst greater smaller
    cases ended : drive.finished with
    | true => exact ⟨_, _, _, (drive, scene), .done ended, ended, journey⟩
    | false =>
      cases up : drive.awake scene.hub with
      | true =>
        obtain ⟨more, passed⟩ := journey.pass batching replies
        rcases pass_labours scene journey.onSchedule.modest up with begins | ⟨same, toils⟩
        · obtain ⟨_, _, _, final, run, rest⟩ := fewer _ begins passed rfl
          exact ⟨_, _, _, final, .polls ended up run, rest⟩
        · obtain ⟨_, _, _, final, run, rest⟩ := less _ toils passed same rfl
          exact ⟨_, _, _, final, .polls ended up run, rest⟩
      | false =>
        obtain ⟨t, next, reaches⟩ := journey.goes_on batching replies bound ended up
        have later := journey.advance up next reaches
        have went_off := drive.advance_labours scene.hub t
        have same : (drive.advance scene.hub t).1.client.session.weight = drive.client.session.weight := by
          rw [Evaluation.client_advance]
        have some_due : 0 < (scene.hub.takeDue t).1.length := by
          obtain ⟨alarm, first_alarm, rfl⟩ := Option.map_eq_some_iff.1 next
          have due : alarm ∈ (scene.hub.takeDue alarm.deadline).1 :=
            List.mem_filter.2 ⟨List.mem_of_mem_head? first_alarm, decide_eq_true (Nat.le_refl _)⟩
          exact List.length_pos_of_mem due
        have toils : (drive.advance scene.hub t).1.toil (drive.advance scene.hub t).2 < drive.toil scene.hub := by omega
        obtain ⟨_, _, _, final, run, rest⟩ := less _ toils later same rfl
        exact ⟨_, _, _, final, .waits ⟨ended, up⟩ next run, rest⟩

omit replies bound in
/-- All invocations have settled when the drive has finished. -/
theorem settled (journey : Journey scope expr first begun horizon chronicle voyages drive scene)
    (ended : drive.finished = true) {index : Nat} {i : Invocation}
    (here : drive.client.session.invocations[index]? = some i) :
    ∃ outcome, i.stage = .settled outcome ∧ drive.client.session.outcomeFor i.definition = some outcome := by
  have informed := journey.informed batching
  have leaf : i.definition ∈ expr.leaves := informed.leaves _ (List.mem_map_of_mem (List.mem_of_getElem? here))
  have set : (drive.client.session.outcomeFor i.definition).isSome :=
    journey.onSchedule.clocked.sound.isSome_outcome?_iff.1 (Bool.and_eq_true_iff.1 ended).1 _ leaf
  obtain ⟨outcome, found⟩ := Option.isSome_iff_exists.1 set
  refine ⟨outcome, ?_, found⟩
  rw [Session.outcomeFor_of_getElem? informed.keys here, Session.outcome?_eq, here, Option.bind_some] at found
  split at found
  · rename_i stage
    rw [stage, Option.some.inj found]
  · cases found

/-- What all invocations have come to when the drive has finished. -/
theorem ends (journey : Journey scope expr first begun horizon chronicle voyages drive scene)
    (ended : drive.finished = true) : ∀ d ∈ expr.invoked, ∃ outcome last,
      d.Ends scope begun (callsAt chronicle d.name (begun + d.delay)) outcome last ∧
      drive.client.session.outcomeFor d = some outcome ∧ last ≤ scene.journal.now := by
  intro d invoked
  have clocked := journey.onSchedule.clocked
  have informed := journey.informed batching
  have flights : drive.flights = [] := List.isEmpty_iff.1 (Bool.and_eq_true_iff.1 ended).2
  rw [← clocked.definitions_eq] at invoked
  obtain ⟨i, mem, rfl⟩ := List.mem_map.1 invoked
  obtain ⟨index, here⟩ := List.mem_iff_getElem?.1 mem
  obtain ⟨outcome, stage, found⟩ := journey.settled batching ended here
  have timed := journey.timed index i here
  rw [stage, clocked.scope_eq] at timed
  obtain ⟨validated, comes⟩ := timed
  cases judged : i.definition.judged scope with
  | error error =>
    simp only [judged] at comes
    subst comes
    exact ⟨_, _, .refused judged, found, validated⟩
  | ok args =>
    cases evaluator : i.definition.matcher.evaluator with
    | single evaluate =>
      simp only [judged, evaluator] at comes
      obtain ⟨count, decided, rfl⟩ := comes
      exact ⟨_, _, .decided judged evaluator count, found, decided⟩
    | batch evaluate =>
      have batched : i.definition.matcher.isBatched = true := by
        rw [Matcher.isBatched, evaluator]
      have asks := informed.asks index i here
      rw [stage] at asks
      rcases asks with single | ⟨-, refused, -⟩ | ⟨load, asked, -, answered⟩
      · rw [single] at batched
        cases batched
      · rw [Definition.admitted_of_judged judged] at refused
        cases refused
      · obtain ⟨voyage, listed, wait, value, ends, lands, promised⟩ :=
          journey.answers batching replies bound here batched asked
        rcases promised with ⟨waiting, -⟩ | ⟨has, reached⟩
        · rw [waiting] at answered
          cases answered
        · rw [has] at answered
          obtain rfl := Option.some.inj answered
          have landed : voyage.lands ≤ scene.journal.now := by
            rcases journey.fleet.underway voyage listed with ⟨flight, aloft, -⟩ | landed
            · rw [flights] at aloft
              cases aloft
            · exact landed
          exact ⟨_, _, ends, found, by omega⟩

/-- A drive that has finished has arrived. -/
theorem arrived (journey : Journey scope expr first first.now horizon chronicle voyages drive scene)
    (ended : drive.finished = true) : Arrived scope expr first chronicle drive scene := by
  have clocked := journey.onSchedule.clocked
  have settled : drive.client.outcome?.isSome := (Bool.and_eq_true_iff.1 ended).1
  obtain ⟨outcome, concluded⟩ := Option.isSome_iff_exists.1 settled
  refine ⟨⟨outcome, concluded, clocked.sound.concludes concluded⟩, journey.ends batching replies bound ended,
    journey.started, journey.reaches, fun matcher t => journey.onSchedule.calls settled matcher t, ?_⟩
  have all_called : drive.client.session.calls first.now = expr.invoked.flatMap (·.calls first.now) := by
    rw [← clocked.definitions_eq, Session.definitions, Session.calls, List.flatMap_map]
    refine List.flatMap_congr fun i mem => ?_
    obtain ⟨index, here⟩ := List.mem_iff_getElem?.1 mem
    obtain ⟨outcome, stage, -⟩ := journey.settled batching ended here
    rw [stage]
    rfl
  rw [← all_called]
  exact journey.tells

end Journey

/-- Every evaluation whose batched evaluators load nothing and answer all their entries comes to its end. -/
theorem arrives {scope : Scope} (batching : scope.batching = true) {expr : Expr}
    (replies : ∀ name evaluate, expr.staff name evaluate → BatchEvaluator.Replies evaluate)
    {matchers : String → Option Matcher} (bound : ∀ d ∈ expr.leaves, matchers d.name = some d.matcher)
    (first : Journal) :
    let started := Evaluation.start (.start scope) expr ⟨.empty, first⟩
    ∃ chronicle, ∃ final : Drive Evaluation × Scene,
      Machine.Finishes (Machine.poll (Drive.start started.1, started.2)) final ∧
      Arrived scope expr first chronicle final.1 final.2 := by
  intro started
  obtain ⟨_, journey⟩ := Journey.first_pass batching replies first
  obtain ⟨_, chronicle, _, final, run, ended, journey⟩ := journey.finishes batching replies bound
  exact ⟨chronicle, final, run, journey.arrived batching replies bound ended⟩

end Drive

end Segmentation
