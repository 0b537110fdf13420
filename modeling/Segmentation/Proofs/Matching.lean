import Segmentation.Proofs.Concert
import Segmentation.Proofs.Opening
import Segmentation.Proofs.Utf8

/-!
# All segments at once

To find the segments to which a subject belongs an engine asks for all of them at once.  The calls begin one after the
other, each with the registry that the one before has left (`Party.foldl_pollCall_waiting`), as they do when they are
asked in turn; and from then on each goes as it would alone.  So the answers are those that are given in turn, and each
call does among the others what it does alone (`Service.matching_agrees_with_turns`).
-/

namespace Segmentation

/-! ### Entering one after the other -/

namespace Party

/-- Another call begins, and is one of the party from then on. -/
def enter (party : Party) (call : Call) : Party :=
  let (call, registry, journal) := call.begins party.segments party.registry party.journal
  { party with calls := party.calls ++ [call], registry, journal }

/-- Polled for the first time, calls that wait enter one after the other. -/
theorem foldl_pollCall_waiting {waiting : List Call} (waits : ∀ call ∈ waiting, call.stage = .waiting) (party : Party) :
    (List.range' party.calls.length waiting.length).foldl pollCall { party with calls := party.calls ++ waiting } =
      waiting.foldl enter party := by
  induction waiting generalizing party with
  | nil => simp
  | cons call waiting ih =>
    obtain ⟨first, rest⟩ := List.forall_mem_cons.1 waits
    have here : (party.calls ++ call :: waiting)[party.calls.length]? = some call := by simp
    have up : call.awake party.journal.now = true := by rw [Call.awake, first]
    have begins : call.poll party.segments party.registry party.journal =
        call.begins party.segments party.registry party.journal := by rw [Call.poll, first]
    have entered : pollCall { party with calls := party.calls ++ call :: waiting } party.calls.length =
        { party.enter call with calls := (party.enter call).calls ++ waiting } := by
      simp [Party.pollCall, enter, up, begins]
    have more : (party.enter call).calls.length = party.calls.length + 1 := by simp [enter]
    rw [List.length_cons, List.range'_succ, List.foldl_cons, entered, ← more, ih rest, List.foldl_cons]

variable {first : Journal} {registry : Registry} {parts : List Part} {moves : Nat → Nat}
  {ledger : List (Nat × Nat × Event)} {party : Party}

/-- A call that would come to its end alone enters, and plays its part from then on. -/
theorem Concert.enter (concert : party.Concert first registry parts moves ledger) {call : Call} {number : Nat}
    {final : Solitary} (pure : call.BuildsPure party.segments party.registry)
    (run : Machine.runFor none number (call.opened party.segments party.registry party.journal) = (.finished, final)) :
    (party.enter call).journal.now = party.journal.now ∧
    ∃ more, (party.enter call).Concert first (party.enter call).registry (parts ++ [⟨party.journal, final⟩])
      (Function.update moves parts.length number) (ledger ++ more) := by
  obtain ⟨written, ⟨now_eq, entries_eq⟩, -⟩ := call.opened_adds party.segments party.registry party.journal
  have now_eq : (party.enter call).journal.now = party.journal.now := now_eq
  let log := written.map (party.journal.now, ·)
  have plays : Part.Plays ⟨party.journal, final⟩ party.journal.now log number
      (call.opened party.segments party.registry party.journal).call := by
    have started := call.started_begins party.segments party.registry party.journal
    have ready : (call.opened party.segments party.registry party.journal).Ready :=
      ⟨call.opened_sound _ _ _, Call.opened_pure pure _, started⟩
    exact .of_run ready run (.of_started started) now_eq entries_eq
  refine ⟨now_eq, log.map (parts.length, ·), rfl, ?_, ?_, ?_, fun index other part here whose => ?_⟩
  · simp only [Party.enter, List.length_append, List.length_singleton, concert.length_eq]
  · have added : (party.enter call).journal.entries = party.journal.entries ++ log := entries_eq
    rw [added, concert.entries_eq, List.append_assoc, List.map_append, List.map_map]
    simp [Function.comp_def]
  · intro entry mem
    rw [List.length_append, List.length_singleton]
    rcases List.mem_append.1 mem with mem | mem
    · exact Nat.lt_succ_of_lt (concert.known entry mem)
    · obtain ⟨_, -, rfl⟩ := List.mem_map.1 mem
      exact Nat.lt_succ_self _
  · rw [now_eq]
    have here : (party.calls ++ [(call.opened party.segments party.registry party.journal).call])[index]? = some other :=
      here
    rcases Nat.lt_or_ge index parts.length with earlier | last
    · rw [List.getElem?_append_left (concert.length_eq.symm ▸ earlier)] at here
      rw [List.getElem?_append_left earlier] at whose
      rw [share_other _ _ (Nat.ne_of_lt earlier), Function.update_of_ne (Nat.ne_of_lt earlier)]
      exact concert.plays index other part here whose
    · obtain rfl : index = parts.length := by
        have lt := (List.getElem?_eq_some_iff.1 whose).1
        rw [List.length_append, List.length_singleton] at lt
        exact Nat.le_antisymm (Nat.le_of_lt_succ lt) last
      rw [← concert.length_eq, List.getElem?_concat_length] at here
      rw [List.getElem?_concat_length] at whose
      obtain rfl := Option.some.inj here
      obtain rfl := Option.some.inj whose
      rw [share_own, share_unknown concert.known, List.nil_append, Function.update_self]
      exact plays

end Party

/-! ### Asking in turn -/

/-- It tells of a span or a context. -/
def Event.isSpan : Event → Bool
  | .span _ => true
  | _ => false

/-- What is told of in entries but for spans, which go by numbers, each with the time since a start. -/
def conduct (start : Nat) (entries : List (Nat × Event)) : List (Nat × Event) :=
  (entries.filter fun entry => !entry.2.isSpan).map fun entry => (entry.1 - start, entry.2)

/-- Behind every journal it is the same. -/
theorem conduct_behind (journal : Journal) (own : List (Nat × Event)) :
    conduct journal.now (own.map (Call.behind journal)) = conduct 0 own := by
  unfold conduct
  rw [List.filter_map, List.map_map]
  have still : (fun entry : Nat × Event => !entry.2.isSpan) ∘ Call.behind journal = fun entry => !entry.2.isSpan := by
    funext ⟨t, event⟩
    cases event <;> rfl
  rw [still]
  refine List.map_congr_left fun ⟨t, event⟩ mem => ?_
  have spanless := (List.mem_filter.1 mem).2
  cases event with
  | span event => cases spanless
  | _ => simp [Call.behind, Event.after]

/-- A segment that was asked for alone: how that was answered, and the journals before and afterwards. -/
structure Visit where
  segment : String
  answer : Bool
  before : Journal
  later : Journal

/-- What was written. -/
def Visit.written (visit : Visit) : List (Nat × Event) := visit.later.entries.drop visit.before.entries.length

/-- Who plays this part from an instant on does what was done for the visit. -/
def Part.Repeats (now : Nat) (part : Part) (visit : Visit) : Prop :=
  part.origin.now = now ∧ part.final.call.answer? = some visit.answer ∧ ∃ own : List (Nat × Event),
    part.final.journal.entries = part.origin.entries ++ own.map (Call.behind part.origin) ∧
    visit.later.entries = visit.before.entries ++ own.map (Call.behind visit.before)

theorem Part.Repeats.conduct_eq {now : Nat} {part : Part} {visit : Visit} (repeats : part.Repeats now visit)
    {log : List (Nat × Event)} (log_eq : part.final.journal.entries = part.origin.entries ++ log) :
    conduct now log = conduct visit.before.now visit.written := by
  obtain ⟨rfl, -, own, entries, entries'⟩ := repeats
  obtain rfl : log = own.map (Call.behind part.origin) := List.append_cancel_left (log_eq.symm.trans entries)
  rw [Visit.written, entries', List.drop_left, conduct_behind, conduct_behind]

namespace Service

/-- One segment after the other is asked for, and each time there is an answer. -/
inductive AsksInTurn (subject : Json) : Service → List String → List Visit → Service → Prop
  | done (service : Service) : AsksInTurn subject service [] [] service
  | next {service later last : Service} {name : String} {names : List String} {answer : Bool} {visits : List Visit}
    (moves : Nat) (asked : service.ask moves none [.start subject (.named name) none] = (.finished, [some answer], later))
    (rest : AsksInTurn subject later names visits last) :
    AsksInTurn subject service (name :: names) (⟨name, answer, service.journal, later.journal⟩ :: visits) last

namespace AsksInTurn

variable {subject : Json} {service last : Service} {names : List String} {visits : List Visit}

theorem segments_eq (inTurn : service.AsksInTurn subject names visits last) : visits.map (·.segment) = names := by
  induction inTurn with
  | done service => rfl
  | next moves asked rest ih => rw [List.map_cons, ih]

/-- The calls of a party that begin in the same order as those that are asked in turn play the same parts. -/
theorem enters {matchers : String → Option Matcher} (pure : ∀ name matcher, matchers name = some matcher → matcher.Pure)
    (inTurn : service.AsksInTurn subject names visits last) (holds : Holds matchers service.engine.registry)
    {party : Party} {first : Journal} {parts : List Part} {moves : Nat → Nat} {ledger : List (Nat × Nat × Event)}
    (segments_eq : party.segments = service.engine.segments) (registry_eq : party.registry = service.engine.registry)
    (concert : party.Concert first party.registry parts moves ledger) :
    let all := (names.map fun name => Call.start subject (.named name) none).foldl Party.enter party
    all.journal.now = party.journal.now ∧ last.engine = { service.engine with registry := all.registry } ∧
      ∃ parts' moves' more, all.Concert first all.registry (parts ++ parts') moves' (ledger ++ more) ∧
        List.Forall₂ (Part.Repeats party.journal.now) parts' visits := by
  induction inTurn generalizing party parts moves ledger with
  | done service => exact ⟨rfl, by rw [List.map_nil, List.foldl_nil, registry_eq], [], moves, [], by simpa using concert, .nil⟩
  | @next service later last name names answer visits number asked rest ih =>
    let call : Call := .start subject (.named name) none
    obtain ⟨engine_eq, alone, run, answered, journal_eq⟩ := ask_alone asked
    have builds : call.BuildsPure service.engine.segments service.engine.registry :=
      Call.buildsPure_of_registry holds.1 fun name matcher known => pure name matcher (holds.2 ▸ known)
    obtain ⟨final, run', answer_eq, own, entries, entries'⟩ := Call.finishes_behind builds rfl rfl run party.journal
    rw [← segments_eq, ← registry_eq] at builds run'
    obtain ⟨number', run'⟩ := Machine.finishes_iff.1 run'
    obtain ⟨now_eq, more, entered⟩ := concert.enter builds run'
    have registry_eq' : (party.enter call).registry = later.engine.registry := by
      rw [engine_eq, ← segments_eq, ← registry_eq]
      exact call.registry_begins party.segments party.registry party.journal
    have segments_eq' : (party.enter call).segments = later.engine.segments := by
      rw [engine_eq, ← segments_eq]
      rfl
    have holds' : Holds matchers later.engine.registry := by
      rw [engine_eq]
      exact holds.buildExpr service.engine.segments subject (.named name)
    obtain ⟨all_now, all_engine, parts', moves', more', all, repeats⟩ := ih holds' segments_eq' registry_eq' entered
    refine ⟨all_now.trans now_eq, ?_, ⟨party.journal, final⟩ :: parts', moves', more ++ more', ?_, .cons ?_ ?_⟩
    · rw [all_engine, engine_eq]
      rfl
    · rwa [← List.append_assoc, List.append_cons]
    · exact ⟨rfl, answer_eq.trans answered, own, entries', journal_eq ▸ entries⟩
    · rwa [now_eq] at repeats

end AsksInTurn

/-- When all segments are asked for at once, the calls begin to play the parts that they play in turn. -/
theorem opening_concert {matchers : String → Option Matcher}
    (pure : ∀ name matcher, matchers name = some matcher → matcher.Pure) {service last : Service}
    (holds : Holds matchers service.engine.registry) {subject : Json} {names : List String} {visits : List Visit}
    (inTurn : service.AsksInTurn subject names visits last) :
    let calls := names.map fun name => Call.start subject (.named name) none
    let opened := (service.engine.party service.journal calls).poll
    opened.Attends ∧ last.engine = { service.engine with registry := opened.registry } ∧
      ∃ parts moves ledger, opened.Concert service.journal opened.registry parts moves ledger ∧
        List.Forall₂ (Part.Repeats service.journal.now) parts visits := by
  intro calls opened
  let nobody : Party := { service.engine.party service.journal [] with woken := List.range calls.length }
  let all := calls.foldl Party.enter nobody
  have silent : nobody.Concert service.journal nobody.registry [] (fun _ => 0) [] :=
    ⟨rfl, rfl, (List.append_nil _).symm, List.forall_mem_nil _, fun _ _ _ absent => nomatch absent⟩
  obtain ⟨-, engine_eq, parts, moves, ledger, concert, repeats⟩ := inTurn.enters pure holds rfl rfl silent
  have concert : all.Concert service.journal all.registry parts moves ledger := concert
  have length_eq : all.calls.length = calls.length := by
    rw [concert.length_eq, repeats.length_eq, List.length_map, ← inTurn.segments_eq, List.length_map]
  have waits : ∀ call ∈ calls, call.stage = .waiting := fun call mem => by
    obtain ⟨_, -, rfl⟩ := List.mem_map.1 mem
    rfl
  -- all have a turn in the first poll
  have turns_eq : Gathering.turns calls.length (List.range calls.length) = List.range calls.length := ite_self _
  have entered : (List.range calls.length).foldl Party.pollCall (service.engine.party service.journal calls) = all := by
    rw [List.range_eq_range']
    exact Party.foldl_pollCall_waiting waits nobody
  have opened_eq : opened = { all with
      woken := (List.range calls.length).filter fun i => (all.calls[i]?.map (·.awake all.journal.now)).getD false } := by
    rw [← entered, ← turns_eq]
    rfl
  rw [opened_eq]
  refine ⟨fun index call here up => ?_, engine_eq, parts, moves, ledger, ⟨rfl, concert.length_eq, concert.entries_eq,
    concert.known, concert.plays⟩, repeats⟩
  have here : all.calls[index]? = some call := here
  refine List.mem_filter.2 ⟨List.mem_range.2 (length_eq ▸ (List.getElem?_eq_some_iff.1 here).1), ?_⟩
  rw [here]
  exact up

/-- What comes of calls that begin to play their parts, each of which repeats a visit: they all come to their ends, are
answered as in the visits, and each does what was done for its visit. -/
theorem concert_repeats {registry : Registry} {first : Journal} {parts : List Part} {moves : Nat → Nat}
    {ledger : List (Nat × Nat × Event)} {party : Party} {visits : List Visit}
    (concert : party.Concert first registry parts moves ledger) (attends : party.Attends)
    (repeats : List.Forall₂ (Part.Repeats first.now) parts visits) (others : List Nat) :
    ∃ final left, Machine.Finishes (⟨party, others⟩ : Beside Party) ⟨final, left⟩ ∧ final.registry = registry ∧
      final.answers = visits.map (fun visit => some visit.answer) ∧
      ∃ ledger : List (Nat × Nat × Event), final.journal.entries = first.entries ++ ledger.map (·.2) ∧
        (∀ entry ∈ ledger, entry.1 < visits.length) ∧
        ∀ index visit, visits[index]? = some visit →
          conduct first.now (share index ledger) = conduct visit.before.now visit.written := by
  obtain ⟨final, left, fewer, more, run, ended, concert⟩ := concert.finishes attends others
  have length_eq := repeats.length_eq
  have each (index : Nat) (visit : Visit) (whose : visits[index]? = some visit) :
      (∃ call, final.calls[index]? = some call ∧ call.answer? = some visit.answer) ∧
        conduct first.now (share index (ledger ++ more)) = conduct visit.before.now visit.written := by
    obtain ⟨part, plays_part, repeated⟩ : ∃ part, parts[index]? = some part ∧ part.Repeats first.now visit :=
      forall₂_getElem? repeats.flip whose
    obtain ⟨call, here⟩ : ∃ call, final.calls[index]? = some call := by
      have lt := (List.getElem?_eq_some_iff.1 plays_part).1
      rw [← concert.length_eq] at lt
      exact ⟨_, List.getElem?_eq_getElem lt⟩
    have answered := List.all_eq_true.1 ended call (List.mem_of_getElem? here)
    cases concert.plays index call part here plays_part with
    | @ended value answered ends log_eq =>
      obtain rfl : value = visit.answer := Option.some.inj (ends.symm.trans repeated.2.1)
      exact ⟨⟨call, here, answered⟩, repeated.conduct_eq log_eq⟩
    | going unanswered =>
      rw [unanswered] at answered
      cases answered
  refine ⟨final, left, run, concert.registry_eq, ?_, ledger ++ more, concert.entries_eq, ?_, fun index visit whose =>
    (each index visit whose).2⟩
  · refine List.ext_getElem? fun index => ?_
    rw [Party.answers, List.getElem?_map, List.getElem?_map]
    cases whose : visits[index]? with
    | some visit =>
      obtain ⟨⟨call, here, answered⟩, -⟩ := each index visit whose
      rw [here, Option.map_some, Option.map_some, answered]
    | none =>
      have beyond := List.getElem?_eq_none_iff.1 whose
      rw [← length_eq, ← concert.length_eq] at beyond
      rw [List.getElem?_eq_none beyond]
      rfl
  · exact length_eq ▸ concert.known

end Service

/-- The segments of an engine that was just built are those that were given, in order. -/
theorem Engine.segments_of_build {schema : Schema} {options : Options} {groups : List (List (String × Matcher.Draft))}
    {segments : List (String × SegmentDefinition)} {journal : Journal} {engine : Engine}
    (built : (build schema options groups segments journal).1 = .ok engine) :
    engine.segments = Keyed.ofList segments := by
  unfold build at built
  split at built
  · cases built
  · split at built
    · cases built
    · obtain rfl := Except.ok.inj built
      rfl

namespace Service

/-- Of a service that has any history behind it, with pure evaluators: if all registered segments can be asked for in
turn, then all of them can be asked for at once.  The names that are found are those of the segments that are answered
with true in turn, strictly ascending by their bytes, and the registry is left the same.  What is written is made up of
what the single calls do: each of them does the same among the others, with the same time since the start, as in its
turn. -/
theorem matching_agrees_with_turns {schema : Schema} {options : Options}
    {groups : List (List (String × Matcher.Draft))} {segments : List (String × SegmentDefinition)} {noted : Journal}
    {engine : Engine} (built : (Engine.build schema options groups segments noted).1 = .ok engine)
    (pure : ∀ group ∈ groups, ∀ entry ∈ group, entry.2.Pure)
    (journal : Journal) (strays : List Nat) (history : List Usage) (subject : Json) {visits : List Visit} {last : Service}
    (inTurn : AsksInTurn subject (useAll ⟨engine, journal, strays⟩ history) engine.segmentNames visits last) :
    let service := useAll ⟨engine, journal, strays⟩ history
    (∀ name, name ∈ visits.map (·.segment) ↔ name ∈ segments.map (·.1)) ∧
    ∃ enough, ∀ moves, enough ≤ moves →
      let asked := service.ask moves none (service.engine.callsForAll subject)
      let found := service.engine.matching asked.2.1
      asked.1 = .finished ∧
      found.Pairwise (fun name other => Utf8.bytes name < Utf8.bytes other) ∧
      found = (visits.filter (·.answer)).map (·.segment) ∧
      asked.2.2.engine = last.engine ∧
      ∃ ledger : List (Nat × Nat × Event),
        asked.2.2.journal.entries = service.journal.entries ++ ledger.map (·.2) ∧
        (∀ entry ∈ ledger, entry.1 < visits.length) ∧
        ∀ index visit, visits[index]? = some visit →
          conduct service.journal.now (share index ledger) = conduct visit.before.now visit.written := by
  intro service
  obtain ⟨sound, -, pure⟩ := Engine.build_spec built pure
  have stems : service.StemsFrom engine := StemsFrom.useAll ⟨rfl, sound, rfl⟩ history
  have names_eq : service.engine.segmentNames = engine.segmentNames := by
    rw [Engine.segmentNames, Engine.segmentNames, stems.segments_eq]
  have segments_eq := Engine.segments_of_build built
  have visited := inTurn.segments_eq
  refine ⟨fun name => ?_, ?_⟩
  · rw [visited, Engine.segmentNames, segments_eq]
    exact Keyed.mem_keys_ofList segments
  have calls_eq : service.engine.callsForAll subject =
      engine.segmentNames.map fun name => Call.start subject (.named name) none := by
    rw [Engine.callsForAll, names_eq]
  have holds : Holds engine.registry.matcher? service.engine.registry := ⟨stems.sound, stems.matcher?_eq⟩
  obtain ⟨attends, engine_eq, parts, fewer, ledger, concert, repeats⟩ := opening_concert pure holds inTurn
  obtain ⟨final, left, run, registry_eq, answers_eq, all, entries_eq, known, each⟩ :=
    concert_repeats concert attends repeats service.strays
  obtain ⟨enough, ends⟩ := run.enough
  refine ⟨enough, fun moves le => ?_⟩
  intro asked found
  have asked_eq : asked = (.finished, final.answers,
      ⟨{ service.engine with registry := final.registry }, final.journal, left ++ final.leftovers⟩) := by
    have ran : Machine.run none moves (⟨service.engine.party service.journal (service.engine.callsForAll subject),
        service.strays⟩ : Beside Party) = (.finished, ⟨final, left⟩) := by
      rw [calls_eq]
      exact ends moves le
    simp only [asked, ask, ran, if_true]
  have found_eq : found = (visits.filter (·.answer)).map (·.segment) := by
    simp only [found, asked_eq, Engine.matching, answers_eq, names_eq, ← visited]
    rw [List.zip_map', List.filter_map, List.map_map]
    congr 1
    refine List.filter_congr fun visit _ => ?_
    simp
  rw [asked_eq]
  refine ⟨rfl, ?_, found_eq, ?_, all, entries_eq, known, each⟩
  · rw [found_eq]
    have ascending : (visits.map (·.segment)).Pairwise (· < ·) := by
      rw [visited, Engine.segmentNames, segments_eq]
      exact List.pairwise_map.2 (Keyed.ascending_ofList segments)
    have sublist : ((visits.filter (·.answer)).map (·.segment)).Sublist (visits.map (·.segment)) :=
      List.filter_sublist.map _
    exact (ascending.sublist sublist).imp Utf8.bytes_lt
  · rw [engine_eq, registry_eq]

/-! Three segments: one fails, the other two ask the same batched evaluator about the same argument. -/

/-- A batched evaluator that takes its time and says yes to its first two entries. -/
def agreeable : BatchEvaluator := fun _ _ =>
  .starts (.sleep 5 (.resolve 0 true (.resolve 1 true (.done (.value ())))))

/-- An evaluator that panics after a while. -/
def jumpy : SingleEvaluator := fun _ _ => .starts (.sleep 3 (.done (.panicked (.text "boom"))))

def mixedMatchers : List (List (String × Matcher.Draft)) :=
  [[("jumpy", ⟨none, some jumpy, none⟩), ("member", ⟨some acceptAnything, none, some agreeable⟩)]]

def mixedSegments : List (String × SegmentDefinition) :=
  [("pair", fun _ => .and [.matcherWith "member" (.int 1), .matcherWith "member" (.int 2)]),
    ("failing", fun _ => .matcher "jumpy"), ("lone", fun _ => .matcherWith "member" (.int 1))]

/-- A new engine with these matchers and segments. -/
def mixedEngine : Engine :=
  ⟨acceptAnything, Keyed.ofList mixedSegments,
    .compile [("jumpy", ⟨none, .single jumpy⟩), ("member", ⟨some acceptAnything, .batch agreeable⟩)]
      defaultMemoCapacity, .default⟩

/-- Asked for at once, the two that are true are found, and each has a batch of its own, of its own arguments. -/
theorem mixed_segments_found :
    let service : Service := ⟨mixedEngine, .empty, []⟩
    let keysOf (batch : Nat × String × List (Option Json)) := (batch.1, batch.2.1, batch.2.2.map (Option.map Json.stableKey))
    ∃ visits last, AsksInTurn .null service ["failing", "lone", "pair"] visits last ∧
      visits.map (·.answer) = [false, true, true] ∧ visits.map (·.before.now) = [0, 3, 8] ∧
      ∃ enough, ∀ moves, enough ≤ moves →
        let asked := service.ask moves none (service.engine.callsForAll .null)
        asked.1 = .finished ∧ service.engine.matching asked.2.1 = ["lone", "pair"] ∧
        ∃ ledger : List (Nat × Nat × Event), asked.2.2.journal.entries = ledger.map (·.2) ∧
          [0, 1, 2].map (fun index => (Journal.batchCalls (conduct 0 (share index ledger))).map keysOf) =
            [[], [(0, "member", [some "1"])], [(0, "member", [some "1", some "2"])]] := by
  intro service keysOf
  let ask (service : Service) (name : String) := service.ask 20 none [.start .null (.named name) none]
  let second := (ask service "failing").2.2
  let third := (ask second "lone").2.2
  let last := (ask third "pair").2.2
  let visits : List Visit := [⟨"failing", false, .empty, second.journal⟩, ⟨"lone", true, second.journal, third.journal⟩,
    ⟨"pair", true, third.journal, last.journal⟩]
  have answered (service : Service) (name : String) (answer : Bool) (verdict : (ask service name).1 = .finished)
      (answers : (ask service name).2.1 = [some answer]) :
      ask service name = (.finished, [some answer], (ask service name).2.2) :=
    Prod.ext verdict (Prod.ext answers rfl)
  have inTurn : AsksInTurn .null service ["failing", "lone", "pair"] visits last :=
    .next 20 (answered service "failing" false (by decide +kernel) (by decide +kernel))
      (.next 20 (answered second "lone" true (by decide +kernel) (by decide +kernel))
        (.next 20 (answered third "pair" true (by decide +kernel) (by decide +kernel)) (.done last)))
  have built : (Engine.build acceptAnything .default mixedMatchers mixedSegments .empty).1 = .ok mixedEngine := rfl
  have pure : ∀ group ∈ mixedMatchers, ∀ entry ∈ group, entry.2.Pure := by
    simp only [mixedMatchers, List.mem_singleton, forall_eq, List.forall_mem_cons]
    refine ⟨⟨fun evaluate eq _ _ _ => ?_, nofun⟩, nofun, fun evaluate eq _ _ _ => ?_⟩ <;>
      rw [← Option.some.inj eq] <;> rfl
  obtain ⟨-, enough, ends⟩ := matching_agrees_with_turns built pure .empty [] [] .null inTurn
  refine ⟨visits, last, inTurn, rfl, by decide +kernel, enough, fun moves le => ?_⟩
  obtain ⟨finished, -, found, -, ledger, entries_eq, -, each⟩ := ends moves le
  refine ⟨finished, found, ledger, entries_eq, ?_⟩
  have shares : [0, 1, 2].map (fun index => conduct 0 (share index ledger)) =
      visits.map fun visit => conduct visit.before.now visit.written := by
    have first := each 0 _ rfl
    have second := each 1 _ rfl
    have third := each 2 _ rfl
    exact congrArg₂ (· :: ·) first (congrArg₂ (· :: ·) second (congrArg (fun log => [log]) third))
  have batches :
      visits.map (fun visit => (Journal.batchCalls (conduct visit.before.now visit.written)).map keysOf) =
        [[], [(0, "member", [some "1"])], [(0, "member", [some "1", some "2"])]] := by decide +kernel
  rw [← batches]
  exact congrArg (List.map fun log => (Journal.batchCalls log).map keysOf) shares

end Service

end Segmentation
