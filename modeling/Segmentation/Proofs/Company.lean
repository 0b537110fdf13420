import Segmentation.Proofs.Course
import Segmentation.Proofs.Dropping

/-!
# Calls in company

Calls that run at once write into one journal by turns (`Woven`).  Each keeps to its own course, as if it were alone
with what it writes (`Party.Company`); so does every call of a service (`Service.ask_courses`).
-/

namespace Segmentation

/-! ### Writing by turns -/

/-- Several logs that are written by turns into one. -/
inductive Woven : List (List Event) → List Event → Prop
  | start {logs : List (List Event)} (blank : ∀ log ∈ logs, log = []) : Woven logs []
  | turn {logs : List (List Event)} {written : List Event} (woven : Woven logs written) {index : Nat} {log : List Event}
    (whose : logs[index]? = some log) (more : List Event) : Woven (logs.set index (log ++ more)) (written ++ more)

namespace Woven

variable {logs : List (List Event)} {written : List Event}

/-- What is written is what the logs say, and nothing twice. -/
theorem perm (woven : Woven logs written) : written.Perm logs.flatten := by
  induction woven with
  | start blank =>
    rw [List.flatten_eq_nil_iff.2 blank]
  | turn woven whose more ih =>
    rename_i log
    have same : id (log ++ more) = id log ++ more := rfl
    have grown := flatMap_set_perm whose same
    rw [List.flatMap_id, List.flatMap_id] at grown
    exact (ih.append_right more).trans grown.symm

/-- So it is with what stands out of the logs. -/
theorem filter (woven : Woven logs written) (p : Event → Bool) :
    Woven (logs.map (·.filter p)) (written.filter p) := by
  induction woven with
  | start blank =>
    refine .start fun log mem => ?_
    obtain ⟨whole, listed, rfl⟩ := List.mem_map.1 mem
    rw [blank whole listed]
    rfl
  | @turn logs written woven index log whose more ih =>
    have whose : (logs.map (·.filter p))[index]? = some (log.filter p) := by rw [List.getElem?_map, whose]; rfl
    rw [List.map_set, List.filter_append, List.filter_append]
    exact ih.turn whose (more.filter p)

/-- Each log stands in order. -/
theorem sublist (woven : Woven logs written) : ∀ log ∈ logs, log.Sublist written := by
  induction woven with
  | start blank =>
    intro log mem
    rw [blank log mem]
  | turn woven whose more ih =>
    intro log mem
    rcases List.mem_or_eq_of_mem_set mem with mem | rfl
    · exact (ih log mem).trans (List.sublist_append_left _ _)
    · exact (ih _ (List.mem_of_getElem? whose)).append_right more

end Woven

theorem forall₂_set {α β : Type} {R : α → β → Prop} {l : List α} {m : List β} (all : List.Forall₂ R l m)
    {a : α} {b : β} (related : R a b) (index : Nat) : List.Forall₂ R (l.set index a) (m.set index b) := by
  induction all generalizing index with
  | nil => exact .nil
  | cons first rest ih =>
    cases index with
    | zero => exact .cons related rest
    | succ index => exact .cons first (ih index)

theorem forall₂_getElem? {α β : Type} {R : α → β → Prop} {l : List α} {m : List β} (all : List.Forall₂ R l m)
    {index : Nat} {a : α} (here : l[index]? = some a) : ∃ b, m[index]? = some b ∧ R a b := by
  induction all generalizing index with
  | nil => cases here
  | cons first rest ih =>
    cases index with
    | zero =>
      obtain rfl := Option.some.inj here
      exact ⟨_, rfl, first⟩
    | succ index => exact ih here

/-! ### Parties -/

namespace Party

/-- A party is for the requests that its calls were started for. -/
theorem requests_start (requests : List (Json × Target × Option Fallback)) :
    (requests.map fun (subject, target, fallback) => Call.start subject target fallback).map Call.request = requests := by
  have same : Call.request ∘ (fun (subject, target, fallback) => Call.start subject target fallback) = id := rfl
  rw [List.map_map, same, List.map_id]

theorem requests_advance (calls : List Call) (now : Nat) :
    (calls.map (·.advance now)).map Call.request = calls.map Call.request := by
  have same : Call.request ∘ (·.advance now) = Call.request := funext fun call => call.request_advance now
  rw [List.map_map, same]

/-- The calls of a party were made for these requests, and have taken their courses since the first journal. -/
structure Company (segments : Keyed SegmentDefinition) (matchers : String → Option Matcher)
    (requests : List (Json × Target × Option Fallback)) (first : Journal) (party : Party) : Prop where
  segments_eq : party.segments = segments
  holds : Service.Holds matchers party.registry
  requests_eq : party.calls.map Call.request = requests
  courses : ∃ logs written, first.Writes written party.journal ∧ Woven logs written ∧
    List.Forall₂ (fun call log => call.Course segments matchers log) party.calls logs

variable {segments : Keyed SegmentDefinition} {matchers : String → Option Matcher}
  {requests : List (Json × Target × Option Fallback)} {first : Journal} {party : Party}

theorem Company.pollCall (company : party.Company segments matchers requests first) (index : Nat) :
    (party.pollCall index).Company segments matchers requests first := by
  unfold Party.pollCall
  cases here : party.calls[index]? with
  | none => exact company
  | some call =>
    dsimp only
    split
    · exact company
    · obtain ⟨logs, written, writes, woven, courses⟩ := company.courses
      obtain ⟨log, whose, course⟩ := forall₂_getElem? courses here
      have segments_eq := company.segments_eq
      subst segments_eq
      obtain ⟨more, writes', course', same⟩ := course.poll company.holds party.journal
      exact ⟨rfl, company.holds.poll call party.segments party.journal,
        (map_set_of_same here same).trans company.requests_eq, _, _, writes.trans writes', woven.turn whose more,
        forall₂_set courses course' index⟩

theorem Company.poll (company : party.Company segments matchers requests first) :
    party.poll.Company segments matchers requests first := by
  have polled (turns : List Nat) : (turns.foldl Party.pollCall party).Company segments matchers requests first := by
    induction turns generalizing party with
    | nil => exact company
    | cons index turns ih => exact ih (company.pollCall index)
  have all := polled (Gathering.turns party.calls.length party.woken)
  exact ⟨all.segments_eq, all.holds, all.requests_eq, all.courses⟩

theorem Company.advance (company : party.Company segments matchers requests first) (now : Nat) :
    (Machine.advance now party).Company segments matchers requests first := by
  obtain ⟨logs, written, writes, woven, courses⟩ := company.courses
  refine ⟨company.segments_eq, company.holds, (requests_advance _ now).trans company.requests_eq, logs, written, writes,
    woven, ?_⟩
  change List.Forall₂ _ (party.calls.map (·.advance now)) logs
  rw [List.forall₂_map_left_iff]
  exact courses.imp fun call log course => course.advance now

end Party

/-! ### Calls that are dropped -/

theorem Event.IsParting.silent {event : Event} (parting : event.IsParting) : event.IsSilent := by
  cases event with
  | evaluatorDropped matcher => exact ⟨rfl, rfl⟩
  | span event =>
    cases event with
    | ended span => exact ⟨rfl, rfl⟩
    | contextReleased context => exact ⟨rfl, rfl⟩
    | _ => exact absurd parting id
  | _ => exact absurd parting id

theorem Party.drop_idles (party : Party) : party.journal.Idles party.drop := by
  obtain ⟨written, dates, partings⟩ := party.drop_adds
  obtain ⟨idle, quiet⟩ := silent_of_all fun event mem => (partings event mem).silent
  exact ⟨written, dates.writes, idle, quiet⟩

/-! ### Answers -/

/-- What a call was made for, how it was answered, if it was, and what it wrote. -/
structure Transcript where
  request : Json × Target × Option Fallback
  answer : Option Bool
  log : List Event

/-- The call of a transcript, before it began. -/
def Transcript.call (t : Transcript) : Call := .start t.request.1 t.request.2.1 t.request.2.2

variable {segments : Keyed SegmentDefinition} {matchers : String → Option Matcher}

/-- If the call was answered, then as the outcome of its evaluation demands, and it told what had to be told; else it
has told nothing yet, or what has to be told of an error. -/
structure Transcript.Sound (segments : Keyed SegmentDefinition) (matchers : String → Option Matcher) (t : Transcript) :
    Prop where
  answered : ∀ value, t.answer = some value → ∃ outcome, t.call.Concluded segments matchers t.log outcome ∧
    value = t.call.verdict outcome ∧ appeals t.log = t.call.told outcome
  told : appeals t.log = [] ∨ ∃ error, appeals t.log = t.call.told (.error error)

theorem Call.Course.transcript {call : Call} {log : List Event} (course : call.Course segments matchers log) :
    Transcript.Sound segments matchers ⟨call.request, call.answer?, log⟩ := by
  obtain ⟨subject, target, fallback, stage, strays⟩ := call
  cases stage with
  | waiting =>
    obtain rfl : log = [] := course
    exact ⟨nofun, .inl rfl⟩
  | driving span context hub drive =>
    obtain ⟨begun, expr, builds, underway, quiet⟩ := course
    exact ⟨nofun, .inl quiet⟩
  | flushing span context hub outcome invocations flush => exact ⟨nofun, .inl course.2⟩
  | recovering span deadline alarm rest =>
    obtain ⟨error, fallback, -, -, -, told⟩ := course
    exact ⟨nofun, .inr ⟨error, told⟩⟩
  | answered given =>
    obtain ⟨outcome, concluded, verdict, told⟩ := course
    refine ⟨fun value answered => ?_, ?_⟩
    · obtain rfl := Option.some.inj answered
      exact ⟨outcome, concluded, verdict, told⟩
    · cases outcome with
      | ok value => exact .inl told
      | error error => exact .inr ⟨error, told⟩

/-- Calls and their logs make transcripts. -/
theorem transcripts_of_logs {Tells : Call → List Event → Prop} {Told : Transcript → Prop}
    (told : ∀ {call log}, Tells call log → Told ⟨call.request, call.answer?, log⟩) {calls : List Call}
    {logs : List (List Event)} (all : List.Forall₂ Tells calls logs) :
    ∃ ts : List Transcript, ts.map (·.request) = calls.map Call.request ∧
      ts.map (·.answer) = calls.map Call.answer? ∧ ts.map (·.log) = logs ∧ ∀ t ∈ ts, Told t := by
  induction all with
  | nil => exact ⟨[], rfl, rfl, rfl, List.forall_mem_nil _⟩
  | @cons call log calls logs tells rest ih =>
    obtain ⟨ts, requests, answers, logs, all⟩ := ih
    refine ⟨⟨call.request, call.answer?, log⟩ :: ts, ?_, ?_, ?_, List.forall_mem_cons.2 ⟨told tells, all⟩⟩
    · rw [List.map_cons, List.map_cons, requests]
    · rw [List.map_cons, List.map_cons, answers]
    · rw [List.map_cons, logs]

/-- The calls that are asked, before they begin. -/
theorem Service.company_start {service : Service} (holds : Holds matchers service.engine.registry)
    (requests : List (Json × Target × Option Fallback)) :
    (service.engine.party service.journal
        (requests.map fun (subject, target, fallback) => .start subject target fallback)).Company
      service.engine.segments matchers requests service.journal := by
  let calls : List Call := requests.map fun (subject, target, fallback) => .start subject target fallback
  refine ⟨rfl, holds, Party.requests_start requests, calls.map fun _ => [], [], Journal.writes_nil rfl, .start ?_, ?_⟩
  · intro log mem
    obtain ⟨_, -, rfl⟩ := List.mem_map.1 mem
    rfl
  · change List.Forall₂ _ calls (calls.map fun _ => [])
    rw [List.forall₂_map_right_iff, List.forall₂_same]
    intro call mem
    obtain ⟨request, -, rfl⟩ := List.mem_map.1 mem
    exact rfl

/-- Of calls that run at once each is answered in its own right.  What is left of those that are not answered when the
run ends is dropped. -/
theorem Service.ask_transcripts {service : Service} (holds : Holds matchers service.engine.registry) (moves : Nat)
    (limit : Option Nat) (requests : List (Json × Target × Option Fallback)) :
    let asked := service.ask moves limit
      (requests.map fun (subject, target, fallback) => .start subject target fallback)
    ∃ (ts : List Transcript) (written rest : List Event), ts.map (·.request) = requests ∧
      ts.map (·.answer) = asked.2.1 ∧ service.journal.Writes (written ++ rest) asked.2.2.journal ∧
      deeds rest = [] ∧ appeals rest = [] ∧ Woven (ts.map (·.log)) written ∧
      ∀ t ∈ ts, t.Sound service.engine.segments matchers := by
  intro asked
  let calls : List Call := requests.map fun (subject, target, fallback) => .start subject target fallback
  let begun : Beside Party := ⟨service.engine.party service.journal calls, service.strays⟩
  let kept (b : Beside Party) : Prop := b.machine.Company service.engine.segments matchers requests service.journal
  have starts : kept begun := company_start holds requests
  have ran : kept (Machine.run limit moves begun).2 := by
    refine Machine.run_keeps ?_ ?_ limit moves starts
    · exact fun b company => Party.Company.poll company
    · exact fun now b company => Party.Company.advance company now
  let final := Machine.run limit moves begun
  have journal_eq : asked.2.2.journal =
      if final.1 = .finished then final.2.machine.journal else final.2.machine.drop := rfl
  have company : final.2.machine.Company service.engine.segments matchers requests service.journal := ran
  obtain ⟨logs, written, writes, woven, courses⟩ := company.courses
  obtain ⟨ts, requests_eq, answers_eq, logs_eq, sound⟩ := transcripts_of_logs (fun course => course.transcript) courses
  obtain ⟨rest, writes', idle, quiet⟩ : final.2.machine.journal.Idles asked.2.2.journal := by
    rw [journal_eq]
    split
    · exact .refl rfl
    · exact final.2.machine.drop_idles
  refine ⟨ts, written, rest, requests_eq.trans company.requests_eq, answers_eq, writes.trans writes', idle, quiet, ?_,
    sound⟩
  rwa [logs_eq]

end Segmentation
