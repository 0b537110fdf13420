import Segmentation.Engine.Service
import Segmentation.Proofs.Past.Recast

/-!
# Answers and what evaluators are passed

`Service.Matches` says what one call on a service answers and which arguments it passes to evaluators.  Both depend on
the expression that is built only, and not on the journal or on the alarms that stand beside the call
(`Service.matches_iff_of_alike`).
-/

namespace Segmentation

/-- The matcher whose evaluator is called, and the arguments of the requests that it is called with. -/
def Event.passed? : Event → Option (String × List (Option Json))
  | .invoked matcher args => some (matcher, [args])
  | .batchInvoked matcher args => some (matcher, args)
  | _ => none

namespace Journal

/-- The arguments that evaluators were passed, call by call. -/
def passed (journal : Journal) : List (String × List (Option Json)) := journal.events.filterMap (·.passed?)

theorem passed_recordAll (journal : Journal) (events : List Event) :
    (journal.recordAll events).passed = journal.passed ++ events.filterMap (·.passed?) := by
  simp [passed, Journal.events, recordAll, Function.comp_def]

theorem passed_record (journal : Journal) (event : Event) :
    (journal.record event).passed = journal.passed ++ event.passed?.toList := by
  simp [passed, Journal.events, record, List.filterMap_cons]
  cases event.passed? <;> rfl

theorem passed_after (past : Past) (journal : Journal) :
    (journal.after past).passed = past.journal.passed ++ journal.passed := by
  unfold passed
  rw [events_after, List.filterMap_append, List.filterMap_map]
  congr 1
  refine List.filterMap_congr fun event _ => ?_
  cases event <;> rfl

theorem after_empty (journal : Journal) (serial : Nat) : journal.after ⟨empty, serial⟩ = journal := by
  have spans : empty.spanCount = 0 := rfl
  have contexts : empty.contextCount = 0 := rfl
  have context_same : (ContextRef.after ⟨empty, serial⟩) = id := by
    funext ref
    cases ref <;> simp only [ContextRef.after, contexts, Nat.zero_add, id]
  have span_same (event : SpanEvent) : event.after ⟨empty, serial⟩ = event := by
    cases event <;> simp only [SpanEvent.after, spans, contexts, Nat.zero_add, context_same, Option.map_id_fun', id]
  have event_same (entry : Nat × Event) : (empty.now + entry.1, entry.2.after ⟨empty, serial⟩) = entry := by
    obtain ⟨t, event⟩ := entry
    have now : empty.now + t = t := Nat.zero_add t
    cases event <;> simp only [Event.after, span_same, now]
  obtain ⟨now, alarms, entries⟩ := journal
  simp only [after, event_same, List.map_id']
  simp [empty]

theorem empty_after (past : Past) : empty.after past = past.journal := by simp [after, empty]

end Journal

theorem Call.launch_sound (call : Call) (expr : Expr) (journal : Journal) : (call.launch expr journal).Sound :=
  driveOn_spec ..

namespace Service

/-- The call is over after some moves, answers with the value, and has passed these arguments to evaluators. -/
def Matches (service : Service) (subject : Json) (target : Target) (value : Bool)
    (passed : List (String × List (Option Json))) : Prop :=
  ∃ moves later, service.ask moves none [.start subject target none] = (.finished, [some value], later) ∧
    later.journal.passed = service.journal.passed ++ passed

variable (service : Service) (subject : Json) (target : Target)

theorem Matches.of_ask {service : Service} {subject : Json} {target : Target} {value : Bool}
    {passed : List (String × List (Option Json))} (moves : Nat)
    (ended : (service.ask moves none [.start subject target none]).1 = .finished)
    (answers : (service.ask moves none [.start subject target none]).2.1 = [some value])
    (passed_eq : (service.ask moves none [.start subject target none]).2.2.journal.passed =
      service.journal.passed ++ passed) : service.Matches subject target value passed :=
  ⟨moves, _, Prod.ext ended (Prod.ext answers rfl), passed_eq⟩

/-- The party of a call, after the first poll. -/
def opening : Party := (service.engine.party service.journal [.start subject target none]).poll

theorem ask_iff {subject target} {value : Bool} {passed : List (String × List (Option Json))} :
    service.Matches subject target value passed ↔
      ∃ final, Machine.Finishes (⟨service.opening subject target, service.strays⟩ : Beside Party) final ∧
        final.machine.answers = [some value] ∧
        final.machine.journal.passed = service.journal.passed ++ passed := by
  simp only [Machine.finishes_iff]
  constructor
  · rintro ⟨moves, later, asked, passed_eq⟩
    unfold ask Machine.run at asked
    generalize run : Machine.runFor (σ := Beside Party) none moves _ = r at asked
    obtain ⟨verdict, final⟩ := r
    simp only [Prod.mk.injEq] at asked
    obtain ⟨rfl, answers, rfl⟩ := asked
    exact ⟨final, ⟨moves, run⟩, answers, passed_eq⟩
  · rintro ⟨final, ⟨moves, run⟩, answers, passed_eq⟩
    have run : Machine.runFor none moves (Machine.poll
        (⟨service.engine.party service.journal [.start subject target none], service.strays⟩ : Beside Party)) =
        (.finished, final) := run
    refine ⟨moves, _, Prod.ext ?_ (Prod.ext ?_ rfl), ?_⟩
    · simp only [ask, Machine.run, run]
    · simpa only [ask, Machine.run, run] using answers
    · simpa only [ask, Machine.run, run, if_true] using passed_eq

/-- A call gives one answer and passes one list of arguments. -/
theorem Matches.unique {service : Service} {subject : Json} {target : Target} {value value' : Bool}
    {passed passed' : List (String × List (Option Json))} (first : service.Matches subject target value passed)
    (second : service.Matches subject target value' passed') : value = value' ∧ passed = passed' := by
  obtain ⟨final, run, answers, passed_eq⟩ := (ask_iff service).1 first
  obtain ⟨final', run', answers', passed_eq'⟩ := (ask_iff service).1 second
  obtain rfl := run.unique run'
  exact ⟨by simpa using answers.symm.trans answers', List.append_cancel_left (passed_eq.symm.trans passed_eq')⟩

theorem opening_of_begins {call : Call} {registry : Registry} {journal : Journal}
    (begins : (Call.start subject target none).begins service.engine.segments service.engine.registry
      service.journal = (call, registry, journal)) :
    (service.opening subject target).calls = [call] ∧ (service.opening subject target).journal = journal := by
  have polled := @Solitary.poll_party (service.engine.party service.journal [.start subject target none]) _ rfl rfl
  have poll_eq : (Call.start subject target none).poll service.engine.segments service.engine.registry
      service.journal = (call, registry, journal) := begins
  simp only [Engine.party, poll_eq] at polled
  exact polled

/-- A call whose expression cannot be built answers with false and passes nothing. -/
theorem matches_iff_of_error {error : Error} {value : Bool} {passed : List (String × List (Option Json))}
    (refused : (Engine.buildExpr service.engine.segments service.engine.registry subject target).1 = .error error) :
    service.Matches subject target value passed ↔ value = false ∧ passed = [] := by
  have begun : ∃ call registry journal,
      (Call.start subject target none).begins service.engine.segments service.engine.registry service.journal =
        (call, registry, journal) ∧ call.answer? = some false ∧ journal.passed = service.journal.passed := by
    unfold Call.begins
    simp only [Call.start]
    generalize Engine.buildExpr _ _ subject target = r at refused
    obtain ⟨_, registry⟩ := r
    obtain rfl := refused
    refine ⟨_, _, _, rfl, rfl, ?_⟩
    simp [Call.conclude, Call.finish, Journal.passed_recordAll, Journal.passed_record, Event.passed?,
      List.filterMap_map]
  obtain ⟨call, registry, journal, begins, answer, passed_eq⟩ := begun
  obtain ⟨calls_eq, journal_eq⟩ := opening_of_begins service subject target begins
  rw [ask_iff]
  constructor
  · rintro ⟨final, run, answers, passed_final⟩
    obtain rfl := run.eq_of_finished (by simp [Machine.finished, calls_eq, answer])
    rw [Party.answers, calls_eq, List.map_singleton, answer] at answers
    rw [journal_eq, passed_eq] at passed_final
    exact ⟨by simpa using answers.symm, List.self_eq_append_right.1 passed_final⟩
  · rintro ⟨rfl, rfl⟩
    refine ⟨_, .done ?_, ?_, ?_⟩
    · simp [Machine.finished, calls_eq, answer]
    · simp [Party.answers, calls_eq, answer]
    · simp [journal_eq, passed_eq]

/-- What follows from the expression that is built, whatever was built before. -/
theorem matches_iff_of_built {expr : Expr} {value : Bool} {passed : List (String × List (Option Json))}
    (built : (Engine.buildExpr service.engine.segments service.engine.registry subject target).1 = .ok expr) :
    service.Matches subject target value passed ↔
      ∃ final, Machine.Finishes ((Call.start subject target none).launch expr service.journal) final ∧
        final.call.answer? = some value ∧ final.journal.passed = service.journal.passed ++ passed := by
  obtain ⟨calls_eq, journal_eq⟩ := opening_of_begins service subject target
    (Call.begins_of_built (.start subject target none) (Prod.ext built rfl) service.journal)
  have sound := Call.launch_sound (.start subject target none) expr service.journal
  -- The party has this call alone, and the strays beside it do not concern it.
  have is_party : Solitary.IsParty (service.opening subject target)
      ((Call.start subject target none).launch expr service.journal) := ⟨calls_eq, journal_eq, sound.1⟩
  have lockstep := Solitary.lockstep_party.beside
  rw [ask_iff]
  constructor
  · rintro ⟨final, run, answers, passed_eq⟩
    obtain ⟨⟨alone, left⟩, ⟨same, -⟩, run⟩ := lockstep.finishes (t := ⟨_, service.strays⟩) ⟨is_party, rfl⟩ run
    refine ⟨alone, (Solitary.patient.finishes_beside_iff sound _).1 ⟨left, run⟩, ?_, ?_⟩
    · simpa [Party.answers, same.1] using answers
    · rw [← same.2.1]
      exact passed_eq
  · rintro ⟨alone, run, answer, passed_eq⟩
    obtain ⟨left, run⟩ := (Solitary.patient.finishes_beside_iff sound service.strays).2 run
    obtain ⟨final, ⟨same, -⟩, run⟩ := lockstep.symm.finishes (t := ⟨_, service.strays⟩) ⟨is_party, rfl⟩ run
    refine ⟨final, run, ?_, ?_⟩
    · simp [Party.answers, same.1, answer]
    · rw [same.2.1]
      exact passed_eq

end Service

open Recipe (LaunchesAlike)

/-- What comes of a call does not depend on what was written before it, nor on the arguments of leaves that are not
the first of their keys. -/
theorem Call.ends_iff {c d : Call} {e f : Expr} (same : ∀ p q : Past, c.after p = d.after q)
    (alike : LaunchesAlike e f) (pure : ∀ d ∈ e.leaves, d.matcher.Pure) (pure' : ∀ d ∈ f.leaves, d.matcher.Pure)
    (journal : Journal) (value : Bool) (passed : List (String × List (Option Json))) :
    (∃ final, Machine.Finishes (c.launch e journal) final ∧ final.call.answer? = some value ∧
        final.journal.passed = journal.passed ++ passed) ↔
      ∃ final, Machine.Finishes (d.launch f .empty) final ∧ final.call.answer? = some value ∧
        final.journal.passed = passed := by
  -- The one call goes on in its journal as it is, the other one behind that journal.
  let p : Past := ⟨.empty, 0⟩
  let q : Past := ⟨journal, 0⟩
  have same_journal : journal.after p = Journal.empty.after q := by rw [Journal.after_empty, Journal.empty_after]
  have starts : Solitary.Alike p q (c.launch e journal) (d.launch f .empty) :=
    launch_alike rfl same_journal (same p q) alike.1 alike.2 pure pure'
  have ends {s t : Solitary} (h : Solitary.Alike p q s t) :
      s.call.answer? = t.call.answer? ∧ s.journal.passed = journal.passed ++ t.journal.passed := by
    refine ⟨?_, ?_⟩
    · rw [← answer?_after p s.call, ← answer?_after q t.call]
      exact congrArg (·.call.answer?) h.1
    · have passed_eq := congrArg (·.journal.passed) h.1
      simp only [Solitary.after, Journal.passed_after] at passed_eq
      exact passed_eq
  have lockstep := Solitary.lockstep_after p q
  constructor
  · rintro ⟨final, run, answer, passed_eq⟩
    obtain ⟨final', related, run⟩ := lockstep.finishes starts run
    obtain ⟨answer_eq, journal_eq⟩ := ends related
    exact ⟨final', run, answer_eq ▸ answer, List.append_cancel_left (journal_eq.symm.trans passed_eq)⟩
  · rintro ⟨final', run, answer, rfl⟩
    obtain ⟨final, related, run⟩ := lockstep.symm.finishes starts run
    obtain ⟨answer_eq, journal_eq⟩ := ends related
    exact ⟨final, run, answer_eq.trans answer, journal_eq⟩

/-- Services that build expressions alike for a call answer alike. -/
theorem Service.matches_iff_of_alike {service other : Service} {subject : Json} {target target' : Target}
    (name : target.name = target'.name)
    (both : BothGive LaunchesAlike
      (Engine.buildExpr service.engine.segments service.engine.registry subject target).1
      (Engine.buildExpr other.engine.segments other.engine.registry subject target').1)
    (pure : ∀ e, (Engine.buildExpr service.engine.segments service.engine.registry subject target).1 = .ok e →
      ∀ d ∈ e.leaves, d.matcher.Pure)
    (pure' : ∀ e, (Engine.buildExpr other.engine.segments other.engine.registry subject target').1 = .ok e →
      ∀ d ∈ e.leaves, d.matcher.Pure)
    (value : Bool) (passed : List (String × List (Option Json))) :
    service.Matches subject target value passed ↔ other.Matches subject target' value passed := by
  cases built : (Engine.buildExpr service.engine.segments service.engine.registry subject target).1 with
  | error error =>
    cases built' : (Engine.buildExpr other.engine.segments other.engine.registry subject target').1 with
    | error error' => rw [matches_iff_of_error service _ _ built, matches_iff_of_error other _ _ built']
    | ok f => rw [built, built'] at both; exact False.elim both
  | ok e =>
    cases built' : (Engine.buildExpr other.engine.segments other.engine.registry subject target').1 with
    | error error' => rw [built, built'] at both; exact False.elim both
    | ok f =>
      rw [built, built'] at both
      have same (p q : Past) :
          (Call.start subject target none).after p = (Call.start subject target' none).after q := by
        simp [Call.after, Call.start, name, CallStage.after]
      rw [matches_iff_of_built service _ _ built, matches_iff_of_built other _ _ built',
        Call.ends_iff same both (pure e built) (pure' f built'),
        Call.ends_iff (fun _ _ => rfl) ⟨Expr.Alike.refl f, fun _ _ => rfl⟩ (pure' f built') (pure' f built')]

end Segmentation
