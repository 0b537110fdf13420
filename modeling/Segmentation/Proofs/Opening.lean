import Segmentation.Proofs.Batching
import Segmentation.Proofs.Independence
import Segmentation.Proofs.Mirrors.Call

/-!
# How calls begin

A call begins with its first poll (`Call.opened`).  How it goes on from there does not depend on what was written before
(`Call.finishes_behind`), and the registry that it leaves is the one that was left when its expression was built
(`Service.ask_alone`).
-/

namespace Segmentation

/-! ### What is written at once -/

namespace Flush

theorem pollFlights_stands (flights : List Flight) (scene : Scene) :
    scene.Stands (fun _ => True) (pollFlights flights scene).2 := by
  let polled (r : List Flight × Scene) : Prop := scene.Stands (fun _ => True) r.2
  refine List.foldlRecOn (motive := polled) _ _ (.refl scene) fun r stands flight _ => ?_
  exact Scene.Stands.trans stands (flight.pollContained_stands r.2)

theorem nextRound_stands (flush : Flush) (scene : Scene) :
    scene.Stands (fun _ => True) (flush.nextRound scene).2 := by
  have taken : scene.Stands (fun _ => True) { scene with hub := scene.hub.takeFlights.2 } :=
    .of_hub (.refl _) scene.hub.takeFlights_spec.2 (scene.hub.takeFlights_same.1 ▸ List.prefix_rfl)
  unfold nextRound
  split
  · rename_i hub eq
    rwa [eq] at taken
  · rename_i flights hub _ eq
    rw [eq] at taken
    exact taken.trans (pollFlights_stands _ _)

theorem pass_stands (flush : Flush) (scene : Scene) : scene.Stands (fun _ => True) (flush.pass scene).2 := by
  have polled := pollFlights_stands flush.flights scene
  unfold pass
  split
  · exact .refl scene
  · split
    · rename_i later eq
      rw [eq] at polled
      exact polled.trans (nextRound_stands _ later)
    · rename_i eq
      rwa [eq] at polled

end Flush

namespace Call

variable (call : Call) (segments : Keyed SegmentDefinition) (registry : Registry) (journal : Journal)

theorem flushQueues_adds (span context : Nat) (outcome : Outcome) (invocations : Nat) (flush : Flush) (scene : Scene) :
    scene.journal.Adds (fun _ => True) (call.flushQueues span context outcome invocations flush scene).2 := by
  have passed := (flush.pass_stands scene).journal
  unfold flushQueues
  generalize flush.pass scene = r at passed
  obtain ⟨flush, later⟩ := r
  dsimp only at passed ⊢
  split
  · obtain ⟨_, _, -, -, told⟩ := conclude_closes { call with strays := later.hub.answerAlarms } span
      ((later.journal.notice (.segmentEvaluated call.target.name invocations flush.flushed)).record
        (.span (.contextReleased context))) outcome
    exact ((passed.trans (.record _ trivial)).trans (.record _ trivial)).trans (told.mono fun _ _ => trivial)
  · exact passed

theorem driveOn_adds (span context : Nat) (drive : Drive Evaluation) (scene : Scene) :
    scene.journal.Adds (fun _ => True) (call.driveOn span context drive scene).2 := by
  obtain ⟨written, dates, -⟩ := drive.pass_dates scene
  have passed : scene.journal.Adds (fun _ => True) (drive.pass scene).2.journal := ⟨written, dates, fun _ _ => trivial⟩
  unfold driveOn
  generalize drive.pass scene = r at passed
  obtain ⟨drive, later⟩ := r
  dsimp only at passed ⊢
  split
  · exact passed.trans (flushQueues_adds ..)
  · exact passed


/-- The call after its first poll, with its journal. -/
def opened : Solitary := ⟨(call.begins segments registry journal).1, (call.begins segments registry journal).2.2⟩

/-- Beginning changes the registry as building the expression does. -/
theorem registry_begins :
    (call.begins segments registry journal).2.1 =
      (Engine.buildExpr segments registry call.subject call.target).2 := by
  unfold begins
  obtain ⟨_ | _, _⟩ := Engine.buildExpr segments registry call.subject call.target <;> rfl

theorem opened_of_built {expr : Expr} (built : (Engine.buildExpr segments registry call.subject call.target).1 = .ok expr) :
    call.opened segments registry journal = call.launch expr journal := by
  have begins := call.begins_of_built (Prod.ext built rfl) journal
  rw [opened, begins]

/-- What a call writes when its expression cannot be built. -/
def refusal (journal : Journal) : Journal :=
  (preface call.target.name journal).record (.span (.contextReleased journal.contextCount))

theorem opened_of_refused {error : Error}
    (refused : (Engine.buildExpr segments registry call.subject call.target).1 = .error error) :
    call.opened segments registry journal =
      ⟨(call.conclude journal.spanCount (.error error) (call.refusal journal)).1,
        (call.conclude journal.spanCount (.error error) (call.refusal journal)).2⟩ := by
  unfold opened begins
  generalize Engine.buildExpr segments registry call.subject call.target = r at refused
  obtain ⟨built, later⟩ := r
  obtain rfl := refused
  rfl

theorem refusal_after (past : Past) : call.refusal (journal.after past) = (call.refusal journal).after past := by
  unfold refusal
  rw [preface_after, ← Journal.record_after, Journal.contextCount_after]
  rfl

theorem opened_sound : (call.opened segments registry journal).Sound := by
  cases built : (Engine.buildExpr segments registry call.subject call.target).1 with
  | error error =>
    rw [opened_of_refused call segments registry journal built]
    exact conclude_spec call _ _ _ _
  | ok expr =>
    rw [opened_of_built call segments registry journal built]
    exact launch_sound call expr journal

/-- Beginning takes no time, and keeps what was written. -/
theorem opened_adds : journal.Adds (fun _ => True) (call.opened segments registry journal).journal := by
  have anything {before later : Journal} (adds : before.Adds Event.IsBatchless later) : before.Adds (fun _ => True) later :=
    adds.mono fun _ _ => trivial
  have opens : journal.Adds (fun _ => True) (preface call.target.name journal) := .recordAll _ fun _ _ => trivial
  cases built : (Engine.buildExpr segments registry call.subject call.target).1 with
  | error error =>
    rw [opened_of_refused call segments registry journal built]
    obtain ⟨_, _, -, -, told⟩ := call.conclude_closes journal.spanCount (call.refusal journal) (.error error)
    exact (opens.trans (.record _ trivial)).trans (anything told)
  | ok expr =>
    rw [opened_of_built call segments registry journal built]
    have launches : (preface call.target.name journal).Adds (fun _ => True)
        ((Session.start (call.scope journal)).launch expr (preface call.target.name journal)).2.2 :=
      Session.launch_adds (fun _ => trivial) expr _ _
    exact (opens.trans launches).trans (driveOn_adds ..)

/-- The matchers at the leaves of the expression that the call builds are pure. -/
def BuildsPure : Prop :=
  ∀ expr, (Engine.buildExpr segments registry call.subject call.target).1 = .ok expr → ∀ d ∈ expr.leaves, d.matcher.Pure

variable {call segments registry}

/-- A call begins alike behind journals that are the same, each after its own past. -/
theorem opened_alike (pure : call.BuildsPure segments registry) {p q : Past} (serial : p.serial = q.serial)
    {journal journal' : Journal} (same : journal.after p = journal'.after q) (same_call : call.after p = call.after q) :
    Solitary.Alike p q (call.opened segments registry journal) (call.opened segments registry journal') := by
  cases built : (Engine.buildExpr segments registry call.subject call.target).1 with
  | ok expr =>
    rw [opened_of_built call segments registry _ built, opened_of_built call segments registry _ built]
    exact launch_alike serial same same_call (Expr.Alike.refl expr) (fun _ _ => rfl) (pure expr built) (pure expr built)
  | error error =>
    rw [opened_of_refused call segments registry _ built, opened_of_refused call segments registry _ built]
    have span_eq : p.journal.spanCount + journal.spanCount = q.journal.spanCount + journal'.spanCount := by
      rw [← Journal.spanCount_after, same, Journal.spanCount_after]
    have concluded := conclude_after p call journal.spanCount (.error error) (call.refusal journal)
    have concluded' := conclude_after q call journal'.spanCount (.error error) (call.refusal journal')
    rw [← refusal_after, same_call, span_eq, same, refusal_after, concluded'] at concluded
    refine ⟨?_, (conclude_spec _ _ _ _ .empty).1, pure_conclude _ _ _ _, (conclude_spec _ _ _ _ .empty).1,
      pure_conclude _ _ _ _⟩
    simpa [Solitary.after] using concluded.symm

/-- An entry that is written behind a journal. -/
def behind (journal : Journal) (entry : Nat × Event) : Nat × Event :=
  (journal.now + entry.1, entry.2.after ⟨journal, 0⟩)

/-- A call that comes to its end behind one journal comes to the same end behind every other, and writes the same. -/
theorem finishes_behind (pure : call.BuildsPure segments registry) (waits : call.stage = .waiting)
    (unspoilt : call.strays = []) {journal : Journal} {final : Solitary}
    (run : Machine.Finishes (call.opened segments registry journal) final) (journal' : Journal) :
    ∃ final', Machine.Finishes (call.opened segments registry journal') final' ∧
      final'.call.answer? = final.call.answer? ∧ ∃ own : List (Nat × Event),
        final.journal.entries = journal.entries ++ own.map (behind journal) ∧
        final'.journal.entries = journal'.entries ++ own.map (behind journal') := by
  have same_call (p q : Past) : call.after p = call.after q := by
    simp [Call.after, waits, unspoilt, CallStage.after]
  -- behind every journal it goes as it does in an empty one
  have starts (journal : Journal) : Solitary.Alike ⟨.empty, 0⟩ ⟨journal, 0⟩ (call.opened segments registry journal)
      (call.opened segments registry .empty) :=
    have same : journal.after ⟨.empty, 0⟩ = Journal.empty.after ⟨journal, 0⟩ := by
      rw [Journal.after_empty, Journal.empty_after]
    opened_alike (p := ⟨.empty, 0⟩) (q := ⟨journal, 0⟩) pure rfl same (same_call _ _)
  have ends {journal : Journal} {s t : Solitary} (h : Solitary.Alike ⟨.empty, 0⟩ ⟨journal, 0⟩ s t) :
      s.call.answer? = t.call.answer? ∧ s.journal.entries = journal.entries ++ t.journal.entries.map (behind journal) := by
    refine ⟨?_, ?_⟩
    · rw [← answer?_after ⟨.empty, 0⟩ s.call, ← answer?_after ⟨journal, 0⟩ t.call]
      exact congrArg (·.call.answer?) h.1
    · have journal_eq := congrArg (·.journal) h.1
      simp only [Solitary.after, Journal.after_empty] at journal_eq
      rw [journal_eq]
      rfl
  obtain ⟨alone, related, alone_run⟩ := (Solitary.lockstep_after ⟨.empty, 0⟩ ⟨journal, 0⟩).finishes (starts journal) run
  obtain ⟨final', related', run'⟩ :=
    (Solitary.lockstep_after ⟨.empty, 0⟩ ⟨journal', 0⟩).symm.finishes (starts journal') alone_run
  obtain ⟨answer_eq, entries_eq⟩ := ends related
  obtain ⟨answer_eq', entries_eq'⟩ := ends related'
  exact ⟨final', run', answer_eq'.trans answer_eq.symm, alone.journal.entries, entries_eq, entries_eq'⟩

theorem opened_pure (pure : call.BuildsPure segments registry) (journal : Journal) :
    (call.opened segments registry journal).call.stage.Pure :=
  (opened_alike (p := ⟨.empty, 0⟩) pure rfl rfl rfl).2.2.1

theorem buildsPure_of_registry (sound : registry.Sound) (pure : registry.Pure) :
    call.BuildsPure segments registry := by
  intro expr built d mem
  obtain ⟨name, known⟩ := Engine.registered_buildExpr segments call.subject call.target sound built d mem
  exact pure name d.matcher known

end Call

/-! ### Calls that have begun leave the registry alone -/

namespace Party

/-- All calls have begun, and the registry is as it is left by that. -/
def Leaves (registry : Registry) (party : Party) : Prop :=
  party.registry = registry ∧ ∀ call ∈ party.calls, call.HasBegun

variable {registry : Registry} {party : Party}

theorem Leaves.pollCall (leaves : party.Leaves registry) (index : Nat) : (party.pollCall index).Leaves registry := by
  unfold Party.pollCall
  cases here : party.calls[index]? with
  | none => exact leaves
  | some call =>
    dsimp only
    split
    · exact leaves
    · have begun := leaves.2 call (List.mem_of_getElem? here)
      refine ⟨?_, fun other mem => ?_⟩
      · rw [Call.poll_eq _ _ _ _ begun]
        exact leaves.1
      · rcases List.mem_or_eq_of_mem_set mem with mem | rfl
        · exact leaves.2 other mem
        · exact (Call.poll_spec call _ _ _ begun).1

theorem Leaves.poll (leaves : party.Leaves registry) : party.poll.Leaves registry := by
  have polled (turns : List Nat) : (turns.foldl Party.pollCall party).Leaves registry := by
    induction turns generalizing party with
    | nil => exact leaves
    | cons index turns ih => exact ih (leaves.pollCall index)
  exact polled _

theorem Leaves.advance (leaves : party.Leaves registry) (now : Nat) : Leaves registry (Machine.advance now party) := by
  refine ⟨leaves.1, fun call mem => ?_⟩
  obtain ⟨earlier, known, rfl⟩ := List.mem_map.1 mem
  exact Call.begun_advance earlier (leaves.2 earlier known) now

end Party

namespace Service

variable (service : Service) (subject : Json) (target : Target)

/-- The party of one call after its first poll is the call that has begun. -/
theorem opening_isParty :
    Solitary.IsParty (service.opening subject target)
      ((Call.start subject target none).opened service.engine.segments service.engine.registry service.journal) := by
  obtain ⟨calls_eq, journal_eq⟩ := opening_of_begins service subject target rfl
  exact ⟨calls_eq, journal_eq, ((Call.start subject target none).opened_sound _ _ _).1⟩

theorem opening_leaves : (service.opening subject target).Leaves
    (Engine.buildExpr service.engine.segments service.engine.registry subject target).2 := by
  obtain ⟨calls_eq, -, begun⟩ := service.opening_isParty subject target
  refine ⟨?_, fun call mem => ?_⟩
  · exact (Call.start subject target none).registry_begins service.engine.segments service.engine.registry
      service.journal
  · rw [calls_eq, List.mem_singleton] at mem
    rwa [mem]

variable {service subject target}

/-- A call that is asked alone goes as the call does without a party, and leaves the registry with the definitions that
its expression needed. -/
theorem ask_alone {later : Service} {moves : Nat} {answer : Bool}
    (asked : service.ask moves none [.start subject target none] = (.finished, [some answer], later)) :
    later.engine = { service.engine with
        registry := (Engine.buildExpr service.engine.segments service.engine.registry subject target).2 } ∧
      ∃ final, Machine.Finishes ((Call.start subject target none).opened service.engine.segments
          service.engine.registry service.journal) final ∧
        final.call.answer? = some answer ∧ final.journal = later.journal := by
  have sound := (Call.start subject target none).opened_sound service.engine.segments service.engine.registry
    service.journal
  unfold ask Machine.run at asked
  generalize run : Machine.runFor (σ := Beside Party) none moves _ = r at asked
  obtain ⟨verdict, final⟩ := r
  simp only [Prod.mk.injEq] at asked
  obtain ⟨rfl, answers, rfl⟩ := asked
  have run : Machine.runFor none moves (⟨service.opening subject target, service.strays⟩ : Beside Party) =
      (.finished, final) := run
  constructor
  · let kept (b : Beside Party) : Prop :=
      b.machine.Leaves (Engine.buildExpr service.engine.segments service.engine.registry subject target).2
    have leaves : kept (Machine.runFor none moves ⟨service.opening subject target, service.strays⟩).2 :=
      Machine.runFor_keeps (fun _ leaves => leaves.poll) (fun now _ leaves => leaves.advance now) none moves
        (service.opening_leaves subject target)
    rw [run] at leaves
    rw [leaves.1]
  · obtain ⟨⟨alone, left⟩, ⟨same, -⟩, alone_run⟩ := Solitary.lockstep_party.beside.finishes
      (t := ⟨_, service.strays⟩) ⟨service.opening_isParty subject target, rfl⟩
      (Machine.finishes_iff.2 ⟨moves, run⟩)
    refine ⟨alone, (Solitary.patient.finishes_beside_iff sound _).1 ⟨left, alone_run⟩, ?_, ?_⟩
    · simpa [Party.answers, same.1] using answers
    · exact same.2.1.symm

end Service

end Segmentation
