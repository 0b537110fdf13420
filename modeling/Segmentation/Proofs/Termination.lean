import Segmentation.Proofs.Company
import Segmentation.Proofs.Delivery
import Segmentation.Proofs.Effort

/-!
# Calls come to an end

A call does not go on for ever: it is answered, stalls, or is abandoned at its limit, if the batched evaluators load
nothing themselves (`Service.ask_ends`).  What is left to do has two parts.  `Session.weight` is what invocations have
yet to begin with; it is the greater part, since nobody knows how long an evaluator sleeps before it is called.  While
it stays the same, nothing is loaded, and each pass and each alarm takes something from `Drive.toil`.
-/

namespace Segmentation

/-! ### Machines that come to an end -/

namespace Machine

variable {σ : Type} [Machine σ]

/-- A run from this state comes to an end. -/
inductive Ends (limit : Option Nat) : σ → Prop
  | stops {s : σ} {r : Verdict × σ} (last : step limit s = .inr r) : Ends limit s
  | moves {s later : σ} (move : step limit s = .inl later) (rest : Ends limit later) : Ends limit s

variable {limit : Option Nat} {s : σ}

theorem Ends.of_moves (polls : awake s = true → Ends limit (poll s))
    (waits : Idle s → ∀ t, nextAlarm s = some t → Ends limit (advance t s)) : Ends limit s := by
  cases ended : finished s with
  | true =>
    have last : step limit s = .inr (.finished, s) := if_pos ended
    exact .stops last
  | false =>
    cases up : awake s with
    | true =>
      have move : step limit s = .inl (poll s) := by simp [step, ended, up]
      exact .moves move (polls up)
    | false =>
      cases next : nextAlarm s with
      | none =>
        have last : step limit s = .inr (.stalled, s) := by simp [step, ended, up, next]
        exact .stops last
      | some t =>
        have rest := waits ⟨ended, up⟩ t next
        cases limit with
        | none =>
          have move : step none s = .inl (advance t s) := by simp [step, ended, up, next]
          exact .moves move rest
        | some limit =>
          by_cases late : limit < t
          · have last : step (some limit) s = .inr (.abandoned, advance limit s) := by
              simp [step, ended, up, next, late]
            exact .stops last
          · have move : step (some limit) s = .inl (advance t s) := by simp [step, ended, up, next, late]
            exact .moves move rest

theorem ne_exhausted_of_step {r : Verdict × σ} (last : step limit s = .inr r) : r.1 ≠ .exhausted := by
  unfold step at last
  split at last
  · cases last
    nofun
  · split at last
    · cases last
    · split at last
      · cases last
        nofun
      · cases last
      · split at last
        · cases last
          nofun
        · cases last

theorem Ends.poll (ends : Ends limit s) (running : finished s = false) (up : awake s = true) :
    Ends limit (Machine.poll s) := by
  have polls : step limit s = .inl (Machine.poll s) := by simp [step, running, up]
  cases ends with
  | stops last => cases polls.symm.trans last
  | moves move rest =>
    obtain rfl := Sum.inl.inj (polls.symm.trans move)
    exact rest

/-- A run that comes to an end does so with all bounds that are great enough. -/
theorem Ends.enough (ends : Ends limit s) :
    ∃ enough, ∀ moves, enough ≤ moves → (runFor limit moves s).1 ≠ .exhausted := by
  induction ends with
  | stops last =>
    refine ⟨1, fun moves enough => ?_⟩
    obtain ⟨fewer, rfl⟩ := Nat.exists_eq_add_of_le' enough
    rw [runFor, last]
    exact ne_exhausted_of_step last
  | moves move rest ih =>
    obtain ⟨enough, ih⟩ := ih
    refine ⟨enough + 1, fun moves le => ?_⟩
    obtain ⟨fewer, rfl⟩ := Nat.exists_eq_add_of_le' le
    rw [← Nat.add_assoc, runFor, move]
    exact ih _ (Nat.le_add_left _ _)

end Machine

/-! ### Invocations -/

/-- How often an invocation may begin with something, if it has not called its evaluator yet. -/
def Stage.weight : Stage → Nat
  | .fresh => 2
  | .validating _ _ _ => 1
  | _ => 0

/-- The naps that an invocation has before it. -/
def Stage.naps : Stage → Nat
  | .validating _ _ rest => rest.naps
  | .evaluating _ _ _ rest => rest.naps
  | _ => 0

/-- There is less to begin with.  Or else there is as much, and nothing was done at the hub than to set alarms for
naps that were ahead. -/
def Hub.Labours (before : Hub) (weight naps : Nat) (later : Hub) (weight' naps' : Nat) : Prop :=
  weight' < weight ∨ weight' = weight ∧
    ∃ alarms, later = { before with alarms } ∧ alarms.length + naps' ≤ before.alarms.length + naps

namespace Hub.Labours

theorem refl (hub : Hub) (weight naps : Nat) : hub.Labours weight naps hub weight naps :=
  .inr ⟨rfl, hub.alarms, rfl, Nat.le_refl _⟩

theorem trans {a b c : Hub} {weight weight' weight'' naps naps' naps'' : Nat}
    (first : a.Labours weight naps b weight' naps') (second : b.Labours weight' naps' c weight'' naps'') :
    a.Labours weight naps c weight'' naps'' := by
  rcases first with less | ⟨rfl, alarms, rfl, le⟩
  · rcases second with less' | ⟨rfl, -⟩
    · exact .inl (Nat.lt_trans less' less)
    · exact .inl less
  · rcases second with less' | ⟨rfl, later, rfl, le'⟩
    · exact .inl less'
    · exact .inr ⟨rfl, later, rfl, Nat.le_trans le' le⟩

/-- What is left to others stays. -/
theorem of_parts {before later : Hub} {part part' weight weight' naps naps' slept slept' : Nat}
    (labours : before.Labours part naps later part' naps') (weights : weight' + part = weight + part')
    (sleeps : slept' + naps = slept + naps') : before.Labours weight slept later weight' slept' := by
  rcases labours with less | ⟨rfl, alarms, rfl, le⟩
  · exact .inl (by omega)
  · exact .inr ⟨by omega, alarms, rfl, by omega⟩

end Hub.Labours

namespace Invocation

variable (scope : Scope) (definition : Definition) (index span : Nat)

theorem evaluated_weight (args : Option Json) (running : Running (Ending Bool)) (scene : Scene) :
    (evaluated scope definition index span args running scene).1.weight = 0 := by
  cases running <;> rfl

theorem dispatch_weight (args : Option Json) (scene : Scene) :
    (dispatch scope definition index span args scene).1.weight = 0 := by
  unfold dispatch
  split
  · exact evaluated_weight ..
  · split <;> rfl

theorem validated_weight (running : Running Checked) (scene : Scene) :
    (validated scope definition index span running scene).1.weight ≤ 1 := by
  unfold validated
  split
  · split
    · exact Nat.le_trans (Nat.le_of_eq (dispatch_weight ..)) (Nat.zero_le 1)
    · exact Nat.zero_le 1
  · exact Nat.le_refl 1

theorem begins_weight (scene : Scene) : (begins scope definition index scene).1.weight ≤ 1 := by
  unfold begins
  dsimp only
  split
  · exact validated_weight ..
  · exact Nat.zero_le 1
  · exact Nat.le_trans (Nat.le_of_eq (dispatch_weight ..)) (Nat.zero_le 1)

theorem setAlarm_labours (scene : Scene) (deadline : Nat) (purpose : Purpose) (weight rest : Nat) :
    scene.hub.Labours weight (rest + 1) (scene.setAlarm deadline purpose).hub weight rest := by
  have one_more := Alarm.length_insert ⟨deadline, scene.journal.alarms, purpose⟩ scene.hub.alarms
  exact .inr ⟨rfl, _, rfl, by omega⟩

theorem evaluated_labours (args : Option Json) (running : Running (Ending Bool)) (scene : Scene) :
    let r := evaluated scope definition index span args running scene
    scene.hub.Labours 0 running.naps r.2.hub r.1.weight r.1.naps := by
  cases running with
  | ended ending => exact .refl _ 0 0
  | asleep deadline rest => exact setAlarm_labours scene deadline _ 0 rest.naps

theorem validated_labours (running : Running Checked) (scene : Scene) :
    let r := validated scope definition index span running scene
    scene.hub.Labours 1 running.naps r.2.hub r.1.weight r.1.naps := by
  cases running with
  | ended checked =>
    refine .inl ?_
    unfold validated
    dsimp only
    split
    · exact Nat.lt_of_le_of_lt (Nat.le_of_eq (dispatch_weight ..)) Nat.zero_lt_one
    · exact Nat.zero_lt_one
  | asleep deadline rest => exact setAlarm_labours scene deadline _ 1 rest.naps

/-- Going on with an invocation begins something that was left to begin with, or spends naps. -/
theorem advance_labours (stage : Stage) (scene : Scene) :
    let r := advance scope definition index stage scene
    scene.hub.Labours stage.weight stage.naps r.2.hub r.1.weight r.1.naps := by
  have fewer {ρ : Type} {weight weight' naps' : Nat} {later : Hub} (rest : Task ρ)
      (labours : scene.hub.Labours weight (rest.start scene.journal.now).naps later weight' naps') :
      scene.hub.Labours weight rest.naps later weight' naps' := by
    have le := rest.naps_start scene.journal.now
    rcases labours with less | ⟨same, alarms, later_eq, le'⟩
    · exact .inl less
    · exact .inr ⟨same, alarms, later_eq, by omega⟩
  cases stage with
  | fresh => exact .inl (Nat.lt_of_le_of_lt (begins_weight scope definition index scene) Nat.one_lt_two)
  | validating span deadline rest =>
    simp only [advance]
    split
    · exact .refl ..
    · exact fewer rest (validated_labours scope definition index span _ scene)
  | evaluating span args deadline rest =>
    simp only [advance]
    split
    · exact .refl ..
    · exact fewer rest (evaluated_labours scope definition index span args _ scene)
  | awaiting span load =>
    simp only [advance]
    split
    · exact .refl ..
    · exact .refl _ 0 0
    · exact .refl _ 0 0
  | settled outcome => exact .refl ..

end Invocation

namespace Session

/-- How often invocations may begin with something. -/
def weight (session : Session) : Nat := (session.invocations.map (·.stage.weight)).sum

/-- The naps that the invocations have before them. -/
def naps (session : Session) : Nat := (session.invocations.map (·.stage.naps)).sum

theorem advance_labours (session : Session) (scene : Scene) (index : Nat) :
    let r := session.advance scene index
    scene.hub.Labours session.weight session.naps r.2.hub r.1.weight r.1.naps := by
  unfold advance
  cases here : session.invocations[index]? with
  | none => exact .refl ..
  | some i =>
    have labours := Invocation.advance_labours session.scope i.definition index i.stage scene
    exact labours.of_parts (sum_map_set (fun i : Invocation => i.stage.weight) here _)
      (sum_map_set (fun i : Invocation => i.stage.naps) here _)

theorem advanceAll_labours (indices : List Nat) (session : Session) (scene : Scene) :
    let r := advanceAll indices session scene
    scene.hub.Labours session.weight session.naps r.2.hub r.1.weight r.1.naps := by
  induction indices generalizing session scene with
  | nil => exact .refl ..
  | cons index indices ih => exact (session.advance_labours scene index).trans (ih _ _)

end Session

/-! ### Drives -/

/-- A matcher whose batches, if it has any, load nothing. -/
def Matcher.Loadless (matcher : Matcher) : Prop :=
  ∀ evaluate, matcher.evaluator = .batch evaluate → BatchEvaluator.Loadless evaluate

theorem Session.known_advance {P : Definition → Prop} {session : Session}
    (known : ∀ i ∈ session.invocations, P i.definition) (scene : Scene) (index : Nat) :
    ∀ i ∈ (session.advance scene index).1.invocations, P i.definition := by
  unfold advance
  cases here : session.invocations[index]? with
  | none => exact known
  | some i =>
    intro j mem
    rcases List.mem_or_eq_of_mem_set mem with mem | rfl
    · exact known j mem
    · exact known i (List.mem_of_getElem? here)

theorem Session.loadless_advanceAll (indices : List Nat) {session : Session}
    (loadless : ∀ i ∈ session.invocations, i.definition.matcher.Loadless) {scene : Scene}
    (evaluators : scene.hub.All BatchEvaluator.Loadless) :
    (advanceAll indices session scene).2.hub.All BatchEvaluator.Loadless := by
  induction indices generalizing session scene with
  | nil => exact evaluators
  | cons index indices ih =>
    exact ih (known_advance (P := fun d => d.matcher.Loadless) loadless scene index)
      (session.all_advance scene loadless evaluators index)

namespace Drive

/-- A drive of an evaluation between two passes, in which no batch loads anything. -/
structure Modest (drive : Drive Evaluation) (hub : Hub) : Prop where
  delivered : ∃ log, Delivered .empty log drive hub
  quiet : hub.reloads = []
  evaluators : hub.All BatchEvaluator.Loadless
  flights : ∀ flight ∈ drive.flights, flight.Loadless

/-- What is left to do while no invocation begins with anything. -/
def toil (drive : Drive Evaluation) (hub : Hub) : Nat :=
  3 * (hub.alarms.length + drive.client.session.naps + naps drive.flights) + hub.stakes +
    (hub.woken.length - drive.client.seen) + 2 * drive.ready.length + drive.again.toNat

theorem Modest.drained {drive : Drive Evaluation} {hub : Hub} (modest : drive.Modest hub) : hub.IsDrained := by
  obtain ⟨log, delivered⟩ := modest.delivered
  exact delivered.drained modest.quiet

theorem modest_start (evaluation : Evaluation) : (Drive.start evaluation).Modest .empty := by
  have names : Hub.empty.names.Nodup := List.nodup_nil
  exact ⟨⟨[], Run.start.delivered names fun _ => rfl⟩, rfl, List.forall_mem_nil _, List.forall_mem_nil _⟩

theorem Modest.pass {drive : Drive Evaluation} (scene : Scene) (modest : drive.Modest scene.hub)
    (loadless : ∀ i ∈ drive.client.session.invocations, i.definition.matcher.Loadless) :
    (drive.pass scene).1.Modest (drive.pass scene).2.hub := by
  obtain ⟨log, delivered⟩ := modest.delivered
  obtain ⟨same_flights, -, loaded, reloads⟩ := drive.pollClient_spec scene
  have polled : (drive.pollClient scene).2.hub.All BatchEvaluator.Loadless := by
    unfold pollClient
    split
    · exact modest.evaluators
    · exact Session.loadless_advanceAll _ loadless modest.evaluators
  let taken : Scene := ⟨(drive.pollClient scene).2.hub.takeFlights.2, (drive.pollClient scene).2.journal⟩
  have evaluators : taken.hub.All BatchEvaluator.Loadless := polled.of_eq (Hub.evaluators_takeFlights _)
  have flights : ∀ flight ∈ (drive.pollClient scene).1.flights ++ (drive.pollClient scene).2.hub.takeFlights.1,
      flight.Loadless := by
    intro flight mem
    rcases List.mem_append.1 mem with old | new
    · exact modest.flights flight (same_flights ▸ old)
    · have boards := (drive.pollClient scene).2.hub.takeFlights_spec.1 flight new
      rw [Flight.Loadless, boards]
      trivial
  obtain ⟨later_reloads, later_flights⟩ := pollReady_loadless
    ((drive.pollClient scene).1.ready ++ (drive.pollClient scene).2.hub.takeFlights.1.map (·.id)) flights 0 evaluators
  have names := loaded.nodup delivered.sound.names
  have taken_reloads : taken.hub.reloads = (drive.pollClient scene).2.hub.reloads := (taken_spec names).1.reloads
  exact ⟨⟨_, delivered.pass⟩, later_reloads.trans (taken_reloads.trans (reloads.trans modest.quiet)),
    evaluators.of_eq (evaluators_pollReady _ _ _ _), later_flights⟩

/-- A poll of an evaluation that begins with nothing sees all that were woken, and wakes nobody. -/
theorem pollClient_labours (drive : Drive Evaluation) (scene : Scene) :
    (drive.pollClient scene).1.client.session.weight < drive.client.session.weight ∨
    (drive.pollClient scene).1.client.session.weight = drive.client.session.weight ∧
      (∃ alarms, (drive.pollClient scene).2.hub = { scene.hub with alarms } ∧
        alarms.length + (drive.pollClient scene).1.client.session.naps ≤
          scene.hub.alarms.length + drive.client.session.naps) ∧
      (drive.pollClient scene).1.again = false ∧
      scene.hub.woken.length - (drive.pollClient scene).1.client.seen +
          (!Client.settled drive.client && Client.stirred drive.client scene.hub).toNat ≤
        scene.hub.woken.length - drive.client.seen := by
  unfold pollClient
  cases settled : Client.settled drive.client with
  | true => exact .inr ⟨rfl, ⟨scene.hub.alarms, rfl, Nat.le_refl _⟩, rfl, Nat.le_refl _⟩
  | false =>
    rcases Session.advanceAll_labours (drive.client.progress.wakeAll (drive.client.news scene.hub)).due
      drive.client.session scene with less | ⟨same, alarms, hub_eq, le⟩
    · exact .inl less
    · refine .inr ⟨same, ⟨alarms, hub_eq, le⟩, ?_, ?_⟩
      · have nobody : (drive.client.poll scene).1.news (drive.client.poll scene).2.hub = [] := by
          have polled : (drive.client.poll scene).2.hub = { scene.hub with alarms } := hub_eq
          have woken : (drive.client.poll scene).2.hub.woken = scene.hub.woken := by rw [polled]
          rw [Evaluation.news, woken]
          exact congrArg List.flatten List.drop_length
        change ((drive.client.poll scene).1.news (drive.client.poll scene).2.hub).any _ = false
        rw [nobody]
        rfl
      · change scene.hub.woken.length - scene.hub.woken.length + (Client.stirred drive.client scene.hub).toNat ≤ _
        cases stirred : Client.stirred drive.client scene.hub with
        | false => simp
        | true =>
          have unseen : drive.client.seen < scene.hub.woken.length := by
            by_contra all
            have nobody : drive.client.news scene.hub = [] := by
              rw [Evaluation.news, List.drop_eq_nil_of_le (Nat.le_of_not_lt all)]
              rfl
            have stirred : (drive.client.news scene.hub).any _ = true := stirred
            rw [nobody] at stirred
            cases stirred
          simp only [Nat.sub_self, Bool.toNat_true]
          omega

/-- The drive wakes itself only if a batch went on. -/
theorem pollReady_again_le (flights : List Flight) (ready : List Nat) (scene : Scene) :
    (pollReady flights 0 ready scene).2.1.toNat ≤ ready.length := by
  cases ready with
  | nil => exact Nat.le_refl 0
  | cons id ready => exact Nat.le_trans (Bool.toNat_le _) (Nat.le_add_left _ _)

/-- Of what a pass takes up there is something while the drive is awake. -/
theorem stirs_of_awake (drive : Drive Evaluation) {hub : Hub} (up : drive.awake hub = true) :
    0 < drive.again.toNat + (!Client.settled drive.client && Client.stirred drive.client hub).toNat +
      drive.ready.length := by
  unfold awake at up
  cases again : drive.again with
  | true => exact Nat.add_pos_left (Nat.add_pos_left Nat.zero_lt_one _) _
  | false =>
    cases stirred : (!Client.settled drive.client && Client.stirred drive.client hub) with
    | true => exact Nat.add_pos_left (Nat.add_pos_right _ Nat.zero_lt_one) _
    | false =>
      rw [again, stirred] at up
      exact Nat.add_pos_right _ (List.length_pos_iff.2 (by simpa using up))

/-- A pass of a drive that is awake leaves less to do: the invocations have come further, or less is left of what has
to be noticed and taken up. -/
theorem pass_labours {drive : Drive Evaluation} (scene : Scene) (modest : drive.Modest scene.hub)
    (up : drive.awake scene.hub = true) :
    (drive.pass scene).1.client.session.weight < drive.client.session.weight ∨
      (drive.pass scene).1.client.session.weight = drive.client.session.weight ∧
        (drive.pass scene).1.toil (drive.pass scene).2.hub < drive.toil scene.hub := by
  obtain ⟨log, delivered⟩ := modest.delivered
  obtain ⟨same_flights, same_ready, -, -⟩ := drive.pollClient_spec scene
  rcases drive.pollClient_labours scene with less | ⟨same, ⟨alarms, hub_eq, le⟩, calm, seen⟩
  · exact .inl less
  · -- nothing was loaded, so no batch is taken
    have drained : (drive.pollClient scene).2.hub.IsDrained := by
      rw [hub_eq]
      exact modest.drained
    have nothing := Hub.takeFlights_of_drained drained
    have evaluators : (drive.pollClient scene).2.hub.All BatchEvaluator.Loadless := by
      rw [hub_eq]
      exact modest.evaluators
    have eases := pollReady_eases drive.ready delivered.sound.nodup delivered.sound.asleep modest.flights 0 evaluators
    obtain ⟨⟨more, woken, stakes⟩, spent, -⟩ := eases
    have pass_eq : drive.pass scene =
        ({ (drive.pollClient scene).1 with
            flights := (pollReady drive.flights 0 drive.ready (drive.pollClient scene).2).1
            ready := []
            again := (pollReady drive.flights 0 drive.ready (drive.pollClient scene).2).2.1 },
          (pollReady drive.flights 0 drive.ready (drive.pollClient scene).2).2.2) := by
      simp only [Drive.pass, takeBatches, nothing, pollFlights, same_flights, same_ready, List.append_nil, List.map_nil,
        calm, Bool.false_or]
    refine .inr ⟨by rw [pass_eq]; exact same, ?_⟩
    have calls_itself := pollReady_again_le drive.flights drive.ready (drive.pollClient scene).2
    have something := drive.stirs_of_awake up
    have at_stake : (drive.pollClient scene).2.hub.stakes = scene.hub.stakes := by
      rw [hub_eq]
      rfl
    have up_to_now : (drive.pollClient scene).2.hub.woken = scene.hub.woken := by rw [hub_eq]
    have alarms_eq : (drive.pollClient scene).2.hub.alarms = alarms := by rw [hub_eq]
    rw [pass_eq]
    simp only [toil, woken, up_to_now, List.length_append, List.length_nil]
    rw [at_stake] at stakes
    rw [alarms_eq] at spent
    omega

theorem Modest.advance {drive : Drive Evaluation} {hub : Hub} (modest : drive.Modest hub) (now : Nat) :
    (drive.advance hub now).1.Modest (drive.advance hub now).2 := by
  obtain ⟨log, delivered⟩ := modest.delivered
  obtain ⟨flights, ledger⟩ := drive.advance_spec hub now
  refine ⟨⟨_, delivered.advance now⟩, (Hub.reloads_of_ledger ledger).trans modest.quiet, ?_, ?_⟩
  · refine List.foldlRecOn (hub.takeDue now).1 _ (motive := fun r : Drive Evaluation × Hub =>
      r.2.All BatchEvaluator.Loadless) modest.evaluators fun r evaluators alarm _ => ?_
    dsimp only
    split
    · exact evaluators
    · exact evaluators.of_eq (Hub.evaluators_goOff _ _)
  · rw [flights]
    exact modest.flights

theorem toil_rouse (r : Drive Evaluation × Hub) (alarm : Alarm) :
    (rouse r alarm).1.toil (rouse r alarm).2 ≤ r.1.toil r.2 + 2 := by
  obtain ⟨drive, hub⟩ := r
  obtain ⟨deadline, number, purpose⟩ := alarm
  cases purpose with
  | wake waiter =>
    have same : (hub.goOff (.wake waiter)).stakes = hub.stakes := rfl
    have woken : (hub.goOff (.wake waiter)).woken.length = hub.woken.length + 1 := List.length_append
    have alarms : (hub.goOff (.wake waiter)).alarms = hub.alarms := rfl
    simp only [rouse, toil, same, woken, alarms]
    omega
  | resumeBatch id =>
    simp only [rouse, toil, List.length_append, List.length_singleton]
    omega
  | answer load value =>
    obtain ⟨more, woken, le⟩ := (hub.resolve_settles load value).trans (Hub.release_settles _ load)
    have alarms := (Hub.alarms_release (hub.resolve load value).2 load).trans (Hub.alarms_resolve hub load value)
    simp only [rouse, Hub.goOff, toil, woken, alarms, List.length_append]
    omega

/-- An alarm that goes off takes less to do than one that is set. -/
theorem advance_labours (drive : Drive Evaluation) (hub : Hub) (now : Nat) :
    (drive.advance hub now).1.toil (drive.advance hub now).2 + (hub.takeDue now).1.length ≤ drive.toil hub := by
  have all (due : List Alarm) (r : Drive Evaluation × Hub) :
      (due.foldl rouse r).1.toil (due.foldl rouse r).2 ≤ r.1.toil r.2 + 2 * due.length := by
    induction due generalizing r with
    | nil => exact Nat.le_refl _
    | cons alarm due ih =>
      have first := toil_rouse r alarm
      have rest := ih (rouse r alarm)
      rw [List.length_cons, List.foldl_cons]
      omega
  have went_off := all (hub.takeDue now).1 (drive, (hub.takeDue now).2)
  have set_aside : drive.toil (hub.takeDue now).2 + 3 * (hub.takeDue now).1.length = drive.toil hub := by
    have parted := List.length_eq_length_filter_add (l := hub.alarms) fun alarm => decide (alarm.deadline ≤ now)
    have ahead : (hub.alarms.filter fun alarm => !decide (alarm.deadline ≤ now)) =
        hub.alarms.filter (now < ·.deadline) := List.filter_congr fun alarm _ => by
      rw [← decide_not]
      exact decide_eq_decide.2 Nat.not_le
    rw [ahead] at parted
    have same : (hub.takeDue now).2.stakes = hub.stakes := rfl
    rw [toil, same]
    simp only [toil, Hub.takeDue]
    omega
  rw [advance_eq]
  dsimp only at went_off
  omega

end Drive

/-! ### Calls -/

namespace Call

theorem length_filter_lt {t : Nat} {l : List Nat} (mem : t ∈ l) : (l.filter (t < ·)).length < l.length :=
  List.length_filter_lt_length_iff_exists.2 ⟨t, mem, by simp⟩

section

variable (segments : Keyed SegmentDefinition) (matchers : String → Option Matcher) (limit : Option Nat)

/-- A call that is alone, with this journal and beside these alarms, comes to its end. -/
def Ends (call : Call) (journal : Journal) (others : List Nat) : Prop :=
  ∀ (b : Beside Party) (requests : List (Json × Target × Option Fallback)) (first : Journal),
    b.machine.Company segments matchers requests first → b.machine.calls = [call] → b.machine.journal = journal →
    b.others = others → Machine.Ends limit b

variable {segments matchers limit} {call : Call} {journal : Journal} {others : List Nat}

theorem Ends.of_moves
    (polls : call.awake journal.now = true → ∀ registry log, Service.Holds matchers registry →
      call.Course segments matchers log →
      Ends segments matchers limit (call.poll segments registry journal).1 (call.poll segments registry journal).2.2
        others)
    (waits : call.awake journal.now = false → ∀ t ∈ call.alarms ++ others,
      Ends segments matchers limit (call.advance t) (journal.moveTo t) (others.filter (t < ·))) :
    Ends segments matchers limit call journal others := by
  intro b requests first company alone same_journal same_others
  subst same_journal same_others
  refine Machine.Ends.of_moves (fun up => ?_) fun idle t next => ?_
  · have up : call.awake b.machine.journal.now = true := by simpa [Machine.awake, alone] using up
    obtain ⟨logs, written, -, -, courses⟩ := company.courses
    rw [alone, List.forall₂_cons_left_iff] at courses
    obtain ⟨log, _, course, -, -⟩ := courses
    obtain ⟨calls_eq, journal_eq⟩ := Solitary.poll_party alone up
    rw [company.segments_eq] at calls_eq journal_eq
    exact polls up _ log company.holds course _ requests first company.poll calls_eq journal_eq rfl
  · have asleep : call.awake b.machine.journal.now = false := by simpa [Machine.awake, alone] using idle.2
    have first_of_all : ((Machine.nextAlarm b.machine).toList ++ b.others).min? = some t := next
    have mem : t ∈ call.alarms ++ b.others := by
      rcases List.mem_append.1 (List.min?_eq_some_iff.1 first_of_all).1 with own | other
      · have own : (b.machine.calls.flatMap Call.alarms).min? = some t := Option.mem_toList.1 own
        rw [alone, List.flatMap_singleton] at own
        exact List.mem_append_left _ (List.min?_eq_some_iff.1 own).1
      · exact List.mem_append_right _ other
    have calls_eq : (Machine.advance t b).machine.calls = [call.advance t] := by
      change b.machine.calls.map (·.advance t) = _
      rw [alone]
      rfl
    exact waits asleep t mem _ requests first (company.advance t) calls_eq rfl rfl

theorem answered_ends (answered : call.answer?.isSome) : Ends segments matchers limit call journal others := by
  intro b _ _ _ alone _ _
  have ended : Machine.finished b = true := by
    change b.machine.calls.all _ = true
    rw [alone]
    simpa using answered
  have last : Machine.step limit b = .inr (.finished, b) := if_pos ended
  exact .stops last

/-- A fallback that sleeps wakes up in the end. -/
theorem recovering_ends {span deadline alarm : Nat} {rest : Task (Ending Bool)}
    (stage : call.stage = .recovering span deadline alarm rest) :
    Ends segments matchers limit call journal others := by
  -- each sleep takes two moves at most: the alarm goes off, and the call is polled
  induction size : 2 * rest.naps + (if journal.now < deadline then 1 else 0) + call.strays.length + others.length
    using Nat.strongRecOn generalizing call journal others deadline alarm rest with
  | ind size ih =>
    subst size
    obtain ⟨subject, target, fallback, _, strays⟩ := call
    obtain rfl := stage
    refine Ends.of_moves (fun up registry log _ _ => ?_) fun asleep t mem => ?_
    · have due : deadline ≤ journal.now := of_decide_eq_true up
      simp only [poll, if_pos due]
      have spent := rest.naps_start journal.now
      cases running : rest.start journal.now with
      | ended ending =>
        refine answered_ends ?_
        unfold recovered
        dsimp only
        split <;> rfl
      | asleep deadline' rest' =>
        refine ih _ ?_ rfl rfl
        rw [running] at spent
        have spent : rest'.naps + 1 ≤ rest.naps := spent
        change 2 * rest'.naps + _ + strays.length + _ < _
        dsimp only
        split <;> split <;> omega
    · have ahead : journal.now < deadline := Nat.lt_of_not_le (of_decide_eq_false asleep)
      refine ih _ ?_ rfl rfl
      have fewer := List.length_filter_le (decide <| t < ·) strays
      have fewer_others := List.length_filter_le (decide <| t < ·) others
      change 2 * rest.naps + (if t < deadline then 1 else 0) + (strays.filter (t < ·)).length +
        (others.filter (t < ·)).length < _
      rw [if_pos ahead]
      rcases List.mem_append.1 mem with own | other
      · rcases List.mem_append.1 own with stray | mine
        · have less : (strays.filter (t < ·)).length < strays.length := length_filter_lt stray
          dsimp only
          split <;> omega
        · obtain rfl := List.mem_singleton.1 mine
          rw [if_neg (Nat.lt_irrefl t)]
          dsimp only
          omega
      · have less := length_filter_lt other
        dsimp only
        split <;> omega

theorem conclude_ends (call : Call) (span : Nat) (outcome : Outcome) (journal : Journal) :
    Ends segments matchers limit (call.conclude span outcome journal).1 (call.conclude span outcome journal).2
      others := by
  unfold conclude
  cases outcome with
  | ok value => exact answered_ends rfl
  | error error =>
    dsimp only
    cases call.fallback with
    | none => exact answered_ends rfl
    | some fallback =>
      dsimp only
      generalize (fallback [error]).start _ _ = running
      cases running with
      | asleep deadline rest => exact recovering_ends rfl
      | ended ending =>
        refine answered_ends ?_
        unfold recovered
        dsimp only
        split <;> rfl

/-- Once an evaluation is over its queues are empty, and the call has its outcome. -/
theorem driveOn_cases (call : Call) (span context : Nat) {drive : Drive Evaluation} {scene : Scene}
    (drained : (drive.pass scene).2.hub.IsDrained) :
    call.driveOn span context drive scene =
        ({ call with stage := .driving span context (drive.pass scene).2.hub (drive.pass scene).1 },
          (drive.pass scene).2.journal) ∨
      ∃ (concluding : Call) (outcome : Outcome) (journal : Journal),
        call.driveOn span context drive scene = concluding.conclude span outcome journal := by
  unfold driveOn
  dsimp only
  split
  · exact .inr ⟨_, _, _, flushQueues_of_drained drained ..⟩
  · exact .inl rfl

variable (loadless : ∀ name matcher, matchers name = some matcher → matcher.Loadless)

include loadless

/-- The leaves of what is built load nothing in batches. -/
theorem Builds.leaves_loadless {expr : Expr} (builds : call.Builds segments matchers (.ok expr)) :
    ∀ d ∈ expr.leaves, d.matcher.Loadless := by
  intro d mem
  obtain ⟨registry, ⟨sound, same⟩, built⟩ := builds
  obtain ⟨name, known⟩ := Engine.registered_buildExpr _ _ _ sound built d mem
  rw [same] at known
  exact loadless name d.matcher known

theorem driving_ends {span context : Nat} {hub : Hub} {drive : Drive Evaluation}
    (stage : call.stage = .driving span context hub drive) (modest : drive.Modest hub) :
    Ends segments matchers limit call journal others := by
  -- the greater part of what is left to do first, and for what is the same in it the smaller part
  induction greater : drive.client.session.weight using Nat.strongRecOn
    generalizing call journal others hub drive with
  | ind weight fewer =>
  induction smaller : drive.toil hub + call.strays.length + others.length using Nat.strongRecOn
    generalizing call journal others hub drive with
  | ind size less =>
    subst greater smaller
    obtain ⟨subject, target, fallback, _, strays⟩ := call
    obtain rfl := stage
    refine Ends.of_moves (fun up registry log _ course => ?_) fun asleep t mem => ?_
    · obtain ⟨begun, expr, builds, underway, -⟩ := course
      have known : ∀ i ∈ drive.client.session.invocations, i.definition.matcher.Loadless :=
        fun i mem => Builds.leaves_loadless loadless builds i.definition (underway.performs.known i mem)
      have later := Drive.Modest.pass ⟨hub, journal⟩ modest known
      have labours := Drive.pass_labours ⟨hub, journal⟩ modest up
      simp only [poll]
      rcases driveOn_cases ⟨subject, target, fallback, .driving span context hub drive, strays⟩ span context
        later.drained with goes_on | ⟨concluding, outcome, before, concludes⟩
      · rw [goes_on]
        rcases labours with begins | ⟨same, toils⟩
        · exact fewer _ begins rfl later rfl
        · refine less _ ?_ rfl later same rfl
          exact Nat.add_lt_add_right (Nat.add_lt_add_right toils _) _
      · rw [concludes]
        exact conclude_ends concluding span outcome before
    · have went_off := Drive.advance_labours drive hub t
      have same : (drive.advance hub t).1.client.session.weight = drive.client.session.weight := by
        rw [Evaluation.client_advance]
      refine less _ ?_ rfl (modest.advance t) same rfl
      have fewer_strays : (strays.filter (t < ·)).length ≤ strays.length := List.length_filter_le ..
      have fewer_others : (others.filter (t < ·)).length ≤ others.length := List.length_filter_le ..
      change (drive.advance hub t).1.toil (drive.advance hub t).2 + (strays.filter (t < ·)).length +
        (others.filter (t < ·)).length < drive.toil hub + strays.length + others.length
      rcases List.mem_append.1 mem with own | other
      · rcases List.mem_append.1 own with stray | mine
        · have less : (strays.filter (t < ·)).length < strays.length := length_filter_lt stray
          omega
        · obtain ⟨alarm, set, rfl⟩ := List.mem_map.1 mine
          have due : alarm ∈ (hub.takeDue alarm.deadline).1 :=
            List.mem_filter.2 ⟨set, decide_eq_true (Nat.le_refl _)⟩
          have some_due := List.length_pos_of_mem due
          omega
      · have less := length_filter_lt other
        omega

/-- A call that has not begun does so at once, and comes to its end. -/
theorem waiting_ends (stage : call.stage = .waiting) : Ends segments matchers limit call journal others := by
  refine Ends.of_moves (fun _ registry log holds _ => ?_) fun asleep => ?_
  · have polled : call.poll segments registry journal = call.begins segments registry journal := by
      rw [poll, stage]
    rw [polled]
    rcases call.begins_cases holds journal with ⟨error, builds, refused⟩ | ⟨expr, builds, starts⟩
    · obtain ⟨call_eq, journal_eq⟩ := Prod.ext_iff.1 refused
      rw [call_eq, journal_eq]
      exact conclude_ends call _ (.error error) _
    · let started := Evaluation.start (.start (call.scope journal)) expr ⟨.empty, preface call.target.name journal⟩
      have idle : deeds [] = [] := rfl
      obtain ⟨written, -, -, performs⟩ := Evaluation.start_performs (call.scope journal) rfl rfl idle expr
        ⟨.empty, preface call.target.name journal⟩
      have known : ∀ i ∈ started.1.session.invocations, i.definition.matcher.Loadless :=
        fun i mem => Builds.leaves_loadless loadless builds i.definition (performs.known i mem)
      have modest := Drive.Modest.pass started.2 (Drive.modest_start started.1) known
      obtain ⟨call_eq, journal_eq⟩ := Prod.ext_iff.1 starts
      rw [call_eq, journal_eq]
      rcases driveOn_cases call journal.spanCount journal.contextCount modest.drained with
        goes_on | ⟨concluding, outcome, before, concludes⟩
      · rw [goes_on]
        exact driving_ends loadless rfl modest
      · rw [concludes]
        exact conclude_ends concluding _ outcome before
  · rw [awake, stage] at asleep
    cases asleep

end

end Call

namespace Service

variable {matchers : String → Option Matcher}

/-- A call comes to its end if no batched evaluator loads anything: with enough moves it is answered, stalls, or is
abandoned. -/
theorem ask_ends {service : Service} (holds : Holds matchers service.engine.registry)
    (loadless : ∀ name matcher, matchers name = some matcher → matcher.Loadless) (limit : Option Nat)
    (subject : Json) (target : Target) (fallback : Option Fallback) :
    ∃ enough, ∀ moves, enough ≤ moves →
      (service.ask moves limit [.start subject target fallback]).1 ≠ .exhausted := by
  let begun : Beside Party :=
    ⟨service.engine.party service.journal [.start subject target fallback], service.strays⟩
  have company := company_start holds [(subject, target, fallback)]
  have waits : Call.Ends service.engine.segments matchers limit (.start subject target fallback) service.journal
      service.strays := Call.waiting_ends loadless rfl
  have ends : Machine.Ends limit begun := waits begun _ _ company rfl rfl rfl
  obtain ⟨enough, all⟩ := (ends.poll rfl rfl).enough
  exact ⟨enough, all⟩

end Service

end Segmentation
