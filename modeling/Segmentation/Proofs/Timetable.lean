import Segmentation.Proofs.Punctuality
import Segmentation.Proofs.Termination
import Segmentation.Proofs.Traffic

/-!
# A drive keeps to the schedule

The alarms of an evaluation wake whoever has to go on with the validation of an argument at the very instant for which
they were set, and a poll looks at everybody who was woken.  So what the polls at one instant ask is what the schedule
says (`Evaluation.Clocked.poll`), and as a pass takes all that was asked in it, the batched evaluators are called once
for each matcher that the schedule has at that instant (`Drive.OnSchedule`).
-/

namespace Segmentation

/-! ### Who is looked at -/

namespace Progress

mutual

/-- Before the first poll all leaves are to be looked at, from left to right. -/
theorem Launched.due_eq {keys : List String} : {e : Expr} → {p : Progress} → Launched keys e p → p.due = p.leaves
  | .leaf _, _, ⟨_, rfl⟩ => rfl
  | .and es, _, ⟨ps, rfl, h⟩ => @LaunchedAll.due_eq keys es ps h
  | .or es, _, ⟨ps, rfl, h⟩ => @LaunchedAll.due_eq keys es ps h
  | .not e, _, ⟨q, rfl, h⟩ => Launched.due_eq (e := e) (p := q) h

theorem LaunchedAll.due_eq {keys : List String} : {es : List Expr} → {ps : List Progress} → LaunchedAll keys es ps →
    ((List.range ps.length).flatMap fun i => (dueOperands ps).getD i []) = leavesOfAll ps
  | [], _, h => by subst h; rfl
  | e :: es, _, ⟨q, qs, h, he, hes⟩ => by
    subst h
    rw [List.length_cons, List.range_succ_eq_map, List.flatMap_cons, List.flatMap_map, leavesOfAll,
      ← Launched.due_eq he, ← LaunchedAll.due_eq hes]
    rfl

end

end Progress

namespace Hub

/-- Whoever is woken by an alarm is woken when it goes off, and nobody who was woken before is forgotten. -/
theorem woken_advance (hub : Hub) (now : Nat) : ∃ more, (hub.advance now).woken = hub.woken ++ more ∧
    ∀ alarm ∈ hub.alarms, alarm.deadline ≤ now → ∀ place, alarm.purpose = .wake place → place ∈ more := by
  have goOff_all (due : List Alarm) (hub : Hub) :
      ∃ more, (due.foldl (fun hub alarm => hub.goOff alarm.purpose) hub).woken = hub.woken ++ more ∧
        ∀ alarm ∈ due, ∀ place, alarm.purpose = .wake place → place ∈ more := by
    induction due generalizing hub with
    | nil => exact ⟨[], (List.append_nil _).symm, List.forall_mem_nil _⟩
    | cons alarm due ih =>
      obtain ⟨first, woken, told⟩ : ∃ first, (hub.goOff alarm.purpose).woken = hub.woken ++ first ∧
          ∀ place, alarm.purpose = .wake place → place ∈ first := by
        cases alarm.purpose with
        | wake waiter =>
          refine ⟨[waiter], rfl, ?_⟩
          rintro _ ⟨⟩
          exact List.mem_singleton_self waiter
        | resumeBatch flight => exact ⟨[], (List.append_nil _).symm, nofun⟩
        | answer load value =>
          obtain ⟨more, woken⟩ := ((hub.resolve_follows load value).trans (release_follows _ load)).prefix_woken
          exact ⟨more, woken.symm, nofun⟩
      obtain ⟨rest, woken', told'⟩ := ih (hub.goOff alarm.purpose)
      refine ⟨first ++ rest, by rw [List.foldl_cons, woken', woken, List.append_assoc], fun other mem place wakes => ?_⟩
      rcases List.mem_cons.1 mem with rfl | mem
      · exact List.mem_append_left _ (told place wakes)
      · exact List.mem_append_right _ (told' other mem place wakes)
  obtain ⟨more, woken, told⟩ := goOff_all (hub.takeDue now).1 (hub.takeDue now).2
  exact ⟨more, woken, fun alarm mem due => told alarm (List.mem_filter.2 ⟨mem, decide_eq_true due⟩)⟩

end Hub

/-! ### What is asked -/

/-- It only matters which elements give something. -/
theorem perm_filterMap {α β : Type} {f : α → Option β} {l m : List α} (nodup : l.Nodup) (nodup' : m.Nodup)
    (same : ∀ a, f a ≠ none → (a ∈ l ↔ a ∈ m)) : (l.filterMap f).Perm (m.filterMap f) := by
  have filtered (l : List α) : l.filterMap f = (l.filter fun a => (f a).isSome).filterMap f := by
    rw [List.filterMap_filter]
    refine List.filterMap_congr fun a _ => ?_
    cases f a <;> rfl
  rw [filtered l, filtered m]
  refine List.Perm.filterMap f ((List.perm_ext_iff_of_nodup (nodup.filter _) (nodup'.filter _)).2 fun a => ?_)
  simp only [List.mem_filter]
  refine and_congr_left fun some => same a fun none => ?_
  rw [none] at some
  cases some

theorem filterMap_range_getElem? {α β : Type} (l : List α) (f : α → Option β) :
    ((List.range l.length).filterMap fun index => l[index]?.bind f) = l.filterMap f := by
  induction l with
  | nil => rfl
  | cons a l ih =>
    rw [List.length_cons, List.range_succ_eq_map, List.filterMap_cons, List.filterMap_map, List.filterMap_cons, ← ih]
    rfl

namespace Session

variable {session : Session} {begun t : Nat}

/-- If all are on time for an instant they ask at it what the schedule says. -/
theorem OnTime.asked_eq (onTime : session.OnTime begun t) :
    session.definitions.filterMap (Definition.askedAt begun t) =
      (List.range session.invocations.length).filterMap (session.asks begun t) := by
  rw [definitions, List.filterMap_map]
  refine Eq.trans (List.filterMap_congr fun i mem => ?_) (filterMap_range_getElem? session.invocations _).symm
  obtain ⟨index, here⟩ := List.mem_iff_getElem?.1 mem
  exact (onTime index i here).asks_eq.symm

/-- Whoever is on time for a later instant asks nothing. -/
theorem OnTime.asks_eq_none {horizon : Nat} (onTime : session.OnTime begun horizon) (behind : t < horizon) (index : Nat) :
    session.asks begun t index = none := by
  unfold asks
  cases here : session.invocations[index]? with
  | none => rfl
  | some i => exact (onTime index i here).asks_eq_none behind

end Session

namespace Evaluation

open Hub (Enters)

/-- An evaluation that began at one instant has done everything that the schedule says before the horizon.  Whose
validation goes on later has an alarm set; whose validation goes on now was woken. -/
structure Clocked (scope : Scope) (expr : Expr) (begun horizon now : Nat) (evaluation : Evaluation) (hub : Hub) :
    Prop where
  scope_eq : evaluation.session.scope = scope
  definitions_eq : evaluation.session.definitions = expr.invoked
  sound : Sound expr evaluation
  started : begun < horizon
  reached : now ≤ horizon
  onTime : evaluation.session.OnTime begun horizon
  armed : evaluation.session.Armed now hub
  seen : evaluation.seen ≤ hub.woken.length
  told : ∀ (index : Nat) (i : Invocation), evaluation.session.invocations[index]? = some i →
    ∀ span deadline rest, i.stage = .validating span deadline rest → deadline ≤ now →
      [index] ∈ hub.woken.drop evaluation.seen

variable {scope : Scope} {expr : Expr} {begun horizon now : Nat}

/-- What is asked at an instant: up to the horizon nothing any more, and then what the schedule says. -/
def AskedAt (expr : Expr) (begun horizon now : Nat) (asked : List (String × Option Json)) : Prop :=
  (now < horizon → asked = []) ∧
  (now = horizon → asked.Perm (expr.asked begun now) ∧ (now = begun → asked = expr.asked begun now))

/-- A poll at which everybody is looked at whose validation goes on now. -/
private theorem clocked_poll {evaluation : Evaluation} (scene : Scene) (scope_eq : evaluation.session.scope = scope)
    (batching : scope.batching = true) (definitions_eq : evaluation.session.definitions = expr.invoked)
    (sound : Sound expr (evaluation.poll scene).1) (onTime : evaluation.session.OnTime begun horizon)
    (armed : evaluation.session.Armed scene.journal.now scene.hub) (within : scene.hub.Within)
    (started : begun ≤ scene.journal.now ∨ begun < horizon) (reached : scene.journal.now ≤ horizon)
    (idle : ∀ index ∉ (evaluation.progress.wakeAll (evaluation.news scene.hub)).due, ∀ i,
      evaluation.session.invocations[index]? = some i →
      i.stage.OnTime i.definition begun (max horizon (scene.journal.now + 1))) :
    (evaluation.poll scene).1.Clocked scope expr begun (max horizon (scene.journal.now + 1)) scene.journal.now
        (evaluation.poll scene).2.hub ∧
      Enters scope.subject ((firsts id (evaluation.progress.wakeAll (evaluation.news scene.hub)).due).filterMap
        (evaluation.session.asks begun scene.journal.now)) scene.hub (evaluation.poll scene).2.hub := by
  subst scope_eq
  have punctual := Session.advanceAll_punctual (evaluation.progress.wakeAll (evaluation.news scene.hub)).due batching
    (fun index i here => .inl (onTime index i here)) armed within started reached
  have onTime' : (evaluation.poll scene).1.session.OnTime begun (max horizon (scene.journal.now + 1)) := by
    intro index i here
    by_cases due : index ∈ (evaluation.progress.wakeAll (evaluation.news scene.hub)).due
    · exact punctual.onTime index due i here
    · exact idle index due i ((punctual.others index due).symm.trans here)
  refine ⟨⟨punctual.scope_eq, punctual.definitions_eq.trans definitions_eq, sound, by omega, by omega, onTime',
    punctual.armed, (evaluation.poll_stands scene).woken.length_le, fun index i here span deadline rest sleeps due => ?_⟩,
    punctual.enters⟩
  have ahead := onTime' index i here
  rw [sleeps] at ahead
  have ahead := ahead.1
  omega

/-- The leaves of an expression that was launched ask in their order what the schedule says. -/
private theorem asked_first (scope : Scope) (expr : Expr) (before : Journal) (begun : Nat) :
    (firsts id (expr.leaves.map fun d => ((Session.start scope).launch expr before).2.1.keys.idxOf d.key)).filterMap
      (((Session.start scope).launch expr before).2.1.asks begun begun) = expr.asked begun begun := by
  have unbegun := Session.Unbegun.of_start scope expr before
  obtain ⟨-, keyed, -⟩ := Session.launch_spec expr (.start scope) before
  have definitions_eq := Session.definitions_launch expr (.start scope) before
  generalize ((Session.start scope).launch expr before).2.1 = session at unbegun keyed definitions_eq
  have first : firsts (fun d : Definition => id (session.keys.idxOf d.key)) expr.leaves = expr.invoked :=
    firsts_congr fun d mem e _ => List.idxOf_inj (keyed d mem)
  rw [firsts_map, first, List.filterMap_map]
  refine List.filterMap_congr fun d mem => ?_
  have listed : d ∈ session.definitions := definitions_eq ▸ mem
  obtain ⟨i, i_mem, rfl⟩ := List.mem_map.1 listed
  obtain ⟨index, here⟩ := List.mem_iff_getElem?.1 i_mem
  rw [Function.comp_apply, Session.idxOf_key unbegun.nodup here, Session.asks, here, Option.bind_some,
    (unbegun.fresh i i_mem).1]
  rfl

/-- The first poll, at which all invocations begin. -/
theorem clocked_first (expr : Expr) (batching : scope.batching = true) (before : Journal) {scene : Scene}
    (blank : scene.hub = .empty) (now_eq : scene.journal.now = begun) :
    let r := (Evaluation.start (.start scope) expr ⟨.empty, before⟩).1.poll scene
    r.1.Clocked scope expr begun (begun + 1) begun r.2.hub ∧
      Enters scope.subject (expr.asked begun begun) .empty r.2.hub := by
  intro r
  let evaluation := (Evaluation.start (.start scope) expr ⟨.empty, before⟩).1
  have unbegun := Session.Unbegun.of_start scope expr before
  obtain ⟨-, keyed, launched⟩ := Session.launch_spec expr (.start scope) before
  have due_eq : (evaluation.progress.wakeAll (evaluation.news scene.hub)).due =
      expr.leaves.map fun d => evaluation.session.keys.idxOf d.key := by
    have silent : evaluation.news scene.hub = [] := by
      rw [blank]
      rfl
    rw [silent]
    exact launched.due_eq.trans launched.leaves_eq
  have fresh (index : Nat) (i : Invocation) (here : evaluation.session.invocations[index]? = some i) :
      i.stage = .fresh := (unbegun.fresh i (List.mem_of_getElem? here)).1
  have stage_fresh {index : Nat} {i : Invocation} (here : evaluation.session.invocations[index]? = some i)
      {P : Stage → Prop} (holds : P .fresh) : P i.stage := fresh index i here ▸ holds
  have onTime : evaluation.session.OnTime begun begun := fun index i here => stage_fresh here rfl
  have polled := clocked_poll scene unbegun.scope_eq batching (Session.definitions_launch expr (.start scope) before)
    (sound_first _ _ _ _) onTime (fun index i here => stage_fresh here nofun)
    (by rw [blank]; exact fun _ => Nat.le_refl _) (.inl (Nat.le_of_eq now_eq.symm)) (Nat.le_of_eq now_eq)
    fun index idle i here => ?_
  · have asked : (firsts id (expr.leaves.map fun d => evaluation.session.keys.idxOf d.key)).filterMap
        (evaluation.session.asks begun begun) = expr.asked begun begun := asked_first scope expr before begun
    rw [now_eq, due_eq, asked, blank, Nat.max_eq_right (Nat.le_succ begun)] at polled
    exact polled
  · -- everybody is looked at
    refine absurd ?_ idle
    rw [due_eq, List.mem_map]
    have known := (unbegun.fresh i (List.mem_of_getElem? here)).2
    exact ⟨i.definition, known, Session.idxOf_key unbegun.nodup here⟩

namespace Clocked

variable {evaluation : Evaluation} {hub : Hub}

theorem nodup (clocked : evaluation.Clocked scope expr begun horizon now hub) : evaluation.session.keys.Nodup := by
  rw [Session.keys_eq_map_definitions, clocked.definitions_eq]
  exact nodup_firsts Definition.key expr.leaves

/-- Every invocation is for a leaf, which waits as long as there is no outcome. -/
theorem waits (clocked : evaluation.Clocked scope expr begun horizon now hub) {index : Nat} {i : Invocation}
    (here : evaluation.session.invocations[index]? = some i) (unset : evaluation.session.outcome? index = none) :
    index ∈ evaluation.progress.leaves := by
  have listed : i.definition ∈ evaluation.session.definitions := List.mem_map_of_mem (List.mem_of_getElem? here)
  rw [clocked.definitions_eq] at listed
  have own := Session.idxOf_key clocked.nodup here
  have waiting := clocked.sound.stands.waits _ i.definition (mem_of_mem_firsts listed) (by rwa [own])
  rwa [own] at waiting

theorem validating_waits (clocked : evaluation.Clocked scope expr begun horizon now hub) {index : Nat} {i : Invocation}
    (here : evaluation.session.invocations[index]? = some i) {span deadline : Nat} {rest : Task Checked}
    (sleeps : i.stage = .validating span deadline rest) : index ∈ evaluation.progress.leaves := by
  refine clocked.waits here ?_
  rw [Session.outcome?_eq, here, Option.bind_some, sleeps]

theorem begins (clocked : evaluation.Clocked scope expr begun horizon now hub) {index : Nat} {i : Invocation}
    (here : evaluation.session.invocations[index]? = some i) : i.stage ≠ .fresh := by
  intro fresh
  have onTime := clocked.onTime index i here
  rw [fresh] at onTime
  exact Nat.ne_of_gt clocked.started onTime

/-- If no validation goes on before an instant all are on time for it. -/
theorem onTime_of_le (clocked : evaluation.Clocked scope expr begun horizon now hub) {t : Nat} (le : horizon ≤ t)
    (sleep : ∀ (index : Nat) (i : Invocation), evaluation.session.invocations[index]? = some i →
      ∀ span deadline rest, i.stage = .validating span deadline rest → t ≤ deadline) :
    evaluation.session.OnTime begun t :=
  fun index i here => (clocked.onTime index i here).mono le (clocked.begins here) (sleep index i here)

/-- In an evaluation that has settled nobody validates an argument. -/
theorem not_validating (clocked : evaluation.Clocked scope expr begun horizon now hub)
    (settled : evaluation.progress.isSettled = true) {index : Nat} {i : Invocation}
    (here : evaluation.session.invocations[index]? = some i) (span deadline : Nat) (rest : Task Checked) :
    i.stage ≠ .validating span deadline rest := by
  intro sleeps
  have leaf := clocked.validating_waits here sleeps
  rw [Progress.leaves_settled settled] at leaf
  cases leaf

/-- Once an evaluation has settled nothing more is to be asked. -/
theorem asked_of_settled (clocked : evaluation.Clocked scope expr begun horizon now hub)
    (settled : evaluation.progress.isSettled = true) {t : Nat} (le : horizon ≤ t) : expr.asked begun t = [] := by
  have onTime (t : Nat) (le : horizon ≤ t) : evaluation.session.OnTime begun t :=
    clocked.onTime_of_le le fun index i here span deadline rest sleeps =>
      absurd sleeps (clocked.not_validating settled here span deadline rest)
  rw [Expr.asked, ← clocked.definitions_eq, (onTime t le).asked_eq]
  exact List.filterMap_eq_nil_iff.2 fun index _ =>
    (onTime (t + 1) (Nat.le_succ_of_le le)).asks_eq_none (Nat.lt_succ_self t) index

/-- Every later poll asks what the schedule says, and nothing twice. -/
theorem poll (clocked : evaluation.Clocked scope expr begun horizon now hub) (batching : scope.batching = true)
    (within : hub.Within) {journal : Journal} (now_eq : journal.now = now) :
    let r := evaluation.poll ⟨hub, journal⟩
    r.1.Clocked scope expr begun (max horizon (now + 1)) now r.2.hub ∧
      ∃ asked, AskedAt expr begun horizon now asked ∧ Enters scope.subject asked hub r.2.hub := by
  subst now_eq
  let due := (evaluation.progress.wakeAll (evaluation.news hub)).due
  -- whose validation goes on now was woken, and is looked at
  have looked_at {index : Nat} {i : Invocation} (here : evaluation.session.invocations[index]? = some i)
      {span deadline : Nat} {rest : Task Checked} (sleeps : i.stage = .validating span deadline rest)
      (elapsed : deadline ≤ journal.now) : index ∈ due := by
    have woken := clocked.sound.waits.wakeAll (evaluation.news hub)
    rw [List.nil_append] at woken
    have told : index ∈ evaluation.news hub := List.mem_flatten.2
      ⟨[index], clocked.told index i here span deadline rest sleeps elapsed, List.mem_singleton_self index⟩
    refine woken.mem_due _ index told ?_
    rw [Progress.leaves_wakeAll]
    exact clocked.validating_waits here sleeps
  have idle : ∀ index ∉ due, ∀ i, evaluation.session.invocations[index]? = some i →
      i.stage.OnTime i.definition begun (max horizon (journal.now + 1)) := by
    intro index out i here
    refine (clocked.onTime index i here).mono (Nat.le_max_left _ _) (clocked.begins here)
      fun span deadline rest sleeps => ?_
    have onTime := clocked.onTime index i here
    rw [sleeps] at onTime
    have ahead : journal.now < deadline := Nat.lt_of_not_le fun elapsed => out (looked_at here sleeps elapsed)
    exact Nat.max_le.2 ⟨onTime.1, ahead⟩
  obtain ⟨later, enters⟩ := clocked_poll ⟨hub, journal⟩ clocked.scope_eq batching clocked.definitions_eq
    (clocked.sound.poll _) clocked.onTime clocked.armed within (.inr clocked.started) clocked.reached idle
  refine ⟨later, _, ⟨fun behind => ?_, fun present => ⟨?_, fun first => ?_⟩⟩, enters⟩
  · exact List.filterMap_eq_nil_iff.2 fun index _ => clocked.onTime.asks_eq_none behind index
  · have onTime : evaluation.session.OnTime begun journal.now := present ▸ clocked.onTime
    rw [Expr.asked, ← clocked.definitions_eq, onTime.asked_eq]
    refine perm_filterMap (by simpa using nodup_firsts id due) List.nodup_range fun index asks => ?_
    obtain ⟨i, here, asks⟩ : ∃ i, evaluation.session.invocations[index]? = some i ∧
        i.stage.asks i.definition begun journal.now ≠ none := by
      unfold Session.asks at asks
      cases here : evaluation.session.invocations[index]? with
      | none =>
        rw [here] at asks
        exact absurd rfl asks
      | some i =>
        rw [here] at asks
        exact ⟨i, rfl, asks⟩
    obtain ⟨span, deadline, rest, sleeps, elapsed⟩ := (onTime index i here).validating_of_asks (clocked.begins here) asks
    have due_now : index ∈ due := looked_at here sleeps elapsed
    refine iff_of_true ?_ (List.mem_range.2 (List.getElem?_eq_some_iff.1 here).1)
    obtain ⟨other, first, rfl⟩ : ∃ other ∈ firsts id due, other = index := exists_mem_firsts due_now
    exact first
  · exact absurd clocked.started (by omega)

/-- Time goes on up to the first alarm while the evaluation sleeps.  Until then nothing is to be asked. -/
theorem advance (clocked : evaluation.Clocked scope expr begun horizon now hub)
    (sleeps : Client.settled evaluation = true ∨ Client.stirred evaluation hub = false) {t : Nat}
    (first : ∀ alarm ∈ hub.alarms, t ≤ alarm.deadline) :
    evaluation.Clocked scope expr begun (max horizon t) t (hub.advance t) ∧
      ∀ between, horizon ≤ between → between < max horizon t → expr.asked begun between = [] := by
  -- whose validation goes on now would be awake
  have alarmed (index : Nat) (i : Invocation) (here : evaluation.session.invocations[index]? = some i)
      (span deadline : Nat) (rest : Task Checked) (validates : i.stage = .validating span deadline rest) :
      ∃ number, ⟨deadline, number, .wake [index]⟩ ∈ hub.alarms := by
    have leaf := clocked.validating_waits here validates
    refine clocked.armed index i here span deadline rest validates (Nat.lt_of_not_le fun elapsed => ?_)
    exact not_told sleeps leaf (clocked.told index i here span deadline rest validates elapsed)
  have later {between : Nat} (le : horizon ≤ between) (until_ : between ≤ max horizon t) :
      evaluation.session.OnTime begun between := by
    refine clocked.onTime_of_le le fun index i here span deadline rest validates => ?_
    obtain ⟨number, set⟩ := alarmed index i here span deadline rest validates
    have onTime := clocked.onTime index i here
    rw [validates] at onTime
    exact Nat.le_trans until_ (Nat.max_le.2 ⟨onTime.1, first _ set⟩)
  obtain ⟨more, woken, told⟩ := hub.woken_advance t
  have onTime := later (Nat.le_max_left _ _) (Nat.le_refl _)
  have advanced : evaluation.Clocked scope expr begun (max horizon t) t (hub.advance t) := by
    refine { clocked with
      started := Nat.lt_of_lt_of_le clocked.started (Nat.le_max_left _ _), reached := Nat.le_max_right _ _,
      onTime := onTime, armed := fun index i here span deadline rest validates ahead => ?_, seen := ?_,
      told := fun index i here span deadline rest validates elapsed => ?_ }
    · obtain ⟨number, set⟩ := alarmed index i here span deadline rest validates
      refine ⟨number, ?_⟩
      rw [Hub.alarms_advance]
      exact List.mem_filter.2 ⟨set, decide_eq_true ahead⟩
    · rw [woken, List.length_append]
      exact Nat.le_add_right_of_le clocked.seen
    · obtain ⟨number, set⟩ := alarmed index i here span deadline rest validates
      rw [woken, List.drop_append_of_le_length clocked.seen]
      exact List.mem_append_right _ (told _ set elapsed [index] rfl)
  refine ⟨advanced, fun between le lt => ?_⟩
  rw [Expr.asked, ← clocked.definitions_eq, (later le (Nat.le_of_lt lt)).asked_eq]
  exact List.filterMap_eq_nil_iff.2 fun index _ => onTime.asks_eq_none lt index

/-- A move that leaves the alarms set and forgets nobody who was woken. -/
theorem stands (clocked : evaluation.Clocked scope expr begun horizon now hub) {later : Hub}
    (alarms : hub.alarms ⊆ later.alarms) (woken : hub.woken <+: later.woken) :
    evaluation.Clocked scope expr begun horizon now later := by
  obtain ⟨more, woken⟩ := woken
  refine { clocked with
    armed := fun index i here => (clocked.armed index i here).mono alarms, seen := ?_,
    told := fun index i here span deadline rest sleeps elapsed => ?_ }
  · rw [← woken, List.length_append]
    exact Nat.le_add_right_of_le clocked.seen
  · rw [← woken, List.drop_append_of_le_length clocked.seen]
    exact List.mem_append_left _ (clocked.told index i here span deadline rest sleeps elapsed)

/-- An evaluation that has settled is done with whatever comes. -/
theorem settled (clocked : evaluation.Clocked scope expr begun horizon now hub)
    (ended : evaluation.progress.isSettled = true) {later : Nat} (le : horizon ≤ later) :
    evaluation.Clocked scope expr begun later now hub :=
  { clocked with
    started := Nat.lt_of_lt_of_le clocked.started le
    reached := Nat.le_trans clocked.reached le
    onTime := clocked.onTime_of_le le fun _ _ here span deadline rest sleeps =>
      absurd sleeps (clocked.not_validating ended here span deadline rest) }

end Clocked

end Evaluation

/-! ### Which batches there are -/

/-- The batches with which the evaluator of a matcher was called at an instant. -/
def callsAt (chronicle : List (Nat × Happening)) (matcher : String) (t : Nat) : List (List Request) :=
  (((chronicle.filter (·.1 = t)).filterMap (·.2.batch?)).filter (·.2.1 = matcher)).map (·.2.2)

theorem callsAt_append (chronicle more : List (Nat × Happening)) (matcher : String) (t : Nat) :
    callsAt (chronicle ++ more) matcher t = callsAt chronicle matcher t ++ callsAt more matcher t := by
  simp only [callsAt, List.filter_append, List.filterMap_append, List.map_append]

/-- What happens at one instant does not happen at another. -/
theorem callsAt_map (happened : List Happening) {now t : Nat} (matcher : String) (differs : now ≠ t) :
    callsAt (happened.map (now, ·)) matcher t = [] := by
  have none_then : (happened.map (now, ·)).filter (·.1 = t) = [] := by
    rw [List.filter_map, List.map_eq_nil_iff, List.filter_eq_nil_iff]
    exact fun _ _ => by simpa using differs
  rw [callsAt, none_then]
  rfl

theorem callsAt_map_self (happened : List Happening) (now : Nat) (matcher : String) :
    callsAt (happened.map (now, ·)) matcher now =
      ((happened.filterMap Happening.batch?).filter (·.2.1 = matcher)).map (·.2.2) := by
  have all_then : (happened.map (now, ·)).filter (·.1 = now) = happened.map (now, ·) := by
    refine List.filter_eq_self.2 fun entry mem => ?_
    obtain ⟨_, -, rfl⟩ := List.mem_map.1 mem
    exact decide_eq_true rfl
  rw [callsAt, all_then, List.filterMap_map]
  rfl

namespace Expr

/-- The calls of a batched evaluator that the schedule has at an instant: none if nobody asks it, and otherwise one, with
a request of the subject for each key, the first argument with it.  At the beginning the arguments come in the order of
the leaves. -/
def Calls (expr : Expr) (subject : Json) (begun : Nat) (matcher : String) (t : Nat) (calls : List (List Request)) :
    Prop :=
  ∃ args : List (Option Json), args.Perm (argsFor matcher (expr.asked begun t)) ∧
    (t = begun → args = argsFor matcher (expr.asked begun t)) ∧
    calls = if args = [] then [] else
      [(firsts (fun arg => (arg.map Json.stableKey).getD "") args).map (⟨subject, ·⟩)]

/-- Up to the horizon the batched evaluators were called as the schedule says, and later not at all. -/
def Served (expr : Expr) (subject : Json) (begun horizon : Nat) (chronicle : List (Nat × Happening)) : Prop :=
  ∀ matcher t, (t < horizon → expr.Calls subject begun matcher t (callsAt chronicle matcher t)) ∧
    (horizon ≤ t → callsAt chronicle matcher t = [])

variable {expr : Expr} {subject : Json} {begun horizon : Nat} {chronicle : List (Nat × Happening)}

/-- Where the schedule has nothing there is no call. -/
theorem calls_nil {t : Nat} (nothing : expr.asked begun t = []) (subject : Json) (matcher : String) :
    expr.Calls subject begun matcher t [] := by
  refine ⟨[], ?_, fun _ => ?_, rfl⟩
  · rw [nothing]
    exact .refl _
  · rw [nothing]
    rfl

/-- Nobody asks anything before the beginning. -/
theorem asked_eq_nil {t : Nat} (early : t < begun) : expr.asked begun t = [] := by
  refine List.filterMap_eq_nil_iff.2 fun definition _ => if_neg ?_
  rintro ⟨-, due⟩
  omega

theorem served_nil (expr : Expr) (subject : Json) (begun : Nat) : expr.Served subject begun begun [] :=
  fun matcher _ => ⟨fun early => calls_nil (asked_eq_nil early) subject matcher, fun _ => rfl⟩

/-- Time goes on without a call where the schedule has nothing. -/
theorem Served.wait (served : expr.Served subject begun horizon chronicle) {later : Nat} (le : horizon ≤ later)
    (nothing : ∀ t, horizon ≤ t → t < later → expr.asked begun t = []) {more : List (Nat × Happening)}
    (silent : ∀ matcher t, callsAt more matcher t = []) : expr.Served subject begun later (chronicle ++ more) := by
  intro matcher t
  obtain ⟨before, after⟩ := served matcher t
  rw [callsAt_append, silent, List.append_nil]
  refine ⟨fun lt => ?_, fun ge => after (Nat.le_trans le ge)⟩
  by_cases early : t < horizon
  · exact before early
  · rw [after (Nat.le_of_not_lt early)]
    exact calls_nil (nothing t (Nat.le_of_not_lt early) lt) subject matcher

/-- What is called at the present instant is what the schedule has, unless that was called before. -/
theorem Served.serve (served : expr.Served subject begun horizon chronicle) {now : Nat} (reached : now ≤ horizon)
    {asked : List (String × Option Json)} (due : Evaluation.AskedAt expr begun horizon now asked)
    {happened : List Happening} (calls : ∀ matcher, callsAt (happened.map (now, ·)) matcher now =
      if argsFor matcher asked = [] then [] else
        [(firsts (fun arg => (arg.map Json.stableKey).getD "") (argsFor matcher asked)).map (⟨subject, ·⟩)]) :
    expr.Served subject begun (max horizon (now + 1)) (chronicle ++ happened.map (now, ·)) := by
  intro matcher t
  obtain ⟨before, after⟩ := served matcher t
  rw [callsAt_append]
  by_cases present : now = t
  · subst present
    rw [calls]
    refine ⟨fun _ => ?_, fun ge => by omega⟩
    rcases Nat.lt_or_eq_of_le reached with behind | rfl
    · rw [due.1 behind, argsFor_nil, if_pos rfl, List.append_nil]
      exact before behind
    · obtain ⟨perm, first⟩ := due.2 rfl
      rw [after (Nat.le_refl _), List.nil_append]
      exact ⟨argsFor matcher asked, perm.filterMap _, fun same => congrArg (argsFor matcher) (first same), rfl⟩
  · rw [callsAt_map _ matcher present, List.append_nil]
    exact ⟨fun lt => before (by omega), fun ge => after (by omega)⟩

end Expr

namespace Drive

/-- A pass calls the evaluators of the matchers that its client asked, each of them once. -/
theorem calls_pass {drive : Drive Evaluation} {scene : Scene} (sound : drive.Sound scene.hub)
    (drained : scene.hub.IsDrained) {subject : Json} {asked : List (String × Option Json)}
    (enters : Hub.Enters subject asked scene.hub (drive.pollClient scene).2.hub) (now : Nat) (matcher : String) :
    callsAt ((drive.happens scene).map (now, ·)) matcher now =
      if argsFor matcher asked = [] then [] else
        [(firsts (fun arg => (arg.map Json.stableKey).getD "") (argsFor matcher asked)).map (⟨subject, ·⟩)] := by
  obtain ⟨loaded, -, ⟨batches, perm, -, queued⟩, -⟩ := pass_spec sound
  have requests := enters.requests drained matcher
  have same := (perm.filter (·.2.1 = matcher)).map (·.2.2)
  have mine : (batches.filter (·.2.1 = matcher)).map (·.2.2) =
      ((drive.pollClient scene).2.hub.queued.filter (·.1 = matcher)).map (·.2) := by
    rw [← queued, List.filter_map, List.map_map]
    rfl
  rw [mine, Hub.filter_queued (loaded.nodup sound.names) matcher] at same
  rw [callsAt_map_self, ← requests]
  by_cases nothing : argsFor matcher asked = []
  · rw [nothing, firsts_nil, List.map_nil, List.map_eq_nil_iff] at requests
    rw [if_pos requests] at same
    rw [if_pos nothing]
    exact same.eq_nil
  · have some_queued : ((drive.pollClient scene).2.hub.account matcher).rest ≠ [] := by
      intro empty
      rw [empty, List.map_nil] at requests
      exact nothing (eq_nil_of_firsts (List.map_eq_nil_iff.1 requests.symm))
    rw [if_neg some_queued] at same
    rw [if_neg nothing]
    exact List.perm_singleton.1 same

/-- A drive has called the batched evaluators as the schedule says, up to the horizon. -/
structure OnSchedule (scope : Scope) (expr : Expr) (begun horizon now : Nat) (chronicle : List (Nat × Happening))
    (drive : Drive Evaluation) (hub : Hub) : Prop where
  modest : drive.Modest hub
  clocked : drive.client.Clocked scope expr begun horizon now hub
  served : expr.Served scope.subject begun horizon chronicle

variable {scope : Scope} {expr : Expr} {begun horizon now : Nat} {chronicle : List (Nat × Happening)}

/-- A pass at whose beginning the client asked what was due. -/
theorem onSchedule_pass {drive : Drive Evaluation} (scene : Scene) (modest : drive.Modest scene.hub)
    (loadless : ∀ i ∈ drive.client.session.invocations, i.definition.matcher.Loadless)
    (served : expr.Served scope.subject begun horizon chronicle) (reached : now ≤ horizon)
    (clocked : (drive.pollClient scene).1.client.Clocked scope expr begun (max horizon (now + 1)) now
      (drive.pollClient scene).2.hub)
    {asked : List (String × Option Json)} (due : Evaluation.AskedAt expr begun horizon now asked)
    (enters : Hub.Enters scope.subject asked scene.hub (drive.pollClient scene).2.hub) :
    OnSchedule scope expr begun (max horizon (now + 1)) now (chronicle ++ (drive.happens scene).map (now, ·))
      (drive.pass scene).1 (drive.pass scene).2.hub := by
  obtain ⟨log, delivered⟩ := modest.delivered
  have stands := drive.pass_stands scene
  exact ⟨modest.pass scene loadless, clocked.stands stands.alarms stands.woken,
    served.serve reached due (calls_pass delivered.sound modest.drained enters now)⟩

/-- In the first pass of a drive its client asks what is due at the beginning. -/
theorem asks_first (expr : Expr) (batching : scope.batching = true) (before journal : Journal)
    (now_eq : journal.now = begun) :
    let drive := Drive.start (Evaluation.start (.start scope) expr ⟨.empty, before⟩).1
    (drive.pollClient ⟨.empty, journal⟩).1.client.Clocked scope expr begun (begun + 1) begun
        (drive.pollClient ⟨.empty, journal⟩).2.hub ∧
      Hub.Enters scope.subject (expr.asked begun begun) .empty (drive.pollClient ⟨.empty, journal⟩).2.hub := by
  intro drive
  have waits : Client.settled drive.client = false := Evaluation.launched_waits (.start scope) expr ⟨.empty, before⟩
  have polled : drive.pollClient ⟨.empty, journal⟩ = ({ drive with
      client := (drive.client.poll ⟨.empty, journal⟩).1
      again := Client.stirred (drive.client.poll ⟨.empty, journal⟩).1 (drive.client.poll ⟨.empty, journal⟩).2.hub },
      (drive.client.poll ⟨.empty, journal⟩).2) := by
    rw [pollClient, if_neg (by simp [waits])]
    rfl
  have blank : (⟨.empty, journal⟩ : Scene).hub = .empty := rfl
  rw [polled]
  exact Evaluation.clocked_first expr batching before blank now_eq

/-- The first pass of a drive. -/
theorem onSchedule_first (expr : Expr) (batching : scope.batching = true)
    (loadless : ∀ d ∈ expr.leaves, d.matcher.Loadless) (before journal : Journal) (now_eq : journal.now = begun) :
    let drive := Drive.start (Evaluation.start (.start scope) expr ⟨.empty, before⟩).1
    OnSchedule scope expr begun (begun + 1) begun ((drive.happens ⟨.empty, journal⟩).map (begun, ·))
      (drive.pass ⟨.empty, journal⟩).1 (drive.pass ⟨.empty, journal⟩).2.hub := by
  intro drive
  obtain ⟨clocked, enters⟩ := asks_first expr batching before journal now_eq
  have unbegun := Session.Unbegun.of_start scope expr before
  have due : Evaluation.AskedAt expr begun begun begun (expr.asked begun begun) :=
    ⟨fun behind => absurd behind (Nat.lt_irrefl begun), fun _ => ⟨.refl _, fun _ => rfl⟩⟩
  have modest : drive.Modest .empty := modest_start _
  have passed := onSchedule_pass ⟨.empty, journal⟩ modest
    (fun i mem => loadless _ (unbegun.fresh i mem).2) (expr.served_nil scope.subject begun) (Nat.le_refl begun)
    (by rw [Nat.max_eq_right (Nat.le_succ begun)]; exact clocked) due enters
  rwa [Nat.max_eq_right (Nat.le_succ begun), List.nil_append] at passed

/-- While a drive sleeps its client does. -/
theorem client_sleeps {drive : Drive Evaluation} {hub : Hub} (asleep : drive.awake hub = false) :
    Client.settled drive.client = true ∨ Client.stirred drive.client hub = false := by
  simp only [awake, Bool.or_eq_false_iff, Bool.and_eq_false_iff, Bool.not_eq_false'] at asleep
  exact asleep.1.2

namespace OnSchedule

variable {drive : Drive Evaluation} {hub : Hub}

theorem loadless (onSchedule : OnSchedule scope expr begun horizon now chronicle drive hub)
    (loadless : ∀ d ∈ expr.leaves, d.matcher.Loadless) :
    ∀ i ∈ drive.client.session.invocations, i.definition.matcher.Loadless := by
  intro i mem
  have listed : i.definition ∈ drive.client.session.definitions := List.mem_map_of_mem mem
  rw [onSchedule.clocked.definitions_eq] at listed
  exact loadless _ (mem_of_mem_firsts listed)

/-- In every later pass the client asks what is due. -/
theorem asks (onSchedule : OnSchedule scope expr begun horizon now chronicle drive hub) (batching : scope.batching = true)
    {journal : Journal} (now_eq : journal.now = now) : (drive.pollClient ⟨hub, journal⟩).1.client.Clocked scope expr begun
      (max horizon (now + 1)) now (drive.pollClient ⟨hub, journal⟩).2.hub ∧
    ∃ asked, Evaluation.AskedAt expr begun horizon now asked ∧
      Hub.Enters scope.subject asked hub (drive.pollClient ⟨hub, journal⟩).2.hub := by
  obtain ⟨modest, clocked, -⟩ := onSchedule
  have within : hub.Within := fun name => Nat.le_of_eq (modest.drained name)
  unfold pollClient
  split
  · rename_i settled
    refine ⟨clocked.settled settled (Nat.le_max_left _ _), [], ⟨fun _ => rfl, fun present => ?_⟩, .refl hub⟩
    rw [clocked.asked_of_settled settled (Nat.le_of_eq present.symm)]
    exact ⟨.refl _, fun _ => rfl⟩
  · exact clocked.poll batching within now_eq

/-- Every later pass. -/
theorem pass (onSchedule : OnSchedule scope expr begun horizon now chronicle drive hub) (batching : scope.batching = true)
    (loadless : ∀ d ∈ expr.leaves, d.matcher.Loadless) {journal : Journal} (now_eq : journal.now = now) :
    OnSchedule scope expr begun (max horizon (now + 1)) now (chronicle ++ (drive.happens ⟨hub, journal⟩).map (now, ·))
      (drive.pass ⟨hub, journal⟩).1 (drive.pass ⟨hub, journal⟩).2.hub := by
  obtain ⟨later, asked, due, enters⟩ := onSchedule.asks batching now_eq
  exact onSchedule_pass ⟨hub, journal⟩ onSchedule.modest (onSchedule.loadless loadless) onSchedule.served
    onSchedule.clocked.reached later due enters

/-- Time goes on up to the first alarm while the drive sleeps. -/
theorem advance (onSchedule : OnSchedule scope expr begun horizon now chronicle drive hub)
    (asleep : drive.awake hub = false) {t : Nat} (first : ∀ d ∈ hub.deadlines, t ≤ d) :
    OnSchedule scope expr begun (max horizon t) t (chronicle ++ (hub.happensBy t).map (t, ·)) (drive.advance hub t).1
      (drive.advance hub t).2 := by
  obtain ⟨modest, clocked, served⟩ := onSchedule
  obtain ⟨later, nothing⟩ := clocked.advance (client_sleeps asleep) fun alarm mem => first _ (List.mem_map_of_mem mem)
  refine ⟨modest.advance t, ?_, served.wait (Nat.le_max_left _ _) nothing fun matcher instant => ?_⟩
  · rw [Evaluation.client_advance, hub_advance]
    exact later
  · by_cases present : t = instant
    · subst present
      rw [callsAt_map_self, happensBy_silent (fun _ _ => rfl)]
      rfl
    · exact callsAt_map _ matcher present

/-- Until time goes on to an instant without anybody going on, all is served. -/
theorem served_until (onSchedule : OnSchedule scope expr begun horizon now chronicle drive hub)
    (asleep : drive.awake hub = false) {t : Nat} (first : ∀ d ∈ hub.deadlines, t ≤ d) :
    expr.Served scope.subject begun (max horizon t) chronicle := by
  have waited := (onSchedule.clocked.advance (client_sleeps asleep) fun alarm mem =>
    first _ (List.mem_map_of_mem mem)).2
  have all : expr.Served scope.subject begun (max horizon t) (chronicle ++ []) :=
    onSchedule.served.wait (Nat.le_max_left _ _) waited fun _ _ => rfl
  rwa [List.append_nil] at all

/-- Once the evaluation has settled all is served that there is. -/
theorem calls (onSchedule : OnSchedule scope expr begun horizon now chronicle drive hub)
    (settled : drive.client.progress.isSettled = true) (matcher : String) (t : Nat) :
    expr.Calls scope.subject begun matcher t (callsAt chronicle matcher t) := by
  obtain ⟨before, after⟩ := onSchedule.served matcher t
  by_cases early : t < horizon
  · exact before early
  · have late := Nat.le_of_not_lt early
    rw [after late]
    exact Expr.calls_nil (onSchedule.clocked.asked_of_settled settled late) scope.subject matcher

end OnSchedule

end Drive

end Segmentation
