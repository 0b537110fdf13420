import Segmentation.Drive.Run
import Segmentation.Proofs.Lockstep
import Segmentation.Proofs.Progress.Wake

/-!
# How an evaluation settles

Every poll of an evaluation goes on with the invocations that its expression looks at, and takes up their outcomes.
`Evaluation.Sound` is what holds after every poll, whatever the scene: the expression has collected exactly the
outcomes that there are.  So it settles as soon as all its leaves have outcomes, in whatever order they got them, and
no failure is masked (`Evaluation.settles_iff`).  A run of a drive is a sequence of such polls, so an evaluation that
was run to its end has the outcome that its leaves make (`Evaluation.concludes_of_run`).
-/

namespace Segmentation

namespace Session

/-- The outcome of the invocation for a definition, once there is one. -/
def outcomeFor (session : Session) (definition : Definition) : Option Outcome :=
  (session.invocations.findIdx? (·.definition.key = definition.key)).bind session.outcome?

theorem outcomeFor_eq {session : Session} {definition : Definition} (h : definition.key ∈ session.keys) :
    session.outcomeFor definition = session.outcome? (session.keys.idxOf definition.key) := by
  rw [outcomeFor, findIdx?_key h, Option.bind_some]

/-- Where there is one invocation for each key, the key of an invocation leads to it. -/
theorem idxOf_key {session : Session} (nodup : session.keys.Nodup) {index : Nat} {i : Invocation}
    (here : session.invocations[index]? = some i) : session.keys.idxOf i.definition.key = index := by
  obtain ⟨lt, rfl⟩ := List.getElem?_eq_some_iff.1 here
  have bound : index < session.keys.length := by rwa [keys, List.length_map]
  have key : session.keys[index] = session.invocations[index].definition.key := by simp [keys]
  rw [← key, nodup.idxOf_getElem]

theorem outcomeFor_of_getElem? {session : Session} (nodup : session.keys.Nodup) {index : Nat} {i : Invocation}
    (here : session.invocations[index]? = some i) : session.outcomeFor i.definition = session.outcome? index := by
  have mem : i.definition.key ∈ session.keys := List.mem_map_of_mem (List.mem_of_getElem? here)
  rw [outcomeFor_eq mem, idxOf_key nodup here]

/-- The outcome that a stage has. -/
theorem outcome?_eq (session : Session) (index : Nat) : session.outcome? index =
    session.invocations[index]?.bind fun i => match i.stage with
      | .settled o => some o
      | _ => none := by
  unfold outcome?
  cases session.invocations[index]? with
  | none => rfl
  | some i =>
    obtain ⟨_, stage, _, _⟩ := i
    cases stage <;> rfl

theorem keys_advance (session : Session) (scene : Scene) (index : Nat) :
    (session.advance scene index).1.keys = session.keys := by
  unfold advance
  cases h : session.invocations[index]? with
  | none => rfl
  | some i => exact keys_set h rfl

/-- Going on with an invocation concerns no other one, and none that has settled. -/
theorem outcome?_advance (session : Session) (scene : Scene) (index : Nat) {j : Nat}
    (h : j ≠ index ∨ (session.outcome? j).isSome) :
    (session.advance scene index).1.outcome? j = session.outcome? j := by
  unfold advance
  cases hi : session.invocations[index]? with
  | none => rfl
  | some i =>
    rw [outcome?_eq, outcome?_eq] at *
    by_cases same : index = j
    · -- the invocation itself, which has settled
      subst same
      obtain ⟨lt, -⟩ := List.getElem?_eq_some_iff.1 hi
      rcases h with h | h
      · exact absurd rfl h
      · rw [hi] at h ⊢
        obtain ⟨d, stage, seats, vacant⟩ := i
        cases stage <;> simp at h
        simp [Invocation.advance, lt]
    · simp [same]

section Polls

variable (indices : List Nat) (session : Session) (scene : Scene)

/-- Goes on with several invocations. -/
abbrev advanceAll : Session × Scene :=
  indices.foldl (fun (session, scene) index => session.advance scene index) (session, scene)

theorem keys_advanceAll : (advanceAll indices session scene).1.keys = session.keys := by
  induction indices generalizing session scene with
  | nil => rfl
  | cons index indices ih =>
    have rest := ih (session.advance scene index).1 (session.advance scene index).2
    exact rest.trans (keys_advance session scene index)

theorem outcome?_advanceAll {j : Nat} (h : j ∉ indices ∨ (session.outcome? j).isSome) :
    (advanceAll indices session scene).1.outcome? j = session.outcome? j := by
  induction indices generalizing session scene with
  | nil => rfl
  | cons index indices ih =>
    have first := outcome?_advance session scene index (j := j)
      (h.imp_left fun out same => out (same ▸ List.mem_cons_self))
    refine (ih (session.advance scene index).1 (session.advance scene index).2 ?_).trans first
    rw [first]
    exact h.imp_left fun out mem => out (List.mem_cons_of_mem _ mem)

end Polls

end Session

namespace Progress

variable {number : Definition → Nat} {outcome : Nat → Option Outcome}

mutual

/-- The leaves that wait are leaves of the expression. -/
theorem Stands.mem_leaves : (p : Progress) → {e : Expr} → Stands number outcome p e →
    ∀ i ∈ p.leaves, ∃ d ∈ e.leaves, i = number d
  | .leaf _ _, _, ⟨d, he, hi⟩, i, h => by
    subst he hi
    exact ⟨d, List.mem_singleton_self d, List.mem_singleton.1 h⟩
  | .group _ _ _ ps _ _, _, ⟨es, he, stand, _⟩, i, h => by
    subst he
    rw [Expr.leaves_join]
    exact StandAll.mem_leaves ps stand i h
  | .not p, _, ⟨e, he, stands⟩, i, h => by
    subst he
    exact Stands.mem_leaves p stands i h
  | .settled _, _, _, _, h => by cases h

theorem StandAll.mem_leaves : (ps : List Progress) → {es : List Expr} → StandAll number outcome ps es →
    ∀ i ∈ leavesOfAll ps, ∃ d ∈ Expr.leavesOfAll es, i = number d
  | [], _, _, _, h => by cases h
  | p :: ps, _, ⟨e, es, he, first, rest⟩, i, h => by
    subst he
    rcases List.mem_append.1 h with h | h
    · obtain ⟨d, hd, hi⟩ := Stands.mem_leaves p first i h
      exact ⟨d, List.mem_append_left _ hd, hi⟩
    · obtain ⟨d, hd, hi⟩ := StandAll.mem_leaves ps rest i h
      exact ⟨d, List.mem_append_right _ hd, hi⟩

end

mutual

/-- A leaf of the expression that has no outcome waits. -/
theorem Stands.waits : (p : Progress) → {e : Expr} → Stands number outcome p e →
    ∀ d ∈ e.leaves, outcome (number d) = none → number d ∈ p.leaves
  | .leaf _ _, _, ⟨_, he, hi⟩, d, mem, _ => by
    subst he hi
    rw [List.mem_singleton.1 mem]
    exact List.mem_singleton_self _
  | .group _ _ _ ps _ _, _, ⟨es, he, stand, _⟩, d, mem, unset => by
    subst he
    rw [Expr.leaves_join] at mem
    exact StandAll.waits ps stand d mem unset
  | .not p, _, ⟨e, he, stands⟩, d, mem, unset => by
    subst he
    exact Stands.waits p stands d mem unset
  | .settled _, _, concludes, d, mem, unset => by
    have known := Expr.Concludes.isSome concludes d mem
    rw [unset] at known
    cases known

theorem StandAll.waits : (ps : List Progress) → {es : List Expr} → StandAll number outcome ps es →
    ∀ d ∈ Expr.leavesOfAll es, outcome (number d) = none → number d ∈ leavesOfAll ps
  | [], _, he, d, mem, _ => by
    subst he
    cases mem
  | p :: ps, _, ⟨e, es, he, first, rest⟩, d, mem, unset => by
    subst he
    rcases List.mem_append.1 mem with mem | mem
    · exact List.mem_append_left _ (Stands.waits p first d mem unset)
    · exact List.mem_append_right _ (StandAll.waits ps rest d mem unset)

end

mutual

/-- No leaf that waits has an outcome. -/
theorem Woken.unset {woken : List Nat} : (p : Progress) → Woken outcome woken p → ∀ i ∈ p.leaves, outcome i = none
  | .leaf _ _, h, i, hi => by rwa [List.mem_singleton.1 hi]
  | .group _ _ _ ps _ _, ⟨_, _, _, all⟩, i, hi => AllWoken.unset ps all i hi
  | .not p, ⟨_, h⟩, i, hi => Woken.unset p h i hi
  | .settled _, _, _, hi => by cases hi

theorem AllWoken.unset {woken : List Nat} : (ps : List Progress) → AllWoken outcome woken ps →
    ∀ i ∈ leavesOfAll ps, outcome i = none
  | [], _, _, hi => by cases hi
  | p :: ps, ⟨first, rest⟩, i, hi =>
    (List.mem_append.1 hi).elim (Woken.unset p first i) (AllWoken.unset ps rest i)

end

mutual

/-- Whoever waits does so for a leaf. -/
theorem Woken.exists_leaf {woken : List Nat} : (p : Progress) → Woken outcome woken p → p.isSettled = false →
    ∃ i, i ∈ p.leaves
  | .leaf i _, _, _ => ⟨i, List.mem_singleton_self i⟩
  | .group _ _ _ ps _ _, ⟨_, waits, _, all⟩, _ => AllWoken.exists_leaf ps all waits
  | .not p, ⟨waits, h⟩, _ => Woken.exists_leaf p h waits
  | .settled _, _, h => by cases h

theorem AllWoken.exists_leaf {woken : List Nat} : (ps : List Progress) → AllWoken outcome woken ps →
    (∃ p ∈ ps, p.isSettled = false) → ∃ i, i ∈ leavesOfAll ps
  | [], _, h => by simp at h
  | p :: ps, ⟨first, rest⟩, h => by
    rcases List.exists_mem_cons_iff .. |>.1 h with waits | waits
    · obtain ⟨i, hi⟩ := Woken.exists_leaf p first waits
      exact ⟨i, List.mem_append_left _ hi⟩
    · obtain ⟨i, hi⟩ := AllWoken.exists_leaf ps rest waits
      exact ⟨i, List.mem_append_right _ hi⟩

end

end Progress

namespace Evaluation

open Progress (Stands Woken Attentive)
open Segmentation.Expr (Concludes)

/-- The expression has collected all outcomes that there are. -/
structure Sound (expr : Expr) (evaluation : Evaluation) : Prop where
  keyed : ∀ d ∈ expr.leaves, d.key ∈ evaluation.session.keys
  stands : Stands (fun d => evaluation.session.keys.idxOf d.key) evaluation.session.outcome? evaluation.progress expr
  waits : Woken evaluation.session.outcome? [] evaluation.progress

variable {expr : Expr}

/-- A poll that looks at all leaves that get an outcome. -/
private theorem sound_poll_of_attentive {evaluation : Evaluation} {scene : Scene}
    (keyed : ∀ d ∈ expr.leaves, d.key ∈ evaluation.session.keys)
    (stands : Stands (fun d => evaluation.session.keys.idxOf d.key) evaluation.session.outcome?
      evaluation.progress expr)
    (attentive : Attentive (evaluation.poll scene).1.session.outcome?
      (evaluation.progress.wakeAll (evaluation.news scene.hub))) :
    Sound expr (evaluation.poll scene).1 := by
  have same_keys : (evaluation.poll scene).1.session.keys = evaluation.session.keys :=
    Session.keys_advanceAll _ _ _
  -- What has settled stays so while the due invocations go on.
  have stays (i : Nat) (o : Outcome) (h : evaluation.session.outcome? i = some o) :
      (evaluation.poll scene).1.session.outcome? i = some o :=
    (Session.outcome?_advanceAll _ _ _ (.inr (by simp [h]))).trans h
  have woken := (stands.wakeAll (evaluation.news scene.hub)).mono stays
  obtain ⟨stands', waits⟩ := Progress.collect_spec _ woken attentive
  exact ⟨by rwa [same_keys], by rw [same_keys]; exact stands', waits⟩

/-- After the first poll of an evaluation it is sound. -/
theorem sound_first (session : Session) (expr : Expr) (start scene : Scene) :
    Sound expr ((Evaluation.start session expr start).1.poll scene).1 := by
  obtain ⟨-, keyed, launched⟩ := Session.launch_spec expr session start.journal
  obtain ⟨fresh, stands⟩ := launched.fresh_stands (session.launch expr start.journal).2.1.outcome?
  exact sound_poll_of_attentive keyed stands (fresh.wakeAll _).attentive

/-- A poll keeps an evaluation sound, whatever the scene. -/
theorem Sound.poll {evaluation : Evaluation} (h : Sound expr evaluation) (scene : Scene) :
    Sound expr (evaluation.poll scene).1 := by
  refine sound_poll_of_attentive h.keyed h.stands ?_
  have woken := h.waits.wakeAll (evaluation.news scene.hub)
  rw [List.nil_append] at woken
  -- A leaf that is not looked at had no outcome before, and its invocation did not go on.
  refine woken.attentive_of_due _ fun i leaf idle => ?_
  exact (Session.outcome?_advanceAll _ _ _ (.inl idle)).trans (woken.unset _ i leaf)

theorem sound_polls (session : Session) (expr : Expr) (start first : Scene) (more : List Scene) :
    Sound expr ((first :: more).foldl (fun evaluation scene => (evaluation.poll scene).1)
      (Evaluation.start session expr start).1) := by
  rw [List.foldl_cons]
  have sound := sound_first session expr start first
  generalize ((Evaluation.start session expr start).1.poll first).1 = evaluation at sound ⊢
  induction more generalizing evaluation with
  | nil => exact sound
  | cons scene more ih => exact ih _ (sound.poll scene)

/-- A sound evaluation that has an outcome has the one that its leaves make. -/
theorem Sound.concludes {evaluation : Evaluation} (h : Sound expr evaluation) {o : Outcome}
    (ho : evaluation.outcome? = some o) : Concludes evaluation.session.outcomeFor expr o := by
  obtain ⟨session, progress, seen⟩ := evaluation
  obtain ⟨keyed, stands, -⟩ := h
  obtain rfl : progress = .settled o := by
    cases progress <;> simp [outcome?, Progress.outcome?] at ho
    rw [ho]
  exact Concludes.mono stands fun d hd p hp => by rwa [Session.outcomeFor_eq (keyed d hd)]

/-- A sound evaluation has an outcome once all its leaves have. -/
theorem Sound.isSome_outcome?_iff {evaluation : Evaluation} (h : Sound expr evaluation) :
    evaluation.outcome?.isSome ↔ ∀ d ∈ expr.leaves, (evaluation.session.outcomeFor d).isSome := by
  constructor
  · intro settled
    obtain ⟨o, ho⟩ := Option.isSome_iff_exists.1 settled
    exact (h.concludes ho).isSome
  · intro all
    -- Otherwise it would wait for a leaf, and that leaf would have no outcome.
    by_contra waits
    obtain ⟨i, leaf⟩ := h.waits.exists_leaf _ (by simpa [outcome?, Progress.isSettled] using waits)
    obtain ⟨d, hd, rfl⟩ := h.stands.mem_leaves _ i leaf
    have known := all d hd
    rw [Session.outcomeFor_eq (h.keyed d hd), h.waits.unset _ _ leaf] at known
    cases known

/-! ### Runs -/

/-- A pass of a drive polls its evaluation, unless that has settled. -/
theorem client_pass (drive : Drive Evaluation) (scene : Scene) :
    (drive.pass scene).1.client =
      if drive.client.progress.isSettled then drive.client else (drive.client.poll scene).1 := by
  have same : Client.settled drive.client = drive.client.progress.isSettled := rfl
  cases settled : drive.client.progress.isSettled with
  | true => simp [Drive.pass, Drive.takeBatches, Drive.pollFlights, Drive.pollClient, same, settled]
  | false =>
    simp only [Drive.pass, Drive.takeBatches, Drive.pollFlights, Drive.pollClient, same, settled, Bool.false_eq_true,
      if_false]
    rfl

/-- Alarms wake batches or invocations; the evaluation is told of it at its next poll. -/
theorem client_advance (drive : Drive Evaluation) (hub : Hub) (now : Nat) :
    (drive.advance hub now).1.client = drive.client := by
  refine List.foldlRecOn (hub.takeDue now).1 _ (motive := fun r : Drive Evaluation × Hub => r.1.client = drive.client)
    rfl fun r same alarm _ => ?_
  dsimp only
  split <;> exact same

/-- An expression that was only launched has no outcome. -/
theorem launched_waits (session : Session) (expr : Expr) (start : Scene) :
    (Evaluation.start session expr start).1.progress.isSettled = false := by
  obtain ⟨-, -, launched⟩ := Session.launch_spec expr session start.journal
  exact (launched.fresh_stands (session.launch expr start.journal).2.1.outcome?).1.waits

/-- In every run of an evaluation with its batches it is sound. -/
theorem sound_run (session : Session) (expr : Expr) (start scene : Scene) (limit : Option Nat) (moves : Nat) :
    Sound expr
      (Machine.run limit moves (Drive.start (Evaluation.start session expr start).1, scene)).2.1.client := by
  let kept (s : Drive Evaluation × Scene) : Prop := Sound expr s.1.client
  suffices kept (Machine.run limit moves (Drive.start (Evaluation.start session expr start).1, scene)).2 from this
  refine Machine.runFor_keeps ?_ ?_ limit moves ?_
  · intro s sound
    change Sound expr (s.1.pass s.2).1.client
    rw [client_pass]
    split
    · exact sound
    · exact sound.poll s.2
  · intro t s sound
    change Sound expr (s.1.advance s.2.hub t).1.client
    rwa [client_advance]
  · change Sound expr (Drive.pass _ _).1.client
    rw [client_pass, if_neg (by simp [Drive.start, launched_waits])]
    exact sound_first session expr start scene

/-- An evaluation that was run to its end with its batches has the outcome that its leaves make. -/
theorem concludes_of_run {session : Session} {start scene : Scene} {limit : Option Nat} {moves : Nat}
    {drive : Drive Evaluation} {last : Scene}
    (run : Machine.run limit moves (Drive.start (Evaluation.start session expr start).1, scene) =
      (.finished, drive, last)) :
    ∃ o, drive.client.outcome? = some o ∧ Concludes drive.client.session.outcomeFor expr o := by
  have sound := sound_run session expr start scene limit moves
  have ended := Machine.finished_of_runFor run
  rw [run] at sound
  have settled : drive.client.outcome?.isSome := (Bool.and_eq_true_iff.1 ended).1
  obtain ⟨o, ho⟩ := Option.isSome_iff_exists.1 settled
  exact ⟨o, ho, sound.concludes ho⟩

/-- However its polls go, an evaluation has an outcome exactly when all leaves have.  It is a value exactly when none
of them failed, and then it is that of the tree; else it is the error of a leaf that failed. -/
theorem settles_iff (session : Session) (expr : Expr) (start first : Scene) (more : List Scene) :
    let final := (first :: more).foldl (fun evaluation scene => (evaluation.poll scene).1)
      (Evaluation.start session expr start).1
    let outcome := final.session.outcomeFor
    (final.outcome?.isSome ↔ ∀ d ∈ expr.leaves, (outcome d).isSome) ∧
    (∀ b, final.outcome? = some (.ok b) ↔
      ∃ v : Definition → Bool, (∀ d ∈ expr.leaves, outcome d = some (.ok (v d))) ∧ b = expr.value v) ∧
    ((∀ d ∈ expr.leaves, (outcome d).isSome) → (∃ d ∈ expr.leaves, ∃ e, outcome d = some (.error e)) →
      ∃ e, final.outcome? = some (.error e) ∧ ∃ d ∈ expr.leaves, outcome d = some (.error e)) := by
  intro final outcome
  have sound : Sound expr final := sound_polls session expr start first more
  refine ⟨sound.isSome_outcome?_iff, fun b => ⟨fun h => ?_, fun h => ?_⟩, fun all failed => ?_⟩
  · exact Expr.concludes_ok_iff.1 (sound.concludes h)
  · have concludes := Expr.concludes_ok_iff.2 h
    obtain ⟨o, ho⟩ := Option.isSome_iff_exists.1 (sound.isSome_outcome?_iff.2 concludes.isSome)
    rw [ho, concludes.eq_ok (sound.concludes ho)]
  · obtain ⟨o, ho⟩ := Option.isSome_iff_exists.1 (sound.isSome_outcome?_iff.2 all)
    have concludes := sound.concludes ho
    cases o with
    | ok b =>
      obtain ⟨d, hd, e, he⟩ := failed
      obtain ⟨v, hv⟩ := concludes.1 d hd
      rw [show outcome d = _ from hv] at he
      cases he
    | error e => exact ⟨e, ho, concludes.2⟩

end Evaluation

end Segmentation
