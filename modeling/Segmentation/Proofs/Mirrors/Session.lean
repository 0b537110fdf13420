import Segmentation.Proofs.Mirrors.Flight
import Segmentation.Proofs.Sheets

/-!
# Evaluations under other numbers

Once all invocations of an evaluation have begun nobody reads the number of spans any more (`Session.Begun`).  From then
on an evaluation of pure matchers goes the same way at hubs that mirror each other (`Evaluation.poll_reflects`), and so
does a drive of one (`Drive.pass_reflects`).
-/

namespace Segmentation

open Scene (Reflects)

/-! ### Invocations that have begun -/

namespace Invocation

variable (scope : Scope) (definition : Definition) (index span : Nat)

theorem evaluated_ne_fresh (args : Option Json) (running : Running (Ending Bool)) (scene : Scene) :
    (evaluated scope definition index span args running scene).1 ≠ .fresh := by
  cases running <;> rintro ⟨⟩

theorem dispatch_ne_fresh (args : Option Json) (scene : Scene) :
    (dispatch scope definition index span args scene).1 ≠ .fresh := by
  unfold dispatch
  split
  · exact evaluated_ne_fresh _ _ _ _ _ _ _
  · split <;> rintro ⟨⟩

theorem validated_ne_fresh (running : Running Checked) (scene : Scene) :
    (validated scope definition index span running scene).1 ≠ .fresh := by
  unfold validated
  split
  · split
    · exact dispatch_ne_fresh _ _ _ _ _ _
    · rintro ⟨⟩
  · rintro ⟨⟩

theorem advance_ne_fresh (stage : Stage) (scene : Scene) :
    (advance scope definition index stage scene).1 ≠ .fresh := by
  cases stage with
  | fresh =>
    simp only [advance, begins]
    split
    · exact validated_ne_fresh _ _ _ _ _ _
    · rintro ⟨⟩
    · exact dispatch_ne_fresh _ _ _ _ _ _
  | validating span deadline rest =>
    simp only [advance]
    split
    · rintro ⟨⟩
    · exact validated_ne_fresh _ _ _ _ _ _
  | evaluating span args deadline rest =>
    simp only [advance]
    split
    · rintro ⟨⟩
    · exact evaluated_ne_fresh _ _ _ _ _ _ _
  | awaiting span load =>
    simp only [advance]
    split <;> rintro ⟨⟩
  | settled outcome => rintro ⟨⟩

end Invocation

namespace Session

/-- All invocations have begun. -/
def Begun (session : Session) : Prop := ∀ i ∈ session.invocations, i.stage ≠ .fresh

/-- After a poll an invocation has begun with which it went on, and one that had before. -/
theorem ne_fresh_advanceAll (indices : List Nat) {session : Session} (scene : Scene) {index : Nat}
    (others : ∀ i, session.invocations[index]? = some i → i.stage = .fresh → index ∈ indices) :
    ∀ i, (advanceAll indices session scene).1.invocations[index]? = some i → i.stage ≠ .fresh := by
  induction indices generalizing session scene with
  | nil =>
    intro i here fresh
    cases others i here fresh
  | cons first indices ih =>
    refine @ih (session.advance scene first).1 (session.advance scene first).2 fun i here fresh => ?_
    unfold advance at here
    cases found : session.invocations[first]? with
    | none =>
      simp only [found] at here
      rcases List.mem_cons.1 (others i here fresh) with rfl | mem
      · rw [found] at here
        cases here
      · exact mem
    | some invocation =>
      simp only [found] at here
      rcases getElem?_set_cases here with ⟨rfl, rfl⟩ | ⟨differs, here⟩
      · -- the one that went on
        exact absurd fresh (Invocation.advance_ne_fresh _ _ _ _ _)
      · exact (List.mem_cons.1 (others i here fresh)).resolve_left differs

theorem begun_advanceAll (indices : List Nat) {session : Session} (scene : Scene)
    (others : ∀ (index : Nat) (i : Invocation), session.invocations[index]? = some i → i.stage = .fresh →
      index ∈ indices) : (advanceAll indices session scene).1.Begun := by
  intro i mem
  obtain ⟨index, here⟩ := List.getElem?_of_mem mem
  exact ne_fresh_advanceAll indices scene (others index) i here

theorem Begun.advanceAll {session : Session} (begun : session.Begun) (indices : List Nat) (scene : Scene) :
    (advanceAll indices session scene).1.Begun :=
  begun_advanceAll indices scene fun _ i here fresh => absurd fresh (begun i (List.mem_of_getElem? here))

end Session

namespace Drive

theorem begun_pass {drive : Drive Evaluation} (begun : drive.client.session.Begun) (scene : Scene) :
    (drive.pass scene).1.client.session.Begun := by
  rw [Evaluation.client_pass]
  split
  · exact begun
  · exact begun.advanceAll _ scene

/-- The first pass begins with all invocations. -/
theorem begun_first_pass (scope : Scope) (expr : Expr) (before journal : Journal) :
    ((Drive.start (Evaluation.start (.start scope) expr ⟨.empty, before⟩).1).pass
      ⟨.empty, journal⟩).1.client.session.Begun := by
  have looked := looked_first scope expr before journal
  have waits : Client.settled (Evaluation.start (.start scope) expr ⟨.empty, before⟩).1 = false :=
    Evaluation.launched_waits (.start scope) expr ⟨.empty, before⟩
  rw [Evaluation.client_pass]
  unfold Drive.looked at looked
  have waiting : (Evaluation.start (.start scope) expr ⟨.empty, before⟩).1.progress.isSettled = false := waits
  simp only [Drive.start, waits, waiting, Bool.false_eq_true, if_false] at looked ⊢
  refine Session.begun_advanceAll _ _ fun index i here _ => looked index ?_
  exact (List.getElem?_eq_some_iff.1 here).1

end Drive

/-! ### Going on at hubs that mirror each other -/

variable {p q : Journal} {s t : Scene}

namespace Invocation

variable (mirrors : s.Mirrors p q t) (scope : Scope) (definition : Definition) (index : Nat)

include mirrors

theorem settle_reflects (span : Nat) (outcome : Outcome) :
    Reflects p q (settle scope span outcome s) (settle scope span outcome t) :=
  ⟨rfl, mirrors.hub, mirrors.journal.recordAll _⟩

theorem evaluated_reflects (span : Nat) (args : Option Json) (running : Running (Ending Bool)) :
    Reflects p q (evaluated scope definition index span args running s)
      (evaluated scope definition index span args running t) := by
  cases running with
  | ended ending =>
    have noted : Scene.Mirrors p q { s with journal := s.journal.record (.evaluatorEnded definition.name) }
        { t with journal := t.journal.record (.evaluatorEnded definition.name) } :=
      ⟨mirrors.hub, mirrors.journal.record _⟩
    exact settle_reflects noted scope span _
  | asleep deadline rest => exact ⟨rfl, mirrors.setAlarm deadline _⟩

theorem dispatch_reflects (pure : definition.matcher.Pure) (span : Nat) (args : Option Json) :
    Reflects p q (dispatch scope definition index span args s) (dispatch scope definition index span args t) := by
  unfold dispatch
  unfold Matcher.Pure at pure
  cases evaluator : definition.matcher.evaluator with
  | single evaluate =>
    rw [evaluator] at pure
    have called : Scene.Mirrors p q { s with journal := s.journal.record (.invoked definition.name args) }
        { t with journal := t.journal.record (.invoked definition.name args) } :=
      ⟨mirrors.hub, mirrors.journal.record _⟩
    dsimp only
    rw [pure _ (t.journal.invocations definition.name), called.journal.now]
    exact evaluated_reflects called scope definition index span args _
  | batch evaluate =>
    dsimp only
    cases scope.batching with
    | false => exact settle_reflects mirrors scope span _
    | true =>
      obtain ⟨load_eq, queued⟩ := (mirrors.hub.openQueue definition.name evaluate).loadKeyed definition.name
        ((args.map Json.stableKey).getD "") ⟨scope.subject, args⟩
      simp only [load_eq, Bool.not_true, Bool.false_eq_true, if_false]
      exact ⟨rfl, queued.await _ [index], mirrors.journal.record _⟩

theorem validated_reflects (pure : definition.matcher.Pure) (span : Nat) (running : Running Checked) :
    Reflects p q (validated scope definition index span running s)
      (validated scope definition index span running t) := by
  cases running with
  | asleep deadline rest => exact ⟨rfl, mirrors.setAlarm deadline _⟩
  | ended checked =>
    unfold validated
    dsimp only
    cases judge scope definition.name checked with
    | ok value => exact dispatch_reflects mirrors scope definition index pure span (some value)
    | error error => exact settle_reflects mirrors scope span _

theorem advance_reflects (pure : definition.matcher.Pure) {stage : Stage} (begun : stage ≠ .fresh) :
    Reflects p q (advance scope definition index stage s) (advance scope definition index stage t) := by
  unfold advance
  cases stage with
  | fresh => exact absurd rfl begun
  | validating span deadline rest =>
    dsimp only
    rw [mirrors.journal.now]
    split
    · exact ⟨rfl, mirrors⟩
    · exact validated_reflects mirrors scope definition index pure span _
  | evaluating span args deadline rest =>
    dsimp only
    rw [mirrors.journal.now]
    split
    · exact ⟨rfl, mirrors⟩
    · exact evaluated_reflects mirrors scope definition index span args _
  | awaiting span load =>
    dsimp only
    rw [mirrors.hub.state_eq]
    cases t.hub.state load with
    | waiting => exact ⟨rfl, mirrors⟩
    | answered value => exact settle_reflects mirrors scope span _
    | lost => exact settle_reflects mirrors scope span _
  | settled outcome => exact ⟨rfl, mirrors⟩

end Invocation

namespace Session

theorem advance_reflects (mirrors : s.Mirrors p q t) {session : Session} (pure : session.Pure)
    (begun : session.Begun) (index : Nat) : Reflects p q (session.advance s index) (session.advance t index) := by
  unfold advance
  cases here : session.invocations[index]? with
  | none => exact ⟨rfl, mirrors⟩
  | some invocation =>
    have mem := List.mem_of_getElem? here
    obtain ⟨stage, s, t, eq, eq', later⟩ := (Invocation.advance_reflects mirrors session.scope invocation.definition
      index (pure invocation mem) (begun invocation mem)).cases
    simp only [eq, eq']
    exact ⟨rfl, later⟩

theorem advanceAll_reflects (mirrors : s.Mirrors p q t) (indices : List Nat) {session : Session}
    (pure : session.Pure) (begun : session.Begun) :
    Reflects p q (advanceAll indices session s) (advanceAll indices session t) := by
  induction indices generalizing session s t with
  | nil => exact ⟨rfl, mirrors⟩
  | cons index indices ih =>
    have pure_later := session.pure_advance s pure index
    have begun_later : (session.advance s index).1.Begun := begun.advanceAll [index] s
    obtain ⟨later, s, t, eq, eq', mirrors⟩ := (advance_reflects mirrors pure begun index).cases
    rw [eq] at pure_later begun_later
    simp only [advanceAll, List.foldl_cons, eq, eq']
    exact ih mirrors pure_later begun_later

end Session

namespace Evaluation

theorem poll_reflects (mirrors : s.Mirrors p q t) {evaluation : Evaluation} (pure : evaluation.session.Pure)
    (begun : evaluation.session.Begun) : Reflects p q (evaluation.poll s) (evaluation.poll t) := by
  have woken_eq : s.hub.woken = t.hub.woken := by
    obtain ⟨alarms, hub_eq, -⟩ := mirrors.hub
    rw [hub_eq]
  have news_eq : evaluation.news s.hub = evaluation.news t.hub := by rw [news, news, woken_eq]
  unfold poll
  dsimp only
  rw [news_eq, woken_eq]
  obtain ⟨session, s', t', eq, eq', later⟩ := (Session.advanceAll_reflects mirrors
    (evaluation.progress.wakeAll (evaluation.news t.hub)).due pure begun).cases
  simp only [eq, eq']
  exact ⟨rfl, later⟩

theorem stirred_mirrors {hub hub' : Hub} (mirrors : hub.Mirrors hub') (evaluation : Evaluation) :
    Client.stirred evaluation hub = Client.stirred evaluation hub' := by
  obtain ⟨alarms, rfl, -⟩ := mirrors
  rfl

end Evaluation

namespace Drive

theorem pass_reflects (mirrors : s.Mirrors p q t) {drive : Drive Evaluation} (pure : drive.Pure s.hub)
    (begun : drive.client.session.Begun) : Reflects p q (drive.pass s) (drive.pass t) := by
  have polled_pure := drive.pure_pollClient s pure
  have polled : Reflects p q (drive.pollClient s) (drive.pollClient t) := by
    unfold pollClient
    split
    · exact ⟨rfl, mirrors⟩
    · obtain ⟨client, s', t', eq, eq', later⟩ := (Evaluation.poll_reflects mirrors pure.1 begun).cases
      have eq : Client.poll drive.client s = (client, s') := eq
      have eq' : Client.poll drive.client t = (client, t') := eq'
      simp only [eq, eq', Evaluation.stirred_mirrors later.hub]
      exact ⟨rfl, later⟩
  obtain ⟨drive, s, t, eq, eq', mirrors⟩ := polled.cases
  rw [eq] at polled_pure
  have taken_pure := drive.pure_takeBatches s polled_pure
  obtain ⟨taken_eq, hubs⟩ := mirrors.hub.takeFlights
  have taken : Scene.Mirrors p q (drive.takeBatches s).2 (drive.takeBatches t).2 := ⟨hubs, mirrors.journal⟩
  have drives_eq : (drive.takeBatches s).1 = (drive.takeBatches t).1 := by
    simp only [takeBatches, taken_eq]
  have flown := pollReady_reflects taken taken_pure.2
    (drive.takeBatches s).1.flights 0 (drive.takeBatches s).1.ready
  simp only [pass, eq, eq', pollFlights, ← drives_eq]
  exact ⟨by simp only [flown.1, flown.2.1], flown.2.2⟩

theorem awake_mirrors {hub hub' : Hub} (mirrors : hub.Mirrors hub') (drive : Drive Evaluation) :
    drive.awake hub = drive.awake hub' := by
  simp only [awake, Evaluation.stirred_mirrors mirrors]

theorem advance_mirrors {hub hub' : Hub} (mirrors : hub.Mirrors hub') (drive : Drive Evaluation) (now : Nat) :
    (drive.advance hub now).1 = (drive.advance hub' now).1 ∧
      (drive.advance hub now).2.Mirrors (drive.advance hub' now).2 := by
  obtain ⟨due_eq, later⟩ := mirrors.takeDue now
  rw [advance_eq, advance_eq]
  generalize (hub.takeDue now).1 = due, (hub'.takeDue now).1 = due', (hub.takeDue now).2 = h, (hub'.takeDue now).2 = h'
    at due_eq later
  induction due generalizing due' drive h h' with
  | nil =>
    obtain rfl : due' = [] := List.map_eq_nil_iff.1 due_eq.symm
    exact ⟨rfl, later⟩
  | cons alarm due ih =>
    cases due' with
    | nil => cases due_eq
    | cons alarm' due' =>
      obtain ⟨first, rest⟩ := List.cons_eq_cons.1 due_eq
      obtain ⟨-, purpose_eq⟩ := Prod.mk.inj first
      have roused : (rouse (drive, h) alarm).1 = (rouse (drive, h') alarm').1 ∧
          (rouse (drive, h) alarm).2.Mirrors (rouse (drive, h') alarm').2 := by
        unfold rouse
        rw [purpose_eq]
        split
        · exact ⟨rfl, later⟩
        · exact ⟨rfl, later.goOff _⟩
      simp only [List.foldl_cons]
      generalize rouse (drive, h) alarm = r, rouse (drive, h') alarm' = r' at roused
      obtain ⟨drive, hub⟩ := r
      obtain ⟨drive', hub'⟩ := r'
      obtain ⟨rfl, hubs⟩ : drive = drive' ∧ hub.Mirrors hub' := roused
      exact ih drive due' hub hub' rest hubs

end Drive

end Segmentation
