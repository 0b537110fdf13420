import Segmentation.Context.Group
import Segmentation.Proofs.Capacity
import Segmentation.Proofs.Kinship

/-!
# The order of operands

Operands in another order give the leaves in another order, and the same value (`Expr.Reorders`).  If no leaf mimics
another, leaves of one key make one request, so the invocations of both expressions are of one kind
(`Expr.Siblings`): they ask the same at the same instants, batches hold the same requests, and so all come to the same
after as long (`Drive.Arrived.ends_eq`).  Hence two evaluations arrive at one instant, with one value or both with an
error, after the same calls (`Expr.operands_commute`).
-/

namespace Segmentation

/-! ### Operands in another order -/

namespace Expr

/-- The second expression is the first one with the operands of some groups in another order. -/
inductive Reorders : Expr → Expr → Prop
  | refl (e : Expr) : Reorders e e
  | operands (c : Connective) {es fs : List Expr} (perm : es.Perm fs) : Reorders (join c es) (join c fs)
  | operand (c : Connective) (before after : List Expr) {e f : Expr} (inner : Reorders e f) :
    Reorders (join c (before ++ e :: after)) (join c (before ++ f :: after))
  | not {e f : Expr} (inner : Reorders e f) : Reorders (.not e) (.not f)
  | trans {e f g : Expr} (first : Reorders e f) (second : Reorders f g) : Reorders e g

theorem leavesOfAll_eq_flatMap (es : List Expr) : leavesOfAll es = es.flatMap leaves := by
  induction es with
  | nil => rfl
  | cons e es ih => rw [leavesOfAll, ih, List.flatMap_cons]

theorem values_eq_map (v : Definition → Bool) (es : List Expr) : values v es = es.map (value v) := by
  induction es with
  | nil => rfl
  | cons e es ih => rw [values, ih, List.map_cons]

namespace Reorders

variable {e f : Expr}

theorem leaves_perm (reorders : Reorders e f) : e.leaves.Perm f.leaves := by
  induction reorders with
  | refl => exact .refl _
  | operands c perm =>
    rw [leaves_join, leaves_join, leavesOfAll_eq_flatMap, leavesOfAll_eq_flatMap]
    exact perm.flatMap_right _
  | operand c before after _ ih =>
    simp only [leaves_join, leavesOfAll_eq_flatMap, List.flatMap_append, List.flatMap_cons]
    exact (ih.append_right _).append_left _
  | not _ ih => exact ih
  | trans _ _ first second => exact first.trans second

theorem value_eq (reorders : Reorders e f) (v : Definition → Bool) : e.value v = f.value v := by
  induction reorders with
  | refl => rfl
  | operands c perm =>
    rw [value_join, value_join, values_eq_map, values_eq_map]
    exact Progress.apply_perm c (perm.map _)
  | operand c before after _ ih =>
    simp only [value_join, values_eq_map, List.map_append, List.map_cons, ih]
  | not _ ih => rw [value, value, ih]
  | trans _ _ first second => exact first.trans second

/-- With the same values and failures at the leaves, both expressions have one value, or both fail. -/
theorem concludes_eq (reorders : Reorders e f) {outcome outcome' : Definition → Option Outcome}
    (same : ∀ d ∈ e.leaves, (outcome d).map Except.toOption = (outcome' d).map Except.toOption) {o o' : Outcome}
    (concludes : Concludes outcome e o) (concludes' : Concludes outcome' f o') : o.toOption = o'.toOption := by
  have leaves {d : Definition} : d ∈ e.leaves ↔ d ∈ f.leaves := reorders.leaves_perm.mem_iff
  cases o with
  | ok value =>
    obtain ⟨all, rfl⟩ := concludes
    cases o' with
    | ok value' =>
      obtain ⟨-, rfl⟩ := concludes'
      rw [← reorders.value_eq]
      refine congrArg some (value_congr e fun d leaf => ?_)
      have one := same d leaf
      obtain ⟨v, known⟩ := all d leaf
      rw [known] at one
      obtain ⟨other, known', is⟩ := Option.map_eq_some_iff.1 one.symm
      cases other with
      | error error => cases is
      | ok v' =>
        obtain rfl := Option.some.inj is
        rw [answer, answer, known, known']
    | error error =>
      obtain ⟨-, d, leaf, failed⟩ := concludes'
      have one := same d (leaves.2 leaf)
      obtain ⟨v, known⟩ := all d (leaves.2 leaf)
      rw [known, failed] at one
      cases one
  | error error =>
    obtain ⟨-, d, leaf, failed⟩ := concludes
    cases o' with
    | ok value' =>
      have one := same d leaf
      obtain ⟨v, known⟩ := concludes'.1 d (leaves.1 leaf)
      rw [known, failed] at one
      cases one
    | error error' => rfl

end Reorders

end Expr

/-! ### Which key comes first -/

section Firsts

variable {α κ : Type} [DecidableEq κ] {f : α → κ}

theorem mem_map_firsts {l : List α} {key : κ} : key ∈ (firsts f l).map f ↔ key ∈ l.map f := by
  constructor
  · intro mem
    obtain ⟨a, first, rfl⟩ := List.mem_map.1 mem
    exact List.mem_map_of_mem (mem_of_mem_firsts first)
  · intro mem
    obtain ⟨a, listed, rfl⟩ := List.mem_map.1 mem
    obtain ⟨b, first, same⟩ : ∃ b ∈ firsts f l, f b = f a := exists_mem_firsts listed
    exact same ▸ List.mem_map_of_mem first

/-- Lists with the same keys in whatever order have the same keys once each. -/
theorem firsts_perm {l m : List α} (perm : (l.map f).Perm (m.map f)) :
    ((firsts f l).map f).Perm ((firsts f m).map f) := by
  refine (List.perm_ext_iff_of_nodup (nodup_firsts f l) (nodup_firsts f m)).2 fun key => ?_
  rw [mem_map_firsts, mem_map_firsts]
  exact perm.mem_iff

end Firsts

/-! ### What siblings ask -/

namespace Expr

/-- Two expressions with the same leaves, in whatever order, whose matchers are fair.  Leaves of one key make one
request. -/
structure Siblings (e f : Expr) : Prop where
  leaves : e.leaves.Perm f.leaves
  kin : ∀ c ∈ e.leaves, ∀ d ∈ e.leaves, c.key = d.key → c.Kin d
  fair : ∀ d ∈ e.leaves, d.matcher.Fair

namespace Siblings

variable {e f : Expr}

theorem symm (siblings : Siblings e f) : Siblings f e where
  leaves := siblings.leaves.symm
  kin c mem d mem' := siblings.kin c (siblings.leaves.mem_iff.2 mem) d (siblings.leaves.mem_iff.2 mem')
  fair d mem := siblings.fair d (siblings.leaves.mem_iff.2 mem)

theorem leaf_of_invoked {d : Definition} (invoked : d ∈ e.invoked) : d ∈ e.leaves := mem_of_mem_firsts invoked

/-- Whoever is invoked in the one has kin in the other. -/
theorem exists_kin (siblings : Siblings e f) {d : Definition} (leaf : d ∈ e.leaves) :
    ∃ g ∈ f.invoked, g.key = d.key ∧ d.Kin g := by
  obtain ⟨g, first, same⟩ : ∃ g ∈ f.invoked, g.key = d.key := exists_mem_firsts (siblings.leaves.mem_iff.1 leaf)
  have listed := siblings.leaves.mem_iff.2 (leaf_of_invoked first)
  exact ⟨g, first, same, siblings.kin d leaf g listed same.symm⟩

/-- What is the same for kin is the same for all that are invoked, in whatever order. -/
theorem map_invoked (siblings : Siblings e f) {β : Type} {h : Definition → β}
    (respects : ∀ c d : Definition, c.Kin d → c.matcher.Fair → h c = h d) :
    (e.invoked.map h).Perm (f.invoked.map h) := by
  have keys : (e.invoked.map Definition.key).Perm (f.invoked.map Definition.key) :=
    firsts_perm (siblings.leaves.map _)
  obtain ⟨ds, perm, pairs⟩ := exists_forall₂_of_perm_map keys
  have listed : ∀ d ∈ ds, d ∈ e.leaves := fun d mem => leaf_of_invoked (perm.subset mem)
  obtain ⟨length, same⟩ := List.forall₂_iff_get.1 pairs
  have kin : List.Forall₂ Eq (ds.map h) (f.invoked.map h) := by
    rw [List.forall₂_map_left_iff, List.forall₂_map_right_iff]
    refine List.forall₂_iff_get.2 ⟨length, fun i lt lt' => ?_⟩
    have leaf := listed _ (List.get_mem ds ⟨i, lt⟩)
    have leaf' := siblings.leaves.mem_iff.2 (leaf_of_invoked (List.get_mem f.invoked ⟨i, lt'⟩))
    exact respects _ _ (siblings.kin _ leaf _ leaf' (same i lt lt')) (siblings.fair _ leaf)
  rw [List.forall₂_eq_eq_eq] at kin
  rw [← kin]
  exact (perm.map h).symm

/-- Their single evaluators are called at the same instants, with arguments of the same stable keys. -/
theorem calls_perm (siblings : Siblings e f) (begun : Nat) :
    ((e.invoked.flatMap (·.calls begun)).map keyedCall).Perm ((f.invoked.flatMap (·.calls begun)).map keyedCall) := by
  rw [List.map_flatMap, List.map_flatMap, List.flatMap_def, List.flatMap_def]
  exact (siblings.map_invoked fun c d kin fair => kin.calls_eq fair.discreet begun).flatten

/-- Their batched matchers are asked at the same instants, with arguments of the same stable keys. -/
theorem asked_perm (siblings : Siblings e f) (begun t : Nat) :
    ((e.asked begun t).map keyedRequest).Perm ((f.asked begun t).map keyedRequest) := by
  have asked (g : Expr) : (g.asked begun t).map keyedRequest =
      (g.invoked.map fun d => (d.askedAt begun t).map keyedRequest).filterMap id := by
    rw [Expr.asked, List.map_filterMap, List.filterMap_map]
    rfl
  rw [asked, asked]
  exact (siblings.map_invoked fun c d kin fair =>
    kin.askedAt_eq fair.discreet begun t).filterMap id

end Siblings

end Expr

/-- The stable keys of the arguments with which one matcher is asked. -/
theorem map_argsFor (matcher : String) (asked : List (String × Option Json)) :
    (argsFor matcher asked).map (Option.map Json.stableKey) =
      (asked.map keyedRequest).filterMap fun keyed => if keyed.1 = matcher then some keyed.2 else none := by
  rw [argsFor, List.map_filterMap, List.filterMap_map]
  refine List.filterMap_congr fun request _ => ?_
  obtain ⟨name, args⟩ := request
  by_cases is : name = matcher <;> simp [keyedRequest, is]

/-- Requests whose arguments have the same stable keys, in whatever order, make the same batch. -/
theorem SameBatch.of_args {subject : Json} {args args' : List (Option Json)}
    (same : (args.map (Option.map Json.stableKey)).Perm (args'.map (Option.map Json.stableKey))) :
    SameBatch subject ((firsts (fun arg => (arg.map Json.stableKey).getD "") args).map (⟨subject, ·⟩))
      ((firsts (fun arg => (arg.map Json.stableKey).getD "") args').map (⟨subject, ·⟩)) := by
  have keyed (l : List (Option Json)) :
      firsts (fun arg => (arg.map Json.stableKey).getD "") l = firsts (Option.map Json.stableKey) l :=
    firsts_congr fun _ _ _ _ => @Request.key_inj subject _ _
  have of_subject (l : List (Option Json)) : ∀ request ∈ l.map (Request.mk subject), request.subject = subject := by
    intro request mem
    obtain ⟨_, -, rfl⟩ := List.mem_map.1 mem
    rfl
  have keys (l : List (Option Json)) : ((l.map (Request.mk subject)).map fun request =>
      request.args.map Json.stableKey) = l.map (Option.map Json.stableKey) := List.map_map
  rw [keyed, keyed]
  refine ⟨of_subject _, of_subject _, ?_, ?_⟩
  · rw [keys]
    exact nodup_firsts _ args
  · rw [keys, keys]
    exact firsts_perm same

/-- Siblings call a batched evaluator at the same instants, each time once for the same requests. -/
theorem Expr.Siblings.batches {e f : Expr} (siblings : e.Siblings f) {subject : Json} {begun t : Nat} {matcher : String}
    {batches batches' : List (List Request)} (made : e.Calls subject begun matcher t batches)
    (made' : f.Calls subject begun matcher t batches') : batches = [] ∧ batches' = [] ∨
      ∃ batch batch', batches = [batch] ∧ batches' = [batch'] ∧ SameBatch subject batch batch' := by
  obtain ⟨args, perm, -, rfl⟩ := made
  obtain ⟨args', perm', -, rfl⟩ := made'
  have same : (args.map (Option.map Json.stableKey)).Perm (args'.map (Option.map Json.stableKey)) := by
    refine (perm.map _).trans (.trans ?_ (perm'.map _).symm)
    rw [map_argsFor, map_argsFor]
    exact (siblings.asked_perm begun t).filterMap _
  by_cases nothing : args = []
  · subst nothing
    obtain rfl : args' = [] := List.map_eq_nil_iff.1 same.symm.eq_nil
    exact .inl ⟨rfl, rfl⟩
  · have some' : args' ≠ [] := by
      rintro rfl
      exact nothing (List.map_eq_nil_iff.1 same.eq_nil)
    rw [if_neg nothing, if_neg some']
    exact .inr ⟨_, _, rfl, rfl, .of_args same⟩

/-! ### Two arrivals -/

namespace Definition

/-- Nothing is over before the validation is. -/
theorem Ends.validated {scope : Scope} {begun last : Nat} {batches : List (List Request)} {d : Definition}
    {outcome : Outcome} (ends : d.Ends scope begun batches outcome last) : begun + d.delay ≤ last := by
  cases ends with
  | refused _ => exact Nat.le_refl _
  | decided _ _ _ => exact Nat.le_add_right _ _
  | answered _ _ _ _ _ _ _ => exact Nat.le_add_right _ _

end Definition

namespace Drive

variable {scope : Scope} {e f : Expr} {first : Journal} {chronicle chronicle' : List (Nat × Happening)}
  {drive drive' : Drive Evaluation} {scene scene' : Scene}

namespace Arrived

/-- Kin that are invoked in two evaluations of siblings come to the same, and take as long. -/
theorem ends_eq (arrived : Arrived scope e first chronicle drive scene)
    (arrived' : Arrived scope f first chronicle' drive' scene') (siblings : e.Siblings f) {c d : Definition}
    (kin : c.Kin d) (fair : c.matcher.Fair) {outcome outcome' : Outcome} {last last' : Nat}
    (ends : c.Ends scope first.now (callsAt chronicle c.name (first.now + c.delay)) outcome last)
    (ends' : d.Ends scope first.now (callsAt chronicle' d.name (first.now + d.delay)) outcome' last') :
    outcome.toOption = outcome'.toOption ∧ last = last' := by
  refine kin.ends_eq fair (fun batch mem batch' mem' => ?_) ends ends'
  have made := arrived.calls c.name (first.now + c.delay)
  have made' := arrived'.calls d.name (first.now + d.delay)
  rw [kin.request.1, kin.delay_eq fair.discreet] at made mem
  rcases siblings.batches made made' with ⟨nothing, -⟩ | ⟨only, only', is, is', same⟩
  · rw [nothing] at mem
    cases mem
  · rw [is] at mem
    rw [is'] at mem'
    rw [List.mem_singleton.1 mem, List.mem_singleton.1 mem']
    exact same

/-- An evaluation does not arrive later than that of its sibling. -/
theorem now_le (arrived : Arrived scope e first chronicle drive scene)
    (arrived' : Arrived scope f first chronicle' drive' scene') (siblings : e.Siblings f) :
    scene.journal.now ≤ scene'.journal.now := by
  cases arrived.reaches with
  | begins le => exact Nat.le_trans le arrived'.started
  | @validates d invoked le =>
    have leaf := Expr.Siblings.leaf_of_invoked invoked
    obtain ⟨g, invoked', -, kin⟩ := siblings.exists_kin leaf
    obtain ⟨outcome', last', ends', -, arrives⟩ := arrived'.ends g invoked'
    have validated := ends'.validated
    rw [← kin.delay_eq (siblings.fair d leaf).discreet] at validated
    omega
  | @ends d outcome last invoked ends le =>
    have leaf := Expr.Siblings.leaf_of_invoked invoked
    obtain ⟨g, invoked', -, kin⟩ := siblings.exists_kin leaf
    obtain ⟨outcome', last', ends', -, arrives⟩ := arrived'.ends g invoked'
    obtain ⟨-, rfl⟩ := arrived.ends_eq arrived' siblings kin (siblings.fair d leaf) ends ends'
    exact Nat.le_trans le arrives

/-- The leaves have the same values, and the same ones have failed. -/
theorem outcomeFor_eq (arrived : Arrived scope e first chronicle drive scene)
    (arrived' : Arrived scope f first chronicle' drive' scene') (siblings : e.Siblings f) {d : Definition}
    (leaf : d ∈ e.leaves) : (drive.client.session.outcomeFor d).map Except.toOption =
      (drive'.client.session.outcomeFor d).map Except.toOption := by
  -- the one for its key that was invoked here, and the one there
  obtain ⟨c, invoked, same⟩ : ∃ c ∈ e.invoked, c.key = d.key := exists_mem_firsts leaf
  have leaf' := Expr.Siblings.leaf_of_invoked invoked
  obtain ⟨g, invoked', same', kin⟩ := siblings.exists_kin leaf'
  obtain ⟨outcome, last, ends, known, -⟩ := arrived.ends c invoked
  obtain ⟨outcome', last', ends', known', -⟩ := arrived'.ends g invoked'
  have shared : drive.client.session.outcomeFor d = some outcome := by
    rw [← known, Session.outcomeFor, Session.outcomeFor, same]
  have shared' : drive'.client.session.outcomeFor d = some outcome' := by
    rw [← known', Session.outcomeFor, Session.outcomeFor, same', same]
  rw [shared, shared']
  exact congrArg some (arrived.ends_eq arrived' siblings kin (siblings.fair c leaf') ends ends').1

end Arrived

end Drive

/-! ### What the journals tell -/

/-- The batches with which the evaluator of a matcher was called at an instant, as a journal tells of them: the stable
keys of the arguments. -/
def Journal.batchesAt (entries : List (Nat × Event)) (matcher : String) (t : Nat) : List (List (Option String)) :=
  ((batchCalls entries).filter fun (instant, name, _) => instant = t ∧ name = matcher).map fun (_, _, args) =>
    args.map (Option.map Json.stableKey)

/-- A journal that tells of what happened tells of its batches. -/
theorem Journal.batchesAt_eq {entries : List (Nat × Event)} {chronicle : List (Nat × Happening)}
    (told : batchCalls entries = Segmentation.batchCalls chronicle) (matcher : String) (t : Nat) :
    batchesAt entries matcher t =
      (callsAt chronicle matcher t).map fun batch => batch.map fun request => request.args.map Json.stableKey := by
  rw [batchesAt, told]
  clear told
  induction chronicle with
  | nil => rfl
  | cons entry chronicle ih =>
    obtain ⟨instant, happening⟩ := entry
    cases batch : happening.batch? with
    | none =>
      by_cases then_ : instant = t <;>
        simpa [Segmentation.batchCalls, callsAt, Happening.batchCall?, batch, then_] using ih
    | some called =>
      obtain ⟨flight, name, requests⟩ := called
      by_cases then_ : instant = t <;> by_cases is : name = matcher <;>
        simpa [Segmentation.batchCalls, callsAt, Happening.batchCall?, batch, then_, is] using ih

/-! ### Evaluations in fresh contexts -/

/-- A machine alone on the clock finishes as it does by itself. -/
theorem Machine.Finishes.alone {σ : Type} [Machine σ] {s final : σ} (run : Finishes s final) :
    Finishes (⟨s, []⟩ : Beside σ) ⟨final, []⟩ := by
  induction run with
  | done ended => exact .done ended
  | polls running up _ ih => exact .polls running up ih
  | @waits s _ t idle next _ ih =>
    refine .waits idle ?_ ih
    change ((Machine.nextAlarm s).toList ++ []).min? = some t
    rw [next]
    rfl

/-- The group of one fresh context. -/
def ContextGroup.fresh (scope : Scope) (first : Journal) : ContextGroup := ⟨first, [.start scope], []⟩

/-- Evaluates an expression in a fresh context to its end; gives the outcome, if there is one, and the journal. -/
def Expr.evaluate (expr : Expr) (scope : Scope) (first : Journal) (moves : Nat) : Option Outcome × Journal :=
  let evaluated := (ContextGroup.fresh scope first).evaluate moves 0 (.start scope) expr
  (evaluated.1, evaluated.2.journal)

/-- An evaluation has the outcome and the journal that its drive has in the end. -/
theorem Expr.evaluate_of_finishes {scope : Scope} (batching : scope.batching = true) {expr : Expr} {first : Journal}
    {final : Drive Evaluation × Scene}
    (run : let started := Evaluation.start (.start scope) expr ⟨.empty, first⟩
      Machine.Finishes (Machine.poll (Drive.start started.1, started.2)) final) :
    ∃ enough, ∀ moves, enough ≤ moves →
      expr.evaluate scope first moves = (final.1.client.outcome?, final.2.journal) := by
  obtain ⟨enough, finishes⟩ := run.alone.enough
  refine ⟨enough, fun moves le => ?_⟩
  let started := Evaluation.start (.start scope) expr ⟨.empty, first⟩
  have ran : Machine.run none moves (⟨(Drive.start started.1, started.2), []⟩ : Beside (Drive Evaluation × Scene)) =
      (.finished, ⟨final, []⟩) := finishes moves le
  have driven : (ContextGroup.fresh scope first).evaluate moves 0 (.start scope) expr =
      (ContextGroup.fresh scope first).runDriven moves 0 started.1 started.2 := if_pos batching
  have alone : (ContextGroup.fresh scope first).otherAlarms 0 = [] := rfl
  rw [evaluate, driven, ContextGroup.runDriven, alone, ran]
  rfl

/-- Two evaluations that began with one journal came to one value, or both to an error, at one instant.  On the way they
called single evaluators at the same instants, and batched ones with the same batches, each of them a list of requests in
whatever order.  Arguments are compared by their stable keys. -/
structure Outcome.SameCourse (first : Journal) (outcome outcome' : Outcome) (last last' : Journal) : Prop where
  value : outcome.toOption = outcome'.toOption
  now : last.now = last'.now
  work : ∃ written written', last.entries = first.entries ++ written ∧ last'.entries = first.entries ++ written' ∧
    ((Journal.calls written).map keyedCall).Perm ((Journal.calls written').map keyedCall) ∧
    ∀ matcher t, List.Forall₂ List.Perm (Journal.batchesAt written matcher t) (Journal.batchesAt written' matcher t)

/-- Evaluations of expressions with their operands in another order have the same course when they arrive. -/
theorem Drive.Arrived.sameCourse {scope : Scope} {e f : Expr} {first : Journal}
    {chronicle chronicle' : List (Nat × Happening)} {drive drive' : Drive Evaluation} {scene scene' : Scene}
    (arrived : Arrived scope e first chronicle drive scene) (arrived' : Arrived scope f first chronicle' drive' scene')
    (reorders : e.Reorders f) (siblings : e.Siblings f) : ∃ outcome outcome',
      drive.client.outcome? = some outcome ∧ drive'.client.outcome? = some outcome' ∧
      Outcome.SameCourse first outcome outcome' scene.journal scene'.journal := by
  obtain ⟨outcome, known, concludes⟩ := arrived.concludes
  obtain ⟨outcome', known', concludes'⟩ := arrived'.concludes
  obtain ⟨written, entries, calls, batches⟩ := arrived.tells
  obtain ⟨written', entries', calls', batches'⟩ := arrived'.tells
  refine ⟨outcome, outcome', known, known', ?_, ?_, written, written', entries, entries', ?_, fun matcher t => ?_⟩
  · exact reorders.concludes_eq (fun d leaf => arrived.outcomeFor_eq arrived' siblings leaf) concludes concludes'
  · exact Nat.le_antisymm (arrived.now_le arrived' siblings) (arrived'.now_le arrived siblings.symm)
  · exact (calls.map _).symm.trans ((siblings.calls_perm first.now).trans (calls'.map _))
  · rw [Journal.batchesAt_eq batches, Journal.batchesAt_eq batches']
    rcases siblings.batches (arrived.calls matcher t) (arrived'.calls matcher t) with
      ⟨nothing, nothing'⟩ | ⟨batch, batch', only, only', same⟩
    · rw [nothing, nothing']
      exact .nil
    · rw [only, only']
      exact .cons same.perm .nil

namespace Expr

/-- The order of operands carries no meaning.  If the matchers of an expression are fair, and no leaf mimics another, the
expression with operands in another order comes to the same value, or to an error if it does, in the same time with the
same work. -/
theorem operands_commute {scope : Scope} (batching : scope.batching = true) {e f : Expr} (reorders : e.Reorders f)
    (apart : ∀ c ∈ e.leaves, ∀ d ∈ e.leaves, ¬ c.Mimics d) {matchers : String → Option Matcher}
    (bound : ∀ d ∈ e.leaves, matchers d.name = some d.matcher) (fair : ∀ d ∈ e.leaves, d.matcher.Fair)
    (first : Journal) :
    ∃ outcome outcome' last last',
      (∃ enough, ∀ moves, enough ≤ moves → e.evaluate scope first moves = (some outcome, last) ∧
        f.evaluate scope first moves = (some outcome', last')) ∧
      Outcome.SameCourse first outcome outcome' last last' := by
  have listed {d : Definition} : d ∈ f.leaves → d ∈ e.leaves := reorders.leaves_perm.mem_iff.2
  have siblings : e.Siblings f := by
    refine ⟨reorders.leaves_perm, fun c mem d mem' same => ?_, fair⟩
    rcases (Definition.key_eq_iff c d).1 same with request | mimics | mimics
    · refine ⟨request, Option.some.inj ?_⟩
      rw [← bound c mem, ← bound d mem', request.1]
    · exact absurd mimics (apart c mem d mem')
    · exact absurd mimics (apart d mem' c mem)
  have replies {g : Expr} (sub : ∀ d ∈ g.leaves, d ∈ e.leaves) :
      ∀ name evaluate, g.staff name evaluate → BatchEvaluator.Replies evaluate := by
    rintro name evaluate ⟨d, leaf, -, batched⟩
    exact ((fair d (sub d leaf)).batch evaluate batched).replies
  obtain ⟨chronicle, final, run, arrived⟩ := Drive.arrives batching (replies fun _ => id) bound first
  obtain ⟨chronicle', final', run', arrived'⟩ :=
    Drive.arrives batching (replies fun _ => listed) (fun d leaf => bound d (listed leaf)) first
  obtain ⟨outcome, outcome', known, known', same⟩ := arrived.sameCourse arrived' reorders siblings
  obtain ⟨enough, finishes⟩ := evaluate_of_finishes batching run
  obtain ⟨enough', finishes'⟩ := evaluate_of_finishes batching run'
  refine ⟨outcome, outcome', _, _, ⟨max enough enough', fun moves le => ⟨?_, ?_⟩⟩, same⟩
  · rw [finishes moves (Nat.le_trans (Nat.le_max_left _ _) le), known]
  · rw [finishes' moves (Nat.le_trans (Nat.le_max_right _ _) le), known']

end Expr

/-! A group of a batched matcher and a single evaluator that takes longer, in either order. -/

/-- Resolves the requests from an entry on. -/
def BatchTask.resolveAll (answer : Request → Bool) : Nat → List Request → BatchTask
  | _, [] => .done (.value ())
  | entry, request :: requests => .resolve entry (answer request) (resolveAll answer (entry + 1) requests)

namespace BatchTask

variable (answer : Request → Bool)

theorem loadless_resolveAll (requests : List Request) (entry : Nat) : (resolveAll answer entry requests).Loadless := by
  induction requests generalizing entry with
  | nil => trivial
  | cons request requests ih => exact ih (entry + 1)

theorem delay_resolveAll (requests : List Request) (entry : Nat) : (resolveAll answer entry requests).delay = 0 := by
  induction requests generalizing entry with
  | nil => rfl
  | cons request requests ih => exact ih (entry + 1)

theorem answers_resolveAll {requests : List Request} {position : Nat} {request : Request}
    (here : requests[position]? = some request) (entry : Nat) :
    (resolveAll answer entry requests).answers (entry + position) = [(0, answer request)] := by
  induction requests generalizing entry position with
  | nil => cases here
  | cons other requests ih =>
    cases position with
    | zero =>
      obtain rfl := Option.some.inj here
      exact if_pos rfl
    | succ position =>
      have later : entry ≠ entry + (position + 1) := by omega
      rw [resolveAll, answers, if_neg later, Nat.add_comm position, ← Nat.add_assoc]
      exact ih here (entry + 1)

end BatchTask

namespace BatchEvaluator

/-- An evaluator that takes its time and then answers each request by what it is. -/
def answering (ticks : Nat) (answer : Request → Bool) : BatchEvaluator := fun _ requests =>
  .starts (.sleep ticks (.resolveAll answer 0 requests))

theorem fair_answering (ticks : Nat) (answer : Request → Bool) : Fair (answering ticks answer) where
  loadless := by
    rintro number requests task ⟨⟩
    exact BatchTask.loadless_resolveAll answer requests 0
  answers := by
    refine ⟨answer, fun _ _ => ticks, fun _ => ticks, fun number requests => ⟨?_, fun entry request here => ?_⟩⟩
    · exact congrArg (ticks + ·) (BatchTask.delay_resolveAll answer requests 0)
    · have answers : (answering ticks answer number requests).task.answers entry = [(ticks, answer request)] := by
        have resolved := BatchTask.answers_resolveAll answer here 0
        rw [Nat.zero_add] at resolved
        rw [answering, Launch.task, BatchTask.answers, resolved]
        rfl
      unfold BatchTask.Settles
      rw [answers]
      exact ⟨List.mem_singleton_self _, fun other mem => by simp [List.mem_singleton.1 mem]⟩

theorem discreet_answering (ticks : Nat) {answer : Request → Bool}
    (respects : ∀ request request', Request.Alike request request' → answer request = answer request') :
    Discreet (answering ticks answer) := by
  intro number requests requests' alike
  have same (entry : Nat) :
      BatchTask.resolveAll answer entry requests = BatchTask.resolveAll answer entry requests' := by
    induction alike generalizing entry with
    | nil => rfl
    | cons first _ ih => rw [BatchTask.resolveAll, BatchTask.resolveAll, respects _ _ first, ih]
  exact congrArg (fun task => Launch.starts (BatchTask.sleep ticks task).canonical) (same 0)

end BatchEvaluator

/-- Says yes to the argument 1. -/
def member : Matcher :=
  ⟨some Service.acceptAnything, .batch (.answering 2 fun request => request.args.map Json.stableKey = some "1")⟩

/-- Says yes after a while. -/
def patient : Matcher := ⟨none, .single fun _ _ => .starts (.sleep 3 (.done (.value true)))⟩

theorem fair_member : member.Fair where
  discreet := ⟨fun _ eq => Option.some.inj eq ▸ Service.discreet_acceptAnything,
    BatchEvaluator.discreet_answering 2 fun _ _ alike => by simp only [alike.2]⟩
  single := nofun
  batch _ eq := Evaluator.batch.inj eq ▸ BatchEvaluator.fair_answering 2 _

theorem fair_patient : patient.Fair where
  discreet := ⟨nofun, fun _ _ _ _ => rfl⟩
  single _ eq := Evaluator.single.inj eq ▸ fun _ _ _ => rfl
  batch := nofun

namespace Expr

/-- Both orders come to true when the slow evaluator is done, after one batch of both arguments. -/
theorem member_or_patient_commute :
    let scope : Scope := ⟨.null, "members", true, 0, none⟩
    let leaf (arg serial : Nat) : Expr := .leaf ⟨"member", some (.int arg), member, serial⟩
    let slow : Expr := .leaf ⟨"patient", none, patient, 2⟩
    let e : Expr := .and [.or [leaf 1 0, slow], .not (leaf 2 1)]
    let f : Expr := .and [.not (leaf 2 1), .or [slow, leaf 1 0]]
    e.Reorders f ∧
    (∃ outcome outcome' last last',
      (∃ enough, ∀ moves, enough ≤ moves → e.evaluate scope .empty moves = (some outcome, last) ∧
        f.evaluate scope .empty moves = (some outcome', last')) ∧
      Outcome.SameCourse .empty outcome outcome' last last') ∧
    [e, f].map (fun g => (g.evaluate scope .empty 8).1.map Except.toOption) = [some (some true), some (some true)] ∧
    [e, f].map (fun g => (g.evaluate scope .empty 8).2.now) = [3, 3] ∧
    [e, f].map (fun g => Journal.batchesAt (g.evaluate scope .empty 8).2.entries "member" 0) =
      [[[some "1", some "2"]], [[some "2", some "1"]]] := by
  intro scope leaf slow e f
  have inner : Reorders (.or [leaf 1 0, slow]) (.or [slow, leaf 1 0]) := .operands .or (.swap slow (leaf 1 0) [])
  have outer : Reorders (.and [.or [slow, leaf 1 0], .not (leaf 2 1)]) f :=
    .operands .and (.swap (Expr.not (leaf 2 1)) (Expr.or [slow, leaf 1 0]) [])
  have swapped : e.Reorders f := .trans (.operand .and [] [Expr.not (leaf 2 1)] inner) outer
  have each (P : Definition → Prop) (first : P ⟨"member", some (.int 1), member, 0⟩)
      (slow : P ⟨"patient", none, patient, 2⟩) (second : P ⟨"member", some (.int 2), member, 1⟩) :
      ∀ d ∈ e.leaves, P d :=
    List.forall_mem_cons.2 ⟨first, List.forall_mem_cons.2 ⟨slow, List.forall_mem_singleton.2 second⟩⟩
  let matchers (name : String) : Option Matcher := if name = "member" then some member else some patient
  have bound : ∀ d ∈ e.leaves, matchers d.name = some d.matcher := each _ rfl rfl rfl
  have fair : ∀ d ∈ e.leaves, d.matcher.Fair := each _ fair_member fair_patient fair_member
  exact ⟨swapped, operands_commute rfl swapped (by decide +kernel) bound fair .empty, by decide +kernel,
    by decide +kernel, by decide +kernel⟩

/-- A matcher named `a(1)` is asked for the matcher `a` bound to 1, or the other way round, whichever comes first: the
disjunction is false in one order, and true in the other one. -/
theorem mimicking_name_answers_by_order :
    let scope : Scope := ⟨.null, "both", true, 0, none⟩
    let never : Matcher := ⟨none, .single fun _ _ => .starts (.done (.value false))⟩
    let always : Matcher := ⟨some Service.acceptAnything, .single fun _ _ => .starts (.done (.value true))⟩
    let mimic : Expr := .leaf ⟨"a(1)", none, never, 0⟩
    let bound : Expr := .leaf ⟨"a", some (.int 1), always, 1⟩
    Reorders (.or [mimic, bound]) (.or [bound, mimic]) ∧ never.Fair ∧ always.Fair ∧
    ((Expr.or [mimic, bound]).evaluate scope .empty 8).1.map Except.toOption = some (some false) ∧
    ((Expr.or [bound, mimic]).evaluate scope .empty 8).1.map Except.toOption = some (some true) := by
  intro scope never always mimic bound
  have fair : never.Fair := by
    refine ⟨⟨nofun, fun _ _ _ _ => rfl⟩, fun _ eq => ?_, nofun⟩
    exact Evaluator.single.inj eq ▸ fun _ _ _ => rfl
  have fair' : always.Fair := by
    refine ⟨⟨fun _ eq => ?_, fun _ _ _ _ => rfl⟩, fun _ eq => ?_, nofun⟩
    · exact Option.some.inj eq ▸ Service.discreet_acceptAnything
    · exact Evaluator.single.inj eq ▸ fun _ _ _ => rfl
  exact ⟨.operands .or (.swap bound mimic []), fair, fair', by decide +kernel, by decide +kernel⟩

end Expr

end Segmentation
