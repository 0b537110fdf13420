import Segmentation.Proofs.Arrivals
import Segmentation.Proofs.Canonical.Session
import Segmentation.Proofs.Past.Session
import Segmentation.Proofs.Sharing
import Segmentation.Proofs.StableKey

/-!
# Leaves that make the same request

A batched evaluator is fair if it answers its requests by what they are, after a time that does not depend on their order;
with a schema and an evaluator that cannot tell apart arguments with one stable key, so is the matcher
(`Matcher.Fair`).  Definitions that make the same request of one matcher are kin (`Definition.Kin`): their validations
take as long and admit the same, and their single evaluators are called alike.  In batches of the same requests
(`SameBatch`) they get the same answer after the same time, so their invocations come to the same (`Kin.ends_eq`).
-/

namespace Segmentation

/-! ### Keys -/

/-- No stable key is empty. -/
theorem Json.stableKey_ne_empty (value : Json) : value.stableKey ≠ "" := by
  intro empty
  have blank : value.keyChars = [] := String.ofList_inj.1 empty
  have opens := value.opening_of_head []
  rw [blank] at opens
  cases opens

/-- The key of a request shows whether it has an argument, and the stable key of that. -/
theorem Request.key_inj {subject : Json} {args args' : Option Json} :
    (Request.entry subject args).1 = (Request.entry subject args').1 ↔
      args.map Json.stableKey = args'.map Json.stableKey := by
  unfold Request.entry
  cases args with
  | none => cases args' <;> simp [(Json.stableKey_ne_empty _).symm]
  | some arg => cases args' <;> simp [Json.stableKey_ne_empty]

/-! ### Canonical forms take as long -/

theorem Task.delay_map {ρ σ : Type} (f : ρ → σ) (task : Task ρ) : (task.map f).delay = task.delay := by
  induction task with
  | done result => rfl
  | sleep ticks rest ih => exact congrArg (ticks + ·) ih

theorem Task.final_map {ρ σ : Type} (f : ρ → σ) (task : Task ρ) : (task.map f).final = f task.final := by
  induction task with
  | done result => rfl
  | sleep ticks rest ih => exact ih

theorem Launch.delay_map {ρ σ : Type} (f : ρ → σ) (launch : Launch (Task ρ)) :
    (launch.map (Task.map f)).delay = launch.delay := by
  cases launch with
  | panics payload => rfl
  | starts task => exact task.delay_map f

theorem Launch.final_map {ρ : Type} (f : ρ → ρ) {ofPanic : Payload → ρ}
    (same : ∀ payload, f (ofPanic payload) = ofPanic payload) (launch : Launch (Task ρ)) : (launch.map (Task.map f)).final ofPanic = f (launch.final ofPanic) := by
  cases launch with
  | panics payload => exact (same payload).symm
  | starts task => exact task.final_map f

namespace BatchTask

@[simp] theorem delay_canonical (task : BatchTask) : task.canonical.delay = task.delay := by
  induction task with
  | done ending => rfl
  | sleep ticks rest ih => exact congrArg (ticks + ·) ih
  | _ => assumption

@[simp] theorem answers_canonical (task : BatchTask) (entry : Nat) :
    task.canonical.answers entry = task.answers entry := by
  induction task with
  | done ending => rfl
  | keep other rest ih => exact ih
  | loadInto peer request rest ih => exact ih
  | _ => simp only [canonical, answers, *]

end BatchTask

theorem Launch.task_map_canonical (launch : Launch BatchTask) :
    (launch.map BatchTask.canonical).task = launch.task.canonical := by
  cases launch <;> rfl

/-! ### Evaluators that are fair -/

/-- A batched evaluator that loads nothing, takes as long as its requests take in whatever order, and answers each of them
by what it is, after a while that does not depend on the order, either. -/
structure BatchEvaluator.Fair (evaluate : BatchEvaluator) : Prop where
  loadless : BatchEvaluator.Loadless evaluate
  answers : ∃ (answer : Request → Bool) (wait : Multiset Request → Request → Nat) (total : Multiset Request → Nat),
    ∀ number requests, (evaluate number requests).task.delay = total requests ∧
      ∀ (entry : Nat) (request : Request), requests[entry]? = some request →
        (evaluate number requests).task.Settles entry (wait requests request) (answer request)

theorem BatchEvaluator.Fair.replies {evaluate : BatchEvaluator} (fair : BatchEvaluator.Fair evaluate) :
    BatchEvaluator.Replies evaluate where
  loadless := fair.loadless
  settles number requests entry lt := by
    obtain ⟨answer, wait, total, all⟩ := fair.answers
    exact ⟨_, _, (all number requests).2 entry requests[entry] (List.getElem?_eq_getElem lt)⟩

/-- Arguments with one stable key are the same to the matcher, and so is how often its evaluator was called before. -/
structure Matcher.Fair (matcher : Matcher) : Prop where
  discreet : matcher.Discreet
  single : ∀ evaluate, matcher.evaluator = .single evaluate → IgnoresCount evaluate
  batch : ∀ evaluate, matcher.evaluator = .batch evaluate → BatchEvaluator.Fair evaluate

/-! ### Definitions of one kind -/

/-- A call of a single evaluator, with the stable key of the argument. -/
def keyedCall : Nat × String × Option Json → Nat × String × Option String
  | (t, name, args) => (t, name, args.map Json.stableKey)

/-- What a batched matcher is asked, with the stable key of the argument. -/
def keyedRequest : String × Option Json → String × Option String
  | (name, args) => (name, args.map Json.stableKey)

/-- Definitions that make the same request, with the same matcher. -/
structure Definition.Kin (d e : Definition) : Prop where
  request : d.SameRequest e
  matcher : d.matcher = e.matcher

namespace Definition.Kin

variable {d e : Definition}

/-- Neither has an argument, or both have arguments with one stable key. -/
theorem args_cases (kin : d.Kin e) : d.args = none ∧ e.args = none ∨
    ∃ raw raw', d.args = some raw ∧ e.args = some raw' ∧ raw.stableKey = raw'.stableKey := by
  have same := kin.request.2
  cases bound : d.args with
  | none =>
    rw [bound] at same
    exact .inl ⟨rfl, Option.map_eq_none_iff.1 same.symm⟩
  | some raw =>
    rw [bound] at same
    obtain ⟨raw', bound', keys⟩ := Option.map_eq_some_iff.1 same.symm
    exact .inr ⟨raw, raw', rfl, bound', keys.symm⟩

/-- Validations take the same time. -/
theorem delay_eq (kin : d.Kin e) (discreet : d.matcher.Discreet) : d.delay = e.delay := by
  unfold delay
  rw [← kin.matcher]
  cases takes : d.matcher.schema with
  | none => rfl
  | some schema =>
    rcases kin.args_cases with ⟨bound, bound'⟩ | ⟨raw, raw', bound, bound', keys⟩ <;> rw [bound, bound']
    have same : (schema raw).map (Task.map Checked.canonical) = (schema raw').map (Task.map Checked.canonical) :=
      discreet.schema schema takes raw raw' keys
    have delays := congrArg Launch.delay same
    rwa [Launch.delay_map, Launch.delay_map] at delays

/-- Both arguments are refused, or what is admitted has one stable key. -/
theorem judged_eq (kin : d.Kin e) (discreet : d.matcher.Discreet) (scope : Scope) :
    (d.judged scope).map (Option.map Json.canonical) = (e.judged scope).map (Option.map Json.canonical) := by
  unfold judged
  rw [← kin.matcher, ← kin.request.1]
  cases takes : d.matcher.schema with
  | none => exact congrArg Except.ok (map_canonical_eq_iff.2 kin.request.2)
  | some schema =>
    rcases kin.args_cases with ⟨bound, bound'⟩ | ⟨raw, raw', bound, bound', keys⟩ <;> rw [bound, bound']
    have same : (schema raw).map (Task.map Checked.canonical) = (schema raw').map (Task.map Checked.canonical) :=
      discreet.schema schema takes raw raw' keys
    have finals := congrArg (Launch.final Except.error) same
    rw [Launch.final_map Checked.canonical (fun _ => rfl), Launch.final_map Checked.canonical (fun _ => rfl)] at finals
    have judges := congrArg (Invocation.judge scope d.name) finals
    rw [Invocation.judge_canonical scope d, Invocation.judge_canonical scope d] at judges
    have admits (checked : Except Error Json) :
        (checked.map some).map (Option.map Json.canonical) = (checked.map Json.canonical).map some := by
      cases checked <;> rfl
    exact (admits _).trans ((congrArg (Except.map some) judges).trans (admits _).symm)

/-- Both arguments are refused, or both are admitted. -/
theorem judged_cases (kin : d.Kin e) (discreet : d.matcher.Discreet) (scope : Scope) :
    (∃ error error', d.judged scope = .error error ∧ e.judged scope = .error error') ∨
    ∃ args args', d.judged scope = .ok args ∧ e.judged scope = .ok args' ∧
      args.map Json.stableKey = args'.map Json.stableKey := by
  have same := kin.judged_eq discreet scope
  cases judged : d.judged scope with
  | error error =>
    cases judged' : e.judged scope with
    | error error' => exact .inl ⟨error, error', rfl, rfl⟩
    | ok args' =>
      rw [judged, judged'] at same
      cases same
  | ok args =>
    cases judged' : e.judged scope with
    | error error' =>
      rw [judged, judged'] at same
      cases same
    | ok args' =>
      rw [judged, judged'] at same
      exact .inr ⟨args, args', rfl, rfl, map_canonical_eq_iff.1 (Except.ok.inj same)⟩

/-- What is admitted has one stable key. -/
theorem admitted_eq (kin : d.Kin e) (discreet : d.matcher.Discreet) :
    d.admitted.map (Option.map Json.stableKey) = e.admitted.map (Option.map Json.stableKey) := by
  -- what is admitted is the same in whatever scope
  obtain ⟨scope⟩ : Nonempty Scope := ⟨⟨.null, "", true, 0, none⟩⟩
  rcases kin.judged_cases discreet scope with ⟨_, _, refused, refused'⟩ | ⟨args, args', judged, judged', same⟩
  · rw [admitted_of_refused refused, admitted_of_refused refused']
  · rw [admitted_of_judged judged, admitted_of_judged judged']
    exact congrArg some same

/-- They call their single evaluators at the same instant, with arguments of one stable key. -/
theorem calls_eq (kin : d.Kin e) (discreet : d.matcher.Discreet) (begun : Nat) :
    (d.calls begun).map keyedCall = (e.calls begun).map keyedCall := by
  have same := kin.admitted_eq discreet
  unfold calls
  rw [← kin.matcher, ← kin.delay_eq discreet, ← kin.request.1]
  split
  · rfl
  · cases admitted : d.admitted <;> cases admitted' : e.admitted <;> simp_all [keyedCall]

/-- They ask their batched matchers at the same instant, with arguments of one stable key. -/
theorem askedAt_eq (kin : d.Kin e) (discreet : d.matcher.Discreet) (begun t : Nat) :
    (d.askedAt begun t).map keyedRequest = (e.askedAt begun t).map keyedRequest := by
  have same := kin.admitted_eq discreet
  unfold askedAt
  rw [← kin.matcher, ← kin.delay_eq discreet, ← kin.request.1]
  split
  · cases admitted : d.admitted <;> cases admitted' : e.admitted <;> simp_all [keyedRequest]
  · rfl

/-- Single evaluators do the same. -/
theorem single_eq (kin : d.Kin e) (fair : d.matcher.Fair) {evaluate evaluate' : SingleEvaluator}
    (single : d.matcher.evaluator = .single evaluate) (single' : e.matcher.evaluator = .single evaluate')
    (subject : Json) {args args' : Option Json} (same : args.map Json.stableKey = args'.map Json.stableKey)
    (count count' : Nat) : evaluate count ⟨subject, args⟩ = evaluate' count' ⟨subject, args'⟩ := by
  rw [← kin.matcher, single] at single'
  obtain rfl := Evaluator.single.inj single'
  have discreet := fair.discreet.evaluator
  rw [single] at discreet
  rw [fair.single evaluate single count count']
  exact discreet count' _ _ ⟨rfl, same⟩

end Definition.Kin

/-! ### Batches of the same requests -/

/-- Two batches of requests of one subject that have the same stable keys, in whatever order; none has a key twice. -/
structure SameBatch (subject : Json) (batch batch' : List Request) : Prop where
  own : ∀ request ∈ batch, request.subject = subject
  own' : ∀ request ∈ batch', request.subject = subject
  nodup : (batch.map fun request => request.args.map Json.stableKey).Nodup
  perm : (batch.map fun request => request.args.map Json.stableKey).Perm
    (batch'.map fun request => request.args.map Json.stableKey)

/-- Lists with the same keys in whatever order: one of them can be put in the order of the other. -/
theorem exists_forall₂_of_perm_map {α β κ : Type} {f : α → κ} {g : β → κ} {l : List α} {m : List β}
    (perm : (l.map f).Perm (m.map g)) : ∃ l' : List α, l'.Perm l ∧ List.Forall₂ (fun a b => f a = g b) l' m := by
  have all : List.Forall₂ (fun (k : κ) (a : α) => f a = k) (l.map f) l := by
    rw [List.forall₂_map_left_iff]
    exact List.forall₂_same.2 fun a _ => rfl
  obtain ⟨l', pairs, same⟩ := List.perm_comp_forall₂ perm.symm all
  exact ⟨l', same, (List.forall₂_map_left_iff.1 pairs).flip⟩

/-- An entry gets one answer. -/
theorem BatchTask.Settles.unique {task : BatchTask} {entry wait wait' : Nat} {value value' : Bool}
    (settles : task.Settles entry wait value) (settles' : task.Settles entry wait' value') :
    wait = wait' ∧ value = value' := by
  have one := settles.2 _ settles'.1
  have other := settles'.2 _ settles.1
  exact ⟨Nat.le_antisymm one.1 other.1, other.2⟩

namespace SameBatch

variable {subject : Json} {batch batch' : List Request}

/-- The one in the order of the other. -/
theorem exists_order (same : SameBatch subject batch batch') :
    ∃ order : List Request, order.Perm batch ∧ List.Forall₂ Request.Alike order batch' := by
  obtain ⟨order, perm, pairs⟩ := exists_forall₂_of_perm_map same.perm
  refine ⟨order, perm, ?_⟩
  obtain ⟨length, keys⟩ := List.forall₂_iff_get.1 pairs
  refine List.forall₂_iff_get.2 ⟨length, fun i lt lt' => ⟨?_, keys i lt lt'⟩⟩
  rw [same.own _ (perm.subset (List.get_mem _ _)), same.own' _ (List.get_mem _ _)]

end SameBatch

namespace BatchEvaluator

/-- For batches of the same requests a fair evaluator takes as long, and answers each request alike. -/
theorem Fair.same {evaluate : BatchEvaluator} (fair : Fair evaluate) (discreet : Discreet evaluate) {subject : Json}
    {batch batch' : List Request} (same : SameBatch subject batch batch') (number number' : Nat) :
    (evaluate number batch).task.delay = (evaluate number' batch').task.delay ∧
    ∀ (entry entry' : Nat) (request request' : Request), batch[entry]? = some request → batch'[entry']? = some request' →
      request.args.map Json.stableKey = request'.args.map Json.stableKey → ∀ wait value wait' value',
        (evaluate number batch).task.Settles entry wait value →
        (evaluate number' batch').task.Settles entry' wait' value' → wait = wait' ∧ value = value' := by
  obtain ⟨answer, wait, total, all⟩ := fair.answers
  obtain ⟨order, perm, alike⟩ := same.exists_order
  have requests : (order : Multiset Request) = batch := Multiset.coe_eq_coe.2 perm
  -- the evaluator cannot tell the second batch from the first one in its order
  have tasks : (evaluate number' order).task.canonical = (evaluate number' batch').task.canonical := by
    rw [← Launch.task_map_canonical, ← Launch.task_map_canonical]
    exact congrArg Launch.task (discreet number' order batch' alike)
  constructor
  · have delays := congrArg BatchTask.delay tasks
    rw [BatchTask.delay_canonical, BatchTask.delay_canonical] at delays
    rw [(all number batch).1, ← delays, (all number' order).1, requests]
  · intro entry entry' request request' here there keys wait₁ value wait₂ value' settles settles'
    obtain ⟨length, pairs⟩ := List.forall₂_iff_get.1 alike
    obtain ⟨lt', request_eq⟩ := List.getElem?_eq_some_iff.1 there
    have lt : entry' < order.length := length ▸ lt'
    -- the request with its key in the first batch is the same
    have own : order[entry'] = request := by
      refine List.inj_on_of_nodup_map same.nodup (perm.subset (List.getElem_mem lt)) (List.mem_of_getElem? here) ?_
      rw [keys, ← request_eq]
      exact (pairs entry' lt lt').2
    have first := (all number batch).2 entry request here
    have second := (all number' order).2 entry' request (by rw [List.getElem?_eq_getElem lt, own])
    have answers := congrArg (BatchTask.answers entry') tasks
    rw [BatchTask.answers_canonical, BatchTask.answers_canonical] at answers
    have settles' : (evaluate number' order).task.Settles entry' wait₂ value' := by
      unfold BatchTask.Settles
      rw [answers]
      exact settles'
    rw [requests] at second
    obtain ⟨rfl, rfl⟩ := settles.unique first
    obtain ⟨rfl, rfl⟩ := settles'.unique second
    exact ⟨rfl, rfl⟩

end BatchEvaluator

/-! ### Ends of one kind -/

/-- The argument that was decided on does not matter to the value. -/
theorem Invocation.toOption_verdict (scope : Scope) (matcher : String) (args : Option Json) (ending : Ending Bool) :
    (verdict scope matcher args ending).toOption = ending.contained.toOption := by
  unfold verdict
  cases ending.contained <;> rfl

namespace Definition

section Inversion

variable {scope : Scope} {begun last : Nat} {batches : List (List Request)} {d : Definition} {outcome : Outcome}

theorem Ends.of_refused (ends : d.Ends scope begun batches outcome last) {error : Error}
    (judged : d.judged scope = .error error) : outcome = .error error ∧ last = begun + d.delay := by
  cases ends with
  | refused refused =>
    rw [judged] at refused
    exact ⟨congrArg _ (Except.error.inj refused).symm, rfl⟩
  | decided right _ _ =>
    rw [judged] at right
    cases right
  | answered right _ _ _ _ _ _ =>
    rw [judged] at right
    cases right

theorem Ends.of_single (ends : d.Ends scope begun batches outcome last) {args : Option Json} {evaluate : SingleEvaluator}
    (judged : d.judged scope = .ok args) (single : d.matcher.evaluator = .single evaluate) : ∃ count,
      outcome = Invocation.verdict scope d.name args ((evaluate count ⟨scope.subject, args⟩).final .panicked) ∧
      last = begun + d.delay + (evaluate count ⟨scope.subject, args⟩).delay := by
  cases ends with
  | refused wrong =>
    rw [judged] at wrong
    cases wrong
  | decided judged' single' count =>
    rw [judged] at judged'
    rw [single] at single'
    obtain rfl := Except.ok.inj judged'
    obtain rfl := Evaluator.single.inj single'
    exact ⟨count, rfl, rfl⟩
  | answered _ batched _ _ _ _ _ =>
    rw [single] at batched
    cases batched

theorem Ends.of_batch (ends : d.Ends scope begun batches outcome last) {args : Option Json} {evaluate : BatchEvaluator}
    (judged : d.judged scope = .ok args) (batched : d.matcher.evaluator = .batch evaluate) :
    ∃ batch ∈ batches, ∃ number entry wait value args', batch[entry]? = some ⟨scope.subject, args'⟩ ∧
      args'.map Json.stableKey = args.map Json.stableKey ∧ (evaluate number batch).task.Settles entry wait value ∧
      outcome = .ok value ∧ last = begun + d.delay + max wait (evaluate number batch).task.delay := by
  cases ends with
  | refused wrong =>
    rw [judged] at wrong
    cases wrong
  | decided _ single _ =>
    rw [batched] at single
    cases single
  | answered judged' batched' boards number listed same settles =>
    rw [judged] at judged'
    rw [batched] at batched'
    obtain rfl := Except.ok.inj judged'
    obtain rfl := Evaluator.batch.inj batched'
    exact ⟨_, boards, number, _, _, _, _, listed, Request.key_inj.1 same, settles, rfl, rfl⟩

end Inversion

/-- Invocations of one kind come to the same value, or both to an error, and take as long. -/
theorem Kin.ends_eq {d e : Definition} (kin : d.Kin e) (fair : d.matcher.Fair) {scope : Scope} {begun last last' : Nat}
    {batches batches' : List (List Request)} {outcome outcome' : Outcome}
    (same : ∀ batch ∈ batches, ∀ batch' ∈ batches', SameBatch scope.subject batch batch')
    (ends : d.Ends scope begun batches outcome last) (ends' : e.Ends scope begun batches' outcome' last') :
    outcome.toOption = outcome'.toOption ∧ last = last' := by
  have delays := kin.delay_eq fair.discreet
  rcases kin.judged_cases fair.discreet scope with ⟨_, _, judged, judged'⟩ | ⟨args, args', judged, judged', keys⟩
  · obtain ⟨rfl, rfl⟩ := ends.of_refused judged
    obtain ⟨rfl, rfl⟩ := ends'.of_refused judged'
    exact ⟨rfl, congrArg _ delays⟩
  · cases evaluator : d.matcher.evaluator with
    | single evaluate =>
      have evaluator' : e.matcher.evaluator = .single evaluate := kin.matcher ▸ evaluator
      obtain ⟨count, rfl, rfl⟩ := ends.of_single judged evaluator
      obtain ⟨count', rfl, rfl⟩ := ends'.of_single judged' evaluator'
      have launches := kin.single_eq fair evaluator evaluator' scope.subject keys count count'
      rw [Invocation.toOption_verdict, Invocation.toOption_verdict, launches, delays]
      exact ⟨rfl, rfl⟩
    | batch evaluate =>
      have evaluator' : e.matcher.evaluator = .batch evaluate := kin.matcher ▸ evaluator
      obtain ⟨batch, boards, number, entry, wait, value, own, here, key, settles, rfl, rfl⟩ :=
        ends.of_batch judged evaluator
      obtain ⟨batch', boards', number', entry', wait', value', own', there, key', settles', rfl, rfl⟩ :=
        ends'.of_batch judged' evaluator'
      have discreet := fair.discreet.evaluator
      rw [evaluator] at discreet
      obtain ⟨takes, answers⟩ :=
        (fair.batch evaluate evaluator).same discreet (same batch boards batch' boards') number number'
      obtain ⟨rfl, rfl⟩ := answers entry entry' _ _ here there (key.trans (keys.trans key'.symm)) wait value wait' value'
        settles settles'
      rw [takes, delays]
      exact ⟨rfl, rfl⟩

end Definition

end Segmentation
