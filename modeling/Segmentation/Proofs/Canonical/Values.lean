import Segmentation.Journal
import Segmentation.Proofs.Launch

/-!
# Canonical arguments

Arguments are compared by their stable keys.  One of all values with a stable key is the canonical one
(`Json.canonical`), and `canonical` puts it in the place of every argument that a definition, a request, an error or an
event has.  So events are the same, arguments compared by their stable keys, if their canonical forms are equal.

User code is discreet if it cannot tell apart arguments with one stable key: the same comes of them, but for arguments
that it hands on (`Matcher.Discreet`).  The canonical form of a matcher hands on canonical arguments only.
-/

namespace Segmentation

/-! ### Values, requests and errors -/

namespace Json

/-- A value with the same stable key, the same one for all of them. -/
noncomputable def canonical (value : Json) : Json :=
  Classical.epsilon fun other => other.stableKey = value.stableKey

@[simp] theorem stableKey_canonical (value : Json) : value.canonical.stableKey = value.stableKey :=
  Classical.epsilon_spec (p := fun other : Json => other.stableKey = value.stableKey) ⟨value, rfl⟩

@[simp] theorem keyChars_canonical (value : Json) : value.canonical.keyChars = value.keyChars :=
  String.ofList_inj.1 value.stableKey_canonical

theorem canonical_eq_iff {a b : Json} : a.canonical = b.canonical ↔ a.stableKey = b.stableKey := by
  constructor
  · intro same
    rw [← stableKey_canonical a, same, stableKey_canonical]
  · intro same
    unfold canonical
    rw [same]

@[simp] theorem canonical_canonical (value : Json) : value.canonical.canonical = value.canonical :=
  canonical_eq_iff.2 value.stableKey_canonical

end Json

/-- Arguments, present or not, have the same canonical form if they have the same stable key. -/
theorem map_canonical_eq_iff {args args' : Option Json} :
    args.map Json.canonical = args'.map Json.canonical ↔ args.map Json.stableKey = args'.map Json.stableKey := by
  cases args <;> cases args' <;> simp [Json.canonical_eq_iff]

/-- The subject is the same, and the argument the canonical one. -/
noncomputable def Request.canonical (request : Request) : Request :=
  { request with args := request.args.map Json.canonical }

@[simp] theorem Request.stableKey_canonical (request : Request) : request.canonical.stableKey = request.stableKey := by
  obtain ⟨subject, args⟩ := request
  cases args <;> simp [Request.stableKey, canonical, Json.ofOption, Json.stableKey, Json.keyChars, Json.memberKeys]

namespace Error

noncomputable def canonical : Error → Error
  | .matcherEvaluation matcher segment subject args cause =>
    .matcherEvaluation matcher segment subject (args.map Json.canonical) cause
  | error => error

variable (error : Error)

@[simp] theorem kind_canonical : error.canonical.kind = error.kind := by cases error <;> rfl

@[simp] theorem message_canonical : error.canonical.message = error.message := by cases error <;> rfl

@[simp] theorem chain_canonical : error.canonical.chain = error.chain := by cases error <;> rfl

@[simp] theorem canonical_canonical : error.canonical.canonical = error.canonical := by
  cases error <;> simp [canonical, Function.comp_def]

end Error

@[simp] theorem SpanEvent.ofError_canonical (span : Nat) (error : Error) :
    SpanEvent.ofError span error.canonical = SpanEvent.ofError span error := by simp [SpanEvent.ofError]

/-- An outcome with its error in canonical form. -/
noncomputable def Outcome.canonical : Outcome → Outcome := Except.mapError Error.canonical

/-- A validation whose value is the canonical one. -/
noncomputable def Checked.canonical : Checked → Checked
  | .ok (.accepted value) => .ok (.accepted value.canonical)
  | checked => checked

/-! ### Tasks -/

def Launch.map {σ τ : Type} (f : σ → τ) : Launch σ → Launch τ
  | .panics payload => .panics payload
  | .starts task => .starts (f task)

def Running.map {ρ σ : Type} (f : ρ → σ) : Running ρ → Running σ
  | .ended result => .ended (f result)
  | .asleep deadline rest => .asleep deadline (rest.map f)

theorem Task.start_map {ρ σ : Type} (f : ρ → σ) (now : Nat) (task : Task ρ) :
    (task.map f).start now = (task.start now).map f := by
  induction task with
  | done result => rfl
  | sleep ticks rest ih =>
    cases ticks with
    | zero => exact ih
    | succ ticks => rfl

theorem Launch.start_map {ρ : Type} (f : ρ → ρ) {ofPanic : Payload → ρ} (same : ∀ payload, f (ofPanic payload) = ofPanic payload)
    (now : Nat) (launch : Launch (Task ρ)) :
    (launch.map (Task.map f)).start now ofPanic = (launch.start now ofPanic).map f := by
  cases launch with
  | panics payload => exact congrArg Running.ended (same payload).symm
  | starts task => exact task.start_map f now

/-- A batch that queues canonical requests only. -/
noncomputable def BatchTask.canonical : BatchTask → BatchTask
  | .done ending => .done ending
  | .sleep ticks rest => .sleep ticks rest.canonical
  | .resolve entry answer rest => .resolve entry answer rest.canonical
  | .resolveLater ticks entry answer rest => .resolveLater ticks entry answer rest.canonical
  | .keep entry rest => .keep entry rest.canonical
  | .loadInto peer request rest => .loadInto peer request.canonical rest.canonical

/-! ### Matchers and their definitions -/

noncomputable def Schema.canonical (schema : Schema) : Schema := fun raw => (schema raw).map (Task.map Checked.canonical)

noncomputable def BatchEvaluator.canonical (evaluate : BatchEvaluator) : BatchEvaluator :=
  fun number requests => (evaluate number requests).map BatchTask.canonical

noncomputable def Evaluator.canonical : Evaluator → Evaluator
  | .single evaluate => .single evaluate
  | .batch evaluate => .batch (BatchEvaluator.canonical evaluate)

noncomputable def Matcher.canonical (matcher : Matcher) : Matcher :=
  ⟨matcher.schema.map Schema.canonical, matcher.evaluator.canonical⟩

/-- The definition with its matcher and its argument in canonical form; which definition it was does not matter. -/
noncomputable def Definition.canonical (definition : Definition) : Definition :=
  ⟨definition.name, definition.args.map Json.canonical, definition.matcher.canonical, 0⟩

@[simp] theorem Definition.name_canonical (definition : Definition) : definition.canonical.name = definition.name := rfl

@[simp] theorem Definition.key_canonical (definition : Definition) : definition.canonical.key = definition.key := by
  obtain ⟨name, args, matcher, serial⟩ := definition
  cases args <;> simp [Definition.key, canonical, Node.leafChars]

/-- The same comes of arguments with one stable key, but for the value that is accepted: its stable key is the same. -/
def Schema.Discreet (schema : Schema) : Prop :=
  ∀ raw raw' : Json, raw.stableKey = raw'.stableKey → schema.canonical raw = schema.canonical raw'

/-- The same request, the argument compared by its stable key. -/
def Request.Alike (request request' : Request) : Prop :=
  request.subject = request'.subject ∧ request.args.map Json.stableKey = request'.args.map Json.stableKey

theorem Request.canonical_eq_iff {request request' : Request} :
    request.canonical = request'.canonical ↔ request.Alike request' := by
  obtain ⟨subject, args⟩ := request
  obtain ⟨subject', args'⟩ := request'
  simp [canonical, Alike, map_canonical_eq_iff]

theorem Request.alike_canonical (request : Request) : request.Alike request.canonical := by
  refine ⟨rfl, ?_⟩
  simp [canonical, Function.comp_def]

/-- A batched evaluator does the same for requests that differ in arguments with one stable key, but for requests that
it queues itself: these differ in such arguments, too. -/
def BatchEvaluator.Discreet (evaluate : BatchEvaluator) : Prop :=
  ∀ number requests requests', List.Forall₂ Request.Alike requests requests' →
    BatchEvaluator.canonical evaluate number requests = BatchEvaluator.canonical evaluate number requests'

def SingleEvaluator.Discreet (evaluate : SingleEvaluator) : Prop :=
  ∀ number request request', Request.Alike request request' → evaluate number request = evaluate number request'

def Evaluator.Discreet : Evaluator → Prop
  | .single evaluate => SingleEvaluator.Discreet evaluate
  | .batch evaluate => BatchEvaluator.Discreet evaluate

/-- The schema and the evaluator cannot tell apart arguments with one stable key. -/
structure Matcher.Discreet (matcher : Matcher) : Prop where
  schema : ∀ schema, matcher.schema = some schema → schema.Discreet
  evaluator : matcher.evaluator.Discreet

theorem BatchEvaluator.Discreet.canonical_eq {evaluate : BatchEvaluator} (discreet : BatchEvaluator.Discreet evaluate)
    (number : Nat) (requests : List Request) :
    BatchEvaluator.canonical evaluate number (requests.map Request.canonical) =
      (evaluate number requests).map BatchTask.canonical := by
  refine (discreet number requests _ ?_).symm
  induction requests with
  | nil => exact .nil
  | cons request requests ih => exact .cons request.alike_canonical ih

theorem Schema.Discreet.canonical_eq {schema : Schema} (discreet : schema.Discreet) (raw : Json) :
    schema.canonical raw.canonical = (schema raw).map (Task.map Checked.canonical) :=
  discreet _ _ raw.stableKey_canonical

/-! ### Expressions -/

namespace Expr

mutual

noncomputable def canonical : Expr → Expr
  | .leaf definition => .leaf definition.canonical
  | .and operands => .and (canonicals operands)
  | .or operands => .or (canonicals operands)
  | .not operand => .not (canonical operand)

noncomputable def canonicals : List Expr → List Expr
  | [] => []
  | e :: es => canonical e :: canonicals es

end

theorem canonicals_eq_map (es : List Expr) : canonicals es = es.map canonical := by
  induction es with
  | nil => rfl
  | cons e es ih => rw [canonicals, ih, List.map_cons]

end Expr

namespace Node

mutual

noncomputable def canonical : Node → Node
  | .leaf name args => .leaf name (args.map Json.canonical)
  | .and children => .and (canonicals children)
  | .or children => .or (canonicals children)
  | .not child => .not (canonical child)

noncomputable def canonicals : List Node → List Node
  | [] => []
  | n :: ns => canonical n :: canonicals ns

end

end Node

namespace Expr

mutual

theorem toNode_canonical : (e : Expr) → e.canonical.toNode = e.toNode.canonical
  | .leaf _ => rfl
  | .and es => by rw [canonical, toNode, toNodes_canonicals es, toNode, Node.canonical]
  | .or es => by rw [canonical, toNode, toNodes_canonicals es, toNode, Node.canonical]
  | .not e => by rw [canonical, toNode, toNode_canonical e, toNode, Node.canonical]

theorem toNodes_canonicals : (es : List Expr) → toNodes (canonicals es) = Node.canonicals (toNodes es)
  | [] => rfl
  | e :: es => by rw [canonicals, toNodes, toNode_canonical e, toNodes_canonicals es, toNodes, Node.canonicals]

end

end Expr

/-! ### The journal -/

/-- An event of which the arguments are the canonical ones. -/
noncomputable def Event.canonical : Event → Event
  | .argumentChecked matcher argument => .argumentChecked matcher argument.canonical
  | .requested matcher args => .requested matcher (args.map Json.canonical)
  | .invoked matcher args => .invoked matcher (args.map Json.canonical)
  | .batchInvoked matcher args => .batchInvoked matcher (args.map (Option.map Json.canonical))
  | .errorReported error segment subject => .errorReported error.canonical segment subject
  | .fallbackAsked errors => .fallbackAsked (errors.map Error.canonical)
  | event => event

namespace Journal

noncomputable def canonical (journal : Journal) : Journal :=
  { journal with entries := journal.entries.map fun entry => (entry.1, entry.2.canonical) }

variable (journal : Journal)

@[simp] theorem now_canonical : journal.canonical.now = journal.now := rfl

@[simp] theorem alarms_canonical : journal.canonical.alarms = journal.alarms := rfl

theorem events_canonical : journal.canonical.events = journal.events.map Event.canonical := by
  simp [events, canonical, Function.comp_def]

/-- What is counted is told by what kind of event it is. -/
theorem countP_canonical {counts : Event → Bool} (same : ∀ event, counts event.canonical = counts event) :
    journal.canonical.events.countP counts = journal.events.countP counts := by
  rw [events_canonical, List.countP_map]
  exact List.countP_congr fun event _ => by rw [Function.comp_apply, same]

@[simp] theorem invocations_canonical (matcher : String) :
    journal.canonical.invocations matcher = journal.invocations matcher :=
  journal.countP_canonical fun event => by cases event <;> rfl

@[simp] theorem spanCount_canonical : journal.canonical.spanCount = journal.spanCount :=
  journal.countP_canonical fun event => by cases event <;> rfl

@[simp] theorem contextCount_canonical : journal.canonical.contextCount = journal.contextCount :=
  journal.countP_canonical fun event => by cases event <;> rfl

theorem recordAll_canonical (events : List Event) :
    (journal.recordAll events).canonical = journal.canonical.recordAll (events.map Event.canonical) := by
  simp [recordAll, canonical]

theorem record_canonical (event : Event) :
    (journal.record event).canonical = journal.canonical.record event.canonical :=
  journal.recordAll_canonical [event]

/-- Events without arguments are written as they are. -/
theorem recordAll_plain {events : List Event} (plain : ∀ event ∈ events, event.canonical = event) :
    (journal.recordAll events).canonical = journal.canonical.recordAll events := by
  rw [recordAll_canonical, List.map_congr_left plain, List.map_id']

theorem record_plain {event : Event} (plain : event.canonical = event) :
    (journal.record event).canonical = journal.canonical.record event := by
  rw [record_canonical, plain]

@[simp] theorem notice_canonical (notice : Notice) :
    (journal.notice notice).canonical = journal.canonical.notice notice := journal.record_plain rfl

@[simp] theorem moveTo_canonical (now : Nat) : (journal.moveTo now).canonical = journal.canonical.moveTo now := rfl

@[simp] theorem countAlarm_canonical : journal.countAlarm.canonical = journal.canonical.countAlarm := rfl

end Journal

end Segmentation
