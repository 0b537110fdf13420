import Segmentation.Expr
import Segmentation.Telemetry

/-!
# The engine

An `Engine` knows a schema for subjects, matchers and named segments.  It admits a subject by validating it, and
evaluates segments for admitted subjects.  Only the definitions of its matchers, kept in the registry, outlive an
evaluation.
-/

namespace Segmentation

/-- Capacity of the memo of each matcher, unless another one is asked for. -/
def defaultMemoCapacity : Nat := 1024

/-- What an engine may be given; without a logger errors go to the subscriber. -/
structure Options where
  logger : Option Logger
  tracer : Tracer
  observer : Option ErrorObserver
  memoCapacity : Nat

namespace Options

def default : Options := ⟨none, .disabled, none, defaultMemoCapacity⟩

/-- The text of options in messages. -/
def display (options : Options) : String :=
  let flag (b : Bool) : String := if b then "true" else "false"
  "EngineOptions \x7b logger: " ++ flag options.logger.isSome ++ ", tracer: " ++ options.tracer.kind.name ++
    ", on_error: " ++ flag options.observer.isSome ++ ", memo_capacity: " ++ toString options.memoCapacity ++ " \x7d"

/-- The readers of the journal of an engine with these options. -/
def telemetry (options : Options) (level : Option Level) : Telemetry :=
  .start level options.tracer (options.logger.getD .reporting) options.observer

end Options

/-- How a segment puts its expression together for a subject. -/
abbrev SegmentDefinition := Json → Recipe

/-- The name of every segment that is not registered. -/
def adHocSegment : String := "ad-hoc"

/-- A segment to evaluate. -/
inductive Target where
  | named (name : String)
  | adHoc (definition : SegmentDefinition)

namespace Target

def name : Target → String
  | .named name => name
  | .adHoc _ => adHocSegment

/-- The text of a target in messages. -/
def display : Target → String
  | .named name => "Named(" ++ String.ofList (Text.displayed name.toList) ++ ")"
  | .adHoc _ => "AdHoc"

end Target

structure Engine where
  schema : Schema
  segments : Keyed SegmentDefinition
  registry : Registry
  options : Options

namespace Engine

/-- The matchers of one group, up to the first draft that is no matcher. -/
def buildGroup : List (String × Matcher.Draft) → Journal → Except Error (List (String × Matcher)) × Journal
  | [], journal => (.ok [], journal)
  | (name, draft) :: rest, journal =>
    match draft.build with
    | .error error => (.error error, journal)
    | .ok matcher =>
      let journal := if draft.isAmbiguous then journal.notice .ambiguousMatcher else journal
      match buildGroup rest journal with
      | (.ok matchers, journal) => (.ok ((name, matcher) :: matchers), journal)
      | (.error error, journal) => (.error error, journal)

/-- The matchers of all groups; every group is built, and the first error counts. -/
def buildGroups : List (List (String × Matcher.Draft)) → Journal → Except Error (List (String × Matcher)) × Journal
  | [], journal => (.ok [], journal)
  | group :: groups, journal =>
    let (first, journal) := buildGroup group journal
    let (others, journal) := buildGroups groups journal
    (do .ok ((← first) ++ (← others)), journal)

/-- Notes the matchers of a registry. -/
def noteMatchers (registry : Registry) (journal : Journal) : Journal :=
  registry.handles.foldl (fun journal (name, handle) => journal.notice (.matcherCompiled name handle.matcher.shape))
    journal

/-- Registers matchers and notes them.  It panics at the first one if there cannot be room for its memo. -/
def compile (matchers : List (String × Matcher)) (memoCapacity : Nat) (journal : Journal) :
    Except BuildError Registry × Journal :=
  let registry := Registry.compile matchers memoCapacity
  if Memo.isReservable memoCapacity then (.ok registry, noteMatchers registry journal)
  else
    match registry.handles with
    | [] => (.ok registry, journal)
    | (name, handle) :: _ =>
      (.error (.panicked (.text Memo.overflowMessage)), journal.notice (.matcherCompiled name handle.matcher.shape))

/-- An engine for the given groups of matchers; of two matchers or segments with one name the last one counts. -/
def build (schema : Schema) (options : Options) (groups : List (List (String × Matcher.Draft)))
    (segments : List (String × SegmentDefinition)) (journal : Journal) : Except BuildError Engine × Journal :=
  match buildGroups groups journal with
  | (.error error, journal) => (.error (.returned error), journal)
  | (.ok matchers, journal) =>
    match compile matchers options.memoCapacity journal with
    | (.error error, journal) => (.error error, journal)
    | (.ok registry, journal) =>
      let segments := Keyed.ofList segments
      (.ok ⟨schema, segments, registry, options⟩,
        journal.notice (.engineBuilt registry.names.length segments.length options.tracer.kind))

/-- The names of the segments, in order. -/
def segmentNames (engine : Engine) : List String := engine.segments.keys

/-- Texts in brackets and quotes. -/
def displayNames (names : List String) : String :=
  String.ofList ('[' :: Text.joined [',', ' '] (names.map fun name => Text.displayed name.toList) ++ [']'])

/-- The text of an engine in messages. -/
def display (engine : Engine) : String :=
  "SegmentEngine \x7b matchers: " ++ displayNames engine.registry.names ++ ", segments: " ++
    displayNames engine.segmentNames ++ " \x7d"

/-- The text of an admitted subject in messages. -/
def displaySubject (subject : Json) : String :=
  "SubjectContext \x7b subject: Subject(" ++ subject.display ++ ") \x7d"

/-- What a validation means for a subject: the value to go on with, or the issues. -/
def judge : Checked → Except (List Issue) Json
  | .ok (.accepted value) => .ok value
  | .ok .empty => .error [⟨"validator reported success without a value", []⟩]
  | .ok (.rejected issues) => .error issues
  | .error payload => .error [⟨"validator panicked: " ++ payload.message, []⟩]

/-- What is noted of a validation. -/
def noteChecked (journal : Journal) : Checked → Journal
  | .ok (.rejected issues) => journal.notice (.subjectRejected issues.length)
  | _ => journal

/-- Validates a subject.  A panic in the call of the schema is not contained. -/
def receive (engine : Engine) (input : Json) : Launch (Task Checked) := engine.schema input

/-- The expression of a target for a subject. -/
def buildExpr (segments : Keyed SegmentDefinition) (registry : Registry) (subject : Json) (target : Target) :
    Except Error Expr × Registry :=
  let build (definition : SegmentDefinition) : Except Error Expr × Registry :=
    match (definition subject).build registry with
    | (.ok expr, registry) => (.ok expr, registry)
    | (.error (.returned error), registry) => (.error error, registry)
    | (.error (.panicked payload), registry) =>
      (.error (.segmentDefinition target.name (.ofPanic payload)), registry)
  match target with
  | .named name =>
    match segments.get? name with
    | some definition => build definition
    | none => (.error (.unknownSegment name), registry)
  | .adHoc definition => build definition

/-- The description of the expression of a target, which is not evaluated. -/
def describe (engine : Engine) (subject : Json) (target : Target) : Except Error Node × Engine :=
  let (expr, registry) := buildExpr engine.segments engine.registry subject target
  (expr.map (·.toNode), { engine with registry })

end Engine

end Segmentation
