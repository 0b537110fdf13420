import Mathlib.Data.Option.Basic
import Segmentation.Proofs.Past.Answer

/-!
# Calls do not depend on earlier ones

Of earlier calls an engine keeps the definitions in the memos of its matchers only.  A definition stands for all
arguments with its stable key, and its evaluator is passed the argument for which it was made.  So a call after some
history is the same call on a new engine, but for arguments that are replaced by those that a memo holds for them
(`Service.matches_after_history`).
-/

namespace Segmentation

/-! ### Registries of new engines -/

namespace Registry

/-- All matchers are pure. -/
def Pure (registry : Registry) : Prop := ∀ name matcher, registry.matcher? name = some matcher → matcher.Pure

theorem get?_compile {matchers : List (String × Matcher)} {memoCapacity : Nat} {name : String} {handle : Handle}
    (known : (compile matchers memoCapacity).get? name = some handle) :
    ∃ matcher, (name, matcher) ∈ matchers ∧ handle = ⟨name, matcher, none, .empty memoCapacity⟩ := by
  have mapped := Keyed.get?_map (Keyed.ofList matchers)
    (fun name matcher => (⟨name, matcher, none, .empty memoCapacity⟩ : Handle)) name
  obtain ⟨matcher, found, rfl⟩ := Option.map_eq_some_iff.1 (mapped.symm.trans known)
  obtain ⟨before, behind, eq, -⟩ := List.lookup_eq_some_iff.1 found
  exact ⟨matcher, Keyed.mem_ofList (by simp [eq]), rfl⟩

theorem sound_compile (matchers : List (String × Matcher)) (memoCapacity : Nat) :
    (compile matchers memoCapacity).Sound := by
  intro name handle known
  obtain ⟨matcher, -, rfl⟩ := get?_compile known
  exact ⟨rfl, nofun, nofun⟩

theorem forgets_compile (matchers : List (String × Matcher)) (memoCapacity : Nat) :
    (compile matchers memoCapacity).Forgets := by
  intro name args
  rw [held?]
  cases known : (compile matchers memoCapacity).get? name with
  | none => rfl
  | some handle =>
    obtain ⟨matcher, -, rfl⟩ := get?_compile known
    rfl

/-- The definitions that are handed out are of registered matchers. -/
theorem Served.registered {first last : Registry} {bindings : List (String × Option Json)} {ds : List Definition}
    (served : Served first bindings ds last) : ∀ d ∈ ds, ∃ name, first.matcher? name = some d.matcher := by
  induction served with
  | nil => exact nofun
  | cons serves _ later rest ih =>
    intro d mem
    rcases List.mem_cons.1 mem with rfl | mem
    · exact ⟨_, serves.matcher_eq⟩
    · obtain ⟨name, known⟩ := ih d mem
      rw [later.matcher?_eq] at known
      exact ⟨name, known⟩

end Registry

/-- A draft with pure evaluators. -/
def Matcher.Draft.Pure (draft : Matcher.Draft) : Prop :=
  (∀ evaluate, draft.single = some evaluate → IgnoresCount evaluate) ∧
    ∀ evaluate, draft.batch = some evaluate → IgnoresCount evaluate

theorem Matcher.Draft.pure_build {draft : Matcher.Draft} (pure : draft.Pure) {matcher : Matcher}
    (built : draft.build = .ok matcher) : matcher.Pure := by
  unfold build at built
  split at built
  · obtain rfl := Except.ok.inj built
    exact pure.2 _ ‹_›
  · obtain rfl := Except.ok.inj built
    exact pure.1 _ ‹_›
  · cases built

namespace Engine

/-- The matchers of a group are built from its drafts. -/
theorem mem_buildGroup {group : List (String × Matcher.Draft)} {journal : Journal} {matchers : List (String × Matcher)}
    (built : (buildGroup group journal).1 = .ok matchers) {name : String} {matcher : Matcher}
    (mem : (name, matcher) ∈ matchers) : ∃ draft, (name, draft) ∈ group ∧ draft.build = .ok matcher := by
  induction group generalizing journal matchers with
  | nil =>
    obtain rfl := Except.ok.inj built
    cases mem
  | cons entry rest ih =>
    simp only [buildGroup] at built
    split at built
    · cases built
    · rename_i first built_first
      split at built
      · rename_i others _ built_rest
        obtain rfl := Except.ok.inj built
        rcases List.mem_cons.1 mem with same | mem
        · obtain ⟨rfl, rfl⟩ := Prod.mk.inj same
          exact ⟨entry.2, List.mem_cons_self, built_first⟩
        · obtain ⟨draft, listed, built_draft⟩ := ih (congrArg (·.1) built_rest) mem
          exact ⟨draft, List.mem_cons_of_mem _ listed, built_draft⟩
      · cases built

theorem mem_buildGroups {groups : List (List (String × Matcher.Draft))} {journal : Journal}
    {matchers : List (String × Matcher)} (built : (buildGroups groups journal).1 = .ok matchers) {name : String}
    {matcher : Matcher} (mem : (name, matcher) ∈ matchers) :
    ∃ group ∈ groups, ∃ draft, (name, draft) ∈ group ∧ draft.build = .ok matcher := by
  induction groups generalizing journal matchers with
  | nil =>
    obtain rfl := Except.ok.inj built
    cases mem
  | cons group groups ih =>
    simp only [buildGroups] at built
    cases first : (buildGroup group journal).1 with
    | error error => simp [first, bind, Except.bind] at built
    | ok matchers_first =>
      cases others : (buildGroups groups (buildGroup group journal).2).1 with
      | error error => simp [first, others, bind, Except.bind] at built
      | ok matchers_others =>
        obtain rfl : matchers_first ++ matchers_others = matchers := by
          simpa [first, others, bind, Except.bind] using built
        rcases List.mem_append.1 mem with mem | mem
        · exact ⟨group, List.mem_cons_self, mem_buildGroup first mem⟩
        · obtain ⟨other, listed, drafted⟩ := ih others mem
          exact ⟨other, List.mem_cons_of_mem _ listed, drafted⟩

/-- The registry of an engine that was just built knows the matchers of all groups. -/
theorem registry_of_build {schema : Schema} {options : Options} {groups : List (List (String × Matcher.Draft))}
    {segments : List (String × SegmentDefinition)} {journal : Journal} {engine : Engine}
    (built : (build schema options groups segments journal).1 = .ok engine) :
    ∃ matchers, (buildGroups groups journal).1 = .ok matchers ∧
      engine.registry = .compile matchers options.memoCapacity := by
  unfold build at built
  split at built
  · cases built
  · rename_i matchers _ built_matchers
    refine ⟨matchers, congrArg (·.1) built_matchers, ?_⟩
    split at built
    · cases built
    · rename_i registry _ compiled
      obtain rfl := Except.ok.inj built
      unfold compile at compiled
      simp only at compiled
      split at compiled
      · exact (Except.ok.inj (congrArg (·.1) compiled)).symm
      · split at compiled
        · exact (Except.ok.inj (congrArg (·.1) compiled)).symm
        · cases congrArg (·.1) compiled

/-- The matchers of an engine that was just built are built from the drafts. -/
theorem drafted_of_build {schema : Schema} {options : Options} {groups : List (List (String × Matcher.Draft))}
    {segments : List (String × SegmentDefinition)} {journal : Journal} {engine : Engine}
    (built : (build schema options groups segments journal).1 = .ok engine) {name : String} {matcher : Matcher}
    (known : engine.registry.matcher? name = some matcher) :
    ∃ group ∈ groups, ∃ draft, (name, draft) ∈ group ∧ draft.build = .ok matcher := by
  obtain ⟨matchers, built_matchers, registry_eq⟩ := registry_of_build built
  rw [registry_eq] at known
  obtain ⟨handle, found, rfl⟩ := Option.map_eq_some_iff.1 known
  obtain ⟨matcher, mem, rfl⟩ := Registry.get?_compile found
  exact mem_buildGroups built_matchers mem

/-- The registry of an engine that was just built: sound, without memories, and of pure matchers if the drafts are
pure. -/
theorem build_spec {schema : Schema} {options : Options} {groups : List (List (String × Matcher.Draft))}
    {segments : List (String × SegmentDefinition)} {journal : Journal} {engine : Engine}
    (built : (build schema options groups segments journal).1 = .ok engine)
    (pure : ∀ group ∈ groups, ∀ entry ∈ group, entry.2.Pure) :
    engine.registry.Sound ∧ engine.registry.Forgets ∧ engine.registry.Pure := by
  obtain ⟨matchers, -, registry_eq⟩ := registry_of_build built
  refine ⟨registry_eq ▸ Registry.sound_compile _ _, registry_eq ▸ Registry.forgets_compile _ _, ?_⟩
  intro name matcher known
  obtain ⟨group, listed, draft, mem, built_draft⟩ := drafted_of_build built known
  exact Matcher.Draft.pure_build (pure group listed _ mem) built_draft

end Engine

/-! ### Building the expression of a target -/

/-- How the expression of a target is put together for a subject, unless the segment is unknown. -/
def Target.recipe? (target : Target) (segments : Keyed SegmentDefinition) (subject : Json) : Option Recipe :=
  match target with
  | .named name => (segments.get? name).map fun definition => definition subject
  | .adHoc definition => some (definition subject)

namespace Engine

open Registry (Later)

/-- What is said of a segment whose expression was not built. -/
def blame (segment : String) : BuildError → Error
  | .returned error => error
  | .panicked payload => .segmentDefinition segment (.ofPanic payload)

variable (segments : Keyed SegmentDefinition) {registry : Registry} (subject : Json) (target : Target)

theorem buildExpr_eq (registry : Registry) :
    buildExpr segments registry subject target =
      match target.recipe? segments subject with
      | none => (.error (.unknownSegment target.name), registry)
      | some recipe => ((recipe.build registry).1.mapError (blame target.name), (recipe.build registry).2) := by
  cases target with
  | adHoc definition =>
    simp only [buildExpr, Target.recipe?]
    generalize (definition subject).build registry = r
    obtain ⟨(_ | _) | expr, later⟩ := r <;> rfl
  | named name =>
    cases known : segments.get? name with
    | none =>
      simp only [buildExpr, Target.recipe?, known]
      rfl
    | some definition =>
      simp only [buildExpr, Target.recipe?, known, Option.map_some]
      generalize (definition subject).build registry = r
      obtain ⟨(_ | _) | expr, later⟩ := r <;> rfl

theorem buildExpr_later (sound : registry.Sound) :
    ∃ new, Later registry new (buildExpr segments registry subject target).2 := by
  rw [buildExpr_eq]
  cases target.recipe? segments subject with
  | none => exact ⟨[], .refl sound⟩
  | some recipe => exact (recipe.build_spec registry sound).1

/-- The leaves of an expression that was built are of registered matchers. -/
theorem registered_buildExpr (sound : registry.Sound) {expr : Expr}
    (built : (buildExpr segments registry subject target).1 = .ok expr) :
    ∀ d ∈ expr.leaves, ∃ name, registry.matcher? name = some d.matcher := by
  rw [buildExpr_eq] at built
  cases known : target.recipe? segments subject with
  | none => simp [known] at built
  | some recipe =>
    simp only [known] at built
    obtain ⟨_, served⟩ := recipe.build_spec registry sound
    generalize recipe.build registry = r at built served
    obtain ⟨_ | e, later⟩ := r
    · cases built
    · obtain rfl := Except.ok.inj built
      exact (served e rfl).registered

end Engine

/-! ### Histories -/

/-- What may be done with a service: a subject is received, the expression of a target is described, or calls run at
once, for some time. -/
inductive Usage where
  | receive (input : Json) (moves : Nat)
  | describe (subject : Json) (target : Target)
  | ask (calls : List (Json × Target × Option Fallback)) (limit : Option Nat) (moves : Nat)

namespace Service

def use (service : Service) : Usage → Service
  | .receive input moves => (service.receive moves input).2
  | .describe subject target => { service with engine := (service.engine.describe subject target).2 }
  | .ask calls limit moves =>
    (service.ask moves limit (calls.map fun (subject, target, fallback) => .start subject target fallback)).2.2

/-- The service after a history, the first usage first. -/
def useAll (service : Service) (history : List Usage) : Service := history.foldl use service

/-- The service has the segments and the matchers of an engine, and a sound registry. -/
structure StemsFrom (service : Service) (engine : Engine) : Prop where
  segments_eq : service.engine.segments = engine.segments
  sound : service.engine.registry.Sound
  matcher?_eq : service.engine.registry.matcher? = engine.registry.matcher?

/-- A sound registry of the given matchers. -/
def Holds (matchers : String → Option Matcher) (registry : Registry) : Prop :=
  registry.Sound ∧ registry.matcher? = matchers

theorem Holds.buildExpr {matchers : String → Option Matcher} {registry : Registry} (holds : Holds matchers registry)
    (segments : Keyed SegmentDefinition) (subject : Json) (target : Target) :
    Holds matchers (Engine.buildExpr segments registry subject target).2 := by
  obtain ⟨_, later⟩ := Engine.buildExpr_later segments subject target holds.1
  exact ⟨later.sound, later.matcher?_eq.trans holds.2⟩

theorem Holds.poll {matchers : String → Option Matcher} {registry : Registry} (holds : Holds matchers registry)
    (call : Call) (segments : Keyed SegmentDefinition) (journal : Journal) :
    Holds matchers (call.poll segments registry journal).2.1 := by
  have built := holds.buildExpr segments call.subject call.target
  unfold Call.poll
  split
  · unfold Call.begins
    generalize Engine.buildExpr segments registry call.subject call.target = r at built
    obtain ⟨_ | expr, later⟩ := r <;> exact built
  · exact holds
  · exact holds
  · simp only
    split <;> exact holds
  · exact holds

/-- A party keeps its registry sound and knows the same matchers. -/
theorem Holds.run {matchers : String → Option Matcher} {b : Beside Party} (holds : Holds matchers b.machine.registry)
    (limit : Option Nat) (moves : Nat) : Holds matchers (Machine.run limit moves b).2.machine.registry := by
  have pollCall (party : Party) (index : Nat) (holds : Holds matchers party.registry) :
      Holds matchers (party.pollCall index).registry := by
    unfold Party.pollCall
    split
    · exact holds
    · split
      · exact holds
      · exact holds.poll _ _ _
  have pollAll (turns : List Nat) (party : Party) (holds : Holds matchers party.registry) :
      Holds matchers (turns.foldl Party.pollCall party).registry := by
    induction turns generalizing party with
    | nil => exact holds
    | cons index turns ih => exact ih _ (pollCall party index holds)
  let kept (b : Beside Party) : Prop := Holds matchers b.machine.registry
  have ran : kept (Machine.run limit moves b).2 :=
    Machine.run_keeps (fun b holds => pollAll _ b.machine holds) (fun _ _ holds => holds) limit moves holds
  exact ran

theorem StemsFrom.use {service : Service} {engine : Engine} (stems : service.StemsFrom engine) (usage : Usage) :
    (service.use usage).StemsFrom engine := by
  have holds : Holds engine.registry.matcher? service.engine.registry := ⟨stems.sound, stems.matcher?_eq⟩
  cases usage with
  | receive input moves =>
    have same : (service.receive moves input).2.engine = service.engine := by
      unfold receive
      split
      · rfl
      · simp only
        split <;> rfl
    have same : (service.use (.receive input moves)).engine = service.engine := same
    exact ⟨same ▸ stems.segments_eq, same ▸ stems.sound, same ▸ stems.matcher?_eq⟩
  | describe subject target =>
    have kept := holds.buildExpr service.engine.segments subject target
    exact ⟨stems.segments_eq, kept.1, kept.2⟩
  | ask calls limit moves =>
    let party := service.engine.party service.journal
      (calls.map fun (subject, target, fallback) => .start subject target fallback)
    have kept := Holds.run (b := ⟨party, service.strays⟩) holds limit moves
    exact ⟨stems.segments_eq, kept.1, kept.2⟩

theorem StemsFrom.useAll {service : Service} {engine : Engine} (stems : service.StemsFrom engine)
    (history : List Usage) : (service.useAll history).StemsFrom engine := by
  induction history generalizing service with
  | nil => exact stems
  | cons usage history ih => exact ih (stems.use usage)

end Service

/-! ### The same call on a new engine -/

/-- The target with other arguments in its definition. -/
def Target.recast (f : String → Json → Json) : Target → Target
  | .named name => .named name
  | .adHoc definition => .adHoc fun subject => (definition subject).recast f

/-- The service with other arguments in the definitions of its segments. -/
def Service.recast (f : String → Json → Json) (service : Service) : Service :=
  { service with
    engine.segments := service.engine.segments.map fun (name, definition) =>
      (name, fun subject => (definition subject).recast f) }

theorem Target.recipe?_recast (f : String → Json → Json) (service : Service) (subject : Json) (target : Target) :
    (target.recast f).recipe? (service.recast f).engine.segments subject =
      (target.recipe? service.engine.segments subject).map (·.recast f) := by
  cases target with
  | adHoc definition => rfl
  | named name =>
    have mapped := Keyed.get?_map service.engine.segments
      (fun _ definition => fun subject => (definition subject).recast f) name
    simp only [recipe?, recast, Service.recast]
    rw [mapped]
    simp [Function.comp_def]

namespace Service

open Recipe (LaunchesAlike)

/-- Services whose sound registries, of pure matchers, build a recipe alike answer alike. -/
theorem matches_iff_of_recipes {service other : Service} {subject : Json} {target target' : Target}
    (name : target.name = target'.name) (sound : service.engine.registry.Sound) (sound' : other.engine.registry.Sound)
    (pure : service.engine.registry.Pure) (pure' : other.engine.registry.Pure) {recipe recipe' : Option Recipe}
    (known : target.recipe? service.engine.segments subject = recipe)
    (known' : target'.recipe? other.engine.segments subject = recipe')
    (both : Option.Rel (fun r r' : Recipe =>
      BothGive LaunchesAlike (r.build service.engine.registry).1 (r'.build other.engine.registry).1) recipe recipe')
    (value : Bool) (passed : List (String × List (Option Json))) :
    service.Matches subject target value passed ↔ other.Matches subject target' value passed := by
  have pure_leaves {registry : Registry} (sound : registry.Sound) (pure : registry.Pure)
      {segments : Keyed SegmentDefinition} {target : Target} {expr : Expr}
      (built : (Engine.buildExpr segments registry subject target).1 = .ok expr) :
      ∀ d ∈ expr.leaves, d.matcher.Pure := by
    intro d mem
    obtain ⟨name, known⟩ := Engine.registered_buildExpr _ _ _ sound built d mem
    exact pure name d.matcher known
  refine matches_iff_of_alike name ?_ (fun _ => pure_leaves sound pure) (fun _ => pure_leaves sound' pure') value passed
  rw [Engine.buildExpr_eq, Engine.buildExpr_eq, known, known']
  cases both with
  | none => trivial
  | @some r r' both =>
    simp only
    generalize r.build service.engine.registry = a at both
    generalize r'.build other.engine.registry = b at both
    obtain ⟨_ | e, _⟩ := a <;> obtain ⟨_ | e', _⟩ := b <;> exact both

/-- A call after any history answers like the same call on a new engine, and passes the same arguments, but for
arguments that are replaced by those that the memos hold for them.  Nothing is replaced if the memos hold nothing
else for the arguments that the call binds. -/
theorem matches_after_history {schema : Schema} {options : Options} {groups : List (List (String × Matcher.Draft))}
    {segments : List (String × SegmentDefinition)} {noted : Journal} {engine : Engine}
    (built : (Engine.build schema options groups segments noted).1 = .ok engine)
    (pure : ∀ group ∈ groups, ∀ entry ∈ group, entry.2.Pure)
    (journal journal' : Journal) (strays strays' : List Nat) (history : List Usage) (subject : Json)
    (target : Target) :
    let aged := useAll ⟨engine, journal, strays⟩ history
    let fresh : Service := ⟨engine, journal', strays'⟩
    (∃ f : String → Json → Json,
      (∀ name args, (f name args).stableKey = args.stableKey ∧
        (f name args = args ∨ aged.engine.registry.held? name args = some (f name args))) ∧
      ∀ value passed, aged.Matches subject target value passed ↔
        (fresh.recast f).Matches subject (target.recast f) value passed) ∧
    ((∀ recipe name args v, target.recipe? engine.segments subject = some recipe →
        (name, some args) ∈ recipe.bindings → aged.engine.registry.held? name args = some v → v = args) →
      ∀ value passed, aged.Matches subject target value passed ↔ fresh.Matches subject target value passed) := by
  intro aged fresh
  obtain ⟨sound, forgets, pure⟩ := Engine.build_spec built pure
  have stems : aged.StemsFrom engine := StemsFrom.useAll ⟨rfl, sound, rfl⟩ history
  have pure_aged : aged.engine.registry.Pure := fun name matcher known =>
    pure name matcher (stems.matcher?_eq ▸ known)
  -- The aged registry knows the same matchers, so the calls build expressions that differ in remembered arguments.
  have segments_eq (target : Target) :
      target.recipe? aged.engine.segments subject = target.recipe? engine.segments subject := by
    rw [stems.segments_eq]
  refine ⟨?_, fun agree => ?_⟩
  · have name_eq (f : String → Json → Json) : target.name = (target.recast f).name := by cases target <;> rfl
    cases known : target.recipe? engine.segments subject with
    | none =>
      refine ⟨fun _ args => args, fun _ _ => ⟨rfl, .inl rfl⟩, ?_⟩
      exact matches_iff_of_recipes (name_eq _) stems.sound sound pure_aged pure ((segments_eq target).trans known)
        ((Target.recipe?_recast _ fresh subject target).trans (congrArg _ known)) .none
    | some recipe =>
      obtain ⟨f, chosen, both⟩ := Recipe.build_recast stems.sound sound stems.matcher?_eq forgets recipe
      refine ⟨f, chosen, ?_⟩
      exact matches_iff_of_recipes (name_eq f) stems.sound sound pure_aged pure ((segments_eq target).trans known)
        ((Target.recipe?_recast f fresh subject target).trans (congrArg _ known)) (.some both)
  · cases known : target.recipe? engine.segments subject with
    | none =>
      exact matches_iff_of_recipes rfl stems.sound sound pure_aged pure ((segments_eq target).trans known) known .none
    | some recipe =>
      have both := Recipe.build_same stems.sound sound stems.matcher?_eq forgets recipe fun name args v mem =>
        agree recipe name args v known mem
      exact matches_iff_of_recipes rfl stems.sound sound pure_aged pure ((segments_eq target).trans known) known
        (.some both)

/-! A matcher that knows integers from other numbers, and segments that ask it about 1 and about 1.0. -/

/-- The binary64 number 1.0. -/
def oneAsFloat : Double := ⟨false, Nat.pow 2 52, -52, by decide⟩

def acceptAnything : Schema := fun value => .starts (.done (.ok (.accepted value)))

def isInteger : SingleEvaluator := fun _ request =>
  .starts (.done (.value (match request.args with
    | some (.int _) => true
    | _ => false)))

def integerSegments : List (String × SegmentDefinition) :=
  [("float", fun _ => .matcherWith "integer" (.float oneAsFloat)),
    ("whole", fun _ => .matcherWith "integer" (.int 1))]

def integerMatchers : List (List (String × Matcher.Draft)) :=
  [[("integer", ⟨some acceptAnything, some isInteger, none⟩)]]

/-- A new engine with these matchers and segments. -/
def integerEngine : Engine :=
  ⟨acceptAnything, Keyed.ofList integerSegments,
    .compile [("integer", ⟨some acceptAnything, .single isInteger⟩)] defaultMemoCapacity, .default⟩

/-- After calls about 1 and then 1.0 a call about 1 is what it is on a new engine: the memo holds 1 for it. -/
theorem integer_call_after_history :
    let history : List Usage :=
      [.ask [(.null, .named "whole", none)] none 9, .ask [(.null, .named "float", none)] none 9]
    (useAll ⟨integerEngine, .empty, []⟩ history).Matches .null (.named "whole") true
      [("integer", [some (.int 1)])] := by
  intro history
  have built : (Engine.build acceptAnything .default integerMatchers integerSegments .empty).1 = .ok integerEngine :=
    rfl
  have pure : ∀ group ∈ integerMatchers, ∀ entry ∈ group, entry.2.Pure := by
    simp only [integerMatchers, List.mem_singleton, forall_eq]
    exact ⟨fun evaluate eq _ _ _ => by rw [← Option.some.inj eq]; rfl, nofun⟩
  have fresh : Matches ⟨integerEngine, .empty, []⟩ .null (.named "whole") true [("integer", [some (.int 1)])] :=
    .of_ask 9 (by decide) (by decide) rfl
  have held_is_bound : ∀ recipe name args v,
      Target.recipe? (.named "whole") integerEngine.segments .null = some recipe →
      (name, some args) ∈ recipe.bindings →
      (useAll ⟨integerEngine, .empty, []⟩ history).engine.registry.held? name args = some v → v = args := by
    intro recipe name args v known mem recalled
    obtain rfl : Recipe.matcherWith "integer" (.int 1) = recipe := Option.some.inj known
    obtain ⟨rfl, args_eq⟩ := Prod.mk.inj (List.mem_singleton.1 mem)
    obtain rfl := Option.some.inj args_eq
    exact (Option.some.inj recalled).symm
  have same := (matches_after_history built pure .empty .empty [] [] history .null (.named "whole")).2 held_is_bound
  exact (same true _).2 fresh

/-- After a call about 1.0 the memo holds it for 1, too: a call about 1 passes 1.0 and is answered with false. -/
theorem float_held_for_integer :
    let fresh : Service := ⟨integerEngine, .empty, []⟩
    let aged := useAll ⟨integerEngine, .empty, []⟩ [.ask [(.null, .named "float", none)] none 9]
    fresh.Matches .null (.named "whole") true [("integer", [some (.int 1)])] ∧
      aged.Matches .null (.named "whole") false [("integer", [some (.float oneAsFloat)])] ∧
      ¬ aged.Matches .null (.named "whole") true [("integer", [some (.int 1)])] := by
  have bound : Matches ⟨integerEngine, .empty, []⟩ .null (.named "whole") true [("integer", [some (.int 1)])] :=
    .of_ask 9 (by decide) (by decide) rfl
  have held : Matches (useAll ⟨integerEngine, .empty, []⟩ [.ask [(.null, .named "float", none)] none 9]) .null
      (.named "whole") false [("integer", [some (.float oneAsFloat)])] :=
    .of_ask 9 (by decide) (by decide) rfl
  have not_bound : ¬ Matches (useAll ⟨integerEngine, .empty, []⟩ [.ask [(.null, .named "float", none)] none 9]) .null
      (.named "whole") true [("integer", [some (.int 1)])] := fun same =>
    Bool.false_ne_true (held.unique same).1
  exact ⟨bound, held, not_bound⟩

end Service

end Segmentation
