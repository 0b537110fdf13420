import Segmentation.Proofs.Company

/-!
# Every invocation once

A call that was answered has done what the definitions of its expression do, one for each key at the leaves and each
of them once, however often and however deep a key occurs; all leaves with one key have got one outcome
(`Transcript.RunsOnce`).  No two calls share what they do, whether they run one after the other or at once
(`Service.calls_run_once`).
-/

namespace Segmentation

/-! ### Keys of a tree -/

namespace Node

mutual

/-- The keys at the leaves, from left to right and counting duplicates. -/
def keys : Node → List String
  | .leaf name args => [String.ofList (leafChars name args)]
  | .and children => keysOfAll children
  | .or children => keysOfAll children
  | .not child => keys child

def keysOfAll : List Node → List String
  | [] => []
  | n :: ns => keys n ++ keysOfAll ns

end

end Node

namespace Expr

mutual

theorem keys_toNode : (e : Expr) → e.toNode.keys = e.leaves.map (·.key)
  | .leaf _ => rfl
  | .and es => keysOfAll_toNodes es
  | .or es => keysOfAll_toNodes es
  | .not e => keys_toNode e

theorem keysOfAll_toNodes : (es : List Expr) → Node.keysOfAll (toNodes es) = (leavesOfAll es).map (·.key)
  | [] => rfl
  | e :: es => by
    rw [toNodes, Node.keysOfAll, leavesOfAll, List.map_append, keys_toNode e, keysOfAll_toNodes es]

end

/-! ### Alike expressions -/

mutual

theorem Alike.value_eq {v w : Definition → Bool} (agree : ∀ d e, d.Alike e → v d = w e) : {e f : Expr} →
    e.Alike f → e.value v = f.value w
  | .leaf d, .leaf e, alike => agree d e alike
  | .and es, .and fs, alike => by
    have alike : AlikeAll es fs := alike
    rw [value, value, alike.values_eq agree]
  | .or es, .or fs, alike => by
    have alike : AlikeAll es fs := alike
    rw [value, value, alike.values_eq agree]
  | .not e, .not f, alike => by
    have alike : Alike e f := alike
    rw [value, value, alike.value_eq agree]

theorem AlikeAll.values_eq {v w : Definition → Bool} (agree : ∀ d e, d.Alike e → v d = w e) : {es fs : List Expr} →
    AlikeAll es fs → values v es = values w fs
  | [], [], _ => rfl
  | _ :: _, _ :: _, alike => by rw [values, values, alike.1.value_eq agree, alike.2.values_eq agree]

end

theorem exists_alike {ds es : List Definition} (alike : List.Forall₂ Definition.Alike ds es) :
    (∀ d ∈ ds, ∃ e ∈ es, d.Alike e) ∧ ∀ e ∈ es, ∃ d ∈ ds, d.Alike e := by
  induction alike with
  | nil => exact ⟨List.forall_mem_nil _, List.forall_mem_nil _⟩
  | @cons d e ds es first rest ih =>
    constructor
    · intro d' mem
      rcases List.mem_cons.1 mem with rfl | mem
      · exact ⟨e, List.mem_cons_self, first⟩
      · obtain ⟨e', mem', alike⟩ := ih.1 d' mem
        exact ⟨e', List.mem_cons_of_mem _ mem', alike⟩
    · intro e' mem
      rcases List.mem_cons.1 mem with rfl | mem
      · exact ⟨d, List.mem_cons_self, first⟩
      · obtain ⟨d', mem', alike⟩ := ih.2 e' mem
        exact ⟨d', List.mem_cons_of_mem _ mem', alike⟩

theorem keys_eq_of_alike {ds es : List Definition} (alike : List.Forall₂ Definition.Alike ds es) :
    ds.map (·.key) = es.map (·.key) := by
  induction alike with
  | nil => rfl
  | cons first rest ih => rw [List.map_cons, List.map_cons, first.key_eq, ih]

/-- Where alike definitions have the same outcomes, alike expressions come to the same. -/
theorem Alike.concludes {e f : Expr} (alike : e.Alike f) {outcome : Definition → Option Outcome}
    (agree : ∀ d d', d.Alike d' → outcome d = outcome d') {o : Outcome} (concludes : e.Concludes outcome o) :
    f.Concludes outcome o := by
  obtain ⟨to_right, to_left⟩ := exists_alike alike.leaves
  cases o with
  | ok value =>
    obtain ⟨all, value_eq⟩ := concludes
    refine ⟨fun d mem => ?_, value_eq.trans (alike.value_eq fun d d' same => ?_)⟩
    · obtain ⟨d', mem', same⟩ := to_left d mem
      rw [← agree d' d same]
      exact all d' mem'
    · rw [answer, answer, agree d d' same]
  | error error =>
    obtain ⟨all, d, mem, failed⟩ := concludes
    obtain ⟨d', mem', same⟩ := to_right d mem
    refine ⟨fun g mem => ?_, d', mem', ?_⟩
    · obtain ⟨g', mem', same⟩ := to_left g mem
      rw [← agree g' g same]
      exact all g' mem'
    · rw [← agree d d' same]
      exact failed

end Expr

/-- Registries with the same matchers build the expression of a target alike. -/
theorem Engine.buildExpr_alike {registry registry' : Registry} (sound : registry.Sound) (sound' : registry'.Sound)
    (same : registry.matcher? = registry'.matcher?) (segments : Keyed SegmentDefinition) (subject : Json)
    (target : Target) :
    BothGive Expr.Alike (buildExpr segments registry subject target).1
      (buildExpr segments registry' subject target).1 := by
  rw [buildExpr_eq, buildExpr_eq]
  cases target.recipe? segments subject with
  | none => trivial
  | some recipe =>
    have both := recipe.build_alike (f := fun _ args => args) (fun _ _ => rfl) sound sound' same
    rw [recipe.recast_self] at both
    simp only
    generalize recipe.build registry = r at both
    generalize recipe.build registry' = r' at both
    obtain ⟨_ | e, _⟩ := r <;> obtain ⟨_ | e', _⟩ := r' <;> exact both

/-! ### Evaluations that are over -/

namespace Session

/-- An invocation whose definition has an outcome has settled with it. -/
theorem settled_of_outcomeFor {session : Session} (nodup : session.keys.Nodup) {i : Invocation}
    (mem : i ∈ session.invocations) {o : Outcome} (known : session.outcomeFor i.definition = some o) :
    i.stage = .settled o := by
  obtain ⟨index, here⟩ := List.mem_iff_getElem?.1 mem
  rw [outcomeFor_of_getElem? nodup here, outcome?_eq, here, Option.bind_some] at known
  split at known
  · rename_i outcome stage
    rw [stage, Option.some.inj known]
  · cases known

end Session

/-- What has been done for an expression: the definitions that ran, and the outcomes that they came to, by their
keys. -/
structure Transcript.RunsOnce (t : Transcript) (expr : Expr) (definitions : List Definition)
    (outcome : String → Option Outcome) : Prop where
  /-- There is one definition for each key at the leaves. -/
  once : (definitions.map (·.key)).Nodup
  keys : ∀ key, key ∈ definitions.map (·.key) ↔ key ∈ expr.toNode.keys
  /-- They are those of leaves, up to what has the same stable key. -/
  alike : ∀ d ∈ definitions, ∃ e ∈ expr.leaves, d.Alike e
  /-- The deeds are those of the definitions, each done once. -/
  deeds : (deeds t.log).Perm (definitions.flatMap (·.deeds))
  /-- Each has come to an outcome, which stands at the end of its span. -/
  noted : ∃ begun, ∀ d ∈ definitions, ∃ o, outcome d.key = some o ∧
    (Stage.settled o).Noted (t.call.scope begun) d t.log
  /-- The answer is the one that the outcomes of the leaves make. -/
  answer : ∃ o, expr.Concludes (fun d => outcome d.key) o ∧ t.answer = some (t.call.verdict o) ∧
    appeals t.log = t.call.told o

theorem Evaluation.Underway.runsOnce {t : Transcript} {begun : Journal} {built expr : Expr} {evaluation : Evaluation}
    (underway : evaluation.Underway (t.call.scope begun) built t.log) (alike : built.Alike expr) {o : Outcome}
    (ended : evaluation.outcome? = some o) (verdict : t.answer = some (t.call.verdict o))
    (told : appeals t.log = t.call.told o) : ∃ definitions outcome, t.RunsOnce expr definitions outcome := by
  let session := evaluation.session
  obtain ⟨sound, performs⟩ := underway
  let outcome (key : String) : Option Outcome :=
    (session.invocations.findIdx? (·.definition.key = key)).bind session.outcome?
  have settled : ∀ i ∈ session.invocations, ∃ o, outcome i.definition.key = some o ∧ i.stage = .settled o := by
    have all := sound.isSome_outcome?_iff.1 (Option.isSome_iff_exists.2 ⟨o, ended⟩)
    intro i mem
    obtain ⟨o, known⟩ := Option.isSome_iff_exists.1 (all i.definition (performs.known i mem))
    exact ⟨o, known, Session.settled_of_outcomeFor performs.nodup mem known⟩
  have keys_eq : (session.invocations.map (·.definition)).map (·.key) = session.keys := by
    rw [List.map_map]
    rfl
  refine ⟨session.invocations.map (·.definition), outcome, ?_, fun key => ?_, fun d mem => ?_, ?_, ⟨begun, fun d mem => ?_⟩,
    o, alike.concludes (fun _ _ same => congrArg outcome same.key_eq) (sound.concludes ended), verdict, told⟩
  · rw [keys_eq]
    exact performs.nodup
  · rw [keys_eq, Expr.keys_toNode, ← Expr.keys_eq_of_alike alike.leaves]
    constructor
    · intro mem
      obtain ⟨i, here, rfl⟩ := List.mem_map.1 mem
      exact List.mem_map_of_mem (performs.known i here)
    · intro mem
      obtain ⟨d, leaf, rfl⟩ := List.mem_map.1 mem
      exact sound.keyed d leaf
  · obtain ⟨i, here, rfl⟩ := List.mem_map.1 mem
    exact (Expr.exists_alike alike.leaves).1 i.definition (performs.known i here)
  · have all : session.invocations.flatMap (fun i => i.stage.deeds i.definition) =
        session.invocations.flatMap (fun i => i.definition.deeds) := by
      refine List.flatMap_congr fun i mem => ?_
      obtain ⟨o, -, stage⟩ := settled i mem
      rw [stage]
      rfl
    rw [List.flatMap_map, ← all]
    exact performs.deeds
  · obtain ⟨i, here, rfl⟩ := List.mem_map.1 mem
    obtain ⟨o, known, stage⟩ := settled i here
    exact ⟨o, known, stage ▸ performs.noted i here⟩

namespace Service

/-- What a service that stems from a new engine describes, and what a call does that was made of such a service. -/
theorem described_runs_once {engine : Engine} {service : Service} (stems : service.StemsFrom engine) {t : Transcript}
    (sound : t.Sound engine.segments engine.registry.matcher?) (answered : t.answer.isSome) :
    (∀ error, (service.engine.describe t.call.subject t.call.target).1 = .error error → deeds t.log = []) ∧
    ∀ node, (service.engine.describe t.call.subject t.call.target).1 = .ok node →
      ∃ expr definitions outcome, node = expr.toNode ∧ t.RunsOnce expr definitions outcome := by
  obtain ⟨value, answer⟩ := Option.isSome_iff_exists.1 answered
  obtain ⟨outcome, concluded, rfl, told⟩ := sound.answered value answer
  have describe_eq : (service.engine.describe t.call.subject t.call.target).1 =
      (Engine.buildExpr engine.segments service.engine.registry t.call.subject t.call.target).1.map (·.toNode) := by
    rw [← stems.segments_eq]
    rfl
  have alike {registry : Registry} (holds : Holds engine.registry.matcher? registry) :=
    Engine.buildExpr_alike holds.1 stems.sound (holds.2.trans stems.matcher?_eq.symm) engine.segments t.call.subject
      t.call.target
  rw [describe_eq]
  rcases concluded with ⟨error, ⟨registry, holds, builds⟩, nothing, rfl⟩ |
    ⟨begun, built, evaluation, ⟨registry, holds, builds⟩, underway, ended⟩
  · have both := alike holds
    rw [builds] at both
    generalize (Engine.buildExpr engine.segments service.engine.registry t.call.subject t.call.target).1 = r at both
    cases r with
    | ok expr => exact False.elim both
    | error other => exact ⟨fun _ _ => nothing, nofun⟩
  · have both := alike holds
    rw [builds] at both
    generalize (Engine.buildExpr engine.segments service.engine.registry t.call.subject t.call.target).1 = r at both
    cases r with
    | error error => exact False.elim both
    | ok expr =>
      refine ⟨nofun, fun node eq => ?_⟩
      obtain rfl := Except.ok.inj eq
      obtain ⟨definitions, outcome, runs⟩ := underway.runsOnce both ended answer told
      exact ⟨expr, definitions, outcome, rfl, runs⟩

/-- Calls of a service that has any history behind it, run at once: the deeds are those in the logs that the calls
write by turns.  A call that is answered does nothing if its segment cannot be described; else it does what the
definitions of the tree that is described do, one for each key at the leaves and each of them once. -/
theorem calls_run_once {schema : Schema} {options : Options} {groups : List (List (String × Matcher.Draft))}
    {segments : List (String × SegmentDefinition)} {noted : Journal} {engine : Engine}
    (built : (Engine.build schema options groups segments noted).1 = .ok engine)
    (journal : Journal) (strays : List Nat) (history others : List Usage) (moves : Nat) (limit : Option Nat)
    (requests : List (Json × Target × Option Fallback)) :
    let service := useAll ⟨engine, journal, strays⟩ history
    let asked := service.ask moves limit
      (requests.map fun (subject, target, fallback) => .start subject target fallback)
    let describe (t : Transcript) :=
      ((useAll ⟨engine, journal, strays⟩ others).engine.describe t.call.subject t.call.target).1
    ∃ (ts : List Transcript) (written rest : List Event), ts.map (·.request) = requests ∧
      ts.map (·.answer) = asked.2.1 ∧ service.journal.Writes (written ++ rest) asked.2.2.journal ∧
      Woven (ts.map (·.log)) written ∧ (deeds (written ++ rest)).Perm (ts.flatMap fun t => deeds t.log) ∧
      ∀ t ∈ ts, t.answer.isSome → (∀ error, describe t = .error error → deeds t.log = []) ∧
        ∀ node, describe t = .ok node →
          ∃ expr definitions outcome, node = expr.toNode ∧ t.RunsOnce expr definitions outcome := by
  intro service asked describe
  obtain ⟨matchers, -, registry_eq⟩ := Engine.registry_of_build built
  have fresh : (⟨engine, journal, strays⟩ : Service).StemsFrom engine :=
    ⟨rfl, registry_eq ▸ Registry.sound_compile _ _, rfl⟩
  have stems : service.StemsFrom engine := fresh.useAll history
  obtain ⟨ts, written, rest, requests_eq, answers_eq, writes, idle, -, woven, sound⟩ :=
    ask_transcripts ⟨stems.sound, stems.matcher?_eq⟩ moves limit requests
  rw [stems.segments_eq] at sound
  refine ⟨ts, written, rest, requests_eq, answers_eq, writes, woven, ?_, fun t mem answered => ?_⟩
  · have all := woven.perm.filterMap Event.deed?
    rw [← List.flatMap_id, List.filterMap_flatMap, List.flatMap_map] at all
    rw [deeds_append, idle, List.append_nil]
    exact all
  · exact described_runs_once (fresh.useAll others) (sound t mem) answered

/-! A segment that asks one matcher at two leaves. -/

def memberMatchers : List (List (String × Matcher.Draft)) :=
  [[("member", ⟨none, some fun _ _ => .starts (.done (.value true)), none⟩)]]

def memberSegments : List (String × SegmentDefinition) :=
  [("paradox", fun _ => .and [.matcher "member", .not (.matcher "member")])]

/-- A new engine with this matcher and this segment. -/
def memberEngine : Engine :=
  ⟨.any, Keyed.ofList memberSegments,
    .compile [("member", ⟨none, .single fun _ _ => .starts (.done (.value true))⟩)] defaultMemoCapacity, .default⟩

/-- Two calls at once are both answered with false, and each has run one definition for both leaves. -/
theorem paradox_runs_once_each :
    let request : Json × Target × Option Fallback := (.null, .named "paradox", none)
    ∃ ts : List Transcript, ts.map (·.request) = [request, request] ∧ ts.map (·.answer) = [some false, some false] ∧
      ∀ t ∈ ts, ∃ expr definitions outcome,
        Expr.toNode expr = .and [.leaf "member" none, .not (.leaf "member" none)] ∧
        t.RunsOnce expr definitions outcome := by
  intro request
  have built : (Engine.build .any .default memberMatchers memberSegments .empty).1 = .ok memberEngine := rfl
  obtain ⟨ts, written, rest, requests, answers, -, -, -, each⟩ :=
    calls_run_once built .empty [] [] [] 9 none [request, request]
  have answered : ts.map (·.answer) = [some false, some false] := by
    rw [answers]
    decide
  refine ⟨ts, requests, answered, fun t mem => ?_⟩
  have request_eq : t.request = request := by
    have listed : t.request ∈ ts.map (·.request) := List.mem_map_of_mem mem
    rw [requests] at listed
    rcases List.mem_cons.1 listed with same | listed
    · exact same
    · exact List.mem_singleton.1 listed
  have answer_eq : t.answer = some false := by
    have listed : t.answer ∈ ts.map (·.answer) := List.mem_map_of_mem mem
    rw [answered] at listed
    simpa using listed
  have described : (memberEngine.describe t.call.subject t.call.target).1 =
      .ok (.and [.leaf "member" none, .not (.leaf "member" none)]) := by
    rw [Transcript.call, request_eq]
    rfl
  obtain ⟨expr, definitions, outcome, node_eq, runs⟩ := (each t mem (by rw [answer_eq]; rfl)).2 _ described
  exact ⟨expr, definitions, outcome, node_eq.symm, runs⟩

end Service

end Segmentation
