import Segmentation.Proofs.Past.Launch
import Segmentation.Proofs.Remembering

/-!
# Recast recipes

What registries with the same matchers build from one recipe differs in what they remember only.  A registry that
remembers nothing builds the same if every argument is first replaced by the one that the other registry gives for it
(`Recipe.build_recast`); nothing needs to be replaced if what that one remembers is what the recipe says anyway
(`Recipe.build_same`).
-/

namespace Segmentation

namespace Recipe

mutual

/-- The recipe with other arguments. -/
def recast (f : String → Json → Json) : Recipe → Recipe
  | .matcher name => .matcher name
  | .matcherWith name args => .matcherWith name (f name args)
  | .and operands => .and (recastAll f operands)
  | .or operands => .or (recastAll f operands)
  | .not operand => .not (recast f operand)
  | .fails error => .fails error
  | .panics payload => .panics payload

def recastAll (f : String → Json → Json) : List Recipe → List Recipe
  | [] => []
  | r :: rs => recast f r :: recastAll f rs

end

variable (f : String → Json → Json)

mutual

theorem bindings_recast : (recipe : Recipe) →
    (recipe.recast f).bindings = recipe.bindings.map fun (name, args) => (name, args.map (f name))
  | .matcher _ => rfl
  | .matcherWith _ _ => rfl
  | .and rs => bindings_recastAll rs
  | .or rs => bindings_recastAll rs
  | .not r => bindings_recast r
  | .fails _ => rfl
  | .panics _ => rfl

theorem bindings_recastAll : (recipes : List Recipe) →
    bindingsOfAll (recastAll f recipes) = (bindingsOfAll recipes).map fun (name, args) => (name, args.map (f name))
  | [] => rfl
  | r :: rs => by
    rw [recastAll, bindingsOfAll, bindingsOfAll, List.map_append, bindings_recast r, bindings_recastAll rs]

end

mutual

theorem recast_self : (recipe : Recipe) → recipe.recast (fun _ args => args) = recipe
  | .matcher _ => rfl
  | .matcherWith _ _ => rfl
  | .and rs => congrArg Recipe.and (recastAll_self rs)
  | .or rs => congrArg Recipe.or (recastAll_self rs)
  | .not r => congrArg Recipe.not (recast_self r)
  | .fails _ => rfl
  | .panics _ => rfl

theorem recastAll_self : (recipes : List Recipe) → recastAll (fun _ args => args) recipes = recipes
  | [] => rfl
  | r :: rs => by rw [recastAll, recast_self r, recastAll_self rs]

end

end Recipe

/-- Both fail, or both give results, which are related. -/
def BothGive {ε δ α β : Type} (Related : α → β → Prop) : Except ε α → Except δ β → Prop
  | .ok a, .ok b => Related a b
  | .error _, .error _ => True
  | _, _ => False

namespace BothGive

variable {ε δ α β : Type} {Related : α → β → Prop} {a : Except ε α} {b : Except δ β}

theorem imp {Other : α → β → Prop} (both : BothGive Related a b)
    (step : ∀ x y, a = .ok x → b = .ok y → Related x y → Other x y) : BothGive Other a b := by
  cases a with
  | error =>
    cases b with
    | error => trivial
    | ok => exact False.elim both
  | ok x =>
    cases b with
    | error => exact False.elim both
    | ok y => exact step x y rfl rfl both

theorem map {γ κ : Type} {Other : γ → κ → Prop} {f : α → γ} {g : β → κ} (both : BothGive Related a b)
    (step : ∀ x y, Related x y → Other (f x) (g y)) : BothGive Other (a.map f) (b.map g) := by
  cases a with
  | error =>
    cases b with
    | error => trivial
    | ok => exact False.elim both
  | ok x =>
    cases b with
    | error => exact False.elim both
    | ok y => exact step x y both

end BothGive

namespace Registry

/-- The registry remembers nothing. -/
def Forgets (registry : Registry) : Prop := ∀ name args, registry.held? name args = none

variable {registry registry' : Registry}

/-- Registries with the same matchers hand out alike definitions for arguments with the same stable key. -/
theorem Serves.alike (sound : registry.Sound) (sound' : registry'.Sound)
    (same : registry.matcher? = registry'.matcher?) {name : String} {args args' : Option Json}
    (same_key : args.map Json.stableKey = args'.map Json.stableKey) {d e : Definition}
    (serves : Serves registry name args d) (serves' : Serves registry' name args' e) : d.Alike e := by
  have key_eq {r : Registry} (sound : r.Sound) (v : Json) : ((r.held? name v).getD v).stableKey = v.stableKey := by
    cases recalled : r.held? name v with
    | none => rfl
    | some w => exact sound.held_key recalled
  refine ⟨⟨serves.name_eq.trans serves'.name_eq.symm, ?_⟩, ?_⟩
  · rw [serves.args_eq, serves'.args_eq]
    simpa [Function.comp_def, key_eq sound, key_eq sound'] using same_key
  · exact Option.some.inj (serves.matcher_eq.symm.trans (same ▸ serves'.matcher_eq))

end Registry

namespace Recipe

open Registry (Later Served Serves)
open Segmentation.Expr (Alike AlikeAll)

private theorem asLeaf_alike {registry registry' : Registry} (sound : registry.Sound) (sound' : registry'.Sound)
    (same : registry.matcher? = registry'.matcher?) {name : String} {args args' : Option Json}
    (same_key : args.map Json.stableKey = args'.map Json.stableKey) {r r' : Except Error Definition × Registry}
    (spec : registry.HandsOut name args r) (spec' : registry'.HandsOut name args' r') :
    BothGive Alike (asLeaf r).1 (asLeaf r').1 := by
  have shape : args.isSome = args'.isSome := by simpa using congrArg Option.isSome same_key
  unfold Registry.HandsOut at spec spec'
  rw [← Registry.accepts_congr same name shape] at spec'
  split at spec
  · rename_i accepted
    rw [if_pos accepted] at spec'
    obtain ⟨d, built, serves, -⟩ := spec
    obtain ⟨e, built', serves', -⟩ := spec'
    obtain ⟨_, _⟩ := r
    obtain ⟨_, _⟩ := r'
    obtain rfl := built
    obtain rfl := built'
    exact serves.alike sound sound' same same_key serves'
  · rename_i refused
    rw [if_neg refused] at spec'
    obtain ⟨error, rfl⟩ := spec
    obtain ⟨error', rfl⟩ := spec'
    trivial

variable {f : String → Json → Json}

mutual

theorem build_alike (key_eq : ∀ name args, (f name args).stableKey = args.stableKey) : (recipe : Recipe) →
    {registry registry' : Registry} → registry.Sound → registry'.Sound → registry.matcher? = registry'.matcher? →
    BothGive Alike (recipe.build registry).1 ((recipe.recast f).build registry').1
  | .matcher name, _, _, sound, sound', same =>
    asLeaf_alike sound sound' same rfl (Registry.definition_spec sound name) (Registry.definition_spec sound' name)
  | .matcherWith name args, _, _, sound, sound', same =>
    have same_key : (some args).map Json.stableKey = (some (f name args)).map Json.stableKey :=
      congrArg some (key_eq name args).symm
    asLeaf_alike sound sound' same same_key (Registry.definitionWith_spec sound name args)
      (Registry.definitionWith_spec sound' name (f name args))
  | .and rs, registry, registry', sound, sound', same => by
    rw [recast, build_and, build_and]
    exact (buildAll_alike key_eq rs sound sound' same).map fun _ _ alike => alike
  | .or rs, registry, registry', sound, sound', same => by
    rw [recast, build_or, build_or]
    exact (buildAll_alike key_eq rs sound sound' same).map fun _ _ alike => alike
  | .not r, registry, registry', sound, sound', same => by
    rw [recast, build_not, build_not]
    exact (build_alike key_eq r sound sound' same).map fun _ _ alike => alike
  | .fails _, _, _, _, _, _ => trivial
  | .panics _, _, _, _, _, _ => trivial

theorem buildAll_alike (key_eq : ∀ name args, (f name args).stableKey = args.stableKey) : (recipes : List Recipe) →
    {registry registry' : Registry} → registry.Sound → registry'.Sound → registry.matcher? = registry'.matcher? →
    BothGive AlikeAll (buildAll recipes registry).1 (buildAll (recastAll f recipes) registry').1
  | [], _, _, _, _, _ => trivial
  | r :: rs, registry, registry', sound, sound', same => by
    have both := build_alike key_eq r sound sound' same
    obtain ⟨⟨_, later⟩, _⟩ := build_spec r registry sound
    obtain ⟨⟨_, later'⟩, _⟩ := build_spec (r.recast f) registry' sound'
    simp only [recastAll, buildAll]
    generalize build r registry = first at both later
    generalize build (r.recast f) registry' = first' at both later'
    obtain ⟨_ | e, second⟩ := first <;> obtain ⟨_ | e', second'⟩ := first'
    · trivial
    · exact False.elim both
    · exact False.elim both
    · have still : second.matcher? = second'.matcher? :=
        later.matcher?_eq.trans (same.trans later'.matcher?_eq.symm)
      have others := buildAll_alike key_eq rs later.sound later'.sound still
      simp only
      generalize buildAll rs second = r at others
      generalize buildAll (recastAll f rs) second' = r' at others
      obtain ⟨_ | es, last⟩ := r <;> obtain ⟨_ | es', last'⟩ := r'
      · trivial
      · exact False.elim others
      · exact False.elim others
      · exact ⟨both, others⟩

end

/-! ### The first leaves of a key -/

/-- The argument of the first of some definitions that make a request with a name and an argument. -/
def firstFor (definitions : List Definition) (name : String) (args : Json) : Option Json :=
  (definitions.find? fun d => d.name = name ∧ d.args.map Json.stableKey = some args.stableKey).bind (·.args)

/-- The arguments that `f` gives are those with which a registry serves the first leaf of a request. -/
def Foretells (registry : Registry) (definitions : List Definition) (bindings : List (String × Option Json))
    (f : String → Json → Json) : Prop :=
  ∀ name args v, (name, some args) ∈ bindings → firstFor definitions name args = some v →
    v = args ∨ registry.held? name args = some v → f name args = v

/-- The argument of a definition, unless an earlier one made the same request: what was bound or what was remembered
at first. -/
theorem args_of_unseen {first registry : Registry} {seen : List Definition} (later : Later first seen registry)
    {name : String} {args : Json} {d : Definition} (serves : Serves registry name (some args) d)
    (unseen : ∀ e ∈ seen, ¬ e.SameRequest d) :
    ∃ v, d.args = some v ∧ v.stableKey = args.stableKey ∧ (v = args ∨ first.held? name args = some v) := by
  have args_eq := serves.args_eq
  cases recalled : registry.held? name args with
  | none => exact ⟨args, by simpa [recalled] using args_eq, rfl, .inl rfl⟩
  | some v =>
    have args_eq : d.args = some v := by simpa [recalled] using args_eq
    have same_key := later.sound.held_key recalled
    refine ⟨v, args_eq, same_key, .inr ?_⟩
    rcases later.held recalled with before | ⟨e, mem, name_eq, key_eq⟩
    · exact before
    · have key_eq : e.args.map Json.stableKey = d.args.map Json.stableKey := by
        rw [key_eq, args_eq, Option.map_some, same_key]
      exact absurd ⟨name_eq.trans serves.name_eq.symm, key_eq⟩ (unseen e mem)

private theorem unseen_append {seen : List Definition} {d : Definition} {key : String}
    (unseen : ∀ s ∈ seen, s.key ≠ key) (differs : d.key ≠ key) : ∀ s ∈ seen ++ [d], s.key ≠ key := by
  intro s mem
  rcases List.mem_append.1 mem with mem | mem
  · exact unseen s mem
  · rwa [List.mem_singleton.1 mem]

/-- The definition behind others that make another request is the first one for its own. -/
private theorem firstFor_append {seen ds : List Definition} {d : Definition} {v args : Json}
    (unseen : ∀ s ∈ seen, ¬ s.SameRequest d) (args_eq : d.args = some v) (same_key : v.stableKey = args.stableKey) :
    firstFor (seen ++ d :: ds) d.name args = some v := by
  have none_before :
      seen.find? (fun s => s.name = d.name ∧ s.args.map Json.stableKey = some args.stableKey) = none := by
    rw [List.find?_eq_none]
    intro s mem found
    obtain ⟨name_eq, key_eq⟩ := of_decide_eq_true found
    exact unseen s mem ⟨name_eq, by rw [key_eq, args_eq, Option.map_some, same_key]⟩
  rw [firstFor, List.find?_append, none_before, Option.none_or]
  simp [args_eq, same_key]

/-- A registry and one that remembers nothing, given what the first one foretells, serve the first leaf of every key
with the same argument. -/
theorem firstArgs_eq {first first' registry registry' last last' : Registry}
    {seen seen' ds es whole : List Definition} {bindings : List (String × Option Json)}
    (key_eq : ∀ name args, (f name args).stableKey = args.stableKey) (foretells : Foretells first whole bindings f)
    (forgets : first'.Forgets) (same : first.matcher? = first'.matcher?)
    (served : Served registry bindings ds last)
    (served' : Served registry' (bindings.map fun (name, args) => (name, args.map (f name))) es last')
    (later : Later first seen registry) (later' : Later first' seen' registry') (whole_eq : whole = seen ++ ds)
    {key : String} (unseen : ∀ d ∈ seen, d.key ≠ key) (unseen' : ∀ e ∈ seen', e.key ≠ key) :
    Expr.firstArgs ds key = Expr.firstArgs es key := by
  -- What was handed out before, `seen`, grows along; as long as none of it has the key, the memos of `first` decide.
  induction served generalizing seen seen' es registry' with
  | nil => cases served'; rfl
  | @cons registry _ _ name args d bindings ds serves sound step rest ih =>
    cases served' with
    | @cons _ _ _ _ _ e _ es serves' sound' step' rest' =>
      have same_now : registry.matcher? = registry'.matcher? :=
        later.matcher?_eq.trans (same.trans later'.matcher?_eq.symm)
      have same_key : args.map Json.stableKey = (args.map (f name)).map Json.stableKey := by
        simp [Function.comp_def, key_eq]
      have alike : d.Alike e := serves.alike sound sound' same_now same_key serves'
      by_cases here : d.key = key
      · -- Nobody made the request of these leaves before.
        have args_eq : d.args = e.args := by
          cases args with
          | none => rw [serves.args_eq, serves'.args_eq]; rfl
          | some a =>
            have unseen_d (s) (mem : s ∈ seen) : ¬ s.SameRequest d := fun same_request =>
              unseen s mem (((Definition.key_eq_iff s d).2 (.inl same_request)).trans here)
            have unseen_e (s) (mem : s ∈ seen') : ¬ s.SameRequest e := fun same_request =>
              unseen' s mem (((Definition.key_eq_iff s e).2 (.inl same_request)).trans (alike.key_eq ▸ here))
            obtain ⟨v, args_d, key_v, known⟩ := args_of_unseen later serves unseen_d
            obtain ⟨w, args_e, -, known'⟩ := args_of_unseen later' serves' unseen_e
            have first_eq : firstFor (seen ++ d :: ds) d.name a = some v := firstFor_append unseen_d args_d key_v
            rw [← whole_eq, serves.name_eq] at first_eq
            have w_eq : w = f name a := known'.resolve_right (by simp [forgets name (f name a)])
            rw [args_d, args_e, w_eq, foretells name a v List.mem_cons_self first_eq known]
        simp [Expr.firstArgs, here, ← alike.key_eq, args_eq]
      · have there : e.key ≠ key := alike.key_eq ▸ here
        have others := ih (fun m a v mem => foretells m a v (List.mem_cons_of_mem _ mem)) rest'
          (later.trans step) (later'.trans step') (by simp [whole_eq]) (unseen_append unseen here)
          (unseen_append unseen' there)
        simpa [Expr.firstArgs, here, there] using others

/-- The same expressions but for the arguments of leaves that are not the first of their keys. -/
def LaunchesAlike (e f : Expr) : Prop := e.Alike f ∧ Expr.AgreeFirst [] e.leaves f.leaves

variable {registry registry' : Registry}

theorem build_foretold (sound : registry.Sound) (sound' : registry'.Sound)
    (same : registry.matcher? = registry'.matcher?) (forgets : registry'.Forgets)
    (key_eq : ∀ name args, (f name args).stableKey = args.stableKey) (recipe : Recipe)
    (foretells : ∀ e, (recipe.build registry).1 = .ok e → Foretells registry e.leaves recipe.bindings f) :
    BothGive LaunchesAlike (recipe.build registry).1 ((recipe.recast f).build registry').1 := by
  have both := build_alike key_eq recipe sound sound' same
  obtain ⟨_, served⟩ := build_spec recipe registry sound
  obtain ⟨_, served'⟩ := build_spec (recipe.recast f) registry' sound'
  rw [bindings_recast] at served'
  refine both.imp fun e e' built built' alike => ⟨alike, fun key _ => ?_⟩
  exact firstArgs_eq key_eq (foretells e built) forgets same (served e built) (served' e' built') (.refl sound)
    (.refl sound') rfl nofun nofun

open Classical in
/-- The argument that a registry remembers, if the first of some definitions for it has that one. -/
noncomputable def foreseen (registry : Registry) (definitions : List Definition) (name : String) (args : Json) :
    Json :=
  if firstFor definitions name args = registry.held? name args then (registry.held? name args).getD args else args

theorem foretells_foreseen (registry : Registry) (definitions : List Definition)
    (bindings : List (String × Option Json)) :
    Foretells registry definitions bindings (foreseen registry definitions) := by
  intro name args v _ first known
  unfold foreseen
  split
  · rename_i recalled
    rw [← recalled, first]
    rfl
  · rename_i differs
    exact (known.resolve_right fun recalled => differs (first.trans recalled.symm)).symm

theorem foreseen_spec (sound : registry.Sound) (definitions : List Definition) (name : String) (args : Json) :
    (foreseen registry definitions name args).stableKey = args.stableKey ∧
      (foreseen registry definitions name args = args ∨
        registry.held? name args = some (foreseen registry definitions name args)) := by
  unfold foreseen
  split
  · cases recalled : registry.held? name args with
    | none => exact ⟨rfl, .inl rfl⟩
    | some v => exact ⟨sound.held_key recalled, .inr rfl⟩
  · exact ⟨rfl, .inl rfl⟩

/-- What a registry builds is built by one that remembers nothing, too, with some of the arguments replaced by what
the first one remembers for them. -/
theorem build_recast (sound : registry.Sound) (sound' : registry'.Sound)
    (same : registry.matcher? = registry'.matcher?) (forgets : registry'.Forgets) (recipe : Recipe) :
    ∃ f : String → Json → Json,
      (∀ name args, (f name args).stableKey = args.stableKey ∧
        (f name args = args ∨ registry.held? name args = some (f name args))) ∧
      BothGive LaunchesAlike (recipe.build registry).1 ((recipe.recast f).build registry').1 := by
  let leaves := match (recipe.build registry).1 with
    | .ok e => e.leaves
    | .error _ => []
  refine ⟨foreseen registry leaves, foreseen_spec sound leaves, ?_⟩
  refine build_foretold sound sound' same forgets (fun name args => (foreseen_spec sound leaves name args).1) recipe
    fun e built => ?_
  have leaves_eq : leaves = e.leaves := by simp only [leaves, built]
  exact leaves_eq ▸ foretells_foreseen registry leaves recipe.bindings

/-- If a registry remembers nothing else than what a recipe says, one that remembers nothing builds the same. -/
theorem build_same (sound : registry.Sound) (sound' : registry'.Sound)
    (same : registry.matcher? = registry'.matcher?) (forgets : registry'.Forgets) (recipe : Recipe)
    (agree : ∀ name args v, (name, some args) ∈ recipe.bindings → registry.held? name args = some v → v = args) :
    BothGive LaunchesAlike (recipe.build registry).1 (recipe.build registry').1 := by
  have both := build_foretold (f := fun _ args => args) sound sound' same forgets (fun _ _ => rfl) recipe
    fun e _ name args v mem _ known => (known.elim id (agree name args v mem)).symm
  rwa [recast_self] at both

end Recipe

end Segmentation
