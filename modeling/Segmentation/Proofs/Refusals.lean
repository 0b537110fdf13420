import Segmentation.Proofs.Invocations

/-!
# Expressions that are not built

A name may be unknown to the registry, or be used with an argument that its matcher does not take, or without one that
it needs (`Registry.refusal?`).  An expression is not built because of such a name, or because its definition fails or
panics of its own accord (`Recipe.Rejects`).  So the leaves of an expression that was built are bound as their matchers
demand (`Engine.fits_of_built`), and whether one is built depends on the matchers alone (`Call.Builds.not_both`).
-/

namespace Segmentation

/-- An argument is bound to the matcher exactly if it takes one. -/
def Definition.Fits (definition : Definition) : Prop := definition.matcher.takesArgs = definition.args.isSome

namespace Registry

/-- Why a name may not be used with an argument, or without one; `none` if it may. -/
def refusal? (matchers : String → Option Matcher) (name : String) (args : Option Json) : Option Error :=
  match matchers name with
  | none => some (.unknownMatcher name)
  | some matcher =>
    if matcher.takesArgs = args.isSome then none
    else some (.matcherArity name (if matcher.takesArgs then "requires an argument" else "takes no arguments"))

/-- A look-up gives a definition that is bound as its matcher demands, or the refusal. -/
def LooksUp (registry : Registry) (name : String) (args : Option Json) : Except Error Definition → Prop
  | .ok d => d.Fits
  | .error error => refusal? registry.matcher? name args = some error

variable {registry : Registry}

/-- What is handed out is bound as its matcher demands. -/
theorem HandsOut.fits {name : String} {args : Option Json} {r : Except Error Definition × Registry}
    (handsOut : registry.HandsOut name args r) {d : Definition} (handed : r.1 = .ok d) : d.Fits := by
  unfold HandsOut at handsOut
  split at handsOut
  · rename_i accepted
    obtain ⟨other, given, serves, -⟩ := handsOut
    obtain rfl : other = d := Except.ok.inj (given.symm.trans handed)
    rw [accepts, serves.matcher_eq] at accepted
    rw [Definition.Fits, serves.args_eq, Option.isSome_map]
    exact beq_iff_eq.1 accepted
  · obtain ⟨error, rfl⟩ := handsOut
    cases handed

theorem definition_looksUp (sound : registry.Sound) (name : String) :
    registry.LooksUp name none (registry.definition name).1 := by
  cases looked : (registry.definition name).1 with
  | ok d => exact (definition_spec sound name).fits looked
  | error error =>
    unfold definition at looked
    rw [LooksUp, refusal?, matcher?]
    cases known : registry.get? name with
    | none =>
      rw [known] at looked
      exact congrArg some (Except.error.inj looked)
    | some handle =>
      simp only [known] at looked
      cases takes : handle.matcher.takesArgs with
      | true =>
        simp only [takes, if_true] at looked
        simpa [takes] using Except.error.inj looked
      | false =>
        simp only [takes, Bool.false_eq_true, if_false] at looked
        split at looked <;> cases looked

theorem definitionWith_looksUp (sound : registry.Sound) (name : String) (args : Json) :
    registry.LooksUp name (some args) (registry.definitionWith name args).1 := by
  cases looked : (registry.definitionWith name args).1 with
  | ok d => exact (definitionWith_spec sound name args).fits looked
  | error error =>
    unfold definitionWith at looked
    rw [LooksUp, refusal?, matcher?]
    cases known : registry.get? name with
    | none =>
      rw [known] at looked
      exact congrArg some (Except.error.inj looked)
    | some handle =>
      simp only [known] at looked
      cases takes : handle.matcher.takesArgs with
      | true =>
        simp only [takes, Bool.not_true, Bool.false_eq_true, if_false] at looked
        split at looked <;> cases looked
      | false =>
        simp only [takes, Bool.not_false, if_true] at looked
        simpa [takes] using Except.error.inj looked

end Registry

/-! ### Recipes -/

namespace Recipe

mutual

/-- The errors and the panics of the definition itself, from left to right. -/
def faults : Recipe → List BuildError
  | .matcher _ => []
  | .matcherWith _ _ => []
  | .and operands => faultsOfAll operands
  | .or operands => faultsOfAll operands
  | .not operand => faults operand
  | .fails error => [.returned error]
  | .panics payload => [.panicked payload]

def faultsOfAll : List Recipe → List BuildError
  | [] => []
  | r :: rs => faults r ++ faultsOfAll rs

end

/-- An error of the definition itself, or a refusal of one of the names that it uses. -/
def Rejects (matchers : String → Option Matcher) (faults : List BuildError) (bindings : List (String × Option Json))
    (error : BuildError) : Prop :=
  error ∈ faults ∨ ∃ binding ∈ bindings, ∃ refusal, Registry.refusal? matchers binding.1 binding.2 = some refusal ∧
    error = .returned refusal

variable {matchers : String → Option Matcher}

theorem Rejects.mono {faults more : List BuildError} {bindings others : List (String × Option Json)} {error : BuildError}
    (rejects : Rejects matchers faults bindings error) (sub : faults ⊆ more) (sub' : bindings ⊆ others) :
    Rejects matchers more others error := by
  rcases rejects with own | ⟨binding, used, refusal⟩
  · exact .inl (sub own)
  · exact .inr ⟨binding, sub' used, refusal⟩

/-- Either all leaves of what is built are bound as their matchers demand, or there is a reason why nothing is built. -/
def Justified {α : Type} (matchers : String → Option Matcher) (leaves : α → List Definition) (faults : List BuildError)
    (bindings : List (String × Option Json)) : Except BuildError α → Prop
  | .ok built => ∀ d ∈ leaves built, d.Fits
  | .error error => Rejects matchers faults bindings error

theorem Justified.map {α β : Type} {leaves : α → List Definition} {leaves' : β → List Definition} {f : α → β}
    (same : ∀ a, leaves' (f a) = leaves a) {faults : List BuildError} {bindings : List (String × Option Json)}
    {r : Except BuildError α} (justified : Justified matchers leaves faults bindings r) :
    Justified matchers leaves' faults bindings (r.map f) := by
  cases r with
  | ok built => exact fun d mem => justified d (same built ▸ mem)
  | error error => exact justified

private theorem asLeaf_justified {registry : Registry} {name : String} {args : Option Json}
    {r : Except Error Definition × Registry} (looksUp : registry.LooksUp name args r.1) :
    Justified registry.matcher? Expr.leaves [] [(name, args)] (asLeaf r).1 := by
  obtain ⟨looked, later⟩ := r
  cases looked with
  | ok d =>
    intro e mem
    obtain rfl := List.mem_singleton.1 mem
    exact looksUp
  | error error => exact .inr ⟨_, List.mem_singleton_self _, error, looksUp, rfl⟩

mutual

theorem build_justified : (recipe : Recipe) → (registry : Registry) → registry.Sound →
    Justified registry.matcher? Expr.leaves recipe.faults recipe.bindings (recipe.build registry).1
  | .matcher name, _, sound => asLeaf_justified (Registry.definition_looksUp sound name)
  | .matcherWith name args, _, sound => asLeaf_justified (Registry.definitionWith_looksUp sound name args)
  | .and rs, registry, sound => by
    rw [build_and]
    exact (buildAll_justified rs registry sound).map (f := Expr.and) fun _ => rfl
  | .or rs, registry, sound => by
    rw [build_or]
    exact (buildAll_justified rs registry sound).map (f := Expr.or) fun _ => rfl
  | .not r, registry, sound => by
    rw [build_not]
    exact (build_justified r registry sound).map (f := Expr.not) fun _ => rfl
  | .fails _, _, _ => .inl (List.mem_singleton_self _)
  | .panics _, _, _ => .inl (List.mem_singleton_self _)

theorem buildAll_justified : (recipes : List Recipe) → (registry : Registry) → registry.Sound →
    Justified registry.matcher? Expr.leavesOfAll (faultsOfAll recipes) (bindingsOfAll recipes)
      (buildAll recipes registry).1
  | [], _, _ => List.forall_mem_nil _
  | r :: rs, registry, sound => by
    have first := build_justified r registry sound
    obtain ⟨⟨_, later⟩, -⟩ := build_spec r registry sound
    simp only [buildAll, faultsOfAll, bindingsOfAll]
    generalize build r registry = built at first later
    obtain ⟨error | e, second⟩ := built
    · exact Rejects.mono first (List.subset_append_left _ _) (List.subset_append_left _ _)
    · -- the other operands are looked up in a registry with the same matchers
      have rest := buildAll_justified rs second later.sound
      rw [later.matcher?_eq] at rest
      simp only
      generalize buildAll rs second = built at rest
      obtain ⟨error | es, third⟩ := built
      · exact Rejects.mono rest (List.subset_append_right _ _) (List.subset_append_right _ _)
      · intro d mem
        exact (List.mem_append.1 mem).elim (first d) (rest d)

end

end Recipe

/-! ### Segments -/

namespace Engine

/-- Why the expression of a target is not built: the segment is unknown, or its definition is to blame. -/
def Refuses (segments : Keyed SegmentDefinition) (matchers : String → Option Matcher) (subject : Json) (target : Target)
    (error : Error) : Prop :=
  match target.recipe? segments subject with
  | none => error = .unknownSegment target.name
  | some recipe => ∃ reason, Recipe.Rejects matchers recipe.faults recipe.bindings reason ∧
      error = blame target.name reason

variable {segments : Keyed SegmentDefinition} {registry : Registry} {subject : Json} {target : Target}

theorem fits_of_built (sound : registry.Sound) {expr : Expr}
    (built : (buildExpr segments registry subject target).1 = .ok expr) : ∀ d ∈ expr.leaves, d.Fits := by
  rw [buildExpr_eq] at built
  cases known : target.recipe? segments subject with
  | none =>
    rw [known] at built
    cases built
  | some recipe =>
    have justified := recipe.build_justified registry sound
    simp only [known] at built
    generalize (recipe.build registry).1 = result at built justified
    cases result with
    | error reason => cases built
    | ok e =>
      obtain rfl := Except.ok.inj built
      exact justified

theorem refuses_of_not_built (sound : registry.Sound) {error : Error}
    (built : (buildExpr segments registry subject target).1 = .error error) :
    Refuses segments registry.matcher? subject target error := by
  rw [buildExpr_eq] at built
  unfold Refuses
  cases known : target.recipe? segments subject with
  | none =>
    rw [known] at built
    exact (Except.error.inj built).symm
  | some recipe =>
    have justified := recipe.build_justified registry sound
    simp only [known] at built ⊢
    generalize (recipe.build registry).1 = result at built justified
    cases result with
    | ok e => cases built
    | error reason => exact ⟨reason, justified, (Except.error.inj built).symm⟩

end Engine

namespace Call

variable {segments : Keyed SegmentDefinition} {matchers : String → Option Matcher} {call : Call}

theorem Builds.fits {expr : Expr} (builds : call.Builds segments matchers (.ok expr)) : ∀ d ∈ expr.leaves, d.Fits := by
  obtain ⟨registry, ⟨sound, -⟩, built⟩ := builds
  exact Engine.fits_of_built sound built

theorem Builds.refuses {error : Error} (builds : call.Builds segments matchers (.error error)) :
    Engine.Refuses segments matchers call.subject call.target error := by
  obtain ⟨registry, ⟨sound, rfl⟩, built⟩ := builds
  exact Engine.refuses_of_not_built sound built

/-- Whether an expression is built does not depend on what the registry remembers. -/
theorem Builds.not_both {error : Error} (refused : call.Builds segments matchers (.error error)) (expr : Expr) :
    ¬ call.Builds segments matchers (.ok expr) := by
  rintro ⟨registry, ⟨sound, same⟩, built⟩
  obtain ⟨registry', ⟨sound', same'⟩, failed⟩ := refused
  have both := Engine.buildExpr_alike sound sound' (same.trans same'.symm) segments call.subject call.target
  rw [built, failed] at both
  exact both

end Call

end Segmentation
