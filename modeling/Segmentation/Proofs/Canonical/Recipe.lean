import Segmentation.Proofs.Canonical.Values
import Segmentation.Proofs.Refusals

/-!
# Building canonical expressions

What a sound registry builds depends, in canonical form, on its matchers alone and not on what it remembers
(`Engine.buildExpr_canonical`).
-/

namespace Segmentation

/-! ### Looking names up -/

namespace Registry

variable {registry registry' : Registry}

/-- What is served for a name and an argument is the same definition in canonical form. -/
theorem Serves.canonical_eq {name : String} {args : Option Json} {d d' : Definition} (sound : registry.Sound)
    (sound' : registry'.Sound) (same : registry.matcher? = registry'.matcher?) (serves : registry.Serves name args d)
    (serves' : registry'.Serves name args d') : d.canonical = d'.canonical := by
  have key {registry : Registry} (sound : registry.Sound) {d : Definition} (serves : registry.Serves name args d) :
      d.args.map Json.canonical = args.map Json.canonical := by
    rw [serves.args_eq, Option.map_map]
    refine Option.map_congr fun v _ => Json.canonical_eq_iff.2 ?_
    change ((registry.held? name v).getD v).stableKey = v.stableKey
    cases recalled : registry.held? name v with
    | none => rfl
    | some w => exact sound.held_key recalled
  have matchers : some d.matcher = some d'.matcher := by
    rw [← serves.matcher_eq, same, serves'.matcher_eq]
  unfold Definition.canonical
  rw [serves.name_eq, serves'.name_eq, key sound serves, key sound' serves', Option.some.inj matchers]

theorem HandsOut.canonical_eq {name : String} {args : Option Json} {r r' : Except Error Definition × Registry}
    (sound : registry.Sound) (sound' : registry'.Sound) (same : registry.matcher? = registry'.matcher?)
    (handsOut : registry.HandsOut name args r) (handsOut' : registry'.HandsOut name args r')
    (looksUp : registry.LooksUp name args r.1) (looksUp' : registry'.LooksUp name args r'.1) :
    r.1.map Definition.canonical = r'.1.map Definition.canonical := by
  unfold HandsOut at handsOut handsOut'
  rw [← accepts_congr same name rfl] at handsOut'
  obtain ⟨r, later⟩ := r
  obtain ⟨r', later'⟩ := r'
  split at handsOut
  · rename_i accepted
    rw [if_pos accepted] at handsOut'
    obtain ⟨d, rfl, serves, -⟩ := handsOut
    obtain ⟨d', rfl, serves', -⟩ := handsOut'
    exact congrArg Except.ok (serves.canonical_eq sound sound' same serves')
  · rename_i refused
    rw [if_neg refused] at handsOut'
    obtain ⟨error, eq⟩ := handsOut
    obtain ⟨error', eq'⟩ := handsOut'
    obtain ⟨rfl, -⟩ := Prod.mk.inj eq
    obtain ⟨rfl, -⟩ := Prod.mk.inj eq'
    have reasons : some error = some error' := by
      rw [← show refusal? registry.matcher? name args = some error from looksUp, same]
      exact looksUp'
    exact congrArg Except.error (Option.some.inj reasons)

end Registry

namespace Recipe

variable {registry registry' : Registry}

private theorem asLeaf_canonical {r r' : Except Error Definition × Registry}
    (same : r.1.map Definition.canonical = r'.1.map Definition.canonical) :
    (asLeaf r).1.map Expr.canonical = (asLeaf r').1.map Expr.canonical := by
  obtain ⟨_ | d, _⟩ := r <;> obtain ⟨_ | d', _⟩ := r' <;>
    simp_all [asLeaf, Except.map, Expr.canonical]

/-- What is put together of results with the same canonical form has the same canonical form. -/
private theorem map_canonical {α β : Type} {f : α → β} {g : α → α} {h : β → β}
    (commutes : ∀ a, h (f a) = f (g a)) {x y : Except BuildError α}
    (same : x.map g = y.map g) : (x.map f).map h = (y.map f).map h := by
  cases x <;> cases y <;> simp_all [Except.map]

mutual

theorem build_canonical : (recipe : Recipe) → (registry registry' : Registry) → registry.Sound → registry'.Sound →
    registry.matcher? = registry'.matcher? →
    (recipe.build registry).1.map Expr.canonical = (recipe.build registry').1.map Expr.canonical
  | .matcher name, _, _, sound, sound', same =>
    asLeaf_canonical (Registry.HandsOut.canonical_eq sound sound' same (Registry.definition_spec sound name)
      (Registry.definition_spec sound' name) (Registry.definition_looksUp sound name)
      (Registry.definition_looksUp sound' name))
  | .matcherWith name args, _, _, sound, sound', same =>
    asLeaf_canonical (Registry.HandsOut.canonical_eq sound sound' same (Registry.definitionWith_spec sound name args)
      (Registry.definitionWith_spec sound' name args) (Registry.definitionWith_looksUp sound name args)
      (Registry.definitionWith_looksUp sound' name args))
  | .and rs, registry, registry', sound, sound', same => by
    rw [build_and, build_and]
    exact map_canonical (f := .and) (h := Expr.canonical) (fun _ => rfl) (buildAll_canonical rs registry registry' sound sound' same)
  | .or rs, registry, registry', sound, sound', same => by
    rw [build_or, build_or]
    exact map_canonical (f := .or) (h := Expr.canonical) (fun _ => rfl) (buildAll_canonical rs registry registry' sound sound' same)
  | .not r, registry, registry', sound, sound', same => by
    rw [build_not, build_not]
    exact map_canonical (f := .not) (h := Expr.canonical) (fun _ => rfl) (build_canonical r registry registry' sound sound' same)
  | .fails _, _, _, _, _, _ => rfl
  | .panics _, _, _, _, _, _ => rfl

theorem buildAll_canonical : (recipes : List Recipe) → (registry registry' : Registry) → registry.Sound →
    registry'.Sound → registry.matcher? = registry'.matcher? →
    (buildAll recipes registry).1.map Expr.canonicals = (buildAll recipes registry').1.map Expr.canonicals
  | [], _, _, _, _, _ => rfl
  | r :: rs, registry, registry', sound, sound', same => by
    have first := build_canonical r registry registry' sound sound' same
    obtain ⟨_, later⟩ := (build_spec r registry sound).1
    obtain ⟨_, later'⟩ := (build_spec r registry' sound').1
    simp only [buildAll]
    generalize build r registry = built at first later
    generalize build r registry' = built' at first later'
    obtain ⟨_ | e, second⟩ := built <;> obtain ⟨_ | e', second'⟩ := built'
    · exact congrArg Except.error (Except.error.inj first)
    · cases first
    · cases first
    · have rest := buildAll_canonical rs second second' later.sound later'.sound
        (later.matcher?_eq.trans (same.trans later'.matcher?_eq.symm))
      simp only
      generalize buildAll rs second = others at rest
      generalize buildAll rs second' = others' at rest
      obtain ⟨_ | es, _⟩ := others <;> obtain ⟨_ | es', _⟩ := others'
      · exact congrArg Except.error (Except.error.inj rest)
      · cases rest
      · cases rest
      · exact congrArg Except.ok (congrArg₂ List.cons (Except.ok.inj first) (Except.ok.inj rest))

end

end Recipe

/-- Sound registries of the same matchers build the expression of a target alike, whatever they remember. -/
theorem Engine.buildExpr_canonical {registry registry' : Registry} (sound : registry.Sound) (sound' : registry'.Sound)
    (same : registry.matcher? = registry'.matcher?) (segments : Keyed SegmentDefinition) (subject : Json)
    (target : Target) :
    (buildExpr segments registry subject target).1.map Expr.canonical =
      (buildExpr segments registry' subject target).1.map Expr.canonical := by
  simp only [buildExpr_eq]
  cases target.recipe? segments subject with
  | none => rfl
  | some recipe =>
    have built := recipe.build_canonical registry registry' sound sound' same
    dsimp only
    generalize recipe.build registry = r at built
    generalize recipe.build registry' = r' at built
    obtain ⟨_ | e, _⟩ := r <;> obtain ⟨_ | e', _⟩ := r' <;> simp_all [Except.map, Except.mapError]

end Segmentation
