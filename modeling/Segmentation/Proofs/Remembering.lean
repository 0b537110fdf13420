import Mathlib.Data.List.Basic
import Mathlib.Data.List.Forall2
import Segmentation.Engine
import Segmentation.Proofs.Keyed
import Segmentation.Proofs.Sharing

/-!
# What a registry remembers

A registry hands out, for a name and an argument, the definition that the memo holds under the stable key of the
argument, and a new one if there is none (`Registry.definitionWith_spec`).  All that building an expression changes is
what the memos hold (`Registry.Later`): its leaves are definitions that were handed out one after the other
(`Recipe.build_spec`).
-/

namespace Segmentation

namespace Memo

variable {α : Type}

private theorem lookup_filter_ne (entries : List (String × α)) {key k : String} (differs : k ≠ key) :
    (entries.filter (·.1 ≠ key)).lookup k = entries.lookup k := by
  induction entries with
  | nil => rfl
  | cons entry entries ih =>
    by_cases dropped : entry.1 = key
    · rw [List.filter_cons_of_neg (by simpa using dropped), ih, List.lookup_cons, dropped, beq_false_of_ne differs]
    · rw [List.filter_cons_of_pos (by simpa using dropped), List.lookup_cons, ih, List.lookup_cons]

/-- After an insertion a memo holds what was inserted, and nothing else that it did not hold before. -/
theorem find?_insert (memo : Memo α) {key k : String} {value v : α} (h : (memo.insert key value).find? k = some v) :
    k = key ∧ v = value ∨ memo.find? k = some v := by
  have found : ((key, value) :: memo.entries.filter (·.1 ≠ key)).lookup k = some v :=
    List.IsPrefix.lookup_eq_some (List.take_prefix _ _) h
  rw [List.lookup_cons] at found
  by_cases same : k = key
  · subst same
    simp only [beq_self_eq_true, Option.some.injEq] at found
    exact .inl ⟨rfl, found.symm⟩
  · simp only [beq_false_of_ne same, lookup_filter_ne memo.entries same] at found
    exact .inr found

end Memo

/-! ### Registries -/

/-- A handle under its own name, whose definitions are its own and remembered under the keys of their arguments. -/
structure Handle.Sound (name : String) (handle : Handle) : Prop where
  name_eq : handle.name = name
  singleton {d} : handle.singleton = some d → d.name = name ∧ d.matcher = handle.matcher ∧ d.args = none
  memo {key d} : handle.memo.find? key = some d →
    d.name = name ∧ d.matcher = handle.matcher ∧ d.args.map Json.stableKey = some key

namespace Registry

/-- The matcher with a name. -/
def matcher? (registry : Registry) (name : String) : Option Matcher := (registry.get? name).map (·.matcher)

/-- The argument of the definition that the memo of a matcher holds for an argument. -/
def held? (registry : Registry) (name : String) (args : Json) : Option Json :=
  ((registry.get? name).bind fun handle => handle.memo.find? args.stableKey).bind (·.args)

/-- Every name belongs to a sound handle. -/
def Sound (registry : Registry) : Prop := ∀ name handle, registry.get? name = some handle → handle.Sound name

variable {registry : Registry}

theorem Sound.held_key (sound : registry.Sound) {name : String} {args v : Json}
    (recalled : registry.held? name args = some v) : v.stableKey = args.stableKey := by
  obtain ⟨d, found, args_eq⟩ := Option.bind_eq_some_iff.1 recalled
  obtain ⟨handle, known, found⟩ := Option.bind_eq_some_iff.1 found
  have key := ((sound name handle known).memo found).2.2
  rw [args_eq] at key
  exact Option.some.inj key

/-- Whether a name may be used with an argument, or without one. -/
def accepts (registry : Registry) (name : String) (args : Option Json) : Bool :=
  match registry.matcher? name with
  | none => false
  | some matcher => matcher.takesArgs == args.isSome

/-- What a registry has become by building: sound, with the same matchers, and what it remembers was remembered
before or belongs to one of the new definitions. -/
structure Later (before : Registry) (new : List Definition) (later : Registry) : Prop where
  sound : later.Sound
  matcher?_eq : later.matcher? = before.matcher?
  held {name args v} : later.held? name args = some v → before.held? name args = some v ∨
    ∃ d ∈ new, d.name = name ∧ d.args.map Json.stableKey = some args.stableKey

/-- A definition for a name and an argument: the argument is the one remembered, if there is one. -/
structure Serves (registry : Registry) (name : String) (args : Option Json) (d : Definition) : Prop where
  name_eq : d.name = name
  matcher_eq : registry.matcher? name = some d.matcher
  args_eq : d.args = args.map fun args => (registry.held? name args).getD args

/-- The result of looking a name and an argument up: a definition if the registry accepts them, and else an error. -/
def HandsOut (registry : Registry) (name : String) (args : Option Json) (r : Except Error Definition × Registry) :
    Prop :=
  if registry.accepts name args then ∃ d, r.1 = .ok d ∧ Serves registry name args d ∧ Later registry [d] r.2
  else ∃ error, r = (.error error, registry)

theorem Later.refl (sound : registry.Sound) : Later registry [] registry := ⟨sound, rfl, .inl⟩

/-- One handle changes: it may remember one more definition, its own. -/
theorem Sound.modify (sound : registry.Sound) {name : String} {handle : Handle} {f : Handle → Handle} {d : Definition}
    (known : registry.get? name = some handle) (sound_f : (f handle).Sound name)
    (matcher_eq : (f handle).matcher = handle.matcher) (name_eq : d.name = name)
    (memo_f : ∀ key e, (f handle).memo.find? key = some e →
      d.args.map Json.stableKey = some key ∨ handle.memo.find? key = some e) (serial : Nat) :
    Later registry [d] ⟨registry.handles.modify name f, serial⟩ := by
  have get?_eq (m : String) : (⟨registry.handles.modify name f, serial⟩ : Registry).get? m =
      if m = name then some (f handle) else registry.get? m := by
    rw [get?, Keyed.get?_modify]
    split
    · subst m; exact congrArg (Option.map f) known
    · rfl
  refine ⟨fun m h eq => ?_, funext fun m => ?_, fun {m args v} recalled => ?_⟩
  · rw [get?_eq] at eq
    split at eq
    · subst m; exact Option.some.inj eq ▸ sound_f
    · exact sound m h eq
  · rw [matcher?, matcher?, get?_eq]
    split
    · subst m; rw [known, Option.map_some, Option.map_some, matcher_eq]
    · rfl
  · rw [held?, get?_eq] at recalled
    split at recalled
    · subst m
      obtain ⟨e, found, args_eq⟩ := Option.bind_eq_some_iff.1 recalled
      rcases memo_f _ _ found with new | old
      · exact .inr ⟨d, List.mem_singleton_self d, name_eq, new⟩
      · left
        rw [held?, known, Option.bind_some, old]
        exact args_eq
    · exact .inl recalled

theorem definition_spec (sound : registry.Sound) (name : String) :
    registry.HandsOut name none (registry.definition name) := by
  unfold definition HandsOut
  cases known : registry.get? name with
  | none => simp [accepts, matcher?, known]
  | some handle =>
    have own := sound name handle known
    have matcher_eq : registry.matcher? name = some handle.matcher := by rw [matcher?, known]; rfl
    by_cases takes : handle.matcher.takesArgs = true
    · simp [accepts, matcher_eq, takes]
    · simp only [accepts, matcher_eq, takes]
      cases kept : handle.singleton with
      | some d =>
        obtain ⟨name_eq, matcher_d, none⟩ := own.singleton kept
        refine ⟨d, rfl, ⟨name_eq, matcher_eq.trans (by rw [matcher_d]), none⟩, ?_⟩
        exact ⟨sound, rfl, .inl⟩
      | none =>
        refine ⟨_, rfl, ⟨own.name_eq, matcher_eq, rfl⟩, ?_⟩
        rw [define, own.name_eq]
        exact sound.modify known ⟨own.name_eq, fun eq => Option.some.inj eq ▸ ⟨rfl, rfl, rfl⟩, own.memo⟩ rfl rfl
          (fun _ _ found => .inr found) _

theorem definitionWith_spec (sound : registry.Sound) (name : String) (args : Json) :
    registry.HandsOut name (some args) (registry.definitionWith name args) := by
  unfold definitionWith HandsOut
  cases known : registry.get? name with
  | none => simp [accepts, matcher?, known]
  | some handle =>
    have own := sound name handle known
    have matcher_eq : registry.matcher? name = some handle.matcher := by rw [matcher?, known]; rfl
    by_cases takes : handle.matcher.takesArgs = true
    · simp only [accepts, matcher_eq, takes]
      cases held : handle.memo.find? args.stableKey with
      | some d =>
        obtain ⟨name_eq, matcher_d, key_eq⟩ := own.memo held
        obtain ⟨v, args_d, -⟩ := Option.map_eq_some_iff.1 key_eq
        have recalled : registry.held? name args = some v := by
          rw [held?, known, Option.bind_some, held]
          exact args_d
        have serves : registry.Serves name (some args) d :=
          ⟨name_eq, matcher_eq.trans (by rw [matcher_d]), by rw [Option.map_some, recalled]; exact args_d⟩
        refine ⟨d, rfl, serves, ?_⟩
        -- The definition is put in front of the memo again, which forgets nothing that it holds.
        have memo_refreshed {key e} (found : (handle.memo.insert args.stableKey d).find? key = some e) :
            handle.memo.find? key = some e := by
          rcases handle.memo.find?_insert found with ⟨rfl, rfl⟩ | found
          · exact held
          · exact found
        exact sound.modify known ⟨own.name_eq, own.singleton, fun found => own.memo (memo_refreshed found)⟩ rfl
          name_eq (fun _ _ found => .inr (memo_refreshed found)) _
      | none =>
        have forgotten : registry.held? name args = none := by
          rw [held?, known, Option.bind_some, held]
          rfl
        refine ⟨_, rfl, ⟨own.name_eq, matcher_eq, by rw [Option.map_some, forgotten]; rfl⟩, ?_⟩
        rw [define, own.name_eq]
        refine sound.modify known ⟨own.name_eq, own.singleton, fun found => ?_⟩ rfl rfl (fun key e found => ?_) _
        · rcases handle.memo.find?_insert found with ⟨rfl, rfl⟩ | found
          · exact ⟨rfl, rfl, rfl⟩
          · exact own.memo found
        · rcases handle.memo.find?_insert found with ⟨rfl, rfl⟩ | found
          · exact .inl rfl
          · exact .inr found
    · simp [accepts, matcher_eq, takes]

theorem Later.trans {first second third : Registry} {ds es : List Definition} (later : Later first ds second)
    (later' : Later second es third) : Later first (ds ++ es) third where
  sound := later'.sound
  matcher?_eq := later'.matcher?_eq.trans later.matcher?_eq
  held recalled := by
    rcases later'.held recalled with recalled | ⟨e, mem, new⟩
    · exact (later.held recalled).imp_right fun ⟨d, mem, new⟩ => ⟨d, List.mem_append_left _ mem, new⟩
    · exact .inr ⟨e, List.mem_append_right _ mem, new⟩

theorem accepts_congr {registry' : Registry} (same : registry.matcher? = registry'.matcher?) (name : String)
    {args args' : Option Json} (shape : args.isSome = args'.isSome) :
    registry.accepts name args = registry'.accepts name args' := by
  simp only [accepts, same, shape]

/-- Definitions are handed out for some names and arguments, one after the other. -/
inductive Served : Registry → List (String × Option Json) → List Definition → Registry → Prop where
  | nil {registry : Registry} : Served registry [] [] registry
  | cons {first second third : Registry} {name : String} {args : Option Json} {d : Definition}
    {bindings : List (String × Option Json)} {ds : List Definition} (serves : Serves first name args d)
    (sound : first.Sound) (later : Later first [d] second) (rest : Served second bindings ds third) :
    Served first ((name, args) :: bindings) (d :: ds) third

theorem Served.append {first second third : Registry} {bindings bindings' : List (String × Option Json)}
    {ds es : List Definition} (served : Served first bindings ds second)
    (served' : Served second bindings' es third) :
    Served first (bindings ++ bindings') (ds ++ es) third := by
  induction served with
  | nil => exact served'
  | cons serves sound later rest ih => exact .cons serves sound later (ih served')

end Registry

/-! ### Recipes -/

namespace Recipe

mutual

/-- The names that are looked up with or without argument, from left to right, if nothing fails. -/
def bindings : Recipe → List (String × Option Json)
  | .matcher name => [(name, none)]
  | .matcherWith name args => [(name, some args)]
  | .and operands => bindingsOfAll operands
  | .or operands => bindingsOfAll operands
  | .not operand => bindings operand
  | .fails _ => []
  | .panics _ => []

def bindingsOfAll : List Recipe → List (String × Option Json)
  | [] => []
  | r :: rs => bindings r ++ bindingsOfAll rs

end

open Registry (Later Served)

/-! What the operands were built to is put together. -/

theorem build_and (rs : List Recipe) (registry : Registry) :
    (Recipe.and rs).build registry = ((buildAll rs registry).1.map .and, (buildAll rs registry).2) := by
  rw [build]
  generalize buildAll rs registry = r
  obtain ⟨_ | _, _⟩ := r <;> rfl

theorem build_or (rs : List Recipe) (registry : Registry) :
    (Recipe.or rs).build registry = ((buildAll rs registry).1.map .or, (buildAll rs registry).2) := by
  rw [build]
  generalize buildAll rs registry = r
  obtain ⟨_ | _, _⟩ := r <;> rfl

theorem build_not (r : Recipe) (registry : Registry) :
    (Recipe.not r).build registry = ((r.build registry).1.map .not, (r.build registry).2) := by
  rw [build]
  generalize r.build registry = r
  obtain ⟨_ | _, _⟩ := r <;> rfl

private theorem exists_of_map_eq_ok {ε α β : Type} {f : α → β} {x : Except ε α} {b : β} (h : x.map f = .ok b) :
    ∃ a, x = .ok a ∧ f a = b := by
  cases x with
  | error => cases h
  | ok a => exact ⟨a, rfl, Except.ok.inj h⟩

private theorem asLeaf_spec {registry : Registry} {name : String} {args : Option Json} (sound : registry.Sound)
    {r : Except Error Definition × Registry} (spec : registry.HandsOut name args r) :
    (∃ new, Later registry new (asLeaf r).2) ∧
      ∀ e, (asLeaf r).1 = .ok e → Served registry [(name, args)] e.leaves (asLeaf r).2 := by
  unfold Registry.HandsOut at spec
  split at spec
  · obtain ⟨d, built, serves, later⟩ := spec
    obtain ⟨_, _⟩ := r
    obtain rfl := built
    refine ⟨⟨[d], later⟩, fun e eq => ?_⟩
    obtain rfl := Except.ok.inj eq
    exact .cons serves sound later .nil
  · obtain ⟨error, rfl⟩ := spec
    exact ⟨⟨[], .refl sound⟩, nofun⟩

mutual

/-- Building an expression hands out its leaves one after the other. -/
theorem build_spec : (recipe : Recipe) → (registry : Registry) → registry.Sound →
    (∃ new, Later registry new (recipe.build registry).2) ∧
      ∀ e, (recipe.build registry).1 = .ok e →
        Served registry recipe.bindings e.leaves (recipe.build registry).2
  | .matcher name, _, sound => asLeaf_spec sound (Registry.definition_spec sound name)
  | .matcherWith name args, _, sound => asLeaf_spec sound (Registry.definitionWith_spec sound name args)
  | .and rs, registry, sound => by
    obtain ⟨later, served⟩ := buildAll_spec rs registry sound
    rw [build_and]
    refine ⟨later, fun e eq => ?_⟩
    obtain ⟨es, built, rfl⟩ := exists_of_map_eq_ok eq
    exact served es built
  | .or rs, registry, sound => by
    obtain ⟨later, served⟩ := buildAll_spec rs registry sound
    rw [build_or]
    refine ⟨later, fun e eq => ?_⟩
    obtain ⟨es, built, rfl⟩ := exists_of_map_eq_ok eq
    exact served es built
  | .not r, registry, sound => by
    obtain ⟨later, served⟩ := build_spec r registry sound
    rw [build_not]
    refine ⟨later, fun e eq => ?_⟩
    obtain ⟨operand, built, rfl⟩ := exists_of_map_eq_ok eq
    exact served operand built
  | .fails _, registry, sound => ⟨⟨[], .refl sound⟩, nofun⟩
  | .panics _, registry, sound => ⟨⟨[], .refl sound⟩, nofun⟩

theorem buildAll_spec : (recipes : List Recipe) → (registry : Registry) → registry.Sound →
    (∃ new, Later registry new (buildAll recipes registry).2) ∧
      ∀ es, (buildAll recipes registry).1 = .ok es →
        Served registry (bindingsOfAll recipes) (Expr.leavesOfAll es) (buildAll recipes registry).2
  | [], registry, sound => ⟨⟨[], .refl sound⟩, fun es eq => Except.ok.inj eq ▸ .nil⟩
  | r :: rs, registry, sound => by
    obtain ⟨⟨new, later⟩, served⟩ := build_spec r registry sound
    simp only [buildAll]
    generalize build r registry = first at later served
    obtain ⟨_ | e, second⟩ := first
    · exact ⟨⟨new, later⟩, nofun⟩
    · obtain ⟨⟨others, later'⟩, served'⟩ := buildAll_spec rs second later.sound
      simp only
      generalize buildAll rs second = last at later' served'
      obtain ⟨_ | es, third⟩ := last
      · exact ⟨⟨_, later.trans later'⟩, nofun⟩
      · refine ⟨⟨_, later.trans later'⟩, fun all eq => ?_⟩
        obtain rfl := Except.ok.inj eq
        exact (served e rfl).append (served' es rfl)

end

end Recipe

end Segmentation
