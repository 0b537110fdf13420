import Segmentation.Proofs.Asking

/-!
# The schedule of an evaluation

When an invocation asks, and for what, can be told before the evaluation begins: it asks for what its schema admits, as
many ticks after the beginning as the validation sleeps (`Definition.askedAt`).  The invocations are for the first
leaves of each key (`Session.definitions_launch`), so `Expr.asked` is the whole schedule.
-/

namespace Segmentation

/-! ### The first of each kind -/

section Firsts

variable {α β κ μ : Type} [DecidableEq κ] [DecidableEq μ] (key : α → κ)

/-- Adds an element at the end, unless there is one with its key. -/
def addNew (l : List α) (a : α) : List α := if key a ∈ l.map key then l else l ++ [a]

/-- Of the elements with one key the first, in the order in which they come. -/
def firsts (l : List α) : List α := l.foldl (addNew key) []

@[simp] theorem firsts_nil : firsts key [] = [] := rfl

/-- Of what comes later only those are added whose keys were not there. -/
theorem foldl_addNew (l before : List α) :
    l.foldl (addNew key) before = before ++ (firsts key l).filter (key · ∉ before.map key) := by
  induction l generalizing before with
  | nil => simp
  | cons a l ih =>
    have first : firsts key (a :: l) = [a] ++ (firsts key l).filter (key · ∉ [a].map key) := ih [a]
    rw [List.foldl_cons, addNew, first]
    by_cases known : key a ∈ before.map key
    · have skipped : (firsts key l).filter (key · ∉ before.map key) =
          ((firsts key l).filter (key · ∉ [a].map key)).filter (key · ∉ before.map key) := by
        rw [List.filter_filter]
        refine List.filter_congr fun b _ => ?_
        by_cases same : key b = key a
        · simp only [same, known, not_true_eq_false, decide_false, Bool.false_and]
        · simp [same]
      rw [if_pos known, ih, skipped, List.filter_append]
      simp only [List.filter_cons, known, not_true_eq_false, decide_false, Bool.false_eq_true, if_false,
        List.filter_nil, List.nil_append]
    · rw [if_neg known, ih, List.filter_append, List.filter_filter, List.append_assoc]
      congr 1
      simp only [List.filter_cons, known, not_false_eq_true, decide_true, if_true, List.filter_nil]
      congr 1
      refine List.filter_congr fun b _ => ?_
      rw [List.map_append, Bool.eq_iff_iff]
      simp only [decide_eq_true_eq, List.mem_append, not_or, Bool.and_eq_true, List.map_singleton]

theorem firsts_cons (a : α) (l : List α) : firsts key (a :: l) = a :: (firsts key l).filter (key · ≠ key a) := by
  have first : firsts key (a :: l) = [a] ++ (firsts key l).filter (key · ∉ [a].map key) := foldl_addNew key l [a]
  simpa using first

variable {key}

theorem mem_of_mem_firsts {l : List α} {a : α} (mem : a ∈ firsts key l) : a ∈ l := by
  induction l with
  | nil => exact mem
  | cons b l ih =>
    rw [firsts_cons] at mem
    rcases List.mem_cons.1 mem with rfl | mem
    · exact List.mem_cons_self
    · exact List.mem_cons_of_mem _ (ih (List.mem_of_mem_filter mem))

/-- Every key is there. -/
theorem exists_mem_firsts {l : List α} {a : α} (mem : a ∈ l) : ∃ b ∈ firsts key l, key b = key a := by
  induction l with
  | nil => cases mem
  | cons c l ih =>
    rw [firsts_cons]
    by_cases same : key a = key c
    · exact ⟨c, List.mem_cons_self, same.symm⟩
    · rcases List.mem_cons.1 mem with rfl | mem
      · exact absurd rfl same
      · obtain ⟨b, first, key_eq⟩ := ih mem
        exact ⟨b, List.mem_cons_of_mem _ (List.mem_filter.2 ⟨first, by simpa [key_eq] using same⟩), key_eq⟩

theorem eq_nil_of_firsts {l : List α} (nothing : firsts key l = []) : l = [] := by
  cases l with
  | nil => rfl
  | cons a l =>
    rw [firsts_cons] at nothing
    cases nothing

variable (key) in
theorem nodup_firsts (l : List α) : ((firsts key l).map key).Nodup := by
  induction l with
  | nil => exact List.nodup_nil
  | cons a l ih =>
    rw [firsts_cons, List.map_cons, List.nodup_cons]
    refine ⟨fun mem => ?_, ih.sublist (List.Sublist.map key List.filter_sublist)⟩
    obtain ⟨b, others, same⟩ := List.mem_map.1 mem
    exact of_decide_eq_true (List.mem_filter.1 others).2 same

variable (key) in
theorem firsts_map (f : β → α) (l : List β) : firsts key (l.map f) = (firsts (fun b => key (f b)) l).map f := by
  induction l with
  | nil => rfl
  | cons b l ih => rw [List.map_cons, firsts_cons, firsts_cons, List.map_cons, ih, List.filter_map, Function.comp_def]

/-- It only matters which keys are the same. -/
theorem firsts_congr {other : α → μ} {l : List α} (same : ∀ a ∈ l, ∀ b ∈ l, key a = key b ↔ other a = other b) :
    firsts key l = firsts other l := by
  induction l with
  | nil => rfl
  | cons a l ih =>
    rw [firsts_cons, firsts_cons,
      ih fun b mem c mem' => same b (List.mem_cons_of_mem _ mem) c (List.mem_cons_of_mem _ mem')]
    congr 1
    refine List.filter_congr fun b mem => ?_
    exact decide_eq_decide.2
      (same b (List.mem_cons_of_mem _ (mem_of_mem_firsts mem)) a List.mem_cons_self).not

end Firsts

/-! ### How long user code takes -/

/-- The ticks for which a task sleeps in all. -/
def Task.delay {ρ : Type} : Task ρ → Nat
  | .done _ => 0
  | .sleep ticks rest => ticks + rest.delay

/-- The ticks that what a call gave takes. -/
def Launch.delay {ρ : Type} : Launch (Task ρ) → Nat
  | .panics _ => 0
  | .starts task => task.delay

/-- The instant at which a task that was started now has its result. -/
def Running.doneAt {ρ : Type} (now : Nat) : Running ρ → Nat
  | .ended _ => now
  | .asleep deadline rest => deadline + rest.delay

theorem Task.doneAt_start {ρ : Type} (now : Nat) (task : Task ρ) : (task.start now).doneAt now = now + task.delay := by
  induction task with
  | done result => rfl
  | sleep ticks rest ih =>
    cases ticks with
    | zero => exact ih.trans (by rw [delay, Nat.zero_add])
    | succ ticks => exact Nat.add_assoc _ _ _

theorem Launch.doneAt_start {ρ : Type} (now : Nat) (ofPanic : Payload → ρ) (launch : Launch (Task ρ)) :
    (launch.start now ofPanic).doneAt now = now + launch.delay := by
  cases launch with
  | panics payload => rfl
  | starts task => exact task.doneAt_start now

/-- Whoever sleeps wakes up later. -/
def Running.IsAhead {ρ : Type} (now : Nat) (running : Running ρ) : Prop :=
  ∀ deadline rest, running = .asleep deadline rest → now < deadline

theorem Task.isAhead_start {ρ : Type} (now : Nat) (task : Task ρ) : (task.start now).IsAhead now := by
  induction task with
  | done result => exact nofun
  | sleep ticks rest ih =>
    cases ticks with
    | zero => exact ih
    | succ ticks =>
      rintro _ _ ⟨⟩
      exact Nat.lt_add_of_pos_right ticks.succ_pos

theorem Launch.isAhead_start {ρ : Type} (now : Nat) (ofPanic : Payload → ρ) (launch : Launch (Task ρ)) :
    (launch.start now ofPanic).IsAhead now := by
  cases launch with
  | panics payload => exact nofun
  | starts task => exact task.isAhead_start now

/-! ### What is asked, and when -/

namespace Definition

/-- The ticks that the validation of the argument takes. -/
def delay (definition : Definition) : Nat :=
  match definition.matcher.schema, definition.args with
  | some schema, some raw => (schema raw).delay
  | _, _ => 0

/-- The batched matcher that an invocation asks at an instant, and the argument that it passes, if the invocation began
with all the others. -/
def askedAt (begun now : Nat) (definition : Definition) : Option (String × Option Json) :=
  if definition.matcher.isBatched ∧ begun + definition.delay = now then definition.admitted.map (definition.name, ·)
  else none

end Definition

/-- The arguments with which one matcher is asked. -/
def argsFor (matcher : String) (asked : List (String × Option Json)) : List (Option Json) :=
  asked.filterMap fun (name, args) => if name = matcher then some args else none

@[simp] theorem argsFor_nil (matcher : String) : argsFor matcher [] = [] := rfl

@[simp] theorem argsFor_append (matcher : String) (asked more : List (String × Option Json)) :
    argsFor matcher (asked ++ more) = argsFor matcher asked ++ argsFor matcher more := List.filterMap_append

namespace Expr

/-- The definitions that get invocations: the first for each key, from left to right. -/
def invoked (expr : Expr) : List Definition := firsts Definition.key expr.leaves

/-- The schedule of an evaluation: what batched matchers are asked at an instant, in the order of the leaves. -/
def asked (expr : Expr) (begun now : Nat) : List (String × Option Json) :=
  expr.invoked.filterMap (Definition.askedAt begun now)

end Expr

/-! ### The invocations -/

namespace Session

theorem keys_eq_map_definitions (session : Session) : session.keys = session.definitions.map (·.key) := by
  rw [definitions, List.map_map]
  rfl

theorem definitions_takeSeat (session : Session) (index : Nat) :
    (session.takeSeat index).2.definitions = session.definitions := by
  unfold takeSeat
  cases here : session.invocations[index]? with
  | none => rfl
  | some i =>
    cases vacant : i.vacant with
    | nil =>
      simp only [vacant]
      exact definitions_set here rfl
    | cons seat seats =>
      simp only [vacant]
      exact definitions_set here rfl

theorem definitions_invocationFor (session : Session) (d : Definition) (journal : Journal) :
    (session.invocationFor d journal).2.1.definitions = addNew Definition.key session.definitions d := by
  have listed : d.key ∈ session.definitions.map (·.key) ↔ d.key ∈ session.keys := by rw [keys_eq_map_definitions]
  unfold invocationFor addNew
  by_cases known : d.key ∈ session.keys
  · simp only [findIdx?_key known, if_pos (listed.2 known)]
  · simp only [findIdx?_no_key known, if_neg (mt listed.1 known)]
    exact List.map_append

mutual

/-- Launching adds a definition for each key that is new. -/
theorem definitions_launch : (expr : Expr) → (session : Session) → (journal : Journal) →
    (session.launch expr journal).2.1.definitions = expr.leaves.foldl (addNew Definition.key) session.definitions
  | .leaf d, session, journal => (definitions_takeSeat _ _).trans (definitions_invocationFor session d journal)
  | .and es, session, journal => definitions_launchAll es session journal
  | .or es, session, journal => definitions_launchAll es session journal
  | .not e, session, journal => definitions_launch e session journal

theorem definitions_launchAll : (exprs : List Expr) → (session : Session) → (journal : Journal) →
    (session.launchAll exprs journal).2.1.definitions =
      (Expr.leavesOfAll exprs).foldl (addNew Definition.key) session.definitions
  | [], _, _ => rfl
  | e :: es, session, journal => by
    have rest := definitions_launchAll es (session.launch e journal).2.1 (session.launch e journal).2.2
    rw [definitions_launch e session journal] at rest
    rw [Expr.leavesOfAll, List.foldl_append]
    exact rest

end

end Session

end Segmentation
