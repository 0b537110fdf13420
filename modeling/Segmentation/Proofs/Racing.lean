import Segmentation.Proofs.Mirrors.Session

/-!
# The first failure wins

An invocation settles at the instant of some poll, and so does every node of the expression.  A group settles with the
last of its operands, at once if it has none, and a negation with its operand; if operands fail, the error of the group
is that of the one that settled first (`Expr.SettlesAt`).  `Progress.Timely` says of every node of an expression under
evaluation that it has settled so, and is not late.  Looking at leaves keeps it so (`Progress.collect_timely`), and all
invocations begin with the first poll, so an expression settles at the last of the instants at which its leaves do
(`Evaluation.settles_with_last`).
-/

namespace Segmentation

/-! ### Instants -/

/-- When something settled, and with what. -/
structure Settlement where
  instant : Nat
  outcome : Outcome

namespace Settlement

/-- The error of what has failed. -/
def error? (s : Settlement) : Option Error :=
  match s.outcome with
  | .ok _ => none
  | .error error => some error

theorem error?_eq_some {s : Settlement} {error : Error} : s.error? = some error ↔ s.outcome = .error error := by
  unfold error?
  cases s.outcome <;> simp

end Settlement

/-- The last of some instants after a first one. -/
def latest (start : Nat) (instants : List Nat) : Nat := instants.foldl max start

theorem latest_append (start : Nat) (first second : List Nat) :
    latest start (first ++ second) = latest (latest start first) second := List.foldl_append

theorem le_latest (start : Nat) (instants : List Nat) : start ≤ latest start instants := by
  induction instants generalizing start with
  | nil => exact Nat.le_refl _
  | cons t instants ih => exact Nat.le_trans (Nat.le_max_left start t) (ih _)

/-- Starting later does not matter but for the start. -/
theorem latest_of_le {start later : Nat} (le : start ≤ later) (instants : List Nat) :
    latest later instants = max later (latest start instants) := by
  induction instants generalizing start later with
  | nil => exact (Nat.max_eq_left le).symm
  | cons t instants ih =>
    have grown : max start t ≤ max later t := by omega
    have bound := le_latest (max start t) instants
    change latest (max later t) instants = max later (latest (max start t) instants)
    rw [ih grown]
    omega

theorem latest_le {start now : Nat} (started : start ≤ now) {instants : List Nat} (past : ∀ t ∈ instants, t ≤ now) :
    latest start instants ≤ now := by
  induction instants generalizing start with
  | nil => exact started
  | cons t instants ih =>
    exact ih (Nat.max_le.2 ⟨started, past t List.mem_cons_self⟩) fun s mem => past s (List.mem_cons_of_mem _ mem)

theorem mem_le_latest {start t : Nat} {instants : List Nat} (mem : t ∈ instants) : t ≤ latest start instants := by
  induction instants generalizing start with
  | nil => cases mem
  | cons s instants ih =>
    rcases List.mem_cons.1 mem with rfl | mem
    · exact Nat.le_trans (Nat.le_max_right start t) (le_latest _ _)
    · exact ih mem

/-! ### When expressions settle -/

/-- How a group settles whose operands have settled: at the last instant of them, or at the start if there is none.  Its
error is that of an operand before which none has failed. -/
structure Connective.Joins (connective : Connective) (start : Nat) (operands : List Settlement) (s : Settlement) :
    Prop where
  instant : s.instant = latest start (operands.map (·.instant))
  value : (∀ r ∈ operands, ∃ b, r.outcome = .ok b) →
    s.outcome = .ok (connective.apply (operands.filterMap (·.outcome.toOption)))
  failure : (∃ r ∈ operands, ∃ error, r.outcome = .error error) →
    ∃ r ∈ operands, ∃ error, r.outcome = .error error ∧ s.outcome = .error error ∧
      ∀ other ∈ operands, ∀ error', other.outcome = .error error' → r.instant ≤ other.instant

namespace Expr

mutual

/-- When and with what an expression settles whose leaves settle so. -/
def SettlesAt (leaf : Definition → Option Settlement) (start : Nat) : Expr → Settlement → Prop
  | .leaf definition, s => leaf definition = some s
  | .and operands, s => ∃ settled, AllSettleAt leaf start operands settled ∧ Connective.and.Joins start settled s
  | .or operands, s => ∃ settled, AllSettleAt leaf start operands settled ∧ Connective.or.Joins start settled s
  | .not operand, s => ∃ outcome, SettlesAt leaf start operand ⟨s.instant, outcome⟩ ∧
      s.outcome = outcome.map fun value => !value

def AllSettleAt (leaf : Definition → Option Settlement) (start : Nat) : List Expr → List Settlement → Prop
  | [], settled => settled = []
  | e :: es, settled => ∃ first rest, settled = first :: rest ∧ SettlesAt leaf start e first ∧
      AllSettleAt leaf start es rest

end

variable {leaf later : Definition → Option Settlement} {start : Nat}

theorem settlesAt_join {c : Connective} {es : List Expr} {s : Settlement} :
    SettlesAt leaf start (.join c es) s ↔ ∃ settled, AllSettleAt leaf start es settled ∧ c.Joins start settled s := by
  cases c <;> rfl

mutual

/-- Only the leaves matter, and what has settled stays settled. -/
theorem SettlesAt.mono : (e : Expr) → {s : Settlement} → (∀ d ∈ e.leaves, ∀ s, leaf d = some s → later d = some s) →
    SettlesAt leaf start e s → SettlesAt later start e s
  | .leaf d, s, stays, h => stays d (List.mem_singleton_self d) s h
  | .and es, _, stays, ⟨settled, all, joins⟩ => ⟨settled, AllSettleAt.mono es stays all, joins⟩
  | .or es, _, stays, ⟨settled, all, joins⟩ => ⟨settled, AllSettleAt.mono es stays all, joins⟩
  | .not e, _, stays, ⟨outcome, settles, same⟩ => ⟨outcome, SettlesAt.mono e stays settles, same⟩

theorem AllSettleAt.mono : (es : List Expr) → {settled : List Settlement} →
    (∀ d ∈ leavesOfAll es, ∀ s, leaf d = some s → later d = some s) → AllSettleAt leaf start es settled →
    AllSettleAt later start es settled
  | [], _, _, h => h
  | e :: es, _, stays, ⟨first, rest, eq, settles, all⟩ =>
    ⟨first, rest, eq, SettlesAt.mono e (fun d mem => stays d (List.mem_append_left _ mem)) settles,
      AllSettleAt.mono es (fun d mem => stays d (List.mem_append_right _ mem)) all⟩

end

mutual

/-- All leaves of an expression that has settled have. -/
theorem SettlesAt.leaves : (e : Expr) → {s : Settlement} → SettlesAt leaf start e s →
    ∀ d ∈ e.leaves, (leaf d).isSome
  | .leaf d, s, h, _, mem => by
    have h : leaf d = some s := h
    rw [List.mem_singleton.1 mem, h]
    rfl
  | .and es, _, ⟨_, all, _⟩, d, mem => AllSettleAt.leaves es all d mem
  | .or es, _, ⟨_, all, _⟩, d, mem => AllSettleAt.leaves es all d mem
  | .not e, _, ⟨_, settles, _⟩, d, mem => SettlesAt.leaves e settles d mem

theorem AllSettleAt.leaves : (es : List Expr) → {settled : List Settlement} → AllSettleAt leaf start es settled →
    ∀ d ∈ leavesOfAll es, (leaf d).isSome
  | [], _, _, _, mem => by cases mem
  | e :: es, _, ⟨_, _, _, settles, all⟩, d, mem =>
    (List.mem_append.1 mem).elim (SettlesAt.leaves e settles d) (AllSettleAt.leaves es all d)

end

mutual

/-- However deep its groups are nested, an expression settles at the last instant of its leaves. -/
theorem SettlesAt.instant_eq (begun : ∀ d s, leaf d = some s → start ≤ s.instant) : (e : Expr) → {s : Settlement} →
    SettlesAt leaf start e s → s.instant = latest start ((e.leaves.filterMap leaf).map (·.instant))
  | .leaf d, s, h => by
    have h : leaf d = some s := h
    simp only [leaves, List.filterMap_cons, h, List.filterMap_nil, List.map_cons, List.map_nil]
    exact (Nat.max_eq_right (begun d s h)).symm
  | .and es, _, ⟨settled, all, joins⟩ => joins.instant.trans (AllSettleAt.instant_eq begun es all)
  | .or es, _, ⟨settled, all, joins⟩ => joins.instant.trans (AllSettleAt.instant_eq begun es all)
  | .not e, _, ⟨_, settles, _⟩ => (SettlesAt.instant_eq begun e settles :)

theorem AllSettleAt.instant_eq (begun : ∀ d s, leaf d = some s → start ≤ s.instant) : (es : List Expr) →
    {settled : List Settlement} → AllSettleAt leaf start es settled →
    latest start (settled.map (·.instant)) = latest start (((leavesOfAll es).filterMap leaf).map (·.instant))
  | [], _, h => by
    subst h
    rfl
  | e :: es, _, ⟨first, rest, eq, settles, all⟩ => by
    subst eq
    have own := SettlesAt.instant_eq begun e settles
    have others := AllSettleAt.instant_eq begun es all
    have started : start ≤ first.instant := own ▸ le_latest _ _
    rw [leavesOfAll, List.filterMap_append, List.map_append, latest_append, ← own, List.map_cons]
    change latest (max start first.instant) _ = _
    rw [Nat.max_eq_right started, latest_of_le started, latest_of_le started, others]

end

end Expr

namespace Progress

open Segmentation.Expr (SettlesAt AllSettleAt)

/-! ### What a group has gathered -/

/-- The settled operands of a group in the order in which they were collected, which is that of their instants, with
their values and the first error. -/
structure Gathered (gathered : List Settlement) (values : List Bool) (failure : Option Error) : Prop where
  ordered : gathered.Pairwise (·.instant ≤ ·.instant)
  values : values = gathered.filterMap (·.outcome.toOption)
  failure : failure = gathered.findSome? Settlement.error?

namespace Gathered

variable {gathered : List Settlement} {values : List Bool} {failure : Option Error}

theorem gather (h : Gathered gathered values failure) {s : Settlement} (last : ∀ r ∈ gathered, r.instant ≤ s.instant) :
    Gathered (gathered ++ [s]) (gather (values, failure) s.outcome).1 (gather (values, failure) s.outcome).2 := by
  have ordered : (gathered ++ [s]).Pairwise (·.instant ≤ ·.instant) := by
    refine List.pairwise_append.2 ⟨h.ordered, List.pairwise_singleton _ _, fun r mem t listed => ?_⟩
    rw [List.mem_singleton.1 listed]
    exact last r mem
  refine ⟨ordered, ?_, ?_⟩
  · rw [List.filterMap_append, ← h.values]
    cases outcome : s.outcome <;> simp [Progress.gather, outcome, Except.toOption]
  · rw [List.findSome?_append, ← h.failure]
    cases outcome : s.outcome <;> cases failure <;> simp [Progress.gather, outcome, Settlement.error?]

/-- Operands that settle at one instant are collected behind all others. -/
theorem foldl (h : Gathered gathered values failure) {now : Nat} (past : ∀ r ∈ gathered, r.instant ≤ now)
    (more : List Settlement) (current : ∀ r ∈ more, r.instant = now) :
    Gathered (gathered ++ more) ((more.map (·.outcome)).foldl Progress.gather (values, failure)).1
      ((more.map (·.outcome)).foldl Progress.gather (values, failure)).2 := by
  induction more generalizing gathered values failure with
  | nil => simpa using h
  | cons s more ih =>
    have here : s.instant = now := current s List.mem_cons_self
    have first := h.gather (s := s) fun r mem => here ▸ past r mem
    have all := ih first (fun r mem => ?_) fun r mem => current r (List.mem_cons_of_mem _ mem)
    · simpa using all
    · rcases List.mem_append.1 mem with mem | mem
      · exact past r mem
      · exact Nat.le_of_eq (List.mem_singleton.1 mem ▸ here)

/-- A group that has collected all its operands settles as it has to. -/
theorem joins (h : Gathered gathered values failure) {operands : List Settlement} (all : gathered.Perm operands)
    (c : Connective) (start : Nat) :
    c.Joins start operands ⟨latest start (operands.map (·.instant)), conclude c values failure⟩ := by
  refine ⟨rfl, fun succeeded => ?_, ?_⟩
  · have none_failed : failure = none := by
      rw [h.failure, List.findSome?_eq_none_iff]
      intro r mem
      obtain ⟨b, ok⟩ := succeeded r (all.mem_iff.1 mem)
      rw [Settlement.error?, ok]
    rw [none_failed, h.values]
    exact congrArg Except.ok (apply_perm c (all.filterMap _))
  · rintro ⟨r, mem, error, failed⟩
    cases first : failure with
    | none =>
      rw [h.failure, List.findSome?_eq_none_iff] at first
      have silent := first r (all.mem_iff.2 mem)
      rw [Settlement.error?_eq_some.2 failed] at silent
      cases silent
    | some error' =>
      -- before the operand whose error was collected first there is none that failed
      rw [h.failure, List.findSome?_eq_some_iff] at first
      obtain ⟨before, s, after, split, found, earlier⟩ := first
      subst split
      refine ⟨s, all.mem_iff.1 (by simp), error', Settlement.error?_eq_some.1 found, rfl, fun other listed e fails => ?_⟩
      rcases List.mem_append.1 (all.mem_iff.2 listed) with early | late
      · rw [← Settlement.error?_eq_some, earlier other early] at fails
        cases fails
      · rcases List.mem_cons.1 late with rfl | late
        · exact Nat.le_refl _
        · exact (List.pairwise_cons.1 (List.pairwise_append.1 h.ordered).2.1).1 other late

end Gathered

/-! ### Expressions under evaluation -/

section

variable (number : Definition → Nat) (record : Nat → Option Settlement) (start now : Nat) (young : Prop)

mutual

/-- What has become of every node of an expression, by the instants at which invocations have settled: it has settled
when and as it had to, or it waits, for one of its operands at least unless it is so young that it was not looked at. -/
def Timely : Progress → Expr → Option Settlement → Prop
  | .leaf invocation _, e, s => s = none ∧ record invocation = none ∧ ∃ d, e = .leaf d ∧ invocation = number d
  | .group connective _ _ operands values failure, e, s => s = none ∧
      (young ∨ ∃ p ∈ operands, p.isSettled = false) ∧ ∃ es states gathered, e = .join connective es ∧
      AllTimely operands es states ∧ gathered.Perm (states.filterMap id) ∧ Gathered gathered values failure
  | .not operand, e, s => s = none ∧ ∃ f, e = .not f ∧ Timely operand f none
  | .settled outcome, e, s => ∃ t, t ≤ now ∧ s = some ⟨t, outcome⟩ ∧
      e.SettlesAt (fun d => record (number d)) start ⟨t, outcome⟩

def AllTimely : List Progress → List Expr → List (Option Settlement) → Prop
  | [], es, states => es = [] ∧ states = []
  | p :: ps, es, states => ∃ f fs s rest, es = f :: fs ∧ states = s :: rest ∧ Timely p f s ∧ AllTimely ps fs rest

end

end

variable {number : Definition → Nat} {record later : Nat → Option Settlement} {start before now : Nat} {young : Prop}

theorem Timely.outcome?_eq {p : Progress} {e : Expr} {s : Option Settlement}
    (timely : Timely number record start now young p e s) : p.outcome? = s.map (·.outcome) := by
  cases p with
  | leaf => rw [timely.1]; rfl
  | group => rw [timely.1]; rfl
  | not => rw [timely.1]; rfl
  | settled o =>
    obtain ⟨t, -, rfl, -⟩ := timely
    rfl

theorem Timely.past {p : Progress} {e : Expr} {s : Settlement}
    (timely : Timely number record start now young p e (some s)) : s.instant ≤ now := by
  cases p with
  | settled o =>
    obtain ⟨t, past, eq, -⟩ := timely
    obtain rfl := Option.some.inj eq
    exact past
  | _ => cases timely.1

theorem Timely.settlesAt {p : Progress} {e : Expr} {s : Settlement}
    (timely : Timely number record start now young p e (some s)) :
    e.SettlesAt (fun d => record (number d)) start s := by
  cases p with
  | settled o =>
    obtain ⟨t, -, eq, settles⟩ := timely
    obtain rfl := Option.some.inj eq
    exact settles
  | _ => cases timely.1

namespace AllTimely

variable {ps : List Progress} {es : List Expr} {states : List (Option Settlement)}

theorem length_eq (all : AllTimely number record start now young ps es states) : states.length = ps.length := by
  induction ps generalizing es states with
  | nil => rw [all.2]; rfl
  | cons p ps ih =>
    obtain ⟨f, fs, s, rest, -, rfl, -, all⟩ := all
    rw [List.length_cons, List.length_cons, ih all]

theorem outcome?_eq (all : AllTimely number record start now young ps es states) (k : Nat) :
    ps[k]?.bind outcome? = (states[k]?.bind id).map (·.outcome) := by
  induction ps generalizing es states k with
  | nil => rw [all.2]; rfl
  | cons p ps ih =>
    obtain ⟨f, fs, s, rest, -, rfl, timely, all⟩ := all
    cases k with
    | zero => simpa using timely.outcome?_eq
    | succ k => simpa using ih all k

theorem past (all : AllTimely number record start now young ps es states) :
    ∀ s ∈ states.filterMap id, s.instant ≤ now := by
  induction ps generalizing es states with
  | nil => rw [all.2]; simp
  | cons p ps ih =>
    obtain ⟨f, fs, s, rest, -, rfl, timely, all⟩ := all
    intro r mem
    rw [List.filterMap_cons] at mem
    cases s with
    | none => exact ih all r mem
    | some s =>
      rcases List.mem_cons.1 mem with rfl | mem
      · exact timely.past
      · exact ih all r mem

/-- Operands all of which have settled have settled as they had to. -/
theorem allSettleAt (all : AllTimely number record start now young ps es states) (ended : ps.all isSettled = true) :
    AllSettleAt (fun d => record (number d)) start es (states.filterMap id) := by
  induction ps generalizing es states with
  | nil =>
    obtain ⟨rfl, rfl⟩ := all
    rfl
  | cons p ps ih =>
    obtain ⟨f, fs, s, rest, rfl, rfl, timely, all⟩ := all
    rw [List.all_cons, Bool.and_eq_true] at ended
    cases s with
    | none =>
      have waits := timely.outcome?_eq
      rw [isSettled, waits] at ended
      cases ended.1
    | some s => exact ⟨s, rest.filterMap id, rfl, timely.settlesAt, ih all ended.2⟩

end AllTimely

/-! ### Looking at leaves -/

/-- Outcomes that are known at an instant, with the settlements that are recorded by then: all that were recorded before,
and of what has settled since the present instant. -/
structure Look (record later : Nat → Option Settlement) (outcome : Nat → Option Outcome) (before now : Nat) : Prop where
  known : ∀ i, outcome i = (later i).map (·.outcome)
  stays : ∀ i s, record i = some s → later i = some s
  fresh : ∀ i s, record i = none → later i = some s → s.instant = now
  le : before ≤ now

section

variable {outcome : Nat → Option Outcome}

mutual

/-- Where no leaf has got an outcome nothing has settled. -/
theorem Timely.rest (look : Look record later outcome before now) : (p : Progress) → {e : Expr} → {s : Option Settlement} →
    Timely number record start before young p e s → Woken outcome [] p → Timely number later start now False p e s
  | .leaf i _, _, _, ⟨none_yet, _, own⟩, unset => by
    refine ⟨none_yet, ?_, own⟩
    have unset : outcome i = none := unset
    rw [look.known] at unset
    exact Option.map_eq_none_iff.1 unset
  | .group _ _ _ ps _ _, _, _, ⟨none_yet, _, es, states, gathered, same, all, perm, own⟩, ⟨_, waits, _, woken⟩ =>
    ⟨none_yet, .inr waits, es, states, gathered, same, AllTimely.rest look ps all woken, perm, own⟩
  | .not p, _, _, ⟨none_yet, f, same, timely⟩, ⟨_, woken⟩ => ⟨none_yet, f, same, Timely.rest look p timely woken⟩
  | .settled _, e, _, ⟨t, past, same, settles⟩, _ =>
    ⟨t, Nat.le_trans past look.le, same, SettlesAt.mono e (fun d _ s => look.stays (number d) s) settles⟩

theorem AllTimely.rest (look : Look record later outcome before now) : (ps : List Progress) → {es : List Expr} → {states : List (Option Settlement)} →
    AllTimely number record start before young ps es states → AllWoken outcome [] ps →
    AllTimely number later start now False ps es states
  | [], _, _, h, _ => h
  | p :: ps, _, _, ⟨f, fs, s, rest, eq, eq', timely, all⟩, ⟨woken, others⟩ =>
    ⟨f, fs, s, rest, eq, eq', Timely.rest look p timely woken, AllTimely.rest look ps all others⟩

end

end

/-- What a node has come to when it was looked at: nothing else if it had settled, and otherwise it settles now if it
does. -/
def Proceeds (now : Nat) (before later : Option Settlement) : Prop :=
  (∀ s, before = some s → later = some s) ∧ (before = none → ∀ s, later = some s → s.instant = now)

/-- A group settles with the last of its operands. -/
theorem regroup_timely {c : Connective} {queue pending : List Nat} {ps : List Progress} {values : List Bool}
    {failure : Option Error} {es : List Expr} {states : List (Option Settlement)}
    (all : AllTimely number later start now False ps es states)
    {gathered : List Settlement} (perm : gathered.Perm (states.filterMap id))
    (own : Gathered gathered ((queue.filterMap fun k => ps[k]?.bind outcome?).foldl gather (values, failure)).1
      ((queue.filterMap fun k => ps[k]?.bind outcome?).foldl gather (values, failure)).2)
    (started : start ≤ now)
    (last : (ps.all isSettled = true) → start = now ∨ ∃ s ∈ states.filterMap id, s.instant = now) :
    ∃ s, Timely number later start now False (regroup c queue pending ps values failure) (.join c es) s ∧
      ∀ r, s = some r → r.instant = now := by
  unfold regroup
  by_cases ended : ps.all isSettled = true
  · simp only [ended, if_true]
    have instants : ∀ t ∈ (states.filterMap id).map (·.instant), t ≤ now := by
      intro t mem
      obtain ⟨s, listed, rfl⟩ := List.mem_map.1 mem
      exact all.past s listed
    have current : latest start ((states.filterMap id).map (·.instant)) = now := by
      refine Nat.le_antisymm (latest_le started instants) ?_
      rcases last ended with rfl | ⟨s, listed, rfl⟩
      · exact le_latest _ _
      · exact mem_le_latest (List.mem_map_of_mem listed)
    refine ⟨_, ⟨_, Nat.le_of_eq current, rfl, Expr.settlesAt_join.2 ⟨_, all.allSettleAt ended, own.joins perm c start⟩⟩,
      fun r same => ?_⟩
    obtain rfl := Option.some.inj same
    exact current
  · simp only [ended]
    refine ⟨none, ⟨rfl, .inr ?_, es, states, gathered, rfl, all, perm, own⟩, nofun⟩
    simpa using ended

theorem negate_timely {p : Progress} {e : Expr} {s : Option Settlement}
    (timely : Timely number later start now False p e s) (current : ∀ r, s = some r → r.instant = now) :
    ∃ s', Timely number later start now False (negate p) (.not e) s' ∧ ∀ r, s' = some r → r.instant = now := by
  cases p with
  | settled o =>
    obtain ⟨t, past, rfl, settles⟩ := timely
    have here := current _ rfl
    cases o with
    | ok b =>
      refine ⟨some ⟨t, .ok !b⟩, ⟨t, past, rfl, .ok b, settles, rfl⟩, fun r same => ?_⟩
      obtain rfl := Option.some.inj same
      exact here
    | error error =>
      refine ⟨some ⟨t, .error error⟩, ⟨t, past, rfl, .error error, settles, rfl⟩, fun r same => ?_⟩
      obtain rfl := Option.some.inj same
      exact here
  | leaf => exact ⟨none, ⟨rfl, e, rfl, timely.1 ▸ timely⟩, nofun⟩
  | group => exact ⟨none, ⟨rfl, e, rfl, timely.1 ▸ timely⟩, nofun⟩
  | not => exact ⟨none, ⟨rfl, e, rfl, timely.1 ▸ timely⟩, nofun⟩

/-- When all operands of a group have settled, one for which it waited has just been looked at. -/
theorem AllTimely.waited_settles {outcome : Nat → Option Outcome} {queue : List Nat} {ps : List Progress}
    {es : List Expr} {states : List (Option Settlement)}
    (all : AllTimely number later start now False (collectQueued outcome queue 0 ps) es states)
    (current : ∀ k ∈ queue, ∀ r, states[k]?.bind id = some r → r.instant = now) {p : Progress} (mem : p ∈ ps)
    (waits : p.isSettled = false) (ended : (collectQueued outcome queue 0 ps).all isSettled = true) :
    ∃ s ∈ states.filterMap id, s.instant = now := by
  obtain ⟨k, here⟩ := List.getElem?_of_mem mem
  have looked : (collectQueued outcome queue 0 ps)[k]? = _ := getElem?_collectQueued queue 0 ps k
  rw [here, Option.map_some] at looked
  have settles := List.all_eq_true.1 ended _ (List.mem_of_getElem? looked)
  have queued : k ∈ queue := by
    by_contra out
    rw [if_neg (by simpa using out), waits] at settles
    cases settles
  obtain ⟨o, has⟩ := Option.isSome_iff_exists.1 settles
  have own := all.outcome?_eq k
  rw [looked, Option.bind_some, has] at own
  obtain ⟨r, has, -⟩ := Option.map_eq_some_iff.1 own.symm
  obtain ⟨state, listed, same⟩ := Option.bind_eq_some_iff.1 has
  exact ⟨r, List.mem_filterMap.2 ⟨state, List.mem_of_getElem? listed, same⟩, current k queued r has⟩

section

variable {outcome : Nat → Option Outcome}

mutual

/-- Looking at leaves, a node settles when and as it has to: now, if it does, for an operand at least settles now. -/
theorem collect_timely (look : Look record later outcome before now) (started : start ≤ now)
    (early : young → start = now) : (p : Progress) → {e : Expr} → {s : Option Settlement} →
    Timely number record start before young p e s → Attentive outcome p →
    ∃ s', Timely number later start now False (p.collect outcome) e s' ∧ Proceeds now s s'
  | .leaf i seat, e, s, ⟨none_yet, unset, d, same, own⟩, _ => by
    subst none_yet same own
    cases settles : later (number d) with
    | none =>
      have waits : outcome (number d) = none := by rw [look.known, settles]; rfl
      refine ⟨none, ?_, nofun, nofun⟩
      simp only [collect, waits]
      exact ⟨rfl, settles, d, rfl, rfl⟩
    | some r =>
      have current := look.fresh _ r unset settles
      have has : outcome (number d) = some r.outcome := by rw [look.known, settles]; rfl
      refine ⟨some r, ?_, nofun, fun _ s same => Option.some.inj same ▸ current⟩
      simp only [collect, has]
      exact ⟨r.instant, Nat.le_of_eq current, rfl, settles⟩
  | .group c queue pending ps values failure, e, s,
      ⟨none_yet, waits, es, states, gathered, same, all, perm, own⟩, ⟨nodup, attentive⟩ => by
    subst none_yet same
    obtain ⟨states', all', looked⟩ := collectQueued_timely look started early ps all attentive
    have unsettled : ∀ k ∈ queue, states[k]?.bind id = none := by
      intro k queued
      have waits := attentive.waited (k := k) (by simpa using queued)
      rwa [all.outcome?_eq, Option.map_eq_none_iff] at waits
    have current : ∀ k ∈ queue, ∀ r, states'[k]?.bind id = some r → r.instant = now := by
      intro k queued r has
      have looked := looked k
      rw [if_pos (by simpa using queued)] at looked
      exact looked r has
    have others : ∀ k, k ∉ queue → states'[k]? = states[k]? := by
      intro k out
      have looked := looked k
      rwa [if_neg (by simpa using out)] at looked
    have lengths : states'.length = states.length := by
      rw [all.length_eq, all'.length_eq, length_collectQueued]
    -- the operands that settle now are collected behind those that did before
    have newer : ∀ r ∈ queue.filterMap fun k => states'[k]?.bind id, r.instant = now := by
      intro r mem
      obtain ⟨k, queued, has⟩ := List.mem_filterMap.1 mem
      exact current k queued r has
    have past : ∀ r ∈ gathered, r.instant ≤ now := fun r mem => Nat.le_trans (all.past r (perm.mem_iff.1 mem)) look.le
    have outcomes : (queue.filterMap fun k => (collectQueued outcome queue 0 ps)[k]?.bind outcome?) =
        (queue.filterMap fun k => states'[k]?.bind id).map (·.outcome) := by
      rw [List.map_filterMap]
      exact List.filterMap_congr fun k _ => all'.outcome?_eq k
    have perm' := (perm.append_right _).trans (settled_perm nodup lengths unsettled others)
    have last : (collectQueued outcome queue 0 ps).all isSettled = true →
        start = now ∨ ∃ s ∈ states'.filterMap id, s.instant = now := by
      intro ended
      rcases waits with young | ⟨p, mem, waits⟩
      · exact .inl (early young)
      · exact .inr (all'.waited_settles current mem waits ended)
    obtain ⟨s', timely, instants⟩ := regroup_timely all' perm' (outcomes ▸ own.foldl past _ newer) started last
    exact ⟨s', timely, nofun, fun _ => instants⟩
  | .not p, e, s, ⟨none_yet, f, same, timely⟩, ⟨_, attentive⟩ => by
    subst none_yet same
    obtain ⟨s', timely', -, current⟩ := collect_timely look started early p timely attentive
    obtain ⟨r, negated, instants⟩ := negate_timely timely' (current rfl)
    exact ⟨r, negated, nofun, fun _ => instants⟩
  | .settled o, e, s, ⟨t, past, same, settles⟩, _ => by
    subst same
    exact ⟨_, ⟨t, Nat.le_trans past look.le, rfl, SettlesAt.mono e (fun d _ s => look.stays (number d) s) settles⟩,
      fun _ same => same, nofun⟩

/-- The operands in the queue are looked at, and nothing happens to the others. -/
theorem collectQueued_timely (look : Look record later outcome before now) (started : start ≤ now)
    (early : young → start = now) {queue : List Nat} : {index : Nat} → (ps : List Progress) → {es : List Expr} →
    {states : List (Option Settlement)} → AllTimely number record start before young ps es states →
    AllAttentive outcome queue index ps →
    ∃ states', AllTimely number later start now False (collectQueued outcome queue index ps) es states' ∧
      ∀ k, if index + k ∈ queue then ∀ r, states'[k]?.bind id = some r → r.instant = now else states'[k]? = states[k]?
  | _, [], es, states, all, _ => ⟨[], all.1 ▸ ⟨rfl, rfl⟩, fun k => by
    rw [all.2]
    split
    · simp
    · rfl⟩
  | index, p :: ps, _, _, ⟨e, es, s, states, same, same', timely, all⟩, ⟨attentive, others⟩ => by
    subst same same'
    obtain ⟨states', all', looked⟩ := collectQueued_timely look started early ps all others
    have rest (k : Nat) : if index + (k + 1) ∈ queue then ∀ r, states'[k]?.bind id = some r → r.instant = now
        else states'[k]? = states[k]? := by
      have looked := looked k
      rwa [Nat.add_right_comm, Nat.add_assoc] at looked
    by_cases queued : index ∈ queue
    · rw [if_pos queued] at attentive
      obtain ⟨s', timely', -, current⟩ := collect_timely look started early p timely attentive.2
      have none_yet : s = none := by
        have waits := timely.outcome?_eq
        rwa [isSettled_eq_false.1 attentive.1, eq_comm, Option.map_eq_none_iff] at waits
      simp only [collectQueued, if_pos queued]
      refine ⟨s' :: states', ⟨e, es, s', states', rfl, rfl, timely', all'⟩, fun k => ?_⟩
      cases k with
      | zero => simpa [queued] using current none_yet
      | succ k => simpa using rest k
    · rw [if_neg queued] at attentive
      simp only [collectQueued, if_neg queued]
      refine ⟨s :: states', ⟨e, es, s, states', rfl, rfl, Timely.rest look p timely attentive, all'⟩, fun k => ?_⟩
      cases k with
      | zero => simp [queued]
      | succ k => simpa using rest k

end

end

/-! ### Launching and waking -/

section

variable {keys : List String}

mutual

/-- Of an expression that was only launched nothing has settled. -/
theorem Launched.timely : {e : Expr} → {p : Progress} → Launched keys e p →
    Timely (fun d => keys.idxOf d.key) (fun _ => none) start before True p e none
  | .leaf d, _, ⟨_, h⟩ => by
    subst h
    exact ⟨rfl, rfl, d, rfl, rfl⟩
  | .and es, _, ⟨ps, h, launched⟩ => by
    subst h
    obtain ⟨states, all, blank⟩ := LaunchedAll.timely launched
    exact ⟨rfl, .inl trivial, es, states, [], rfl, all, .of_eq blank.symm, .nil, rfl, rfl⟩
  | .or es, _, ⟨ps, h, launched⟩ => by
    subst h
    obtain ⟨states, all, blank⟩ := LaunchedAll.timely launched
    exact ⟨rfl, .inl trivial, es, states, [], rfl, all, .of_eq blank.symm, .nil, rfl, rfl⟩
  | .not e, _, ⟨p, h, launched⟩ => by
    subst h
    exact ⟨rfl, e, rfl, Launched.timely launched⟩

theorem LaunchedAll.timely : {es : List Expr} → {ps : List Progress} → LaunchedAll keys es ps →
    ∃ states, AllTimely (fun d => keys.idxOf d.key) (fun _ => none) start before True ps es states ∧
      states.filterMap id = []
  | [], _, h => by
    subst h
    exact ⟨[], ⟨rfl, rfl⟩, rfl⟩
  | e :: es, _, ⟨p, ps, h, first, rest⟩ => by
    subst h
    obtain ⟨states, all, blank⟩ := LaunchedAll.timely rest
    exact ⟨none :: states, ⟨e, es, none, states, rfl, rfl, Launched.timely first, all⟩, blank⟩

end

end

mutual

theorem Timely.wake (i : Nat) : (p : Progress) → {e : Expr} → {s : Option Settlement} →
    Timely number record start now young p e s → Timely number record start now young (p.wake i) e s
  | .leaf _ _, _, _, h => h
  | .group _ _ _ ps _ _, _, _, ⟨none_yet, waits, es, states, gathered, same, all, perm, own⟩ => by
    refine ⟨none_yet, waits.imp_right ?_, es, states, gathered, same, AllTimely.wake i ps all, perm, own⟩
    rintro ⟨p, mem, waits⟩
    rw [wakeOperands_eq_map]
    exact ⟨p.wake i, List.mem_map_of_mem mem, by rwa [isSettled_wake]⟩
  | .not p, _, _, ⟨none_yet, f, same, timely⟩ => ⟨none_yet, f, same, Timely.wake i p timely⟩
  | .settled _, _, _, h => h

theorem AllTimely.wake (i : Nat) : (ps : List Progress) → {es : List Expr} → {states : List (Option Settlement)} →
    AllTimely number record start now young ps es states →
    AllTimely number record start now young (wakeOperands i ps) es states
  | [], _, _, h => h
  | p :: ps, _, _, ⟨e, es, s, states, eq, eq', timely, all⟩ =>
    ⟨e, es, s, states, eq, eq', Timely.wake i p timely, AllTimely.wake i ps all⟩

end

theorem Timely.wakeAll {p : Progress} {e : Expr} {s : Option Settlement}
    (timely : Timely number record start now young p e s) (invocations : List Nat) :
    Timely number record start now young (p.wakeAll invocations) e s := by
  induction invocations generalizing p with
  | nil => exact timely
  | cons i invocations ih => exact ih (timely.wake i)

mutual

/-- An expression that was only launched looks at all its leaves. -/
theorem Fresh.mem_due {i : Nat} : (p : Progress) → Fresh p → i ∈ p.leaves → i ∈ p.due
  | .leaf _ _, _, mem => mem
  | .group _ _ _ ps _ _, ⟨_, queued, fresh⟩, mem => by
    obtain ⟨p, p_mem, mem⟩ := mem_leavesOfAll.1 mem
    obtain ⟨k, here⟩ := List.getElem?_of_mem p_mem
    exact mem_due_group.2 ⟨k, queued k (List.getElem?_eq_some_iff.1 here).1, p, here, AllFresh.mem_due ps fresh p p_mem mem⟩
  | .not p, fresh, mem => Fresh.mem_due p fresh mem
  | .settled _, fresh, _ => fresh.elim

theorem AllFresh.mem_due {i : Nat} : (ps : List Progress) → AllFresh ps → ∀ p ∈ ps, i ∈ p.leaves → i ∈ p.due
  | [], _ => List.forall_mem_nil _
  | p :: ps, ⟨first, rest⟩ => List.forall_mem_cons.2 ⟨Fresh.mem_due p first, AllFresh.mem_due ps rest⟩

end

/-! ### Nodes of an expression -/

/-- The operands of a node; a leaf has none, and what has settled none any more. -/
def operands : Progress → List Progress
  | .group _ _ _ operands _ _ => operands
  | .not operand => [operand]
  | _ => []

/-- The node at a path, unless one above it has settled. -/
def node? : List Nat → Progress → Option Progress
  | [], p => some p
  | k :: path, p => p.operands[k]?.bind (node? path)

end Progress

namespace Expr

def operands : Expr → List Expr
  | .leaf _ => []
  | .and operands => operands
  | .or operands => operands
  | .not operand => [operand]

/-- The node at a path. -/
def node? : List Nat → Expr → Option Expr
  | [], e => some e
  | k :: path, e => e.operands[k]?.bind (node? path)

theorem operands_join (c : Connective) (es : List Expr) : (join c es).operands = es := by cases c <;> rfl

theorem leaves_operand {e f : Expr} (mem : f ∈ e.operands) : ∀ d ∈ f.leaves, d ∈ e.leaves := by
  intro d leaf
  cases e with
  | leaf => cases mem
  | and es => exact mem_leavesOfAll.2 ⟨f, mem, leaf⟩
  | or es => exact mem_leavesOfAll.2 ⟨f, mem, leaf⟩
  | not e => rwa [List.mem_singleton.1 mem] at leaf

/-- The leaves below a node are leaves of the expression. -/
theorem leaves_node? {path : List Nat} {e f : Expr} (here : e.node? path = some f) : ∀ d ∈ f.leaves, d ∈ e.leaves := by
  induction path generalizing e with
  | nil =>
    obtain rfl := Option.some.inj here
    exact fun d mem => mem
  | cons k path ih =>
    obtain ⟨operand, found, here⟩ := Option.bind_eq_some_iff.1 here
    exact fun d mem => leaves_operand (List.mem_of_getElem? found) d (ih here d mem)

end Expr

namespace Progress

theorem AllTimely.getElem? {ps : List Progress} {es : List Expr} {states : List (Option Settlement)}
    (all : AllTimely number record start now young ps es states) {k : Nat} {p : Progress} (here : ps[k]? = some p) :
    ∃ e s, es[k]? = some e ∧ Timely number record start now young p e s := by
  induction ps generalizing es states k with
  | nil => cases here
  | cons q ps ih =>
    obtain ⟨e, es, s, states, rfl, rfl, timely, all⟩ := all
    cases k with
    | zero =>
      obtain rfl := Option.some.inj here
      exact ⟨e, s, rfl, timely⟩
    | succ k => exact ih all here

theorem Timely.operand {p : Progress} {e : Expr} {s : Option Settlement}
    (timely : Timely number record start now young p e s) {k : Nat} {q : Progress} (here : p.operands[k]? = some q) :
    ∃ f r, e.operands[k]? = some f ∧ Timely number record start now young q f r := by
  cases p with
  | group c queue pending ps values failure =>
    obtain ⟨-, -, es, states, gathered, rfl, all, -, -⟩ := timely
    rw [Expr.operands_join]
    exact all.getElem? here
  | not p =>
    obtain ⟨-, f, rfl, timely⟩ := timely
    obtain ⟨rfl, rfl⟩ : k = 0 ∧ p = q := by
      cases k with
      | zero => exact ⟨rfl, Option.some.inj here⟩
      | succ k => cases here
    exact ⟨f, none, rfl, timely⟩
  | leaf => cases here
  | settled => cases here

/-- What holds of an expression holds of its nodes, however deep they are nested. -/
theorem Timely.node {path : List Nat} {p q : Progress} {e : Expr} {s : Option Settlement}
    (timely : Timely number record start now young p e s) (here : p.node? path = some q) :
    ∃ f r, e.node? path = some f ∧ Timely number record start now young q f r := by
  induction path generalizing p e s with
  | nil =>
    obtain rfl := Option.some.inj here
    exact ⟨e, s, rfl, timely⟩
  | cons k path ih =>
    obtain ⟨operand, found, here⟩ := Option.bind_eq_some_iff.1 here
    obtain ⟨f, r, found', timely⟩ := timely.operand found
    obtain ⟨g, r', here', timely⟩ := ih timely here
    exact ⟨g, r', by rw [Expr.node?, found', Option.bind_some, here'], timely⟩

mutual

/-- A node that was looked at and has not settled waits for a leaf. -/
theorem Timely.exists_unset : (p : Progress) → {e : Expr} → Timely number record start now False p e none →
    ∃ d ∈ e.leaves, record (number d) = none
  | .leaf i _, _, ⟨_, unset, d, same, own⟩ => by
    subst same own
    exact ⟨d, List.mem_singleton_self d, unset⟩
  | .group c _ _ ps _ _, _, ⟨_, waits, es, states, _, same, all, _⟩ => by
    subst same
    rw [Expr.leaves_join]
    exact AllTimely.exists_unset ps all (waits.resolve_left id)
  | .not p, _, ⟨_, f, same, timely⟩ => by
    subst same
    exact (Timely.exists_unset p timely :)
  | .settled _, _, ⟨_, _, same, _⟩ => by cases same

theorem AllTimely.exists_unset : (ps : List Progress) → {es : List Expr} → {states : List (Option Settlement)} →
    AllTimely number record start now False ps es states → (∃ p ∈ ps, p.isSettled = false) →
    ∃ d ∈ Expr.leavesOfAll es, record (number d) = none
  | [], _, _, _, ⟨_, mem, _⟩ => by cases mem
  | p :: ps, _, _, ⟨e, es, s, states, same, _, timely, all⟩, ⟨q, mem, waits⟩ => by
    subst same
    rcases List.mem_cons.1 mem with first | mem
    · obtain rfl : s = none := by
        have settled := timely.outcome?_eq
        rwa [isSettled_eq_false.1 (first ▸ waits), eq_comm, Option.map_eq_none_iff] at settled
      obtain ⟨d, listed, unset⟩ := Timely.exists_unset p timely
      exact ⟨d, List.mem_append_left _ listed, unset⟩
    · obtain ⟨d, listed, unset⟩ := AllTimely.exists_unset ps all ⟨q, mem, waits⟩
      exact ⟨d, List.mem_append_right _ listed, unset⟩

end

end Progress

/-! ### Polls -/

namespace Evaluation

open Progress (Timely Attentive Look)

/-- An evaluation that is polled again and again: what it was after each poll, and when that was. -/
def polls (evaluation : Evaluation) : List Scene → List (Nat × Evaluation)
  | [] => []
  | scene :: scenes =>
    (scene.journal.now, (evaluation.poll scene).1) :: (evaluation.poll scene).1.polls scenes

/-- When something has an outcome for the first time, and which one. -/
def settlement? (history : List (Nat × Evaluation)) (what : Evaluation → Option Outcome) : Option Settlement :=
  history.findSome? fun entry => (what entry.2).map (⟨entry.1, ·⟩)

/-- The settlements of the invocations that are recorded. -/
def record (history : List (Nat × Evaluation)) (index : Nat) : Option Settlement :=
  settlement? history (·.session.outcome? index)

theorem settlement?_append (history : List (Nat × Evaluation)) (now : Nat) (evaluation : Evaluation)
    (what : Evaluation → Option Outcome) : settlement? (history ++ [(now, evaluation)]) what =
      (settlement? history what).or ((what evaluation).map (⟨now, ·⟩)) := by
  rw [settlement?, List.findSome?_append, List.findSome?_singleton]
  rfl

/-- Everything has gone in time in an evaluation so far. -/
structure Punctual (expr : Expr) (start now : Nat) (history : List (Nat × Evaluation)) (evaluation : Evaluation) :
    Prop where
  sound : Sound expr evaluation
  keys : ∀ entry ∈ history, entry.2.session.keys = evaluation.session.keys
  known : ∀ i, evaluation.session.outcome? i = (record history i).map (·.outcome)
  started : start ≤ now
  dated : ∀ entry ∈ history, start ≤ entry.1
  timely : Timely (fun d => evaluation.session.keys.idxOf d.key) (record history) start now False evaluation.progress
    expr (settlement? history (·.outcome?))

variable {expr : Expr} {start before : Nat} {young : Prop} {history : List (Nat × Evaluation)} {evaluation : Evaluation}

/-- A poll that looks at all leaves that get an outcome. -/
private theorem punctual_poll {scene : Scene} (sound : Sound expr (evaluation.poll scene).1)
    (attentive : Attentive (evaluation.poll scene).1.session.outcome?
      (evaluation.progress.wakeAll (evaluation.news scene.hub)))
    (keys : ∀ entry ∈ history, entry.2.session.keys = evaluation.session.keys)
    (recorded : ∀ i s, record history i = some s → evaluation.session.outcome? i = some s.outcome)
    (started : start ≤ scene.journal.now) (dated : ∀ entry ∈ history, start ≤ entry.1)
    (early : young → start = scene.journal.now) (le : before ≤ scene.journal.now)
    (timely : Timely (fun d => evaluation.session.keys.idxOf d.key) (record history) start before young
      evaluation.progress expr (settlement? history (·.outcome?))) :
    Punctual expr start scene.journal.now (history ++ [(scene.journal.now, (evaluation.poll scene).1)])
      (evaluation.poll scene).1 := by
  have same_keys : (evaluation.poll scene).1.session.keys = evaluation.session.keys := Session.keys_advanceAll _ _ _
  have look : Look (record history) (record (history ++ [(scene.journal.now, (evaluation.poll scene).1)]))
      (evaluation.poll scene).1.session.outcome? before scene.journal.now := by
    refine ⟨fun i => ?_, fun i s has => ?_, fun i s unset has => ?_, le⟩
    · rw [record, settlement?_append]
      cases has : settlement? history (·.session.outcome? i) with
      | none => cases (evaluation.poll scene).1.session.outcome? i <;> rfl
      | some s =>
        have known := recorded i s has
        exact (Session.outcome?_advanceAll _ _ _ (.inr (by simp [known]))).trans known
    · rw [record, settlement?_append, show settlement? history _ = some s from has, Option.some_or]
    · rw [record, settlement?_append, show settlement? history _ = none from unset, Option.none_or] at has
      obtain ⟨o, -, rfl⟩ := Option.map_eq_some_iff.1 has
      rfl
  obtain ⟨s, later, same, current⟩ := Progress.collect_timely look started early _
    (timely.wakeAll (evaluation.news scene.hub)) attentive
  refine ⟨sound, fun entry mem => ?_, look.known, started, fun entry mem => ?_, ?_⟩
  · rcases List.mem_append.1 mem with mem | mem
    · exact (keys entry mem).trans same_keys.symm
    · rw [List.mem_singleton.1 mem]
  · rcases List.mem_append.1 mem with mem | mem
    · exact dated entry mem
    · rwa [List.mem_singleton.1 mem]
  · -- the settlement of the whole is recorded at the poll at which it has its outcome for the first time
    have recorded : settlement? (history ++ [(scene.journal.now, (evaluation.poll scene).1)]) (·.outcome?) = s := by
      have own : (evaluation.poll scene).1.outcome? = s.map (·.outcome) := later.outcome?_eq
      rw [settlement?_append, own]
      cases has : settlement? history (·.outcome?) with
      | some r => exact (same r has).symm
      | none =>
        cases s with
        | none => rfl
        | some r =>
          obtain ⟨t, outcome⟩ := r
          obtain rfl : t = scene.journal.now := current has _ rfl
          rfl
    rw [recorded, same_keys]
    exact later

theorem punctual_first (session : Session) (expr : Expr) (start first : Scene) :
    Punctual expr first.journal.now first.journal.now ((Evaluation.start session expr start).1.polls [first])
      (((Evaluation.start session expr start).1.poll first).1) := by
  obtain ⟨-, keyed, launched⟩ := Session.launch_spec expr session start.journal
  obtain ⟨fresh, -⟩ := launched.fresh_stands (session.launch expr start.journal).2.1.outcome?
  have timely : Timely _ (fun _ => none) first.journal.now 0 True _ expr none := launched.timely
  change Punctual expr _ _ ([] ++ [(first.journal.now, _)]) _
  exact punctual_poll (sound_first session expr start first) (fresh.wakeAll _).attentive (List.forall_mem_nil _) nofun
    (Nat.le_refl _) (List.forall_mem_nil _) (fun _ => rfl) (Nat.zero_le _) timely

theorem Punctual.poll {now : Nat} (punctual : Punctual expr start now history evaluation) {scene : Scene}
    (le : now ≤ scene.journal.now) : Punctual expr start scene.journal.now
      (history ++ [(scene.journal.now, (evaluation.poll scene).1)]) (evaluation.poll scene).1 := by
  have woken := punctual.sound.waits.wakeAll (evaluation.news scene.hub)
  rw [List.nil_append] at woken
  refine punctual_poll (punctual.sound.poll scene) ?_ punctual.keys (fun i s has => ?_)
    (Nat.le_trans punctual.started le) punctual.dated False.elim le punctual.timely
  · refine woken.attentive_of_due _ fun i leaf idle => ?_
    exact (Session.outcome?_advanceAll _ _ _ (.inl idle)).trans (woken.unset _ i leaf)
  · rw [punctual.known, has]
    rfl

/-- The evaluation after all its polls. -/
abbrev pollAll (evaluation : Evaluation) (scenes : List Scene) : Evaluation :=
  scenes.foldl (fun evaluation scene => (evaluation.poll scene).1) evaluation

theorem Punctual.polls {now : Nat} (punctual : Punctual expr start now history evaluation) {scenes : List Scene}
    (ordered : (now :: scenes.map (·.journal.now)).Pairwise (· ≤ ·)) :
    ∃ last, Punctual expr start last (history ++ evaluation.polls scenes) (evaluation.pollAll scenes) := by
  induction scenes generalizing now history evaluation with
  | nil => exact ⟨now, by rwa [Evaluation.polls, List.append_nil]⟩
  | cons scene scenes ih =>
    rw [List.map_cons, List.pairwise_cons] at ordered
    have next := ih (punctual.poll (ordered.1 _ List.mem_cons_self)) ordered.2
    rwa [List.append_assoc] at next

/-- What agrees in all evaluations settles at one time. -/
theorem settlement?_congr {what other : Evaluation → Option Outcome} (same : ∀ entry ∈ history, what entry.2 = other entry.2) :
    settlement? history what = settlement? history other := by
  induction history with
  | nil => rfl
  | cons entry history ih =>
    have rest := ih fun e mem => same e (List.mem_cons_of_mem _ mem)
    unfold settlement? at rest ⊢
    rw [List.findSome?_cons, List.findSome?_cons, same entry List.mem_cons_self, rest]

theorem Punctual.record_eq {now : Nat} (punctual : Punctual expr start now history evaluation) {d : Definition}
    (mem : d ∈ expr.leaves) :
    record history (evaluation.session.keys.idxOf d.key) = settlement? history (·.session.outcomeFor d) := by
  refine settlement?_congr fun entry listed => ?_
  have same := punctual.keys entry listed
  rw [Session.outcomeFor_eq (same ▸ punctual.sound.keyed d mem), same]

theorem Punctual.start_le {now : Nat} (punctual : Punctual expr start now history evaluation)
    {what : Evaluation → Option Outcome} {s : Settlement} (settles : settlement? history what = some s) :
    start ≤ s.instant := by
  obtain ⟨entry, mem, has⟩ := List.exists_of_findSome?_eq_some settles
  obtain ⟨o, -, rfl⟩ := Option.map_eq_some_iff.1 has
  exact punctual.dated entry mem

/-- What is recorded of leaves of the expression, whichever way they are looked up. -/
theorem Punctual.settlesAt {now : Nat} (punctual : Punctual expr start now history evaluation) {e : Expr}
    (within : ∀ d ∈ e.leaves, d ∈ expr.leaves) {s : Settlement}
    (settles : e.SettlesAt (fun d => record history (evaluation.session.keys.idxOf d.key)) start s) :
    e.SettlesAt (fun d => settlement? history (·.session.outcomeFor d)) start s ∧
      s.instant = latest start
        ((e.leaves.filterMap fun d => settlement? history (·.session.outcomeFor d)).map (·.instant)) := by
  have settles : e.SettlesAt (fun d => settlement? history (·.session.outcomeFor d)) start s :=
    settles.mono e fun d mem r has => by rwa [← punctual.record_eq (within d mem)]
  exact ⟨settles, settles.instant_eq (fun d r has => punctual.start_le has) e⟩

/-- All invocations of an expression begin with its first poll. -/
theorem begun_first (session : Session) (expr : Expr) (start first : Scene) : ∀ d ∈ expr.leaves,
    ∃ i ∈ ((Evaluation.start session expr start).1.poll first).1.session.invocations,
      i.definition.key = d.key ∧ i.stage ≠ .fresh := by
  intro d mem
  obtain ⟨-, keyed, launched⟩ := Session.launch_spec expr session start.journal
  obtain ⟨fresh, -⟩ := launched.fresh_stands (session.launch expr start.journal).2.1.outcome?
  have sound := sound_first session expr start first
  have same : ((Evaluation.start session expr start).1.poll first).1.session.keys =
      (session.launch expr start.journal).2.1.keys := Session.keys_advanceAll _ _ _
  have known := sound.keyed d mem
  obtain ⟨i, here, key⟩ : ∃ i, ((Evaluation.start session expr start).1.poll first).1.session.invocations[
      (session.launch expr start.journal).2.1.keys.idxOf d.key]? = some i ∧ i.definition.key = d.key := by
    have at_key := List.getElem?_idxOf known
    rw [Session.keys, List.getElem?_map, ← Session.keys, same] at at_key
    exact Option.map_eq_some_iff.1 at_key
  refine ⟨i, List.mem_of_getElem? here, key, ?_⟩
  refine Session.ne_fresh_advanceAll _ first (fun _ _ _ => ?_) i here
  refine Progress.Fresh.mem_due _ (fresh.wakeAll _) ?_
  have waits := List.mem_map_of_mem (f := fun d => (session.launch expr start.journal).2.1.keys.idxOf d.key) mem
  rwa [← launched.leaves_eq, ← Progress.leaves_wakeAll _ (Evaluation.news _ first.hub)] at waits

/-- However deep the groups of an expression are nested, all its invocations begin with its first poll, and every node
has settled once all leaves below it have: a group at the last instant of its operands, at once if it has none, and a
negation with its operand.  So an expression settles at the last instant at which one of its leaves does.  The error of
a group is that of an operand before which none of its operands that fail has settled (`Expr.SettlesAt`). -/
theorem settles_with_last (session : Session) (expr : Expr) (start first : Scene) (more : List Scene)
    (ordered : ((first :: more).map (·.journal.now)).Pairwise (· ≤ ·)) :
    let evaluation := (Evaluation.start session expr start).1
    let history := evaluation.polls (first :: more)
    let final := evaluation.pollAll (first :: more)
    let leaf d := settlement? history (·.session.outcomeFor d)
    (∀ d ∈ expr.leaves, ∃ i ∈ (evaluation.poll first).1.session.invocations,
      i.definition.key = d.key ∧ i.stage ≠ .fresh) ∧
    (∀ path node, final.progress.node? path = some node → ∃ e, expr.node? path = some e ∧
      (node.isSettled = true ↔ ∀ d ∈ e.leaves, (leaf d).isSome) ∧
      ∀ outcome, node.outcome? = some outcome →
        e.SettlesAt leaf first.journal.now
          ⟨latest first.journal.now ((e.leaves.filterMap leaf).map (·.instant)), outcome⟩) ∧
    ∀ s, settlement? history (·.outcome?) = some s →
      expr.SettlesAt leaf first.journal.now s ∧
      s.instant = latest first.journal.now ((expr.leaves.filterMap leaf).map (·.instant)) := by
  intro evaluation history final leaf
  obtain ⟨last, punctual⟩ := (punctual_first session expr start first).polls ordered
  have punctual : Punctual expr first.journal.now last history final := punctual
  refine ⟨begun_first session expr start first, fun path node here => ?_, fun s settles => ?_⟩
  · obtain ⟨e, r, found, timely⟩ := punctual.timely.node here
    have within := Expr.leaves_node? found
    refine ⟨e, found, ⟨fun settled => ?_, fun all => ?_⟩, fun outcome has => ?_⟩
    · obtain ⟨outcome, rfl⟩ := Progress.eq_settled settled
      obtain ⟨t, -, rfl, settles⟩ := timely
      exact (punctual.settlesAt within settles).1.leaves
    · by_contra waits
      obtain rfl : r = none := by
        have none_yet := timely.outcome?_eq
        rwa [Progress.isSettled_eq_false.1 (by simpa using waits), eq_comm, Option.map_eq_none_iff] at none_yet
      obtain ⟨d, mem, unset⟩ := timely.exists_unset
      rw [punctual.record_eq (within d mem)] at unset
      have settled := all d mem
      rw [show leaf d = none from unset] at settled
      cases settled
    · have own := timely.outcome?_eq
      rw [has] at own
      obtain ⟨s, rfl, rfl⟩ := Option.map_eq_some_iff.1 own.symm
      obtain ⟨settles, instant⟩ := punctual.settlesAt within timely.settlesAt
      exact instant ▸ settles
  · exact punctual.settlesAt (fun d mem => mem) (settles ▸ punctual.timely).settlesAt

/-- One operand of a group fails early, but the group is slow; the operand beside it fails later, and wins. -/
theorem slow_group_loses :
    let leaf (name : String) (ticks : Nat) (ending : Ending Bool) : Expr :=
      .leaf ⟨name, none, ⟨none, .single fun _ _ => .starts (.sleep ticks (.done ending))⟩, 0⟩
    let expr := .and [.or [leaf "quick" 1 (.failed ⟨"early", []⟩), leaf "slow" 5 (.value true)],
      leaf "beside" 3 (.failed ⟨"late", []⟩)]
    let scene (now : Nat) (woken : List Place) : Scene := ⟨{ Hub.empty with woken }, ⟨now, 0, []⟩⟩
    let first := scene 0 []
    let more := [scene 1 [[0]], scene 3 [[0], [2]], scene 5 [[0], [2], [1]]]
    let evaluation := (Evaluation.start (.start ⟨.null, "s", true, 0, none⟩) expr first).1
    let history := evaluation.polls (first :: more)
    ((first :: more).map (·.journal.now)).Pairwise (· ≤ ·) ∧
    (settlement? history (·.outcome?)).map (fun s => (s.instant, s.error?.bind (·.matcherName?))) =
      some (5, some "beside") ∧
    latest 0 ((expr.leaves.filterMap fun d => settlement? history (·.session.outcomeFor d)).map (·.instant)) = 5 := by
  intro leaf expr scene first more evaluation history
  have ordered : ((first :: more).map (·.journal.now)).Pairwise (· ≤ ·) := by decide +kernel
  have fares : (settlement? history (·.outcome?)).map (fun s => (s.instant, s.error?.bind (·.matcherName?))) =
      some (5, some "beside") := by decide +kernel
  obtain ⟨s, settles, same⟩ := Option.map_eq_some_iff.1 fares
  obtain ⟨-, -, whole⟩ := settles_with_last (.start ⟨.null, "s", true, 0, none⟩) expr first first more ordered
  refine ⟨ordered, fares, ?_⟩
  have last := (whole s settles).2
  have instant : s.instant = 5 := congrArg Prod.fst same
  exact last.symm.trans instant

end Evaluation

end Segmentation
