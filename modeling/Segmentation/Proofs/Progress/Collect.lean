import Mathlib.Data.List.Perm.Basic
import Segmentation.Proofs.Launch

/-!
# What an expression makes of the outcomes of its leaves

`Expr.Concludes` says which outcome an expression has to have once all its leaves have one: the value of the tree if
no leaf failed, and else the error of a leaf that did.  `Progress.Stands` says that an expression under evaluation has
collected, in whatever order, what the operands that have an outcome came to.  Looking at leaves keeps it so
(`Progress.collect_spec`).
-/

namespace Segmentation

namespace Expr

mutual

/-- The value of an expression whose leaves have the given values. -/
def value (v : Definition → Bool) : Expr → Bool
  | .leaf definition => v definition
  | .and operands => (values v operands).and
  | .or operands => (values v operands).or
  | .not operand => !value v operand

def values (v : Definition → Bool) : List Expr → List Bool
  | [] => []
  | e :: es => value v e :: values v es

end

mutual

/-- Only the leaves matter for the value. -/
theorem value_congr {v w : Definition → Bool} : (e : Expr) → (∀ d ∈ e.leaves, v d = w d) → e.value v = e.value w
  | .leaf d, h => h d (List.mem_singleton_self d)
  | .and es, h => by rw [value, value, values_congr es h]
  | .or es, h => by rw [value, value, values_congr es h]
  | .not e, h => by rw [value, value, value_congr e h]

theorem values_congr {v w : Definition → Bool} : (es : List Expr) → (∀ d ∈ leavesOfAll es, v d = w d) →
    values v es = values w es
  | [], _ => rfl
  | e :: es, h => by
    rw [values, values, value_congr e fun d hd => h d (List.mem_append_left _ hd),
      values_congr es fun d hd => h d (List.mem_append_right _ hd)]

end

/-- Expressions joined by a connective. -/
def join : Connective → List Expr → Expr
  | .and, operands => .and operands
  | .or, operands => .or operands

theorem leaves_join (c : Connective) (es : List Expr) : (join c es).leaves = leavesOfAll es := by cases c <;> rfl

theorem value_join (v : Definition → Bool) (c : Connective) (es : List Expr) :
    (join c es).value v = c.apply (values v es) := by
  cases c <;> simp [join, value, Connective.apply, List.and, List.or]

theorem mem_leavesOfAll {d : Definition} {es : List Expr} : d ∈ leavesOfAll es ↔ ∃ e ∈ es, d ∈ e.leaves := by
  induction es with
  | nil => simp [leavesOfAll]
  | cons e es ih => simp [leavesOfAll, ih]

/-- The value of a definition with an outcome; false if that is no value. -/
def answer (outcome : Definition → Option Outcome) (d : Definition) : Bool := outcome d matches some (.ok true)

/-- The outcome of an expression whose leaves have the given outcomes: a value if no leaf failed, and else the error
of one that did. -/
def Concludes (outcome : Definition → Option Outcome) (e : Expr) : Outcome → Prop
  | .ok b => (∀ d ∈ e.leaves, ∃ v, outcome d = some (.ok v)) ∧ b = e.value (answer outcome)
  | .error error => (∀ d ∈ e.leaves, (outcome d).isSome) ∧ ∃ d ∈ e.leaves, outcome d = some (.error error)

variable {outcome : Definition → Option Outcome}

theorem Concludes.isSome {e : Expr} {o : Outcome} (h : Concludes outcome e o) :
    ∀ d ∈ e.leaves, (outcome d).isSome := by
  cases o with
  | error => exact h.1
  | ok b =>
    intro d hd
    obtain ⟨v, hv⟩ := h.1 d hd
    simp [hv]

theorem concludes_leaf {d : Definition} {o : Outcome} (h : outcome d = some o) : Concludes outcome (.leaf d) o := by
  cases o with
  | ok b =>
    refine ⟨fun e he => ⟨b, by rw [List.mem_singleton.1 he, h]⟩, ?_⟩
    cases b <;> simp [value, answer, h]
  | error error => exact ⟨fun e he => by rw [List.mem_singleton.1 he, h]; rfl, d, List.mem_singleton_self d, h⟩

theorem Concludes.not {e : Expr} {o : Outcome} (h : Concludes outcome e o) :
    Concludes outcome (.not e) (o.map fun b => !b) := by
  cases o with
  | ok b => exact ⟨h.1, congrArg _ h.2⟩
  | error error => exact h

/-- Outcomes of leaves that are known stay. -/
theorem Concludes.mono {later : Definition → Option Outcome} {e : Expr} {o : Outcome} (h : Concludes outcome e o)
    (stays : ∀ d ∈ e.leaves, ∀ p, outcome d = some p → later d = some p) : Concludes later e o := by
  cases o with
  | ok b =>
    refine ⟨fun d hd => ?_, h.2.trans (value_congr e fun d hd => ?_)⟩
    · obtain ⟨v, hv⟩ := h.1 d hd
      exact ⟨v, stays d hd _ hv⟩
    · obtain ⟨v, hv⟩ := h.1 d hd
      rw [answer, answer, hv, stays d hd _ hv]
  | error error =>
    obtain ⟨some, d, hd, failed⟩ := h
    refine ⟨fun d hd => ?_, d, hd, stays d hd _ failed⟩
    obtain ⟨p, hp⟩ := Option.isSome_iff_exists.1 (some d hd)
    simp [stays d hd p hp]

/-- No failure is masked: an expression that has a value has no other outcome. -/
theorem Concludes.eq_ok {e : Expr} {b : Bool} {o : Outcome} (h : Concludes outcome e (.ok b))
    (other : Concludes outcome e o) : o = .ok b := by
  cases o with
  | ok b' => rw [other.2, h.2]
  | error error =>
    obtain ⟨-, d, hd, failed⟩ := other
    obtain ⟨v, hv⟩ := h.1 d hd
    rw [hv] at failed
    cases failed

/-- A value is that of the tree for the values of its leaves. -/
theorem concludes_ok_iff {e : Expr} {b : Bool} : Concludes outcome e (.ok b) ↔
    ∃ v : Definition → Bool, (∀ d ∈ e.leaves, outcome d = some (.ok (v d))) ∧ b = e.value v := by
  have answer_eq {d : Definition} {v : Bool} (hd : outcome d = some (.ok v)) : answer outcome d = v := by
    cases v <;> simp [answer, hd]
  constructor
  · rintro ⟨leaves_ok, rfl⟩
    refine ⟨answer outcome, fun d hd => ?_, rfl⟩
    obtain ⟨v, hv⟩ := leaves_ok d hd
    rw [answer_eq hv, hv]
  · rintro ⟨v, leaves_ok, rfl⟩
    exact ⟨fun d hd => ⟨v d, leaves_ok d hd⟩, value_congr e fun d hd => (answer_eq (leaves_ok d hd)).symm⟩

end Expr

namespace Progress

open Segmentation.Expr (Concludes answer)

/-! ### What a group has collected -/

/-- Values and a failure that were collected from outcomes, in whatever order. -/
structure Collected (outcomes : List Outcome) (values : List Bool) (failure : Option Error) : Prop where
  values : values.Perm (outcomes.filterMap Except.toOption)
  failed : ∀ error, failure = some error → .error error ∈ outcomes
  succeeded : failure = none → ∀ o ∈ outcomes, ∃ b, o = .ok b

namespace Collected

theorem nil : Collected [] [] none := ⟨.refl _, by simp, by simp⟩

theorem gather {outcomes : List Outcome} {values : List Bool} {failure : Option Error}
    (h : Collected outcomes values failure) (o : Outcome) :
    Collected (outcomes ++ [o]) (gather (values, failure) o).1 (gather (values, failure) o).2 := by
  cases o with
  | ok b =>
    refine ⟨?_, fun error he => List.mem_append_left _ (h.failed error he), fun none o ho => ?_⟩
    · simpa [Progress.gather, List.filterMap_append, Except.toOption] using h.values.append_right [b]
    · rcases List.mem_append.1 ho with ho | ho
      · exact h.succeeded none o ho
      · exact ⟨b, List.mem_singleton.1 ho⟩
  | error error =>
    refine ⟨?_, fun first he => ?_, fun none => ?_⟩
    · simpa [Progress.gather, List.filterMap_append, List.filterMap_cons, Except.toOption] using h.values
    · cases failure with
      | none =>
        obtain rfl : error = first := by simpa [Progress.gather] using he
        exact List.mem_append_right _ (List.mem_singleton_self _)
      | some e => exact List.mem_append_left _ (h.failed first (by simpa [Progress.gather] using he))
    · cases failure <;> simp [Progress.gather] at none

theorem foldl {outcomes : List Outcome} {values : List Bool} {failure : Option Error}
    (h : Collected outcomes values failure) (more : List Outcome) :
    Collected (outcomes ++ more) (more.foldl Progress.gather (values, failure)).1
      (more.foldl Progress.gather (values, failure)).2 := by
  induction more generalizing outcomes values failure with
  | nil => simpa using h
  | cons o more ih => simpa using ih (h.gather o)

theorem perm {outcomes others : List Outcome} {values : List Bool} {failure : Option Error}
    (h : Collected outcomes values failure) (same : outcomes.Perm others) : Collected others values failure where
  values := h.values.trans (same.filterMap _)
  failed error he := same.mem_iff.1 (h.failed error he)
  succeeded none o ho := h.succeeded none o (same.mem_iff.2 ho)

end Collected

theorem apply_perm (c : Connective) {values others : List Bool} (h : values.Perm others) :
    c.apply values = c.apply others := by
  cases c
  · exact h.all_eq
  · exact h.any_eq

section Operands

variable {outcome : Definition → Option Outcome} {es : List Expr} {outcomes : List Outcome}

theorem isSome_of_operands (each : List.Forall₂ (Concludes outcome) es outcomes) :
    ∀ d ∈ Expr.leavesOfAll es, (outcome d).isSome := by
  induction each with
  | nil => simp [Expr.leavesOfAll]
  | cons h _ ih =>
    intro d hd
    rcases List.mem_append.1 hd with hd | hd
    · exact h.isSome d hd
    · exact ih d hd

theorem failed_of_operands (each : List.Forall₂ (Concludes outcome) es outcomes) {error : Error}
    (failed : .error error ∈ outcomes) : ∃ d ∈ Expr.leavesOfAll es, outcome d = some (.error error) := by
  induction each with
  | nil => cases failed
  | cons h _ ih =>
    rcases List.mem_cons.1 failed with rfl | failed
    · obtain ⟨-, d, hd, hf⟩ := h
      exact ⟨d, List.mem_append_left _ hd, hf⟩
    · obtain ⟨d, hd, hf⟩ := ih failed
      exact ⟨d, List.mem_append_right _ hd, hf⟩

theorem values_of_operands (each : List.Forall₂ (Concludes outcome) es outcomes)
    (succeeded : ∀ o ∈ outcomes, ∃ b, o = .ok b) :
    (∀ d ∈ Expr.leavesOfAll es, ∃ v, outcome d = some (.ok v)) ∧
      outcomes.filterMap Except.toOption = Expr.values (answer outcome) es := by
  induction each with
  | nil => simp [Expr.leavesOfAll, Expr.values]
  | @cons e o es os h _ ih =>
    obtain ⟨b, rfl⟩ := succeeded o List.mem_cons_self
    obtain ⟨leaves_ok, rfl⟩ := h
    obtain ⟨all_ok, eq⟩ := ih fun o ho => succeeded o (List.mem_cons_of_mem _ ho)
    refine ⟨fun d hd => ?_, congrArg _ eq⟩
    rcases List.mem_append.1 hd with hd | hd
    · exact leaves_ok d hd
    · exact all_ok d hd

/-- When a group has collected the outcomes of all its operands it concludes as it has to. -/
theorem concludes_join (each : List.Forall₂ (Concludes outcome) es outcomes) (c : Connective) {values : List Bool}
    {failure : Option Error} (h : Collected outcomes values failure) :
    Concludes outcome (.join c es) (conclude c values failure) := by
  cases failure with
  | some error =>
    rw [conclude, Concludes, Expr.leaves_join]
    exact ⟨isSome_of_operands each, failed_of_operands each (h.failed error rfl)⟩
  | none =>
    obtain ⟨leaves_ok, eq⟩ := values_of_operands each (h.succeeded rfl)
    rw [conclude, Concludes, Expr.leaves_join, Expr.value_join, ← eq]
    exact ⟨leaves_ok, apply_perm c h.values⟩

end Operands

/-! ### An expression under evaluation -/

section Standing

variable (number : Definition → Nat) (outcome : Nat → Option Outcome)

mutual

/-- What has become of an expression: settled with the outcome that it has to have, or waiting, with the outcomes of
the operands that have settled collected. -/
def Stands : Progress → Expr → Prop
  | .leaf invocation _, e => ∃ d, e = .leaf d ∧ invocation = number d
  | .group connective _ _ operands values failure, e =>
    ∃ es, e = .join connective es ∧ StandAll operands es ∧ Collected (operands.filterMap outcome?) values failure
  | .not operand, e => ∃ f, e = .not f ∧ Stands operand f
  | .settled o, e => Concludes (fun d => outcome (number d)) e o

def StandAll : List Progress → List Expr → Prop
  | [], es => es = []
  | p :: ps, es => ∃ f fs, es = f :: fs ∧ Stands p f ∧ StandAll ps fs

end

mutual

/-- A waiting expression of which the leaves at the given invocations were woken since they were last looked at: a
group has queued the operands below which one of them is.  No leaf that waits has an outcome, and every group that
waits does so for an operand. -/
def Woken (woken : List Nat) : Progress → Prop
  | .leaf invocation _ => outcome invocation = none
  | .group _ queue _ operands _ _ =>
    queue.Nodup ∧ (∃ p ∈ operands, p.isSettled = false) ∧
      (∀ k, k ∈ queue ↔ ∃ p, operands[k]? = some p ∧ ∃ i ∈ woken, i ∈ p.leaves) ∧ AllWoken woken operands
  | .not operand => operand.isSettled = false ∧ Woken woken operand
  | .settled _ => True

def AllWoken (woken : List Nat) : List Progress → Prop
  | [] => True
  | p :: ps => Woken woken p ∧ AllWoken woken ps

end

mutual

/-- Every leaf that has an outcome is going to be looked at, for the groups above it have queued it. -/
def Attentive : Progress → Prop
  | .leaf _ _ => True
  | .group _ queue _ operands _ _ => queue.Nodup ∧ AllAttentive queue 0 operands
  | .not operand => operand.isSettled = false ∧ Attentive operand
  | .settled _ => True

/-- The operands of a group; `index` is the position of the first one. -/
def AllAttentive (queue : List Nat) (index : Nat) : List Progress → Prop
  | [] => True
  | p :: ps =>
    (if index ∈ queue then p.isSettled = false ∧ Attentive p else Woken outcome [] p) ∧
      AllAttentive queue (index + 1) ps

end

end Standing

variable {number : Definition → Nat} {outcome : Nat → Option Outcome}

/-! ### The outcomes of the operands looked at -/

theorem filterMap_eq_range {α β : Type} (f : α → Option β) (l : List α) :
    l.filterMap f = (List.range l.length).filterMap fun k => l[k]?.bind f := by
  induction l with
  | nil => rfl
  | cons a l ih =>
    rw [List.length_cons, List.range_succ_eq_map, List.filterMap_cons, List.filterMap_cons, List.filterMap_map, ih]
    rfl

theorem length_collectQueued (queue : List Nat) (index : Nat) (ps : List Progress) :
    (collectQueued outcome queue index ps).length = ps.length := by
  induction ps generalizing index with
  | nil => rfl
  | cons p ps ih => simp [collectQueued, ih]

theorem getElem?_collectQueued (queue : List Nat) (index : Nat) (ps : List Progress) (k : Nat) :
    (collectQueued outcome queue index ps)[k]? =
      ps[k]?.map fun p => if index + k ∈ queue then p.collect outcome else p := by
  induction ps generalizing index k with
  | nil => simp [collectQueued]
  | cons p ps ih =>
    cases k with
    | zero => simp [collectQueued]
    | succ k => simp [collectQueued, ih, Nat.add_assoc, Nat.add_comm 1]

theorem filterMap_range_perm {β : Type} (n : Nat) (queue : List Nat) (f : Nat → Option β) :
    ((List.range n).filterMap f).Perm (((List.range n).filter (· ∉ queue)).filterMap f ++
      ((List.range n).filter (· ∈ queue)).filterMap f) := by
  rw [← List.filterMap_append]
  simpa using ((List.filter_append_perm (· ∉ queue) (List.range n)).symm).filterMap f

theorem filterMap_queued_perm {β : Type} {n : Nat} {queue : List Nat} (nodup : queue.Nodup) {f : Nat → Option β}
    (none : ∀ k, n ≤ k → f k = none) :
    (((List.range n).filter (· ∈ queue)).filterMap f).Perm (queue.filterMap f) := by
  have within : queue.filterMap f = (queue.filter (· < n)).filterMap f := by
    rw [List.filterMap_filter]
    refine List.filterMap_congr fun k _ => ?_
    by_cases h : k < n
    · simp [h]
    · simp [h, none k (Nat.le_of_not_lt h)]
  rw [within]
  have same : ((List.range n).filter (· ∈ queue)).Perm (queue.filter (· < n)) := by
    refine (List.perm_ext_iff_of_nodup (List.nodup_range.filter _) (nodup.filter _)).2 fun k => ?_
    simp [and_comm]
  exact same.filterMap f

/-- If none of the queued members of a list had come to something, those that have after they were looked at have come
to it now. -/
theorem settled_perm {α β : Type} {f : α → Option β} {ps later : List α} {queue : List Nat} (nodup : queue.Nodup)
    (length_eq : later.length = ps.length) (waited : ∀ k ∈ queue, ps[k]?.bind f = none)
    (same : ∀ k, k ∉ queue → later[k]? = ps[k]?) :
    (ps.filterMap f ++ queue.filterMap fun k => later[k]?.bind f).Perm (later.filterMap f) := by
  -- By positions: the settled members outside of the queue were so before, those in it are so only now.
  have before : (ps.filterMap f).Perm
      (((List.range ps.length).filter (· ∉ queue)).filterMap fun k => later[k]?.bind f) := by
    rw [filterMap_eq_range f ps]
    refine (filterMap_range_perm _ queue _).trans (List.Perm.of_eq ?_)
    have queued : ((List.range ps.length).filter (· ∈ queue)).filterMap (fun k => ps[k]?.bind f) = [] :=
      List.filterMap_eq_nil_iff.2 fun k hk => waited k (by simpa using (List.mem_filter.1 hk).2)
    rw [queued, List.append_nil]
    exact List.filterMap_congr fun k hk => by rw [same k (by simpa using (List.mem_filter.1 hk).2)]
  have now := filterMap_queued_perm (f := fun k => later[k]?.bind f) nodup fun k hk => by
    rw [List.getElem?_eq_none (length_eq ▸ hk)]
    rfl
  rw [filterMap_eq_range f later, length_eq]
  exact (before.append now.symm).trans (filterMap_range_perm _ queue _).symm

/-! ### Looking at leaves -/

theorem isSettled_eq_false {p : Progress} : p.isSettled = false ↔ p.outcome? = none := by
  simp [isSettled]

theorem eq_settled {p : Progress} (h : p.isSettled = true) : ∃ o, p = .settled o := by
  cases p <;> simp [isSettled, outcome?] at h
  exact ⟨_, rfl⟩

theorem AllAttentive.waited {queue : List Nat} {index : Nat} {ps : List Progress}
    (h : AllAttentive outcome queue index ps) {k : Nat} (hk : index + k ∈ queue) : ps[k]?.bind outcome? = none := by
  induction ps generalizing index k with
  | nil => simp
  | cons p ps ih =>
    cases k with
    | zero =>
      have first := h.1
      rw [if_pos (by simpa using hk)] at first
      simpa using isSettled_eq_false.1 first.1
    | succ k =>
      rw [List.getElem?_cons_succ]
      exact ih h.2 (by rwa [Nat.add_assoc, Nat.add_comm 1])

/-- When all operands have settled they have what they have to. -/
theorem concludes_of_settled {ps : List Progress} {es : List Expr} (stand : StandAll number outcome ps es)
    (settled : ps.all isSettled = true) :
    List.Forall₂ (Concludes fun d => outcome (number d)) es (ps.filterMap outcome?) := by
  induction ps generalizing es with
  | nil => rw [show es = [] from stand]; exact .nil
  | cons p ps ih =>
    obtain ⟨e, es, rfl, first, rest⟩ := stand
    rw [List.all_cons, Bool.and_eq_true] at settled
    obtain ⟨o, rfl⟩ := eq_settled settled.1
    exact .cons first (ih rest settled.2)

theorem regroup_spec {c : Connective} {queue pending : List Nat} {later : List Progress} {values : List Bool}
    {failure : Option Error} {es : List Expr} (stand : StandAll number outcome later es)
    (woken : AllWoken outcome [] later)
    (collected : Collected (later.filterMap outcome?)
      ((queue.filterMap fun k => later[k]?.bind outcome?).foldl gather (values, failure)).1
      ((queue.filterMap fun k => later[k]?.bind outcome?).foldl gather (values, failure)).2) :
    Stands number outcome (regroup c queue pending later values failure) (.join c es) ∧
      Woken outcome [] (regroup c queue pending later values failure) := by
  unfold regroup
  by_cases settled : later.all isSettled = true
  · simp only [settled, if_true]
    exact ⟨concludes_join (concludes_of_settled stand settled) c collected, trivial⟩
  · simp only [settled]
    refine ⟨⟨es, rfl, stand, collected⟩, List.nodup_nil, ?_, by simp, woken⟩
    simpa using settled

theorem negate_spec {p : Progress} {e : Expr} (stands : Stands number outcome p e) (woken : Woken outcome [] p) :
    Stands number outcome (negate p) (.not e) ∧ Woken outcome [] (negate p) := by
  cases p with
  | settled o =>
    cases o with
    | ok b => exact ⟨Concludes.not stands, trivial⟩
    | error error => exact ⟨Concludes.not stands, trivial⟩
  | leaf => exact ⟨⟨e, rfl, stands⟩, rfl, woken⟩
  | group => exact ⟨⟨e, rfl, stands⟩, rfl, woken⟩
  | not => exact ⟨⟨e, rfl, stands⟩, rfl, woken⟩

mutual

/-- Once an attentive expression has looked at its leaves it has taken up all outcomes that there are. -/
theorem collect_spec : (p : Progress) → {e : Expr} → Stands number outcome p e → Attentive outcome p →
    Stands number outcome (p.collect outcome) e ∧ Woken outcome [] (p.collect outcome)
  | .leaf i seat, _, ⟨d, he, hi⟩, _ => by
    subst he hi
    cases h : outcome (number d) with
    | some o => simpa [collect, h] using ⟨Expr.concludes_leaf h, trivial⟩
    | none => simpa [collect, h] using ⟨⟨d, rfl, rfl⟩, h⟩
  | .group c queue pending ps values failure, _, ⟨es, he, stand, collected⟩, ⟨nodup, attentive⟩ => by
    subst he
    obtain ⟨stand', woken'⟩ := collectQueued_spec ps stand attentive
    refine regroup_spec stand' woken' ((collected.foldl _).perm (settled_perm nodup (length_collectQueued ..) ?_ ?_))
    · exact fun k hk => attentive.waited (by simpa using hk)
    · intro k hk
      rw [getElem?_collectQueued]
      simp [hk]
  | .not p, _, ⟨e, he, stands⟩, ⟨_, attentive⟩ => by
    subst he
    obtain ⟨stands', woken'⟩ := collect_spec p stands attentive
    exact negate_spec stands' woken'
  | .settled _, _, stands, _ => ⟨stands, trivial⟩

theorem collectQueued_spec {queue : List Nat} : {index : Nat} → (ps : List Progress) → {es : List Expr} →
    StandAll number outcome ps es → AllAttentive outcome queue index ps →
    StandAll number outcome (collectQueued outcome queue index ps) es ∧
      AllWoken outcome [] (collectQueued outcome queue index ps)
  | _, [], _, stand, _ => ⟨stand, trivial⟩
  | index, p :: ps, _, ⟨e, es, he, first, rest⟩, ⟨attentive, others⟩ => by
    subst he
    obtain ⟨rest', woken'⟩ := collectQueued_spec ps rest others
    by_cases queued : index ∈ queue
    · rw [if_pos queued] at attentive
      obtain ⟨first', woken₁⟩ := collect_spec p first attentive.2
      simp only [collectQueued, if_pos queued]
      exact ⟨⟨e, es, rfl, first', rest'⟩, woken₁, woken'⟩
    · rw [if_neg queued] at attentive
      simp only [collectQueued, if_neg queued]
      exact ⟨⟨e, es, rfl, first, rest'⟩, attentive, woken'⟩

end

end Progress

end Segmentation
