import Segmentation.Proofs.Progress.Collect

/-!
# Waking leaves

Between two looks a waiting expression is told which invocations were woken.  A group queues an operand exactly when
a leaf below it waits for one of them (`Progress.Woken.wakeAll`), so if no other invocation has got an outcome, every
leaf with an outcome is looked at (`Progress.Woken.attentive`).  An expression that was only launched looks at all its
leaves (`Progress.Fresh.attentive`).
-/

namespace Segmentation

namespace Gathering

theorem insertRanked_perm (entry : Nat × Nat) (sorted : List (Nat × Nat)) :
    (insertRanked entry sorted).Perm (entry :: sorted) := by
  induction sorted with
  | nil => exact .refl _
  | cons other others ih =>
    unfold insertRanked
    split
    · exact .refl _
    · exact (ih.cons other).trans (.swap entry other others)

theorem foldl_insertRanked_perm (entries sorted : List (Nat × Nat)) :
    (entries.foldl (fun sorted entry => insertRanked entry sorted) sorted).Perm (entries ++ sorted) := by
  induction entries generalizing sorted with
  | nil => exact .refl _
  | cons entry entries ih =>
    exact (ih _).trans (((insertRanked_perm entry sorted).append_left entries).trans List.perm_middle)

/-- Ranking members only changes their order. -/
theorem ranked_perm (entries : List (Nat × Nat)) : (ranked entries).Perm (entries.map (·.2)) := by
  simpa [ranked] using (foldl_insertRanked_perm entries []).map (·.2)

end Gathering

namespace Progress

/-! ### What waking leaves alone -/

mutual

theorem isSome_seat? (i : Nat) : (p : Progress) → ((p.seat? i).isSome ↔ i ∈ p.leaves)
  | .leaf j seat => by
    by_cases h : j = i
    · simp [seat?, leaves, h]
    · simp [seat?, leaves, h, Ne.symm h]
  | .group _ _ _ ps _ _ => isSome_seatAmong? i ps
  | .not p => isSome_seat? i p
  | .settled _ => by simp [seat?, leaves]

theorem isSome_seatAmong? (i : Nat) : (ps : List Progress) → ((seatAmong? i ps).isSome ↔ i ∈ leavesOfAll ps)
  | [] => by simp [seatAmong?, leavesOfAll]
  | p :: ps => by
    have first : ((seatAmong? i (p :: ps)).isSome ↔ (p.seat? i).isSome ∨ (seatAmong? i ps).isSome) := by
      rw [seatAmong?]
      cases p.seat? i <;> cases seatAmong? i ps <;> simp [firstSeat]
    rw [first, isSome_seat? i p, isSome_seatAmong? i ps, leavesOfAll, List.mem_append]

end

mutual

@[simp] theorem leaves_wake (i : Nat) : (p : Progress) → (p.wake i).leaves = p.leaves
  | .leaf _ _ => rfl
  | .group _ _ _ ps _ _ => leavesOfAll_wakeOperands i ps
  | .not p => leaves_wake i p
  | .settled _ => rfl

theorem leavesOfAll_wakeOperands (i : Nat) : (ps : List Progress) → leavesOfAll (wakeOperands i ps) = leavesOfAll ps
  | [] => rfl
  | p :: ps => by rw [wakeOperands, leavesOfAll, leavesOfAll, leaves_wake i p, leavesOfAll_wakeOperands i ps]

end

@[simp] theorem outcome?_wake (i : Nat) (p : Progress) : (p.wake i).outcome? = p.outcome? := by cases p <;> rfl

@[simp] theorem isSettled_wake (i : Nat) (p : Progress) : (p.wake i).isSettled = p.isSettled := by simp [isSettled]

theorem wakeOperands_eq_map (i : Nat) (ps : List Progress) : wakeOperands i ps = ps.map (wake i) := by
  induction ps with
  | nil => rfl
  | cons p ps ih => rw [wakeOperands, ih, List.map_cons]

theorem mem_leavesOfAll {i : Nat} {ps : List Progress} : i ∈ leavesOfAll ps ↔ ∃ p ∈ ps, i ∈ p.leaves := by
  induction ps with
  | nil => simp [leavesOfAll]
  | cons p ps ih => simp [leavesOfAll, ih]

section

variable {number : Definition → Nat} {outcome : Nat → Option Outcome}

mutual

/-- Waking changes nothing of what an expression has become. -/
theorem Stands.wake (i : Nat) : (p : Progress) → {e : Expr} → Stands number outcome p e →
    Stands number outcome (p.wake i) e
  | .leaf _ _, _, h => h
  | .group _ _ _ ps _ _, _, ⟨es, he, stand, collected⟩ => by
    refine ⟨es, he, StandAll.wake i ps stand, ?_⟩
    rw [wakeOperands_eq_map, List.filterMap_map]
    simpa [Function.comp_def] using collected
  | .not p, _, ⟨e, he, stands⟩ => ⟨e, he, Stands.wake i p stands⟩
  | .settled _, _, h => h

theorem StandAll.wake (i : Nat) : (ps : List Progress) → {es : List Expr} → StandAll number outcome ps es →
    StandAll number outcome (wakeOperands i ps) es
  | [], _, h => h
  | p :: ps, _, ⟨e, es, he, first, rest⟩ => ⟨e, es, he, Stands.wake i p first, StandAll.wake i ps rest⟩

end

mutual

/-- Outcomes that are known stay. -/
theorem Stands.mono {later : Nat → Option Outcome} (stays : ∀ i o, outcome i = some o → later i = some o) :
    (p : Progress) → {e : Expr} → Stands number outcome p e → Stands number later p e
  | .leaf _ _, _, h => h
  | .group _ _ _ ps _ _, _, ⟨es, he, stand, collected⟩ => ⟨es, he, StandAll.mono stays ps stand, collected⟩
  | .not p, _, ⟨e, he, stands⟩ => ⟨e, he, Stands.mono stays p stands⟩
  | .settled _, _, h => Expr.Concludes.mono h fun d _ o => stays (number d) o

theorem StandAll.mono {later : Nat → Option Outcome} (stays : ∀ i o, outcome i = some o → later i = some o) :
    (ps : List Progress) → {es : List Expr} → StandAll number outcome ps es → StandAll number later ps es
  | [], _, h => h
  | p :: ps, _, ⟨e, es, he, first, rest⟩ => ⟨e, es, he, Stands.mono stays p first, StandAll.mono stays ps rest⟩

end

/-! ### Queued operands -/

theorem map_filterMap_sublist {α β γ : Type} {f : α → Option β} {g : β → γ} {h : α → γ}
    (agree : ∀ a b, f a = some b → g b = h a) (l : List α) : ((l.filterMap f).map g).Sublist (l.map h) := by
  induction l with
  | nil => exact .slnil
  | cons a l ih =>
    rw [List.filterMap_cons]
    split
    · exact ih.cons _
    · rename_i b hb
      rw [List.map_cons, List.map_cons, agree a b hb]
      exact ih.cons_cons _

/-- The operands that a group adds to its queue. -/
theorem enqueue_perm (i : Nat) (ps : List Progress) (queue : List Nat) : ∃ added : List Nat, added.Nodup ∧
    (∀ k, k ∈ added ↔ k ∉ queue ∧ ∃ p, ps[k]? = some p ∧ i ∈ p.leaves) ∧ enqueue i ps queue = queue ++ added := by
  refine ⟨_, ?_, ?_, rfl⟩
  · refine (Gathering.ranked_perm _).nodup_iff.2 ?_
    refine List.Nodup.sublist (map_filterMap_sublist (h := (·.2)) ?_ ps.zipIdx) ?_
    · rintro ⟨p, k⟩ ⟨seat, k'⟩ h
      obtain ⟨seat', -, h⟩ := Option.bind_eq_some_iff.1 h
      split at h <;> cases h
      rfl
    · rw [List.zipIdx_map_snd]
      exact List.nodup_range'
  · intro k
    rw [(Gathering.ranked_perm _).mem_iff]
    simp only [List.mem_map, List.mem_filterMap, Prod.exists, List.mem_zipIdx_iff_getElem?, Option.bind_eq_some_iff]
    constructor
    · rintro ⟨seat, _, ⟨p, k, hp, seat', hs, h⟩, rfl⟩
      split at h <;> cases h
      exact ⟨‹_›, p, hp, (isSome_seat? i p).1 (by simp [hs])⟩
    · rintro ⟨fresh, p, hp, hi⟩
      obtain ⟨seat, hs⟩ := Option.isSome_iff_exists.1 ((isSome_seat? i p).2 hi)
      exact ⟨seat, k, ⟨p, k, hp, seat, hs, by rw [if_neg fresh]⟩, rfl⟩

theorem nodup_enqueue {i : Nat} {ps : List Progress} {queue : List Nat} (nodup : queue.Nodup) :
    (enqueue i ps queue).Nodup := by
  obtain ⟨added, nodup', mem, eq⟩ := enqueue_perm i ps queue
  rw [eq, List.nodup_append]
  exact ⟨nodup, nodup', fun a ha b hb same => ((mem b).1 hb).1 (same ▸ ha)⟩

theorem mem_enqueue {i k : Nat} {ps : List Progress} {queue : List Nat} :
    k ∈ enqueue i ps queue ↔ k ∈ queue ∨ ∃ p, ps[k]? = some p ∧ i ∈ p.leaves := by
  obtain ⟨added, -, mem, eq⟩ := enqueue_perm i ps queue
  rw [eq, List.mem_append, mem k]
  tauto

mutual

theorem Woken.wake {woken : List Nat} (i : Nat) : (p : Progress) → Woken outcome woken p →
    Woken outcome (woken ++ [i]) (p.wake i)
  | .leaf _ _, h => h
  | .group _ queue _ ps _ _, ⟨nodup, waits, mem, all⟩ => by
    refine ⟨nodup_enqueue nodup, ?_, fun k => ?_, AllWoken.wake i ps all⟩
    · rw [wakeOperands_eq_map]
      obtain ⟨p, hp, waits⟩ := waits
      exact ⟨p.wake i, List.mem_map_of_mem hp, by simpa using waits⟩
    · rw [mem_enqueue, mem k, wakeOperands_eq_map, List.getElem?_map]
      cases ps[k]? with
      | none => simp
      | some p => simp [or_and_right, exists_or]
  | .not p, ⟨waits, h⟩ => ⟨by simpa using waits, Woken.wake i p h⟩
  | .settled _, _ => trivial

theorem AllWoken.wake {woken : List Nat} (i : Nat) : (ps : List Progress) → AllWoken outcome woken ps →
    AllWoken outcome (woken ++ [i]) (wakeOperands i ps)
  | [], _ => trivial
  | p :: ps, ⟨first, rest⟩ => ⟨Woken.wake i p first, AllWoken.wake i ps rest⟩

end

theorem Stands.wakeAll {p : Progress} {e : Expr} (h : Stands number outcome p e) (is : List Nat) :
    Stands number outcome (p.wakeAll is) e := by
  induction is generalizing p with
  | nil => exact h
  | cons i is ih => exact ih (h.wake i)

theorem leaves_wakeAll (p : Progress) (is : List Nat) : (p.wakeAll is).leaves = p.leaves := by
  induction is generalizing p with
  | nil => rfl
  | cons i is ih => exact (ih (p.wake i)).trans (leaves_wake i p)

theorem Woken.wakeAll {woken : List Nat} {p : Progress} (h : Woken outcome woken p) (is : List Nat) :
    Woken outcome (woken ++ is) (p.wakeAll is) := by
  induction is generalizing p woken with
  | nil => simpa [Progress.wakeAll] using h
  | cons i is ih => simpa [Progress.wakeAll] using ih (Woken.wake i p h)

/-! ### Which leaves are looked at -/

mutual

/-- Where no leaf was woken, and none has got an outcome, nothing has to be looked at. -/
theorem Woken.rest {woken : List Nat} {later : Nat → Option Outcome} : (p : Progress) → Woken outcome woken p →
    (∀ i ∈ p.leaves, i ∉ woken ∧ later i = none) → Woken later [] p
  | .leaf i _, _, unset => (unset i (List.mem_singleton_self i)).2
  | .group _ queue _ ps _ _, ⟨nodup, waits, mem, all⟩, unset => by
    refine ⟨nodup, waits, fun k => ?_, AllWoken.rest ps all unset⟩
    rw [mem k]
    constructor
    · rintro ⟨p, hp, i, hi, leaf⟩
      exact absurd hi (unset i (mem_leavesOfAll.2 ⟨p, List.mem_of_getElem? hp, leaf⟩)).1
    · rintro ⟨_, _, _, ⟨⟩, _⟩
  | .not p, ⟨waits, h⟩, unset => ⟨waits, Woken.rest p h unset⟩
  | .settled _, _, _ => trivial

theorem AllWoken.rest {woken : List Nat} {later : Nat → Option Outcome} : (ps : List Progress) →
    AllWoken outcome woken ps → (∀ i ∈ leavesOfAll ps, i ∉ woken ∧ later i = none) → AllWoken later [] ps
  | [], _, _ => trivial
  | p :: ps, ⟨first, rest⟩, unset =>
    ⟨Woken.rest p first fun i hi => unset i (List.mem_append_left _ hi),
      AllWoken.rest ps rest fun i hi => unset i (List.mem_append_right _ hi)⟩

end

theorem leaves_settled {p : Progress} (h : p.isSettled = true) : p.leaves = [] := by
  obtain ⟨o, rfl⟩ := eq_settled h
  rfl

mutual

/-- If no invocation got an outcome but those that were woken, all leaves with an outcome are looked at. -/
theorem Woken.attentive {woken : List Nat} {later : Nat → Option Outcome} : (p : Progress) →
    Woken outcome woken p → (∀ i ∈ p.leaves, i ∉ woken → later i = none) → Attentive later p
  | .leaf _ _, _, _ => trivial
  | .group _ queue _ ps _ _, ⟨nodup, _, mem, all⟩, unset =>
    ⟨nodup, AllWoken.attentive ps (fun k => by rw [Nat.zero_add]; exact mem k) all unset⟩
  | .not p, ⟨waits, h⟩, unset => ⟨waits, Woken.attentive p h unset⟩
  | .settled _, _, _ => trivial

theorem AllWoken.attentive {woken queue : List Nat} {later : Nat → Option Outcome} {index : Nat} :
    (ps : List Progress) →
    (∀ k, index + k ∈ queue ↔ ∃ p, ps[k]? = some p ∧ ∃ i ∈ woken, i ∈ p.leaves) → AllWoken outcome woken ps →
    (∀ i ∈ leavesOfAll ps, i ∉ woken → later i = none) → AllAttentive later queue index ps
  | [], _, _, _ => trivial
  | p :: ps, mem, ⟨first, rest⟩, unset => by
    have first_none : ∀ i ∈ p.leaves, i ∉ woken → later i = none :=
      fun i hi => unset i (List.mem_append_left _ hi)
    refine ⟨?_, AllWoken.attentive ps (fun k => ?_) rest fun i hi => unset i (List.mem_append_right _ hi)⟩
    · split
      · rename_i queued
        obtain ⟨_, ⟨⟩, i, hi, leaf⟩ := (mem 0).1 queued
        refine ⟨?_, Woken.attentive p first first_none⟩
        by_contra settled
        rw [leaves_settled (by simpa using settled)] at leaf
        cases leaf
      · -- no leaf below an operand outside of the queue was woken
        rename_i idle
        refine Woken.rest p first fun i hi => ?_
        have asleep : i ∉ woken := fun hw => idle ((mem 0).2 ⟨p, rfl, i, hw, hi⟩)
        exact ⟨asleep, first_none i hi asleep⟩
    · rw [Nat.add_assoc, Nat.add_comm 1, mem (k + 1), List.getElem?_cons_succ]

end

theorem mem_due_group {c : Connective} {queue pending : List Nat} {ps : List Progress} {values : List Bool}
    {failure : Option Error} {i : Nat} : i ∈ (Progress.group c queue pending ps values failure).due ↔
      ∃ k ∈ queue, ∃ p, ps[k]? = some p ∧ i ∈ p.due := by
  have below (k : Nat) : i ∈ (dueOperands ps).getD k [] ↔ ∃ p, ps[k]? = some p ∧ i ∈ p.due := by
    induction ps generalizing k with
    | nil => simp [dueOperands]
    | cons p ps ih =>
      cases k with
      | zero => simp [dueOperands]
      | succ k => simpa [dueOperands] using ih k
  simp only [due, List.mem_flatMap, below]

mutual

/-- Below an operand that was queued only leaves at invocations that were woken are looked at. -/
theorem Woken.due_subset {woken : List Nat} : (p : Progress) → Woken outcome woken p →
    (∃ j ∈ woken, j ∈ p.leaves) → ∀ i ∈ p.due, i ∈ woken
  | .leaf i _, _, ⟨j, hj, at_leaf⟩, k, hk => by
    rw [List.mem_singleton.1 hk, ← List.mem_singleton.1 at_leaf]
    exact hj
  | .group _ _ _ ps _ _, h, _, i, hi => by
    obtain ⟨k, hk, p, hp, hi⟩ := mem_due_group.1 hi
    obtain ⟨_, _, mem, all⟩ := h
    obtain ⟨p', hp', below⟩ := (mem k).1 hk
    obtain rfl : p = p' := Option.some_inj.1 (hp.symm.trans hp')
    exact AllWoken.due_subset ps all p (List.mem_of_getElem? hp) below i hi
  | .not p, ⟨_, h⟩, below, i, hi => Woken.due_subset p h below i hi
  | .settled _, _, ⟨_, _, at_leaf⟩, _, _ => by cases at_leaf

theorem AllWoken.due_subset {woken : List Nat} : (ps : List Progress) → AllWoken outcome woken ps →
    ∀ p ∈ ps, (∃ j ∈ woken, j ∈ p.leaves) → ∀ i ∈ p.due, i ∈ woken
  | [], _ => by simp
  | q :: ps, ⟨first, rest⟩ => List.forall_mem_cons.2 ⟨Woken.due_subset q first, AllWoken.due_subset ps rest⟩

end

mutual

/-- A leaf at an invocation that was woken is looked at. -/
theorem Woken.mem_due {woken : List Nat} : (p : Progress) → Woken outcome woken p →
    ∀ i ∈ woken, i ∈ p.leaves → i ∈ p.due
  | .leaf _ _, _, _, _, waits => waits
  | .group _ _ _ ps _ _, ⟨_, _, mem, all⟩, i, hi, waits => by
    obtain ⟨p, hp, below⟩ := mem_leavesOfAll.1 waits
    obtain ⟨k, hk⟩ := List.mem_iff_getElem?.1 hp
    have queued := (mem k).2 ⟨p, hk, i, hi, below⟩
    exact mem_due_group.2 ⟨k, queued, p, hk, AllWoken.mem_due ps all p hp i hi below⟩
  | .not p, ⟨_, h⟩, i, hi, waits => Woken.mem_due p h i hi waits
  | .settled _, _, _, _, waits => waits

theorem AllWoken.mem_due {woken : List Nat} : (ps : List Progress) → AllWoken outcome woken ps →
    ∀ p ∈ ps, ∀ i ∈ woken, i ∈ p.leaves → i ∈ p.due
  | [], _ => by simp
  | q :: ps, ⟨first, rest⟩ => List.forall_mem_cons.2 ⟨Woken.mem_due q first, AllWoken.mem_due ps rest⟩

end

/-- If no invocation got an outcome but those of the leaves looked at, all leaves with an outcome are looked at. -/
theorem Woken.attentive_of_due {woken : List Nat} {later : Nat → Option Outcome} : (p : Progress) →
    Woken outcome woken p → (∀ i ∈ p.leaves, i ∉ p.due → later i = none) → Attentive later p
  | .leaf _ _, _, _ => trivial
  | .group c queue pending ps values failure, h, unset => by
    refine Woken.attentive _ h fun i hi asleep => unset i hi fun hd => ?_
    obtain ⟨k, hk, p, hp, -⟩ := mem_due_group.1 hd
    obtain ⟨p, hp, j, hj, leaf⟩ := (h.2.2.1 k).1 hk
    refine asleep (Woken.due_subset _ h ⟨j, hj, ?_⟩ i hd)
    exact mem_leavesOfAll.2 ⟨p, List.mem_of_getElem? hp, leaf⟩
  | .not p, ⟨waits, h⟩, unset => ⟨waits, Woken.attentive_of_due p h unset⟩
  | .settled _, _, _ => trivial

end

/-! ### Expressions that were only launched -/

mutual

/-- No leaf was looked at yet, and all are going to be. -/
def Fresh : Progress → Prop
  | .leaf _ _ => True
  | .group _ queue _ operands _ _ => queue.Nodup ∧ (∀ k, k < operands.length → k ∈ queue) ∧ AllFresh operands
  | .not operand => Fresh operand
  | .settled _ => False

def AllFresh : List Progress → Prop
  | [] => True
  | p :: ps => Fresh p ∧ AllFresh ps

end

theorem Fresh.waits {p : Progress} (h : Fresh p) : p.isSettled = false := by
  cases p with
  | settled => exact h.elim
  | _ => rfl

/-- A group that has queued all operands has nothing to add. -/
theorem enqueue_eq_self {i : Nat} {ps : List Progress} {queue : List Nat} (all : ∀ k, k < ps.length → k ∈ queue) :
    enqueue i ps queue = queue := by
  obtain ⟨added, -, mem, eq⟩ := enqueue_perm i ps queue
  have none : added = [] := List.eq_nil_iff_forall_not_mem.2 fun k hk => by
    obtain ⟨fresh, p, hp, -⟩ := (mem k).1 hk
    exact fresh (all k (List.getElem?_eq_some_iff.1 hp).1)
  rw [eq, none, List.append_nil]

mutual

theorem Fresh.wake (i : Nat) : (p : Progress) → Fresh p → Fresh (p.wake i)
  | .leaf _ _, h => h
  | .group _ queue _ ps _ _, ⟨nodup, all, fresh⟩ => by
    refine ⟨?_, ?_, AllFresh.wake i ps fresh⟩
    · rwa [enqueue_eq_self all]
    · rwa [enqueue_eq_self all, wakeOperands_eq_map, List.length_map]
  | .not p, h => Fresh.wake i p h
  | .settled _, h => h

theorem AllFresh.wake (i : Nat) : (ps : List Progress) → AllFresh ps → AllFresh (wakeOperands i ps)
  | [], h => h
  | p :: ps, ⟨first, rest⟩ => ⟨Fresh.wake i p first, AllFresh.wake i ps rest⟩

end

theorem Fresh.wakeAll {p : Progress} (h : Fresh p) (is : List Nat) : Fresh (p.wakeAll is) := by
  induction is generalizing p with
  | nil => exact h
  | cons i is ih => exact ih (h.wake i)

mutual

theorem Fresh.attentive {outcome : Nat → Option Outcome} : (p : Progress) → Fresh p → Attentive outcome p
  | .leaf _ _, _ => trivial
  | .group _ _ _ ps _ _, ⟨nodup, all, fresh⟩ =>
    ⟨nodup, AllFresh.attentive ps (fun k hk => by rw [Nat.zero_add]; exact all k hk) fresh⟩
  | .not p, h => ⟨Fresh.waits (p := p) h, Fresh.attentive p h⟩
  | .settled _, h => h.elim

theorem AllFresh.attentive {outcome : Nat → Option Outcome} {queue : List Nat} {index : Nat} :
    (ps : List Progress) → (∀ k, k < ps.length → index + k ∈ queue) → AllFresh ps →
    AllAttentive outcome queue index ps
  | [], _, _ => trivial
  | p :: ps, all, ⟨first, rest⟩ => by
    refine ⟨?_, AllFresh.attentive ps (fun k hk => ?_) rest⟩
    · rw [if_pos (by simpa using all 0 (Nat.zero_lt_succ _))]
      exact ⟨first.waits, Fresh.attentive p first⟩
    · rw [Nat.add_assoc, Nat.add_comm 1]
      exact all (k + 1) (Nat.succ_lt_succ hk)

end

section

variable {keys : List String} (outcome : Nat → Option Outcome)

theorem outcomes_eq_nil {ps : List Progress} (h : AllFresh ps) : ps.filterMap outcome? = [] := by
  induction ps with
  | nil => rfl
  | cons p ps ih => rw [List.filterMap_cons, isSettled_eq_false.1 h.1.waits, ih h.2]

mutual

theorem Launched.fresh_stands : {e : Expr} → {p : Progress} → Launched keys e p →
    Fresh p ∧ Stands (fun d => keys.idxOf d.key) outcome p e
  | .leaf d, _, ⟨_, h⟩ => by
    subst h
    exact ⟨trivial, d, rfl, rfl⟩
  | .and es, _, ⟨ps, h, launched⟩ => by
    subst h
    obtain ⟨fresh, stand⟩ := LaunchedAll.fresh_stand launched
    refine ⟨⟨List.nodup_range, fun k => List.mem_range.2, fresh⟩, es, rfl, stand, ?_⟩
    rw [outcomes_eq_nil fresh]
    exact .nil
  | .or es, _, ⟨ps, h, launched⟩ => by
    subst h
    obtain ⟨fresh, stand⟩ := LaunchedAll.fresh_stand launched
    refine ⟨⟨List.nodup_range, fun k => List.mem_range.2, fresh⟩, es, rfl, stand, ?_⟩
    rw [outcomes_eq_nil fresh]
    exact .nil
  | .not e, _, ⟨p, h, launched⟩ => by
    subst h
    obtain ⟨fresh, stands⟩ := Launched.fresh_stands launched
    exact ⟨fresh, e, rfl, stands⟩

theorem LaunchedAll.fresh_stand : {es : List Expr} → {ps : List Progress} → LaunchedAll keys es ps →
    AllFresh ps ∧ StandAll (fun d => keys.idxOf d.key) outcome ps es
  | [], _, h => by
    subst h
    exact ⟨trivial, rfl⟩
  | e :: es, _, ⟨p, ps, h, first, rest⟩ => by
    subst h
    obtain ⟨fresh, stands⟩ := Launched.fresh_stands first
    obtain ⟨all_fresh, stand⟩ := LaunchedAll.fresh_stand rest
    exact ⟨⟨fresh, all_fresh⟩, e, es, rfl, stands, stand⟩

end

end

end Progress

end Segmentation
