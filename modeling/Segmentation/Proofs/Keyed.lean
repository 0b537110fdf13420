import Mathlib.Data.List.Basic
import Segmentation.Keyed

/-!
# Looking up and sorting keys

Where the values of a list of pairs are changed, `Keyed.get?` finds the changed value under the same key, and
`Keyed.ofList` puts the changed values in the same order (`ofList_map`).  Pairs without a repeated key are only put in
order, whichever order they had (`perm_ofList`, `ofList_eq_of_perm`).
-/

namespace Segmentation.Keyed

variable {α β : Type}

theorem get?_map (pairs : Keyed α) (g : String → α → β) (key : String) :
    Keyed.get? (pairs.map fun (k, v) => (k, g k v)) key = (pairs.get? key).map (g key) := by
  induction pairs with
  | nil => rfl
  | cons pair pairs ih =>
    obtain ⟨k, v⟩ := pair
    simp only [get?, List.map_cons, List.lookup_cons] at ih ⊢
    by_cases same : key = k
    · subst same; simp
    · simp only [beq_false_of_ne same, ih]

theorem get?_modify (pairs : Keyed α) (key name : String) (f : α → α) :
    (pairs.modify key f).get? name = if name = key then (pairs.get? name).map f else pairs.get? name := by
  have pointwise : pairs.modify key f = pairs.map fun (k, v) => (k, if k = key then f v else v) :=
    List.map_congr_left fun pair _ => by
      obtain ⟨k, v⟩ := pair
      dsimp only
      split <;> rfl
  rw [pointwise, get?_map pairs fun k v => if k = key then f v else v]
  split
  · rfl
  · exact Option.map_id'

theorem keys_modify (pairs : Keyed α) (key : String) (f : α → α) : (pairs.modify key f).keys = pairs.keys := by
  unfold keys modify
  rw [List.map_map]
  refine List.map_congr_left fun pair _ => ?_
  obtain ⟨k, v⟩ := pair
  dsimp only [Function.comp]
  split <;> rfl

theorem isSome_get?_iff (pairs : Keyed α) (key : String) : (pairs.get? key).isSome ↔ key ∈ pairs.keys := by
  induction pairs with
  | nil => simp [get?, keys]
  | cons pair pairs ih =>
    obtain ⟨k, v⟩ := pair
    simp only [get?, keys, List.lookup_cons, List.map_cons, List.mem_cons] at ih ⊢
    by_cases same : key = k
    · subst same; simp
    · simp only [beq_false_of_ne same, ih, same, false_or]

/-- Where no key stands twice, every pair is found under its key. -/
theorem get?_of_mem {pairs : Keyed α} (nodup : pairs.keys.Nodup) {key : String} {value : α}
    (mem : (key, value) ∈ pairs) : pairs.get? key = some value := by
  induction pairs with
  | nil => cases mem
  | cons pair pairs ih =>
    obtain ⟨k, v⟩ := pair
    obtain ⟨fresh, nodup⟩ := List.nodup_cons.1 nodup
    simp only [get?, List.lookup_cons] at ih ⊢
    rcases List.mem_cons.1 mem with same | mem
    · cases same
      simp
    · have other : key ≠ k := fun same => fresh (same ▸ List.mem_map.2 ⟨_, mem, rfl⟩)
      simp only [beq_false_of_ne other]
      exact ih nodup mem

/-! ### Sorting -/

theorem insert_map (g : String → α → β) (key : String) (value : α) (pairs : Keyed α) :
    insert key (g key value) (pairs.map fun (k, v) => (k, g k v)) =
      (insert key value pairs).map fun (k, v) => (k, g k v) := by
  induction pairs with
  | nil => rfl
  | cons pair pairs ih =>
    obtain ⟨k, v⟩ := pair
    simp only [insert, List.map_cons, ih]
    split
    · rfl
    · split <;> rfl

theorem ofList_map (g : String → α → β) (pairs : List (String × α)) :
    ofList (pairs.map fun (k, v) => (k, g k v)) = (ofList pairs).map fun (k, v) => (k, g k v) := by
  have all (sorted : Keyed α) :
      (pairs.map fun (k, v) => (k, g k v)).foldl (fun sorted (k, v) => insert k v sorted)
          (sorted.map fun (k, v) => (k, g k v)) =
        (pairs.foldl (fun sorted (k, v) => insert k v sorted) sorted).map fun (k, v) => (k, g k v) := by
    induction pairs generalizing sorted with
    | nil => rfl
    | cons pair pairs ih =>
      obtain ⟨k, v⟩ := pair
      rw [List.map_cons, List.foldl_cons, List.foldl_cons]
      dsimp only
      rw [insert_map, ih]
  exact all []

theorem mem_keys_insert {name key : String} {value : α} {pairs : Keyed α} :
    name ∈ (insert key value pairs).keys ↔ name = key ∨ name ∈ pairs.keys := by
  induction pairs with
  | nil => exact List.mem_cons
  | cons pair pairs ih =>
    obtain ⟨k, v⟩ := pair
    simp only [insert]
    split
    · exact List.mem_cons
    · split
      · rename_i same
        subst same
        simp [keys]
      · have moved : name ∈ keys ((k, v) :: insert key value pairs) ↔ name = k ∨ name ∈ keys (insert key value pairs) :=
          List.mem_cons
        have there : name ∈ keys ((k, v) :: pairs) ↔ name = k ∨ name ∈ keys pairs := List.mem_cons
        rw [moved, there, ih, or_left_comm]

/-- Sorting keeps all keys. -/
theorem mem_keys_ofList {name : String} (pairs : List (String × α)) : name ∈ (ofList pairs).keys ↔ name ∈ keys pairs := by
  have all (sorted : Keyed α) :
      name ∈ keys (pairs.foldl (fun sorted (k, v) => insert k v sorted) sorted) ↔ name ∈ keys pairs ∨ name ∈ keys sorted := by
    induction pairs generalizing sorted with
    | nil => simp [keys]
    | cons pair pairs ih =>
      obtain ⟨k, v⟩ := pair
      have moved : name ∈ keys ((k, v) :: pairs) ↔ name = k ∨ name ∈ keys pairs := List.mem_cons
      rw [List.foldl_cons, ih, mem_keys_insert, moved, or_left_comm, or_assoc]
  exact (all []).trans (or_iff_left List.not_mem_nil)

theorem keys_perm {pairs others : List (String × α)} (perm : pairs.Perm others) : (keys pairs).Perm (keys others) :=
  perm.map Prod.fst

theorem perm_insert {key : String} {pairs : Keyed α} (fresh : key ∉ pairs.keys) (value : α) :
    (insert key value pairs).Perm ((key, value) :: pairs) := by
  induction pairs with
  | nil => exact .refl _
  | cons pair pairs ih =>
    obtain ⟨k, v⟩ := pair
    obtain ⟨other, fresh⟩ : key ≠ k ∧ key ∉ keys pairs := by simpa [keys] using fresh
    simp only [insert, if_neg other]
    split
    · exact .refl _
    · exact ((ih fresh).cons _).trans (.swap _ _ _)

private theorem perm_foldl_insert (pairs : List (String × α)) (sorted : Keyed α)
    (nodup : (keys (sorted ++ pairs)).Nodup) :
    (pairs.foldl (fun sorted (k, v) => insert k v sorted) sorted).Perm (sorted ++ pairs) := by
  induction pairs generalizing sorted with
  | nil => simp
  | cons pair pairs ih =>
    obtain ⟨k, v⟩ := pair
    have moved : (sorted ++ (k, v) :: pairs).Perm ((k, v) :: (sorted ++ pairs)) := List.perm_middle
    have fresh : k ∉ keys sorted := fun mem => by
      refine (List.nodup_cons.1 ((keys_perm moved).nodup_iff.1 nodup)).1 ?_
      exact List.map_append ▸ List.mem_append_left _ mem
    have inserted : (insert k v sorted ++ pairs).Perm (sorted ++ (k, v) :: pairs) :=
      ((perm_insert fresh v).append_right pairs).trans moved.symm
    exact (ih _ ((keys_perm inserted).nodup_iff.2 nodup)).trans inserted

/-- Pairs without a repeated key are all kept. -/
theorem perm_ofList {pairs : List (String × α)} (nodup : (keys pairs).Nodup) : (ofList pairs).Perm pairs :=
  perm_foldl_insert pairs [] nodup

/-- In whichever order pairs without a repeated key are given, sorted they are the same. -/
theorem ofList_eq_of_perm {pairs others : List (String × α)} (perm : pairs.Perm others) (nodup : (keys pairs).Nodup) :
    ofList pairs = ofList others := by
  have nodup' : (keys others).Nodup := (keys_perm perm).nodup_iff.1 nodup
  refine List.Perm.eq_of_pairwise (fun p q _ _ before behind => ?_) (ascending_ofList pairs) (ascending_ofList others)
    (((perm_ofList nodup).trans perm).trans (perm_ofList nodup').symm)
  exact absurd behind (String.lt_asymm before)

end Segmentation.Keyed
