/-!
# Pairs in the order of their keys

A `Keyed` list holds values under texts as keys.  `Keyed.insert` keeps the keys strictly ascending, by code point,
and replaces the value of a key that is there; `Keyed.ofList` therefore keeps the last value of each key, and
`ascending_ofList` says that its keys are in order.
-/

namespace Segmentation

abbrev Keyed (α : Type) := List (String × α)

namespace Keyed

variable {α : Type}

def insert (key : String) (value : α) : Keyed α → Keyed α
  | [] => [(key, value)]
  | (k, v) :: rest =>
    if key < k then (key, value) :: (k, v) :: rest
    else if key = k then (key, value) :: rest
    else (k, v) :: insert key value rest

def ofList (pairs : List (String × α)) : Keyed α :=
  pairs.foldl (fun sorted (k, v) => insert k v sorted) []

def keys (pairs : Keyed α) : List String := pairs.map (·.1)

def get? (pairs : Keyed α) (key : String) : Option α := pairs.lookup key

/-- Changes the value under a key, if there is one. -/
def modify (key : String) (f : α → α) (pairs : Keyed α) : Keyed α :=
  pairs.map fun (k, v) => if k = key then (k, f v) else (k, v)

/-! ### The order of the keys -/

/-- The keys are in strictly ascending order. -/
def Ascending (pairs : Keyed α) : Prop := pairs.Pairwise (·.1 < ·.1)

theorem mem_insert {key : String} {value : α} {pairs : Keyed α} {p : String × α}
    (h : p ∈ insert key value pairs) : p = (key, value) ∨ p ∈ pairs := by
  induction pairs with
  | nil => simpa [insert] using h
  | cons q rest ih =>
    obtain ⟨k, v⟩ := q
    simp only [insert] at h
    split at h
    · simpa using h
    · split at h
      · rcases List.mem_cons.1 h with h | h
        · exact .inl h
        · exact .inr (List.mem_cons_of_mem _ h)
      · rcases List.mem_cons.1 h with h | h
        · exact .inr (h ▸ List.mem_cons_self)
        · exact (ih h).imp_right (List.mem_cons_of_mem _)

theorem mem_ofList {pairs : List (String × α)} {p : String × α} (h : p ∈ ofList pairs) : p ∈ pairs := by
  unfold ofList at h
  suffices ∀ sorted : Keyed α, p ∈ pairs.foldl (fun sorted (k, v) => insert k v sorted) sorted →
      p ∈ pairs ∨ p ∈ sorted by simpa using this [] h
  clear h
  induction pairs with
  | nil => exact fun sorted h => .inr h
  | cons q rest ih =>
    intro sorted h
    rcases ih _ h with h | h
    · exact .inl (List.mem_cons_of_mem _ h)
    · rcases mem_insert h with rfl | h
      · exact .inl List.mem_cons_self
      · exact .inr h

theorem ascending_insert (key : String) (value : α) {pairs : Keyed α} (h : Ascending pairs) :
    Ascending (insert key value pairs) := by
  induction pairs with
  | nil => exact List.pairwise_singleton _ _
  | cons q rest ih =>
    obtain ⟨k, v⟩ := q
    obtain ⟨first, others⟩ := List.pairwise_cons.1 h
    simp only [insert]
    split
    · rename_i before
      refine List.pairwise_cons.2 ⟨fun p hp => ?_, h⟩
      rcases List.mem_cons.1 hp with rfl | hp
      · exact before
      · exact String.lt_trans before (first p hp)
    · split
      · rename_i same
        exact List.pairwise_cons.2 ⟨fun p hp => same ▸ first p hp, others⟩
      · rename_i notBefore different
        refine List.pairwise_cons.2 ⟨fun p hp => ?_, ih others⟩
        rcases mem_insert hp with rfl | hp
        · exact Std.lt_of_le_of_ne (String.not_lt.1 notBefore) (Ne.symm different)
        · exact first p hp

theorem ascending_ofList (pairs : List (String × α)) : Ascending (ofList pairs) := by
  unfold ofList
  suffices ∀ sorted : Keyed α, Ascending sorted →
      Ascending (pairs.foldl (fun sorted (k, v) => insert k v sorted) sorted) from this [] .nil
  induction pairs with
  | nil => exact fun sorted h => h
  | cons p rest ih => exact fun sorted h => ih _ (ascending_insert p.1 p.2 h)

end Keyed

end Segmentation
