/-!
# Bounded memory of recent values

A `Memo` holds the values of the keys used last, the most recent one first, and never more than `Memo.bound` of
them; its capacity counts as one if it is zero.
-/

namespace Segmentation

structure Memo (α : Type) where
  capacity : Nat
  entries : List (String × α)

namespace Memo

variable {α : Type}

def empty (capacity : Nat) : Memo α := ⟨capacity, []⟩

def bound (memo : Memo α) : Nat := max memo.capacity 1

/-- Whether room for so many entries can be reserved.  Reserved is a power of two of places, seven eighths of which
the entries may take; with 17 bytes for each place there is room for less than 2 ^ 59 of them. -/
def isReservable (capacity : Nat) : Bool := capacity ≤ 7 * Nat.pow 2 55

/-- What is said when the room cannot be reserved. -/
def overflowMessage : String := "Hash table capacity overflow"

def size (memo : Memo α) : Nat := memo.entries.length

def find? (memo : Memo α) (key : String) : Option α := memo.entries.lookup key

/-- Makes a key the most recent one, with the given value; the least recent key makes room. -/
def insert (memo : Memo α) (key : String) (value : α) : Memo α :=
  { memo with entries := ((key, value) :: memo.entries.filter (·.1 ≠ key)).take memo.bound }

theorem size_insert_le (memo : Memo α) (key : String) (value : α) :
    (memo.insert key value).size ≤ (memo.insert key value).bound := by
  simp only [size, insert, bound, List.length_take]
  exact Nat.min_le_left _ _

theorem find?_insert_self (memo : Memo α) (key : String) (value : α) :
    (memo.insert key value).find? key = some value := by
  have : 1 ≤ memo.bound := Nat.le_max_right _ _
  obtain ⟨n, h⟩ : ∃ n, memo.bound = n + 1 := ⟨memo.bound - 1, by omega⟩
  simp [find?, insert, h]

end Memo

end Segmentation
