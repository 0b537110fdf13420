/-!
# Gatherings

Several things done at once form a gathering.  In a small gathering all members have their turns, in their own
order; in a large one those that were woken, in the order in which they were.  `ranked` sorts members by their ranks.
-/

namespace Segmentation.Gathering

/-- Number of members up to which a gathering is small. -/
def smallSize : Nat := 30

def isSmall (members : Nat) : Bool := members ≤ smallSize

/-- The members who have a turn, in order; `woken` lists those that were woken. -/
def turns (members : Nat) (woken : List Nat) : List Nat := if isSmall members then List.range members else woken

/-- Puts a ranked member behind all those of no greater rank. -/
def insertRanked (entry : Nat × Nat) : List (Nat × Nat) → List (Nat × Nat)
  | [] => [entry]
  | other :: others => if entry.1 < other.1 then entry :: other :: others else other :: insertRanked entry others

/-- Members in the order of their ranks; every entry is a rank and a member. -/
def ranked (entries : List (Nat × Nat)) : List Nat :=
  (entries.foldl (fun sorted entry => insertRanked entry sorted) []).map (·.2)

end Segmentation.Gathering
