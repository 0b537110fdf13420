/-!
# Coalescing requests

A `Coalescer` collects requests until they are taken as a batch.  It keeps every request it ever accepted, in the
order of acceptance, and names it by its position, its *ticket*; the requests from position `taken` on are queued,
so that the batches taken and the queue are consecutive stretches of one list.  A request whose key is queued
already shares the ticket of the queued one.

The first answer given to a ticket stays.  A ticket without an answer is lost when the last of its resolvers is
gone.
-/

namespace Segmentation

/-- Where somebody waits: positions, from the outside in. -/
abbrev Place := List Nat

inductive TicketState where
  | waiting
  | answered (value : Bool)
  | lost
  deriving DecidableEq

/-- What is said of a lost ticket. -/
def TicketState.lostMessage : String := "batch request was dropped without being resolved"

/-- The text of a resolver in messages. -/
def TicketState.resolverText (state : TicketState) : String :=
  "Resolver \x7b resolved: " ++ (if state = .waiting then "false" else "true") ++ " \x7d"

structure Entry (ρ : Type) where
  key : String
  request : ρ
  state : TicketState
  /-- Number of resolvers that can still answer. -/
  resolvers : Nat
  /-- Who is woken when the state changes, in the order in which they began to wait. -/
  waiters : List Place

structure Coalescer (ρ : Type) where
  entries : List (Entry ρ)
  taken : Nat

namespace Coalescer

variable {ρ : Type}

def empty : Coalescer ρ := ⟨[], 0⟩

def get? (c : Coalescer ρ) (ticket : Nat) : Option (Entry ρ) := c.entries[ticket]?

/-- The state of a ticket; tickets that were never given out are lost. -/
def state (c : Coalescer ρ) (ticket : Nat) : TicketState := ((c.get? ticket).map (·.state)).getD .lost

/-- The tickets that no batch has taken. -/
def queue (c : Coalescer ρ) : List Nat := List.range' c.taken (c.entries.length - c.taken)

def pending (c : Coalescer ρ) : Nat := c.entries.length - c.taken

/-- The queued ticket with a key. -/
def queued? (c : Coalescer ρ) (key : String) : Option Nat :=
  ((c.entries.drop c.taken).findIdx? (·.key = key)).map (c.taken + ·)

/-- Queues a request under a key, unless the key is queued; gives the ticket. -/
def load (c : Coalescer ρ) (key : String) (request : ρ) : Nat × Coalescer ρ :=
  match c.queued? key with
  | some ticket => (ticket, c)
  | none => (c.entries.length, { c with entries := c.entries ++ [⟨key, request, .waiting, 1, []⟩] })

/-- The key of a request that cannot be compared with others: its place in the queue. -/
def placeKey (c : Coalescer ρ) : String := "#" ++ toString c.pending

/-- Takes the queue as a batch; there is no empty batch. -/
def takeBatch (c : Coalescer ρ) : Option (List Nat × Coalescer ρ) :=
  if c.pending = 0 then none else some (c.queue, { c with taken := c.entries.length })

/-- The requests of a batch. -/
def requests (c : Coalescer ρ) (tickets : List Nat) : List ρ :=
  tickets.filterMap fun ticket => (c.get? ticket).map (·.request)

def modify (c : Coalescer ρ) (ticket : Nat) (f : Entry ρ → Entry ρ) : Coalescer ρ :=
  { c with entries := c.entries.modify ticket f }

/-- Begins to wait for a ticket. -/
def await (c : Coalescer ρ) (ticket : Nat) (waiter : Place) : Coalescer ρ :=
  c.modify ticket fun e => { e with waiters := e.waiters ++ [waiter] }

/-- Whether a resolver of the ticket has nothing left to do. -/
def isResolved (c : Coalescer ρ) (ticket : Nat) : Bool := c.state ticket != .waiting

/-- Those who wait for a ticket. -/
def waiters (c : Coalescer ρ) (ticket : Nat) : List Place := ((c.get? ticket).map (·.waiters)).getD []

/-- Lets those go who waited for a ticket. -/
def dismiss (c : Coalescer ρ) (ticket : Nat) : Coalescer ρ := c.modify ticket fun e => { e with waiters := [] }

/-- Answers a ticket; only the first answer counts.  Gives whether it was the first. -/
def resolve (c : Coalescer ρ) (ticket : Nat) (value : Bool) : Bool × Coalescer ρ :=
  if c.isResolved ticket then (false, c)
  else (true, c.modify ticket fun e => { e with state := .answered value })

/-- Makes a further resolver of a ticket. -/
def retain (c : Coalescer ρ) (ticket : Nat) : Coalescer ρ :=
  c.modify ticket fun e => { e with resolvers := e.resolvers + 1 }

/-- Gives up a resolver.  The ticket is lost with its last one, unless it was answered. -/
def release (c : Coalescer ρ) (ticket : Nat) : Coalescer ρ :=
  c.modify ticket fun e =>
    { e with
      resolvers := e.resolvers - 1
      state := if e.resolvers ≤ 1 ∧ e.state = .waiting then .lost else e.state }

/-! ### Batches and the queue -/

theorem length_queue (c : Coalescer ρ) : c.queue.length = c.pending := by simp [queue, pending]

/-- The tickets in the order of acceptance: those taken, then the queue. -/
theorem range_taken_append_queue (c : Coalescer ρ) (h : c.taken ≤ c.entries.length) :
    List.range c.taken ++ c.queue = List.range c.entries.length := by
  have split := @List.range'_append_1 0 c.taken (c.entries.length - c.taken)
  rw [Nat.zero_add, Nat.add_sub_cancel' h] at split
  simpa [queue, List.range_eq_range'] using split

/-- A batch is the whole queue, and it is not empty. -/
theorem takeBatch_eq_some {c d : Coalescer ρ} {tickets : List Nat} (h : c.takeBatch = some (tickets, d)) :
    tickets = c.queue ∧ tickets ≠ [] ∧ d.pending = 0 := by
  unfold takeBatch at h
  split at h
  · cases h
  · rename_i some
    cases h
    refine ⟨rfl, fun empty => some ?_, Nat.sub_self _⟩
    rw [← length_queue, empty]
    rfl

end Coalescer

end Segmentation
