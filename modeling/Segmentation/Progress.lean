import Segmentation.Expr
import Segmentation.Gathering

/-!
# An expression under evaluation

A `Progress` is an expression some of whose leaves have outcomes.  Its leaves are numbers of invocations.  AND and
OR start all their operands at once and wait for all of them.  Each keeps a queue of the operands to look at next,
in the order in which they were woken; `Progress.due` lists the leaves to look at and `Progress.collect` takes up
the outcomes that they have by then.  If operands fail, the error is that of the first one collected.

A leaf has a seat at its invocation, which tells it from all other leaves that wait for the same invocation.  They
are woken in the order of their seats.
-/

namespace Segmentation

abbrev Outcome := Except Error Bool

inductive Connective where
  | and
  | or
  deriving DecidableEq

/-- The value of a connective; without operands AND is true and OR is false. -/
def Connective.apply : Connective → List Bool → Bool
  | .and, values => values.all id
  | .or, values => values.any id

inductive Progress where
  | leaf (invocation seat : Nat)
  /-- Operands with the queue of those to look at, and those that have no outcome: the ones looked at last come
  last. -/
  | group (connective : Connective) (queue pending : List Nat) (operands : List Progress) (values : List Bool)
      (failure : Option Error)
  | not (operand : Progress)
  | settled (outcome : Outcome)

namespace Progress

/-- The outcome, once there is one. -/
def outcome? : Progress → Option Outcome
  | .settled outcome => some outcome
  | _ => none

def isSettled (p : Progress) : Bool := p.outcome?.isSome

mutual

/-- The leaves to look at, in the order in which their groups have queued them. -/
def due : Progress → List Nat
  | .leaf invocation _ => [invocation]
  | .group _ queue _ operands _ _ =>
    let below := dueOperands operands
    queue.flatMap fun i => below.getD i []
  | .not operand => due operand
  | .settled _ => []

def dueOperands : List Progress → List (List Nat)
  | [] => []
  | p :: ps => due p :: dueOperands ps

end

/-- Adds the outcome of an operand to what a group has collected. -/
def gather (collected : List Bool × Option Error) : Outcome → List Bool × Option Error
  | .ok value => (collected.1 ++ [value], collected.2)
  | .error error => (collected.1, collected.2 <|> some error)

/-- The outcome of a group all of whose operands have one. -/
def conclude (connective : Connective) (values : List Bool) : Option Error → Outcome
  | some error => .error error
  | none => .ok (connective.apply values)

/-- The group after its queued operands were looked at. -/
def regroup (connective : Connective) (queue pending : List Nat) (operands : List Progress) (values : List Bool)
    (failure : Option Error) : Progress :=
  let settledNow := queue.filterMap fun i => operands[i]?.bind outcome?
  let (values, failure) := settledNow.foldl gather (values, failure)
  if operands.all isSettled then .settled (conclude connective values failure)
  else
    let lasting := queue.filter fun i => operands[i]?.any (!·.isSettled)
    .group connective [] (pending.filter (· ∉ queue) ++ lasting) operands values failure

/-- The negation of an operand. -/
def negate : Progress → Progress
  | .settled (.ok value) => .settled (.ok !value)
  | .settled (.error error) => .settled (.error error)
  | operand => .not operand

mutual

/-- Takes up outcomes of the leaves that are due. -/
def collect (outcome : Nat → Option Outcome) : Progress → Progress
  | .leaf invocation seat =>
    match outcome invocation with
    | some o => .settled o
    | none => .leaf invocation seat
  | .group connective queue pending operands values failure =>
    regroup connective queue pending (collectQueued outcome queue 0 operands) values failure
  | .not operand => negate (collect outcome operand)
  | .settled o => .settled o

/-- The operands of a group, those in its queue looked at; `index` is the position of the first one. -/
def collectQueued (outcome : Nat → Option Outcome) (queue : List Nat) (index : Nat) : List Progress → List Progress
  | [] => []
  | p :: ps =>
    (if index ∈ queue then collect outcome p else p) :: collectQueued outcome queue (index + 1) ps

end

/-- The lesser of two seats. -/
def firstSeat : Option Nat → Option Nat → Option Nat
  | some a, some b => some (min a b)
  | some a, none => some a
  | none, b => b

mutual

/-- The first seat at an invocation on which a leaf waits. -/
def seat? (invocation : Nat) : Progress → Option Nat
  | .leaf i seat => if i = invocation then some seat else none
  | .group _ _ _ operands _ _ => seatAmong? invocation operands
  | .not operand => seat? invocation operand
  | .settled _ => none

def seatAmong? (invocation : Nat) : List Progress → Option Nat
  | [] => none
  | p :: ps => firstSeat (seat? invocation p) (seatAmong? invocation ps)

end

/-- Whether a leaf without outcome waits for an invocation. -/
def awaits (invocation : Nat) (p : Progress) : Bool := (p.seat? invocation).isSome

/-- Puts the operands that wait for an invocation at the end of a queue, unless they are in it. -/
def enqueue (invocation : Nat) (operands : List Progress) (queue : List Nat) : List Nat :=
  queue ++ Gathering.ranked (operands.zipIdx.filterMap fun (p, i) =>
    (p.seat? invocation).bind fun seat => if i ∈ queue then none else some (seat, i))

mutual

/-- Wakes every leaf that waits for an invocation. -/
def wake (invocation : Nat) : Progress → Progress
  | .leaf i seat => .leaf i seat
  | .group connective queue pending operands values failure =>
    .group connective (enqueue invocation operands queue) pending (wakeOperands invocation operands) values failure
  | .not operand => .not (wake invocation operand)
  | .settled o => .settled o

def wakeOperands (invocation : Nat) : List Progress → List Progress
  | [] => []
  | p :: ps => wake invocation p :: wakeOperands invocation ps

end

def wakeAll (p : Progress) (invocations : List Nat) : Progress := invocations.foldl (fun p i => p.wake i) p

mutual

/-- The invocations for which leaves wait, with their seats; of every group the operand looked at last comes
first. -/
def seats : Progress → List (Nat × Nat)
  | .leaf invocation seat => [(invocation, seat)]
  | .group _ _ pending operands _ _ =>
    let below := seatsOfAll operands
    pending.reverse.flatMap fun i => below.getD i []
  | .not operand => seats operand
  | .settled _ => []

def seatsOfAll : List Progress → List (List (Nat × Nat))
  | [] => []
  | p :: ps => seats p :: seatsOfAll ps

end

end Progress

end Segmentation
