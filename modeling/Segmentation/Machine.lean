/-!
# Machines on a virtual clock

A machine is polled whenever something woke it.  When nothing is awake the clock jumps to the next alarm and all
alarms due then go off.  `Machine.step` is one such move; `Machine.run` makes moves until the machine has
finished, stalls because no alarm is left, or would have to go past its limit.
-/

namespace Segmentation

class Machine (σ : Type) where
  poll : σ → σ
  finished : σ → Bool
  /-- Whether polling can make progress at this instant. -/
  awake : σ → Bool
  nextAlarm : σ → Option Nat
  /-- Moves the clock to an instant and lets the alarms due then go off. -/
  advance : Nat → σ → σ

/-- How a run ends. -/
inductive Verdict where
  | finished
  | stalled
  | abandoned
  /-- The bound on the number of moves was reached. -/
  | exhausted
  deriving DecidableEq

namespace Machine

variable {σ : Type} [Machine σ]

/-- One move, or the end of the run. -/
def step (limit : Option Nat) (s : σ) : σ ⊕ Verdict × σ :=
  if finished s then .inr (.finished, s)
  else if awake s then .inl (poll s)
  else
    match nextAlarm s, limit with
    | none, _ => .inr (.stalled, s)
    | some t, none => .inl (advance t s)
    | some t, some limit => if limit < t then .inr (.abandoned, advance limit s) else .inl (advance t s)

def runFor (limit : Option Nat) : Nat → σ → Verdict × σ
  | 0, s => (.exhausted, s)
  | moves + 1, s =>
    match step limit s with
    | .inl s => runFor limit moves s
    | .inr result => result

/-- Polls a machine once and then runs it. -/
def run (limit : Option Nat) (moves : Nat) (s : σ) : Verdict × σ := runFor limit moves (poll s)

def settleFor : Nat → σ → σ
  | 0, s => s
  | moves + 1, s => if !finished s && awake s then settleFor moves (poll s) else s

/-- Polls a machine once, and again while it is awake, without moving the clock. -/
def settle (moves : Nat) (s : σ) : σ := settleFor moves (poll s)

end Machine

/-- A machine beside other alarms on the same clock, which do not concern it. -/
structure Beside (σ : Type) where
  machine : σ
  others : List Nat

instance {σ : Type} [Machine σ] : Machine (Beside σ) where
  poll b := { b with machine := Machine.poll b.machine }
  finished b := Machine.finished b.machine
  awake b := Machine.awake b.machine
  nextAlarm b := ((Machine.nextAlarm b.machine).toList ++ b.others).min?
  advance now b := ⟨Machine.advance now b.machine, b.others.filter (now < ·)⟩

end Segmentation
