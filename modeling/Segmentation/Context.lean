import Segmentation.Session

/-!
# Contexts

A `Context` outlives the evaluation of one expression: all expressions that are evaluated in it share their
invocations and their queues.  An evaluation may be put aside and taken up again later.
-/

namespace Segmentation

structure Context where
  session : Session
  hub : Hub

/-- An evaluation that was put aside. -/
structure PausedEvaluation where
  progress : Progress
  /-- How many of those woken at the hub the expression was told of. -/
  seen : Nat

namespace Context

def start (scope : Scope) : Context := ⟨.start scope, .empty⟩

/-- Number of invocations so far. -/
def invocationCount (context : Context) : Nat := context.session.invocations.length

/-- Begins to evaluate an expression. -/
def begin (context : Context) (expr : Expr) (journal : Journal) : Evaluation × Scene :=
  Evaluation.start context.session expr ⟨context.hub, journal⟩

/-- Takes an evaluation up again. -/
def resume (context : Context) (paused : PausedEvaluation) (journal : Journal) : Evaluation × Scene :=
  (⟨context.session, paused.progress, paused.seen⟩, ⟨context.hub, journal⟩)

/-- Puts an evaluation aside. -/
def pause (evaluation : Evaluation) : PausedEvaluation := ⟨evaluation.progress, evaluation.seen⟩

/-- What is left of the context when an evaluation is put aside. -/
def after (evaluation : Evaluation) (hub : Hub) : Context := ⟨evaluation.session, hub⟩

/-- What is left of the context when an evaluation is over, or given up. -/
def without (evaluation : Evaluation) (hub : Hub) : Context := ⟨evaluation.giveUp, hub⟩

end Context

end Segmentation
