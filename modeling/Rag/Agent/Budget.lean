import Rag.Agent.Ops
import Mathlib.Algebra.Order.Ring.Rat

/-!
`rag.agent.budget`: per-turn accounting.

Steps, tool calls, tokens, cost and wall clock end the turn when spent. Critique rounds
only gate the critic. The cost is a running sum of floats, rounded at every completion.
-/

namespace Rag

namespace BudgetTracker

@[simps] def chargeStep (tracker : BudgetTracker) : BudgetTracker :=
  { tracker with steps := tracker.steps + 1 }

@[simps] def chargeToolCalls (tracker : BudgetTracker) (n : ℤ) : BudgetTracker :=
  { tracker with toolCalls := tracker.toolCalls + n }

@[simps] def chargeCritique (tracker : BudgetTracker) : BudgetTracker :=
  { tracker with critiqueRounds := tracker.critiqueRounds + 1 }

@[simps] def chargeUsage (tracker : BudgetTracker) (usage : Usage) : BudgetTracker :=
  { tracker with
    tokens := tracker.tokens + usage.totalTokens
    costUsd := tracker.costUsd + .finite usage.costUsd
    usageTotal := tracker.usageTotal + usage }

/-- A terminal dimension other than the clock is spent. -/
def spent (tracker : BudgetTracker) : Bool :=
  decide (tracker.budget.maxSteps ≤ tracker.steps)
    || decide (tracker.budget.maxToolCalls ≤ tracker.toolCalls)
    || decide (tracker.budget.maxTokens ≤ tracker.tokens)
    || decide (.finite tracker.budget.maxCostUsd ≤ tracker.costUsd)

/-- Stop reason for the first exhausted terminal dimension. The clock is read only when
the others have something left. -/
def terminalStop (tracker : BudgetTracker) : AgentProg (Option StopReason) :=
  if tracker.spent then pure (some .budgetExhausted)
  else do
    let elapsed ← AgentOp.ask .elapsed
    pure (if tracker.budget.maxWallClockSeconds ≤ elapsed then some .budgetExhausted else none)

def remainingToolCalls (tracker : BudgetTracker) : ℤ :=
  max 0 (tracker.budget.maxToolCalls - tracker.toolCalls)

def canCritique (tracker : BudgetTracker) : Bool :=
  decide (tracker.critiqueRounds < tracker.budget.maxCritiqueRounds)

theorem not_spent_iff (tracker : BudgetTracker) :
    tracker.spent = false ↔ tracker.steps < tracker.budget.maxSteps
      ∧ tracker.toolCalls < tracker.budget.maxToolCalls
      ∧ tracker.tokens < tracker.budget.maxTokens
      ∧ ¬ .finite tracker.budget.maxCostUsd ≤ tracker.costUsd := by
  simp [spent, and_assoc]

end BudgetTracker

end Rag
