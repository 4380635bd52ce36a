import Rag.Agent.Success

/-!
`rag.eval.agent_runner` with the metrics of `rag.eval.metrics.agent`.

`AgentEvalRunner.run` is a program over the operations of the runtime it is handed: it runs the
examples of a golden set one after the other and scores each answer. The metadata of the golden set,
which nothing reads, is left out, and so is the reset of the tracing context, which every turn
starts anew.
-/

namespace Rag

open Py Interaction

/-- One row of a golden evaluation set. -/
structure GoldenExample where
  id : String
  question : String
  relevantDocIds : List String := []
  relevantChunkIds : List String := []
  referenceAnswer : Option String := none
  expectedTools : List String := []
  retrievalRounds : { n : ℤ // 1 ≤ n } := ⟨1, le_refl 1⟩
  expectSelfCorrection : Bool := false

/-- 1 when the turn used a single step; 0 when the full budget is spent. -/
def stepEfficiency (stepsTaken budgetSteps : ℤ) : ℚ :=
  if budgetSteps ≤ 1 then if stepsTaken ≤ 1 then 1 else 0
  else (max (budgetSteps - stepsTaken) 0 : ℤ) / (budgetSteps - 1 : ℤ)

/-- Harmonic mean of tool precision and recall, order- and count-insensitive. -/
def toolSelectionPrecision (predicted expected : List String) : ℚ :=
  if expected = [] then 1
  else if predicted = [] then 0
  else
    let hits := (predicted.toFinset ∩ expected.toFinset).card
    if hits = 0 then 0
    else
      let precision : ℚ := hits / predicted.toFinset.card
      let found : ℚ := hits / expected.toFinset.card
      2 * precision * found / (precision + found)

def selfCorrectionRate (selfCorrections stepsTaken : ℤ) : ℚ :=
  if stepsTaken ≤ 0 then 0 else min (selfCorrections / stepsTaken) 1

/-- Cost attributed only to successful answers; failed answers contribute 0. -/
def costPerCorrect (costUsd success : ℚ) : ℚ :=
  if success ≤ 0 then 0 else costUsd / success

structure AgentEvalCaseResult where
  exampleId : String
  success : ℚ
  steps : ℤ
  stepEfficiency : ℚ
  toolPrecision : ℚ
  selfCorrectionRate : ℚ
  costUsd : ℚ
  costPerCorrect : ℚ
  fallbackUsed : Bool
  refused : Bool
  trajectoryOk : Bool := true
deriving DecidableEq

/-- Whether the turn took the shape `ex` says a correct one should: a floor, not an equality. -/
def trajectoryOk (ex : GoldenExample) (answer : AgentAnswer) : Bool :=
  if answer.toolCalls < ex.retrievalRounds.val then false
  else !(ex.expectSelfCorrection && decide (answer.selfCorrections < 1))

def toolsFromAnswer (answer : AgentAnswer) : List String :=
  match answer.trace with
  | none => []
  | some trace => toolsUsed trace.steps

/-- `list(answer.tools_used) or _tools_from_answer(answer)` -/
def predictedTools (answer : AgentAnswer) : List String :=
  if answer.toolsUsed = [] then toolsFromAnswer answer else answer.toolsUsed

/-- How an answer is scored against its example. -/
def caseOf (budgetSteps : ℤ) (ex : GoldenExample) (answer : AgentAnswer) :
    AgentEvalCaseResult where
  exampleId := ex.id
  success := taskSuccess answer
  steps := answer.stepsTaken
  stepEfficiency := stepEfficiency answer.stepsTaken budgetSteps
  toolPrecision := toolSelectionPrecision (predictedTools answer) ex.expectedTools
  selfCorrectionRate := selfCorrectionRate answer.selfCorrections answer.stepsTaken
  costUsd := answer.usage.costUsd
  costPerCorrect := costPerCorrect answer.usage.costUsd (taskSuccess answer)
  fallbackUsed := answer.fallbackUsed
  refused := answer.refused
  trajectoryOk := trajectoryOk ex answer

structure AgentEvalReport where
  n : ℤ
  successRate : ℚ
  avgSteps : ℚ
  avgStepEfficiency : ℚ
  avgToolPrecision : ℚ
  avgSelfCorrectionRate : ℚ
  avgCostUsd : ℚ
  avgCostPerCorrect : ℚ
  fallbackRate : ℚ
  refusalRate : ℚ
  trajectoryRate : ℚ := 1
  cases : List AgentEvalCaseResult := []

/-- The mean of a score; `len(cases) or 1` is what it is divided by. -/
def average (score : AgentEvalCaseResult → ℚ) (cases : List AgentEvalCaseResult) : ℚ :=
  (cases.map score).sum / (if cases = [] then 1 else cases.length)

/-- The share of the cases with a flag. -/
def rate (flag : AgentEvalCaseResult → Bool) : List AgentEvalCaseResult → ℚ :=
  average fun c => if flag c then 1 else 0

namespace AgentEvalReport

def fromCases (cases : List AgentEvalCaseResult) : AgentEvalReport where
  n := cases.length
  successRate := average AgentEvalCaseResult.success cases
  avgSteps := average (fun c => c.steps) cases
  avgStepEfficiency := average AgentEvalCaseResult.stepEfficiency cases
  avgToolPrecision := average AgentEvalCaseResult.toolPrecision cases
  avgSelfCorrectionRate := average AgentEvalCaseResult.selfCorrectionRate cases
  avgCostUsd := average AgentEvalCaseResult.costUsd cases
  avgCostPerCorrect := average AgentEvalCaseResult.costPerCorrect cases
  fallbackRate := rate AgentEvalCaseResult.fallbackUsed cases
  refusalRate := rate AgentEvalCaseResult.refused cases
  trajectoryRate := rate AgentEvalCaseResult.trajectoryOk cases
  cases := cases

end AgentEvalReport

/-- Runs golden-set agent evaluation against an agent runtime. -/
structure AgentEvalRunner where
  runtime : AgentRuntime
  principal : Principal
  budgetSteps : ℤ := 6

namespace AgentEvalRunner

variable [Runtime] (runner : AgentEvalRunner)

/-- The loop of `run`; `none` says that the bound on the loop of a turn was reached. -/
def runCases : List GoldenExample → AgentProg (Option (Except Exn (List AgentEvalCaseResult)))
  | [] => pure (some (.ok []))
  | ex :: rest => do
      match ← runner.runtime.run ex.question runner.principal none with
      | none => pure none
      | some (.error exn) => pure (some (.error exn))
      | some (.ok answer) => do
          let tail ← runCases rest
          pure (tail.map fun cases =>
            cases.map fun cases => caseOf runner.budgetSteps ex answer :: cases)

def run (dataset : List GoldenExample) : AgentProg (Option (Except Exn AgentEvalReport)) := do
  let cases ← runner.runCases dataset
  pure (cases.map fun cases => cases.map AgentEvalReport.fromCases)

end AgentEvalRunner

end Rag
