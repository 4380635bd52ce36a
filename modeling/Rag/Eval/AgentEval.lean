import Rag.Agent.Retrieval
import Rag.Api.Query
import Rag.Eval.AgentRunner
import Rag.Lib.Serving
import Rag.Lib.WordCount

/-!
`rag.jobs.agent_eval` and the scripted planner and critic of `rag.llm.echo_chat`.

The job runs all examples against one runtime, whose planner and critic walk two scripts written
for the whole set in advance. `Bench` is what the examples share: the two scripts with their
cursors, and the backends of the pipeline. The index is taken as it stands; building it first is the
business of the reindex job.
-/

namespace Rag

open Py Interaction

/-- One canned response the `EchoChatLLM` will emit in order. -/
structure ScriptedTurn where
  content : String := ""
  toolCalls : List ToolCall := []

/-- USD per million prompt and completion tokens. -/
def defaultRates (model : String) : ℚ × ℚ :=
  if model = "echo" then (0, 0)
  else if model = "gpt-4o-mini" then (15 / 100, 60 / 100)
  else if model = "text-embedding-3-small" then (2 / 100, 0)
  else (1, 3)

def estimateCostUsd (model : String) (promptTokens completionTokens : ℤ) : ℚ :=
  (promptTokens * (defaultRates model).1 + completionTokens * (defaultRates model).2) / 1000000

/-- Deterministic chat stub that walks a script of planned turns. -/
structure EchoChatLLM where
  modelName : String := "echo-chat"
  script : List ScriptedTurn := []
  cursor : Nat := 0

namespace EchoChatLLM

/-- `max(sum(len(m.content.split()) for m in messages), 1)` -/
def promptTokens (messages : List Message) : ℤ :=
  max ((messages.map fun m => wordCount m.content).sum : ℕ) 1

def completionTokens (turn : ScriptedTurn) : ℤ :=
  max (wordCount turn.content + 2 * turn.toolCalls.length : ℕ) 1

/-- The completion a turn of the script makes. -/
def completion (modelName : String) (messages : List Message) (turn : ScriptedTurn) :
    ChatCompletion where
  message := { role := .assistant, content := turn.content, toolCalls := turn.toolCalls }
  usage := {
    promptTokens := promptTokens messages
    completionTokens := completionTokens turn
    totalTokens := promptTokens messages + completionTokens turn
    costUsd := estimateCostUsd modelName (promptTokens messages) (completionTokens turn)
    model := modelName }

/-- The next turn of the script, or an empty one when the script is exhausted. -/
def chat (llm : EchoChatLLM) (messages : List Message) : ChatCompletion × EchoChatLLM :=
  match llm.script[llm.cursor]? with
  | some turn =>
      (completion llm.modelName messages turn, { llm with cursor := llm.cursor + 1 })
  | none => (completion llm.modelName messages {}, llm)

end EchoChatLLM

def approveReply : String :=
  "\x7b\"sufficient\": true, \"grounded\": true, \"reasons\": [\"cited\"], \"missing\": [], "
    ++ "\"confidence\": 0.9\x7d"

def rejectReply : String :=
  "\x7b\"sufficient\": false, \"grounded\": false, \"reasons\": [\"draft cites nothing\"], "
    ++ "\"missing\": [\"a citation for the main claim\"], \"confidence\": 0.2\x7d"

def retrievalCall (id question : String) : ToolCall where
  id := id
  name := "retrieval_search"
  arguments := [("query", .str question)]

def retrievalTurn (id question : String) : ScriptedTurn where
  toolCalls := [retrievalCall id question]

def uncitedTurn : ScriptedTurn where
  content := "A confident answer that cites nothing."

/-- The final answer of an example, with the citation it is scripted to carry. -/
def groundedText (ex : GoldenExample) (chunkId : String) : String :=
  orElseText ex.referenceAnswer "Grounded answer from the corpus." ++ (" [" ++ chunkId ++ "]")

/-- The turns of `_trajectory` before its last one. -/
def leadingTurns (ex : GoldenExample) : List ScriptedTurn :=
  (List.range ex.retrievalRounds.val.toNat).map (fun i =>
      retrievalTurn (ex.id ++ "-r" ++ toString i) ex.question)
    ++ if ex.expectSelfCorrection then [uncitedTurn, retrievalTurn (ex.id ++ "-fix") ex.question]
      else []

/-- Planner turns for one example: its retrieval rounds, then a cited draft. -/
def trajectory (ex : GoldenExample) (chunkId : String) : List ScriptedTurn :=
  leadingTurns ex ++ [{ content := groundedText ex chunkId }]

def critiques (ex : GoldenExample) : List ScriptedTurn :=
  if ex.expectSelfCorrection then [{ content := rejectReply }, { content := approveReply }]
  else [{ content := approveReply }]

/-- What the examples of one evaluation share. -/
structure Bench (σ : Type) where
  planner : EchoChatLLM
  critic : EchoChatLLM
  backends : σ

structure Thresholds where
  maxAvgSteps : Option ℚ := none
  maxAvgCost : Option ℚ := none
  minSuccessRate : Option ℚ := none
  minTrajectoryRate : Option ℚ := none

def systemExit (text : String) : Exn := ⟨.other, "SystemExit", text⟩

/-- The report, unless one of the thresholds ends the job. -/
def Thresholds.gate (thresholds : Thresholds) (report : AgentEvalReport) :
    Except Exn AgentEvalReport :=
  if thresholds.minSuccessRate.any fun least => report.successRate < least then
    .error (systemExit ("agent success_rate " ++ formatFixed 3 report.successRate
      ++ " below threshold " ++ formatFixed 3 (thresholds.minSuccessRate.getD 0)))
  else if thresholds.minTrajectoryRate.any fun least => report.trajectoryRate < least then
    .error (systemExit ("agent trajectory_rate " ++ formatFixed 3 report.trajectoryRate
      ++ " below threshold " ++ formatFixed 3 (thresholds.minTrajectoryRate.getD 0)))
  else if thresholds.maxAvgSteps.any fun most => most < report.avgSteps then
    .error (systemExit ("agent avg_steps " ++ formatFixed 2 report.avgSteps
      ++ " above threshold " ++ formatFixed 2 (thresholds.maxAvgSteps.getD 0)))
  else if thresholds.maxAvgCost.any fun most => most < report.avgCostUsd then
    .error (systemExit ("agent avg_cost_usd " ++ formatFixed 4 report.avgCostUsd
      ++ " above threshold " ++ formatFixed 4 (thresholds.maxAvgCost.getD 0)))
  else .ok report

def evalPrincipal (defaultTenant : String) : Principal where
  subject := "eval-agent"
  groups := {"public"}
  tenant := defaultTenant

section Job

variable [Runtime] (pipeline : OnlinePipeline)

/-- The runtime of the job has the retrieval tool and no other. -/
def evalRuntime : AgentRuntime where
  tools := { tools := [RetrievalTool.tool], nodup := List.nodup_singleton _ }
  budget := pipeline.settings.agentBudget
  allowEgress := false
  includeTrace := true
  modelName := "echo-chat"
  piiRedactionEnabled := pipeline.settings.piiRedactionEnabled

/-- The tools and the fallback of the runtime, over the backends of the pipeline. -/
def hosted : (o : AgentOp) → Prog ServiceOp ServiceResp (AgentResp o)
  | .answer question principal => serve pipeline (.answer question principal)
  | o => serveTools pipeline o

variable {σ : Type} (backend : σ → (o : ServiceOp) → ServiceResp o × σ)

/-- The planner and the critic answer from their scripts, everything else from the backends. -/
def serveBench (b : Bench σ) : (o : AgentOp) → AgentResp o × Bench σ
  | .chat messages _ =>
      let (completion, planner) := b.planner.chat messages
      (.ok completion, { b with planner := planner })
  | .critique messages =>
      let (completion, critic) := b.critic.chat messages
      (.ok completion, { b with critic := critic })
  | o =>
      let (r, backends) := Prog.against backend (hosted pipeline o) b.backends
      (r, { b with backends := backends })

/-- `probe.results[0].chunk.chunk_id if probe.results else "missing"` -/
def topChunkId (results : List (ScoredChunk ℚ)) : String :=
  match results with
  | top :: _ => top.chunk.chunkId
  | [] => "missing"

/-- `examples[0].question if examples else "overview"` -/
def probeQuestion (examples : List GoldenExample) : String :=
  match examples with
  | ex :: _ => ex.question
  | [] => "overview"

/-- The scripts of a whole set, under the one citation the probe found. -/
def benchOf (examples : List GoldenExample) (chunkId : String) (backends : σ) : Bench σ where
  planner := { script := examples.flatMap fun ex => trajectory ex chunkId }
  critic := { script := examples.flatMap critiques }
  backends := backends

/-- The runner of the job. -/
def evalRunner (defaultTenant : String) : AgentEvalRunner where
  runtime := evalRuntime pipeline
  principal := evalPrincipal defaultTenant
  budgetSteps := pipeline.settings.agentMaxSteps

/-- `run_agent_eval` over an index that is already there. -/
def runAgentEval (defaultTenant : String) (thresholds : Thresholds)
    (examples : List GoldenExample) (backends : σ) :
    Option (Except Exn AgentEvalReport) × σ :=
  let (probe, backends) := Prog.against backend
    (Prog.interp onPipeline
      (pipeline.retrieveOnly (probeQuestion examples) (evalPrincipal defaultTenant)).run) backends
  match probe with
  | .error exn => (some (.error exn), backends)
  | .ok probe =>
      let (report, bench) := Prog.against (serveBench pipeline backend)
        ((evalRunner pipeline defaultTenant).run examples)
        (benchOf examples (topChunkId probe.results) backends)
      (report.map fun report => report >>= thresholds.gate, bench.backends)

end Job

end Rag
