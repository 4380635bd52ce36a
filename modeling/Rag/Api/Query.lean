import Rag.Agent.Provenance
import Mathlib

/-!
`rag.api.routes.query`: the `/query` route over the pipeline and the agent runtime.

A request is a program over the operations of the service and the two the agent's answer
cache adds. `handler` says how the runtime's collaborators are implemented; the pipeline is
the one of the application. The semaphore only delays a request and is left out.

A cache keeps JSON text. `Payload` is what such a text was written from, and decoding it
follows what pydantic reads back.
-/

namespace Rag

open Py Interaction

/-- The answer of a response: the pipeline's, or the agent's with its metadata. -/
inductive Response where
  | plain (answer : Answer)
  | agent (answer : AgentAnswer)

def Response.answer : Response → Answer
  | .plain answer => answer
  | .agent answer => answer.toAnswer

/-- The text stored under a key: JSON of an answer, or none of the two. -/
inductive Payload where
  | plain (answer : Answer)
  | agent (answer : AgentAnswer)
  | corrupt

def ToolCall.reloaded (call : ToolCall) : ToolCall :=
  { call with arguments := Json.reloadedFields call.arguments }

def Source.reloaded (source : Source) : Source :=
  { source with metadata := Json.reloadedFields source.metadata }

def ToolResult.reloaded (result : ToolResult) : ToolResult :=
  { result with sources := result.sources.map Source.reloaded }

def AgentStep.reloaded (step : AgentStep) : AgentStep :=
  { step with
    toolCalls := step.toolCalls.map ToolCall.reloaded
    toolResults := step.toolResults.map ToolResult.reloaded }

def AgentTrace.reloaded (trace : AgentTrace) : AgentTrace :=
  { trace with
    steps := trace.steps.map AgentStep.reloaded
    sources := trace.sources.map Source.reloaded }

/-- A float that JSON cannot write is stored as null, which is no float. -/
def Answer.storable (answer : Answer) : Bool :=
  answer.citations.all fun citation => citation.score.isFinite

def AgentTrace.storable (trace : AgentTrace) : Bool :=
  (trace.steps.all fun step => step.toolResults.all fun result =>
      result.sources.all fun source => source.score.isFinite)
    && trace.sources.all fun source => source.score.isFinite

def AgentAnswer.storable (answer : AgentAnswer) : Bool :=
  answer.toAnswer.storable
    && (answer.criticVerdict.all fun verdict => verdict.confidence.isFinite)
    && answer.trace.all AgentTrace.storable

/-- The answer the text was written from. -/
def Payload.written : Payload → Option Answer
  | .plain answer => some answer
  | .agent answer => some answer.toAnswer
  | .corrupt => none

/-- `AgentAnswer.model_validate_json`; the fields a plain answer lacks have defaults. -/
def Payload.asAgentAnswer : Payload → Option AgentAnswer
  | .plain answer => if answer.storable then some { toAnswer := answer } else none
  | .agent answer =>
      if answer.storable then some { answer with trace := answer.trace.map AgentTrace.reloaded }
      else none
  | .corrupt => none

/-- `Answer.model_validate_json`; fields it does not know are ignored. -/
def Payload.asAnswer (payload : Payload) : Option Answer := payload.written.filter Answer.storable

theorem Payload.written_of_asAnswer {payload : Payload} {answer : Answer}
    (h : payload.asAnswer = some answer) : payload.written = some answer :=
  (Option.filter_eq_some_iff.mp h).1

/-- The response a cache hit of `_run_agent` makes of a payload. -/
def Payload.replay (payload : Payload) : Option Response :=
  match payload.asAgentAnswer with
  | some answer => some (.agent { answer with cached := true })
  | none => payload.asAnswer.map fun answer => .plain { answer with cached := true }

structure QueryRequest where
  query : { text : String // 1 ≤ text.length ∧ text.length ≤ 4000 }
  mode : QueryMode := .auto
  maxSteps : Option (Set.Icc (1 : ℤ) 32) := none
  maxToolCalls : Option (Set.Icc (1 : ℤ) 64) := none
  maxCritiqueRounds : Option (Set.Icc (0 : ℤ) 8) := none
  maxTokens : Option (Set.Icc (256 : ℤ) 200000) := none
  maxCostUsd : Option (Set.Icc (0 : ℚ) 10) := none
  maxWallClockSeconds : Option (Set.Icc (1 : ℚ) 300) := none

/-- Caller budgets are clamped by the server ceiling, never raised. -/
def QueryRequest.budgetOverride (self : QueryRequest) (ceiling : Budget) : Budget :=
  Budget.clamp {
    maxSteps := self.maxSteps.elim ceiling.maxSteps Subtype.val
    maxToolCalls := self.maxToolCalls.elim ceiling.maxToolCalls Subtype.val
    maxCritiqueRounds := self.maxCritiqueRounds.elim ceiling.maxCritiqueRounds Subtype.val
    maxTokens := self.maxTokens.elim ceiling.maxTokens Subtype.val
    maxCostUsd := self.maxCostUsd.elim ceiling.maxCostUsd Subtype.val
    maxWallClockSeconds := self.maxWallClockSeconds.elim ceiling.maxWallClockSeconds Subtype.val }
    ceiling

/-- Server-side ceiling for agent turns. -/
def Settings.agentBudget (settings : Settings) : Budget where
  maxSteps := settings.agentMaxSteps
  maxToolCalls := settings.agentMaxToolCalls
  maxCritiqueRounds := settings.agentMaxCritiqueRounds
  maxTokens := settings.agentMaxTokens
  maxCostUsd := settings.agentMaxCostUsd
  maxWallClockSeconds := settings.agentMaxWallClockSeconds

structure AppState where
  pipeline : OnlinePipeline
  settings : Settings
  agent : Option AgentRuntime := none

/-- What `_run_agent` asks of the answer cache. -/
inductive RouteOp where
  | cacheGet (key : AnswerKey)
  | cacheSet (key : AnswerKey) (answer : AgentAnswer)

@[reducible] def RouteResp : RouteOp → Type
  | .cacheGet _ => Except Exn (Option Payload)
  | .cacheSet _ _ => Except Exn Unit

abbrev RequestOp : Type := ServiceOp ⊕ RouteOp

@[reducible] def RequestResp : RequestOp → Type
  | .inl o => ServiceResp o
  | .inr o => RouteResp o

abbrev RequestEvent : Type := Event RequestOp RequestResp

abbrev RequestProg : Type → Type := Prog RequestOp RequestResp

def onService (o : ServiceOp) : RequestProg (ServiceResp o) :=
  Prog.perform (Sum.inl o : RequestOp)

def onRoute (o : RouteOp) : RequestProg (RouteResp o) :=
  Prog.perform (Sum.inr o : RequestOp)

/-- A part of the pipeline inside a request. -/
def ofPipeline {α : Type} (p : Pipe α) : ExceptT Exn RequestProg α :=
  ExceptT.mk (Prog.interp onService (Prog.interp onPipeline p.run))

/-- The gate of `_run_agent`: only turns the agent completed under its own power. -/
def storesAgentAnswer (settings : Settings) (answer : AgentAnswer) : Bool :=
  settings.cacheEnabled && !answer.refused && !answer.fallbackUsed
    && answer.stopReason ∈ answerableStops

section Routes

variable (handler : (o : AgentOp) → Prog ServiceOp ServiceResp (AgentResp o))

/-- A part of the runtime inside a request. -/
def ofAgent {α : Type} (p : AgentProg α) : RequestProg α :=
  Prog.interp onService (Prog.interp handler p)

def budgetFields (budget : Budget) : List (String × Json) :=
  [("max_steps", .int budget.maxSteps), ("max_tool_calls", .int budget.maxToolCalls),
    ("max_critique_rounds", .int budget.maxCritiqueRounds), ("max_tokens", .int budget.maxTokens),
    ("max_cost_usd", .float (.finite budget.maxCostUsd)),
    ("max_wall_clock_seconds", .float (.finite budget.maxWallClockSeconds))]

variable (state : AppState)

def lookupAgentAnswer (key : AnswerKey) : ExceptT Exn RequestProg (Option Response) :=
  if state.settings.cacheEnabled then do
    let raw ← ExceptT.mk (onRoute (.cacheGet key))
    pure (raw.bind Payload.replay)
  else pure none

def storeAgentAnswer (key : AnswerKey) (answer : AgentAnswer) : ExceptT Exn RequestProg Unit :=
  if storesAgentAnswer state.settings answer then ExceptT.mk (onRoute (.cacheSet key answer))
  else pure ()

variable [Runtime] (rt : AgentRuntime) (body : QueryRequest) (principal : Principal)

/-- The key `_run_agent` computes, with the budget it runs under. -/
def agentAnswerKey (budget : Budget) : ExceptT Exn RequestProg AnswerKey := do
  let tools ← ExceptT.mk (ofAgent handler (allowedFor rt.tools rt.allowEgress))
  let params := agentCacheParams "agent" rt.allowEgress (tools.map Tool.name)
    (budgetFields budget)
  let indexVersion ← ofPipeline state.pipeline.activeIndexVersion
  pure (answerKey body.query.val principal indexVersion rt.promptVersion.value
    (state.settings.retrieval.cacheParams ++ [("agent", .obj params)]))

/-- The key and what the cache holds under it. -/
def openAgentRequest (budget : Budget) : ExceptT Exn RequestProg (AnswerKey × Option Response) := do
  let key ← agentAnswerKey handler state rt body principal budget
  let cached ← lookupAgentAnswer state key
  pure (key, cached)

/-- `_run_agent`; `none` says that the bound on the loop of the turn was reached. -/
def runAgent : RequestProg (Option (Except Exn Response)) := do
  let budget := body.budgetOverride state.settings.agentBudget
  match ← (openAgentRequest handler state rt body principal budget).run with
  | .error exn => pure (some (.error exn))
  | .ok (_, some hit) => pure (some (.ok hit))
  | .ok (key, none) =>
      match ← ofAgent handler (rt.run body.query.val principal (some budget)) with
      | none => pure none
      | some (.error exn) => pure (some (.error exn))
      | some (.ok answer) => do
          let stored ← (storeAgentAnswer state key answer).run
          pure (some (stored.map fun _ => .agent answer))

/-- `POST /query`. -/
def queryRoute : RequestProg (Option (Except Exn Response)) :=
  let useAgent := shouldUseAgent body.query.val body.mode
    (state.settings.agentEnabled && state.agent.isSome)
  match useAgent, state.agent with
  | true, some rt => runAgent handler state rt body principal
  | _, _ => do
      let answer ← (ofPipeline (state.pipeline.answer body.query.val principal)).run
      pure (some (answer.map .plain))

end Routes

end Rag
