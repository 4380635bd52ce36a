import Rag.Schemas
import Mathlib.Algebra.Order.Ring.Rat

/-!
`rag.schemas.agent` and the messages of `rag.llm.chat`.

Tool arguments and parameter schemas are JSON objects.
-/

namespace Rag

open Py

inductive StopReason where
  | answered
  | budgetExhausted
  | criticGrounded
  | criticExhausted
  | noGrounding
  | toolUnavailable
  | fallbackPipeline
  | refused
  | error
deriving DecidableEq

/-- Stop reasons under which the agent produced a cited answer under its own power. -/
def answerableStops : List StopReason := [.answered, .criticGrounded, .criticExhausted]

/-- Hard caps for one agent turn. -/
structure Budget where
  maxSteps : ℤ := 6
  maxToolCalls : ℤ := 10
  maxCritiqueRounds : ℤ := 2
  maxTokens : ℤ := 20000
  maxCostUsd : ℚ := 1 / 10
  maxWallClockSeconds : ℚ := 30

/-- Never raise a caller budget above the server ceiling. -/
def Budget.clamp (self ceiling : Budget) : Budget where
  maxSteps := min self.maxSteps ceiling.maxSteps
  maxToolCalls := min self.maxToolCalls ceiling.maxToolCalls
  maxCritiqueRounds := min self.maxCritiqueRounds ceiling.maxCritiqueRounds
  maxTokens := min self.maxTokens ceiling.maxTokens
  maxCostUsd := min self.maxCostUsd ceiling.maxCostUsd
  maxWallClockSeconds := min self.maxWallClockSeconds ceiling.maxWallClockSeconds

/-- A tool invocation requested by the planning model. -/
structure ToolCall where
  id : String
  name : String
  arguments : List (String × Json) := []

/-- Outcome of one tool call, including any sources it produced. -/
structure ToolResult where
  callId : String
  name : String
  ok : Bool := true
  content : String := ""
  sources : List Source := []
  error : Option String := none

inductive StepKind where
  | plan
  | act
  | critique
deriving DecidableEq

structure AgentStep where
  index : Nat
  kind : StepKind := .plan
  thought : String := ""
  toolCalls : List ToolCall := []
  toolResults : List ToolResult := []
  draft : Option String := none
  usage : Usage := {}

/-- Critic judgement over a draft answer and its sources. -/
structure Verdict where
  sufficient : Bool
  grounded : Bool
  reasons : List String := []
  missing : List String := []
  confidence : PyFloat := .finite 0

structure AgentTrace where
  steps : List AgentStep
  stopReason : StopReason
  sources : List Source
  critiqueRounds : ℤ
  totalToolCalls : ℤ
  selfCorrections : ℤ
  fallbackUsed : Bool

/-- Answer plus agent metadata. -/
structure AgentAnswer extends Answer where
  stopReason : StopReason := .answered
  stepsTaken : ℤ := 0
  toolCalls : ℤ := 0
  toolsUsed : List String := []
  selfCorrections : ℤ := 0
  fallbackUsed : Bool := false
  degradedReason : Option String := none
  criticVerdict : Option Verdict := none
  trace : Option AgentTrace := none

inductive Role where
  | system
  | user
  | assistant
  | tool
deriving DecidableEq

/-- One turn in a chat conversation. -/
structure Message where
  role : Role
  content : String := ""
  name : Option String := none
  toolCallId : Option String := none
  toolCalls : List ToolCall := []

/-- JSON-schema description of a tool the model may call. -/
structure ToolSpec where
  name : String
  description : String
  parameters : List (String × Json) := []

/-- Result of one chat turn: text and/or tool calls, plus usage. -/
structure ChatCompletion where
  message : Message
  usage : Usage := {}

def ChatCompletion.text (completion : ChatCompletion) : String := completion.message.content

def ChatCompletion.toolCalls (completion : ChatCompletion) : List ToolCall :=
  completion.message.toolCalls

end Rag
