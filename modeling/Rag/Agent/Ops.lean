import Rag.Lib.Gather
import Rag.Agent.Schemas
import Rag.Cache.Keys
import Rag.Errors

/-!
What the agent runtime asks of its collaborators.

An await under the turn's deadline is answered with a value, with an exception the
collaborator raised, or with the deadline itself. `available` carries the call it is read
for, and no call while the tools are listed. `enter` marks an invocation of
`ToolRegistry.execute`; `schedule` is the order in which the event loop runs concurrent
tool calls.
-/

namespace Rag

open Interaction

/-- How an await ends without a value. -/
inductive Failure where
  | raised (exn : Exn)
  | deadline
deriving DecidableEq

/-- The exception a failure carries. -/
def Failure.exn : Failure → Option Exn
  | .raised exn => some exn
  | .deadline => none

/-- The deadline cancels what runs next to the await it ends. -/
def Failure.cancels : Failure → Bool
  | .raised _ => false
  | .deadline => true

/-- Mutable spend counter for one agent turn. -/
structure BudgetTracker where
  budget : Budget
  steps : ℤ := 0
  toolCalls : ℤ := 0
  critiqueRounds : ℤ := 0
  tokens : ℤ := 0
  costUsd : Py.PyFloat := 0
  usageTotal : Usage := {}

inductive AgentOp where
  | startTrace
  | currentTraceId
  | activeIndexVersion
  | available (tool : String) (call : Option ToolCall)
  | spec (tool : String)
  | elapsed
  | chat (messages : List Message) (tools : Option (List ToolSpec))
  | critique (messages : List Message)
  | schedule
  | enter (call : ToolCall)
  | runTool (tool : String) (arguments : List (String × Py.Json)) (principal : Principal)
      (budget : BudgetTracker)
  | toolCacheGet (key : ToolKey)
  | toolCacheSet (key : ToolKey) (result : ToolResult)
  | answer (question : String) (principal : Principal)
  | deadline

@[reducible] def AgentResp : AgentOp → Type
  | .startTrace => String
  | .currentTraceId => String
  | .activeIndexVersion => String
  | .available _ _ => Except Exn Bool
  | .spec _ => Except Exn ToolSpec
  | .elapsed => ℚ
  | .chat _ _ => Except Failure ChatCompletion
  | .critique _ => Except Failure ChatCompletion
  | .schedule => List Nat
  | .enter _ => Unit
  | .runTool _ _ _ _ => Except Failure ToolResult
  | .toolCacheGet _ => Except Exn (Option ToolResult)
  | .toolCacheSet _ _ => Except Exn Unit
  | .answer _ _ => Except Exn Answer
  | .deadline => Bool

instance (o : AgentOp) : Nonempty (AgentResp o) := by
  cases o with
  | startTrace => exact ⟨""⟩
  | currentTraceId => exact ⟨""⟩
  | activeIndexVersion => exact ⟨""⟩
  | available => exact ⟨.ok false⟩
  | spec => exact ⟨.ok ⟨"", "", []⟩⟩
  | elapsed => exact ⟨0⟩
  | chat => exact ⟨.error .deadline⟩
  | critique => exact ⟨.error .deadline⟩
  | schedule => exact ⟨[]⟩
  | enter => exact ⟨()⟩
  | runTool => exact ⟨.error .deadline⟩
  | toolCacheGet => exact ⟨.ok none⟩
  | toolCacheSet => exact ⟨.ok ()⟩
  | answer => exact ⟨.ok { text := "" }⟩
  | deadline => exact ⟨false⟩

abbrev AgentProg : Type → Type := Prog AgentOp AgentResp

abbrev AgentEvent : Type := Event AgentOp AgentResp

abbrev AgentOp.ask (o : AgentOp) : AgentProg (AgentResp o) := Prog.perform o

end Rag
