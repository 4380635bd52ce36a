import Rag.Lib.Prog
import Rag.Agent.Schemas
import Rag.Errors

/-!
`rag.llm.resilient` and `rag.llm.resilient_chat`: retries and fallbacks around the model clients,
with `rag.llm.errors`.

A call under the timeout of the policy is answered with what the client returns or raises, or
with a `TimeoutError` when it is late. A pause is asked by the attempt it follows; how long it takes
is left to the policy. Spans, counters and log lines are left out.
-/

namespace Rag

open Interaction Py

structure LLMClient where
  modelName : String

structure ChatLLM where
  modelName : String

/-- How often and under which timeout an attempt is made. -/
structure RetryPolicy where
  maxAttempts : ℤ := 3
  timeoutSeconds : ℚ := 30

/-- `range(1, max_attempts + 1)` -/
def RetryPolicy.attempts (policy : RetryPolicy) : List ℤ :=
  (List.range policy.maxAttempts.toNat).map fun i : Nat => (i : ℤ) + 1

def llmTimeoutError [Runtime] (model : String) (timeoutSeconds : ℚ) : Exn where
  cls := .llm
  name := "LLMTimeoutError"
  text := model ++ " timed out after " ++ Runtime.floatRepr timeoutSeconds ++ "s"

/-- All models (primary and fallbacks) failed. -/
structure LLMUnavailableError where
  models : List String
  lastError : String
deriving DecidableEq

def LLMUnavailableError.exn (error : LLMUnavailableError) : Exn where
  cls := .llm
  name := "LLMUnavailableError"
  text := "all LLM models exhausted (" ++ join ", " error.models ++ "); last error: "
    ++ error.lastError

/-- `f"{type(exc).__name__}: {exc}"` -/
def Exn.describe (exn : Exn) : String := exn.name ++ ": " ++ exn.text

inductive LlmOp where
  | complete (client : LLMClient) (prompt : String)
  | completeWithin (timeoutSeconds : ℚ) (client : LLMClient) (prompt : String)
  /-- `time.sleep(policy.delay_for(attempt))` -/
  | sleep (attempt : ℤ)
  | chat (client : ChatLLM) (messages : List Message) (tools : Option (List ToolSpec))
  | chatWithin (timeoutSeconds : ℚ) (client : ChatLLM) (messages : List Message)
      (tools : Option (List ToolSpec))
  /-- `asyncio.sleep(policy.delay_for(attempt))` -/
  | asyncSleep (attempt : ℤ)

@[reducible] def LlmResp : LlmOp → Type
  | .complete _ _ => Except Exn (String × Usage)
  | .completeWithin _ _ _ => Except Exn (String × Usage)
  | .sleep _ => Unit
  | .chat _ _ _ => Except Exn ChatCompletion
  | .chatWithin _ _ _ _ => Except Exn ChatCompletion
  | .asyncSleep _ => Unit

abbrev LlmProg : Type → Type := Prog LlmOp LlmResp

abbrev LlmEvent : Type := Event LlmOp LlmResp

abbrev LlmOp.ask (o : LlmOp) : LlmProg (LlmResp o) := Prog.perform o

/-- Wraps a primary client with retries, per-attempt timeout, and fallbacks. -/
structure ResilientLLM where
  primary : LLMClient
  fallbacks : List LLMClient := []
  policy : RetryPolicy := {}

namespace ResilientLLM

def chain (self : ResilientLLM) : List LLMClient := self.primary :: self.fallbacks

section Run

variable [Runtime] (self : ResilientLLM) (prompt : String)

/-- `_attempt` -/
def attempt (client : LLMClient) : LlmProg (Except Exn (String × Usage)) :=
  let timeout := self.policy.timeoutSeconds
  if timeout ≤ 0 then (LlmOp.complete client prompt).ask
  else do
    match ← (LlmOp.completeWithin timeout client prompt).ask with
    | .ok result => pure (.ok result)
    | .error exn =>
        if exn.isTimeout then pure (.error (llmTimeoutError client.modelName timeout))
        else pure (.error exn)

/-- The inner loop: what one client returns, or the last error when it is out of attempts. -/
def tryClient (client : LLMClient) : List ℤ → String → LlmProg ((String × Usage) ⊕ String)
  | [], lastError => pure (.inr lastError)
  | attempt :: rest, _ => do
    match ← self.attempt prompt client with
    | .error exn =>
        if attempt < self.policy.maxAttempts then
          (LlmOp.sleep attempt).ask
          tryClient client rest exn.describe
        else tryClient client rest exn.describe
    | .ok result => pure (.inl result)

/-- The outer loop over the clients that are left. -/
def tryChain : List LLMClient → String → LlmProg (Except LLMUnavailableError (String × Usage))
  | [], lastError => pure (.error ⟨self.chain.map LLMClient.modelName, lastError⟩)
  | client :: rest, lastError => do
    match ← self.tryClient prompt client self.policy.attempts lastError with
    | .inl result => pure (.ok result)
    | .inr lastError => tryChain rest lastError

def complete : LlmProg (Except LLMUnavailableError (String × Usage)) :=
  self.tryChain prompt self.chain "none"

end Run

end ResilientLLM

/-- Retries each model under the timeout, then falls through the chain. -/
structure ResilientChatLLM where
  primary : ChatLLM
  fallbacks : List ChatLLM := []
  policy : RetryPolicy := {}

namespace ResilientChatLLM

def chain (self : ResilientChatLLM) : List ChatLLM := self.primary :: self.fallbacks

section Run

variable [Runtime] (self : ResilientChatLLM) (messages : List Message)
  (tools : Option (List ToolSpec))

/-- `_attempt` -/
def attempt (client : ChatLLM) : LlmProg (Except Exn ChatCompletion) :=
  let timeout := self.policy.timeoutSeconds
  if timeout ≤ 0 then (LlmOp.chat client messages tools).ask
  else do
    match ← (LlmOp.chatWithin timeout client messages tools).ask with
    | .ok result => pure (.ok result)
    | .error exn =>
        if exn.isTimeout then pure (.error (llmTimeoutError client.modelName timeout))
        else pure (.error exn)

/-- The inner loop: what one client returns, or the last error when it is out of attempts. -/
def tryClient (client : ChatLLM) : List ℤ → String → LlmProg (ChatCompletion ⊕ String)
  | [], lastError => pure (.inr lastError)
  | attempt :: rest, _ => do
    match ← self.attempt messages tools client with
    | .error exn =>
        if attempt < self.policy.maxAttempts then
          (LlmOp.asyncSleep attempt).ask
          tryClient client rest exn.describe
        else tryClient client rest exn.describe
    | .ok result => pure (.inl result)

/-- The outer loop over the clients that are left. -/
def tryChain : List ChatLLM → String → LlmProg (Except LLMUnavailableError ChatCompletion)
  | [], lastError => pure (.error ⟨self.chain.map ChatLLM.modelName, lastError⟩)
  | client :: rest, lastError => do
    match ← self.tryClient messages tools client self.policy.attempts lastError with
    | .inl result => pure (.ok result)
    | .inr lastError => tryChain rest lastError

def chat : LlmProg (Except LLMUnavailableError ChatCompletion) :=
  self.tryChain messages tools self.chain "none"

end Run

end ResilientChatLLM

end Rag
