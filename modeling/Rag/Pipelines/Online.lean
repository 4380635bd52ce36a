import Rag.Lib.Spec
import Rag.Cache.Keys
import Rag.Query
import Rag.Generation.Grounded
import Rag.Retrieval.Hybrid
import Mathlib.Algebra.Order.Ring.Rat
import Mathlib.Algebra.Field.Rat

/-!
`rag.pipelines.online`: rewrite, hybrid retrieve, rerank, generate, cite or refuse.

The pipeline is a program over `PipeOp`: everything it does not compute itself is asked
of its environment, which may answer anything of the right type. Two backends have a
narrower type. A reranker returns chunks it was given, and neither the alias lookup nor
the tracing context raises. The searches of one request run in a thread pool in the
source; they only read, so they are asked one after the other here.

`Settings` keeps the resolved retrieval configuration and the settings the request and
indexing paths read. Spans, metrics and latencies are left out.
-/

namespace Rag

open Py Interaction

/-- Resolved retrieval knobs for one query. -/
structure RetrievalConfig where
  topK : ℤ := 10
  rerankTopK : ℤ := 5
  rrfK : ℤ := 60
  denseWeight : ℚ := 1
  lexicalWeight : ℚ := 1
  rewriteEnabled : Bool := true
  multiQueryEnabled : Bool := false
  multiQueryCount : ℤ := 3
  hydeEnabled : Bool := false

/-- Fields that must change the cache key when they change. -/
def RetrievalConfig.cacheParams (cfg : RetrievalConfig) : List (String × Json) :=
  [("top_k", .int cfg.topK), ("rerank_top_k", .int cfg.rerankTopK), ("rrf_k", .int cfg.rrfK),
    ("dense_weight", .float (.finite cfg.denseWeight)),
    ("lexical_weight", .float (.finite cfg.lexicalWeight)),
    ("rewrite_enabled", .bool cfg.rewriteEnabled),
    ("multi_query_enabled", .bool cfg.multiQueryEnabled),
    ("multi_query_count", .int cfg.multiQueryCount), ("hyde_enabled", .bool cfg.hydeEnabled)]

inductive RerankerName where
  | identity
  | crossEncoder
deriving DecidableEq

inductive LLMBackend where
  | echo
  | openai
deriving DecidableEq

structure Settings where
  indexVersion : String := "v1"
  collectionAlias : String := "docs_live"
  collectionPrefix : String := "docs"
  llmBackend : LLMBackend := .echo
  reranker : RerankerName := .identity
  retrieval : RetrievalConfig := {}
  topK : ℤ := 10
  refusalScoreThreshold : ℚ := 1 / 100
  cacheEnabled : Bool := true
  cacheTtlSeconds : ℤ := 3600
  llmModel : String := "gpt-4o-mini"
  llmFallbackModels : List String := []
  llmMaxOutputTokens : ℤ := 1024
  llmTemperature : ℚ := 0
  piiRedactionEnabled : Bool := true
  agentEnabled : Bool := true
  agentMaxSteps : ℤ := 6
  agentMaxToolCalls : ℤ := 10
  agentMaxCritiqueRounds : ℤ := 2
  agentMaxTokens : ℤ := 20000
  agentMaxCostUsd : ℚ := 1 / 10
  agentMaxWallClockSeconds : ℚ := 30

/-- `a or b` on an optional string: the empty string counts as absent. -/
def orElseText (a : Option String) (b : String) : String :=
  match a with
  | some s => if s = "" then b else s
  | none => b

/-- Physical collection name for a version, e.g. `docs__v2`. -/
def Settings.collectionFor (settings : Settings) (indexVersion : Option String) : String :=
  settings.collectionPrefix ++ "__" ++ orElseText indexVersion settings.indexVersion

abbrev Vector : Type := List ℚ

/-- What the pipeline asks of its collaborators. -/
inductive PipeOp where
  | startTrace
  | currentTraceId
  | resolveAlias (aliasName : String)
  | cacheGet (key : AnswerKey)
  | cacheSet (key : AnswerKey) (answer : Answer)
  | semanticGet (query : String) (scope : AnswerScope)
  | semanticSet (query : String) (answer : Answer) (scope : AnswerScope)
  | embed (texts : List String)
  | search (vector : Vector) (topK : ℤ) (principal : Principal) (indexVersion : Option String)
  | lexicalSearch (query : String) (topK : ℤ) (principal : Principal)
      (indexVersion : Option String)
  | rerank (query : String) (candidates : List (ScoredChunk ℚ)) (topK : ℤ)
  | complete (prompt : String)

/-- A reordering, rescoring or cut of the candidates: no chunk but theirs. -/
abbrev Reranked (candidates : List (ScoredChunk ℚ)) : Type :=
  { out : List (ScoredChunk ℚ) // ∀ s ∈ out, ∃ c ∈ candidates, s.chunk = c.chunk }

/-- The candidates as they are. -/
def Reranked.all (candidates : List (ScoredChunk ℚ)) : Reranked candidates :=
  ⟨candidates, fun s hs => ⟨s, hs, rfl⟩⟩

@[reducible] def PipeResp : PipeOp → Type
  | .startTrace => String
  | .currentTraceId => String
  | .resolveAlias _ => Option String
  | .cacheGet _ => Except Exn (Option Answer)
  | .cacheSet _ _ => Except Exn Unit
  | .semanticGet _ _ => Except Exn (Option Answer)
  | .semanticSet _ _ _ => Except Exn Unit
  | .embed _ => Except Exn (List Vector)
  | .search _ _ _ _ => Except Exn (List (ScoredChunk ℚ))
  | .lexicalSearch _ _ _ _ => Except Exn (List (ScoredChunk ℚ))
  | .rerank _ candidates _ => Except Exn (Reranked candidates)
  | .complete _ => Except Exn (String × Usage)

abbrev PipeOp.ask (o : PipeOp) : Prog PipeOp PipeResp (PipeResp o) := Prog.perform o

/-- A pipeline computation: it may raise. -/
abbrev Pipe : Type → Type := ExceptT Exn (Prog PipeOp PipeResp)

structure OnlinePipeline where
  settings : Settings := {}
  rrfK : ℤ := 60
  denseWeight : ℚ := 1
  lexicalWeight : ℚ := 1
  modelName : String := "echo"
  promptVersion : PromptVersion := .v1
  semanticCache : Bool := false
  fallbackIndexVersion : Option String := none

namespace OnlinePipeline

/-- The version an alias lookup resolves to. -/
def versionOf (pipeline : OnlinePipeline) (resolved : Option String) : String :=
  orElseText resolved
    (orElseText pipeline.fallbackIndexVersion pipeline.settings.indexVersion)

/-- Resolve the live index through the alias. -/
def activeIndexVersion (pipeline : OnlinePipeline) : Pipe String := do
  let resolved ← Prog.total (.resolveAlias pipeline.settings.collectionAlias)
  pure (pipeline.versionOf resolved)

def retriever (pipeline : OnlinePipeline) : HybridRetriever Pipe Vector ℚ where
  embed texts := ExceptT.mk (PipeOp.ask (.embed texts))
  search vector topK principal indexVersion :=
    ExceptT.mk (PipeOp.ask (.search vector topK principal indexVersion))
  lexicalSearch query topK principal indexVersion :=
    ExceptT.mk (PipeOp.ask (.lexicalSearch query topK principal indexVersion))
  rrfK := pipeline.rrfK
  denseWeight := pipeline.denseWeight
  lexicalWeight := pipeline.lexicalWeight

def refuse (pipeline : OnlinePipeline) (reason traceId : String) : Answer where
  text := "I don't know based on the available documents."
  refused := true
  refusalReason := some reason
  traceId := traceId
  usage := { model := pipeline.modelName, promptVersion := pipeline.promptVersion.value }

def shouldCache (pipeline : OnlinePipeline) (answer : Answer) : Bool :=
  pipeline.settings.cacheEnabled && !answer.refused

section Answer

variable [Runtime] (pipeline : OnlinePipeline)

def queryVariants (query : String) : List String :=
  let cfg := pipeline.settings.retrieval
  let variants :=
    if cfg.multiQueryEnabled then expandMultiQuery query cfg.multiQueryCount
    else if cfg.rewriteEnabled then rewriteQuery query
    else [query]
  if variants = [] then [query] else variants

/-- `hyde_document(v) or v` for every variant when HyDE is on. -/
def denseVariants (variants : List String) : List String :=
  if pipeline.settings.retrieval.hydeEnabled then
    variants.map fun v => orElseText (some (hydeDocument v)) v
  else variants

def retrieve (query : String) (principal : Principal) (indexVersion : String) :
    Pipe QueryResult := do
  let cfg := pipeline.settings.retrieval
  let traceId ← Prog.total .currentTraceId
  let variants := pipeline.queryVariants query
  let scored ← retrieveMulti pipeline.retriever variants principal cfg.topK
    (some indexVersion) (pipeline.denseVariants variants)
  let reranked ← ExceptT.mk
    (PipeOp.ask (.rerank (variants.headD query) scored cfg.rerankTopK))
  pure ⟨query, variants, reranked.val, indexVersion, traceId⟩

/-- Retrieval without generation. -/
def retrieveOnly (query : String) (principal : Principal) : Pipe QueryResult := do
  let _ ← Prog.total .startTrace
  let indexVersion ← pipeline.activeIndexVersion
  pipeline.retrieve query principal indexVersion

def lookupCache (key : AnswerKey) (query : String) : Pipe (Option Answer) :=
  if pipeline.settings.cacheEnabled then do
    let stored ← ExceptT.mk (PipeOp.ask (.cacheGet key))
    match stored with
    | some answer => pure (some answer)
    | none =>
        if pipeline.semanticCache then
          ExceptT.mk (PipeOp.ask (.semanticGet query key.scope))
        else pure none
  else pure none

def storeAnswer (key : AnswerKey) (query : String) (answer : Answer) : Pipe Unit :=
  if pipeline.shouldCache answer then do
    let _ ← ExceptT.mk (PipeOp.ask (.cacheSet key answer))
    if pipeline.semanticCache then
      ExceptT.mk (PipeOp.ask (.semanticSet query answer key.scope))
    else pure ()
  else pure ()

/-- Generation over retrieved chunks; a spent model becomes a refusal. -/
def generate (query traceId : String) (result : QueryResult) :
    Pipe (Except Answer Answer) := do
  let generationTrace ← Prog.total .currentTraceId
  let outcome ← Prog.attempt (generateGrounded (m := Pipe)
    (fun prompt => ExceptT.mk (PipeOp.ask (.complete prompt))) pipeline.modelName query
    result.results pipeline.settings.refusalScoreThreshold pipeline.promptVersion
    pipeline.settings.piiRedactionEnabled generationTrace)
  match outcome with
  | .ok answer => pure (.ok answer)
  | .error exn =>
      if exn.cls = .llm then pure (.error (pipeline.refuse "llm_unavailable" traceId))
      else throw exn

def answer (query : String) (principal : Principal) : Pipe Answer := do
  let traceId ← Prog.total .startTrace
  let indexVersion ← pipeline.activeIndexVersion
  let key := answerKey query principal indexVersion pipeline.promptVersion.value
    pipeline.settings.retrieval.cacheParams
  let cached ← pipeline.lookupCache key query
  match cached with
  | some hit => pure { hit with traceId := traceId, cached := true }
  | none =>
      match routeQuery query with
      | .refuse => pure (pipeline.refuse "empty_query" traceId)
      | .chitchat =>
          pure {
            text := "Hello. Ask me a question about the indexed documents."
            traceId := traceId
            usage := {
              model := pipeline.modelName
              promptVersion := pipeline.promptVersion.value } }
      | _ => do
          let result ← pipeline.retrieve query principal indexVersion
          let generated ← pipeline.generate query traceId result
          match generated with
          | .error refusal => pure refusal
          | .ok grounded => do
              let answerTrace ← Prog.total .currentTraceId
              let answer := { grounded with traceId := answerTrace, indexVersion := indexVersion }
              pipeline.storeAnswer key query answer
              pure answer

end Answer

end OnlinePipeline

end Rag
