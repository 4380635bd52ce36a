import Rag.Generation.Citations
import Rag.Security.Pii
import Rag.Prompts

/-!
`rag.generation.grounded` and `rag.generation.refusal`.

The language model is an action of an arbitrary monad, so the same definition runs
inside the pipeline's programs.
-/

namespace Rag

open Py

/-- Why an answer over these chunks with these citations is refused, if it is. -/
def shouldRefuse (scored : List (ScoredChunk ℚ)) (citations : List Citation)
    (scoreThreshold : ℚ) : Option String :=
  match scored with
  | [] => some "no_retrieved_context"
  | top :: _ =>
      if top.score < scoreThreshold then some "low_confidence_score"
      else if citations = [] then some "zero_resolvable_citations"
      else none

/-- Refusal is a normal return value, not an exception. -/
def refusedAnswer (reason : String) (usage : Usage) (traceId : String) : Answer where
  text := "I don't know based on the available documents."
  refused := true
  refusalReason := some reason
  usage := usage
  traceId := traceId

/-- One retrieved chunk with an id the model can cite. -/
def formatChunk (s : ScoredChunk ℚ) : String :=
  "[chunk_id=" ++ s.chunk.chunkId ++ "] doc=" ++ s.chunk.docId ++ " score="
    ++ formatFixed 4 s.score ++ "\n" ++ s.chunk.text

def formatContext (scored : List (ScoredChunk ℚ)) : String :=
  join "\n\n" (scored.map formatChunk)

/-- The answer built from the model's text. -/
def groundAnswer [Runtime] (scored : List (ScoredChunk ℚ)) (scoreThreshold : ℚ)
    (redact : Bool) (traceId rawText : String) (usage : Usage) : Answer :=
  let text := if redact then redactPii rawText else rawText
  let citations := resolveCitations text scored
  match shouldRefuse scored citations scoreThreshold with
  | some reason => refusedAnswer reason usage traceId
  | none => { text := text, citations := citations, usage := usage, traceId := traceId }

/-- Grounded generation with citations and explicit refusal. Retrieval that found
nothing usable refuses before the model is called. -/
def generateGrounded {m : Type → Type} [Monad m] [Runtime]
    (complete : String → m (String × Usage)) (modelName question : String)
    (scored : List (ScoredChunk ℚ)) (scoreThreshold : ℚ) (promptVersion : PromptVersion)
    (redact : Bool) (traceId : String) : m Answer :=
  let earlyReason := shouldRefuse scored [] scoreThreshold
  if earlyReason = some "no_retrieved_context" ∨ earlyReason = some "low_confidence_score" then
    pure (refusedAnswer (earlyReason.getD "unknown")
      { model := modelName, promptVersion := promptVersion.value } traceId)
  else do
    let prompt := answerGroundedPrompt promptVersion question (formatContext scored)
    let (rawText, usage) ← complete prompt
    let usage := { usage with promptVersion := promptVersion.value }
    pure (groundAnswer scored scoreThreshold redact traceId rawText usage)

theorem mem_groundAnswer_citations [Runtime] {scored : List (ScoredChunk ℚ)}
    {scoreThreshold : ℚ} {redact : Bool} {traceId rawText : String} {usage : Usage}
    {c : Citation}
    (h : c ∈ (groundAnswer scored scoreThreshold redact traceId rawText usage).citations) :
    ∃ s ∈ scored, c = citationFromScored s := by
  unfold groundAnswer at h
  dsimp only at h
  split at h
  · cases h
  · exact mem_resolveCitations h

end Rag
