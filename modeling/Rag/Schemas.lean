import Rag.Lib.Json

/-!
The contracts in `rag.schemas` that the modelled request paths read and write.

Wall-clock latencies and ingestion timestamps are left out: no decision depends on
them. Dollar costs are exact rationals where the source has floats, and so are the scores of
retrieval, a `ScoredChunk` being generic in the type of its score. The score of a source or a
citation is any float, since a tool may report what it likes.
-/

namespace Rag

/-- Authenticated caller identity used for ACL filtering. -/
structure Principal where
  subject : String
  groups : Finset String
  tenant : String

/-- Access-control tags attached to documents and chunks. -/
structure AclTags where
  tenant : String
  allowGroups : Finset String := ∅
  classification : String := "internal"

/-- Parsed source document ready for chunking. -/
structure Document where
  docId : String
  sourceUri : String
  mimeType : String
  checksum : String
  text : Option String := none
  acl : AclTags
  metadata : List (String × Py.Json) := []

/-- Indexed text unit with ACL and index version. -/
structure Chunk where
  chunkId : String
  docId : String
  ordinal : ℤ
  text : String
  span : ℤ × ℤ
  acl : AclTags
  indexVersion : String
  embeddingModel : Option String := none
  metadata : List (String × Py.Json) := []

inductive Retriever where
  | dense
  | lexical
  | fused
  | rerank
deriving DecidableEq

def Retriever.value : Retriever → String
  | .dense => "dense"
  | .lexical => "lexical"
  | .fused => "fused"
  | .rerank => "rerank"

/-- Chunk with retrieval score and provenance. -/
structure ScoredChunk (K : Type) where
  chunk : Chunk
  score : K
  rank : ℤ
  retriever : Retriever

/-- Output of hybrid retrieval before generation. -/
structure QueryResult where
  query : String
  rewritten : List String
  results : List (ScoredChunk ℚ)
  indexVersion : String
  traceId : String

inductive SourceKind where
  | chunk
  | web
  | graph
  | tool
deriving DecidableEq

def SourceKind.value : SourceKind → String
  | .chunk => "chunk"
  | .web => "web"
  | .graph => "graph"
  | .tool => "tool"

/-- One piece of evidence the agent may use or cite. -/
structure Source where
  kind : SourceKind
  ref : String
  docId : String := ""
  title : String := ""
  quote : String := ""
  score : Py.PyFloat := 0
  url : Option String := none
  acl : Option AclTags := none
  metadata : List (String × Py.Json) := []

/-- Pointer from an answer back to the evidence that supports it. -/
structure Citation where
  chunkId : String := ""
  docId : String := ""
  quote : String := ""
  score : Py.PyFloat := 0
  kind : SourceKind := .chunk
  ref : String := ""
  url : Option String := none
  title : String := ""
deriving DecidableEq

/-- Token and cost accounting for a generation call. -/
structure Usage where
  promptTokens : ℤ := 0
  completionTokens : ℤ := 0
  totalTokens : ℤ := 0
  costUsd : ℚ := 0
  model : String := "echo"
  promptVersion : String := "v1"
deriving DecidableEq

/-- `Usage.__add__`: the right operand names the model unless its name is empty. -/
def Usage.add (self other : Usage) : Usage where
  promptTokens := self.promptTokens + other.promptTokens
  completionTokens := self.completionTokens + other.completionTokens
  totalTokens := self.totalTokens + other.totalTokens
  costUsd := self.costUsd + other.costUsd
  model := if other.model = "" then self.model else other.model
  promptVersion := if other.promptVersion = "" then self.promptVersion else other.promptVersion

instance : Add Usage := ⟨Usage.add⟩

/-- Grounded generation result, including explicit refusal. -/
structure Answer where
  text : String
  citations : List Citation := []
  refused : Bool := false
  refusalReason : Option String := none
  usage : Usage := {}
  traceId : String := ""
  indexVersion : String := ""
  cached : Bool := false
deriving DecidableEq

end Rag
