import Rag.Chunking.Fixed
import Rag.Chunking.MarkdownAware
import Rag.Chunking.Semantic

/-!
`rag.chunking.registry`: which strategy cuts a document.

The registry holds the four chunkers of the source. `SemanticChunker` has the embedder that
`enable_semantic_chunking` has set, if any.
-/

namespace Rag

open Py

/-- One entry of `strategies`. An absent strategy is the empty name. -/
structure MimeStrategy where
  strategy : String := ""
  size : ℤ := 512
  overlap : ℤ := 64

/-- `configs/chunking.yaml` -/
structure ChunkingConfig where
  strategies : Dict String MimeStrategy := .empty
  defaultStrategy : String := "recursive"
  chunkerVersion : String := "1.0"

/-- `MIME_DEFAULTS.get(mime_type, default)` -/
def mimeDefault (mimeType default : String) : String :=
  if mimeType = "text/plain" then "fixed"
  else if mimeType = "text/markdown" then "markdown_aware"
  else if mimeType = "application/pdf" then "recursive"
  else if mimeType = "text/html" then "recursive"
  else if mimeType = "application/json" then "recursive"
  else default

section Registry

variable {K : Type} [Runtime] [Field K] [LinearOrder K] [Math K] (shortId : List String → String)
  (embedder : Option (List String → Except Exn (List (List K))))

/-- `get_chunker(name).chunk(...)` -/
def chunkWith (name : String) (document : Document) (indexVersion : String)
    (size overlap : ℤ) : Except Exn (List Chunk) :=
  if name = "fixed" then .ok (fixedChunks shortId document indexVersion size overlap)
  else if name = "recursive" then recursiveChunks shortId document indexVersion size overlap
  else if name = "markdown_aware" then markdownChunks shortId document indexVersion size overlap
  else if name = "semantic" then
    semanticChunks shortId embedder document indexVersion size overlap
  else .error (keyError ("Unknown chunker: " ++ name ++ ". Available: "
    ++ "['fixed', 'markdown_aware', 'recursive', 'semantic']"))

/-- Chunk a document using the strategy configured for its mime type. -/
def chunkDocument (document : Document) (indexVersion : String) (config : ChunkingConfig) :
    Except Exn (List Chunk) :=
  let mimeCfg := (config.strategies.get? document.mimeType).getD {}
  let strategy :=
    if mimeCfg.strategy = "" then mimeDefault document.mimeType config.defaultStrategy
    else mimeCfg.strategy
  if mimeCfg.size ≤ mimeCfg.overlap then
    .error (valueError ("overlap (" ++ toString mimeCfg.overlap ++ ") must be smaller than size ("
      ++ toString mimeCfg.size ++ ") for " ++ document.mimeType))
  else chunkWith shortId embedder strategy document indexVersion mimeCfg.size mimeCfg.overlap

variable {shortId embedder}

theorem numbered_chunkDocument {document : Document} {indexVersion : String}
    {config : ChunkingConfig} {chunks : List Chunk}
    (h : chunkDocument shortId embedder document indexVersion config = .ok chunks) :
    Numbered shortId document.docId indexVersion chunks := by
  unfold chunkDocument at h
  extract_lets mimeCfg strategy at h
  split_ifs at h
  all_goals
    unfold chunkWith at h
    split_ifs at h
  all_goals first
    | cases h; exact numbered_fixedChunks _ _ _ _
    | exact numbered_recursiveChunks h
    | exact numbered_markdownChunks h
    | exact numbered_semanticChunks h

end Registry

end Rag
