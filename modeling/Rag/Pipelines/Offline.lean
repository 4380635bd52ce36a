import Rag.Chunking.Registry
import Rag.IndexRegistry
import Rag.Ingestion.LocalFs
import Rag.Lib.Spec
import Rag.Parsing
import Rag.Pipelines.Online
import Rag.Security.Pii

/-!
`rag.pipelines.offline`: ingest, parse, chunk, embed, index, then publish.

A build is a program over `BuildOp`: what it writes, and the embedder. Reading the source
tree, parsing and cutting ask nothing of what is shared and are functions of the request.
Creation times of registry entries are left out.
-/

namespace Rag

open Py Interaction

/-- What a build asks of its collaborators. -/
inductive BuildOp (K : Type) where
  | record (entry : IndexVersion)
  | embed (texts : List String)
  | vectorUpsert (chunks : List Chunk) (vectors : List (List K))
  | lexicalUpsert (chunks : List Chunk)
  | setAlias (aliasName indexVersion : String)
  | registryActivate (version : String)

@[reducible] def BuildResp {K : Type} : BuildOp K → Type
  | .record _ => Except Exn Unit
  | .embed _ => Except Exn (List (List K))
  | .vectorUpsert _ _ => Except Exn Unit
  | .lexicalUpsert _ => Except Exn Unit
  | .setAlias _ _ => Except Exn Unit
  | .registryActivate _ => Except Exn Unit

abbrev BuildEvent (K : Type) : Type := Event (BuildOp K) BuildResp

abbrev BuildOp.ask {K : Type} (o : BuildOp K) : Prog (BuildOp K) BuildResp (BuildResp o) :=
  Prog.perform o

/-- A computation of the offline pipeline: it may raise. -/
abbrev Build (K : Type) : Type → Type := ExceptT Exn (Prog (BuildOp K) BuildResp)

/-- What one build works with. `sentenceEmbedder` is what the semantic chunker has been given,
and `readPdf` extracts the pages of a file. -/
structure OfflinePipeline (K : Type) where
  settings : Settings := {}
  chunking : ChunkingConfig := {}
  modelName : String := "hash-64"
  sentenceEmbedder : Option (List String → Except Exn (List (List K))) := none
  readPdf : String → Except Exn (List String) := fun _ => .ok []

/-- The arguments of `run`, with the file system the build finds. -/
structure BuildRequest where
  files : FileTree
  source : List String
  indexVersion : Option String := none
  acl : Option AclTags := none
  activate : Bool := true

namespace OfflinePipeline

variable {K : Type} (pipeline : OfflinePipeline K) (request : BuildRequest)

/-- `index_version or self.settings.index_version` -/
def version : String := orElseText request.indexVersion pipeline.settings.indexVersion

def registryEntry (version status : String) : IndexVersion where
  version := version
  collection := pipeline.settings.collectionFor (some version)
  aliasName := pipeline.settings.collectionAlias
  status := status
  embeddingModel := some pipeline.modelName

/-- The entry that ends a build. -/
def builtEntry (version : String) (chunks : List Chunk) : IndexVersion :=
  { pipeline.registryEntry version "built" with
    chunkCount := chunks.length
    chunkerVersion := some pipeline.chunking.chunkerVersion }

/-- Stamp the model so swapping embedders invalidates the index. -/
def stamp (chunk : Chunk) : Chunk := { chunk with embeddingModel := some pipeline.modelName }

def embedAndIndex (chunks : List Chunk) : Build K (List Chunk) := do
  let stamped := chunks.map pipeline.stamp
  let vectors ← ExceptT.mk (BuildOp.ask (.embed (stamped.map Chunk.text)))
  let _ ← ExceptT.mk (BuildOp.ask (.vectorUpsert stamped vectors))
  let _ ← ExceptT.mk (BuildOp.ask (.lexicalUpsert stamped))
  pure stamped

/-- Point the alias at a built version. A version the registry does not know is published all
the same. -/
def activate (version : String) : Build K Unit := do
  let _ ← ExceptT.mk (BuildOp.ask (K := K)
    (.setAlias pipeline.settings.collectionAlias version))
  let outcome ← Prog.attempt
    (ExceptT.mk (BuildOp.ask (K := K) (.registryActivate version)) : Build K Unit)
  match outcome with
  | .ok () => pure ()
  | .error exn => if exn.cls = .key then pure () else throw exn

/-- `if all_chunks: all_chunks = self._embed_and_index(all_chunks, version)` -/
def indexChunks (chunks : List Chunk) : Build K (List Chunk) :=
  if chunks = [] then pure [] else pipeline.embedAndIndex chunks

/-- `if activate and all_chunks: self.activate(version, registry=registry)` -/
def publish (version : String) (chunks : List Chunk) : Build K Unit :=
  if request.activate && chunks ≠ [] then pipeline.activate version else pure ()

variable [Runtime]

def ingest : Except Exn (List Document) :=
  let connector : LocalFSConnector := ⟨request.source⟩
  (connector.listUris request.files).mapM fun uri =>
    LocalFSConnector.fetch request.files uri request.acl

/-- Redact before anything is embedded or stored. -/
def redact (document : Document) : Document :=
  match document.text with
  | some text =>
      if text ≠ "" ∧ pipeline.settings.piiRedactionEnabled then
        { document with text := some (redactPii text) }
      else document
  | none => document

/-- One malformed document must not abort a whole reindex. -/
def parse : List Document → Except Exn (List Document)
  | [] => .ok []
  | doc :: docs =>
      match parseDocument pipeline.readPdf doc with
      | .error exn => if exn.cls = .key ∨ exn.cls = .value then parse docs else .error exn
      | .ok parsed => do
          let later ← parse docs
          pure (pipeline.redact parsed :: later)

/-- The documents of the source that parse. -/
def parsedDocuments : Except Exn (List Document) := do
  let docs ← ingest request
  pipeline.parse docs

variable [Field K] [LinearOrder K] [Math K] (shortId : List String → String)

/-- What a document is cut into. -/
def cut (document : Document) : Except Exn (List Chunk) :=
  chunkDocument shortId pipeline.sentenceEmbedder document (pipeline.version request)
    pipeline.chunking

/-- Build one index version end to end, then publish it via the alias. -/
def run : Build K (List Chunk) := do
  let version := pipeline.version request
  let _ ← ExceptT.mk (BuildOp.ask (K := K) (.record (pipeline.registryEntry version "building")))
  let docs ← (pipeline.parsedDocuments request : Except Exn (List Document))
  let pieces ← (docs.mapM (pipeline.cut request shortId) : Except Exn (List (List Chunk)))
  let allChunks ← pipeline.indexChunks pieces.flatten
  let _ ← ExceptT.mk (BuildOp.ask (K := K) (.record (pipeline.builtEntry version allChunks)))
  pipeline.publish request version allChunks
  pure allChunks

end OfflinePipeline

end Rag
