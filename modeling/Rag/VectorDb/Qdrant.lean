import Rag.Retrieval.Filters
import Rag.Errors
import Rag.Lib.Dict

/-!
`rag.vectordb.qdrant`: payloads, the ACL filter and the aliases.

The filter is data in Qdrant's filter language; `QdrantFilter.accepts` is the meaning the
server gives it. The client is reduced to the alias table it keeps and the collections it
writes to.
-/

namespace Rag

open Py

/-- The filter conditions the adapter builds. -/
inductive QdrantCondition where
  | matchValue (key value : String)
  | matchAny (key : String) (any : List String)
  | isEmpty (key : String)

/-- A filter: everything in `must`, and `minCount` of the conditions in `minShould`. -/
structure QdrantFilter where
  must : List QdrantCondition
  minShould : List QdrantCondition
  minCount : Nat

/-- A JSON string equal to `s`. -/
def isText (s : String) : Json → Bool
  | .str t => t = s
  | _ => false

/-- The values a condition on a payload field ranges over: the elements of an array, and
nothing for a field that is missing or null. -/
def payloadValues (payload : List (String × Json)) (key : String) : List Json :=
  match Json.lookup payload key with
  | none => []
  | some .null => []
  | some (.arr items) => items
  | some value => [value]

def QdrantCondition.accepts (payload : List (String × Json)) : QdrantCondition → Bool
  | .matchValue key value => (payloadValues payload key).any (isText value)
  | .matchAny key any => (payloadValues payload key).any fun v => any.any fun s => isText s v
  | .isEmpty key => (payloadValues payload key).isEmpty

def QdrantFilter.accepts (filter : QdrantFilter) (payload : List (String × Json)) : Bool :=
  filter.must.all (QdrantCondition.accepts payload)
    && filter.minCount ≤ (filter.minShould.filter (QdrantCondition.accepts payload)).length

/-- `x or null` -/
def textOrNull : Option String → Json
  | some s => .str s
  | none => .null

def groupsJson (groups : Finset String) : Json := .arr ((sortedNames groups).map .str)

/-- `_to_payload` -/
def toPayload (chunk : Chunk) : List (String × Json) :=
  [("chunk_id", .str chunk.chunkId), ("doc_id", .str chunk.docId), ("ordinal", .int chunk.ordinal),
    ("text", .str chunk.text), ("span_start", .int chunk.span.1), ("span_end", .int chunk.span.2),
    ("tenant", .str chunk.acl.tenant), ("allow_groups", groupsJson chunk.acl.allowGroups),
    ("classification", .str chunk.acl.classification),
    ("index_version", .str chunk.indexVersion),
    ("embedding_model", textOrNull chunk.embeddingModel), ("metadata", .obj chunk.metadata)]

/-- `_acl_filter`: tenant match plus group overlap, evaluated inside Qdrant. -/
def qdrantAclFilter (acl : AclFilter) : QdrantFilter where
  must := .matchValue "tenant" acl.tenant ::
    match acl.versionAsked with
    | some version => [.matchValue "index_version" version]
    | none => []
  minShould := .isEmpty "allow_groups" ::
    if acl.groups = ∅ then [] else [.matchAny "allow_groups" (sortedNames acl.groups)]
  minCount := 1

structure QdrantPoint (K : Type) where
  vector : List K
  payload : List (String × Json)

/-- The cluster: points by id in each collection, and the collection of each alias. -/
structure QdrantServer (K : Type) where
  collections : Dict String (Dict String (QdrantPoint K)) := .empty
  aliases : Dict String String := .empty

/-- One process's client; `aliases` is what it falls back to when it cannot ask. -/
structure QdrantVectorStore where
  collection : String
  collectionPrefix : String
  aliases : Dict String String := .empty

/-- The part of a physical name before its version. -/
def physicalPrefix (collection : String) : String :=
  if contains collection "__" then (rsplit collection "__").headD collection else collection

namespace QdrantVectorStore

def init (collection : String) : QdrantVectorStore where
  collection := collection
  collectionPrefix := physicalPrefix collection

variable (store : QdrantVectorStore)

/-- Physical collection holding `indexVersion`. -/
def collectionFor (indexVersion : Option String) : String :=
  match indexVersion with
  | some version => if version = "" then store.collection
      else store.collectionPrefix ++ "__" ++ version
  | none => store.collection

section Server

variable {K : Type} (server : QdrantServer K)

/-- Create the collection if absent. -/
def ensureCollection : QdrantServer K :=
  match server.collections.get? store.collection with
  | some _ => server
  | none => { server with collections := server.collections.set store.collection .empty }

/-- Writes target the collection the store was built with. -/
def upsert (pointId : String → String) (chunks : List Chunk) (vectors : List (List K)) :
    Except Exn (QdrantServer K) :=
  if chunks.length ≠ vectors.length then
    .error (valueError "chunks and vectors length mismatch")
  else if chunks = [] then .ok server
  else
    let server := store.ensureCollection server
    let points := (server.collections.get? store.collection).getD .empty
    let written := (chunks.zip vectors).foldl (fun points pair =>
      points.set (pointId pair.1.chunkId) ⟨pair.2, toPayload pair.1⟩) points
    .ok { server with collections := server.collections.set store.collection written }

/-- Version currently published under `aliasName`; `records` are the cluster's aliases, or
nothing when it could not be asked. -/
def resolveAlias (records : Option (Dict String String)) (aliasName : String) : Option String :=
  match records.bind fun aliases => aliases.get? aliasName with
  | some collectionName => (rsplit collectionName "__").getLast?
  | none => store.aliases.get? aliasName

/-- Publish `indexVersion` under `aliasName`: delete and create in one batch. -/
def setAlias (aliasName indexVersion : String) : QdrantVectorStore × QdrantServer K :=
  let target := store.collectionFor (some indexVersion)
  ({ store with aliases := store.aliases.set aliasName indexVersion },
    { server with aliases := (server.aliases.erase aliasName).set aliasName target })

end Server

end QdrantVectorStore

end Rag
