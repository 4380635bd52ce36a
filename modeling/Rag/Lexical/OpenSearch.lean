import Rag.Retrieval.Filters
import Rag.VectorDb.Qdrant

/-!
`rag.lexical.opensearch`: documents, the ACL filter and the physical indices.

A filter is a list of clauses of the query language, all of which have to hold;
`OpenSearchQuery.accepts` is the meaning of a clause on a document whose fields are
keywords.
-/

namespace Rag

open Py

/-- The query clauses the adapter builds. -/
inductive OpenSearchQuery where
  | term (field value : String)
  | terms (field : String) (values : List String)
  | fieldExists (field : String)
  | mustNot (clause : OpenSearchQuery)
  | should (clauses : List OpenSearchQuery) (minimumShouldMatch : Nat)

/-- The keywords indexed for a field: a missing field, a null and an empty array have
none. -/
def keywords (source : List (String × Json)) (field : String) : List Json :=
  match Json.lookup source field with
  | none => []
  | some .null => []
  | some (.arr items) => items
  | some value => [value]

mutual

def OpenSearchQuery.accepts (source : List (String × Json)) : OpenSearchQuery → Bool
  | .term field value => (keywords source field).any (isText value)
  | .terms field values => (keywords source field).any fun v => values.any fun s => isText s v
  | .fieldExists field => !(keywords source field).isEmpty
  | .mustNot clause => !clause.accepts source
  | .should clauses minimumShouldMatch => minimumShouldMatch ≤ countAccepting source clauses

/-- How many of the clauses hold. -/
def countAccepting (source : List (String × Json)) : List OpenSearchQuery → Nat
  | [] => 0
  | clause :: rest =>
      (if clause.accepts source then 1 else 0) + countAccepting source rest

end

/-- `_to_source`; the groups of a tenant-wide chunk are omitted. -/
def toSource (chunk : Chunk) : List (String × Json) :=
  [("chunk_id", .str chunk.chunkId), ("doc_id", .str chunk.docId), ("ordinal", .int chunk.ordinal),
    ("text", .str chunk.text), ("span_start", .int chunk.span.1), ("span_end", .int chunk.span.2),
    ("tenant", .str chunk.acl.tenant), ("classification", .str chunk.acl.classification),
    ("index_version", .str chunk.indexVersion),
    ("embedding_model", textOrNull chunk.embeddingModel), ("metadata", .obj chunk.metadata)]
    ++ if chunk.acl.allowGroups = ∅ then []
      else [("allow_groups", groupsJson chunk.acl.allowGroups)]

/-- `_acl_filter` -/
def openSearchAclFilter (acl : AclFilter) : List OpenSearchQuery :=
  [.term "tenant" acl.tenant]
    ++ (match acl.versionAsked with
      | some version => [.term "index_version" version]
      | none => [])
    ++ [.should (.mustNot (.fieldExists "allow_groups") ::
        if acl.groups = ∅ then [] else [.terms "allow_groups" (sortedNames acl.groups)]) 1]

/-- `bool.filter`: every clause holds. -/
def filterAccepts (filters : List OpenSearchQuery) (source : List (String × Json)) : Bool :=
  filters.all (OpenSearchQuery.accepts source)

structure OpenSearchLexicalIndex where
  index : String
  indexPrefix : String

namespace OpenSearchLexicalIndex

def init (index : String) : OpenSearchLexicalIndex where
  index := index
  indexPrefix := physicalPrefix index

/-- Physical index holding `indexVersion`. -/
def indexFor (lexical : OpenSearchLexicalIndex) (indexVersion : Option String) : String :=
  match indexVersion with
  | some version => if version = "" then lexical.index else lexical.indexPrefix ++ "__" ++ version
  | none => lexical.index

end OpenSearchLexicalIndex

end Rag
