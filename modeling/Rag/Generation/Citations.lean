import Rag.Schemas
import Rag.Lib.Dict

/-!
`rag.generation.citations`: citation markers and how they resolve.

Both resolvers look a marker up by its exact name and otherwise take the first known
reference that extends it or that it extends past twelve characters. What every resolved
citation comes from is `mem_resolveCitations` and `mem_resolveSourceCitations`.
-/

namespace Rag

open Py

/-- ASCII letters and digits, underscore, dot, colon, hyphen and slash. -/
def isMarkerChar (c : Char) : Bool :=
  (48 ≤ c.toNat && c.toNat ≤ 57) || (65 ≤ c.toNat && c.toNat ≤ 90)
    || (97 ≤ c.toNat && c.toNat ≤ 122) || "_.:-/".toList.contains c

/-- The tokens of the citation markers of a text, from left to right.

A match is an opening bracket and a maximal run of 4 to 128 marker characters up to a
closing bracket. No match can start inside another one, since a bracket is no marker
character, so the scan need not skip what it matched. -/
def citationTokens : List Char → List String
  | [] => []
  | c :: rest =>
      let run := rest.takeWhile isMarkerChar
      if c = '[' ∧ 4 ≤ run.length ∧ run.length ≤ 128 ∧ (rest.drop run.length).head? = some ']'
      then String.ofList run :: citationTokens rest
      else citationTokens rest

section Resolve

variable {α : Type}

/-- The known reference a token stands for. -/
def findHit (byRef : Dict String α) (token : String) : Option α :=
  match byRef.get? token with
  | some hit => some hit
  | none =>
      (byRef.items.find? fun item =>
        startsWith item.1 token || startsWith token (slice 12 item.1)).map Prod.snd

/-- Resolve tokens in order, each known reference at most once. -/
def resolveHits (refOf : α → String) (byRef : Dict String α) :
    List String → List String → List α
  | [], _ => []
  | token :: rest, seen =>
      match findHit byRef token with
      | none => resolveHits refOf byRef rest seen
      | some hit =>
          if refOf hit ∈ seen then resolveHits refOf byRef rest seen
          else hit :: resolveHits refOf byRef rest (refOf hit :: seen)

theorem findHit_mem {byRef : Dict String α} {token : String} {hit : α}
    (h : findHit byRef token = some hit) : hit ∈ byRef.values := by
  unfold findHit at h
  split at h
  · rename_i found hget
    cases h
    exact Dict.mem_values_of_get? hget
  · obtain ⟨item, hitem, rfl⟩ := Option.map_eq_some_iff.mp h
    exact List.mem_map.mpr ⟨item, List.mem_of_find?_eq_some hitem, rfl⟩

theorem resolveHits_subset (refOf : α → String) (byRef : Dict String α)
    (tokens seen : List String) : resolveHits refOf byRef tokens seen ⊆ byRef.values := by
  induction tokens generalizing seen with
  | nil => simp [resolveHits]
  | cons token rest ih =>
      rw [resolveHits]
      split
      · exact ih seen
      · rename_i hit hfound
        split_ifs
        · exact ih seen
        · exact List.cons_subset.mpr ⟨findHit_mem hfound, ih _⟩

end Resolve

def citationFromScored (scored : ScoredChunk ℚ) : Citation where
  chunkId := scored.chunk.chunkId
  docId := scored.chunk.docId
  quote := slice 200 scored.chunk.text
  score := .finite scored.score
  kind := .chunk
  ref := scored.chunk.chunkId

def citationFromSource (source : Source) : Citation where
  chunkId := if source.kind = .chunk then source.ref else ""
  docId := source.docId
  quote := slice 200 source.quote
  score := source.score
  kind := source.kind
  ref := source.ref
  url := source.url
  title := source.title

def sourceFromScored [Runtime] (scored : ScoredChunk ℚ) : Source where
  kind := .chunk
  ref := scored.chunk.chunkId
  docId := scored.chunk.docId
  title := match Json.lookup scored.chunk.metadata "title" with
    | some v => v.toStr
    | none => scored.chunk.docId
  quote := slice 500 scored.chunk.text
  score := .finite scored.score
  acl := some scored.chunk.acl
  metadata := [("retriever", .str scored.retriever.value), ("rank", .int scored.rank)]

/-- Resolve markers against retrieved chunks; without any, cite the top chunk. -/
def resolveCitations (answerText : String) (scored : List (ScoredChunk ℚ)) : List Citation :=
  let byId := Dict.index (fun s : ScoredChunk ℚ => s.chunk.chunkId) scored
  let hits := resolveHits (fun s => s.chunk.chunkId) byId (citationTokens answerText.toList) []
  match hits, scored with
  | [], top :: _ => [citationFromScored top]
  | hits, _ => hits.map citationFromScored

/-- Resolve markers against a source list; without any, invent nothing unless
`requireExplicit` is off. -/
def resolveSourceCitations (answerText : String) (sources : List Source)
    (requireExplicit : Bool) : List Citation :=
  let byRef := Dict.index Source.ref sources
  let hits := resolveHits Source.ref byRef (citationTokens answerText.toList) []
  match hits, requireExplicit, sources with
  | [], false, top :: _ => [citationFromSource top]
  | hits, _, _ => hits.map citationFromSource

theorem mem_resolveCitations {answerText : String} {scored : List (ScoredChunk ℚ)}
    {c : Citation} (h : c ∈ resolveCitations answerText scored) :
    ∃ s ∈ scored, c = citationFromScored s := by
  unfold resolveCitations at h
  dsimp only at h
  split at h
  · rename_i top rest _
    exact ⟨top, List.mem_cons_self, List.mem_singleton.mp h⟩
  · obtain ⟨s, hs, rfl⟩ := List.mem_map.mp h
    exact ⟨s, Dict.mem_values_index (resolveHits_subset _ _ _ _ hs), rfl⟩

theorem mem_resolveSourceCitations {answerText : String} {sources : List Source}
    {requireExplicit : Bool} {c : Citation}
    (h : c ∈ resolveSourceCitations answerText sources requireExplicit) :
    ∃ s ∈ sources, c = citationFromSource s := by
  unfold resolveSourceCitations at h
  dsimp only at h
  split at h
  · rename_i top rest _
    exact ⟨top, List.mem_cons_self, List.mem_singleton.mp h⟩
  · obtain ⟨s, hs, rfl⟩ := List.mem_map.mp h
    exact ⟨s, Dict.mem_values_index (resolveHits_subset _ _ _ _ hs), rfl⟩

end Rag
