import Rag.Security.Acl
import Rag.Errors
import Rag.Lib.Dict
import Rag.Lib.Text
import Mathlib.Algebra.Order.Field.Basic
import Mathlib.Algebra.Order.Ring.Rat
import Mathlib.Algebra.BigOperators.Group.List.Basic

/-!
`rag.vectordb.memory`: the in-process vector store with its aliases.

A search scans the items in insertion order and skips what is not of the version asked
for or not allowed, so it is a function of the items that are left (`search_congr`).
Scores live in an ordered field with a square root and a logarithm; the cosine itself asks for no
more than its operations, so that it is also that of floats.
-/

namespace Py

/-- `math.sqrt` and `math.log`. -/
class Math (K : Type) where
  sqrt : K → K
  log : K → K

end Py

namespace Rag

open Py

/-- Enough of `Math` for vectors of length one. -/
@[reducible] def unitMath : Math ℚ := ⟨id, id⟩

/-- `index_version and chunk.index_version != index_version` skips a chunk. -/
def inVersion (indexVersion : Option String) (chunk : Chunk) : Bool :=
  match indexVersion with
  | none => true
  | some version => version = "" || chunk.indexVersion = version

/-- What a scan does not skip. -/
def visible (principal : Principal) (indexVersion : Option String) (chunk : Chunk) : Bool :=
  inVersion indexVersion chunk && isAllowed principal chunk.acl

section Rank

variable {K : Type} [LinearOrder K]

/-- `scored.sort(reverse=True)`, cut to `top_k` and numbered from one. -/
def rankHits (retriever : Retriever) (topK : ℤ) (scored : List (K × Chunk)) :
    List (ScoredChunk K) :=
  (takeInt topK (sortedDesc Prod.fst scored)).mapIdx fun i e =>
    ⟨e.2, e.1, (i : ℤ) + 1, retriever⟩

theorem mem_rankHits {retriever : Retriever} {topK : ℤ} {scored : List (K × Chunk)}
    {hit : ScoredChunk K} (h : hit ∈ rankHits retriever topK scored) :
    ∃ e ∈ scored, hit.chunk = e.2 := by
  rw [rankHits, List.mem_mapIdx] at h
  obtain ⟨i, hi, rfl⟩ := h
  have hmem := takeInt_subset _ _ (List.getElem_mem hi)
  exact ⟨_, mem_sortedDesc.mp hmem, rfl⟩

end Rank

/-- In-process cosine similarity store. -/
structure MemoryVectorStore (K : Type) where
  items : Dict String (Chunk × List K) := .empty
  aliases : Dict String String := .empty

section Cosine

variable {K : Type} [Zero K] [One K] [Add K] [Mul K] [Div K] [DecidableEq K] [Math K]

/-- `math.sqrt(sum(x * x for x in a)) or 1.0`. The sum is added from the left; from Python 3.12 on
it carries its rounding errors along, which no result here depends on. -/
def norm (a : List K) : K :=
  let n := Math.sqrt ((a.map fun x => x * x).foldl (· + ·) 0)
  if n = 0 then 1 else n

def cosine (a b : List K) : K :=
  if a.length ≠ b.length then 0
  else (List.zipWith (· * ·) a b).foldl (· + ·) 0 / (norm a * norm b)

end Cosine

namespace MemoryVectorStore

variable {K : Type} (store : MemoryVectorStore K)

/-- `self._items[chunk.chunk_id] = (chunk, vector)` for every pair. -/
def put (items : Dict String (Chunk × List K)) (pairs : List (Chunk × List K)) :
    Dict String (Chunk × List K) :=
  pairs.foldl (fun items pair => items.set pair.1.chunkId pair) items

def upsert (chunks : List Chunk) (vectors : List (List K)) :
    Except Exn (MemoryVectorStore K) :=
  if chunks.length ≠ vectors.length then
    .error (valueError "chunks and vectors length mismatch")
  else .ok { store with items := put store.items (chunks.zip vectors) }

def delete (chunkIds : List String) : MemoryVectorStore K :=
  { store with items := chunkIds.foldl Dict.erase store.items }

def count (indexVersion : Option String) : Nat :=
  store.items.values.countP fun item => inVersion indexVersion item.1

def resolveAlias (aliasName : String) : Option String := store.aliases.get? aliasName

def setAlias (aliasName indexVersion : String) : MemoryVectorStore K :=
  { store with aliases := store.aliases.set aliasName indexVersion }

/-- The items a scan does not skip, in insertion order. -/
def visibleItems (principal : Principal) (indexVersion : Option String) :
    List (Chunk × List K) :=
  store.items.values.filter fun item => visible principal indexVersion item.1

variable [Field K] [LinearOrder K] [Math K]

def search (vector : List K) (topK : ℤ) (principal : Principal) (indexVersion : Option String) :
    List (ScoredChunk K) :=
  let scored := (store.visibleItems principal indexVersion).map fun item =>
    (cosine vector item.2, item.1)
  rankHits .dense topK scored

variable {store}

omit [Field K] [LinearOrder K] [Math K] in
theorem chunks_upsert {written : MemoryVectorStore K} {chunks : List Chunk}
    {vectors : List (List K)} (h : store.upsert chunks vectors = .ok written) :
    written.items.mapValues Prod.fst
      = (store.items.mapValues Prod.fst).setAll Chunk.chunkId chunks := by
  rw [upsert] at h
  split_ifs at h with hlength
  cases h
  have hzip : (chunks.zip vectors).map Prod.fst = chunks := by
    rw [List.map_fst_zip]
    push Not at hlength
    omega
  have hput := Dict.setAll_mapValues Prod.fst (fun pair : Chunk × List K => pair.1.chunkId)
    Chunk.chunkId (fun _ => rfl) store.items (chunks.zip vectors)
  rw [hzip] at hput
  exact hput

/-- The scan filters before it scores. -/
theorem search_congr {store' : MemoryVectorStore K} {principal : Principal}
    {indexVersion : Option String}
    (h : store.visibleItems principal indexVersion = store'.visibleItems principal indexVersion)
    (vector : List K) (topK : ℤ) :
    store.search vector topK principal indexVersion
      = store'.search vector topK principal indexVersion := by
  rw [search, search, h]

theorem mem_search {vector : List K} {topK : ℤ} {principal : Principal}
    {indexVersion : Option String} {hit : ScoredChunk K}
    (h : hit ∈ store.search vector topK principal indexVersion) :
    (∃ item ∈ store.items.values, hit.chunk = item.1) ∧
      visible principal indexVersion hit.chunk = true := by
  obtain ⟨e, he, hchunk⟩ := mem_rankHits h
  obtain ⟨item, hitem, rfl⟩ := List.mem_map.mp he
  obtain ⟨hin, hvisible⟩ := List.mem_filter.mp hitem
  rw [hchunk]
  exact ⟨⟨item, hin, rfl⟩, hvisible⟩

end MemoryVectorStore

end Rag
