import Rag.VectorDb.Memory
import Rag.Lib.Json
import Mathlib.Data.Multiset.Dedup
import Mathlib.Algebra.Order.Sub.Basic
import Mathlib.Data.Multiset.AddSub
import Mathlib.Algebra.BigOperators.Group.Multiset.Basic

/-!
`rag.lexical.bm25_memory`: the in-process BM25 index.

A `Counter` is a multiset of terms. The index carries the proof that its statistics are
those of the chunks it holds; what a search reads of the whole corpus is then the number
of chunks, their average length and the document frequencies (`search_congr`).
-/

namespace Rag

open Py

/-- `[a-z0-9]`, ignoring case: four letters outside ASCII fold into the range. -/
def isTokenChar (c : Char) : Bool :=
  let n := c.toNat
  (48 ≤ n && n ≤ 57) || (65 ≤ n && n ≤ 90) || (97 ≤ n && n ≤ 122) || n == 0x130 || n == 0x131 ||
    n == 0x17f || n == 0x212a

section Index

variable [Runtime]

def tokenize (text : String) : List String :=
  ((text.toList.splitOnP fun c => !isTokenChar c).filter (· ≠ [])).map
    (Runtime.lower ∘ String.ofList)

/-- `Counter(tokenize(chunk.text))` -/
def termCounts (chunk : Chunk) : Multiset String := (tokenize chunk.text : List String)

/-- `len(tokenize(chunk.text))` -/
def docLength (chunk : Chunk) : Nat := (tokenize chunk.text).length

/-- The tables of the index. -/
structure Tables (K : Type) where
  chunks : Dict String Chunk := .empty
  tf : Dict String (Multiset String) := .empty
  df : Multiset String := 0
  docLen : Dict String Nat := .empty
  avgdl : K

variable {K : Type}

namespace Tables

/-- `_remove_stats`: every term of the chunk loses one document. -/
def removeStats (t : Tables K) (chunkId : String) : Tables K :=
  { t with df := t.df - ((t.tf.get? chunkId).getD 0).dedup }

/-- The loop body of `upsert`. -/
def put (t : Tables K) (chunk : Chunk) : Tables K :=
  let t := if (t.chunks.get? chunk.chunkId).isSome then t.removeStats chunk.chunkId else t
  { t with
    chunks := t.chunks.set chunk.chunkId chunk
    tf := t.tf.set chunk.chunkId (termCounts chunk)
    docLen := t.docLen.set chunk.chunkId (docLength chunk)
    df := t.df + (termCounts chunk).dedup }

/-- The loop body of `delete`. -/
def drop (t : Tables K) (chunkId : String) : Tables K :=
  if (t.chunks.get? chunkId).isSome then
    let t := t.removeStats chunkId
    { t with
      chunks := t.chunks.erase chunkId
      tf := t.tf.erase chunkId
      docLen := t.docLen.erase chunkId }
  else t

variable [Field K]

/-- `sum(doc_len.values()) / len(doc_len)`, zero for an empty index. -/
def meanLength (docLen : Dict String Nat) : K :=
  if docLen.items = [] then 0 else (docLen.values.sum : K) / (docLen.items.length : K)

def recomputeAvgdl (t : Tables K) : Tables K := { t with avgdl := meanLength t.docLen }

end Tables

/-- Terms and lengths are those of the chunks, and a term's document frequency counts
the chunks it occurs in. -/
structure Tables.Synced (t : Tables K) : Prop where
  tf_eq : t.tf = t.chunks.mapValues termCounts
  docLen_eq : t.docLen = t.chunks.mapValues docLength
  df_eq : t.df = (t.chunks.values.map fun c => (termCounts c).dedup).sum

/-- What the index holds, with statistics that are those of its chunks. -/
structure Postings (K : Type) [Field K] where
  tables : Tables K
  synced : tables.Synced
  avgdl_eq : tables.avgdl = Tables.meanLength tables.docLen

def defaultK1 {K : Type} [Field K] : K := 3 / 2

def defaultB {K : Type} [Field K] : K := 3 / 4

/-- In-memory BM25 index. -/
structure BM25MemoryIndex (K : Type) [Field K] where
  k1 : K := defaultK1
  b : K := defaultB
  postings : Postings K

namespace Tables

variable {t : Tables K}

/-- The document frequencies without one chunk. -/
theorem Synced.df_of_get? (h : t.Synced) {chunkId : String} {chunk : Chunk}
    (hget : t.chunks.get? chunkId = some chunk) :
    (t.removeStats chunkId).df
      = ((t.chunks.erase chunkId).values.map fun c => (termCounts c).dedup).sum := by
  have hperm := (Dict.values_perm_of_get? hget).map fun c => (termCounts c).dedup
  have htf : t.tf.get? chunkId = some (termCounts chunk) := by
    rw [h.tf_eq, Dict.get?_mapValues, hget]
    rfl
  rw [removeStats, htf, Option.getD_some, h.df_eq, hperm.sum_eq, List.map_cons, List.sum_cons]
  exact add_tsub_cancel_left _ _

theorem Synced.put (h : t.Synced) (chunk : Chunk) : (t.put chunk).Synced := by
  have hperm := (Dict.values_set_perm t.chunks chunk.chunkId chunk).map fun c =>
    (termCounts c).dedup
  refine ⟨?_, ?_, ?_⟩
  · have htf : (t.put chunk).tf = t.tf.set chunk.chunkId (termCounts chunk) := by
      unfold Tables.put
      split_ifs <;> rfl
    have hchunks : (t.put chunk).chunks = t.chunks.set chunk.chunkId chunk := by
      unfold Tables.put
      split_ifs <;> rfl
    rw [htf, hchunks, Dict.set_mapValues, h.tf_eq]
  · have hlen : (t.put chunk).docLen = t.docLen.set chunk.chunkId (docLength chunk) := by
      unfold Tables.put
      split_ifs <;> rfl
    have hchunks : (t.put chunk).chunks = t.chunks.set chunk.chunkId chunk := by
      unfold Tables.put
      split_ifs <;> rfl
    rw [hlen, hchunks, Dict.set_mapValues, h.docLen_eq]
  · cases hget : t.chunks.get? chunk.chunkId with
    | none =>
        rw [Dict.erase_of_get?_none hget, List.map_cons] at hperm
        have hsum := hperm.sum_eq
        rw [List.sum_cons, ← h.df_eq, add_comm] at hsum
        simpa [Tables.put, hget] using hsum.symm
    | some old =>
        have hsum := hperm.sum_eq
        rw [List.map_cons, List.sum_cons, ← h.df_of_get? hget, add_comm] at hsum
        simpa [Tables.put, hget, removeStats] using hsum.symm

theorem Synced.drop (h : t.Synced) (chunkId : String) : (t.drop chunkId).Synced := by
  unfold Tables.drop
  split_ifs with hmem
  · obtain ⟨chunk, hget⟩ := Option.isSome_iff_exists.mp hmem
    refine ⟨?_, ?_, h.df_of_get? hget⟩
    · change t.tf.erase chunkId = (t.chunks.erase chunkId).mapValues termCounts
      rw [Dict.erase_mapValues, h.tf_eq]
    · change t.docLen.erase chunkId = (t.chunks.erase chunkId).mapValues docLength
      rw [Dict.erase_mapValues, h.docLen_eq]
  · exact h

theorem Synced.foldl_put (h : t.Synced) (chunks : List Chunk) :
    (chunks.foldl Tables.put t).Synced := by
  induction chunks generalizing t with
  | nil => exact h
  | cons chunk rest ih => exact ih (h.put chunk)

theorem Synced.foldl_drop (h : t.Synced) (chunkIds : List String) :
    (chunkIds.foldl Tables.drop t).Synced := by
  induction chunkIds generalizing t with
  | nil => exact h
  | cons chunkId rest ih => exact ih (h.drop chunkId)

theorem chunks_foldl_put (t : Tables K) (chunks : List Chunk) :
    (chunks.foldl Tables.put t).chunks = t.chunks.setAll Chunk.chunkId chunks := by
  induction chunks generalizing t with
  | nil => rfl
  | cons chunk rest ih =>
      have hput : (t.put chunk).chunks = t.chunks.set chunk.chunkId chunk := by
        unfold Tables.put
        split_ifs <;> rfl
      rw [List.foldl_cons, ih, hput]
      rfl

theorem Synced.recomputeAvgdl [Field K] (h : t.Synced) : t.recomputeAvgdl.Synced :=
  ⟨h.tf_eq, h.docLen_eq, h.df_eq⟩

end Tables

namespace Postings

variable [Field K] (postings : Postings K)

def empty : Postings K where
  tables := { avgdl := 0 }
  synced := ⟨rfl, rfl, rfl⟩
  avgdl_eq := rfl

def upsert (chunks : List Chunk) : Postings K where
  tables := (chunks.foldl Tables.put postings.tables).recomputeAvgdl
  synced := (postings.synced.foldl_put chunks).recomputeAvgdl
  avgdl_eq := rfl

def delete (chunkIds : List String) : Postings K where
  tables := (chunkIds.foldl Tables.drop postings.tables).recomputeAvgdl
  synced := (postings.synced.foldl_drop chunkIds).recomputeAvgdl
  avgdl_eq := rfl

/-- `len(self._chunks)` -/
def size : Nat := postings.tables.chunks.items.length

/-- `self._df[term]` -/
def docFreq (term : String) : Nat := postings.tables.df.count term

/-- The chunks a scan does not skip, in insertion order. -/
def visibleChunks (principal : Principal) (indexVersion : Option String) :
    List (String × Chunk) :=
  postings.tables.chunks.items.filter fun item => visible principal indexVersion item.2

variable {postings}

theorem tf_of_mem {item : String × Chunk} (h : item ∈ postings.tables.chunks.items) :
    postings.tables.tf.get? item.1 = some (termCounts item.2) := by
  rw [postings.synced.tf_eq, Dict.get?_mapValues, Dict.get?_iff.mpr h]
  rfl

theorem docLen_of_mem {item : String × Chunk} (h : item ∈ postings.tables.chunks.items) :
    postings.tables.docLen.get? item.1 = some (docLength item.2) := by
  rw [postings.synced.docLen_eq, Dict.get?_mapValues, Dict.get?_iff.mpr h]
  rfl

end Postings

namespace BM25MemoryIndex

variable [Field K] [LinearOrder K] [Math K] (index : BM25MemoryIndex K)

/-- `math.log(1 + (n - df + 0.5) / (df + 0.5))` -/
def idf (n df : Nat) : K := Math.log (1 + ((n : K) - df + 1 / 2) / ((df : K) + 1 / 2))

/-- What `term` adds to the score of a chunk of length `dl` in which it occurs `freq`
times. -/
def termScore (n freq dl : Nat) (term : String) : Except Exn K :=
  let avgdl := index.postings.tables.avgdl
  let denom := freq + index.k1 * (1 - index.b + index.b * dl / if avgdl = 0 then 1 else avgdl)
  if denom = 0 then .error zeroDivisionError
  else .ok (idf n (index.postings.docFreq term) * (freq * (index.k1 + 1)) / denom)

/-- The score of a chunk with the terms `tf` and the length `dl`. -/
def scoreTerms (n dl : Nat) (tf : Multiset String) (qTokens : List String) : Except Exn K :=
  qTokens.foldlM (fun score term =>
    if term ∈ tf then do
      let added ← index.termScore n (tf.count term) dl term
      .ok (score + added)
    else .ok score) 0

/-- `_bm25`. The three tables have the same keys, so no lookup of a known chunk fails. -/
def bm25 (qTokens : List String) (chunkId : String) (n : Nat) : Except Exn K :=
  let dl := (index.postings.tables.docLen.get? chunkId).getD 0
  let tf := (index.postings.tables.tf.get? chunkId).getD 0
  index.scoreTerms n dl tf qTokens

def search (query : String) (topK : ℤ) (principal : Principal) (indexVersion : Option String) :
    Except Exn (List (ScoredChunk K)) :=
  let qTokens := tokenize query
  if qTokens = [] ∨ index.postings.size = 0 then .ok []
  else do
    let scored ← (index.postings.visibleChunks principal indexVersion).mapM fun item => do
      let score ← index.bm25 qTokens item.1 index.postings.size
      .ok (score, item.2)
    .ok (rankHits .lexical topK (scored.filter fun e => 0 < e.1))

end BM25MemoryIndex

section Congr

variable [Field K]

/-- The corpus-wide statistics a search over the visible chunks reads: how many chunks
there are, how long they are on average, and how many of them hold a term that is both
asked for and visible. -/
structure SameStatistics (principal : Principal) (indexVersion : Option String)
    (queries : List String) (a b : Postings K) : Prop where
  size_eq : a.size = b.size
  avgdl_eq : a.tables.avgdl = b.tables.avgdl
  docFreq_eq : ∀ query ∈ queries, ∀ term ∈ tokenize query,
    ∀ item ∈ a.visibleChunks principal indexVersion, term ∈ termCounts item.2 →
      a.docFreq term = b.docFreq term

omit [Runtime] in
theorem mapM_congr {α β : Type} {f g : α → Except Exn β} {xs : List α}
    (h : ∀ x ∈ xs, f x = g x) : xs.mapM f = xs.mapM g := by
  induction xs with
  | nil => rfl
  | cons x xs ih =>
      have hhead := h x List.mem_cons_self
      have htail := ih fun y hy => h y (List.mem_cons_of_mem _ hy)
      rw [List.mapM_cons, List.mapM_cons, hhead, htail]

variable [LinearOrder K] [Math K] {k1 b : K} {p p' : Postings K} {principal : Principal}
  {indexVersion : Option String}

open BM25MemoryIndex

omit [Runtime] [Field K] [LinearOrder K] [Math K] in
theorem foldlM_congr {step step' : K → String → Except Exn K} {terms : List String}
    (h : ∀ score, ∀ term ∈ terms, step score term = step' score term) (score : K) :
    terms.foldlM step score = terms.foldlM step' score := by
  induction terms generalizing score with
  | nil => rfl
  | cons term rest ih =>
      have hhead := h score term List.mem_cons_self
      rw [List.foldlM_cons, List.foldlM_cons, hhead]
      congr 1
      funext next
      exact ih (fun s t ht => h s t (List.mem_cons_of_mem _ ht)) next

/-- A visible chunk is scored from its own text and the statistics. -/
theorem bm25_congr (hsize : p.size = p'.size) (havgdl : p.tables.avgdl = p'.tables.avgdl)
    {qTokens : List String} {item : String × Chunk}
    (hdf : ∀ term ∈ qTokens, term ∈ termCounts item.2 → p.docFreq term = p'.docFreq term)
    (hp : item ∈ p.tables.chunks.items) (hp' : item ∈ p'.tables.chunks.items) :
    (⟨k1, b, p⟩ : BM25MemoryIndex K).bm25 qTokens item.1 p.size
      = (⟨k1, b, p'⟩ : BM25MemoryIndex K).bm25 qTokens item.1 p'.size := by
  simp only [bm25, Postings.tf_of_mem hp, Postings.tf_of_mem hp', Postings.docLen_of_mem hp,
    Postings.docLen_of_mem hp', Option.getD_some, scoreTerms]
  apply foldlM_congr
  intro score term hterm
  split_ifs with hmem
  · have hscore : (⟨k1, b, p⟩ : BM25MemoryIndex K).termScore p.size
        ((termCounts item.2).count term) (docLength item.2) term
        = (⟨k1, b, p'⟩ : BM25MemoryIndex K).termScore p'.size
        ((termCounts item.2).count term) (docLength item.2) term := by
      simp only [termScore, hsize, havgdl, hdf term hterm hmem]
    rw [hscore]
  · rfl

/-- Two contents with the same visible chunks and the same statistics are searched
alike. -/
theorem BM25MemoryIndex.search_congr
    (hvisible : p.visibleChunks principal indexVersion = p'.visibleChunks principal indexVersion)
    {queries : List String} (hstats : SameStatistics principal indexVersion queries p p')
    {query : String} (hquery : query ∈ queries) (topK : ℤ) :
    (⟨k1, b, p⟩ : BM25MemoryIndex K).search query topK principal indexVersion
      = (⟨k1, b, p'⟩ : BM25MemoryIndex K).search query topK principal indexVersion := by
  have hscores : ∀ item ∈ p.visibleChunks principal indexVersion,
      (⟨k1, b, p⟩ : BM25MemoryIndex K).bm25 (tokenize query) item.1 p.size
        = (⟨k1, b, p'⟩ : BM25MemoryIndex K).bm25 (tokenize query) item.1 p'.size := by
    intro item hitem
    have hp := List.mem_of_mem_filter hitem
    have hp' := List.mem_of_mem_filter (hvisible ▸ hitem)
    refine bm25_congr hstats.size_eq hstats.avgdl_eq ?_ hp hp'
    intro term hterm hmem
    exact hstats.docFreq_eq query hquery term hterm item hitem hmem
  simp only [search, ← hstats.size_eq, ← hvisible]
  split_ifs
  · rfl
  · have hscored := mapM_congr (f := fun item : String × Chunk => do
        let score ← (⟨k1, b, p⟩ : BM25MemoryIndex K).bm25 (tokenize query) item.1 p.size
        Except.ok (score, item.2))
      (g := fun item : String × Chunk => do
        let score ← (⟨k1, b, p'⟩ : BM25MemoryIndex K).bm25 (tokenize query) item.1 p'.size
        Except.ok (score, item.2)) fun item hitem => by rw [hscores item hitem]
    rw [hscored, hstats.size_eq]

end Congr

end Index

end Rag
