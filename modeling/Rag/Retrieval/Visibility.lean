import Rag.Lexical.Bm25Memory
import Rag.Retrieval.Hybrid
import Mathlib.Analysis.SpecialFunctions.Log.Basic
import Mathlib.Analysis.Real.Sqrt
import Mathlib.Tactic.NormNum

/-!
What hybrid retrieval over the in-memory backends depends on.

The dense leg depends on the chunks the caller may see and on nothing else. BM25 also
reads the size of the whole corpus, its average length and its document frequencies, so
the fused result is a function of the visible chunks and of these.
-/

namespace Rag

open Py

section Congr

variable {m : Type → Type} [Monad m]

theorem forEach_congr {α β : Type} {f g : α → m β} {xs : List α} (h : ∀ x ∈ xs, f x = g x) :
    forEach f xs = forEach g xs := by
  induction xs with
  | nil => rfl
  | cons x xs ih =>
      have hhead := h x List.mem_cons_self
      have htail := ih fun y hy => h y (List.mem_cons_of_mem _ hy)
      rw [forEach, forEach, hhead, htail]

variable [MonadExceptOf Exn m] {V K : Type} [Field K] [LinearOrder K]

/-- Retrieval depends on its backends through the searches it makes. -/
theorem retrieveMulti_congr (r : HybridRetriever m V K)
    (search : V → ℤ → Principal → Option String → m (List (ScoredChunk K)))
    (lexicalSearch : String → ℤ → Principal → Option String → m (List (ScoredChunk K)))
    {queries : List String} {principal : Principal} {topK : ℤ} {indexVersion : Option String}
    (hdense : ∀ v, r.search v topK principal indexVersion = search v topK principal indexVersion)
    (hlexical : ∀ q ∈ queries, r.lexicalSearch q topK principal indexVersion
      = lexicalSearch q topK principal indexVersion) (denseQueries : List String) :
    retrieveMulti r queries principal topK indexVersion denseQueries
      = retrieveMulti { r with search := search, lexicalSearch := lexicalSearch } queries
        principal topK indexVersion denseQueries := by
  have hdenseHits : ∀ vectors, forEach (fun v => r.search v topK principal indexVersion) vectors
      = forEach (fun v => search v topK principal indexVersion) vectors := by
    intro vectors
    exact forEach_congr fun v _ => hdense v
  have hlexicalHits := forEach_congr hlexical
  simp only [retrieveMulti, hdenseHits, hlexicalHits]

end Congr

section Memory

variable [Runtime] {K : Type} [Field K] [LinearOrder K] [Math K]

/-- A hybrid retriever without its stores. -/
structure RetrieverConfig (K : Type) where
  embed : List String → Except Exn (List (List K))
  rrfK : ℤ := 60
  denseWeight : K
  lexicalWeight : K
  k1 : K
  b : K

/-- The retriever over the in-memory backends. -/
def memoryRetriever (cfg : RetrieverConfig K) (store : MemoryVectorStore K)
    (postings : Postings K) : HybridRetriever (Except Exn) (List K) K where
  embed := cfg.embed
  search vector topK principal indexVersion :=
    .ok (store.search vector topK principal indexVersion)
  lexicalSearch := BM25MemoryIndex.search ⟨cfg.k1, cfg.b, postings⟩
  rrfK := cfg.rrfK
  denseWeight := cfg.denseWeight
  lexicalWeight := cfg.lexicalWeight

/-- Both backends hold the same chunks of the version that the principal may see. -/
structure AgreeOnVisible (principal : Principal) (indexVersion : Option String)
    (store store' : MemoryVectorStore K) (postings postings' : Postings K) : Prop where
  dense : store.visibleItems principal indexVersion = store'.visibleItems principal indexVersion
  lexical : postings.visibleChunks principal indexVersion
    = postings'.visibleChunks principal indexVersion

/-- Chunk id, score and rank of every result. -/
def resultIds (results : Except Exn (List (ScoredChunk K))) :
    Except Exn (List (String × K × ℤ)) :=
  results.map fun rs => rs.map fun s => (s.chunk.chunkId, s.score, s.rank)

/-- Contents that agree on what the principal may see of the version are searched alike
by the dense leg, and give the same results where the corpus-wide statistics of the terms
asked for agree too. -/
theorem retrieveMulti_eq_of_visible (cfg : RetrieverConfig K) (principal : Principal)
    (indexVersion : Option String) (store store' : MemoryVectorStore K)
    (postings postings' : Postings K) (queries : List String) (topK : ℤ)
    (denseQueries : List String)
    (hagree : AgreeOnVisible principal indexVersion store store' postings postings') :
    (∀ vector, store.search vector topK principal indexVersion
      = store'.search vector topK principal indexVersion)
    ∧ (SameStatistics principal indexVersion queries postings postings' →
      resultIds (retrieveMulti (memoryRetriever cfg store postings) queries principal topK
          indexVersion denseQueries)
        = resultIds (retrieveMulti (memoryRetriever cfg store' postings') queries principal topK
          indexVersion denseQueries)) := by
  have hdense := fun vector => MemoryVectorStore.search_congr hagree.dense vector topK
  refine ⟨hdense, ?_⟩
  intro hstats
  have hretrieve := retrieveMulti_congr (memoryRetriever cfg store postings)
    (memoryRetriever cfg store' postings').search
    (memoryRetriever cfg store' postings').lexicalSearch
    (fun vector => congrArg Except.ok (hdense vector))
    (fun query hquery => BM25MemoryIndex.search_congr hagree.lexical hstats hquery topK)
    denseQueries
  exact congrArg resultIds hretrieve

end Memory

section Hidden

noncomputable instance : Math ℝ := ⟨Real.sqrt, Real.log⟩

/-- A chunk whose text is one word. -/
def wordChunk (chunkId tenant text : String) : Chunk where
  chunkId := chunkId
  docId := "doc"
  ordinal := 0
  text := text
  span := (0, 1)
  acl := { tenant := tenant }
  indexVersion := "v1"

def reader : Principal := ⟨"u", ∅, "acme"⟩

/-- Two chunks of the reader's tenant and one of another. -/
def corpus (hidden : String) : List Chunk :=
  [wordChunk "a" "acme" "x", wordChunk "b" "acme" "y", wordChunk "h" "other" hidden]

noncomputable def corpusStore (hidden : String) : MemoryVectorStore ℝ where
  items := MemoryVectorStore.put .empty ((corpus hidden).map fun c => (c, []))

noncomputable def corpusPostings [Runtime] (hidden : String) : Postings ℝ :=
  Postings.empty.upsert (corpus hidden)

noncomputable def plainConfig : RetrieverConfig ℝ where
  embed texts := .ok (texts.map fun _ => [])
  denseWeight := 1
  lexicalWeight := 1
  k1 := defaultK1
  b := defaultB

theorem corpusStore_visible (hidden : String) :
    (corpusStore hidden).visibleItems reader (some "v1")
      = [(wordChunk "a" "acme" "x", []), (wordChunk "b" "acme" "y", [])] := by
  rfl

theorem corpusPostings_visible [Runtime] (hidden : String) :
    (corpusPostings hidden).visibleChunks reader (some "v1")
      = [("a", wordChunk "a" "acme" "x"), ("b", wordChunk "b" "acme" "y")] := by
  rfl

theorem rankHits_first {s t : ℝ} (h : t < s) (c d : Chunk) (retriever : Retriever) :
    rankHits retriever 1 [(s, c), (t, d)] = [⟨c, s, 1, retriever⟩] := by
  simp [rankHits, sortedDesc, takeInt, h.le]

theorem rankHits_second {s t : ℝ} (h : s < t) (c d : Chunk) (retriever : Retriever) :
    rankHits retriever 1 [(s, c), (t, d)] = [⟨d, t, 1, retriever⟩] := by
  simp [rankHits, sortedDesc, takeInt, not_le.mpr h]

theorem corpusStore_search (hidden : String) :
    (corpusStore hidden).search [] 1 reader (some "v1")
      = [⟨wordChunk "a" "acme" "x", 0, 1, .dense⟩] := by
  simp [MemoryVectorStore.search, corpusStore_visible, rankHits, sortedDesc, takeInt, cosine]

theorem idf_lt : (BM25MemoryIndex.idf 3 2 : ℝ) < BM25MemoryIndex.idf 3 1 := by
  have hlt : Real.log (8 / 5) < Real.log (8 / 3) := Real.log_lt_log (by norm_num) (by norm_num)
  simp only [BM25MemoryIndex.idf, Math.log]
  norm_num
  exact hlt

theorem idf_pos : (0 : ℝ) < BM25MemoryIndex.idf 3 2 := by
  have hpos : 0 < Real.log (8 / 5) := Real.log_pos (by norm_num)
  simp only [BM25MemoryIndex.idf, Math.log]
  norm_num
  exact hpos

section Scores

variable [Runtime] {hidden : String}

theorem corpusPostings_chunks (hidden : String) :
    (corpusPostings hidden).tables.chunks.items
      = [("a", wordChunk "a" "acme" "x"), ("b", wordChunk "b" "acme" "y"),
        ("h", wordChunk "h" "other" hidden)] := by
  rfl

/-- `text` is a single token. -/
abbrev OneWord (text : String) : Prop := tokenize text = [text]

variable (hx : OneWord "x") (hy : OneWord "y") (hh : OneWord hidden)
include hx hy hh

theorem corpusPostings_avgdl : (corpusPostings hidden).tables.avgdl = 1 := by
  have hlens : (corpusPostings hidden).tables.docLen.items = [("a", 1), ("b", 1), ("h", 1)] := by
    rw [(corpusPostings hidden).synced.docLen_eq, Dict.items_mapValues, corpusPostings_chunks]
    simp only [OneWord] at hx hy hh
    simp [docLength, wordChunk, hx, hy, hh]
  rw [(corpusPostings hidden).avgdl_eq]
  simp [Tables.meanLength, hlens, Dict.values]

theorem corpusPostings_docFreq (term : String) :
    (corpusPostings hidden).docFreq term = ["x", "y", hidden].count term := by
  simp only [OneWord] at hx hy hh
  rw [Postings.docFreq, (corpusPostings hidden).synced.df_eq, Dict.values, corpusPostings_chunks,
    ← Multiset.coe_count]
  simp only [List.map_cons, List.map_nil, List.sum_cons, List.sum_nil, termCounts, wordChunk, hx,
    hy, hh, Multiset.coe_singleton, Multiset.dedup_singleton, add_zero]
  rfl

theorem corpusPostings_bm25 {item : String × Chunk} {text : String}
    (hitem : item ∈ (corpusPostings hidden).tables.chunks.items) (htext : item.2.text = text)
    (hword : OneWord text) (hasked : text = "x" ∨ text = "y") :
    (⟨3 / 2, 3 / 4, corpusPostings hidden⟩ : BM25MemoryIndex ℝ).bm25 ["x", "y"] item.1 3
      = .ok (BM25MemoryIndex.idf 3 ((corpusPostings hidden).docFreq text)) := by
  have havgdl := corpusPostings_avgdl hx hy hh
  simp only [BM25MemoryIndex.bm25, Postings.tf_of_mem hitem, Postings.docLen_of_mem hitem,
    Option.getD_some]
  have htf : termCounts item.2 = {text} := by
    rw [termCounts, htext, hword]
    rfl
  have hlen : docLength item.2 = 1 := by
    rw [docLength, htext, hword]
    rfl
  rw [htf, hlen]
  rcases hasked with rfl | rfl
  · simp [BM25MemoryIndex.scoreTerms, BM25MemoryIndex.termScore, havgdl]
    norm_num
    rfl
  · simp [BM25MemoryIndex.scoreTerms, BM25MemoryIndex.termScore, havgdl]
    norm_num
    change Except.ok (0 + _) = _
    rw [zero_add]

/-- A search for both words ranks the two visible chunks by the rarity of their word. -/
theorem corpusPostings_search (hquery : tokenize "x y" = ["x", "y"]) {s t : ℝ}
    (hs : BM25MemoryIndex.idf 3 (["x", "y", hidden].count "x") = s)
    (ht : BM25MemoryIndex.idf 3 (["x", "y", hidden].count "y") = t) (hspos : 0 < s)
    (htpos : 0 < t) :
    (⟨3 / 2, 3 / 4, corpusPostings hidden⟩ : BM25MemoryIndex ℝ).search "x y" 1 reader (some "v1")
      = .ok (rankHits .lexical 1 [(s, wordChunk "a" "acme" "x"), (t, wordChunk "b" "acme" "y")]) := by
  have hsize : (corpusPostings hidden).size = 3 := rfl
  have hmema : ("a", wordChunk "a" "acme" "x") ∈ (corpusPostings hidden).tables.chunks.items := by
    simp [corpusPostings_chunks]
  have hmemb : ("b", wordChunk "b" "acme" "y") ∈ (corpusPostings hidden).tables.chunks.items := by
    simp [corpusPostings_chunks]
  have ha := corpusPostings_bm25 hx hy hh hmema (show _ = "x" from rfl) hx (Or.inl rfl)
  have hb := corpusPostings_bm25 hx hy hh hmemb (show _ = "y" from rfl) hy (Or.inr rfl)
  rw [corpusPostings_docFreq hx hy hh, hs] at ha
  rw [corpusPostings_docFreq hx hy hh, ht] at hb
  simp only [BM25MemoryIndex.search, hquery, hsize, corpusPostings_visible, List.mapM_cons,
    List.mapM_nil, ha, hb]
  simp [Bind.bind, Except.bind, pure, Except.pure, hspos, htpos]

end Scores

/-- Retrieval fuses the first dense hit with the one lexical hit. -/
theorem retrieve_hit [Runtime] {hidden : String} {hit : ScoredChunk ℝ}
    (hsearch : (⟨3 / 2, 3 / 4, corpusPostings hidden⟩ : BM25MemoryIndex ℝ).search "x y" 1 reader
      (some "v1") = .ok [hit]) :
    retrieveMulti (memoryRetriever plainConfig (corpusStore hidden) (corpusPostings hidden))
        ["x y"] reader 1 (some "v1") []
      = (reciprocalRankFusion [[⟨wordChunk "a" "acme" "x", 0, 1, .dense⟩], [hit]] 60
          (some [1, 1])).map (authoriseFused reader 1) := by
  have hembed : (memoryRetriever plainConfig (corpusStore hidden) (corpusPostings hidden)).embed
      ["x y"] = .ok [[]] := rfl
  have hdense : (memoryRetriever plainConfig (corpusStore hidden) (corpusPostings hidden)).search
      [] 1 reader (some "v1") = .ok [⟨wordChunk "a" "acme" "x", 0, 1, .dense⟩] :=
    congrArg Except.ok (corpusStore_search hidden)
  have hlexical : (memoryRetriever plainConfig (corpusStore hidden)
      (corpusPostings hidden)).lexicalSearch "x y" 1 reader (some "v1") = .ok [hit] := hsearch
  rw [retrieveMulti, if_neg (by simp)]
  simp only [if_true, List.length_cons, List.length_nil, ne_eq, not_true_eq_false, if_false,
    hembed, Bind.bind, Except.bind, forEach, hdense, hlexical, pure, Except.pure]
  split
  · rename_i exn hfused
    have hsame : reciprocalRankFusion [[⟨wordChunk "a" "acme" "x", 0, 1, .dense⟩], [hit]] 60
        (some [1, 1]) = .error exn := hfused
    rw [hsame]
    rfl
  · rename_i fused hfused
    have hsame : reciprocalRankFusion [[⟨wordChunk "a" "acme" "x", 0, 1, .dense⟩], [hit]] 60
        (some [1, 1]) = .ok fused := hfused
    rw [hsame]
    rfl

/-- Both legs agree on the first chunk. -/
theorem fuse_same (s : ℝ) :
    resultIds ((reciprocalRankFusion [[⟨wordChunk "a" "acme" "x", 0, 1, .dense⟩],
        [⟨wordChunk "a" "acme" "x", s, 1, .lexical⟩]] 60 (some [1, 1])).map
          (authoriseFused reader 1))
      = .ok [("a", 2 / 61, 1)] := by
  simp [reciprocalRankFusion, fuseLists, fuseItem, fuseEntry, Dict.empty, Dict.get?, Dict.set,
    Dict.values, Items.assign, wordChunk, Bind.bind, Except.bind, pure, Except.pure, Except.map,
    sortedDesc, enumerateFused, resultIds, authoriseFused, isAllowed, takeInt, reader]
  split_ifs <;> norm_num

/-- The legs disagree; the dense hit comes first. -/
theorem fuse_other (s : ℝ) :
    resultIds ((reciprocalRankFusion [[⟨wordChunk "a" "acme" "x", 0, 1, .dense⟩],
        [⟨wordChunk "b" "acme" "y", s, 1, .lexical⟩]] 60 (some [1, 1])).map
          (authoriseFused reader 1))
      = .ok [("a", 1 / 61, 1)] := by
  simp [reciprocalRankFusion, fuseLists, fuseItem, fuseEntry, Dict.empty, Dict.get?, Dict.set,
    Dict.values, Items.assign, wordChunk, Bind.bind, Except.bind, pure, Except.pure, Except.map,
    sortedDesc, enumerateFused, resultIds, authoriseFused, isAllowed, takeInt, reader]

theorem corpus_agree [Runtime] (hidden hidden' : String) :
    AgreeOnVisible reader (some "v1") (corpusStore hidden) (corpusStore hidden')
      (corpusPostings hidden) (corpusPostings hidden') where
  dense := (corpusStore_visible hidden).trans (corpusStore_visible hidden').symm
  lexical := (corpusPostings_visible hidden).trans (corpusPostings_visible hidden').symm

theorem retrieveMulti_eq_of_visible_corpus : let _ := Runtime.ascii
    (∀ vector, (corpusStore "z").search vector 1 reader (some "v1")
      = (corpusStore "w").search vector 1 reader (some "v1"))
    ∧ resultIds (retrieveMulti (memoryRetriever plainConfig (corpusStore "z") (corpusPostings "z"))
        ["x y"] reader 1 (some "v1") [])
      = resultIds (retrieveMulti (memoryRetriever plainConfig (corpusStore "w")
        (corpusPostings "w")) ["x y"] reader 1 (some "v1") []) := by
  intro _
  have hx : OneWord "x" := by decide +kernel
  have hy : OneWord "y" := by decide +kernel
  have hz : OneWord "z" := by decide +kernel
  have hw : OneWord "w" := by decide +kernel
  have hquery : tokenize "x y" = ["x", "y"] := by decide +kernel
  have hsame := retrieveMulti_eq_of_visible plainConfig reader (some "v1") (corpusStore "z")
    (corpusStore "w") (corpusPostings "z") (corpusPostings "w") ["x y"] 1 []
    (corpus_agree "z" "w")
  refine ⟨hsame.1, hsame.2 ⟨rfl, ?_, ?_⟩⟩
  · rw [corpusPostings_avgdl hx hy hz, corpusPostings_avgdl hx hy hw]
  · intro query hmem term hterm _ _ _
    rw [List.mem_singleton.mp hmem, hquery] at hterm
    rw [corpusPostings_docFreq hx hy hz, corpusPostings_docFreq hx hy hw]
    rcases List.mem_pair.mp hterm with rfl | rfl <;> rfl

/-- A hidden chunk decides which of two visible chunks the lexical leg prefers. -/
theorem hidden_chunk_changes_results : ¬ ∀ [Runtime] (cfg : RetrieverConfig ℝ)
    (principal : Principal) (indexVersion : Option String) (store store' : MemoryVectorStore ℝ)
    (postings postings' : Postings ℝ) (queries : List String) (topK : ℤ)
    (denseQueries : List String),
    AgreeOnVisible principal indexVersion store store' postings postings' →
      resultIds (retrieveMulti (memoryRetriever cfg store postings) queries principal topK
          indexVersion denseQueries)
        = resultIds (retrieveMulti (memoryRetriever cfg store' postings') queries principal topK
          indexVersion denseQueries) := by
  intro h
  let _ := Runtime.ascii
  have hx : OneWord "x" := by decide +kernel
  have hy : OneWord "y" := by decide +kernel
  have hquery : tokenize "x y" = ["x", "y"] := by decide +kernel
  have hsame := h plainConfig reader (some "v1") _ _ _ _ ["x y"] 1 [] (corpus_agree "x" "y")
  have hcommon := corpusPostings_search hx hy hx hquery (s := BM25MemoryIndex.idf 3 2)
    (t := BM25MemoryIndex.idf 3 1) rfl rfl idf_pos (idf_pos.trans idf_lt)
  have hrare := corpusPostings_search hx hy hy hquery (s := BM25MemoryIndex.idf 3 1)
    (t := BM25MemoryIndex.idf 3 2) rfl rfl (idf_pos.trans idf_lt) idf_pos
  rw [rankHits_second idf_lt] at hcommon
  rw [rankHits_first idf_lt] at hrare
  rw [retrieve_hit hcommon, retrieve_hit hrare, fuse_other, fuse_same] at hsame
  simp at hsame
  norm_num at hsame

end Hidden

end Rag
