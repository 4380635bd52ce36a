import Rag.Pipelines.Online
import Rag.Retrieval.Contract

/-!
`rag.rerank`: the identity reranker and the cross encoder.

A scoring model is a third-party library. `predict` stands for it: a score for every pair of a
query and a text.
-/

namespace Rag

open Py

/-- `[ScoredChunk(..., rank=rank, retriever="rerank") for rank, ... in enumerate(..., start=1)]` -/
def rerankedAs (results : List (Chunk × ℚ)) : List (ScoredChunk ℚ) :=
  results.mapIdx fun i r => ⟨r.1, r.2, (i : ℤ) + 1, .rerank⟩

/-- Pass-through reranker: preserves order, updates the retriever label. -/
def identityRerank (candidates : List (ScoredChunk ℚ)) (topK : ℤ) : List (ScoredChunk ℚ) :=
  rerankedAs ((takeInt topK candidates).map fun item => (item.chunk, item.score))

/-- The pairs the model scores. -/
def rerankPairs (query : String) (candidates : List (ScoredChunk ℚ)) : List (String × String) :=
  candidates.map fun c => (query, c.chunk.text)

/-- Rerank by the scores of the model. -/
def crossEncoderRerank (predict : List (String × String) → List ℚ) (query : String)
    (candidates : List (ScoredChunk ℚ)) (topK : ℤ) : Except Exn (List (ScoredChunk ℚ)) :=
  if candidates = [] then .ok []
  else
    let scores := predict (rerankPairs query candidates)
    if scores.length < candidates.length then
      .error (valueError "zip() argument 2 is shorter than argument 1")
    else if candidates.length < scores.length then
      .error (valueError "zip() argument 2 is longer than argument 1")
    else
      let ordered := sortedDesc Prod.snd (candidates.zip scores)
      .ok (rerankedAs ((takeInt topK ordered).map fun pair => (pair.1.chunk, pair.2)))

/-- The reranker the settings name. -/
def rerankBy (predict : List (String × String) → List ℚ) (reranker : RerankerName)
    (query : String) (candidates : List (ScoredChunk ℚ)) (topK : ℤ) :
    Except Exn (List (ScoredChunk ℚ)) :=
  match reranker with
  | .identity => .ok (identityRerank candidates topK)
  | .crossEncoder => crossEncoderRerank predict query candidates topK

theorem takeInt_sublist {α : Type} (n : ℤ) (xs : List α) : (takeInt n xs).Sublist xs := by
  unfold takeInt
  split_ifs
  · exact List.take_sublist _ _
  · exact List.take_sublist _ _

theorem mem_rerankedAs {results : List (Chunk × ℚ)} {s : ScoredChunk ℚ}
    (h : s ∈ rerankedAs results) : ∃ r ∈ results, s.chunk = r.1 := by
  obtain ⟨i, hi, rfl⟩ := List.mem_mapIdx.mp h
  exact ⟨results[i], List.getElem_mem hi, rfl⟩

theorem rerankBy_chunks {predict : List (String × String) → List ℚ} {reranker : RerankerName}
    {query : String} {candidates out : List (ScoredChunk ℚ)} {topK : ℤ}
    (h : rerankBy predict reranker query candidates topK = .ok out) :
    ∀ s ∈ out, ∃ c ∈ candidates, s.chunk = c.chunk := by
  intro s hs
  cases reranker with
  | identity =>
      cases h
      obtain ⟨r, hr, hchunk⟩ := mem_rerankedAs hs
      obtain ⟨c, hc, rfl⟩ := List.mem_map.mp hr
      exact ⟨c, (takeInt_sublist _ _).subset hc, hchunk⟩
  | crossEncoder =>
      rw [rerankBy, crossEncoderRerank] at h
      split_ifs at h
      · cases h
        cases hs
      · dsimp only at h
        split_ifs at h
        cases h
        obtain ⟨r, hr, hchunk⟩ := mem_rerankedAs hs
        obtain ⟨pair, hpair, rfl⟩ := List.mem_map.mp hr
        exact ⟨pair.1, (List.of_mem_zip (mem_sortedDesc.mp ((takeInt_sublist _ _).subset hpair))).1, hchunk⟩

/-- The answer of the configured reranker to the pipeline. -/
def rerankedBy (predict : List (String × String) → List ℚ) (reranker : RerankerName)
    (query : String) (candidates : List (ScoredChunk ℚ)) (topK : ℤ) :
    Except Exn (Reranked candidates) :=
  match h : rerankBy predict reranker query candidates topK with
  | .ok out => .ok ⟨out, rerankBy_chunks h⟩
  | .error exn => .error exn

theorem rerankedBy_val (predict : List (String × String) → List ℚ) (reranker : RerankerName)
    (query : String) (candidates : List (ScoredChunk ℚ)) (topK : ℤ) :
    (rerankedBy predict reranker query candidates topK).map Subtype.val
      = rerankBy predict reranker query candidates topK := by
  unfold rerankedBy
  split
  · rename_i out hout
    exact hout.symm
  · rename_i exn hexn
    exact hexn.symm

theorem rerankedAs_head (results : List (Chunk × ℚ)) :
    (rerankedAs results).head?.map ScoredChunk.score = results.head?.map Prod.snd := by
  cases results <;> simp [rerankedAs]

theorem takeInt_head {α : Type} {n : ℤ} (hn : 1 ≤ n) (xs : List α) :
    (takeInt n xs).head? = xs.head? := by
  rw [takeInt, if_pos (by omega), List.head?_take, if_neg (by omega)]

theorem identityRerank_head {topK : ℤ} (htop : 1 ≤ topK) (candidates : List (ScoredChunk ℚ)) :
    (identityRerank candidates topK).head?.map ScoredChunk.score
      = candidates.head?.map ScoredChunk.score := by
  rw [identityRerank, rerankedAs_head, List.head?_map, takeInt_head htop, Option.map_map]
  rfl

/-- The head of a descending list is below a bound when all of it is. -/
theorem head_lt_iff {α : Type} {score : α → ℚ} {xs : List α} {x : α} {bound : ℚ}
    (hsorted : xs.Pairwise fun a b => score b ≤ score a) (hhead : xs.head? = some x) :
    score x < bound ↔ ∀ y ∈ xs, score y < bound := by
  obtain ⟨rest, rfl⟩ := List.head?_eq_some_iff.mp hhead
  constructor
  · intro hlt y hy
    rcases List.mem_cons.mp hy with rfl | hy
    · exact hlt
    · exact ((List.pairwise_cons.mp hsorted).1 y hy).trans_lt hlt
  · intro h
    exact h x List.mem_cons_self

/-- The cross encoder returns a context that begins with the best score of the model. -/
theorem crossEncoderRerank_head {predict : List (String × String) → List ℚ} {query : String}
    {candidates : List (ScoredChunk ℚ)} {topK : ℤ} (htop : 1 ≤ topK) (hne : candidates ≠ [])
    (hlength : (predict (rerankPairs query candidates)).length = candidates.length) :
    ∃ out top, crossEncoderRerank predict query candidates topK = .ok out ∧ out.head? = some top
      ∧ ∀ bound, top.score < bound ↔ ∀ s ∈ predict (rerankPairs query candidates), s < bound := by
  let ordered := sortedDesc Prod.snd (candidates.zip (predict (rerankPairs query candidates)))
  have hscores : ∀ bound : ℚ, (∀ pair ∈ ordered, pair.2 < bound)
      ↔ ∀ s ∈ predict (rerankPairs query candidates), s < bound := by
    intro bound
    have hmap : (candidates.zip (predict (rerankPairs query candidates))).map Prod.snd
        = predict (rerankPairs query candidates) := List.map_snd_zip hlength.le
    constructor
    · intro h s hs
      rw [← hmap] at hs
      obtain ⟨pair, hpair, rfl⟩ := List.mem_map.mp hs
      exact h pair (mem_sortedDesc.mpr hpair)
    · intro h pair hpair
      exact h pair.2 (List.of_mem_zip (mem_sortedDesc.mp hpair)).2
  have hordered : ordered ≠ [] := by
    intro hnil
    have hlen := (sortedDesc_perm Prod.snd
      (candidates.zip (predict (rerankPairs query candidates)))).length_eq
    have hpos := List.length_pos_iff.mpr hne
    rw [List.length_zip, hlength] at hlen
    change ordered.length = _ at hlen
    rw [hnil, List.length_nil] at hlen
    omega
  obtain ⟨best, rest, hbest⟩ := List.exists_cons_of_ne_nil hordered
  have hhead : (rerankedAs ((takeInt topK ordered).map fun pair => (pair.1.chunk, pair.2))).head?.map
      ScoredChunk.score = some best.2 := by
    rw [rerankedAs_head, List.head?_map, takeInt_head htop, hbest]
    rfl
  obtain ⟨top, htophead, hscore⟩ := Option.map_eq_some_iff.mp hhead
  refine ⟨_, top, ?_, htophead, ?_⟩
  · rw [crossEncoderRerank, if_neg hne]
    dsimp only
    rw [if_neg hlength.not_lt, if_neg hlength.not_gt]
  · intro bound
    rw [hscore, ← hscores]
    exact head_lt_iff (sortedDesc_pairwise Prod.snd _) (by rw [hbest]; rfl)

end Rag
