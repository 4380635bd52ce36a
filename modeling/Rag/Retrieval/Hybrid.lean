import Rag.Security.Acl
import Rag.Errors
import Rag.Lib.Dict
import Mathlib.Algebra.Order.Field.Basic

/-!
`rag.retrieval.hybrid`: reciprocal rank fusion and the hybrid retriever.

Scores live in an arbitrary ordered field. The backends are actions of an arbitrary
monad, so the retriever runs over the in-memory stores as well as inside a program whose
stores are answered from outside. The two dictionaries `scores` and `best` of the source
always have the same keys in the same order and are one dictionary of pairs here.
-/

namespace Rag

open Py

/-- `[f(x) for x in xs]` with an effectful `f`. -/
def forEach {m : Type → Type} [Monad m] {α β : Type} (f : α → m β) : List α → m (List β)
  | [] => pure []
  | x :: xs => do
      let y ← f x
      let ys ← forEach f xs
      pure (y :: ys)

section Fusion

variable {K : Type} [Field K] [LinearOrder K]

/-- Accumulated score and best observation per chunk id. -/
abbrev Fused (K : Type) : Type := Dict String (K × ScoredChunk K)

/-- The entry of a chunk after one more ranked occurrence. -/
def fuseEntry (contribution : K) (item : ScoredChunk K) :
    Option (K × ScoredChunk K) → K × ScoredChunk K
  | none => (0 + contribution, item)
  | some (score, best) =>
      (score + contribution, if best.score < item.score then item else best)

/-- One ranked occurrence, worth `weight / (k + rank)`. -/
def fuseItem (k : ℤ) (weight : K) (acc : Fused K) (item : ScoredChunk K) :
    Except Exn (Fused K) :=
  if k + item.rank = 0 then .error zeroDivisionError
  else
    let contribution := weight * (1 / ((k + item.rank : ℤ) : K))
    let cid := item.chunk.chunkId
    .ok (acc.set cid (fuseEntry contribution item (acc.get? cid)))

def fuseLists (k : ℤ) : List (K × List (ScoredChunk K)) → Fused K → Except Exn (Fused K)
  | [], acc => .ok acc
  | (weight, ranked) :: rest, acc => do
      let acc ← ranked.foldlM (fuseItem k weight) acc
      fuseLists k rest acc

/-- Number results from one. -/
def enumerateFused (results : List (Chunk × K)) : List (ScoredChunk K) :=
  results.mapIdx fun i r => ⟨r.1, r.2, (i : ℤ) + 1, .fused⟩

/-- Fuse ranked lists: `score = Σ w_i / (k + rank_i)`. -/
def reciprocalRankFusion (rankedLists : List (List (ScoredChunk K))) (k : ℤ)
    (weights : Option (List K)) : Except Exn (List (ScoredChunk K)) :=
  let weights := weights.getD (List.replicate rankedLists.length 1)
  if weights.length ≠ rankedLists.length then
    .error (valueError "weights length must match ranked_lists")
  else do
    let acc ← fuseLists k (weights.zip rankedLists) .empty
    let fused := sortedDesc (fun e : K × ScoredChunk K => e.1) acc.values
    .ok (enumerateFused (fused.map fun e => (e.2.chunk, e.1)))

end Fusion

/-- Dense and lexical backends with the fusion parameters. -/
structure HybridRetriever (m : Type → Type) (V K : Type) where
  embed : List String → m (List V)
  search : V → ℤ → Principal → Option String → m (List (ScoredChunk K))
  lexicalSearch : String → ℤ → Principal → Option String → m (List (ScoredChunk K))
  rrfK : ℤ := 60
  denseWeight : K
  lexicalWeight : K

section Retrieve

variable {m : Type → Type} [Monad m] [MonadExceptOf Exn m] {V K : Type} [Field K]
  [LinearOrder K]

/-- The chunks of fused results the principal may see, cut to `topK` and renumbered. -/
def authoriseFused (principal : Principal) (topK : ℤ) (fused : List (ScoredChunk K)) :
    List (ScoredChunk K) :=
  let filtered := fused.filter fun s => isAllowed principal s.chunk.acl
  enumerateFused ((takeInt topK filtered).map fun s => (s.chunk, s.score))

/-- Fan out over query variants, fuse every ranked list, and re-check the ACL. -/
def retrieveMulti (r : HybridRetriever m V K) (queries : List String) (principal : Principal)
    (topK : ℤ) (indexVersion : Option String) (denseQueries : List String) :
    m (List (ScoredChunk K)) :=
  if queries = [] then pure []
  else
    let denseTexts := if denseQueries = [] then queries else denseQueries
    if denseTexts.length ≠ queries.length then
      throw (valueError "dense_queries length must match queries")
    else do
      let vectors ← r.embed denseTexts
      let denseHits ← forEach (fun v => r.search v topK principal indexVersion) vectors
      let lexicalHits ← forEach (fun q => r.lexicalSearch q topK principal indexVersion) queries
      let weights := List.replicate denseHits.length r.denseWeight
        ++ List.replicate lexicalHits.length r.lexicalWeight
      match reciprocalRankFusion (denseHits ++ lexicalHits) r.rrfK (some weights) with
      | .error exn => throw exn
      | .ok fused => pure (authoriseFused principal topK fused)

end Retrieve

section Provenance

variable {K : Type} [Field K] [LinearOrder K]

/-- Every observation kept comes from one of the lists. -/
def FusedFrom (lists : List (List (ScoredChunk K))) (acc : Fused K) : Prop :=
  ∀ e ∈ acc.values, ∃ ranked ∈ lists, e.2 ∈ ranked

theorem fuseItem_from {lists : List (List (ScoredChunk K))} {k : ℤ} {weight : K}
    {acc acc' : Fused K} {item : ScoredChunk K} (hacc : FusedFrom lists acc)
    (hitem : ∃ ranked ∈ lists, item ∈ ranked) (h : fuseItem k weight acc item = .ok acc') :
    FusedFrom lists acc' := by
  unfold fuseItem at h
  split_ifs at h
  cases h
  intro e he
  rcases Dict.mem_values_set he with rfl | he
  · cases hget : acc.get? item.chunk.chunkId with
    | none => exact hitem
    | some entry =>
        have hold := hacc entry (Dict.mem_values_of_get? hget)
        simp only [fuseEntry]
        split_ifs
        · exact hitem
        · exact hold
  · exact hacc e he

theorem fuseRanked_from {lists : List (List (ScoredChunk K))} {k : ℤ} {weight : K}
    {ranked : List (ScoredChunk K)} {acc acc' : Fused K} (hacc : FusedFrom lists acc)
    (hranked : ∀ item ∈ ranked, ∃ r ∈ lists, item ∈ r)
    (h : ranked.foldlM (fuseItem k weight) acc = .ok acc') : FusedFrom lists acc' := by
  induction ranked generalizing acc with
  | nil =>
      cases h
      exact hacc
  | cons item rest ih =>
      rw [List.foldlM_cons] at h
      cases hstep : fuseItem k weight acc item with
      | error exn =>
          rw [hstep] at h
          cases h
      | ok next =>
          rw [hstep] at h
          have hnext := fuseItem_from hacc (hranked item List.mem_cons_self) hstep
          exact ih hnext (fun i hi => hranked i (List.mem_cons_of_mem _ hi)) h

theorem fuseLists_from {lists : List (List (ScoredChunk K))} {k : ℤ}
    {weighted : List (K × List (ScoredChunk K))} {acc acc' : Fused K}
    (hacc : FusedFrom lists acc) (hweighted : ∀ w ∈ weighted, w.2 ∈ lists)
    (h : fuseLists k weighted acc = .ok acc') : FusedFrom lists acc' := by
  induction weighted generalizing acc with
  | nil =>
      cases h
      exact hacc
  | cons w rest ih =>
      obtain ⟨weight, ranked⟩ := w
      rw [fuseLists] at h
      cases hstep : ranked.foldlM (fuseItem k weight) acc with
      | error exn =>
          rw [hstep] at h
          cases h
      | ok next =>
          rw [hstep] at h
          have hmem := hweighted _ List.mem_cons_self
          have hnext := fuseRanked_from hacc (fun item hi => ⟨ranked, hmem, hi⟩) hstep
          exact ih hnext (fun w hw => hweighted w (List.mem_cons_of_mem _ hw)) h

omit [Field K] [LinearOrder K] in
theorem mem_enumerateFused {results : List (Chunk × K)} {s : ScoredChunk K}
    (h : s ∈ enumerateFused results) : ∃ r ∈ results, s.chunk = r.1 := by
  rw [enumerateFused, List.mem_mapIdx] at h
  obtain ⟨i, hi, rfl⟩ := h
  exact ⟨_, List.getElem_mem hi, rfl⟩

theorem mem_reciprocalRankFusion {rankedLists : List (List (ScoredChunk K))} {k : ℤ}
    {weights : Option (List K)} {fused : List (ScoredChunk K)} {s : ScoredChunk K}
    (h : reciprocalRankFusion rankedLists k weights = .ok fused) (hs : s ∈ fused) :
    ∃ ranked ∈ rankedLists, ∃ hit ∈ ranked, s.chunk = hit.chunk := by
  unfold reciprocalRankFusion at h
  dsimp only at h
  split_ifs at h
  generalize hacc : (fuseLists k _ _ : Except Exn (Fused K)) = result at h
  cases result with
  | error exn => cases h
  | ok acc =>
      cases h
      obtain ⟨r, hr, hchunk⟩ := mem_enumerateFused hs
      obtain ⟨e, he, rfl⟩ := List.mem_map.mp hr
      have hfrom : FusedFrom rankedLists acc := by
        refine fuseLists_from (by simp [FusedFrom, Dict.values, Dict.empty]) ?_ hacc
        intro w hw
        exact (List.of_mem_zip hw).2
      obtain ⟨ranked, hranked, hbest⟩ := hfrom e (mem_sortedDesc.mp he)
      exact ⟨ranked, hranked, e.2, hbest, hchunk⟩

omit [Field K] [LinearOrder K] in
/-- What survives the ACL re-check is allowed and is one of the fused chunks. -/
theorem mem_authoriseFused {principal : Principal} {topK : ℤ} {fused : List (ScoredChunk K)}
    {s : ScoredChunk K} (h : s ∈ authoriseFused principal topK fused) :
    isAllowed principal s.chunk.acl ∧ ∃ f ∈ fused, s.chunk = f.chunk := by
  obtain ⟨r, hr, hchunk⟩ := mem_enumerateFused h
  obtain ⟨f, hf, rfl⟩ := List.mem_map.mp hr
  obtain ⟨hmem, hallowed⟩ := List.mem_filter.mp (takeInt_subset _ _ hf)
  exact ⟨by rw [hchunk]; exact hallowed, f, hmem, hchunk⟩

end Provenance

section Raises

variable {K : Type} [Field K] [LinearOrder K]

theorem fuseItem_error {k : ℤ} {weight : K} {acc : Fused K} {item : ScoredChunk K} {exn : Exn}
    (h : fuseItem k weight acc item = .error exn) : exn = zeroDivisionError := by
  unfold fuseItem at h
  split_ifs at h
  cases h
  rfl

theorem fuseRanked_error {k : ℤ} {weight : K} {ranked : List (ScoredChunk K)} {acc : Fused K}
    {exn : Exn} (h : ranked.foldlM (fuseItem k weight) acc = .error exn) :
    exn = zeroDivisionError := by
  induction ranked generalizing acc with
  | nil => cases h
  | cons item rest ih =>
      rw [List.foldlM_cons] at h
      rcases error_of_bind h with hitem | ⟨next, -, hrest⟩
      · exact fuseItem_error hitem
      · exact ih hrest

theorem fuseLists_error {k : ℤ} {legs : List (K × List (ScoredChunk K))} {acc : Fused K}
    {exn : Exn} (h : fuseLists k legs acc = .error exn) : exn = zeroDivisionError := by
  induction legs generalizing acc with
  | nil => cases h
  | cons leg rest ih =>
      rw [fuseLists] at h
      rcases error_of_bind h with hleg | ⟨next, -, hrest⟩
      · exact fuseRanked_error hleg
      · exact ih hrest

/-- What fusion and the fan-out before it raise by themselves. -/
def fusionErrors : List Exn :=
  [valueError "dense_queries length must match queries",
    valueError "weights length must match ranked_lists", zeroDivisionError]

theorem reciprocalRankFusion_error {lists : List (List (ScoredChunk K))} {k : ℤ}
    {weights : Option (List K)} {exn : Exn}
    (h : reciprocalRankFusion lists k weights = .error exn) : exn ∈ fusionErrors := by
  unfold reciprocalRankFusion at h
  dsimp only at h
  split_ifs at h
  · cases h
    simp [fusionErrors]
  · rcases error_of_bind h with hlists | ⟨acc, -, hsorted⟩
    · rw [fuseLists_error hlists]
      simp [fusionErrors]
    · cases hsorted

end Raises

end Rag
