import Rag.Retrieval.Visibility

/-!
What hybrid retrieval over the in-memory backends returns.

A dense leg scores every chunk the caller may see, so it alone contributes as many chunks
as there are to return, and no leg contributes a hidden one. Fusion keeps one result for
every chunk id of the legs. Counting ids, the fused results are at least as many as
`min top_k V` and at most `V`, and the cut to `top_k` leaves exactly `min top_k V`.
-/

namespace Rag

open Py

theorem takeInt_of_nonneg {α : Type} {n : ℤ} (hn : 0 ≤ n) (xs : List α) :
    takeInt n xs = xs.take n.toNat :=
  if_pos hn

theorem mapM_returns {α β : Type} {f : α → Except Exn β} {R : α → β → Prop} {xs : List α}
    (h : ∀ x ∈ xs, ∃ y, f x = .ok y ∧ R x y) :
    ∃ ys, xs.mapM f = .ok ys ∧ ∀ y ∈ ys, ∃ x ∈ xs, R x y := by
  induction xs with
  | nil => exact ⟨[], rfl, by simp⟩
  | cons x xs ih =>
      obtain ⟨y, hy, hr⟩ := h x List.mem_cons_self
      obtain ⟨ys, hys, hall⟩ := ih fun x hx => h x (List.mem_cons_of_mem _ hx)
      refine ⟨y :: ys, ?_, ?_⟩
      · rw [List.mapM_cons, hy, hys]
        rfl
      · intro z hz
        rcases List.mem_cons.mp hz with rfl | hz
        · exact ⟨x, List.mem_cons_self, hr⟩
        · obtain ⟨x', hx', hr'⟩ := hall z hz
          exact ⟨x', List.mem_cons_of_mem _ hx', hr'⟩

theorem forEach_returns {α β : Type} {f : α → Except Exn β} {R : α → β → Prop} {xs : List α}
    (h : ∀ x ∈ xs, ∃ y, f x = .ok y ∧ R x y) :
    ∃ ys, forEach f xs = .ok ys ∧ List.Forall₂ R xs ys := by
  induction xs with
  | nil => exact ⟨[], rfl, .nil⟩
  | cons x xs ih =>
      obtain ⟨y, hy, hr⟩ := h x List.mem_cons_self
      obtain ⟨ys, hys, hall⟩ := ih fun x hx => h x (List.mem_cons_of_mem _ hx)
      refine ⟨y :: ys, ?_, .cons hr hall⟩
      rw [forEach, hy, hys]
      rfl

theorem mem_of_forall₂_left {α β : Type} {R : α → β → Prop} {xs : List α} {ys : List β}
    (h : List.Forall₂ R xs ys) {x : α} (hx : x ∈ xs) : ∃ y ∈ ys, R x y := by
  induction h with
  | nil => cases hx
  | cons hhead _ ih =>
      rcases List.mem_cons.mp hx with rfl | hx
      · exact ⟨_, List.mem_cons_self, hhead⟩
      · obtain ⟨y, hy, hr⟩ := ih hx
        exact ⟨y, List.mem_cons_of_mem _ hy, hr⟩

theorem mem_of_forall₂ {α β : Type} {R : α → β → Prop} {xs : List α} {ys : List β}
    (h : List.Forall₂ R xs ys) {y : β} (hy : y ∈ ys) : ∃ x ∈ xs, R x y :=
  mem_of_forall₂_left h.flip hy

section Fusion

variable {K : Type} [Field K] [LinearOrder K]

/-- The id of the chunk an entry observed. -/
def entryId (entry : K × ScoredChunk K) : String := entry.2.chunk.chunkId

def hitId (hit : ScoredChunk K) : String := hit.chunk.chunkId

/-- `acc'` is `acc` with entries for the ids of `hits`, each under its id. -/
structure Accumulated (acc acc' : Fused K) (hits : List (ScoredChunk K)) : Prop where
  keyed : acc'.KeyedBy entryId
  keys : ∀ id, id ∈ acc'.keys ↔ id ∈ acc.keys ∨ id ∈ hits.map hitId

theorem fuseItem_returns {k : ℤ} (hk : 0 ≤ k) (weight : K) {acc : Fused K}
    (hacc : acc.KeyedBy entryId) {item : ScoredChunk K} (hrank : 0 < item.rank) :
    ∃ acc', fuseItem k weight acc item = .ok acc' ∧ Accumulated acc acc' [item] := by
  refine ⟨_, if_neg (by omega), ?_, ?_⟩
  · have hid : ∀ contribution : K, entryId
        (fuseEntry contribution item (acc.get? item.chunk.chunkId)) = item.chunk.chunkId := by
      intro contribution
      cases hget : acc.get? item.chunk.chunkId with
      | none => rfl
      | some entry =>
          have hkey := hacc _ (Dict.get?_iff.mp hget)
          rw [fuseEntry, entryId]
          split_ifs
          · rfl
          · exact hkey
    intro entry hentry
    rcases Items.mem_assign hentry with rfl | hold
    · exact hid _
    · exact hacc entry hold
  · intro id
    rw [Dict.mem_keys_set, List.map_singleton, List.mem_singleton, or_comm]
    rfl

theorem fuseRanked_returns {k : ℤ} (hk : 0 ≤ k) (weight : K) {acc : Fused K}
    (hacc : acc.KeyedBy entryId) {ranked : List (ScoredChunk K)}
    (hranks : ∀ hit ∈ ranked, 0 < hit.rank) :
    ∃ acc', ranked.foldlM (fuseItem k weight) acc = .ok acc' ∧ Accumulated acc acc' ranked := by
  induction ranked generalizing acc with
  | nil => exact ⟨acc, rfl, hacc, by simp⟩
  | cons item rest ih =>
      obtain ⟨next, hnext, hone⟩ := fuseItem_returns hk weight hacc (hranks item List.mem_cons_self)
      obtain ⟨acc', hacc', hrest⟩ :=
        ih hone.keyed fun hit hhit => hranks hit (List.mem_cons_of_mem _ hhit)
      refine ⟨acc', ?_, hrest.keyed, ?_⟩
      · rw [List.foldlM_cons, hnext]
        exact hacc'
      · intro id
        rw [hrest.keys, hone.keys, or_assoc]
        simp

theorem fuseLists_returns {k : ℤ} (hk : 0 ≤ k) {acc : Fused K} (hacc : acc.KeyedBy entryId)
    {weighted : List (K × List (ScoredChunk K))}
    (hranks : ∀ w ∈ weighted, ∀ hit ∈ w.2, 0 < hit.rank) :
    ∃ acc', fuseLists k weighted acc = .ok acc'
      ∧ Accumulated acc acc' (weighted.map Prod.snd).flatten := by
  induction weighted generalizing acc with
  | nil => exact ⟨acc, rfl, hacc, by simp⟩
  | cons w rest ih =>
      obtain ⟨weight, ranked⟩ := w
      obtain ⟨next, hnext, hone⟩ :=
        fuseRanked_returns hk weight hacc (hranks _ List.mem_cons_self)
      obtain ⟨acc', hacc', hrest⟩ := ih hone.keyed fun w hw => hranks w (List.mem_cons_of_mem _ hw)
      refine ⟨acc', ?_, hrest.keyed, ?_⟩
      · rw [fuseLists, hnext]
        exact hacc'
      · intro id
        rw [hrest.keys, hone.keys, List.map_cons, List.flatten_cons, List.map_append,
          List.mem_append, or_assoc]

omit [Field K] [LinearOrder K] in
theorem enumerateFused_map {α : Type} (f : Chunk → K → α) (results : List (Chunk × K)) :
    (enumerateFused results).map (fun s => f s.chunk s.score)
      = results.map fun r => f r.1 r.2 := by
  apply List.ext_getElem?
  intro i
  simp [enumerateFused, List.getElem?_mapIdx, Function.comp_def]

omit [Field K] [LinearOrder K] in
theorem enumerateFused_rank {results : List (Chunk × K)} {i : Nat} {s : ScoredChunk K}
    (h : (enumerateFused results)[i]? = some s) : s.rank = (i : ℤ) + 1 := by
  rw [enumerateFused, List.getElem?_mapIdx] at h
  obtain ⟨r, -, rfl⟩ := Option.map_eq_some_iff.mp h
  rfl

/-- Fusion ranks every chunk id of the lists once, by descending score. -/
theorem reciprocalRankFusion_returns {lists : List (List (ScoredChunk K))} {k : ℤ} (hk : 0 ≤ k)
    {weights : List K} (hweights : weights.length = lists.length)
    (hranks : ∀ ranked ∈ lists, ∀ hit ∈ ranked, 0 < hit.rank) :
    ∃ fused, reciprocalRankFusion lists k (some weights) = .ok fused
      ∧ (fused.map hitId).Nodup
      ∧ (∀ id, id ∈ fused.map hitId ↔ id ∈ lists.flatten.map hitId)
      ∧ fused.Pairwise fun a b => b.score ≤ a.score := by
  have hempty : (Dict.empty : Fused K).KeyedBy entryId := Dict.keyedBy_empty
  have hpositive : ∀ w ∈ weights.zip lists, ∀ hit ∈ w.2, 0 < hit.rank :=
    fun w hw => hranks w.2 (List.of_mem_zip hw).2
  obtain ⟨acc, hacc, hfused⟩ := fuseLists_returns hk hempty hpositive
  rw [List.map_snd_zip hweights.ge] at hfused
  let sorted := sortedDesc (fun e : K × ScoredChunk K => e.1) acc.values
  have hids : (enumerateFused (sorted.map fun e => (e.2.chunk, e.1))).map hitId
      = sorted.map entryId := by
    have hmap := enumerateFused_map (fun chunk _ => chunk.chunkId)
      (sorted.map fun e => (e.2.chunk, e.1))
    rw [List.map_map] at hmap
    exact hmap
  have hkeys : acc.values.map entryId = acc.keys := by
    rw [Dict.values, Dict.keys, List.map_map]
    exact List.map_congr_left fun entry hentry => hfused.keyed entry hentry
  have hperm : (sorted.map entryId).Perm acc.keys := by
    rw [← hkeys]
    exact (sortedDesc_perm _ _).map _
  refine ⟨enumerateFused (sorted.map fun e => (e.2.chunk, e.1)), ?_, ?_, ?_, ?_⟩
  · rw [reciprocalRankFusion]
    simp only [Option.getD_some, ne_eq, hweights, not_true_eq_false, if_false, hacc]
    rfl
  · rw [hids]
    exact hperm.nodup_iff.mpr acc.nodup
  · intro id
    rw [hids, hperm.mem_iff, hfused.keys]
    simp [Dict.keys, Dict.empty]
  · have hscores := enumerateFused_map (fun _ score => score)
      (sorted.map fun e => (e.2.chunk, e.1))
    rw [List.map_map] at hscores
    rw [← List.pairwise_map (f := ScoredChunk.score) (R := fun a b => b ≤ a)]
    have hsame : (enumerateFused (sorted.map fun e => (e.2.chunk, e.1))).map ScoredChunk.score
        = sorted.map Prod.fst := hscores
    rw [hsame, List.pairwise_map]
    exact sortedDesc_pairwise _ _

end Fusion

section Legs

variable [Runtime] {K : Type} [Field K] [LinearOrder K] [Math K]

/-- The chunks both stores hold, under their ids. -/
structure HoldSame (store : MemoryVectorStore K) (postings : Postings K) : Prop where
  keyed : (store.items.mapValues Prod.fst).KeyedBy Chunk.chunkId
  same : ∀ id, (store.items.mapValues Prod.fst).get? id = postings.tables.chunks.get? id

omit [LinearOrder K] [Math K] in
theorem holdSame_empty : HoldSame ({} : MemoryVectorStore K) .empty :=
  ⟨Dict.keyedBy_empty, fun _ => rfl⟩

omit [LinearOrder K] [Math K] in
/-- A build writes the same chunks to both stores. -/
theorem HoldSame.upsert {store written : MemoryVectorStore K} {postings : Postings K}
    (h : HoldSame store postings) {chunks : List Chunk} {vectors : List (List K)}
    (hwritten : store.upsert chunks vectors = .ok written) :
    HoldSame written (postings.upsert chunks) := by
  have hvector := MemoryVectorStore.chunks_upsert hwritten
  have hlexical : (postings.upsert chunks).tables.chunks
      = postings.tables.chunks.setAll Chunk.chunkId chunks := Tables.chunks_foldl_put _ _
  constructor
  · rw [hvector]
    exact h.keyed.setAll chunks
  · intro id
    rw [hvector, hlexical, Dict.get?_setAll, Dict.get?_setAll, h.same id]

/-- The ids of the chunks of a version that the caller may see. -/
def MemoryVectorStore.visibleIds (store : MemoryVectorStore K) (principal : Principal)
    (version : String) : List String :=
  (store.visibleItems principal (some version)).map fun item => item.1.chunkId

/-- The hits of a leg: numbered from one, and of visible chunks only. -/
structure VisibleHits (store : MemoryVectorStore K) (principal : Principal) (version : String)
    (hits : List (ScoredChunk K)) : Prop where
  ranks : ∀ hit ∈ hits, 0 < hit.rank
  visible : ∀ hit ∈ hits, visible principal (some version) hit.chunk = true
    ∧ hit.chunk.chunkId ∈ store.visibleIds principal version

variable {store : MemoryVectorStore K} {postings : Postings K} {principal : Principal}
  {version : String}

omit [Runtime] [Field K] [LinearOrder K] [Math K] in
theorem visibleIds_nodup (hkeyed : (store.items.mapValues Prod.fst).KeyedBy Chunk.chunkId) :
    (store.visibleIds principal version).Nodup := by
  have hids : store.items.values.map (fun item => item.1.chunkId) = store.items.keys := by
    rw [Dict.values, Dict.keys, List.map_map]
    apply List.map_congr_left
    intro item hitem
    exact hkeyed (item.1, item.2.1) (List.mem_map.mpr ⟨item, hitem, rfl⟩)
  have hsub : (store.visibleIds principal version).Sublist store.items.keys := by
    rw [← hids, MemoryVectorStore.visibleIds, MemoryVectorStore.visibleItems]
    exact List.filter_sublist.map _
  exact hsub.nodup store.items.nodup

omit [Runtime] [Field K] [Math K] in
theorem rankHits_rank {retriever : Retriever} {topK : ℤ} {scored : List (K × Chunk)}
    {hit : ScoredChunk K} (h : hit ∈ rankHits retriever topK scored) :
    0 < hit.rank := by
  rw [rankHits, List.mem_mapIdx] at h
  obtain ⟨i, hi, rfl⟩ := h
  change 0 < (i : ℤ) + 1
  omega

omit [Runtime] in
/-- The dense leg returns as many of the visible chunks as asked for. -/
theorem search_ids (vector : List K) {topK : ℤ} (htop : 0 ≤ topK) :
    ((store.search vector topK principal (some version)).length : ℤ)
        = min topK (store.visibleIds principal version).length
      ∧ ∃ ids, ((store.search vector topK principal (some version)).map hitId).Sublist ids
        ∧ ids.Perm (store.visibleIds principal version) := by
  let scored := (store.visibleItems principal (some version)).map fun item =>
    (cosine vector item.2, item.1)
  have hids : (store.search vector topK principal (some version)).map hitId
      = (takeInt topK (sortedDesc Prod.fst scored)).map fun e => e.2.chunkId := by
    apply List.ext_getElem?
    intro i
    simp [MemoryVectorStore.search, rankHits, List.getElem?_mapIdx, Function.comp_def, hitId,
      scored]
  have hperm : ((sortedDesc Prod.fst scored).map fun e => e.2.chunkId).Perm
      (store.visibleIds principal version) := by
    have hscored : scored.map (fun e => e.2.chunkId) = store.visibleIds principal version := by
      rw [List.map_map]
      rfl
    rw [← hscored]
    exact (sortedDesc_perm _ _).map _
  constructor
  · rw [← List.length_map hitId, hids, List.length_map, takeInt_of_nonneg htop, List.length_take,
      ← hperm.length_eq, List.length_map]
    omega
  · refine ⟨_, ?_, hperm⟩
    rw [hids, takeInt_of_nonneg htop]
    exact (List.take_sublist _ _).map _

omit [Runtime] in
theorem search_visible (vector : List K) (topK : ℤ) :
    VisibleHits store principal version (store.search vector topK principal (some version)) where
  ranks _ hhit := rankHits_rank hhit
  visible hit hhit := by
    obtain ⟨⟨item, hitem, hchunk⟩, hvisible⟩ := MemoryVectorStore.mem_search hhit
    refine ⟨hvisible, ?_⟩
    rw [hchunk] at hvisible ⊢
    exact List.mem_map.mpr ⟨item, List.mem_filter.mpr ⟨hitem, hvisible⟩, rfl⟩

variable [IsStrictOrderedRing K] {k1 b : K}

omit [Runtime] [Math K] in
theorem meanLength_nonneg (docLen : Dict String Nat) : 0 ≤ (Tables.meanLength docLen : K) := by
  rw [Tables.meanLength]
  split_ifs
  · exact le_rfl
  · exact div_nonneg (Nat.cast_nonneg _) (Nat.cast_nonneg _)

/-- A term that occurs has a positive denominator. -/
theorem termScore_returns (hk1 : 0 ≤ k1) (hb : 0 ≤ b) (hb1 : b ≤ 1) (postings : Postings K)
    (n dl : Nat) {freq : Nat} (hfreq : 0 < freq) (term : String) :
    ∃ score, (⟨k1, b, postings⟩ : BM25MemoryIndex K).termScore n freq dl term = .ok score := by
  have havgdl : 0 ≤ postings.tables.avgdl := by
    rw [postings.avgdl_eq]
    exact meanLength_nonneg _
  have hscale : 0 ≤ (if postings.tables.avgdl = 0 then 1 else postings.tables.avgdl) := by
    split_ifs
    · exact zero_le_one
    · exact havgdl
  have hlength : 0 ≤ 1 - b
      + b * dl / (if postings.tables.avgdl = 0 then 1 else postings.tables.avgdl) :=
    add_nonneg (sub_nonneg.mpr hb1) (div_nonneg (mul_nonneg hb (Nat.cast_nonneg _)) hscale)
  have hdenom : (freq : K) + k1 * (1 - b
      + b * dl / (if postings.tables.avgdl = 0 then 1 else postings.tables.avgdl)) ≠ 0 :=
    (add_pos_of_pos_of_nonneg (Nat.cast_pos.mpr hfreq) (mul_nonneg hk1 hlength)).ne'
  exact ⟨_, if_neg hdenom⟩

theorem scoreTerms_returns (hk1 : 0 ≤ k1) (hb : 0 ≤ b) (hb1 : b ≤ 1) (postings : Postings K)
    (n dl : Nat) (tf : Multiset String) (qTokens : List String) :
    ∃ score, (⟨k1, b, postings⟩ : BM25MemoryIndex K).scoreTerms n dl tf qTokens = .ok score := by
  rw [BM25MemoryIndex.scoreTerms]
  generalize (0 : K) = score
  induction qTokens generalizing score with
  | nil => exact ⟨score, rfl⟩
  | cons term rest ih =>
      rw [List.foldlM_cons]
      by_cases hterm : term ∈ tf
      · obtain ⟨added, hadded⟩ := termScore_returns hk1 hb hb1 postings n dl
          (Multiset.count_pos.mpr hterm) term
        obtain ⟨total, htotal⟩ := ih (score + added)
        refine ⟨total, ?_⟩
        rw [if_pos hterm, hadded]
        exact htotal
      · rw [if_neg hterm]
        exact ih score

omit [LinearOrder K] [Math K] [IsStrictOrderedRing K] in
/-- Both stores hold the same visible chunks. -/
theorem HoldSame.visibleId (h : HoldSame store postings) {item : String × Chunk}
    (hitem : item ∈ postings.visibleChunks principal (some version)) :
    item.2.chunkId ∈ store.visibleIds principal version := by
  obtain ⟨hin, hvisible⟩ := List.mem_filter.mp hitem
  have hget := h.same item.1
  rw [Dict.get?_iff.mpr hin, Dict.get?_mapValues] at hget
  obtain ⟨⟨chunk, vector⟩, hstored, hchunk⟩ := Option.map_eq_some_iff.mp hget
  obtain rfl : chunk = item.2 := hchunk
  refine List.mem_map.mpr ⟨(item.2, vector), List.mem_filter.mpr ⟨?_, hvisible⟩, rfl⟩
  exact Dict.mem_values_of_get? hstored

/-- The lexical leg returns visible chunks. -/
theorem lexical_returns (hk1 : 0 ≤ k1) (hb : 0 ≤ b) (hb1 : b ≤ 1) (h : HoldSame store postings)
    (query : String) (topK : ℤ) :
    ∃ hits, (⟨k1, b, postings⟩ : BM25MemoryIndex K).search query topK principal (some version)
        = .ok hits
      ∧ VisibleHits store principal version hits := by
  rw [BM25MemoryIndex.search]
  dsimp only
  split_ifs with hnone
  · exact ⟨[], rfl, by simp, by simp⟩
  · have hscores : ∀ item ∈ postings.visibleChunks principal (some version), ∃ e : K × Chunk,
        (do
          let score ← (⟨k1, b, postings⟩ : BM25MemoryIndex K).bm25 (tokenize query) item.1
            postings.size
          Except.ok (score, item.2)) = .ok e ∧ e.2 = item.2 := by
      intro item _
      obtain ⟨score, hscore⟩ := scoreTerms_returns hk1 hb hb1 postings postings.size
        ((postings.tables.docLen.get? item.1).getD 0) ((postings.tables.tf.get? item.1).getD 0)
        (tokenize query)
      refine ⟨(score, item.2), ?_, rfl⟩
      rw [BM25MemoryIndex.bm25, hscore]
      rfl
    obtain ⟨scored, hscored, hfrom⟩ := mapM_returns hscores
    rw [hscored]
    refine ⟨_, rfl, fun _ hhit => rankHits_rank hhit, ?_⟩
    intro hit hhit
    obtain ⟨e, he, hchunk⟩ := mem_rankHits hhit
    obtain ⟨item, hitem, hsame⟩ := hfrom e (List.mem_of_mem_filter he)
    rw [hchunk, hsame]
    exact ⟨(List.mem_filter.mp hitem).2, h.visibleId hitem⟩

end Legs

section Contract

variable [Runtime] {K : Type} [Field K] [LinearOrder K] [IsStrictOrderedRing K] [Math K]

/-- What a caller may rely on: exactly as many results as there are visible chunks up to
`top_k`, each visible and none twice, numbered from one and by descending score. -/
structure HonoursContract (store : MemoryVectorStore K) (principal : Principal) (version : String)
    (topK : ℤ) (results : List (ScoredChunk K)) : Prop where
  length : (results.length : ℤ) = min topK (store.visibleIds principal version).length
  distinct : (results.map fun s => s.chunk.chunkId).Nodup
  versions : ∀ s ∈ results, s.chunk.indexVersion = version
  allowed : ∀ s ∈ results, isAllowed principal s.chunk.acl = true
  ranks : ∀ (i : Nat) (s : ScoredChunk K), results[i]? = some s → s.rank = (i : ℤ) + 1
  scores : results.Pairwise fun a b => b.score ≤ a.score

omit [Runtime] [Math K] [Field K] [LinearOrder K] [IsStrictOrderedRing K] in
theorem visible_version {principal : Principal} {version : String} (hversion : version ≠ "")
    {chunk : Chunk} (h : visible principal (some version) chunk = true) :
    chunk.indexVersion = version ∧ isAllowed principal chunk.acl = true := by
  obtain ⟨hin, hallowed⟩ := Bool.and_eq_true_iff.mp h
  refine ⟨?_, hallowed⟩
  simpa [inVersion, hversion] using hin

omit [Runtime] [Math K] [Field K] [LinearOrder K] [IsStrictOrderedRing K] in
/-- The cut of results that are all allowed, one for each of at least `min top_k V` and at
most `V` visible ids. -/
theorem authoriseFused_honours [Field K] [LinearOrder K] {store : MemoryVectorStore K}
    {principal : Principal} {version : String} {topK : ℤ} (htop : 0 ≤ topK)
    {fused : List (ScoredChunk K)} (hnodup : (fused.map hitId).Nodup)
    (hsorted : fused.Pairwise fun a b => b.score ≤ a.score)
    (hshown : ∀ s ∈ fused, s.chunk.indexVersion = version ∧ isAllowed principal s.chunk.acl = true)
    (hcount : min topK (store.visibleIds principal version).length ≤ fused.length
      ∧ fused.length ≤ (store.visibleIds principal version).length) :
    HonoursContract store principal version topK (authoriseFused principal topK fused) := by
  have hall : fused.filter (fun s => isAllowed principal s.chunk.acl) = fused :=
    List.filter_eq_self.mpr fun s hs => (hshown s hs).2
  have hcut : authoriseFused principal topK fused
      = enumerateFused ((fused.take topK.toNat).map fun s => (s.chunk, s.score)) := by
    rw [authoriseFused, hall, takeInt_of_nonneg htop]
  have hsub := List.take_sublist topK.toNat fused
  have hids := enumerateFused_map (fun chunk (_ : K) => chunk.chunkId)
    ((fused.take topK.toNat).map fun s => (s.chunk, s.score))
  have hscores := enumerateFused_map (fun _ (score : K) => score)
    ((fused.take topK.toNat).map fun s => (s.chunk, s.score))
  rw [List.map_map] at hids hscores
  have hfrom : ∀ s ∈ authoriseFused principal topK fused, ∃ f ∈ fused, s.chunk = f.chunk :=
    fun s hs => (mem_authoriseFused hs).2
  constructor
  · rw [hcut, enumerateFused, List.length_mapIdx, List.length_map, List.length_take]
    omega
  · rw [hcut, hids]
    exact (hsub.map _).nodup hnodup
  · intro s hs
    obtain ⟨f, hf, hchunk⟩ := hfrom s hs
    rw [hchunk]
    exact (hshown f hf).1
  · intro s hs
    obtain ⟨f, hf, hchunk⟩ := hfrom s hs
    rw [hchunk]
    exact (hshown f hf).2
  · intro i s hs
    rw [hcut] at hs
    exact enumerateFused_rank hs
  · rw [← List.pairwise_map (f := ScoredChunk.score) (R := fun a b => b ≤ a), hcut]
    have hsame : (enumerateFused ((fused.take topK.toNat).map fun s => (s.chunk, s.score))).map
        ScoredChunk.score = (fused.take topK.toNat).map ScoredChunk.score := hscores
    rw [hsame, List.pairwise_map]
    exact hsorted.sublist hsub

/-- Hybrid retrieval over in-memory stores that hold the same chunks honours its contract,
whatever the weights, for any embedder that returns one vector per text. -/
theorem hybrid_contract (cfg : RetrieverConfig K) {store : MemoryVectorStore K}
    {postings : Postings K} (hsame : HoldSame store postings) {queries denseQueries : List String}
    (hqueries : queries ≠ []) (hdense : denseQueries = [] ∨ denseQueries.length = queries.length)
    (principal : Principal) {version : String} (hversion : version ≠ "") {topK : ℤ}
    (htop : 0 ≤ topK) (hrrf : 0 ≤ cfg.rrfK) (hk1 : 0 ≤ cfg.k1) (hb : 0 ≤ cfg.b) (hb1 : cfg.b ≤ 1)
    (hembed : ∀ texts, ∃ vectors, cfg.embed texts = .ok vectors
      ∧ vectors.length = texts.length) :
    ∃ results, retrieveMulti (memoryRetriever cfg store postings) queries principal topK
        (some version) denseQueries = .ok results
      ∧ HonoursContract store principal version topK results := by
  let texts := if denseQueries = [] then queries else denseQueries
  have htexts : texts.length = queries.length := by
    simp only [texts]
    split_ifs with hnone
    · rfl
    · exact hdense.resolve_left hnone
  obtain ⟨vectors, hvectors, hlength⟩ := hembed texts
  have hsearched : ∀ v ∈ vectors, ∃ hits,
      (memoryRetriever cfg store postings).search v topK principal (some version) = .ok hits
        ∧ hits = store.search v topK principal (some version) := fun v _ => ⟨_, rfl, rfl⟩
  have hasked : ∀ q ∈ queries, ∃ hits,
      (memoryRetriever cfg store postings).lexicalSearch q topK principal (some version) = .ok hits
        ∧ VisibleHits store principal version hits :=
    fun q _ => lexical_returns hk1 hb hb1 hsame q topK
  obtain ⟨denseHits, hdenseHits, hdenseAll⟩ := forEach_returns hsearched
  obtain ⟨lexicalHits, hlexicalHits, hlexicalAll⟩ := forEach_returns hasked
  have hvisible : ∀ hits ∈ denseHits ++ lexicalHits, VisibleHits store principal version hits := by
    intro hits hhits
    rcases List.mem_append.mp hhits with hhits | hhits
    · obtain ⟨v, -, rfl⟩ := mem_of_forall₂ hdenseAll hhits
      exact search_visible v topK
    · obtain ⟨q, -, hleg⟩ := mem_of_forall₂ hlexicalAll hhits
      exact hleg
  have hweights : (List.replicate denseHits.length cfg.denseWeight
      ++ List.replicate lexicalHits.length cfg.lexicalWeight).length
        = (denseHits ++ lexicalHits).length := by simp
  obtain ⟨fused, hfused, hnodup, hids, hsorted⟩ := reciprocalRankFusion_returns hrrf hweights
    fun hits hhits => (hvisible hits hhits).ranks
  refine ⟨authoriseFused principal topK fused, ?_, ?_⟩
  · have hone : ¬ texts.length ≠ queries.length := fun hne => hne htexts
    rw [retrieveMulti, if_neg hqueries]
    dsimp only
    rw [if_neg hone]
    change cfg.embed (if denseQueries = [] then queries else denseQueries) = _ at hvectors
    simp only [memoryRetriever] at hdenseHits hlexicalHits ⊢
    simp only [hvectors, hdenseHits, hlexicalHits, Bind.bind, Except.bind, pure, Except.pure]
    split
    · rename_i exn hraised
      exact absurd (hfused.symm.trans hraised) (by simp)
    · rename_i other hother
      obtain rfl : fused = other := Except.ok.inj (hfused.symm.trans hother)
      rfl
  · have hshown : ∀ s ∈ fused, visible principal (some version) s.chunk = true
        ∧ hitId s ∈ store.visibleIds principal version := by
      intro s hs
      obtain ⟨hits, hhits, hit, hhit, hchunk⟩ := mem_reciprocalRankFusion hfused hs
      rw [hitId, hchunk]
      exact (hvisible hits hhits).visible hit hhit
    obtain ⟨v, hv⟩ := List.exists_mem_of_length_pos (show 0 < vectors.length by
      rw [hlength, htexts]
      exact List.length_pos_iff.mpr hqueries)
    have hleg : store.search v topK principal (some version) ∈ denseHits := by
      obtain ⟨hits, hhits, rfl⟩ := mem_of_forall₂_left hdenseAll hv
      exact hhits
    obtain ⟨hcount, ids, hsub, hperm⟩ := search_ids v htop
    refine authoriseFused_honours htop hnodup hsorted
      (fun s hs => visible_version hversion (hshown s hs).1) ⟨?_, ?_⟩
    · -- the ids of one dense leg are among the fused ones
      rw [← hcount]
      have hdistinct := hsub.nodup (hperm.nodup_iff.mpr (visibleIds_nodup hsame.keyed))
      have hsubset : (store.search v topK principal (some version)).map hitId
          ⊆ fused.map hitId := by
        intro id hid
        obtain ⟨hit, hhit, rfl⟩ := List.mem_map.mp hid
        refine (hids _).mpr (List.mem_map_of_mem ?_)
        exact List.mem_flatten.mpr ⟨_, List.mem_append_left _ hleg, hhit⟩
      have hle := (List.subperm_of_subset hdistinct hsubset).length_le
      simpa using hle
    · have hsubset : fused.map hitId ⊆ store.visibleIds principal version := by
        intro id hid
        obtain ⟨s, hs, rfl⟩ := List.mem_map.mp hid
        exact (hshown s hs).2
      have hle := (List.subperm_of_subset hnodup hsubset).length_le
      simpa using hle

end Contract

def flatConfig : RetrieverConfig ℚ where
  embed texts := .ok (texts.map fun _ => [1])
  denseWeight := 1
  lexicalWeight := 1
  k1 := defaultK1
  b := defaultB

/-- Both stores after one write of `corpus`. -/
def writtenStore : MemoryVectorStore ℚ where
  items := MemoryVectorStore.put .empty ((corpus "z").map fun c => (c, [1]))

def writtenPostings [Runtime] : Postings ℚ := Postings.empty.upsert (corpus "z")

theorem written_same [Runtime] : HoldSame writtenStore writtenPostings := by
  have hwritten : ({} : MemoryVectorStore ℚ).upsert (corpus "z") ((corpus "z").map fun _ => [1])
      = .ok writtenStore := rfl
  exact holdSame_empty.upsert hwritten

theorem hybrid_contract_corpus : let _ := Runtime.ascii
    let _ := unitMath
    ∃ results, retrieveMulti (memoryRetriever flatConfig writtenStore writtenPostings) ["x"] reader
        5 (some "v1") [] = .ok results
      ∧ results.length = 2 := by
  intro _ _
  have hqueries : ["x"] ≠ [] := by simp
  have hversion : "v1" ≠ "" := by simp
  have htop : (0 : ℤ) ≤ 5 := by simp
  have hrrf : 0 ≤ flatConfig.rrfK := by simp [flatConfig]
  have hk1 : 0 ≤ flatConfig.k1 := by norm_num [flatConfig, defaultK1]
  have hb : 0 ≤ flatConfig.b := by norm_num [flatConfig, defaultB]
  have hb1 : flatConfig.b ≤ 1 := by norm_num [flatConfig, defaultB]
  obtain ⟨results, hresults, hcontract⟩ := hybrid_contract flatConfig written_same hqueries
    (Or.inl rfl) reader hversion htop hrrf hk1 hb hb1 fun texts => ⟨_, rfl, List.length_map _⟩
  refine ⟨results, hresults, ?_⟩
  have hvisible : (writtenStore.visibleIds reader "v1").length = 2 := by decide +kernel
  have hlength := hcontract.length
  rw [hvisible] at hlength
  omega

end Rag
