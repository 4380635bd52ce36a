import Rag.Retrieval.Contract

/-!
Fusion computes its formula: the score of a chunk is `Σ w_i / (k + rank_i)` over all of its
occurrences.

One occurrence changes the accumulated score of its own chunk and of no other (`fuseItem_held`).
The sums over a leg and over all legs follow by induction, and a sum does not depend on the order
of the legs.
-/

namespace Rag

open Py

variable {K : Type} [Field K]

/-- What the occurrences of a chunk in one weighted leg are worth, each by itself. -/
def legTerms (k : ℤ) (id : String) (leg : K × List (ScoredChunk K)) : List K :=
  (leg.2.filter fun hit => hitId hit = id).map fun hit => leg.1 / ((k + hit.rank : ℤ) : K)

/-- `Σ w_i / (k + rank_i)` over all occurrences of a chunk. -/
def rrfScore (k : ℤ) (legs : List (K × List (ScoredChunk K))) (id : String) : K :=
  (legs.flatMap (legTerms k id)).sum

theorem rrfScore_perm {k : ℤ} {legs legs' : List (K × List (ScoredChunk K))}
    (h : legs.Perm legs') (id : String) : rrfScore k legs id = rrfScore k legs' id :=
  (h.flatMap_right _).sum_eq

variable [LinearOrder K]

/-- `scores.get(cid, 0.0)` -/
def heldScore (acc : Fused K) (id : String) : K := ((acc.get? id).map Prod.fst).getD 0

theorem fuseItem_held {k : ℤ} {weight : K} {acc acc' : Fused K} {item : ScoredChunk K}
    (h : fuseItem k weight acc item = .ok acc') (id : String) :
    heldScore acc' id = heldScore acc id
      + if hitId item = id then weight / ((k + item.rank : ℤ) : K) else 0 := by
  unfold fuseItem at h
  split_ifs at h
  cases h
  rw [heldScore, heldScore, Dict.get?_set]
  by_cases hid : hitId item = id
  · have hkey : id = item.chunk.chunkId := hid.symm
    rw [if_pos hkey, if_pos hid, ← hkey, mul_one_div]
    cases acc.get? id with
    | none => rfl
    | some entry => rfl
  · have hkey : ¬ id = item.chunk.chunkId := fun heq => hid heq.symm
    rw [if_neg hkey, if_neg hid, add_zero]

theorem fuseRanked_held {k : ℤ} {weight : K} {ranked : List (ScoredChunk K)} {acc acc' : Fused K}
    (h : ranked.foldlM (fuseItem k weight) acc = .ok acc') (id : String) :
    heldScore acc' id = heldScore acc id + (legTerms k id (weight, ranked)).sum := by
  induction ranked generalizing acc with
  | nil =>
      cases h
      simp [legTerms]
  | cons item rest ih =>
      rw [List.foldlM_cons] at h
      obtain ⟨next, hnext, hrest⟩ := ok_of_bind h
      rw [ih hrest, fuseItem_held hnext, add_assoc]
      by_cases hid : hitId item = id
      · simp [legTerms, hid]
      · simp [legTerms, hid]

theorem fuseLists_held {k : ℤ} {legs : List (K × List (ScoredChunk K))} {acc acc' : Fused K}
    (h : fuseLists k legs acc = .ok acc') (id : String) :
    heldScore acc' id = heldScore acc id + rrfScore k legs id := by
  induction legs generalizing acc with
  | nil =>
      cases h
      simp [rrfScore]
  | cons leg rest ih =>
      obtain ⟨weight, ranked⟩ := leg
      rw [fuseLists] at h
      obtain ⟨next, hnext, hrest⟩ := ok_of_bind h
      rw [ih hrest, fuseRanked_held hnext, add_assoc]
      simp [rrfScore]

/-- `fused` ranks every chunk of the lists once, from one, by descending score, and the scores
are those of the formula. -/
structure MeetsFormula (k : ℤ) (lists : List (List (ScoredChunk K))) (weights : List K)
    (fused : List (ScoredChunk K)) : Prop where
  once : (fused.map hitId).Nodup
  ids : ∀ id, id ∈ fused.map hitId ↔ id ∈ lists.flatten.map hitId
  score : ∀ s ∈ fused, s.score = rrfScore k (weights.zip lists) (hitId s)
  sorted : fused.Pairwise fun a b => b.score ≤ a.score
  ranked : ∀ (i : Nat) s, fused[i]? = some s → s.rank = (i : ℤ) + 1

theorem reciprocalRankFusion_score {lists : List (List (ScoredChunk K))} {k : ℤ} (hk : 0 ≤ k)
    {weights : List K} {fused : List (ScoredChunk K)}
    (hranks : ∀ ranked ∈ lists, ∀ hit ∈ ranked, 0 < hit.rank)
    (h : reciprocalRankFusion lists k (some weights) = .ok fused) :
    (∀ s ∈ fused, s.score = rrfScore k (weights.zip lists) (hitId s))
      ∧ ∀ (i : Nat) s, fused[i]? = some s → s.rank = (i : ℤ) + 1 := by
  unfold reciprocalRankFusion at h
  dsimp only at h
  split_ifs at h
  obtain ⟨acc, hacc, hfused⟩ := ok_of_bind h
  cases hfused
  refine ⟨?_, fun i s hs => enumerateFused_rank hs⟩
  intro s hs
  rw [enumerateFused, List.mem_mapIdx] at hs
  obtain ⟨i, hi, rfl⟩ := hs
  obtain ⟨entry, hentry, heq⟩ := List.mem_map.mp (List.getElem_mem hi)
  have hkeyed : acc.KeyedBy entryId := by
    obtain ⟨acc', hacc', haccumulated⟩ := fuseLists_returns hk Dict.keyedBy_empty
      fun w hw => hranks w.2 (List.of_mem_zip hw).2
    have hsame : acc' = acc := Except.ok.inj (hacc'.symm.trans hacc)
    exact hsame ▸ haccumulated.keyed
  have hget := hkeyed.mem_values_iff.mp (mem_sortedDesc.mp hentry)
  have hheld := fuseLists_held hacc (entryId entry)
  have hempty : heldScore (Dict.empty : Fused K) (entryId entry) = 0 := rfl
  rw [hempty, zero_add, heldScore, hget] at hheld
  dsimp only [hitId]
  rw [← heq]
  exact hheld

theorem reciprocalRankFusion_meets {lists : List (List (ScoredChunk K))} {k : ℤ} (hk : 0 ≤ k)
    {weights : List K} (hweights : weights.length = lists.length)
    (hranks : ∀ ranked ∈ lists, ∀ hit ∈ ranked, 0 < hit.rank) :
    ∃ fused, reciprocalRankFusion lists k (some weights) = .ok fused
      ∧ MeetsFormula k lists weights fused := by
  obtain ⟨fused, hfused, honce, hids, hsorted⟩ := reciprocalRankFusion_returns hk hweights hranks
  obtain ⟨hscore, hranked⟩ := reciprocalRankFusion_score hk hranks hfused
  exact ⟨fused, hfused, honce, hids, hscore, hsorted, hranked⟩

theorem MeetsFormula.scored_iff {k : ℤ} {lists : List (List (ScoredChunk K))} {weights : List K}
    {fused : List (ScoredChunk K)} (h : MeetsFormula k lists weights fused) (id : String)
    (score : K) : (∃ s ∈ fused, hitId s = id ∧ s.score = score)
      ↔ id ∈ lists.flatten.map hitId ∧ score = rrfScore k (weights.zip lists) id := by
  rw [← h.ids id, List.mem_map]
  constructor
  · rintro ⟨s, hs, rfl, rfl⟩
    exact ⟨⟨s, hs, rfl⟩, h.score s hs⟩
  · rintro ⟨⟨s, hs, rfl⟩, rfl⟩
    exact ⟨s, hs, rfl, h.score s hs⟩

/-- A `ValueError` is raised for lengths that differ and for nothing else. -/
theorem reciprocalRankFusion_valueError_iff {lists : List (List (ScoredChunk K))} {k : ℤ}
    {weights : List K} :
    (∃ exn, reciprocalRankFusion lists k (some weights) = .error exn ∧ exn.cls = .value)
      ↔ weights.length ≠ lists.length := by
  unfold reciprocalRankFusion
  simp only [Option.getD_some]
  by_cases hlength : weights.length = lists.length
  · rw [if_neg (not_not.mpr hlength)]
    refine iff_of_false ?_ (not_not.mpr hlength)
    rintro ⟨exn, h, hvalue⟩
    rcases error_of_bind h with hlegs | ⟨acc, -, hsorted⟩
    · rw [fuseLists_error hlegs] at hvalue
      cases hvalue
    · cases hsorted
  · rw [if_pos hlength]
    exact iff_of_true ⟨_, rfl, rfl⟩ hlength

/-- Reciprocal rank fusion meets its formula, in whatever order the weighted lists come. -/
theorem rrf_formula (lists : List (List (ScoredChunk K))) (k : ℤ) (weights : List K) :
    ((∃ exn, reciprocalRankFusion lists k (some weights) = .error exn ∧ exn.cls = .value)
      ↔ weights.length ≠ lists.length)
    ∧ (0 ≤ k → (∀ ranked ∈ lists, ∀ hit ∈ ranked, 1 ≤ hit.rank) → weights.length = lists.length →
      ∃ fused, reciprocalRankFusion lists k (some weights) = .ok fused
        ∧ MeetsFormula k lists weights fused
        ∧ ∀ lists' weights', weights'.length = lists'.length →
          (weights'.zip lists').Perm (weights.zip lists) →
          ∃ fused', reciprocalRankFusion lists' k (some weights') = .ok fused'
            ∧ ∀ id score, (∃ s ∈ fused', hitId s = id ∧ s.score = score)
              ↔ ∃ s ∈ fused, hitId s = id ∧ s.score = score) := by
  refine ⟨reciprocalRankFusion_valueError_iff, ?_⟩
  intro hk hranks hweights
  obtain ⟨fused, hfused, hmeets⟩ := reciprocalRankFusion_meets hk hweights
    fun ranked hranked hit hhit => Int.lt_iff_add_one_le.mpr (by
      have hone := hranks ranked hranked hit hhit
      omega)
  refine ⟨fused, hfused, hmeets, ?_⟩
  intro lists' weights' hweights' hperm
  have hlists : lists'.Perm lists := by
    have hmapped := hperm.map Prod.snd
    rwa [List.map_snd_zip hweights'.ge, List.map_snd_zip hweights.ge] at hmapped
  obtain ⟨fused', hfused', hmeets'⟩ := reciprocalRankFusion_meets hk hweights'
    fun ranked hranked hit hhit => hranks ranked (hlists.mem_iff.mp hranked) hit hhit
  refine ⟨fused', hfused', ?_⟩
  intro id score
  rw [hmeets'.scored_iff, hmeets.scored_iff, rrfScore_perm hperm,
    (hlists.flatten.map hitId).mem_iff]

section Example

def hitAt (id : String) (rank : ℤ) : ScoredChunk ℚ where
  chunk := {
    chunkId := id
    docId := "d"
    ordinal := 0
    text := id
    span := (0, 1)
    acl := { tenant := "t" }
    indexVersion := "v1" }
  score := 1
  rank := rank
  retriever := .dense

/-- A chunk of both legs comes before one of the first leg alone. -/
theorem rrf_formula_both : ∃ fused,
    reciprocalRankFusion [[hitAt "a" 1, hitAt "b" 2], [hitAt "b" 1]] 60 (some [1, 1]) = .ok fused
      ∧ MeetsFormula 60 [[hitAt "a" 1, hitAt "b" 2], [hitAt "b" 1]] [1, 1] fused
      ∧ fused.map (fun s => (hitId s, s.score)) = [("b", 1 / 62 + 1 / 61), ("a", 1 / 61)] := by
  obtain ⟨fused, hfused, hmeets, -⟩ :=
    (rrf_formula [[hitAt "a" 1, hitAt "b" 2], [hitAt "b" 1]] 60 [1, 1]).2 (by decide) (by decide) rfl
  obtain ⟨fused', hfused', hscores⟩ : ∃ fused',
      reciprocalRankFusion [[hitAt "a" 1, hitAt "b" 2], [hitAt "b" 1]] 60 (some [1, 1]) = .ok fused'
        ∧ fused'.map (fun s => (hitId s, s.score)) = [("b", 1 / 62 + 1 / 61), ("a", 1 / 61)] :=
    ok_of_toOption (by decide +kernel)
  have hsame : fused' = fused := Except.ok.inj (hfused'.symm.trans hfused)
  exact ⟨fused, hfused, hmeets, hsame ▸ hscores⟩

end Example

end Rag
