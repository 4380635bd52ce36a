import Rag.Retrieval.Formula
import Mathlib.Tactic.FieldSimp
import Mathlib.Tactic.Linarith

/-!
What fusion prefers: consensus and dominance.

Under distinct ids a leg gives a chunk one term, which shrinks with its rank. A chunk that no leg
ranks below another, and some leg ranks above it, has the greater sum (`Dominates.score_lt`). Two
terms of the lowest ranks still outweigh one of the first as long as the legs are no longer than
`k + 1` (`consensus_score_lt`).
-/

namespace Rag

open Py

variable {K : Type} [Field K] [LinearOrder K]

/-- Distinct ids, ranked from one without a gap. -/
structure WellRanked (ranked : List (ScoredChunk K)) : Prop where
  once : (ranked.map hitId).Nodup
  ranks : ∀ (i : Nat) hit, ranked[i]? = some hit → hit.rank = (i : ℤ) + 1

/-- The leg has the chunk at this rank. -/
def RankedAt (ranked : List (ScoredChunk K)) (id : String) (rank : ℤ) : Prop :=
  ∃ hit ∈ ranked, hitId hit = id ∧ hit.rank = rank

/-- No leg with `b` ranks it above `a`, and some leg ranks `a` above it or has `a` alone. -/
structure Dominates (lists : List (List (ScoredChunk K))) (a b : String) : Prop where
  noWorse : ∀ ranked ∈ lists, ∀ rank, RankedAt ranked b rank →
    ∃ rank' ≤ rank, RankedAt ranked a rank'
  better : ∃ ranked ∈ lists, ∃ rank, RankedAt ranked a rank
    ∧ ∀ rank', RankedAt ranked b rank' → rank < rank'

/-- `a` is in the output, and before `b` wherever that is. -/
structure Precedes (fused : List (ScoredChunk K)) (a b : String) : Prop where
  present : a ∈ fused.map hitId
  before : ∀ (i j : Nat) s t, fused[i]? = some s → fused[j]? = some t →
    hitId s = a → hitId t = b → i < j

section Legs

variable {k : ℤ} {weight : K} {ranked : List (ScoredChunk K)} {id : String} {rank : ℤ}

omit [Field K] [LinearOrder K] in
theorem WellRanked.rank_pos (h : WellRanked ranked) {hit : ScoredChunk K} (hhit : hit ∈ ranked) :
    1 ≤ hit.rank ∧ hit.rank ≤ ranked.length := by
  obtain ⟨i, hi, rfl⟩ := List.mem_iff_getElem.mp hhit
  have hrank := h.ranks i ranked[i] (List.getElem?_eq_getElem hi)
  omega

omit [LinearOrder K] in
/-- A leg gives a chunk the term of its only rank. -/
theorem legTerms_of_rankedAt (h : WellRanked ranked) (hat : RankedAt ranked id rank) :
    legTerms k id (weight, ranked) = [weight / ((k + rank : ℤ) : K)] := by
  obtain ⟨hit, hhit, hid, rfl⟩ := hat
  have honly : ranked.filter (fun hit => hitId hit = id) = [hit] := by
    obtain ⟨before, after, rfl⟩ := List.append_of_mem hhit
    have honce := h.once
    rw [List.map_append, List.map_cons, List.nodup_append, List.nodup_cons] at honce
    have hbefore : ∀ other ∈ before, ¬ hitId other = id := by
      intro other hother heq
      exact honce.2.2 _ (List.mem_map_of_mem hother) _ List.mem_cons_self (heq.trans hid.symm)
    have hafter : ∀ other ∈ after, ¬ hitId other = id := by
      intro other hother heq
      exact honce.2.1.1 ((hid.trans heq.symm) ▸ List.mem_map_of_mem hother)
    rw [List.filter_append, List.filter_cons_of_pos (by simpa using hid),
      List.filter_eq_nil_iff.mpr (by simpa using hbefore),
      List.filter_eq_nil_iff.mpr (by simpa using hafter)]
    rfl
  rw [legTerms, honly]
  rfl

omit [LinearOrder K] in
theorem legTerms_of_absent (weight : K) (habsent : ∀ rank, ¬ RankedAt ranked id rank) :
    legTerms k id (weight, ranked) = [] := by
  have hnone : ranked.filter (fun hit => hitId hit = id) = [] := by
    rw [List.filter_eq_nil_iff]
    intro hit hhit hid
    exact habsent hit.rank ⟨hit, hhit, by simpa using hid, rfl⟩
  rw [legTerms, hnone]
  rfl

omit [Field K] [LinearOrder K] in
theorem RankedAt.pos (h : WellRanked ranked) (hat : RankedAt ranked id rank) :
    1 ≤ rank ∧ rank ≤ ranked.length := by
  obtain ⟨hit, hhit, -, rfl⟩ := hat
  exact h.rank_pos hhit

variable [IsStrictOrderedRing K]

/-- A better rank is worth more. -/
theorem term_lt_of_rank (hk : 0 ≤ k) (hweight : 0 < weight) {rank' : ℤ} (hrank : 1 ≤ rank)
    (hlt : rank < rank') : weight / ((k + rank' : ℤ) : K) < weight / ((k + rank : ℤ) : K) := by
  have hpos : (0 : K) < ((k + rank : ℤ) : K) := by exact_mod_cast by omega
  have hless : ((k + rank : ℤ) : K) < ((k + rank' : ℤ) : K) := by exact_mod_cast by omega
  exact div_lt_div_of_pos_left hweight hpos hless

theorem term_pos (hk : 0 ≤ k) (hweight : 0 < weight) (hrank : 1 ≤ rank) :
    0 < weight / ((k + rank : ℤ) : K) := by
  have hpos : (0 : K) < ((k + rank : ℤ) : K) := by exact_mod_cast by omega
  exact div_pos hweight hpos

/-- What a leg gives the chunk it ranks no worse is no less, and more if it ranks it better. -/
theorem legTerms_le (hk : 0 ≤ k) (hweight : 0 < weight) (h : WellRanked ranked) {a b : String}
    (hab : ∀ rank, RankedAt ranked b rank → ∃ rank' ≤ rank, RankedAt ranked a rank') :
    (legTerms k b (weight, ranked)).sum ≤ (legTerms k a (weight, ranked)).sum := by
  by_cases hb : ∃ rank, RankedAt ranked b rank
  · obtain ⟨rank, hrank⟩ := hb
    obtain ⟨rank', hle, hrank'⟩ := hab rank hrank
    rw [legTerms_of_rankedAt h hrank, legTerms_of_rankedAt h hrank', List.sum_singleton,
      List.sum_singleton]
    rcases hle.eq_or_lt with rfl | hlt
    · exact le_rfl
    · exact (term_lt_of_rank hk hweight (hrank'.pos h).1 hlt).le
  · rw [legTerms_of_absent weight (not_exists.mp hb), List.sum_nil]
    by_cases ha : ∃ rank, RankedAt ranked a rank
    · obtain ⟨rank, hrank⟩ := ha
      rw [legTerms_of_rankedAt h hrank, List.sum_singleton]
      exact (term_pos hk hweight (hrank.pos h).1).le
    · rw [legTerms_of_absent weight (not_exists.mp ha), List.sum_nil]

theorem legTerms_lt (hk : 0 ≤ k) (hweight : 0 < weight) (h : WellRanked ranked) {a b : String}
    (ha : RankedAt ranked a rank) (hb : ∀ rank', RankedAt ranked b rank' → rank < rank') :
    (legTerms k b (weight, ranked)).sum < (legTerms k a (weight, ranked)).sum := by
  rw [legTerms_of_rankedAt h ha, List.sum_singleton]
  by_cases hpresent : ∃ rank', RankedAt ranked b rank'
  · obtain ⟨rank', hrank'⟩ := hpresent
    rw [legTerms_of_rankedAt h hrank', List.sum_singleton]
    exact term_lt_of_rank hk hweight (ha.pos h).1 (hb rank' hrank')
  · rw [legTerms_of_absent weight (not_exists.mp hpresent), List.sum_nil]
    exact term_pos hk hweight (ha.pos h).1

end Legs

section Sums

variable [IsStrictOrderedRing K] {k : ℤ} {lists : List (List (ScoredChunk K))}
  {weights : List K} {a b : String}

omit [LinearOrder K] [IsStrictOrderedRing K] in
theorem rrfScore_eq_sum (legs : List (K × List (ScoredChunk K))) (id : String) :
    rrfScore k legs id = (legs.map fun leg => (legTerms k id leg).sum).sum := by
  rw [rrfScore, List.flatMap, List.sum_flatten, List.map_map]
  rfl

omit [Field K] [LinearOrder K] [IsStrictOrderedRing K] in
/-- Every list has a weight. -/
theorem exists_weighted (hlength : weights.length = lists.length)
    {ranked : List (ScoredChunk K)} (hranked : ranked ∈ lists) :
    ∃ weight, (weight, ranked) ∈ weights.zip lists := by
  rw [← List.map_snd_zip hlength.ge] at hranked
  obtain ⟨⟨weight, ranked'⟩, hleg, rfl⟩ := List.mem_map.mp hranked
  exact ⟨weight, hleg⟩

/-- A dominating chunk has the greater sum, whatever the weights. -/
theorem Dominates.score_lt (hk : 0 ≤ k) (hlists : ∀ ranked ∈ lists, WellRanked ranked)
    (hlength : weights.length = lists.length) (hweights : ∀ weight ∈ weights, 0 < weight)
    (h : Dominates lists a b) :
    rrfScore k (weights.zip lists) b < rrfScore k (weights.zip lists) a := by
  rw [rrfScore_eq_sum, rrfScore_eq_sum]
  obtain ⟨ranked, hranked, rank, ha, hb⟩ := h.better
  obtain ⟨weight, hleg⟩ := exists_weighted hlength hranked
  refine List.sum_lt_sum _ _ ?_ ⟨(weight, ranked), hleg, ?_⟩
  · rintro ⟨weight, ranked⟩ hleg
    obtain ⟨hweight, hranked⟩ := List.of_mem_zip hleg
    exact legTerms_le hk (hweights weight hweight) (hlists ranked hranked)
      (h.noWorse ranked hranked)
  · exact legTerms_lt hk (hweights weight (List.of_mem_zip hleg).1) (hlists ranked hranked) ha hb

/-- Two terms of ranks up to `k + 1` outweigh one term of any rank. -/
theorem terms_lt_of_ranks (hk : 0 ≤ k) {weight : K} (hweight : 0 < weight) {r s t : ℤ}
    (hr : 1 ≤ r) (hs : 1 ≤ s) (ht : 1 ≤ t) (hrk : r ≤ k + 1) (hsk : s ≤ k + 1) :
    weight / ((k + t : ℤ) : K) < weight / ((k + r : ℤ) : K) + weight / ((k + s : ℤ) : K) := by
  have hone : ∀ u : ℤ, 1 ≤ u → u ≤ k + 1 →
      weight / ((2 * k + 1 : ℤ) : K) ≤ weight / ((k + u : ℤ) : K) := by
    intro u hu huk
    have hpos : (0 : K) < ((k + u : ℤ) : K) := by exact_mod_cast by omega
    have hle : ((k + u : ℤ) : K) ≤ ((2 * k + 1 : ℤ) : K) := by exact_mod_cast by omega
    exact div_le_div_of_nonneg_left hweight.le hpos hle
  have hfirst : weight / ((k + t : ℤ) : K) ≤ weight / ((k + 1 : ℤ) : K) := by
    have hpos : (0 : K) < ((k + 1 : ℤ) : K) := by exact_mod_cast by omega
    have hle : ((k + 1 : ℤ) : K) ≤ ((k + t : ℤ) : K) := by exact_mod_cast by omega
    exact div_le_div_of_nonneg_left hweight.le hpos hle
  have hboth : weight / ((k + 1 : ℤ) : K)
      < weight / ((2 * k + 1 : ℤ) : K) + weight / ((2 * k + 1 : ℤ) : K) := by
    have hpos : (0 : K) < ((k + 1 : ℤ) : K) := by exact_mod_cast by omega
    have hpos' : (0 : K) < ((2 * k + 1 : ℤ) : K) := by exact_mod_cast by omega
    have hless : ((2 * k + 1 : ℤ) : K) < ((k + 1 : ℤ) : K) + ((k + 1 : ℤ) : K) := by
      exact_mod_cast by omega
    rw [← add_div, div_lt_div_iff₀ hpos hpos', add_mul]
    calc weight * ((2 * k + 1 : ℤ) : K)
        < weight * (((k + 1 : ℤ) : K) + ((k + 1 : ℤ) : K)) :=
          mul_lt_mul_of_pos_left hless hweight
      _ = weight * ((k + 1 : ℤ) : K) + weight * ((k + 1 : ℤ) : K) := mul_add _ _ _
  calc weight / ((k + t : ℤ) : K)
      ≤ weight / ((k + 1 : ℤ) : K) := hfirst
    _ < weight / ((2 * k + 1 : ℤ) : K) + weight / ((2 * k + 1 : ℤ) : K) := hboth
    _ ≤ weight / ((k + r : ℤ) : K) + weight / ((k + s : ℤ) : K) :=
      add_le_add (hone r hr hrk) (hone s hs hsk)

/-- Under equal weights a chunk of both legs outscores a chunk of one. -/
theorem consensus_score_lt (hk : 0 ≤ k) {weight : K} (hweight : 0 < weight)
    {dense lexical : List (ScoredChunk K)} (hdense : WellRanked dense)
    (hlexical : WellRanked lexical) (hdenseLength : (dense.length : ℤ) ≤ k + 1)
    (hlexicalLength : (lexical.length : ℤ) ≤ k + 1) {r s : ℤ} (har : RankedAt dense a r)
    (has : RankedAt lexical a s)
    (hb : (∀ t, ¬ RankedAt dense b t) ∨ ∀ t, ¬ RankedAt lexical b t) :
    rrfScore k [(weight, dense), (weight, lexical)] b
      < rrfScore k [(weight, dense), (weight, lexical)] a := by
  have hr := har.pos hdense
  have hs := has.pos hlexical
  have hboth : rrfScore k [(weight, dense), (weight, lexical)] a
      = weight / ((k + r : ℤ) : K) + weight / ((k + s : ℤ) : K) := by
    rw [rrfScore, List.flatMap_cons, List.flatMap_cons, legTerms_of_rankedAt hdense har,
      legTerms_of_rankedAt hlexical has]
    simp
  have hnone : (0 : K) < weight / ((k + r : ℤ) : K) + weight / ((k + s : ℤ) : K) :=
    add_pos (term_pos hk hweight hr.1) (term_pos hk hweight hs.1)
  have honly : rrfScore k [(weight, dense), (weight, lexical)] b
      = (legTerms k b (weight, dense)).sum + (legTerms k b (weight, lexical)).sum := by
    simp [rrfScore]
  rw [hboth, honly]
  -- one of the two legs gives `b` nothing, the other at most one term
  rcases hb with habsent | habsent
  · rw [legTerms_of_absent weight habsent, List.sum_nil, zero_add]
    by_cases hpresent : ∃ t, RankedAt lexical b t
    · obtain ⟨t, ht⟩ := hpresent
      rw [legTerms_of_rankedAt hlexical ht, List.sum_singleton]
      exact terms_lt_of_ranks hk hweight hr.1 hs.1 (ht.pos hlexical).1 (by omega) (by omega)
    · rw [legTerms_of_absent weight (not_exists.mp hpresent), List.sum_nil]
      exact hnone
  · rw [legTerms_of_absent weight habsent, List.sum_nil, add_zero]
    by_cases hpresent : ∃ t, RankedAt dense b t
    · obtain ⟨t, ht⟩ := hpresent
      rw [legTerms_of_rankedAt hdense ht, List.sum_singleton]
      exact terms_lt_of_ranks hk hweight hr.1 hs.1 (ht.pos hdense).1 (by omega) (by omega)
    · rw [legTerms_of_absent weight (not_exists.mp hpresent), List.sum_nil]
      exact hnone

omit [IsStrictOrderedRing K] in
/-- A greater score comes first. -/
theorem MeetsFormula.precedes {fused : List (ScoredChunk K)}
    (h : MeetsFormula k lists weights fused) (ha : a ∈ lists.flatten.map hitId)
    (hlt : rrfScore k (weights.zip lists) b < rrfScore k (weights.zip lists) a) :
    Precedes fused a b where
  present := (h.ids a).mpr ha
  before i j s t hs ht hsa htb := by
    obtain ⟨hi, hsi⟩ := List.getElem?_eq_some_iff.mp hs
    obtain ⟨hj, htj⟩ := List.getElem?_eq_some_iff.mp ht
    have hscore : t.score < s.score := by
      rw [h.score s (List.mem_of_getElem? hs), h.score t (List.mem_of_getElem? ht), hsa, htb]
      exact hlt
    by_contra hle
    rcases (not_lt.mp hle).eq_or_lt with rfl | hji
    · rw [hs] at ht
      cases ht
      exact lt_irrefl _ hscore
    · have hsorted := List.pairwise_iff_getElem.mp h.sorted j i hj hi hji
      rw [hsi, htj] at hsorted
      exact absurd hscore (not_lt.mpr hsorted)

omit [Field K] [LinearOrder K] [IsStrictOrderedRing K] in
theorem exists_rankedAt {ranked : List (ScoredChunk K)} {id : String} :
    id ∈ ranked.map hitId ↔ ∃ rank, RankedAt ranked id rank := by
  rw [List.mem_map]
  constructor
  · rintro ⟨hit, hhit, hid⟩
    exact ⟨hit.rank, hit, hhit, hid, rfl⟩
  · rintro ⟨-, hit, hhit, hid, -⟩
    exact ⟨hit, hhit, hid⟩

omit [IsStrictOrderedRing K] in
theorem WellRanked.fuses (hk : 0 ≤ k) (hlists : ∀ ranked ∈ lists, WellRanked ranked)
    (hlength : weights.length = lists.length) :
    ∃ fused, reciprocalRankFusion lists k (some weights) = .ok fused
      ∧ MeetsFormula k lists weights fused :=
  reciprocalRankFusion_meets hk hlength fun ranked hranked _ hhit =>
    Int.lt_iff_add_one_le.mpr ((hlists ranked hranked).rank_pos hhit).1

/-- Consensus: with two legs of one weight and at most `k + 1` chunks each, a chunk of both comes
before a chunk of one. Dominance: with any legs and weights, a chunk no leg ranks below another and
some leg ranks above it comes before it. -/
theorem rrf_rewards (k : ℤ) (hk : 0 ≤ k) :
    (∀ (dense lexical : List (ScoredChunk K)) (weight : K), 0 < weight →
      WellRanked dense → WellRanked lexical →
      (dense.length : ℤ) ≤ k + 1 → (lexical.length : ℤ) ≤ k + 1 →
      ∃ fused, reciprocalRankFusion [dense, lexical] k (some [weight, weight]) = .ok fused
        ∧ ∀ a b, a ∈ dense.map hitId → a ∈ lexical.map hitId →
          (b ∈ dense.map hitId ↔ b ∉ lexical.map hitId) → Precedes fused a b)
    ∧ ∀ (lists : List (List (ScoredChunk K))) (weights : List K),
      (∀ ranked ∈ lists, WellRanked ranked) → weights.length = lists.length →
      (∀ weight ∈ weights, 0 < weight) →
      ∃ fused, reciprocalRankFusion lists k (some weights) = .ok fused
        ∧ ∀ a b, Dominates lists a b → Precedes fused a b := by
  constructor
  · intro dense lexical weight hweight hdense hlexical hdenseLength hlexicalLength
    have hlists : ∀ ranked ∈ [dense, lexical], WellRanked ranked := by
      intro ranked hranked
      rcases List.mem_pair.mp hranked with rfl | rfl
      · exact hdense
      · exact hlexical
    obtain ⟨fused, hfused, hmeets⟩ := @WellRanked.fuses K _ _ k _ [weight, weight] hk hlists rfl
    refine ⟨fused, hfused, ?_⟩
    intro a b hadense halexical hb
    obtain ⟨r, hr⟩ := exists_rankedAt.mp hadense
    obtain ⟨s, hs⟩ := exists_rankedAt.mp halexical
    refine hmeets.precedes (by simp [hadense]) ?_
    refine consensus_score_lt hk hweight hdense hlexical hdenseLength hlexicalLength hr hs ?_
    by_cases hbdense : b ∈ dense.map hitId
    · exact Or.inr fun t ht => hb.mp hbdense (exists_rankedAt.mpr ⟨t, ht⟩)
    · exact Or.inl fun t ht => hbdense (exists_rankedAt.mpr ⟨t, ht⟩)
  · intro lists weights hlists hlength hweights
    obtain ⟨fused, hfused, hmeets⟩ := WellRanked.fuses hk hlists hlength
    refine ⟨fused, hfused, ?_⟩
    intro a b hab
    obtain ⟨ranked, hranked, rank, ha, -⟩ := hab.better
    have hpresent : a ∈ lists.flatten.map hitId := by
      obtain ⟨hit, hhit, hid, -⟩ := ha
      exact List.mem_map.mpr ⟨hit, List.mem_flatten.mpr ⟨ranked, hranked, hhit⟩, hid⟩
    exact hmeets.precedes hpresent (hab.score_lt hk hlists hlength hweights)

end Sums

/-- Two legs of two chunks: "b" is in both, and "a" is ahead of "c" in the first. -/
theorem rrf_rewards_both : ∃ fused,
    reciprocalRankFusion [[hitAt "a" 1, hitAt "b" 2], [hitAt "c" 1, hitAt "b" 2]] 1 (some [1, 1])
        = .ok fused
      ∧ Precedes fused "b" "a" ∧ Precedes fused "b" "c" := by
  have hranked : ∀ id : String, id ≠ "b" → WellRanked [hitAt id 1, hitAt "b" 2] := by
    intro id hid
    refine ⟨by simpa [hitId, hitAt] using hid, ?_⟩
    intro i hit hhit
    obtain ⟨hi, rfl⟩ := List.getElem?_eq_some_iff.mp hhit
    change i < 2 at hi
    obtain rfl | rfl : i = 0 ∨ i = 1 := by omega
    · rfl
    · rfl
  obtain ⟨fused, hfused, hprecedes⟩ := (rrf_rewards (K := ℚ) 1 (by decide)).1
    [hitAt "a" 1, hitAt "b" 2] [hitAt "c" 1, hitAt "b" 2] 1 (by norm_num) (hranked "a" (by decide))
    (hranked "c" (by decide)) (by decide) (by decide)
  exact ⟨fused, hfused, hprecedes "b" "a" (by decide) (by decide) (by decide),
    hprecedes "b" "c" (by decide) (by decide) (by decide)⟩

end Rag
