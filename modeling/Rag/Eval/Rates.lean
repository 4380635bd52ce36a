import Rag.Eval.Runner
import Rag.Lib.Discount
import Rag.Retrieval.Visibility

/-!
When the metrics of retrieval are rates.

Recall and the reciprocal rank always are. The gain of nDCG counts positions, but the ideal gain it
is divided by counts the relevant ids, so an id that is retrieved twice can be counted twice. How
the relevant positions behind the ideal ones compare with the ideal ones that are not relevant
decides whether nDCG is a rate; if no relevant id occurs twice it is. Scores that are rates have
averages that are.
-/

namespace Rag

open Py Interaction Discount

/-- A relevant id stands at this position, counted from zero. -/
def RelevantAt (retrieved relevant : List String) (i : ℕ) : Prop :=
  ∃ id ∈ retrieved[i]?, id ∈ relevant

instance (retrieved relevant : List String) (i : ℕ) : Decidable (RelevantAt retrieved relevant i) :=
  inferInstanceAs (Decidable (∃ id ∈ retrieved[i]?, id ∈ relevant))

/-- The positions of the top `k` that are relevant. -/
def hitsAt (retrieved relevant : List String) (k : ℕ) : Finset ℕ :=
  (Finset.range k).filter fun i => RelevantAt retrieved relevant i

/-- How many positions an ideal ranking fills. -/
def idealHits (relevant : List String) (k : ℤ) : ℕ :=
  (min (relevant.toFinset.card : ℤ) k).toNat

section Positions

variable {retrieved relevant : List String} {k : ℤ}

theorem relevantAt_zero {id : String} {rest : List String} :
    RelevantAt (id :: rest) relevant 0 ↔ id ∈ relevant := by
  simp [RelevantAt]

theorem relevantAt_succ {id : String} {rest : List String} {i : ℕ} :
    RelevantAt (id :: rest) relevant (i + 1) ↔ RelevantAt rest relevant i := by
  simp [RelevantAt]

theorem sliceTo_of_nonneg {α : Type} {n : ℕ} (xs : List α) : sliceTo (n : ℤ) xs = xs.take n := by
  rw [sliceTo, sliceBound, if_pos (Int.natCast_nonneg n), Int.toNat_natCast]
  apply List.take_eq_take_iff.mpr
  omega

theorem mem_hitsAt {n i : ℕ} :
    i ∈ hitsAt retrieved relevant n ↔ i < n ∧ RelevantAt retrieved relevant i := by
  rw [hitsAt, Finset.mem_filter, Finset.mem_range]

theorem RelevantAt.lt_length {i : ℕ} (h : RelevantAt retrieved relevant i) :
    i < retrieved.length := by
  obtain ⟨id, hid, -⟩ := h
  exact (List.getElem?_eq_some_iff.mp hid).1

theorem hitsAt_nil (n : ℕ) : hitsAt [] relevant n = ∅ := by
  simp [hitsAt, RelevantAt]

/-- The first position and the ones behind it. -/
theorem sum_hitsAt_cons {M : Type} [AddCommMonoid M] (f : ℕ → M) (id : String)
    (rest : List String) (n : ℕ) :
    ∑ i ∈ hitsAt (id :: rest) relevant (n + 1), f i
      = (∑ i ∈ hitsAt rest relevant n, f (i + 1)) + if id ∈ relevant then f 0 else 0 := by
  rw [hitsAt, hitsAt, Finset.sum_filter, Finset.sum_filter, Finset.sum_range_succ']
  simp only [relevantAt_succ, relevantAt_zero]

theorem card_hitsAt (n : ℕ) : (hitsAt retrieved relevant n).card
    = ((retrieved.take n).filter (· ∈ relevant)).length := by
  induction retrieved generalizing n with
  | nil => simp [hitsAt_nil]
  | cons id rest ih =>
      cases n with
      | zero => simp [hitsAt]
      | succ n =>
          rw [Finset.card_eq_sum_ones, sum_hitsAt_cons, ← Finset.card_eq_sum_ones, ih,
            List.take_succ_cons, List.filter_cons]
          by_cases hid : id ∈ relevant
          · simp [hid]
          · simp [hid]

/-- Distinct relevant ids stand at no more positions than an ideal ranking fills. -/
theorem card_hitsAt_le {n : ℕ} (h : ((retrieved.take n).filter (· ∈ relevant)).Nodup) :
    (hitsAt retrieved relevant n).card ≤ idealHits relevant n := by
  have hrange : (hitsAt retrieved relevant n).card ≤ n := by
    have hle := Finset.card_filter_le (Finset.range n) fun i => RelevantAt retrieved relevant i
    rwa [Finset.card_range] at hle
  have hids : (hitsAt retrieved relevant n).card ≤ relevant.toFinset.card := by
    rw [card_hitsAt, ← List.toFinset_card_of_nodup h]
    apply Finset.card_le_card
    intro id hid
    rw [List.mem_toFinset] at hid ⊢
    have hrelevant := (List.mem_filter.mp hid).2
    simpa using hrelevant
  rw [idealHits]
  omega

end Positions

section Metrics

variable {retrieved relevant : List String} {k : ℤ}

theorem log2_pos {x : ℝ} (hx : 1 < x) : 0 < log2 x :=
  div_pos (Real.log_pos hx) (Real.log_pos (by norm_num))

theorem log2_lt_log2 {x y : ℝ} (hx : 0 < x) (h : x < y) : log2 x < log2 y :=
  div_lt_div_of_pos_right (Real.log_lt_log hx h) (Real.log_pos (by norm_num))

theorem discount_pos (i : ℕ) : (0 : ℝ) < discount (i + 1) := by
  apply one_div_pos.mpr
  apply log2_pos
  push_cast
  linarith [(Nat.cast_nonneg i : (0 : ℝ) ≤ i)]

theorem discount_strictAnti : StrictAnti fun i : ℕ => (discount (i + 1) : ℝ) := by
  intro i j hij
  have hcast : (i : ℝ) < j := Nat.cast_lt.mpr hij
  apply one_div_lt_one_div_of_lt
  · apply log2_pos
    push_cast
    linarith [(Nat.cast_nonneg i : (0 : ℝ) ≤ i)]
  · apply log2_lt_log2
    · positivity
    · push_cast
      linarith

/-- The share of a set that lies in another. -/
theorem share_mem {α : Type} [DecidableEq α] (s t : Finset α) :
    ((s ∩ t).card : ℝ) / s.card ∈ Set.Icc (0 : ℝ) 1 := by
  constructor
  · positivity
  · apply div_le_one_of_le₀
    · exact_mod_cast Finset.card_le_card Finset.inter_subset_left
    · positivity

theorem recallAtK_mem (retrieved relevant : List String) (k : ℤ) :
    recallAtK retrieved relevant k ∈ Set.Icc (0 : ℝ) 1 := by
  unfold recallAtK
  extract_lets top hits
  split_ifs
  · exact ⟨le_refl 0, zero_le_one⟩
  · have hshare := share_mem relevant.toFinset top
    rwa [Finset.inter_comm] at hshare

theorem recallAtK_mono {k' : ℤ} (hk : 0 ≤ k) (h : k ≤ k') :
    (recallAtK retrieved relevant k : ℝ) ≤ recallAtK retrieved relevant k' := by
  obtain ⟨n, rfl⟩ := Int.eq_ofNat_of_zero_le hk
  obtain ⟨n', rfl⟩ := Int.eq_ofNat_of_zero_le (hk.trans h)
  have hle : n ≤ n' := by omega
  rw [recallAtK, recallAtK, sliceTo_of_nonneg, sliceTo_of_nonneg]
  dsimp only
  split_ifs
  · exact le_refl 0
  · apply div_le_div_of_nonneg_right
    · apply Nat.cast_le.mpr
      apply Finset.card_le_card
      apply Finset.inter_subset_inter_right
      intro id hid
      rw [List.mem_toFinset] at hid ⊢
      exact (List.take_prefix_take_left hle).subset hid
    · positivity

theorem mrrFrom_mem (relevant : Finset String) {i : ℕ} (hi : 1 ≤ i) (retrieved : List String) :
    mrrFrom relevant i retrieved ∈ Set.Icc (0 : ℝ) 1 := by
  induction retrieved generalizing i with
  | nil => exact ⟨le_refl 0, zero_le_one⟩
  | cons rid rest ih =>
      rw [mrrFrom]
      split_ifs
      · constructor
        · positivity
        · apply div_le_one_of_le₀
          · exact_mod_cast hi
          · positivity
      · exact ih (Nat.le_add_left 1 i)

theorem mrr_mem (retrieved relevant : List String) :
    mrr retrieved relevant ∈ Set.Icc (0 : ℝ) 1 :=
  mrrFrom_mem _ (le_refl 1) retrieved

/-- The loop adds the discounts of the relevant positions. -/
theorem foldl_gain (retrieved relevant : List String) (n start : ℕ) (gain : ℝ) :
    ((retrieved.take n).zipIdx start).foldl
        (fun dcg (rid, i) => if rid ∈ relevant.toFinset then dcg + discount i else dcg) gain
      = gain + ∑ i ∈ hitsAt retrieved relevant n, discount (start + i) := by
  induction retrieved generalizing n start gain with
  | nil => simp [hitsAt_nil]
  | cons id rest ih =>
      cases n with
      | zero => simp [hitsAt]
      | succ n =>
          rw [List.take_succ_cons, List.zipIdx_cons, List.foldl_cons, ih, sum_hitsAt_cons]
          simp only [List.mem_toFinset, Nat.add_zero, Nat.add_assoc, Nat.add_comm 1]
          split_ifs
          · ring
          · ring

theorem dcg_take (n : ℕ) (retrieved relevant : List String) :
    (dcg relevant.toFinset (retrieved.take n) : ℝ)
      = ∑ i ∈ hitsAt retrieved relevant n, discount (i + 1) := by
  rw [dcg, foldl_gain, zero_add]
  simp only [Nat.add_comm 1]

theorem idcg_eq (m : ℕ) :
    ((List.range' 1 m).map discount).sum = ∑ i ∈ Finset.range m, (discount (i + 1) : ℝ) := by
  induction m with
  | zero => rfl
  | succ m ih =>
      rw [List.range'_1_concat, List.map_append, List.sum_append, ih, Finset.sum_range_succ,
        Nat.add_comm 1 m]
      simp

/-- With relevant ids and a `k` there is an ideal gain to divide by. -/
theorem ndcgAtK_eq {n : ℕ} (hne : relevant ≠ []) (hn : 1 ≤ n) :
    0 < ∑ i ∈ Finset.range (idealHits relevant n), (discount (i + 1) : ℝ)
      ∧ (ndcgAtK retrieved relevant n : ℝ) = (∑ i ∈ hitsAt retrieved relevant n, discount (i + 1))
          / ∑ i ∈ Finset.range (idealHits relevant n), discount (i + 1) := by
  have hsome : relevant.toFinset ≠ ∅ := by
    rw [ne_eq, List.toFinset_eq_empty_iff]
    exact hne
  have hcard : 0 < relevant.toFinset.card :=
    Finset.card_pos.mpr (Finset.nonempty_iff_ne_empty.mpr hsome)
  have hideal : 0 < ∑ i ∈ Finset.range (idealHits relevant n), (discount (i + 1) : ℝ) := by
    apply Finset.sum_pos
    · intro i _
      exact discount_pos i
    · rw [Finset.nonempty_range_iff, idealHits]
      omega
  constructor
  · exact hideal
  · unfold ndcgAtK
    extract_lets wanted gain ideal idcg
    have hidcg : idcg = ∑ i ∈ Finset.range (idealHits relevant n), (discount (i + 1) : ℝ) :=
      idcg_eq (idealHits relevant n)
    have hgain : gain = ∑ i ∈ hitsAt retrieved relevant n, (discount (i + 1) : ℝ) := by
      simp only [gain, wanted]
      rw [sliceTo_of_nonneg, dcg_take]
    rw [if_neg hsome, if_neg (by rw [hidcg]; exact hideal.ne'), hgain, hidcg]

theorem ndcgAtK_nil_mem (retrieved : List String) (k : ℤ) :
    ndcgAtK retrieved [] k ∈ Set.Icc (0 : ℝ) 1 := by
  have hnone : (ndcgAtK retrieved [] k : ℝ) = 0 := by simp [ndcgAtK]
  rw [hnone]
  exact ⟨le_refl 0, zero_le_one⟩

end Metrics

/-- The relevant positions behind the ideal ones, if any, weigh less than the ideal ones that are
not relevant. -/
def OutweighedAt (retrieved relevant : List String) (k : ℤ) : Prop :=
  Outweighed (fun i => (discount (i + 1) : ℝ)) (idealHits relevant k)
    (hitsAt retrieved relevant k.toNat)

/-- So it is in the whole list, where no `k` cuts anything off. -/
def RepeatsOutweighed (retrieved relevant : List String) : Prop :=
  OutweighedAt retrieved relevant retrieved.length

/-- The metrics of retrieval are proper rates. -/
structure ProperRates (retrieved relevant : List String) (k : ℤ) : Prop where
  recall_mem : recallAtK retrieved relevant k ∈ Set.Icc (0 : ℝ) 1
  recall_mono : ∀ k', k ≤ k' →
    (recallAtK retrieved relevant k : ℝ) ≤ recallAtK retrieved relevant k'
  mrr_mem : mrr retrieved relevant ∈ Set.Icc (0 : ℝ) 1
  ndcg_mem : ndcgAtK retrieved relevant k ∈ Set.Icc (0 : ℝ) 1
  ndcg_eq_one_iff : (ndcgAtK retrieved relevant k : ℝ) = 1
    ↔ ∀ i < idealHits relevant k, RelevantAt retrieved relevant i

section Rates

variable {retrieved relevant : List String} {k : ℤ}

theorem range_subset_hitsAt {n : ℕ} :
    Finset.range (idealHits relevant n) ⊆ hitsAt retrieved relevant n
      ↔ ∀ i < idealHits relevant n, RelevantAt retrieved relevant i := by
  constructor
  · intro h i hi
    exact (Finset.mem_filter.mp (h (Finset.mem_range.mpr hi))).2
  · intro h i hi
    have hlt := Finset.mem_range.mp hi
    apply Finset.mem_filter.mpr
    constructor
    · rw [Finset.mem_range]
      rw [idealHits] at hlt
      omega
    · exact h i hlt

theorem properRates_iff (hne : relevant ≠ []) (hk : 1 ≤ k) :
    ProperRates retrieved relevant k ↔ OutweighedAt retrieved relevant k := by
  obtain ⟨n, rfl⟩ := Int.eq_ofNat_of_zero_le (show 0 ≤ k by omega)
  obtain ⟨hideal, hndcg⟩ := @ndcgAtK_eq retrieved relevant n hne (by omega)
  rw [OutweighedAt, Int.toNat_natCast, ← sum_le_and_eq_iff discount_pos, range_subset_hitsAt,
    ← div_le_one hideal, ← div_eq_one_iff_eq hideal.ne', ← hndcg]
  constructor
  · intro h
    exact ⟨h.ndcg_mem.2, h.ndcg_eq_one_iff⟩
  · intro h
    constructor
    · exact recallAtK_mem _ _ _
    · intro k' hle
      exact recallAtK_mono (by omega) hle
    · exact mrr_mem _ _
    · constructor
      · rw [hndcg]
        apply div_nonneg _ hideal.le
        apply Finset.sum_nonneg
        intro i _
        exact (discount_pos i).le
      · exact h.1
    · exact h.2

/-- What is behind the ideal positions only grows with `k`, and the whole list has all of it. -/
theorem outweighedAt_of_length (hk : 0 ≤ k) (h : RepeatsOutweighed retrieved relevant) :
    OutweighedAt retrieved relevant k := by
  obtain ⟨n, rfl⟩ := Int.eq_ofNat_of_zero_le hk
  rw [RepeatsOutweighed, OutweighedAt, Int.toNat_natCast] at h
  rw [OutweighedAt, Int.toNat_natCast]
  by_cases hwithin : n ≤ relevant.toFinset.card ∨ retrieved.length ≤ relevant.toFinset.card
  · apply outweighed_of_subset_range
    intro i hi
    obtain ⟨hlt, hrelevant⟩ := mem_hitsAt.mp hi
    have hlength := hrelevant.lt_length
    rw [Finset.mem_range, idealHits]
    omega
  · have hideal : idealHits relevant n = idealHits relevant retrieved.length := by
      rw [idealHits, idealHits]
      omega
    rw [hideal]
    apply h.subset discount_pos
    · intro i hi
      obtain ⟨-, hrelevant⟩ := mem_hitsAt.mp hi
      exact mem_hitsAt.mpr ⟨hrelevant.lt_length, hrelevant⟩
    · ext i
      rw [Finset.mem_sdiff, Finset.mem_sdiff, mem_hitsAt, mem_hitsAt, Finset.mem_range]
      apply and_congr_right
      intro hi
      rw [idealHits] at hi
      have hbefore : i < n := by omega
      have hwhole : i < retrieved.length := by omega
      rw [and_iff_right hbefore, and_iff_right hwhole]

theorem forall_properRates_iff (hne : relevant ≠ []) :
    (∀ k : ℤ, 1 ≤ k → ProperRates retrieved relevant k) ↔ RepeatsOutweighed retrieved relevant := by
  constructor
  · intro h
    by_cases hlength : 1 ≤ (retrieved.length : ℤ)
    · exact (properRates_iff hne hlength).mp (h _ hlength)
    · apply outweighed_of_subset_range
      intro i hi
      have hlt := (mem_hitsAt.mp hi).1
      omega
  · intro h k hk
    exact (properRates_iff hne hk).mpr (outweighedAt_of_length (by omega) h)

/-- Relevant ids that are retrieved once are scored by proper rates. -/
theorem repeatsOutweighed_of_nodup (h : (retrieved.filter (· ∈ relevant)).Nodup) :
    RepeatsOutweighed retrieved relevant := by
  apply outweighed_of_card_le discount_pos discount_strictAnti
  apply card_hitsAt_le
  rwa [Int.toNat_natCast, List.take_length]

end Rates

/-- Every averaged field is a rate. -/
structure EvalReport.InRange (report : EvalReport ℝ) : Prop where
  recallAt5 : report.recallAt5 ∈ Set.Icc (0 : ℝ) 1
  recallAt10 : report.recallAt10 ∈ Set.Icc (0 : ℝ) 1
  mrr : report.mrr ∈ Set.Icc (0 : ℝ) 1
  ndcgAt10 : report.ndcgAt10 ∈ Set.Icc (0 : ℝ) 1
  faithfulness : report.faithfulness ∈ Set.Icc (0 : ℝ) 1
  answerRelevance : report.answerRelevance ∈ Set.Icc (0 : ℝ) 1
  refusalRate : report.refusalRate ∈ Set.Icc (0 : ℝ) 1

section Reports

theorem mean_mem {score : EvalCaseResult ℝ → ℝ} {cases : List (EvalCaseResult ℝ)}
    (h : ∀ c ∈ cases, score c ∈ Set.Icc (0 : ℝ) 1) : mean score cases ∈ Set.Icc (0 : ℝ) 1 := by
  have hsum : (cases.map score).sum ∈ Set.Icc (0 : ℝ) cases.length := by
    induction cases with
    | nil => simp
    | cons c cases ih =>
        obtain ⟨hc, hrest⟩ := List.forall_mem_cons.mp h
        have hlater := ih hrest
        rw [List.map_cons, List.sum_cons, List.length_cons]
        push_cast
        constructor
        · linarith [hc.1, hlater.1]
        · linarith [hc.2, hlater.2]
  rw [mean]
  constructor
  · apply div_nonneg hsum.1
    exact Nat.cast_nonneg _
  · apply div_le_one_of_le₀ _ (Nat.cast_nonneg _)
    split_ifs with hnone
    · rw [hnone]
      simp
    · exact hsum.2

variable [Runtime]

theorem faithfulness_mem (answer : String) (contexts : List String) :
    faithfulness answer contexts ∈ Set.Icc (0 : ℝ) 1 := by
  unfold faithfulness
  extract_lets answerTokens ctxTokens
  split_ifs
  · exact ⟨le_refl 0, zero_le_one⟩
  · exact ⟨le_refl 0, zero_le_one⟩
  · exact share_mem _ _

theorem answerRelevance_mem (answer question : String) :
    answerRelevance answer question ∈ Set.Icc (0 : ℝ) 1 := by
  unfold answerRelevance
  extract_lets a q
  split_ifs
  · exact ⟨le_refl 0, zero_le_one⟩
  · exact ⟨le_refl 0, zero_le_one⟩
  · have hshare := share_mem q a
    rwa [Finset.inter_comm] at hshare

/-- An example with what the callables returned for it. -/
structure ServedExample where
  ex : GoldenExample
  found : QueryResult
  answer : Answer

namespace ServedExample

variable (s : ServedExample)

/-- The ids of what was retrieved. -/
def ids : List String := s.ex.retrieved s.found

/-- The calls of the runner. -/
def events : List (Event EvalOp EvalResp) :=
  [⟨.retrieve s.ex.question, .ok s.found⟩, ⟨.generate s.ex.question s.found, .ok s.answer⟩]

noncomputable def case : EvalCaseResult ℝ := EvalRunner.evalCase s.ex s.found s.answer

end ServedExample

/-- A run that returns has made its two calls for every example. -/
theorem runCases_served {examples : List GoldenExample} {t : List (Event EvalOp EvalResp)}
    {cases : List (EvalCaseResult ℝ)} (h : Prog.Runs (EvalRunner.runCases examples) t (.ok cases)) :
    ∃ served : List ServedExample, served.map ServedExample.ex = examples
      ∧ t = served.flatMap ServedExample.events ∧ cases = served.map ServedExample.case := by
  induction examples generalizing t cases with
  | nil =>
      obtain ⟨rfl, hcases⟩ := (Prog.runs_ret_iff _ _ _).mp h
      cases hcases
      exact ⟨[], rfl, rfl, rfl⟩
  | cons ex rest ih =>
      obtain ⟨found, u, rfl, hfound⟩ := (Prog.runs_perform_bind_iff _ _ _ _).mp h
      cases found with
      | error exn =>
          obtain ⟨-, hfails⟩ := (Prog.runs_ret_iff _ _ _).mp hfound
          cases hfails
      | ok found =>
          obtain ⟨answer, v, rfl, hanswer⟩ := (Prog.runs_perform_bind_iff _ _ _ _).mp hfound
          cases answer with
          | error exn =>
              obtain ⟨-, hfails⟩ := (Prog.runs_ret_iff _ _ _).mp hanswer
              cases hfails
          | ok answer =>
              obtain ⟨u, tail, w, htail, hw, rfl⟩ := (Prog.runs_bind_iff _ _ _ _).mp hanswer
              obtain ⟨rfl, hmap⟩ := (Prog.runs_ret_iff _ _ _).mp hw
              cases tail with
              | error exn => cases hmap
              | ok later =>
                  cases hmap
                  obtain ⟨served, hexamples, hevents, hcases⟩ := ih htail
                  refine ⟨⟨ex, found, answer⟩ :: served, ?_, ?_, ?_⟩
                  · rw [List.map_cons, hexamples]
                  · rw [List.flatMap_cons, ← hevents, List.append_nil]
                    rfl
                  · rw [List.map_cons, ← hcases]
                    rfl

omit [Runtime] in
/-- The calls tell what was served. -/
theorem served_unique {served served' : List ServedExample}
    (hexamples : served.map ServedExample.ex = served'.map ServedExample.ex)
    (hevents : served.flatMap ServedExample.events = served'.flatMap ServedExample.events) :
    served = served' := by
  induction served generalizing served' with
  | nil =>
      rw [List.map_nil, eq_comm, List.map_eq_nil_iff] at hexamples
      exact hexamples.symm
  | cons s served ih =>
      cases served' with
      | nil => cases hexamples
      | cons s' served' =>
          obtain ⟨hex, hrest⟩ := List.cons.inj hexamples
          obtain ⟨hretrieve, hafter⟩ := List.cons.inj hevents
          obtain ⟨hgenerate, hlater⟩ := List.cons.inj hafter
          obtain ⟨ex, found, answer⟩ := s
          obtain ⟨ex', found', answer'⟩ := s'
          cases hex
          cases hretrieve
          cases hgenerate
          rw [ih hrest hlater]

/-- Only nDCG needs a condition. -/
theorem fromCases_inRange {served : List ServedExample}
    (h : ∀ s ∈ served, ndcgAtK s.ids s.ex.relevant 10 ∈ Set.Icc (0 : ℝ) 1) :
    (EvalReport.fromCases (served.map ServedExample.case)).InRange := by
  constructor
  all_goals
    apply mean_mem
    rw [List.forall_mem_map]
    intro s hs
  · exact recallAtK_mem _ _ _
  · exact recallAtK_mem _ _ _
  · exact mrr_mem _ _
  · exact h s hs
  · exact faithfulness_mem _ _
  · exact answerRelevance_mem _ _
  · split_ifs
    · exact ⟨zero_le_one, le_refl 1⟩
    · exact ⟨le_refl 0, zero_le_one⟩

/-- The scores of a run are proper rates, and its averages rates, exactly when for every example the
relevant ids retrieved behind the ideal positions are outweighed by the ideal positions without. -/
theorem rates_proper_iff {examples : List GoldenExample} {t : List (Event EvalOp EvalResp)}
    {report : EvalReport ℝ} (h : Prog.Runs (EvalRunner.run examples) t (.ok report)) :
    ∃ served : List ServedExample, served.map ServedExample.ex = examples
      ∧ t = served.flatMap ServedExample.events
      ∧ ((∀ s ∈ served, s.ex.relevant ≠ [] → ∀ k : ℤ, 1 ≤ k → ProperRates s.ids s.ex.relevant k)
          ∧ report.InRange
        ↔ ∀ s ∈ served, s.ex.relevant ≠ [] → RepeatsOutweighed s.ids s.ex.relevant) := by
  obtain ⟨u, cases, v, hcases, hreport, rfl⟩ := (Prog.runs_bind_iff _ _ _ _).mp h
  obtain ⟨rfl, hmap⟩ := (Prog.runs_ret_iff _ _ _).mp hreport
  cases cases with
  | error exn => cases hmap
  | ok cases =>
      cases hmap
      obtain ⟨served, hexamples, rfl, rfl⟩ := runCases_served hcases
      refine ⟨served, hexamples, List.append_nil _, ?_⟩
      constructor
      · intro hproper s hs hne
        exact (forall_properRates_iff hne).mp (hproper.1 s hs hne)
      · intro houtweighed
        have hproper : ∀ s ∈ served, s.ex.relevant ≠ [] →
            ∀ k : ℤ, 1 ≤ k → ProperRates s.ids s.ex.relevant k :=
          fun s hs hne => (forall_properRates_iff hne).mpr (houtweighed s hs hne)
        constructor
        · exact hproper
        · apply fromCases_inRange
          intro s hs
          by_cases hnone : s.ex.relevant = []
          · rw [hnone]
            exact ndcgAtK_nil_mem _ _
          · exact (hproper s hs hnone 10 (by omega)).ndcg_mem

end Reports

section Examples

def chunkOfA (ordinal : ℤ) : ScoredChunk ℚ where
  chunk := {
    chunkId := "a" ++ toString ordinal
    docId := "a"
    ordinal := ordinal
    text := "t"
    span := (0, 1)
    acl := { tenant := "default" }
    indexVersion := "v1" }
  score := 1
  rank := 1
  retriever := .dense

/-- An example with the given chunks retrieved for it. -/
def servedWith (ex : GoldenExample) (results : List (ScoredChunk ℚ)) : ServedExample where
  ex := ex
  found := {
    query := ex.question
    rewritten := []
    results := results
    indexVersion := "v1"
    traceId := "" }
  answer := { text := "t" }

theorem runs_servedWith [Runtime] (ex : GoldenExample) (results : List (ScoredChunk ℚ)) :
    Prog.Runs (EvalRunner.run [ex]) (servedWith ex results).events
      (.ok (EvalReport.fromCases [(servedWith ex results).case])) :=
  .step _ (.step _ (.refl _))

/-- Retrieved once, the one relevant document makes a report of rates. -/
theorem rates_proper_iff_once :
    let _ := Runtime.ascii
    ∃ ex : GoldenExample, ex.relevant = ["a"]
      ∧ (EvalReport.fromCases [(servedWith ex [chunkOfA 0]).case]).InRange := by
  intro _
  let ex : GoldenExample := { id := "g1", question := "q", relevantDocIds := ["a"] }
  refine ⟨ex, by decide, ?_⟩
  obtain ⟨served, hexamples, hevents, hiff⟩ := rates_proper_iff (runs_servedWith ex [chunkOfA 0])
  have honce : served = [servedWith ex [chunkOfA 0]] := served_unique hexamples hevents.symm
  rw [honce] at hiff
  apply (hiff.mpr _).2
  intro s hs _
  rw [List.mem_singleton.mp hs]
  apply repeatsOutweighed_of_nodup
  decide

/-- Two chunks of the one relevant document gain more than the ideal ranking. -/
theorem ndcg_above_one :
    ¬ ∀ (_ : Runtime) (examples : List GoldenExample) (t : List (Event EvalOp EvalResp))
      (report : EvalReport ℝ), Prog.Runs (EvalRunner.run examples) t (.ok report) →
      ∃ served : List ServedExample, served.map ServedExample.ex = examples
        ∧ t = served.flatMap ServedExample.events
        ∧ (∀ s ∈ served, s.ex.relevant ≠ [] → ∀ k : ℤ, 1 ≤ k → ProperRates s.ids s.ex.relevant k)
        ∧ report.InRange := by
  intro h
  let _ := Runtime.ascii
  let ex : GoldenExample := { id := "g1", question := "q", relevantDocIds := ["a"] }
  obtain ⟨served, hexamples, hevents, hproper, -⟩ := h Runtime.ascii [ex] _ _
    (runs_servedWith ex [chunkOfA 0, chunkOfA 1])
  have htwice : served = [servedWith ex [chunkOfA 0, chunkOfA 1]] :=
    served_unique hexamples hevents.symm
  rw [htwice] at hproper
  have hrates : ProperRates ["a", "a"] ["a"] (2 : ℕ) :=
    hproper _ List.mem_cons_self (by decide) 2 (by decide)
  obtain ⟨hideal, hndcg⟩ := @ndcgAtK_eq ["a", "a"] ["a"] 2 (by decide) (by decide)
  have hhits : hitsAt ["a", "a"] ["a"] 2 = Finset.range 2 := by decide
  have hplaces : idealHits ["a"] (2 : ℕ) = 1 := by decide
  have hle := hrates.ndcg_mem.2
  rw [hplaces] at hideal
  rw [hndcg, hhits, hplaces, div_le_one hideal, Finset.sum_range_succ] at hle
  linarith [discount_pos 1]

end Examples

end Rag
