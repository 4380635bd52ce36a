import Rag.Lexical.Counters
import Rag.Retrieval.Visibility

/-!
The statistics of the BM25 index do not depend on how its content came about.

`Counted` is kept by every call, and no call raises (`history_returns`). So the tables are
functions of the stored chunks, and so are the scores: over the reals a candidate is a visible
chunk that shares a term with the query, and its score is `corpusScore`, which reads the stored
chunks in no order.
-/

namespace Rag

open Py

section History

variable [Runtime]

/-- In how many of the chunks the term occurs. -/
def holding (chunks : List Chunk) (term : String) : Nat :=
  chunks.countP fun c => term ∈ tokenize c.text

theorem holding_cons (chunk : Chunk) (chunks : List Chunk) (term : String) :
    holding (chunk :: chunks) term
      = holding chunks term + (Counter.of (tokenize chunk.text)).keys.count term := by
  rw [holding, List.countP_cons, Counter.count_keys_of, holding]
  simp

theorem holding_perm {chunks chunks' : List Chunk} (h : chunks.Perm chunks') (term : String) :
    holding chunks term = holding chunks' term :=
  h.countP_eq _

/-- The tables are those of the stored chunks. -/
structure Counted {K : Type} (t : CountedTables K) : Prop where
  tf_eq : t.tf = t.chunks.mapValues fun c => Counter.of (tokenize c.text)
  docLen_eq : t.docLen = t.chunks.mapValues docLength
  df_counts : Counter.Counts t.df (holding t.chunks.values)

section Steps

variable {K : Type} {t : CountedTables K}

theorem getItem_of_get? {ν : Type} {d : Dict String ν} {key : String} {value : ν}
    (h : d.get? key = some value) : getItem d key = .ok value := by
  rw [getItem, h]

theorem delItem_of_get? {ν : Type} {d : Dict String ν} {key : String} {value : ν}
    (h : d.get? key = some value) : delItem d key = .ok (d.erase key) := by
  rw [delItem, h]

theorem Counted.tf_get? (h : Counted t) {chunkId : String} {chunk : Chunk}
    (hget : t.chunks.get? chunkId = some chunk) :
    t.tf.get? chunkId = some (Counter.of (tokenize chunk.text)) := by
  rw [h.tf_eq, Dict.get?_mapValues, hget]
  rfl

theorem Counted.docLen_get? (h : Counted t) {chunkId : String} {chunk : Chunk}
    (hget : t.chunks.get? chunkId = some chunk) :
    t.docLen.get? chunkId = some (docLength chunk) := by
  rw [h.docLen_eq, Dict.get?_mapValues, hget]
  rfl

/-- Taking the terms of a stored chunk out leaves the counts of the others. -/
theorem Counted.removeStats (h : Counted t) {chunkId : String} {chunk : Chunk}
    (hget : t.chunks.get? chunkId = some chunk) :
    ∃ df, t.removeStats chunkId = .ok { t with df := df }
      ∧ Counter.Counts df (holding (t.chunks.erase chunkId).values) := by
  refine ⟨_, ?_, (h.df_counts.foldl_release (Counter.of (tokenize chunk.text)).keys).congr ?_⟩
  · rw [CountedTables.removeStats, getItem_of_get? (h.tf_get? hget)]
    rfl
  · intro term
    rw [holding_perm (Dict.values_perm_of_get? hget), holding_cons, Nat.add_sub_cancel]

/-- Putting a chunk in after its old version has been taken out. -/
theorem put_counts {df : Counter} {chunks : Dict String Chunk} (chunk : Chunk)
    (hdf : Counter.Counts df (holding (chunks.erase chunk.chunkId).values)) :
    Counter.Counts ((Counter.of (tokenize chunk.text)).keys.foldl (Counter.add 1) df)
      (holding (chunks.set chunk.chunkId chunk).values) := by
  refine (hdf.foldl_add _).congr ?_
  intro term
  rw [holding_perm (Dict.values_set_perm chunks chunk.chunkId chunk), holding_cons]

theorem Counted.put (h : Counted t) (chunk : Chunk) :
    ∃ t', t.put chunk = .ok t' ∧ t'.chunks = t.chunks.set chunk.chunkId chunk ∧ Counted t' := by
  have hput : ∃ df, t.put chunk = .ok {
      chunks := t.chunks.set chunk.chunkId chunk
      tf := t.tf.set chunk.chunkId (Counter.of (tokenize chunk.text))
      docLen := t.docLen.set chunk.chunkId (tokenize chunk.text).length
      df := (Counter.of (tokenize chunk.text)).keys.foldl (Counter.add 1) df
      avgdl := t.avgdl }
      ∧ Counter.Counts df (holding (t.chunks.erase chunk.chunkId).values) := by
    cases hget : t.chunks.get? chunk.chunkId with
    | none =>
        refine ⟨t.df, ?_, ?_⟩
        · rw [CountedTables.put, hget]
          rfl
        · rw [Dict.erase_of_get?_none hget]
          exact h.df_counts
    | some old =>
        obtain ⟨df, hremoved, hdf⟩ := h.removeStats hget
        refine ⟨df, ?_, hdf⟩
        rw [CountedTables.put, hget, hremoved]
        rfl
  obtain ⟨df, hput, hdf⟩ := hput
  refine ⟨_, hput, rfl, ?_, ?_, put_counts chunk hdf⟩
  · rw [Dict.set_mapValues, ← h.tf_eq]
  · rw [Dict.set_mapValues, ← h.docLen_eq]
    rfl

theorem Counted.drop (h : Counted t) (chunkId : String) :
    ∃ t', t.drop chunkId = .ok t' ∧ t'.chunks = t.chunks.erase chunkId ∧ Counted t' := by
  cases hget : t.chunks.get? chunkId with
  | none =>
      refine ⟨t, ?_, (Dict.erase_of_get?_none hget).symm, h⟩
      rw [CountedTables.drop, hget]
      rfl
  | some chunk =>
      obtain ⟨df, hremoved, hdf⟩ := h.removeStats hget
      have hdrop : t.drop chunkId = .ok {
          chunks := t.chunks.erase chunkId
          tf := t.tf.erase chunkId
          docLen := t.docLen.erase chunkId
          df := df
          avgdl := t.avgdl } := by
        rw [CountedTables.drop, hget, hremoved]
        simp only [Option.isSome_some, if_true, Bind.bind, Except.bind, delItem_of_get? hget,
          delItem_of_get? (h.tf_get? hget), delItem_of_get? (h.docLen_get? hget)]
      refine ⟨_, hdrop, rfl, ?_, ?_, hdf⟩
      · rw [Dict.erase_mapValues, ← h.tf_eq]
      · rw [Dict.erase_mapValues, ← h.docLen_eq]

theorem Counted.foldlM_put (h : Counted t) (chunks : List Chunk) :
    ∃ t', chunks.foldlM CountedTables.put t = .ok t'
      ∧ t'.chunks = t.chunks.setAll Chunk.chunkId chunks ∧ Counted t' := by
  induction chunks generalizing t with
  | nil => exact ⟨t, rfl, rfl, h⟩
  | cons chunk rest ih =>
      obtain ⟨t₁, hput, hchunks₁, h₁⟩ := h.put chunk
      obtain ⟨t₂, hrest, hchunks₂, h₂⟩ := ih h₁
      refine ⟨t₂, ?_, ?_, h₂⟩
      · rw [List.foldlM_cons, hput]
        exact hrest
      · rw [hchunks₂, hchunks₁]
        rfl

theorem Counted.foldlM_drop (h : Counted t) (chunkIds : List String) :
    ∃ t', chunkIds.foldlM CountedTables.drop t = .ok t'
      ∧ t'.chunks = chunkIds.foldl Dict.erase t.chunks ∧ Counted t' := by
  induction chunkIds generalizing t with
  | nil => exact ⟨t, rfl, rfl, h⟩
  | cons chunkId rest ih =>
      obtain ⟨t₁, hdrop, hchunks₁, h₁⟩ := h.drop chunkId
      obtain ⟨t₂, hrest, hchunks₂, h₂⟩ := ih h₁
      refine ⟨t₂, ?_, ?_, h₂⟩
      · rw [List.foldlM_cons, hdrop]
        exact hrest
      · rw [hchunks₂, hchunks₁]
        rfl

theorem counted_empty (avgdl : K) : Counted ({ avgdl := avgdl } : CountedTables K) :=
  ⟨rfl, rfl, Counter.counts_empty⟩

theorem Counted.recomputeAvgdl [Field K] (h : Counted t) : Counted t.recomputeAvgdl :=
  ⟨h.tf_eq, h.docLen_eq, h.df_counts⟩

end Steps

inductive LexicalOp where
  | upsert (chunks : List Chunk)
  | delete (chunkIds : List String)

/-- The chunks a call leaves of the stored ones. -/
def LexicalOp.applyTo (stored : Dict String Chunk) : LexicalOp → Dict String Chunk
  | .upsert chunks => stored.setAll Chunk.chunkId chunks
  | .delete chunkIds => chunkIds.foldl Dict.erase stored

/-- The surviving chunks of a history. -/
def surviving (ops : List LexicalOp) : Dict String Chunk :=
  ops.foldl LexicalOp.applyTo .empty

section Runs

variable {K : Type} [Field K]

def CountedTables.step (t : CountedTables K) : LexicalOp → Except Exn (CountedTables K)
  | .upsert chunks => t.upsert chunks
  | .delete chunkIds => t.delete chunkIds

/-- The index after a history of calls. -/
def runOps (ops : List LexicalOp) : Except Exn (CountedTables K) :=
  ops.foldlM CountedTables.step { avgdl := 0 }

/-- Everything the index keeps is a function of the chunks it stores. -/
structure Represents (t : CountedTables K) (stored : Dict String Chunk) : Prop extends Counted t where
  chunks_eq : t.chunks = stored
  avgdl_eq : t.avgdl = Tables.meanLength t.docLen

theorem Represents.step {t : CountedTables K} {stored : Dict String Chunk}
    (h : Represents t stored) (op : LexicalOp) :
    ∃ t', t.step op = .ok t' ∧ Represents t' (op.applyTo stored) := by
  cases op with
  | upsert chunks =>
      obtain ⟨t', hput, hchunks, ht'⟩ := h.toCounted.foldlM_put chunks
      refine ⟨t'.recomputeAvgdl, ?_, ht'.recomputeAvgdl, ?_, rfl⟩
      · rw [CountedTables.step, CountedTables.upsert, hput]
        rfl
      · rw [LexicalOp.applyTo, ← h.chunks_eq]
        exact hchunks
  | delete chunkIds =>
      obtain ⟨t', hdrop, hchunks, ht'⟩ := h.toCounted.foldlM_drop chunkIds
      refine ⟨t'.recomputeAvgdl, ?_, ht'.recomputeAvgdl, ?_, rfl⟩
      · rw [CountedTables.step, CountedTables.delete, hdrop]
        rfl
      · rw [LexicalOp.applyTo, ← h.chunks_eq]
        exact hchunks

/-- No call raises. -/
theorem history_returns (ops : List LexicalOp) :
    ∃ t : CountedTables K, runOps ops = .ok t ∧ Represents t (surviving ops) := by
  have hrun : ∀ (t : CountedTables K) (stored : Dict String Chunk), Represents t stored →
      ∃ t', ops.foldlM CountedTables.step t = .ok t'
        ∧ Represents t' (ops.foldl LexicalOp.applyTo stored) := by
    induction ops with
    | nil => exact fun t stored h => ⟨t, rfl, h⟩
    | cons op rest ih =>
        intro t stored h
        obtain ⟨t₁, hstep, h₁⟩ := h.step op
        obtain ⟨t₂, hrest, h₂⟩ := ih t₁ _ h₁
        refine ⟨t₂, ?_, h₂⟩
        rw [List.foldlM_cons, hstep]
        exact hrest
  exact hrun _ _ ⟨counted_empty 0, rfl, rfl⟩

end Runs

section Scores

variable {K : Type} [Field K]

/-- The mean length, zero for no chunks. -/
def averageLength (chunks : List Chunk) : K :=
  if chunks = [] then 0 else ((chunks.map docLength).sum : K) / (chunks.length : K)

theorem Represents.avgdl {t : CountedTables K} {stored : Dict String Chunk}
    (h : Represents t stored) : t.avgdl = averageLength stored.values := by
  rw [h.avgdl_eq, h.docLen_eq, h.chunks_eq, Tables.meanLength, averageLength, Dict.values,
    Dict.items_mapValues]
  simp only [List.map_eq_nil_iff, List.map_map, List.length_map, Dict.values]
  rfl

variable [LinearOrder K] [Math K] (k1 b : K)

/-- What a term adds to the score of a chunk among others in which it occurs. -/
def termWeight (chunks : List Chunk) (chunk : Chunk) (term : String) : K :=
  let avgdl : K := averageLength chunks
  let freq := (tokenize chunk.text).count term
  BM25MemoryIndex.idf chunks.length (holding chunks term) * (freq * (k1 + 1))
    / (freq + k1 * (1 - b + b * docLength chunk / if avgdl = 0 then 1 else avgdl))

/-- The score of a chunk for the terms of a query. -/
def corpusScore (chunks : List Chunk) (qTokens : List String) (chunk : Chunk) : K :=
  ((qTokens.filter fun term => term ∈ tokenize chunk.text).map (termWeight k1 b chunks chunk)).sum

theorem corpusScore_perm {chunks chunks' : List Chunk} (h : chunks.Perm chunks')
    (qTokens : List String) (chunk : Chunk) :
    corpusScore k1 b chunks qTokens chunk = corpusScore k1 b chunks' qTokens chunk := by
  have havgdl : (averageLength chunks : K) = averageLength chunks' := by
    have hempty : chunks = [] ↔ chunks' = [] := by
      rw [← List.length_eq_zero_iff, ← List.length_eq_zero_iff, h.length_eq]
    rw [averageLength, averageLength, (h.map docLength).sum_eq, h.length_eq]
    simp only [hempty]
  have hweight : termWeight k1 b chunks chunk = termWeight k1 b chunks' chunk := by
    funext term
    rw [termWeight, termWeight, havgdl, h.length_eq, holding_perm h]
  rw [corpusScore, corpusScore, hweight]

/-- The chunk shares a term with the query. -/
def Shares (query : String) (chunk : Chunk) : Prop :=
  ∃ term ∈ tokenize query, term ∈ tokenize chunk.text

instance (query : String) (chunk : Chunk) : Decidable (Shares query chunk) :=
  inferInstanceAs (Decidable (∃ term ∈ tokenize query, term ∈ tokenize chunk.text))

/-- The visible chunks that share a term with the query, with their scores. -/
def matching (chunks : List Chunk) (query : String) (principal : Principal)
    (indexVersion : Option String) : List (K × Chunk) :=
  (chunks.filter fun c => visible principal indexVersion c ∧ Shares query c).map fun c =>
    (corpusScore k1 b chunks (tokenize query) c, c)

theorem matching_perm {chunks chunks' : List Chunk} (h : chunks.Perm chunks') (query : String)
    (principal : Principal) (indexVersion : Option String) :
    (matching k1 b chunks query principal indexVersion).Perm
      (matching k1 b chunks' query principal indexVersion) := by
  unfold matching
  simp only [corpusScore_perm k1 b h]
  exact (h.filter _).map _

variable {t : CountedTables K} {stored : Dict String Chunk} {chunkId : String} {chunk : Chunk}
  {k1 b}

/-- No denominator of the scores of a chunk vanishes. -/
def Divides (k1 b : K) (chunks : List Chunk) (chunk : Chunk) : Prop :=
  ∀ term ∈ tokenize chunk.text, ((tokenize chunk.text).count term : K)
    + k1 * (1 - b + b * docLength chunk
      / if (averageLength chunks : K) = 0 then 1 else averageLength chunks) ≠ 0

theorem Represents.addTerm_eq (h : Represents t stored) (hdivides : Divides k1 b stored.values chunk)
    (score : K) (term : String) :
    t.addTerm k1 b (Counter.of (tokenize chunk.text)) (docLength chunk) stored.values.length score
      term = .ok (if term ∈ tokenize chunk.text
        then score + termWeight k1 b stored.values chunk term else score) := by
  have hsome := Counter.isSome_of (tokenize chunk.text) term
  unfold CountedTables.addTerm
  by_cases hterm : term ∈ tokenize chunk.text
  · have hfreq := (Counter.counts_of (tokenize chunk.text)).count term
    have hdf := h.df_counts.count term
    rw [h.chunks_eq] at hdf
    have hsome' : ¬ ((Counter.of (tokenize chunk.text)).get? term).isNone = true := by
      rw [Option.isNone_iff_eq_none, ← ne_eq, ← Option.isSome_iff_ne_none]
      exact hsome.mpr hterm
    have hdenom := hdivides term hterm
    rw [if_neg hsome', if_pos hterm]
    simp only [hfreq, hdf, h.avgdl, Int.cast_natCast, if_neg hdenom, termWeight,
      BM25MemoryIndex.idf, Nat.cast_ofNat]
  · have hnone : ((Counter.of (tokenize chunk.text)).get? term).isNone = true := by
      rw [Option.isNone_iff_eq_none, ← Option.not_isSome_iff_eq_none, hsome]
      exact hterm
    rw [if_pos hnone, if_neg hterm]

/-- The loop over the query adds up the weights of the terms that occur. -/
theorem Represents.bm25_eq (h : Represents t stored) (hget : stored.get? chunkId = some chunk)
    (hdivides : Divides k1 b stored.values chunk) (qTokens : List String) :
    t.bm25 k1 b qTokens chunkId stored.values.length
      = .ok (corpusScore k1 b stored.values qTokens chunk) := by
  have hchunk : t.chunks.get? chunkId = some chunk := by rw [h.chunks_eq, hget]
  have hloop : ∀ score : K, qTokens.foldlM (t.addTerm k1 b (Counter.of (tokenize chunk.text))
      (docLength chunk) stored.values.length) score
      = .ok (score + corpusScore k1 b stored.values qTokens chunk) := by
    induction qTokens with
    | nil =>
        intro score
        rw [corpusScore, List.filter_nil, List.map_nil, List.sum_nil, add_zero]
        rfl
    | cons term rest ih =>
        intro score
        rw [List.foldlM_cons, h.addTerm_eq hdivides, corpusScore, List.filter_cons]
        by_cases hterm : term ∈ tokenize chunk.text
        · rw [if_pos hterm, if_pos (by simpa using hterm), List.map_cons, List.sum_cons,
            ← add_assoc]
          exact ih _
        · rw [if_neg hterm, if_neg (by simpa using hterm)]
          exact ih _
  rw [CountedTables.bm25, getItem_of_get? (h.toCounted.docLen_get? hchunk),
    getItem_of_get? (h.toCounted.tf_get? hchunk)]
  refine (hloop 0).trans ?_
  rw [zero_add]

end Scores

section Candidates

variable {k1 b : ℝ} {chunks : List Chunk} {chunk : Chunk}

omit [Runtime] in
/-- A term occurs in some of the chunks at most. -/
theorem idf_pos_of_le {n df : Nat} (h : df ≤ n) : (0 : ℝ) < BM25MemoryIndex.idf n df := by
  have hdf : (df : ℝ) ≤ n := Nat.cast_le.mpr h
  have hratio : (0 : ℝ) < ((n : ℝ) - df + 1 / 2) / ((df : ℝ) + 1 / 2) := by
    refine div_pos ?_ ?_
    · linarith
    · positivity
  exact Real.log_pos (by linarith)

theorem averageLength_nonneg (chunks : List Chunk) : (0 : ℝ) ≤ averageLength chunks := by
  unfold averageLength
  split_ifs
  · exact le_rfl
  · positivity

theorem denominator_pos (hk1 : 0 ≤ k1) (hb : 0 ≤ b) (hb1 : b ≤ 1) (chunks : List Chunk)
    {term : String} (hterm : term ∈ tokenize chunk.text) :
    0 < ((tokenize chunk.text).count term : ℝ) + k1 * (1 - b + b * docLength chunk
      / if (averageLength chunks : ℝ) = 0 then 1 else averageLength chunks) := by
  have hfreq : (0 : ℝ) < (tokenize chunk.text).count term :=
    Nat.cast_pos.mpr (List.count_pos_iff.mpr hterm)
  have hscale : (0 : ℝ) ≤ if (averageLength chunks : ℝ) = 0 then 1 else averageLength chunks := by
    split_ifs
    · exact zero_le_one
    · exact averageLength_nonneg chunks
  have hlength : (0 : ℝ) ≤ 1 - b + b * docLength chunk
      / if (averageLength chunks : ℝ) = 0 then 1 else averageLength chunks :=
    add_nonneg (sub_nonneg.mpr hb1) (div_nonneg (mul_nonneg hb (Nat.cast_nonneg _)) hscale)
  exact add_pos_of_pos_of_nonneg hfreq (mul_nonneg hk1 hlength)

theorem divides_of_le (hk1 : 0 ≤ k1) (hb : 0 ≤ b) (hb1 : b ≤ 1) (chunks : List Chunk)
    (chunk : Chunk) : Divides k1 b chunks chunk :=
  fun _ hterm => (denominator_pos hk1 hb hb1 chunks hterm).ne'

theorem termWeight_pos (hk1 : 0 ≤ k1) (hb : 0 ≤ b) (hb1 : b ≤ 1) {term : String}
    (hterm : term ∈ tokenize chunk.text) : 0 < termWeight k1 b chunks chunk term := by
  have hfreq : (0 : ℝ) < (tokenize chunk.text).count term :=
    Nat.cast_pos.mpr (List.count_pos_iff.mpr hterm)
  have hidf := idf_pos_of_le (List.countP_le_length (p := fun c => term ∈ tokenize c.text)
    (l := chunks))
  refine div_pos (mul_pos hidf (mul_pos hfreq (by linarith))) ?_
  exact denominator_pos hk1 hb hb1 chunks hterm

theorem corpusScore_pos_iff (hk1 : 0 ≤ k1) (hb : 0 ≤ b) (hb1 : b ≤ 1) (chunks : List Chunk)
    (chunk : Chunk) (query : String) :
    0 < corpusScore k1 b chunks (tokenize query) chunk ↔ Shares query chunk := by
  rw [corpusScore]
  constructor
  · intro hpos
    by_contra hnone
    have hempty : (tokenize query).filter (fun term => term ∈ tokenize chunk.text) = [] := by
      rw [List.filter_eq_nil_iff]
      intro term hterm hin
      exact hnone ⟨term, hterm, by simpa using hin⟩
    rw [hempty] at hpos
    exact lt_irrefl _ hpos
  · rintro ⟨term, hterm, hin⟩
    refine List.sum_pos _ ?_ ?_
    · intro weight hweight
      obtain ⟨term', hterm', rfl⟩ := List.mem_map.mp hweight
      exact termWeight_pos hk1 hb hb1 (by simpa using (List.mem_filter.mp hterm').2)
    · rw [ne_eq, List.map_eq_nil_iff]
      exact List.ne_nil_of_mem (List.mem_filter.mpr ⟨hterm, by simpa using hin⟩)

theorem Represents.candidates_eq {t : CountedTables ℝ} {stored : Dict String Chunk}
    (h : Represents t stored) (hk1 : 0 ≤ k1) (hb : 0 ≤ b) (hb1 : b ≤ 1) (query : String)
    (principal : Principal) (indexVersion : Option String) :
    t.candidates k1 b query principal indexVersion
      = .ok (matching k1 b stored.values query principal indexVersion) := by
  rw [CountedTables.candidates, matching, h.chunks_eq]
  dsimp only
  split_ifs with hnone
  · have hempty : stored.values.filter (fun c => visible principal indexVersion c
        ∧ Shares query c) = [] := by
      rw [List.filter_eq_nil_iff]
      intro c hc hin
      obtain ⟨-, term, hterm, -⟩ : _ ∧ Shares query c := by simpa using hin
      rcases hnone with hquery | hitems
      · rw [hquery] at hterm
        cases hterm
      · rw [Dict.values, hitems] at hc
        cases hc
    rw [hempty]
    rfl
  · have hscored : (stored.items.filter fun item => visible principal indexVersion item.2).mapM
        (fun item => do
          let score ← t.bm25 k1 b (tokenize query) item.1 stored.items.length
          .ok (score, item.2))
        = .ok ((stored.items.filter fun item => visible principal indexVersion item.2).map
          fun item => (corpusScore k1 b stored.values (tokenize query) item.2, item.2)) := by
      refine (mapM_congr ?_).trans List.mapM_pure
      intro item hitem
      have hget := Dict.get?_iff.mpr (List.mem_of_mem_filter hitem)
      have hlength : stored.items.length = stored.values.length := (List.length_map _).symm
      rw [hlength, h.bm25_eq hget (divides_of_le hk1 hb hb1 _ _)]
      rfl
    rw [hscored]
    refine congrArg Except.ok ?_
    rw [List.filter_map, List.filter_filter, Dict.values, List.filter_map, List.map_map]
    congr 1
    refine List.filter_congr ?_
    intro item _
    have hpos := corpusScore_pos_iff hk1 hb hb1 (stored.items.map Prod.snd) item.2 query
    simp only [Function.comp_apply, hpos, Bool.decide_and, Bool.decide_eq_true]
    exact Bool.and_comm _ _

end Candidates

section Refinement

variable {K : Type} [Field K]

/-- The chunks with their statistics. -/
def postingsOf (stored : Dict String Chunk) : Postings K where
  tables := {
    chunks := stored
    tf := stored.mapValues termCounts
    df := (stored.values.map fun c => (termCounts c).dedup).sum
    docLen := stored.mapValues docLength
    avgdl := Tables.meanLength (stored.mapValues docLength) }
  synced := ⟨rfl, rfl, rfl⟩
  avgdl_eq := rfl

theorem docFreq_postingsOf (stored : Dict String Chunk) (term : String) :
    (postingsOf stored : Postings K).docFreq term = holding stored.values term := by
  change Multiset.count term (stored.values.map fun c => (termCounts c).dedup).sum = _
  induction stored.values with
  | nil => rfl
  | cons chunk rest ih =>
      rw [List.map_cons, List.sum_cons, Multiset.count_add, ih, Multiset.count_dedup, holding,
        holding, List.countP_cons, Nat.add_comm]
      simp [termCounts]

variable [LinearOrder K] [Math K] {t : CountedTables K} {stored : Dict String Chunk} {k1 b : K}

theorem termScore_postingsOf (h : Represents t stored) {chunk : Chunk}
    (hdivides : Divides k1 b stored.values chunk) {term : String}
    (hterm : term ∈ tokenize chunk.text) :
    (⟨k1, b, postingsOf stored⟩ : BM25MemoryIndex K).termScore stored.values.length
      ((termCounts chunk).count term) (docLength chunk) term
      = .ok (termWeight k1 b stored.values chunk term) := by
  have havgdl : (postingsOf stored : Postings K).tables.avgdl = averageLength stored.values := by
    rw [← h.avgdl, h.avgdl_eq, h.docLen_eq, h.chunks_eq]
    rfl
  have hfreq : (termCounts chunk).count term = (tokenize chunk.text).count term :=
    Multiset.coe_count _ _
  have hdenom := hdivides term hterm
  simp only [BM25MemoryIndex.termScore, havgdl, hfreq, if_neg hdenom, docFreq_postingsOf,
    termWeight]

/-- Both indexes score a stored chunk alike. -/
theorem Represents.bm25_refines (h : Represents t stored) {chunkId : String} {chunk : Chunk}
    (hget : stored.get? chunkId = some chunk) (hdivides : Divides k1 b stored.values chunk)
    (qTokens : List String) :
    (⟨k1, b, postingsOf stored⟩ : BM25MemoryIndex K).bm25 qTokens chunkId stored.values.length
      = t.bm25 k1 b qTokens chunkId stored.values.length := by
  have htf : ((postingsOf stored : Postings K).tables.tf.get? chunkId).getD 0
      = termCounts chunk := by
    change ((stored.mapValues termCounts).get? chunkId).getD 0 = _
    rw [Dict.get?_mapValues, hget]
    rfl
  have hdl : ((postingsOf stored : Postings K).tables.docLen.get? chunkId).getD 0
      = docLength chunk := by
    change ((stored.mapValues docLength).get? chunkId).getD 0 = _
    rw [Dict.get?_mapValues, hget]
    rfl
  rw [h.bm25_eq hget hdivides, BM25MemoryIndex.bm25]
  dsimp only
  rw [htf, hdl, BM25MemoryIndex.scoreTerms, ← zero_add (corpusScore k1 b _ _ _)]
  generalize (0 : K) = score
  induction qTokens generalizing score with
  | nil =>
      rw [corpusScore, List.filter_nil, List.map_nil, List.sum_nil, add_zero]
      rfl
  | cons term rest ih =>
      have hmem : term ∈ termCounts chunk ↔ term ∈ tokenize chunk.text := Multiset.mem_coe
      rw [List.foldlM_cons, corpusScore, List.filter_cons]
      by_cases hterm : term ∈ tokenize chunk.text
      · rw [if_pos (hmem.mpr hterm), if_pos (by simpa using hterm), List.map_cons, List.sum_cons,
          ← add_assoc, termScore_postingsOf h hdivides hterm]
        exact ih _
      · rw [if_neg (hmem.not.mpr hterm), if_neg (by simpa using hterm)]
        exact ih _

/-- The index of dictionaries searches as the index of statistics does. -/
theorem Represents.search_refines (h : Represents t stored)
    (hdivides : ∀ chunk, Divides k1 b stored.values chunk) (query : String) (topK : ℤ)
    (principal : Principal) (indexVersion : Option String) :
    t.search k1 b query topK principal indexVersion
      = (⟨k1, b, postingsOf stored⟩ : BM25MemoryIndex K).search query topK principal
        indexVersion := by
  have hlength : stored.items.length = stored.values.length := (List.length_map _).symm
  have hsize : (postingsOf stored : Postings K).size = stored.items.length := rfl
  rw [CountedTables.search, CountedTables.candidates, BM25MemoryIndex.search, h.chunks_eq]
  dsimp only
  rw [hsize]
  by_cases hnone : tokenize query = [] ∨ stored.items = []
  · have hnone' : tokenize query = [] ∨ stored.items.length = 0 :=
      hnone.imp_right List.length_eq_zero_iff.mpr
    rw [if_pos hnone, if_pos hnone']
    simp [rankHits, takeInt, sortedDesc, Bind.bind, Except.bind]
  · have hnone' : ¬ (tokenize query = [] ∨ stored.items.length = 0) :=
      fun h => hnone (h.imp_right List.length_eq_zero_iff.mp)
    rw [if_neg hnone, if_neg hnone']
    have hscored : ∀ item ∈ stored.items.filter (fun item => visible principal indexVersion item.2),
        (do
          let score ← t.bm25 k1 b (tokenize query) item.1 stored.items.length
          Except.ok (score, item.2))
        = (do
          let score ← (⟨k1, b, postingsOf stored⟩ : BM25MemoryIndex K).bm25 (tokenize query) item.1
            stored.items.length
          Except.ok (score, item.2)) := by
      intro item hitem
      have hget := Dict.get?_iff.mpr (List.mem_of_mem_filter hitem)
      rw [hlength, h.bm25_refines hget (hdivides _)]
    rw [mapM_congr hscored, bind_assoc]
    rfl

end Refinement

omit [Runtime] in
theorem surviving_keyed (ops : List LexicalOp) : (surviving ops).KeyedBy Chunk.chunkId := by
  have happly : ∀ (op : LexicalOp) (stored : Dict String Chunk), stored.KeyedBy Chunk.chunkId →
      (op.applyTo stored).KeyedBy Chunk.chunkId := by
    intro op stored h
    cases op with
    | upsert chunks => exact h.setAll chunks
    | delete chunkIds =>
        rw [LexicalOp.applyTo]
        induction chunkIds generalizing stored with
        | nil => exact h
        | cons chunkId rest ih =>
            exact ih _ fun item hitem => h item (List.mem_of_mem_filter hitem)
  induction ops using List.reverseRecOn with
  | nil => exact Dict.keyedBy_empty
  | append_singleton ops op ih =>
      rw [surviving, List.foldl_append]
      exact happly op _ ih

omit [Runtime] in
theorem surviving_ids_nodup (ops : List LexicalOp) :
    ((surviving ops).values.map Chunk.chunkId).Nodup := by
  have hids : (surviving ops).values.map Chunk.chunkId = (surviving ops).keys := by
    rw [Dict.values, Dict.keys, List.map_map]
    exact List.map_congr_left fun item hitem => surviving_keyed ops item hitem
  rw [hids]
  exact (surviving ops).nodup

omit [Runtime] in
/-- Chunks of distinct ids all survive in a fresh index. -/
theorem surviving_upsert {chunks : List Chunk} (h : (chunks.map Chunk.chunkId).Nodup) :
    (surviving [.upsert chunks]).values = chunks := by
  have hindex : surviving [.upsert chunks] = Dict.index Chunk.chunkId chunks := rfl
  rw [hindex, Dict.values, Dict.items_index h, List.map_map]
  exact List.map_id _

/-- Over the reals and with the default parameters, after any calls of `upsert` and `delete`: no
call has raised, the tables are those of the surviving chunks, and a search selects the visible
chunks that share a term with the query, all with positive scores and the same ones as in a fresh
index of the surviving chunks. -/
theorem bm25_history_independent (ops : List LexicalOp) :
    ∃ t : CountedTables ℝ, runOps ops = .ok t
      ∧ t.chunks = surviving ops
      ∧ t.tf.keys = t.chunks.keys ∧ t.docLen.keys = t.chunks.keys
      ∧ (∀ term, t.df.get? term = Counter.entry (holding t.chunks.values term))
      ∧ (∀ chunkId chunk, t.chunks.get? chunkId = some chunk →
        t.docLen.get? chunkId = some (tokenize chunk.text).length
          ∧ t.tf.get? chunkId = some (Counter.of (tokenize chunk.text)))
      ∧ t.avgdl = averageLength t.chunks.values
      ∧ ∀ query principal indexVersion,
        let found := matching defaultK1 defaultB t.chunks.values query principal indexVersion
        t.candidates defaultK1 defaultB query principal indexVersion = .ok found
          ∧ (∀ e ∈ found, 0 < e.1)
          ∧ ∀ chunks, chunks.Perm t.chunks.values → ∃ fresh found', runOps [.upsert chunks] = .ok fresh
            ∧ fresh.candidates defaultK1 defaultB query principal indexVersion = .ok found'
            ∧ found'.Perm found := by
  obtain ⟨t, hrun, h⟩ := history_returns (K := ℝ) ops
  have hk1 : (0 : ℝ) ≤ defaultK1 := by norm_num [defaultK1]
  have hb : (0 : ℝ) ≤ defaultB := by norm_num [defaultB]
  have hb1 : (defaultB : ℝ) ≤ 1 := by norm_num [defaultB]
  have hkeys : ∀ {ν : Type} (f : Chunk → ν), (t.chunks.mapValues f).keys = t.chunks.keys := by
    intro ν f
    rw [Dict.keys, Dict.items_mapValues, List.map_map]
    rfl
  refine ⟨t, hrun, h.chunks_eq, ?_, ?_, h.df_counts, ?_, ?_, ?_⟩
  · rw [h.tf_eq, hkeys]
  · rw [h.docLen_eq, hkeys]
  · intro chunkId chunk hget
    exact ⟨h.toCounted.docLen_get? hget, h.toCounted.tf_get? hget⟩
  · rw [h.avgdl, h.chunks_eq]
  · intro query principal indexVersion found
    have hfound : t.candidates defaultK1 defaultB query principal indexVersion = .ok found := by
      rw [h.candidates_eq hk1 hb hb1, ← h.chunks_eq]
    refine ⟨hfound, ?_, ?_⟩
    · intro e he
      obtain ⟨c, hc, rfl⟩ := List.mem_map.mp he
      have hshares : Shares query c := by
        have hboth := (List.mem_filter.mp hc).2
        rw [decide_eq_true_eq] at hboth
        exact hboth.2
      exact (corpusScore_pos_iff hk1 hb hb1 _ _ query).mpr hshares
    · intro chunks hperm
      have hids : (chunks.map Chunk.chunkId).Nodup := by
        have hstored := surviving_ids_nodup ops
        rw [← h.chunks_eq] at hstored
        exact (hperm.map Chunk.chunkId).nodup_iff.mpr hstored
      obtain ⟨fresh, hfresh, hrepresents⟩ := history_returns (K := ℝ) [.upsert chunks]
      refine ⟨fresh, _, hfresh, hrepresents.candidates_eq hk1 hb hb1 _ _ _, ?_⟩
      rw [surviving_upsert hids]
      exact matching_perm _ _ hperm query principal indexVersion

end History

end Rag
