import Rag.Pipelines.Outcome
import Rag.Cache.Lifetime
import Rag.Rerank

/-!
Which score the confidence check of the pipeline is about.

The check reads the score of the first chunk of the context. Under the identity reranker this is
the best fused score. Under the cross encoder it is the best score of the scoring model, on
another scale than the threshold.
-/

namespace Rag

open Py Interaction

/-- Refused because the context scored too low. -/
def Low (answer : Answer) : Prop :=
  answer.refused = true ∧ answer.refusalReason = some "low_confidence_score"

def RefusedLow (outcome : Except Exn Answer) : Prop := ∃ answer, outcome = .ok answer ∧ Low answer

/-- The early check finds the score of the context too low. -/
def ScoresLow (pipeline : OnlinePipeline) (scored : List (ScoredChunk ℚ)) : Prop :=
  shouldRefuse scored [] pipeline.settings.refusalScoreThreshold = some "low_confidence_score"

/-- Everything but the reranker. -/
def NoRerank : PipeOp → Prop
  | .rerank _ _ _ => False
  | _ => True

theorem enumerateFused_sorted {results : List (Chunk × ℚ)}
    (h : results.Pairwise fun a b => b.2 ≤ a.2) :
    (enumerateFused results).Pairwise fun a b => b.score ≤ a.score := by
  rw [← List.pairwise_map (f := ScoredChunk.score) (R := fun a b => b ≤ a),
    enumerateFused_map fun _ score => score]
  exact List.pairwise_map.mpr h

theorem reciprocalRankFusion_sorted {lists : List (List (ScoredChunk ℚ))} {k : ℤ}
    {weights : Option (List ℚ)} {fused : List (ScoredChunk ℚ)}
    (h : reciprocalRankFusion lists k weights = .ok fused) :
    fused.Pairwise fun a b => b.score ≤ a.score := by
  unfold reciprocalRankFusion at h
  dsimp only at h
  split_ifs at h
  obtain ⟨acc, -, hfused⟩ := ok_of_bind h
  cases hfused
  exact enumerateFused_sorted (List.pairwise_map.mpr (sortedDesc_pairwise Prod.fst _))

theorem authoriseFused_sorted {fused : List (ScoredChunk ℚ)}
    (h : fused.Pairwise fun a b => b.score ≤ a.score) (principal : Principal) (topK : ℤ) :
    (authoriseFused principal topK fused).Pairwise fun a b => b.score ≤ a.score := by
  refine enumerateFused_sorted (List.pairwise_map.mpr ?_)
  exact h.sublist ((takeInt_sublist _ _).trans List.filter_sublist)

theorem retrieveMulti_sorted {A : (o : PipeOp) → PipeResp o → Prop} (pipeline : OnlinePipeline)
    (queries : List String) (principal : Principal) (topK : ℤ) (indexVersion : Option String)
    (denseQueries : List String) :
    Prog.SpecE A (Searches principal indexVersion)
      (retrieveMulti pipeline.retriever queries principal topK indexVersion denseQueries)
      (fun scored => scored.Pairwise fun a b => b.score ≤ a.score) fun _ => True := by
  have hdense : ∀ v, Prog.SpecE A (Searches principal indexVersion)
      (pipeline.retriever.search v topK principal indexVersion) (fun _ => True) fun _ => True := by
    intro v
    refine ⟨⟨rfl, rfl⟩, ?_⟩
    rintro (exn | hits) - <;> trivial
  have hlex : ∀ q, Prog.SpecE A (Searches principal indexVersion)
      (pipeline.retriever.lexicalSearch q topK principal indexVersion)
      (fun _ => True) fun _ => True := by
    intro q
    refine ⟨⟨rfl, rfl⟩, ?_⟩
    rintro (exn | hits) - <;> trivial
  unfold retrieveMulti
  by_cases hempty : queries = []
  · simp [hempty]
  rw [if_neg hempty]
  extract_lets denseTexts
  split_ifs
  · trivial
  · simp only [Prog.specE_bind]
    refine ⟨trivial, ?_⟩
    rintro (exn | vectors) -
    · trivial
    · refine (forEach_spec hdense vectors).mono ?_ fun _ h => h
      intro denseHits _
      refine (forEach_spec hlex queries).mono ?_ fun _ h => h
      intro lexicalHits _
      split
      · trivial
      · rename_i fused hfused
        exact authoriseFused_sorted (reciprocalRankFusion_sorted hfused) principal topK

theorem scoresLow_iff {pipeline : OnlinePipeline} {scored : List (ScoredChunk ℚ)}
    {top : ScoredChunk ℚ} (h : scored.head? = some top) :
    ScoresLow pipeline scored ↔ top.score < pipeline.settings.refusalScoreThreshold := by
  obtain ⟨rest, rfl⟩ := List.head?_eq_some_iff.mp h
  rw [ScoresLow, shouldRefuse]
  split_ifs with hlow
  · exact iff_of_true rfl hlow
  · exact iff_of_false (by simp) hlow
  · exact iff_of_false (by simp) hlow

/-- What generation hands over is a refusal for a low score. -/
def GeneratedLow : Except Exn (Except Answer Answer) → Prop
  | .ok (.ok answer) => Low answer
  | .ok (.error refusal) => Low refusal
  | .error _ => False

section Runs

variable [Runtime] {pipeline : OnlinePipeline} {query : String} {principal : Principal}

/-- A context the early check lets pass is not refused for its score later. -/
theorem groundAnswer_not_low {scored : List (ScoredChunk ℚ)} {scoreThreshold : ℚ}
    (h : ¬ refusesEarly scored scoreThreshold) (redact : Bool) (traceId rawText : String)
    (usage : Usage) : ¬ Low (groundAnswer scored scoreThreshold redact traceId rawText usage) := by
  have hlate : ∀ citations, shouldRefuse scored citations scoreThreshold
      ≠ some "low_confidence_score" := by
    intro citations hlow
    apply h
    right
    cases scored with
    | nil => simp [shouldRefuse] at hlow
    | cons top rest =>
        rw [shouldRefuse] at hlow ⊢
        split_ifs at hlow ⊢ with hscore
        · rfl
        · simp at hlow
        · simp at hlow
  rintro ⟨hrefused, hreason⟩
  unfold groundAnswer at hrefused hreason
  dsimp only at hrefused hreason
  split at hreason
  · rename_i reason hcheck
    cases hreason
    exact hlate _ hcheck
  · simp at hreason

theorem generate_low_iff {traceId : String} {result : QueryResult} {t : List PipeEvent}
    {generated : Except Exn (Except Answer Answer)}
    (h : Prog.Runs (pipeline.generate query traceId result).run t generated) :
    GeneratedLow generated ↔ ScoresLow pipeline result.results := by
  rw [generate_eq] at h
  obtain ⟨generationTrace, u, rfl, hnext⟩ := (Prog.runs_call_iff _ _ _ _).mp h
  split_ifs at hnext with hearly
  · obtain ⟨-, rfl⟩ := (Prog.runs_ret_iff _ _ _).mp hnext
    rcases hearly with hnone | hlow
    · rw [ScoresLow, hnone]
      refine iff_of_false ?_ (by simp)
      rintro ⟨-, hreason⟩
      simp [refusedAnswer] at hreason
    · rw [ScoresLow, hlow]
      exact iff_of_true ⟨rfl, rfl⟩ rfl
  · obtain ⟨answered, v, rfl, hdone⟩ := (Prog.runs_call_iff _ _ _ _).mp hnext
    obtain ⟨-, rfl⟩ := (Prog.runs_ret_iff _ _ _).mp hdone
    refine iff_of_false ?_ fun hlow => hearly (.inr hlow)
    rcases answered with exn | ⟨rawText, usage⟩
    · rw [afterCompletion]
      split_ifs
      · rintro ⟨-, hreason⟩
        simp [OnlinePipeline.refuse] at hreason
      · exact id
    · exact groundAnswer_not_low hearly _ _ _ _

/-- What becomes of an answer of the reranker. -/
def Decides (pipeline : OnlinePipeline) (outcome : Except Exn Answer) :
    Except Exn (List (ScoredChunk ℚ)) → Prop
  | .error exn => outcome = .error exn
  | .ok scored => RefusedLow outcome ↔ ScoresLow pipeline scored

omit [Runtime] in
theorem storeAnswer_low {key : AnswerKey} {answer : Answer} {t : List PipeEvent}
    {r : Except Exn Unit} (hlow : Low answer)
    (h : Prog.Runs (pipeline.storeAnswer key query answer).run t r) : r = .ok () := by
  have hskip : pipeline.shouldCache answer = false := by
    rw [OnlinePipeline.shouldCache, hlow.1]
    exact Bool.and_false _
  rw [OnlinePipeline.storeAnswer, hskip] at h
  exact ((Prog.runsE_pure_iff _ _ _).mp h).2

theorem retrieve_rerank {indexVersion q : String} {candidates : List (ScoredChunk ℚ)} {k : ℤ}
    {answered : Except Exn (Reranked candidates)} {t : List PipeEvent}
    {r : Except Exn QueryResult}
    (h : Prog.Runs (pipeline.retrieve query principal indexVersion).run t r)
    (he : (⟨.rerank q candidates k, answered⟩ : PipeEvent) ∈ t) :
    k = pipeline.settings.retrieval.rerankTopK
      ∧ candidates.Pairwise (fun a b => b.score ≤ a.score)
      ∧ r.map QueryResult.results = answered.map Subtype.val := by
  unfold OnlinePipeline.retrieve at h
  obtain ⟨traceId, u, rfl, htraced⟩ := (Prog.runsE_total_bind_iff _ _ _ _).mp h
  have he' : (⟨.rerank q candidates k, answered⟩ : PipeEvent) ∈ u := by
    rcases List.mem_cons.mp he with heq | he'
    · cases heq
    · exact he'
  obtain ⟨t₁, found, t₂, rfl, hsearched, hafter⟩ := (Prog.runsE_bind_iff _ _ _ _).mp htraced
  obtain ⟨hops, hfound⟩ := (retrieveMulti_sorted (A := fun _ _ => True) pipeline _ principal _ _
    _).runs hsearched fun _ _ => trivial
  have hnot : (⟨.rerank q candidates k, answered⟩ : PipeEvent) ∉ t₁ := fun hin => hops _ hin
  have he₂ := (List.mem_append.mp he').resolve_left hnot
  cases found with
  | error exn =>
      rw [hafter.1] at he₂
      cases he₂
  | ok scored =>
      obtain ⟨t₃, out, t₄, rfl, hreranked, hlast⟩ := (Prog.runsE_bind_iff _ _ _ _).mp hafter
      obtain ⟨out', t₅, rfl, hdone⟩ := (Prog.runs_call_iff _ _ _ _).mp hreranked
      obtain ⟨rfl, rfl⟩ := (Prog.runs_ret_iff _ _ _).mp hdone
      have hend : t₄ = [] ∧ r.map QueryResult.results = out'.map Subtype.val := by
        cases out' with
        | error exn =>
            obtain ⟨rfl, rfl⟩ := hlast
            exact ⟨rfl, rfl⟩
        | ok out =>
            obtain ⟨rfl, rfl⟩ := (Prog.runsE_pure_iff _ _ _).mp hlast
            exact ⟨rfl, rfl⟩
      rw [hend.1, List.append_nil, List.mem_singleton] at he₂
      cases he₂
      exact ⟨rfl, hfound, hend.2⟩

theorem ground_rerank {traceId indexVersion q : String} {key : AnswerKey}
    {candidates : List (ScoredChunk ℚ)} {k : ℤ} {answered : Except Exn (Reranked candidates)}
    {t : List PipeEvent} {outcome : Except Exn Answer}
    (h : Prog.Runs (pipeline.ground query traceId principal indexVersion key).run t outcome)
    (he : (⟨.rerank q candidates k, answered⟩ : PipeEvent) ∈ t) :
    k = pipeline.settings.retrieval.rerankTopK
      ∧ candidates.Pairwise (fun a b => b.score ≤ a.score)
      ∧ Decides pipeline outcome (answered.map Subtype.val) := by
  obtain ⟨t₁, found, t₂, rfl, hretrieve, hrest⟩ := (Prog.runsE_bind_iff _ _ _ _).mp h
  have hgenerates : ∀ result : QueryResult, Prog.SpecE (fun _ _ => True) NoRerank
      (pipeline.generate query traceId result) (fun _ => True) fun _ => True := by
    intro result
    exact (generate_returns pipeline query traceId result trivial trivial).mono
      (fun _ _ => trivial) fun _ h => h
  cases found with
  | error exn =>
      obtain ⟨rfl, rfl⟩ := hrest
      rw [List.append_nil] at he
      obtain ⟨hk, hsorted, hresults⟩ := retrieve_rerank hretrieve he
      refine ⟨hk, hsorted, ?_⟩
      rw [← hresults]
      rfl
  | ok result =>
      obtain ⟨t₃, generated, t₄, rfl, hgenerate, hlast⟩ := (Prog.runsE_bind_iff _ _ _ _).mp hrest
      have hlow := generate_low_iff hgenerate
      have hsilent := ((hgenerates result).runs hgenerate fun _ _ => trivial).1
      -- the events behind retrieval, and the outcome
      have hafter : (∀ e ∈ t₄, NoRerank e.op) ∧ (RefusedLow outcome ↔ GeneratedLow generated) := by
        rcases generated with exn | refusal | grounded
        · obtain ⟨rfl, rfl⟩ := hlast
          refine ⟨fun e hin => (by cases hin), iff_of_false ?_ id⟩
          rintro ⟨answer, hanswer, -⟩
          cases hanswer
        · obtain ⟨rfl, rfl⟩ := (Prog.runsE_pure_iff _ _ _).mp hlast
          refine ⟨fun e hin => (by cases hin), ?_⟩
          exact ⟨fun ⟨_, hanswer, hl⟩ => Except.ok.inj hanswer ▸ hl, fun hl => ⟨_, rfl, hl⟩⟩
        · obtain ⟨answerTrace, u, rfl, hstamped⟩ := (Prog.runsE_total_bind_iff _ _ _ _).mp hlast
          obtain ⟨t₅, stored, t₆, rfl, hstore, hdone⟩ := (Prog.runsE_bind_iff _ _ _ _).mp hstamped
          have hstoring := (storeAnswer_returns (A := fun _ _ => True) (G := NoRerank) pipeline
            query key _ trivial trivial).runs hstore fun _ _ => trivial
          have hend : t₆ = [] ∧ (RefusedLow outcome ↔ Low grounded) := by
            cases stored with
            | error exn =>
                obtain ⟨rfl, rfl⟩ := hdone
                refine ⟨rfl, iff_of_false ?_ ?_⟩
                · rintro ⟨answer, hanswer, -⟩
                  cases hanswer
                · intro hl
                  have hstamped : Low { grounded with
                      traceId := answerTrace, indexVersion := indexVersion } := ⟨hl.1, hl.2⟩
                  cases storeAnswer_low hstamped hstore
            | ok _ =>
                obtain ⟨rfl, rfl⟩ := (Prog.runsE_pure_iff _ _ _).mp hdone
                refine ⟨rfl, ?_⟩
                constructor
                · rintro ⟨answer, hanswer, hl⟩
                  cases hanswer
                  exact ⟨hl.1, hl.2⟩
                · intro hl
                  exact ⟨_, rfl, hl.1, hl.2⟩
          refine ⟨?_, hend.2⟩
          rw [hend.1, List.append_nil]
          intro e hin
          rcases List.mem_cons.mp hin with rfl | hin
          · trivial
          · exact hstoring.1 e hin
      have hin : (⟨.rerank q candidates k, answered⟩ : PipeEvent) ∈ t₁ := by
        rcases List.mem_append.mp he with hin | hin
        · exact hin
        · rcases List.mem_append.mp hin with hin | hin
          · exact (hsilent _ hin).elim
          · exact (hafter.1 _ hin).elim
      obtain ⟨hk, hsorted, hresults⟩ := retrieve_rerank hretrieve hin
      refine ⟨hk, hsorted, ?_⟩
      rw [← hresults]
      exact hafter.2.trans hlow

/-- In a run of `answer` that reranks, the outcome is decided by what the reranker returns. -/
theorem answer_rerank {q : String} {candidates : List (ScoredChunk ℚ)} {k : ℤ}
    {answered : Except Exn (Reranked candidates)} {t : List PipeEvent}
    {outcome : Except Exn Answer}
    (h : Prog.Runs (pipeline.answer query principal).run t outcome)
    (he : (⟨.rerank q candidates k, answered⟩ : PipeEvent) ∈ t) :
    k = pipeline.settings.retrieval.rerankTopK
      ∧ candidates.Pairwise (fun a b => b.score ≤ a.score)
      ∧ Decides pipeline outcome (answered.map Subtype.val) := by
  rw [answer_eq] at h
  obtain ⟨traceId, u, rfl, hstarted⟩ := (Prog.runsE_total_bind_iff _ _ _ _).mp h
  obtain ⟨t₁, version, t₂, rfl, hversion, hkeyed⟩ := (Prog.runsE_bind_iff _ _ _ _).mp hstarted
  obtain ⟨resolved, u₁, rfl, hpure⟩ := (Prog.runsE_total_bind_iff _ _ _ _).mp hversion
  obtain ⟨rfl, rfl⟩ := (Prog.runsE_pure_iff _ _ _).mp hpure
  obtain ⟨t₃, got, t₄, rfl, hlookup, hrest⟩ := (Prog.runsE_bind_iff _ _ _ _).mp hkeyed
  have hlooked := ((lookupCache_asks _).runs hlookup fun _ _ => trivial).1
  have hin : (⟨.rerank q candidates k, answered⟩ : PipeEvent) ∈ t₄ := by
    simp only [List.mem_cons, List.mem_append, List.cons_append, List.nil_append] at he
    rcases he with heq | heq | hin | hin
    · cases heq
    · cases heq
    · exact (hlooked _ hin).elim
    · exact hin
  rcases got with exn | _ | hit
  · rw [hrest.1] at hin
    cases hin
  · change Prog.Runs (pipeline.execute query traceId principal _ _).run t₄ outcome at hrest
    unfold OnlinePipeline.execute at hrest
    cases hroute : routeQuery query with
    | refuse =>
        rw [hroute] at hrest
        rw [((Prog.runsE_pure_iff _ _ _).mp hrest).1] at hin
        cases hin
    | chitchat =>
        rw [hroute] at hrest
        rw [((Prog.runsE_pure_iff _ _ _).mp hrest).1] at hin
        cases hin
    | factual =>
        rw [hroute] at hrest
        exact ground_rerank hrest hin
    | procedural =>
        rw [hroute] at hrest
        exact ground_rerank hrest hin
    | complex =>
        rw [hroute] at hrest
        exact ground_rerank hrest hin
  · rw [((Prog.runsE_pure_iff _ _ _).mp hrest).1] at hin
    cases hin

/-- The check is about the best fused score exactly when the reranker keeps the scores, or when
the best score of the model and the best fused score are on one side of the threshold. -/
theorem confidence_fused_iff {predict : List (String × String) → List ℚ} {q : String}
    {candidates : List (ScoredChunk ℚ)} {k : ℤ} {answered : Except Exn (Reranked candidates)}
    {t : List PipeEvent} {outcome : Except Exn Answer}
    (hpredict : ∀ pairs, (predict pairs).length = pairs.length)
    (htop : 1 ≤ pipeline.settings.retrieval.rerankTopK) (hne : candidates ≠ [])
    (h : Prog.Runs (pipeline.answer query principal).run t outcome)
    (he : (⟨.rerank q candidates k, answered⟩ : PipeEvent) ∈ t)
    (hreranked : answered.map Subtype.val
      = rerankBy predict pipeline.settings.reranker q candidates k) :
    (RefusedLow outcome
      ↔ ∀ c ∈ candidates, c.score < pipeline.settings.refusalScoreThreshold)
    ↔ pipeline.settings.reranker = .identity
      ∨ ((∀ s ∈ predict (rerankPairs q candidates), s < pipeline.settings.refusalScoreThreshold)
        ↔ ∀ c ∈ candidates, c.score < pipeline.settings.refusalScoreThreshold) := by
  obtain ⟨rfl, hsorted, hdecides⟩ := answer_rerank h he
  rw [hreranked] at hdecides
  cases hreranker : pipeline.settings.reranker with
  | identity =>
      rw [hreranker] at hdecides
      refine iff_of_true ?_ (.inl rfl)
      obtain ⟨first, rest, rfl⟩ := List.exists_cons_of_ne_nil hne
      have hhead := identityRerank_head htop (first :: rest)
      obtain ⟨top, htophead, hscore⟩ := Option.map_eq_some_iff.mp hhead
      have hlow : RefusedLow outcome ↔ ScoresLow pipeline _ := hdecides
      rw [hlow, scoresLow_iff htophead, hscore]
      exact head_lt_iff hsorted rfl
  | crossEncoder =>
      rw [hreranker] at hdecides
      have hlength : (predict (rerankPairs q candidates)).length = candidates.length := by
        rw [hpredict, rerankPairs, List.length_map]
      obtain ⟨out, top, hout, hhead, hbest⟩ := crossEncoderRerank_head htop hne hlength
      rw [rerankBy, hout] at hdecides
      have hlow : RefusedLow outcome ↔ ScoresLow pipeline out := hdecides
      rw [hlow, scoresLow_iff hhead, hbest]
      simp

end Runs

/-- A model whose scores are logits. -/
def logits (pairs : List (String × String)) : List ℚ := pairs.map fun _ => -1

/-- Backends that rerank as the settings say. -/
def rerankAnswers (reranker : RerankerName) : (o : PipeOp) → PipeResp o
  | .rerank query candidates topK => rerankedBy logits reranker query candidates topK
  | o => onCallAnswers none none o

def rerankPipeline (reranker : RerankerName) : OnlinePipeline where
  settings := { reranker := reranker, piiRedactionEnabled := false }

def rerankProgram [Runtime] (reranker : RerankerName) :
    Prog PipeOp PipeResp (Except Exn Answer) :=
  ((rerankPipeline reranker).answer "who is on call" ⟨"bob", ∅, "acme"⟩).run

/-- What an operation asks the reranker to score. -/
def fusedScores : PipeOp → Option (List ℚ)
  | .rerank _ candidates _ => some (candidates.map ScoredChunk.score)
  | _ => none

/-- The run reranks one candidate, fused from the first place of one list. -/
theorem rerankProgram_reranks [Runtime] {reranker : RerankerName}
    (h : some [1 / 61] ∈ ((rerankProgram reranker).trace fun _ => rerankAnswers reranker).map
      fun e => fusedScores e.op) :
    ∃ q candidates k, (⟨.rerank q candidates k, rerankedBy logits reranker q candidates k⟩ : PipeEvent)
        ∈ (rerankProgram reranker).trace (fun _ => rerankAnswers reranker)
      ∧ candidates.map ScoredChunk.score = [1 / 61] := by
  obtain ⟨e, he, hscores⟩ := List.mem_map.mp h
  have hanswer := Prog.mem_trace he
  obtain ⟨o, a⟩ := e
  cases o with
  | rerank q candidates k =>
      rw [hanswer] at he
      exact ⟨q, candidates, k, he, Option.some.inj hscores⟩
  | _ => cases hscores

theorem confidence_fused_iff_identity : let _ := Runtime.ascii
    let outcome := (rerankProgram .identity).result fun _ => rerankAnswers .identity
    ∃ q candidates k, (⟨.rerank q candidates k, rerankedBy logits .identity q candidates k⟩ : PipeEvent)
        ∈ (rerankProgram .identity).trace (fun _ => rerankAnswers .identity)
      ∧ ((RefusedLow outcome ↔ ∀ c ∈ candidates, c.score < 1 / 100)
        ↔ RerankerName.identity = .identity
          ∨ ((∀ s ∈ logits (rerankPairs q candidates), s < 1 / 100)
            ↔ ∀ c ∈ candidates, c.score < 1 / 100)) := by
  intro _
  obtain ⟨q, candidates, k, he, hscores⟩ :=
    @rerankProgram_reranks _ .identity (by decide +kernel)
  have hne : candidates ≠ [] := by
    rintro rfl
    cases hscores
  exact ⟨q, candidates, k, he, confidence_fused_iff (by simp [logits]) (by decide) hne
    (Prog.runs_trace (fun _ => rerankAnswers .identity) (rerankProgram .identity)) he
    (rerankedBy_val _ _ _ _ _)⟩

/-- The best candidate of both lists, refused for a negative logit. -/
theorem logit_refused :
    ¬ ∀ (_ : Runtime) (pipeline : OnlinePipeline) (predict : List (String × String) → List ℚ)
      (query : String) (principal : Principal) (q : String) (candidates : List (ScoredChunk ℚ))
      (k : ℤ) (answered : Except Exn (Reranked candidates)) (t : List PipeEvent)
      (outcome : Except Exn Answer), (∀ pairs, (predict pairs).length = pairs.length) →
      1 ≤ pipeline.settings.retrieval.rerankTopK → candidates ≠ [] →
      Prog.Runs (pipeline.answer query principal).run t outcome →
      (⟨.rerank q candidates k, answered⟩ : PipeEvent) ∈ t →
      answered.map Subtype.val = rerankBy predict pipeline.settings.reranker q candidates k →
      (RefusedLow outcome
        ↔ ∀ c ∈ candidates, c.score < pipeline.settings.refusalScoreThreshold) := by
  intro h
  let _ := Runtime.ascii
  obtain ⟨q, candidates, k, he, hscores⟩ :=
    @rerankProgram_reranks _ .crossEncoder (by decide +kernel)
  have hne : candidates ≠ [] := by
    rintro rfl
    cases hscores
  have hlow : RefusedLow
      ((rerankProgram .crossEncoder).result fun _ => rerankAnswers .crossEncoder) := by
    obtain ⟨answer, hanswer, hshape⟩ :
        ∃ answer, (rerankProgram .crossEncoder).result (fun _ => rerankAnswers .crossEncoder)
            = .ok answer
          ∧ (answer.refused, answer.refusalReason) = (true, some "low_confidence_score") :=
      ok_of_toOption (by decide +kernel)
    obtain ⟨hrefused, hreason⟩ := Prod.mk.inj hshape
    exact ⟨answer, hanswer, hrefused, hreason⟩
  have hall := (h _ (rerankPipeline .crossEncoder) logits _ _ q candidates k _ _ _
    (by simp [logits]) (by decide) hne
    (Prog.runs_trace (fun _ => rerankAnswers .crossEncoder) (rerankProgram .crossEncoder)) he
    (rerankedBy_val _ _ _ _ _)).mp hlow
  obtain ⟨c, hc, hscore⟩ := List.mem_map.mp (hscores ▸ List.mem_singleton_self (1 / 61 : ℚ))
  have hlt := hall c hc
  rw [hscore] at hlt
  exact absurd hlt (by decide +kernel)

end Rag
