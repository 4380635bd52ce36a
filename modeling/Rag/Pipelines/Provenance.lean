import Rag.Pipelines.Online

/-!
Where the pipeline's prompts and citations come from.

Both backends, the reranker and the model are adversarial: whatever they return, the
context of a prompt is one of the reranker's answers, and every chunk of it was returned
by a search and passes the ACL check. The reading is over a recorded trace, so the
chunk that is checked after fusion is the one that is prompted and cited.
-/

namespace Rag

open Py Interaction

abbrev PipeEvent : Type := Event PipeOp PipeResp

/-- The hits of a dense or lexical search. -/
def hitsOf : PipeEvent → List (ScoredChunk ℚ)
  | ⟨.search _ _ _ _, .ok hits⟩ => hits
  | ⟨.lexicalSearch _ _ _ _, .ok hits⟩ => hits
  | _ => []

/-- What the reranker answered. -/
def rerankOf : PipeEvent → Option (List (ScoredChunk ℚ))
  | ⟨.rerank _ _ _, .ok out⟩ => some out.val
  | _ => none

/-- The chunks the searches of `t` returned. -/
def retrieved (t : List PipeEvent) : List Chunk := (t.flatMap hitsOf).map ScoredChunk.chunk

/-- The answers of the reranker in `t`. -/
def reranked (t : List PipeEvent) : List (List (ScoredChunk ℚ)) := t.filterMap rerankOf

/-- A chunk a search of `t` returned and the principal may see. -/
structure Shown (t : List PipeEvent) (principal : Principal) (chunk : Chunk) : Prop where
  allowed : isAllowed principal chunk.acl = true
  found : chunk ∈ retrieved t

/-- A context the reranker of `t` returned, all of it shown. -/
structure Evidence (t : List PipeEvent) (principal : Principal)
    (scored : List (ScoredChunk ℚ)) : Prop where
  answered : scored ∈ reranked t
  shown : ∀ s ∈ scored, Shown t principal s.chunk

/-- The prompts asked are rendered from a context in `E`. -/
def PromptFrom (pipeline : OnlinePipeline) (question : String)
    (E : List (ScoredChunk ℚ) → Prop) : PipeOp → Prop
  | .complete prompt => ∃ scored, E scored ∧
      prompt = answerGroundedPrompt pipeline.promptVersion question (formatContext scored)
  | _ => True

/-- Every citation is of a chunk of a context in `E`. -/
def CitesFrom (E : List (ScoredChunk ℚ) → Prop) (citations : List Citation) : Prop :=
  ∀ c ∈ citations, ∃ scored, E scored ∧ ∃ s ∈ scored, c = citationFromScored s

/-- The answer was recorded in `t`. -/
def Recorded {Op : Type} {Resp : Op → Type} (t : List (Event Op Resp)) (o : Op) (r : Resp o) :
    Prop :=
  (⟨o, r⟩ : Event Op Resp) ∈ t

/-- A specification under every record holds whatever the answers are. -/
theorem Spec.of_recorded {Op : Type} {Resp : Op → Type} {α : Type} {G : Op → Prop}
    {p : Prog Op Resp α} {Q : α → Prop} (h : ∀ t, Prog.Spec (Recorded t) G p Q) :
    Prog.Spec (fun _ _ => True) G p Q := by
  induction p with
  | ret a => exact h []
  | call o k ih =>
      refine ⟨(h []).1, ?_⟩
      intro r _
      apply ih r
      intro t
      have hnext := (h (⟨o, r⟩ :: t)).2 r List.mem_cons_self
      refine hnext.strengthen ?_ fun _ ho => ho
      intro o' r' _ hr'
      exact List.mem_cons_of_mem _ hr'

/-- The operations retrieval asks for a principal in a version. -/
def Retrieves (principal : Principal) (indexVersion : Option String) : PipeOp → Prop
  | .currentTraceId => True
  | .embed _ => True
  | .search _ _ caller version => caller = principal ∧ version = indexVersion
  | .lexicalSearch _ _ caller version => caller = principal ∧ version = indexVersion
  | .rerank _ _ _ => True
  | _ => False

/-- The operations the searches of one request ask. -/
def Searches (principal : Principal) (indexVersion : Option String) : PipeOp → Prop
  | .embed _ => True
  | .search _ _ caller version => caller = principal ∧ version = indexVersion
  | .lexicalSearch _ _ caller version => caller = principal ∧ version = indexVersion
  | _ => False

theorem Searches.retrieves {principal : Principal} {indexVersion : Option String} {o : PipeOp}
    (h : Searches principal indexVersion o) : Retrieves principal indexVersion o := by
  cases o with
  | embed texts => trivial
  | search vector topK caller version => exact h
  | lexicalSearch query topK caller version => exact h
  | _ => cases h

/-- A backend of retrieval raised. -/
def BackendRaises : (o : PipeOp) → PipeResp o → Exn → Prop
  | .embed _, r, exn => r = .error exn
  | .search _ _ _ _, r, exn => r = .error exn
  | .lexicalSearch _ _ _ _, r, exn => r = .error exn
  | .rerank _ _ _, r, exn => r = .error exn
  | _, _, _ => False

section Traces

variable {t u : List PipeEvent}

theorem found_of_hit {e : PipeEvent} {hit : ScoredChunk ℚ} (he : e ∈ t) (hhit : hit ∈ hitsOf e) :
    hit.chunk ∈ retrieved t :=
  List.mem_map_of_mem (List.mem_flatMap.mpr ⟨e, he, hhit⟩)

theorem answered_of_rerank {e : PipeEvent} {scored : List (ScoredChunk ℚ)} (he : e ∈ t)
    (hscored : rerankOf e = some scored) : scored ∈ reranked t :=
  List.mem_filterMap.mpr ⟨e, he, hscored⟩

end Traces

section Specs

variable {t : List PipeEvent} {G : PipeOp → Prop}

/-- What one call promises of its value holds of every value of a fan-out. -/
theorem forEach_spec {Op : Type} {Resp : Op → Type} {A : (o : Op) → Resp o → Prop}
    {G : Op → Prop} {α β : Type} {f : α → ExceptT Exn (Prog Op Resp) β} {P : β → Prop}
    {E : Exn → Prop} (hf : ∀ x, Prog.SpecE A G (f x) P E) (xs : List α) :
    Prog.SpecE A G (forEach f xs) (fun ys => ∀ y ∈ ys, P y) E := by
  induction xs with
  | nil => simp [forEach]
  | cons x xs ih =>
      rw [forEach]
      simp only [Prog.specE_bind]
      refine (hf x).mono ?_ fun _ h => h
      intro y hy
      refine ih.mono ?_ fun _ h => h
      intro ys hys
      simp only [Prog.specE_pure, List.mem_cons, forall_eq_or_imp]
      exact ⟨hy, hys⟩

/-- What holds of every hit of the searches holds of every chunk retrieval returns, and all
of them passed the re-check. What it raises a backend raised, or fusion. -/
theorem retrieveMulti_spec {A : (o : PipeOp) → PipeResp o → Prop} {P : Chunk → Prop}
    {E : Exn → Prop} (pipeline : OnlinePipeline) (queries : List String) (principal : Principal)
    (topK : ℤ) (indexVersion : Option String) (denseQueries : List String)
    (hG : ∀ o, Searches principal indexVersion o → G o)
    (hsearch : ∀ v hits, A (.search v topK principal indexVersion) (.ok hits) →
      ∀ hit ∈ hits, P hit.chunk)
    (hlexical : ∀ q hits, A (.lexicalSearch q topK principal indexVersion) (.ok hits) →
      ∀ hit ∈ hits, P hit.chunk)
    (hbackend : ∀ o r exn, A o r → BackendRaises o r exn → E exn)
    (hfusion : ∀ exn ∈ fusionErrors, E exn) :
    Prog.SpecE A G
      (retrieveMulti pipeline.retriever queries principal topK indexVersion denseQueries)
      (fun scored => ∀ s ∈ scored, isAllowed principal s.chunk.acl = true ∧ P s.chunk) E := by
  have hdense : ∀ v, Prog.SpecE A G (pipeline.retriever.search v topK principal indexVersion)
      (fun hits => ∀ hit ∈ hits, P hit.chunk) E := by
    intro v
    refine ⟨hG _ ⟨rfl, rfl⟩, ?_⟩
    rintro (exn | hits) hanswer
    · exact hbackend _ _ exn hanswer rfl
    · exact hsearch v hits hanswer
  have hlex : ∀ q, Prog.SpecE A G
      (pipeline.retriever.lexicalSearch q topK principal indexVersion)
      (fun hits => ∀ hit ∈ hits, P hit.chunk) E := by
    intro q
    refine ⟨hG _ ⟨rfl, rfl⟩, ?_⟩
    rintro (exn | hits) hanswer
    · exact hbackend _ _ exn hanswer rfl
    · exact hlexical q hits hanswer
  unfold retrieveMulti
  by_cases hempty : queries = []
  · simp [hempty]
  rw [if_neg hempty]
  extract_lets denseTexts
  split_ifs
  · exact hfusion _ (by simp [fusionErrors])
  · simp only [Prog.specE_bind]
    refine ⟨hG _ trivial, ?_⟩
    rintro (exn | vectors) hanswer
    · exact hbackend _ _ exn hanswer rfl
    · refine (forEach_spec hdense vectors).mono ?_ fun _ h => h
      intro denseHits hdenseHits
      refine (forEach_spec hlex queries).mono ?_ fun _ h => h
      intro lexicalHits hlexicalHits
      split
      · rename_i exn hexn
        exact hfusion exn (reciprocalRankFusion_error hexn)
      · rename_i fused hfused
        intro s hs
        obtain ⟨hallowed, f, hf, hchunk⟩ := mem_authoriseFused hs
        obtain ⟨ranked, hranked, hit, hhit, hfrom⟩ := mem_reciprocalRankFusion hfused hf
        refine ⟨hallowed, ?_⟩
        rw [hchunk, hfrom]
        rcases List.mem_append.mp hranked with h | h
        · exact hdenseHits ranked h hit hhit
        · exact hlexicalHits ranked h hit hhit

variable [Runtime] (pipeline : OnlinePipeline) (query : String) (principal : Principal)

/-- What retrieval hands on is what the reranker made of chunks the searches hit, and what it raises
a backend raised, or fusion. -/
theorem retrieve_returns {A : (o : PipeOp) → PipeResp o → Prop} {P : Chunk → Prop}
    {R : List (ScoredChunk ℚ) → Prop} {E : Exn → Prop} (indexVersion : String)
    (hG : ∀ o, Retrieves principal (some indexVersion) o → G o)
    (hsearch : ∀ v k hits, A (.search v k principal (some indexVersion)) (.ok hits) →
      ∀ hit ∈ hits, P hit.chunk)
    (hlexical : ∀ q k hits, A (.lexicalSearch q k principal (some indexVersion)) (.ok hits) →
      ∀ hit ∈ hits, P hit.chunk)
    (hrerank : ∀ q candidates k (out : Reranked candidates),
      A (.rerank q candidates k) (.ok out) → R out.val)
    (hbackend : ∀ o r exn, A o r → BackendRaises o r exn → E exn)
    (hfusion : ∀ exn ∈ fusionErrors, E exn) :
    Prog.SpecE A G (pipeline.retrieve query principal indexVersion)
      (fun result => R result.results
        ∧ ∀ s ∈ result.results, isAllowed principal s.chunk.acl = true ∧ P s.chunk) E := by
  unfold OnlinePipeline.retrieve
  simp only [Prog.specE_bind]
  refine ⟨hG _ trivial, ?_⟩
  rintro traceId -
  refine (retrieveMulti_spec pipeline _ principal _ _ _ (fun o ho => hG o ho.retrieves)
    (fun v => hsearch v _) (fun q => hlexical q _) hbackend hfusion).mono ?_ fun _ h => h
  intro scored hscored
  refine ⟨hG _ trivial, ?_⟩
  rintro (exn | out) hanswer
  · exact hbackend _ _ exn hanswer rfl
  · refine ⟨hrerank _ _ _ out hanswer, ?_⟩
    intro s hs
    obtain ⟨c, hc, hchunk⟩ := out.property s hs
    rw [hchunk]
    exact hscored c hc

/-- What retrieval hands on is an answer of the reranker over shown candidates. -/
theorem retrieve_spec (indexVersion : String)
    (hG : ∀ o, Retrieves principal (some indexVersion) o → G o) :
    Prog.SpecE (Recorded t) G (pipeline.retrieve query principal indexVersion)
      (fun result => Evidence t principal result.results) fun _ => True := by
  have hreturns := retrieve_returns pipeline query principal (A := Recorded t)
    (P := fun chunk => chunk ∈ retrieved t) (R := fun scored => scored ∈ reranked t)
    (E := fun _ => True) indexVersion hG (fun _ _ _ hanswer _ hhit => found_of_hit hanswer hhit)
    (fun _ _ _ hanswer _ hhit => found_of_hit hanswer hhit)
    (fun _ _ _ _ hanswer => answered_of_rerank hanswer rfl) (fun _ _ _ _ _ => trivial)
    fun _ _ => trivial
  refine hreturns.mono ?_ fun _ h => h
  rintro result ⟨hanswered, hshown⟩
  refine ⟨hanswered, ?_⟩
  intro s hs
  obtain ⟨hallowed, hfound⟩ := hshown s hs
  exact ⟨hallowed, hfound⟩

/-- Generation prompts with the context it was given and cites nothing else. -/
theorem generate_spec {E : List (ScoredChunk ℚ) → Prop} (traceId : String) (result : QueryResult)
    (hresult : E result.results) :
    Prog.SpecE (Recorded t) (PromptFrom pipeline query E)
      (pipeline.generate query traceId result)
      (fun generated => match generated with
        | .ok answer => CitesFrom E answer.citations
        | .error refusal => CitesFrom E refusal.citations)
      fun _ => True := by
  have hnone : CitesFrom E [] := by
    intro c hc
    cases hc
  unfold OnlinePipeline.generate
  simp only [Prog.specE_bind, Prog.specE_attempt]
  refine ⟨trivial, ?_⟩
  rintro generationTrace -
  have hfail : ∀ exn : Exn, Prog.SpecE (Recorded t) (PromptFrom pipeline query E)
      (if exn.cls = .llm then
        (pure (.error (pipeline.refuse "llm_unavailable" traceId)) : Pipe (Except Answer Answer))
      else throw exn)
      (fun generated => match generated with
        | .ok answer => CitesFrom E answer.citations
        | .error refusal => CitesFrom E refusal.citations) fun _ => True := by
    intro exn
    split_ifs
    · exact hnone
    · trivial
  unfold generateGrounded
  dsimp only
  split_ifs
  · exact hnone
  · simp only [Prog.specE_bind]
    refine ⟨⟨result.results, hresult, rfl⟩, ?_⟩
    rintro (exn | ⟨rawText, usage⟩) -
    · exact hfail exn
    · intro c hc
      obtain ⟨s, hs, rfl⟩ := mem_groundAnswer_citations hc
      exact ⟨result.results, hresult, s, hs, rfl⟩

/-- Without the answer cache, every prompt is rendered from shown chunks and every
citation is of one of them. -/
theorem answer_spec (hcache : pipeline.settings.cacheEnabled = false) :
    Prog.SpecE (Recorded t) (PromptFrom pipeline query (Evidence t principal))
      (pipeline.answer query principal)
      (fun answer => CitesFrom (Evidence t principal) answer.citations) fun _ => True := by
  have hnone : CitesFrom (Evidence t principal) [] := by
    intro c hc
    cases hc
  have hlookup : ∀ key, pipeline.lookupCache key query = pure none := by
    intro key
    rw [OnlinePipeline.lookupCache, hcache]
    rfl
  have hstore : ∀ key answer, pipeline.storeAnswer key query answer = pure () := by
    intro key answer
    rw [OnlinePipeline.storeAnswer, OnlinePipeline.shouldCache, hcache]
    rfl
  unfold OnlinePipeline.answer OnlinePipeline.activeIndexVersion
  simp only [Prog.specE_bind, hlookup, hstore, Prog.specE_pure]
  refine ⟨trivial, fun traceId _ => ⟨trivial, fun resolved _ => ?_⟩⟩
  cases hroute : routeQuery query with
  | refuse => exact hnone
  | chitchat => exact hnone
  | _ =>
      dsimp only
      simp only [Prog.specE_bind]
      refine (retrieve_spec pipeline query principal _ ?_).mono ?_ fun _ h => h
      · intro o ho
        cases o <;> trivial
      · intro result hresult
        refine (generate_spec pipeline query traceId result hresult).mono ?_ fun _ h => h
        rintro (refusal | grounded) hcites
        · exact hcites
        · exact ⟨trivial, fun _ _ => hcites⟩

end Specs

end Rag
