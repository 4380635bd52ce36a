import Rag.Eval.Scores
import Rag.Pipelines.Outcome

/-!
The pipeline's answer to a question, scored again and again.

An evaluation keeps of the answer whether it was refused and what it cost. Neither depends on a
trace id, so where the backends retrieve, complete and look up in the same way whatever happened
before, the answer is scored the same from every state they are in (`fallbackScore_repeats`).
-/

namespace Rag

open Py Interaction

section Answer

variable [Runtime] (pipeline : OnlinePipeline) (index : (o : PipeOp) → PipeResp o)

/-- An answer given again. Trace ids are new each time, and what is stored is taken. -/
def Repeated : (o : PipeOp) → PipeResp o → Prop
  | .startTrace, _ => True
  | .currentTraceId, _ => True
  | .cacheGet key, r => pipeline.settings.cacheEnabled = true → r = index (.cacheGet key)
  | .cacheSet _ _, r => pipeline.settings.cacheEnabled = true → r = .ok ()
  | .semanticGet query scope, r => pipeline.settings.cacheEnabled = true →
      pipeline.semanticCache = true → r = index (.semanticGet query scope)
  | .semanticSet _ _ _, r => pipeline.settings.cacheEnabled = true →
      pipeline.semanticCache = true → r = .ok ()
  | o, r => r = index o

/-- Whatever state the backends are in, they answer the pipeline the same. -/
def Repeats {σ : Type} (backend : σ → (o : ServiceOp) → ServiceResp o × σ) : Prop :=
  ∀ s o, Repeated pipeline index o (backend s (.inr o)).1

variable {pipeline index} {question : String} {principal : Principal}

omit [Runtime] in
theorem Repeated.reads {o : PipeOp} {r : PipeResp o} (ho : ReadsIndex o)
    (h : Repeated pipeline index o r) : r = index o := by
  cases o with
  | resolveAlias | embed | search | lexicalSearch | rerank => exact h
  | _ => cases ho

omit [Runtime] in
theorem lookupCache_settled (key : AnswerKey) (query : String) :
    ∃ found : Except Exn (Option Answer),
      Prog.SpecE (Repeated pipeline index) (fun _ => True) (pipeline.lookupCache key query)
        (fun got => found = .ok got) fun exn => found = .error exn := by
  unfold OnlinePipeline.lookupCache
  by_cases hcache : pipeline.settings.cacheEnabled = true
  · rw [if_pos hcache]
    refine ⟨match index (.cacheGet key) with
      | .error exn => .error exn
      | .ok (some answer) => .ok (some answer)
      | .ok none => if pipeline.semanticCache then index (.semanticGet query key.scope)
          else .ok none, ?_⟩
    simp only [Prog.specE_bind]
    refine ⟨trivial, ?_⟩
    intro stored hstored
    rw [← hstored hcache]
    rcases stored with exn | _ | answer
    · rfl
    · dsimp only
      split_ifs with hsemantic
      · refine ⟨trivial, ?_⟩
        intro near hnear
        rw [← hnear hcache hsemantic]
        cases near <;> rfl
      · rfl
    · rfl
  · rw [if_neg hcache]
    exact ⟨.ok none, rfl⟩

omit [Runtime] in
/-- Nothing that is stored fails. -/
theorem storeAnswer_settled (key : AnswerKey) (query : String) (answer : Answer) :
    Prog.SpecE (Repeated pipeline index) (fun _ => True) (pipeline.storeAnswer key query answer)
      (fun _ => True) fun _ => False := by
  unfold OnlinePipeline.storeAnswer
  by_cases hkeep : pipeline.shouldCache answer = true
  · have hcache : pipeline.settings.cacheEnabled = true :=
      (Bool.and_eq_true_iff.mp hkeep).1
    rw [if_pos hkeep]
    simp only [Prog.specE_bind]
    refine ⟨trivial, ?_⟩
    intro stored hstored
    rw [hstored hcache]
    dsimp only
    split_ifs with hsemantic
    · refine ⟨trivial, ?_⟩
      intro near hnear
      rw [hnear hcache hsemantic]
      trivial
    · trivial
  · rw [if_neg hkeep]
    trivial

/-- What a generated answer is scored by. -/
def generatedScore : Except Answer Answer → Bool × ℚ
  | .ok answer => (answer.refused, answer.usage.costUsd)
  | .error refusal => (refusal.refused, refusal.usage.costUsd)

/-- Whether a text is kept does not depend on the trace it is generated in. -/
theorem groundAnswer_score (scored : List (ScoredChunk ℚ)) (scoreThreshold : ℚ) (redact : Bool)
    (traceId traceId' : String) (rawText : String) (usage : Usage) :
    generatedScore (.ok (groundAnswer scored scoreThreshold redact traceId rawText usage))
      = generatedScore
          (.ok (groundAnswer scored scoreThreshold redact traceId' rawText usage)) := by
  unfold groundAnswer
  dsimp only
  split <;> rfl

/-- Nor does what is made of the model's answer. -/
theorem afterCompletion_score (traceId traceId' generationTrace generationTrace' : String)
    (results : List (ScoredChunk ℚ)) (answered : Except Exn (String × Usage)) :
    (afterCompletion pipeline traceId generationTrace results answered).map generatedScore
      = (afterCompletion pipeline traceId' generationTrace' results answered).map
        generatedScore := by
  rcases answered with exn | ⟨rawText, usage⟩
  · rw [afterCompletion, afterCompletion]
    split_ifs <;> rfl
  · rw [afterCompletion, afterCompletion]
    simp only [Except.map, groundAnswer_score _ _ _ generationTrace generationTrace']

/-- A refusal before the model is called. -/
def earlyRefusal (pipeline : OnlinePipeline) (results : List (ScoredChunk ℚ))
    (traceId : String) : Answer :=
  refusedAnswer
    ((shouldRefuse results [] pipeline.settings.refusalScoreThreshold).getD "unknown")
    { model := pipeline.modelName, promptVersion := pipeline.promptVersion.value } traceId

theorem generate_settled (results : List (ScoredChunk ℚ)) :
    ∃ score : Except Exn (Bool × ℚ), ∀ traceId result, result.results = results →
      Prog.SpecE (Repeated pipeline index) (fun _ => True)
        (pipeline.generate question traceId result)
        (fun generated => score = .ok (generatedScore generated))
        fun exn => score = .error exn := by
  let answered := index (.complete (pipeline.promptOf question results))
  refine ⟨if refusesEarly results pipeline.settings.refusalScoreThreshold then
      .ok (generatedScore (.ok (earlyRefusal pipeline results "")))
    else (afterCompletion pipeline "" "" results answered).map generatedScore, ?_⟩
  rintro traceId result rfl
  change Prog.Spec _ _ (pipeline.generate question traceId result).run _
  rw [generate_eq]
  refine ⟨trivial, fun generationTrace _ => ?_⟩
  split_ifs
  · rfl
  · refine ⟨trivial, fun given hgiven => ?_⟩
    have hanswered : given = answered := hgiven
    have hscore := @afterCompletion_score _ pipeline "" traceId "" generationTrace result.results
      answered
    rw [hanswered, hscore]
    beta_reduce
    generalize afterCompletion pipeline traceId generationTrace result.results answered = generated
    cases generated <;> rfl

/-- What the pipeline's answer is scored by. -/
def answerScore (answer : Answer) : Bool × ℚ := (answer.refused, answer.usage.costUsd)

theorem execute_settled (version : String) (key : AnswerKey) :
    ∃ score : Except Exn (Bool × ℚ), ∀ traceId,
      Prog.SpecE (Repeated pipeline index) (fun _ => True)
        (pipeline.execute question traceId principal version key)
        (fun answer => score = .ok (answerScore answer)) fun exn => score = .error exn := by
  have hgrounded : ∃ score : Except Exn (Bool × ℚ), ∀ traceId,
      Prog.SpecE (Repeated pipeline index) (fun _ => True)
        (pipeline.ground question traceId principal version key)
        (fun answer => score = .ok (answerScore answer)) fun exn => score = .error exn := by
    obtain ⟨found, hfound⟩ := @retrieve_settled _ pipeline principal index question
      (Repeated pipeline index) (fun o r ho hr => hr.reads ho) version
    cases found with
    | error exn =>
        refine ⟨.error exn, fun traceId => ?_⟩
        simp only [OnlinePipeline.ground, Prog.specE_bind]
        refine Prog.SpecE.mono hfound ?_ ?_
        · intro result hresult
          cases hresult
        · intro exn' hexn
          rw [Except.error.inj hexn]
    | ok results =>
        obtain ⟨score, hscore⟩ := @generate_settled _ pipeline index question results
        refine ⟨score, fun traceId => ?_⟩
        simp only [OnlinePipeline.ground, Prog.specE_bind]
        refine Prog.SpecE.mono hfound ?_ ?_
        · intro result hresult
          refine (hscore traceId result (Except.ok.inj hresult).symm).mono ?_ fun _ h => h
          rintro (refusal | grounded) hgenerated
          · exact hgenerated
          · dsimp only
            simp only [Prog.specE_bind, Prog.specE_total, Prog.specE_pure]
            refine ⟨trivial, fun answerTrace _ => ?_⟩
            refine Prog.SpecE.mono (storeAnswer_settled key question _) ?_ ?_
            · intro _ _
              exact hgenerated
            · intro _ hnever
              exact hnever.elim
        · intro exn hexn
          cases hexn
  unfold OnlinePipeline.execute
  cases hroute : routeQuery question with
  | refuse => exact ⟨.ok (true, 0), fun _ => rfl⟩
  | chitchat => exact ⟨.ok (false, 0), fun _ => rfl⟩
  | factual => exact hgrounded
  | procedural => exact hgrounded
  | complex => exact hgrounded

/-- What an answer is scored by is settled by how the backends repeat themselves. -/
theorem answer_settled (pipeline : OnlinePipeline) (index : (o : PipeOp) → PipeResp o)
    (question : String) (principal : Principal) :
    ∃ score : Except Exn (Bool × ℚ),
      Prog.SpecE (Repeated pipeline index) (fun _ => True) (pipeline.answer question principal)
        (fun answer => score = .ok (answerScore answer)) fun exn => score = .error exn := by
  let version := pipeline.versionOf (index (.resolveAlias pipeline.settings.collectionAlias))
  let key := pipeline.keyOf question principal version
  obtain ⟨found, hfound⟩ := @lookupCache_settled pipeline index key question
  obtain ⟨score, hscore⟩ := @execute_settled _ pipeline index question principal version key
  refine ⟨match found with
    | .error exn => .error exn
    | .ok (some hit) => .ok (answerScore hit)
    | .ok none => score, ?_⟩
  rw [answer_eq]
  unfold OnlinePipeline.activeIndexVersion
  simp only [Prog.specE_bind, Prog.specE_total, Prog.specE_pure]
  refine ⟨trivial, fun traceId _ => ⟨trivial, fun resolved hresolved => ?_⟩⟩
  have hversion : resolved = index (.resolveAlias pipeline.settings.collectionAlias) := hresolved
  rw [hversion]
  refine Prog.SpecE.mono hfound ?_ ?_
  · rintro got rfl
    cases got with
    | some hit => rfl
    | none => exact hscore traceId
  · rintro exn rfl
    rfl

end Answer

/-- Backends that repeat themselves let the pipeline's answer be scored the same. -/
theorem fallbackScore_repeats [Runtime] {pipeline : OnlinePipeline}
    {index : (o : PipeOp) → PipeResp o} {σ : Type}
    {backend : σ → (o : ServiceOp) → ServiceResp o × σ} (h : Repeats pipeline index backend)
    (question : String) (principal : Principal) (w w' : σ) :
    fallbackScore (fallbackOutcome pipeline backend question principal w)
      = fallbackScore (fallbackOutcome pipeline backend question principal w') := by
  obtain ⟨score, hscore⟩ := answer_settled pipeline index question principal
  have hsettled : ∀ w, fallbackScore (fallbackOutcome pipeline backend question principal w)
      = score.toOption := by
    intro w
    have hvalue := @Prog.Spec.against _ _ _ _ (fun s o => backend s (.inr o)) _ _ _ _ hscore
      (fun s o _ => h s o) w
    rw [fallbackOutcome, against_onPipeline]
    split at hvalue
    · rename_i answer hanswer
      rw [hanswer, hvalue]
      rfl
    · rename_i exn hexn
      rw [hexn, hvalue]
      rfl
  rw [hsettled w, hsettled w']

end Rag
