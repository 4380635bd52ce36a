import Rag.Pipelines.Execution

/-!
What a call of the pipeline that was not served from a cache returns.

The answer is one of the fixed texts without citations, or it is built from a context
the reranker returned and a text the model completed that context's prompt with. The
alias is resolved once, before anything else is asked.
-/

namespace Rag

open Py Interaction

/-- The texts the pipeline answers with by itself. -/
def fixedTexts : List String :=
  ["I don't know based on the available documents.",
    "Hello. Ask me a question about the indexed documents."]

/-- An answer no document went into. -/
structure FixedAnswer (answer : Answer) : Prop where
  text : answer.text ∈ fixedTexts
  uncited : answer.citations = []
  fresh : answer.cached = false

theorem refusedAnswer_fixed (reason : String) (usage : Usage) (traceId : String) :
    FixedAnswer (refusedAnswer reason usage traceId) where
  text := by simp [refusedAnswer, fixedTexts]
  uncited := rfl
  fresh := rfl

theorem OnlinePipeline.refuse_fixed (pipeline : OnlinePipeline) (reason traceId : String) :
    FixedAnswer (pipeline.refuse reason traceId) where
  text := by simp [OnlinePipeline.refuse, fixedTexts]
  uncited := rfl
  fresh := rfl

/-- The prompt a context is rendered into. -/
def OnlinePipeline.promptOf (pipeline : OnlinePipeline) (question : String)
    (scored : List (ScoredChunk ℚ)) : String :=
  answerGroundedPrompt pipeline.promptVersion question (formatContext scored)

section Returns

variable [Runtime] (pipeline : OnlinePipeline) (query : String) (principal : Principal)
  {A : (o : PipeOp) → PipeResp o → Prop} {G : PipeOp → Prop}

/-- The model's text is one `A` knows of, and the answer is what generation makes of it. -/
def GroundedOn (A : (o : PipeOp) → PipeResp o → Prop) (scored : List (ScoredChunk ℚ))
    (answer : Answer) : Prop :=
  ∃ rawText usage usage' traceId,
    A (.complete (pipeline.promptOf query scored)) (.ok (rawText, usage))
      ∧ answer = groundAnswer scored pipeline.settings.refusalScoreThreshold
        pipeline.settings.piiRedactionEnabled traceId rawText usage'

theorem generate_returns (traceId : String) (result : QueryResult) (hid : G .currentTraceId)
    (hprompt : G (.complete (pipeline.promptOf query result.results))) :
    Prog.SpecE A G (pipeline.generate query traceId result)
      (fun generated => match generated with
        | .ok answer => FixedAnswer answer ∨ GroundedOn pipeline query A result.results answer
        | .error refusal => FixedAnswer refusal)
      fun _ => True := by
  have hfail : ∀ exn : Exn, Prog.SpecE A G
      (if exn.cls = .llm then
        (pure (.error (pipeline.refuse "llm_unavailable" traceId)) : Pipe (Except Answer Answer))
      else throw exn)
      (fun generated => match generated with
        | .ok answer => FixedAnswer answer ∨ GroundedOn pipeline query A result.results answer
        | .error refusal => FixedAnswer refusal) fun _ => True := by
    intro exn
    split_ifs
    · exact pipeline.refuse_fixed _ _
    · trivial
  unfold OnlinePipeline.generate
  simp only [Prog.specE_bind, Prog.specE_attempt]
  refine ⟨hid, fun generationTrace _ => ?_⟩
  unfold generateGrounded
  dsimp only
  split_ifs
  · exact Or.inl (refusedAnswer_fixed _ _ _)
  · simp only [Prog.specE_bind]
    refine ⟨hprompt, ?_⟩
    rintro (exn | ⟨rawText, usage⟩) hanswer
    · exact hfail exn
    · exact Or.inr ⟨rawText, usage, _, generationTrace, hanswer, rfl⟩

omit [Runtime] in
/-- What is kept is kept under the key and the scope of the call, in both caches. -/
def Stored (A : (o : PipeOp) → PipeResp o → Prop) (key : AnswerKey) (answer : Answer) : Prop :=
  pipeline.shouldCache answer = true → A (.cacheSet key answer) (.ok ())
    ∧ (pipeline.semanticCache = true → A (.semanticSet query answer key.scope) (.ok ()))

omit [Runtime] in
theorem storeAnswer_returns (key : AnswerKey) (answer : Answer)
    (hexact : G (.cacheSet key answer)) (hnear : G (.semanticSet query answer key.scope)) :
    Prog.SpecE A G (pipeline.storeAnswer key query answer)
      (fun _ => Stored pipeline query A key answer) fun _ => True := by
  unfold OnlinePipeline.storeAnswer
  by_cases hkeep : pipeline.shouldCache answer = true
  · rw [if_pos hkeep]
    simp only [Prog.specE_bind]
    refine ⟨hexact, ?_⟩
    rintro (exn | _) hset
    · trivial
    · dsimp only
      split_ifs with hsemantic
      · refine ⟨hnear, ?_⟩
        rintro (exn | _) hnearSet
        · trivial
        · exact fun _ => ⟨hset, fun _ => hnearSet⟩
      · exact fun _ => ⟨hset, fun h => absurd h hsemantic⟩
  · rw [if_neg hkeep]
    exact fun h => absurd h hkeep

/-- The context is an answer of the reranker in `R`, over chunks in `P` the principal may
see. -/
structure ContextIn (P : Chunk → Prop) (R : List (ScoredChunk ℚ) → Prop)
    (scored : List (ScoredChunk ℚ)) : Prop where
  answered : R scored
  allowed : ∀ s ∈ scored, isAllowed principal s.chunk.acl = true
  found : ∀ s ∈ scored, P s.chunk

/-- What the pipeline returns behind its caches. -/
inductive Outcome (A : (o : PipeOp) → PipeResp o → Prop) (P : Chunk → Prop)
    (R : List (ScoredChunk ℚ) → Prop) (indexVersion : String) (key : AnswerKey) :
    Answer → Prop
  | fixed {answer : Answer} (h : FixedAnswer answer) : Outcome A P R indexVersion key answer
  | grounded {scored : List (ScoredChunk ℚ)} {generated : Answer} (traceId : String)
      (hcontext : ContextIn principal P R scored)
      (hgenerated : GroundedOn pipeline query A scored generated)
      (hstored : Stored pipeline query A key
        { generated with traceId := traceId, indexVersion := indexVersion }) :
      Outcome A P R indexVersion key
        { generated with traceId := traceId, indexVersion := indexVersion }

/-- The way of `execute` that searches and generates. -/
def OnlinePipeline.ground (pipeline : OnlinePipeline) (query traceId : String)
    (principal : Principal) (indexVersion : String) (key : AnswerKey) : Pipe Answer := do
  let result ← pipeline.retrieve query principal indexVersion
  let generated ← pipeline.generate query traceId result
  match generated with
  | .error refusal => pure refusal
  | .ok grounded => do
      let answerTrace ← Prog.total .currentTraceId
      let answer := { grounded with traceId := answerTrace, indexVersion := indexVersion }
      pipeline.storeAnswer key query answer
      pure answer

theorem execute_returns {P : Chunk → Prop} {R : List (ScoredChunk ℚ) → Prop}
    (traceId indexVersion : String) (key : AnswerKey)
    (hretrieves : ∀ o, Retrieves principal (some indexVersion) o → G o)
    (hsearch : ∀ v k hits, A (.search v k principal (some indexVersion)) (.ok hits) →
      ∀ hit ∈ hits, P hit.chunk)
    (hlexical : ∀ q k hits, A (.lexicalSearch q k principal (some indexVersion)) (.ok hits) →
      ∀ hit ∈ hits, P hit.chunk)
    (hrerank : ∀ q candidates k (out : Reranked candidates),
      A (.rerank q candidates k) (.ok out) → R out.val)
    (hprompt : ∀ scored, ContextIn principal P R scored →
      G (.complete (pipeline.promptOf query scored)))
    (hset : ∀ answer : Answer, answer.indexVersion = indexVersion →
      G (.cacheSet key answer) ∧ G (.semanticSet query answer key.scope)) :
    Prog.SpecE A G (pipeline.execute query traceId principal indexVersion key)
      (Outcome pipeline query principal A P R indexVersion key) fun _ => True := by
  have hgrounded : Prog.SpecE A G
      (pipeline.ground query traceId principal indexVersion key)
      (Outcome pipeline query principal A P R indexVersion key) fun _ => True := by
    simp only [OnlinePipeline.ground, Prog.specE_bind]
    refine (retrieve_returns pipeline query principal indexVersion hretrieves hsearch hlexical
      hrerank (fun _ _ _ _ _ => trivial) fun _ _ => trivial).mono ?_ fun _ h => h
    rintro result ⟨hanswered, hshown⟩
    have hcontext : ContextIn principal P R result.results :=
      ⟨hanswered, fun s hs => (hshown s hs).1, fun s hs => (hshown s hs).2⟩
    refine (generate_returns pipeline query traceId result (hretrieves _ trivial)
      (hprompt _ hcontext)).mono ?_ fun _ h => h
    rintro (refusal | grounded) hgenerated
    · exact .fixed hgenerated
    · simp only [Prog.specE_bind]
      refine ⟨hretrieves _ trivial, fun answerTrace _ => ?_⟩
      obtain ⟨hexact, hnear⟩ :=
        hset { grounded with traceId := answerTrace, indexVersion := indexVersion } rfl
      refine (storeAnswer_returns pipeline query key _ hexact hnear).mono ?_ fun _ h => h
      intro _ hstored
      rcases hgenerated with hfixed | hfrom
      · exact .fixed ⟨hfixed.text, hfixed.uncited, hfixed.fresh⟩
      · exact .grounded answerTrace hcontext hfrom hstored
  have hchitchat : FixedAnswer {
      text := "Hello. Ask me a question about the indexed documents."
      traceId := traceId
      usage := {
        model := pipeline.modelName
        promptVersion := pipeline.promptVersion.value } } :=
    ⟨by simp [fixedTexts], rfl, rfl⟩
  unfold OnlinePipeline.execute
  cases hroute : routeQuery query with
  | refuse => exact .fixed (pipeline.refuse_fixed _ _)
  | chitchat => exact .fixed hchitchat
  | factual => exact hgrounded
  | procedural => exact hgrounded
  | complex => exact hgrounded

end Returns

section Runs

variable [Runtime] {pipeline : OnlinePipeline} {query : String} {principal : Principal}

/-- The key of a call that resolved `indexVersion`. -/
def OnlinePipeline.keyOf (pipeline : OnlinePipeline) (query : String) (principal : Principal)
    (indexVersion : String) : AnswerKey :=
  answerKey query principal indexVersion pipeline.promptVersion.value
    pipeline.settings.retrieval.cacheParams

/-- A lookup under a key. -/
def LooksUp (query : String) (key : AnswerKey) : PipeOp → Prop
  | .cacheGet key' => key' = key
  | .semanticGet query' scope => query' = query ∧ scope = key.scope
  | _ => False

omit [Runtime] in
theorem lookupCache_asks (key : AnswerKey) :
    Prog.SpecE (fun _ _ => True) (LooksUp query key) (pipeline.lookupCache key query)
      (fun _ => True) fun _ => True := by
  unfold OnlinePipeline.lookupCache
  by_cases hcache : pipeline.settings.cacheEnabled = true
  · rw [if_pos hcache]
    simp only [Prog.specE_bind]
    refine ⟨rfl, ?_⟩
    rintro (exn | _ | hit) -
    · trivial
    · dsimp only
      split_ifs
      · refine ⟨⟨rfl, rfl⟩, ?_⟩
        rintro (exn | near) -
        · trivial
        · trivial
      · trivial
    · trivial
  · rw [if_neg hcache]
    trivial

/-- A call that was not served from a cache resolves the alias, misses, and executes. -/
theorem fresh_runs {t : List PipeEvent} {answer : Answer}
    (h : Prog.Runs (pipeline.answer query principal).run t (.ok answer))
    (hfresh : answer.cached = false) :
    ∃ traceId resolved lookups rest,
      t = ⟨.startTrace, traceId⟩ :: ⟨.resolveAlias pipeline.settings.collectionAlias, resolved⟩
        :: (lookups ++ rest)
      ∧ (∀ e ∈ lookups, LooksUp query
        (pipeline.keyOf query principal (pipeline.versionOf resolved)) e.op)
      ∧ Prog.Runs (pipeline.execute query traceId principal (pipeline.versionOf resolved)
        (pipeline.keyOf query principal (pipeline.versionOf resolved))).run rest (.ok answer) := by
  rw [answer_eq] at h
  obtain ⟨traceId, u, rfl, hstarted⟩ := (Prog.runsE_total_bind_iff _ _ _ _).mp h
  obtain ⟨t₁, version, t₂, rfl, hversion, hkeyed⟩ := (Prog.runsE_bind_ok_iff _ _ _ _).mp hstarted
  obtain ⟨resolved, u₁, rfl, hpure⟩ := (Prog.runsE_total_bind_iff _ _ _ _).mp hversion
  obtain ⟨rfl, hresolved⟩ := (Prog.runsE_pure_iff _ _ _).mp hpure
  cases hresolved
  obtain ⟨lookups, got, rest, rfl, hlookup, hrest⟩ := (Prog.runsE_bind_ok_iff _ _ _ _).mp hkeyed
  refine ⟨traceId, resolved, lookups, rest, rfl, ?_, ?_⟩
  · exact ((lookupCache_asks _).runs hlookup fun _ _ => trivial).1
  · cases got with
    | none => exact hrest
    | some hit =>
        obtain ⟨-, hanswer⟩ := (Prog.runsE_pure_iff _ _ _).mp hrest
        cases hanswer
        cases hfresh

/-- The text a model answered with. -/
def completionText : PipeEvent → Option String
  | ⟨.complete _, .ok (rawText, _)⟩ => some rawText
  | _ => none

/-- The texts the model of `t` answered with. -/
def completed (t : List PipeEvent) : List String := t.filterMap completionText

/-- Neither the reranker nor the model. -/
def Gathers : PipeOp → Prop
  | .rerank _ _ _ => False
  | .complete _ => False
  | _ => True

omit [Runtime] in
theorem reranked_append (t u : List PipeEvent) : reranked (t ++ u) = reranked t ++ reranked u :=
  List.filterMap_append

omit [Runtime] in
theorem completed_append (t u : List PipeEvent) :
    completed (t ++ u) = completed t ++ completed u :=
  List.filterMap_append

omit [Runtime] in
theorem gathers_silent {t : List PipeEvent} (h : ∀ e ∈ t, Gathers e.op) :
    reranked t = [] ∧ completed t = [] := by
  constructor
  · rw [reranked, List.filterMap_eq_nil_iff]
    rintro ⟨o, r⟩ he
    have hop := h _ he
    cases o <;> first | rfl | cases hop
  · rw [completed, List.filterMap_eq_nil_iff]
    rintro ⟨o, r⟩ he
    have hop := h _ he
    cases o <;> first | rfl | cases hop

theorem retrieve_runs {indexVersion : String} {t : List PipeEvent} {result : QueryResult}
    (h : Prog.Runs (pipeline.retrieve query principal indexVersion).run t (.ok result)) :
    reranked t = [result.results] ∧ completed t = [] := by
  unfold OnlinePipeline.retrieve at h
  obtain ⟨traceId, u, rfl, htraced⟩ := (Prog.runsE_total_bind_iff _ _ _ _).mp h
  obtain ⟨t₁, scored, t₂, rfl, hsearched, hafter⟩ := (Prog.runsE_bind_ok_iff _ _ _ _).mp htraced
  obtain ⟨t₃, out, t₄, rfl, hreranked, hlast⟩ := (Prog.runsE_bind_ok_iff _ _ _ _).mp hafter
  obtain ⟨answered, t₅, rfl, hdone⟩ := (Prog.runs_call_iff _ _ _ _).mp hreranked
  obtain ⟨rfl, rfl⟩ := (Prog.runs_ret_iff _ _ _).mp hdone
  obtain ⟨rfl, hresult⟩ := (Prog.runsE_pure_iff _ _ _).mp hlast
  cases hresult
  have hspec := retrieveMulti_spec (A := fun _ _ => True) (G := Gathers) (P := fun _ => True)
    (E := fun _ => True) pipeline (pipeline.queryVariants query) principal
    pipeline.settings.retrieval.topK (some indexVersion) (pipeline.denseVariants (pipeline.queryVariants query))
    (fun o ho => by cases o <;> trivial) (fun _ _ _ _ _ => trivial) (fun _ _ _ _ _ => trivial)
    (fun _ _ _ _ _ => trivial) fun _ _ => trivial
  obtain ⟨hnone, hnothing⟩ := gathers_silent (hspec.runs hsearched fun _ _ => trivial).1
  constructor
  · simp only [reranked, List.filterMap_append, List.filterMap_cons, List.filterMap_nil] at hnone ⊢
    simp [hnone, rerankOf]
  · simp only [completed, List.filterMap_append, List.filterMap_cons, List.filterMap_nil]
      at hnothing ⊢
    simp [hnothing, completionText]

/-- Whether generation refuses before the model is called. -/
def refusesEarly (scored : List (ScoredChunk ℚ)) (scoreThreshold : ℚ) : Prop :=
  shouldRefuse scored [] scoreThreshold = some "no_retrieved_context"
    ∨ shouldRefuse scored [] scoreThreshold = some "low_confidence_score"

instance (scored : List (ScoredChunk ℚ)) (scoreThreshold : ℚ) :
    Decidable (refusesEarly scored scoreThreshold) :=
  inferInstanceAs (Decidable (_ ∨ _))

/-- What generation makes of the model's answer. -/
def afterCompletion (pipeline : OnlinePipeline) (traceId generationTrace : String)
    (scored : List (ScoredChunk ℚ)) :
    Except Exn (String × Usage) → Except Exn (Except Answer Answer)
  | .ok (rawText, usage) => .ok (.ok (groundAnswer scored pipeline.settings.refusalScoreThreshold
      pipeline.settings.piiRedactionEnabled generationTrace rawText
      { usage with promptVersion := pipeline.promptVersion.value }))
  | .error exn =>
      if exn.cls = .llm then .ok (.error (pipeline.refuse "llm_unavailable" traceId))
      else .error exn

/-- Generation calls the model at most once. -/
theorem generate_eq (traceId : String) (result : QueryResult) :
    (pipeline.generate query traceId result).run
      = .call .currentTraceId fun generationTrace =>
          if refusesEarly result.results pipeline.settings.refusalScoreThreshold then
            .ret (.ok (.ok (refusedAnswer
              ((shouldRefuse result.results [] pipeline.settings.refusalScoreThreshold).getD "unknown")
              { model := pipeline.modelName, promptVersion := pipeline.promptVersion.value }
              generationTrace)))
          else .call (.complete (pipeline.promptOf query result.results)) fun answered =>
            .ret (afterCompletion pipeline traceId generationTrace result.results answered) := by
  have hfail : ∀ exn : Exn,
      (if exn.cls = .llm then
        (pure (.error (pipeline.refuse "llm_unavailable" traceId)) : Pipe (Except Answer Answer))
      else throw exn).run = .ret (if exn.cls = .llm then
        .ok (.error (pipeline.refuse "llm_unavailable" traceId)) else .error exn) := by
    intro exn
    split_ifs <;> rfl
  unfold OnlinePipeline.generate generateGrounded
  dsimp only
  by_cases hearly : refusesEarly result.results pipeline.settings.refusalScoreThreshold
  · have hreason := hearly
    rw [refusesEarly] at hreason
    simp only [if_pos hreason, if_pos hearly]
    rfl
  · have hreason := hearly
    rw [refusesEarly] at hreason
    simp only [if_neg hreason, if_neg hearly]
    refine congrArg (Prog.call PipeOp.currentTraceId) (funext fun generationTrace => ?_)
    refine congrArg (Prog.call (PipeOp.complete _)) (funext fun answered => ?_)
    rcases answered with exn | ⟨rawText, usage⟩
    · exact hfail exn
    · rfl

/-- Generation that no document went into. -/
def FixedGeneration : Except Answer Answer → Prop
  | .ok answer => FixedAnswer answer
  | .error refusal => FixedAnswer refusal

theorem generate_runs {traceId : String} {result : QueryResult} {t : List PipeEvent}
    {generated : Except Answer Answer}
    (h : Prog.Runs (pipeline.generate query traceId result).run t (.ok generated)) :
    reranked t = [] ∧ (completed t = [] ∧ FixedGeneration generated
      ∨ ∃ rawText usage generationTrace, completed t = [rawText]
        ∧ generated = .ok (groundAnswer result.results pipeline.settings.refusalScoreThreshold
          pipeline.settings.piiRedactionEnabled generationTrace rawText usage)) := by
  rw [generate_eq] at h
  obtain ⟨generationTrace, u, rfl, hnext⟩ := (Prog.runs_call_iff _ _ _ _).mp h
  split_ifs at hnext with hearly
  · obtain ⟨rfl, hgenerated⟩ := (Prog.runs_ret_iff _ _ _).mp hnext
    cases hgenerated
    exact ⟨rfl, Or.inl ⟨rfl, refusedAnswer_fixed _ _ _⟩⟩
  · obtain ⟨answered, v, rfl, hdone⟩ := (Prog.runs_call_iff _ _ _ _).mp hnext
    obtain ⟨rfl, hgenerated⟩ := (Prog.runs_ret_iff _ _ _).mp hdone
    rcases answered with exn | ⟨rawText, usage⟩
    · rw [afterCompletion] at hgenerated
      split_ifs at hgenerated
      cases hgenerated
      exact ⟨rfl, Or.inl ⟨rfl, pipeline.refuse_fixed _ _⟩⟩
    · cases hgenerated
      exact ⟨rfl, Or.inr ⟨rawText, _, generationTrace, rfl, rfl⟩⟩

omit [Runtime] in
/-- A storing run heard nothing from the reranker or the model. -/
theorem storeAnswer_silent {key : AnswerKey} {answer : Answer} {t : List PipeEvent}
    {r : Except Exn Unit} (h : Prog.Runs (pipeline.storeAnswer key query answer).run t r) :
    reranked t = [] ∧ completed t = [] := by
  have hspec := storeAnswer_returns (A := fun _ _ => True) (G := Gathers) pipeline query key answer
    trivial trivial
  exact gathers_silent (hspec.runs h fun _ _ => trivial).1

/-- Behind the caches, an answer is fixed without a word of the model, or it is made of the
one context the reranker returned and the one text the model did. -/
theorem execute_runs {traceId indexVersion : String} {key : AnswerKey} {t : List PipeEvent}
    {answer : Answer}
    (h : Prog.Runs (pipeline.execute query traceId principal indexVersion key).run t
      (.ok answer)) :
    completed t = [] ∧ FixedAnswer answer
      ∨ ∃ scored rawText usage generationTrace answerTrace, reranked t = [scored]
        ∧ completed t = [rawText]
        ∧ answer = { groundAnswer scored pipeline.settings.refusalScoreThreshold
            pipeline.settings.piiRedactionEnabled generationTrace rawText usage with
          traceId := answerTrace, indexVersion := indexVersion } := by
  have hgrounded : Prog.Runs
      (pipeline.ground query traceId principal indexVersion key).run t (.ok answer) →
      completed t = [] ∧ FixedAnswer answer
      ∨ ∃ scored rawText usage generationTrace answerTrace, reranked t = [scored]
        ∧ completed t = [rawText]
        ∧ answer = { groundAnswer scored pipeline.settings.refusalScoreThreshold
            pipeline.settings.piiRedactionEnabled generationTrace rawText usage with
          traceId := answerTrace, indexVersion := indexVersion } := by
    intro hrun
    obtain ⟨t₁, result, t₂, rfl, hretrieve, hrest⟩ := (Prog.runsE_bind_ok_iff _ _ _ _).mp hrun
    obtain ⟨t₃, generated, t₄, rfl, hgenerate, hlast⟩ := (Prog.runsE_bind_ok_iff _ _ _ _).mp hrest
    obtain ⟨hcontext, hunasked⟩ := retrieve_runs hretrieve
    obtain ⟨hsame, hgenerated⟩ := generate_runs hgenerate
    cases generated with
    | error refusal =>
        obtain ⟨rfl, hanswer⟩ := (Prog.runsE_pure_iff _ _ _).mp hlast
        cases hanswer
        rw [List.append_nil]
        rcases hgenerated with ⟨hnone, hfixed⟩ | ⟨_, _, _, -, hok⟩
        · exact Or.inl ⟨by simp [completed_append, hunasked, hnone], hfixed⟩
        · cases hok
    | ok grounded =>
        obtain ⟨answerTrace, u, rfl, hstamped⟩ := (Prog.runsE_total_bind_iff _ _ _ _).mp hlast
        obtain ⟨t₅, stored, t₆, rfl, hstore, hdone⟩ :=
          (Prog.runsE_bind_ok_iff _ _ _ _).mp hstamped
        obtain ⟨rfl, hanswer⟩ := (Prog.runsE_pure_iff _ _ _).mp hdone
        cases hanswer
        obtain ⟨hkept, hsilent⟩ := storeAnswer_silent hstore
        have htail : ∀ t, completed (⟨.currentTraceId, answerTrace⟩ :: t) = completed t :=
          fun _ => rfl
        have htail' : ∀ t, reranked (⟨.currentTraceId, answerTrace⟩ :: t) = reranked t :=
          fun _ => rfl
        rcases hgenerated with ⟨hnone, hfixed⟩ | ⟨rawText, usage, generationTrace, hone, hok⟩
        · left
          refine ⟨?_, hfixed.text, hfixed.uncited, hfixed.fresh⟩
          simp [completed_append, hunasked, hnone, htail, hsilent]
        · cases hok
          right
          refine ⟨result.results, rawText, usage, generationTrace, answerTrace, ?_, ?_, rfl⟩
          · simp [reranked_append, hcontext, hsame, htail', hkept]
          · simp [completed_append, hunasked, hone, htail, hsilent]
  have hchitchat : FixedAnswer {
      text := "Hello. Ask me a question about the indexed documents."
      traceId := traceId
      usage := {
        model := pipeline.modelName
        promptVersion := pipeline.promptVersion.value } } :=
    ⟨by simp [fixedTexts], rfl, rfl⟩
  unfold OnlinePipeline.execute at h
  cases hroute : routeQuery query with
  | refuse =>
      rw [hroute] at h
      obtain ⟨rfl, hanswer⟩ := (Prog.runsE_pure_iff _ _ _).mp h
      cases hanswer
      exact Or.inl ⟨rfl, pipeline.refuse_fixed _ _⟩
  | chitchat =>
      rw [hroute] at h
      obtain ⟨rfl, hanswer⟩ := (Prog.runsE_pure_iff _ _ _).mp h
      cases hanswer
      exact Or.inl ⟨rfl, hchitchat⟩
  | factual =>
      rw [hroute] at h
      exact hgrounded h
  | procedural =>
      rw [hroute] at h
      exact hgrounded h
  | complex =>
      rw [hroute] at h
      exact hgrounded h

end Runs

end Rag
