import Rag.Pipelines.Provenance

/-!
What one call of the pipeline asks of its caches, and what it puts there.

A call looks the exact cache up first and the semantic cache only after a miss. Behind
both it looks nothing up any more, and what it stores is a real answer: not refused, no
reason, and at least one citation.
-/

namespace Rag

open Py Interaction

/-- An answer worth keeping. -/
structure RealAnswer (answer : Answer) : Prop where
  answered : answer.refused = false
  unexplained : answer.refusalReason = none
  cited : answer.citations ≠ []

/-- A refusal gives its reason and cites nothing; anything else gives none. -/
def ProperAnswer (answer : Answer) : Prop :=
  if answer.refused then answer.citations = [] ∧ answer.refusalReason ≠ none
  else answer.refusalReason = none

theorem RealAnswer.proper {answer : Answer} (h : RealAnswer answer) : ProperAnswer answer := by
  rw [ProperAnswer, h.answered]
  exact h.unexplained

theorem refusedAnswer_proper (reason : String) (usage : Usage) (traceId : String) :
    ProperAnswer (refusedAnswer reason usage traceId) := by
  simp [ProperAnswer, refusedAnswer]

theorem shouldRefuse_none {scored : List (ScoredChunk ℚ)} {citations : List Citation}
    {scoreThreshold : ℚ} (h : shouldRefuse scored citations scoreThreshold = none) :
    citations ≠ [] := by
  intro hempty
  unfold shouldRefuse at h
  split at h
  · cases h
  · split_ifs at h

/-- Generation either refuses or returns a real answer, and never a cached one. -/
theorem groundAnswer_cases [Runtime] (scored : List (ScoredChunk ℚ)) (scoreThreshold : ℚ)
    (redact : Bool) (traceId rawText : String) (usage : Usage) :
    (groundAnswer scored scoreThreshold redact traceId rawText usage).cached = false
      ∧ (RealAnswer (groundAnswer scored scoreThreshold redact traceId rawText usage)
        ∨ (groundAnswer scored scoreThreshold redact traceId rawText usage).refused = true
          ∧ ProperAnswer (groundAnswer scored scoreThreshold redact traceId rawText usage)) := by
  unfold groundAnswer
  dsimp only
  split
  · exact ⟨rfl, Or.inr ⟨rfl, refusedAnswer_proper _ _ _⟩⟩
  · rename_i hkept
    exact ⟨rfl, Or.inl ⟨rfl, rfl, shouldRefuse_none hkept⟩⟩

/-- What generation hands to the pipeline. -/
def Generated (answer : Answer) : Prop :=
  answer.cached = false
    ∧ (RealAnswer answer ∨ answer.refused = true ∧ ProperAnswer answer)

theorem OnlinePipeline.refuse_proper (pipeline : OnlinePipeline) (reason traceId : String) :
    (pipeline.refuse reason traceId).cached = false
      ∧ ProperAnswer (pipeline.refuse reason traceId) := by
  simp [ProperAnswer, OnlinePipeline.refuse]

/-- Every operation behind the caches, and a store only of a real answer. -/
def ExecutionOp : PipeOp → Prop
  | .cacheGet _ => False
  | .semanticGet _ _ => False
  | .cacheSet _ answer => RealAnswer answer
  | .semanticSet _ answer _ => RealAnswer answer
  | _ => True

/-- The rest of `answer` once both lookups have missed. -/
def OnlinePipeline.execute [Runtime] (pipeline : OnlinePipeline) (query traceId : String)
    (principal : Principal) (indexVersion : String) (key : AnswerKey) : Pipe Answer :=
  match routeQuery query with
  | .refuse => pure (pipeline.refuse "empty_query" traceId)
  | .chitchat =>
      pure {
        text := "Hello. Ask me a question about the indexed documents."
        traceId := traceId
        usage := {
          model := pipeline.modelName
          promptVersion := pipeline.promptVersion.value } }
  | _ => do
      let result ← pipeline.retrieve query principal indexVersion
      let generated ← pipeline.generate query traceId result
      match generated with
      | .error refusal => pure refusal
      | .ok grounded => do
          let answerTrace ← Prog.total .currentTraceId
          let answer := { grounded with traceId := answerTrace, indexVersion := indexVersion }
          pipeline.storeAnswer key query answer
          pure answer

theorem Generated.proper {answer : Answer} (h : Generated answer) : ProperAnswer answer := by
  rcases h.2 with hreal | ⟨-, hproper⟩
  · exact hreal.proper
  · exact hproper

/-- Neither the trace id nor the version bears on what was generated. -/
theorem Generated.stamp {answer : Answer} (h : Generated answer) (traceId indexVersion : String) :
    Generated { answer with traceId := traceId, indexVersion := indexVersion } := by
  refine ⟨h.1, ?_⟩
  rcases h.2 with hreal | hrefused
  · exact Or.inl ⟨hreal.answered, hreal.unexplained, hreal.cited⟩
  · exact Or.inr hrefused

section Specs

variable [Runtime] (pipeline : OnlinePipeline) (query traceId : String) (t : List PipeEvent)

theorem generate_cases (result : QueryResult) :
    Prog.SpecE (Recorded t) ExecutionOp (pipeline.generate query traceId result)
      (fun generated => match generated with
        | .ok answer => Generated answer
        | .error refusal => refusal.cached = false ∧ ProperAnswer refusal)
      fun _ => True := by
  unfold OnlinePipeline.generate
  simp only [Prog.specE_bind, Prog.specE_attempt]
  refine ⟨trivial, fun generationTrace _ => ?_⟩
  have hfail : ∀ exn : Exn, Prog.SpecE (Recorded t) ExecutionOp
      (if exn.cls = .llm then
        (pure (.error (pipeline.refuse "llm_unavailable" traceId)) : Pipe (Except Answer Answer))
      else throw exn)
      (fun generated => match generated with
        | .ok answer => Generated answer
        | .error refusal => refusal.cached = false ∧ ProperAnswer refusal) fun _ => True := by
    intro exn
    split_ifs
    · exact pipeline.refuse_proper _ _
    · trivial
  unfold generateGrounded
  dsimp only
  split_ifs
  · exact ⟨rfl, Or.inr ⟨rfl, refusedAnswer_proper _ _ _⟩⟩
  · simp only [Prog.specE_bind]
    refine ⟨trivial, ?_⟩
    rintro (exn | ⟨rawText, usage⟩) -
    · exact hfail exn
    · exact groundAnswer_cases _ _ _ _ _ _

omit [Runtime] in
theorem storeAnswer_spec (key : AnswerKey) (answer : Answer) (hanswer : Generated answer) :
    Prog.SpecE (Recorded t) ExecutionOp (pipeline.storeAnswer key query answer)
      (fun _ => True) fun _ => True := by
  unfold OnlinePipeline.storeAnswer
  by_cases hkeep : pipeline.shouldCache answer = true
  · have hreal : RealAnswer answer := by
      rcases hanswer.2 with h | ⟨hrefused, -⟩
      · exact h
      · simp [OnlinePipeline.shouldCache, hrefused] at hkeep
    rw [if_pos hkeep]
    simp only [Prog.specE_bind]
    refine ⟨hreal, ?_⟩
    rintro (exn | _) -
    · trivial
    · dsimp only
      split_ifs
      · refine ⟨hreal, ?_⟩
        rintro (exn | _) -
        · trivial
        · trivial
      · trivial
  · rw [if_neg hkeep]
    trivial

/-- Behind the caches nothing is looked up, only real answers are stored, and what is
returned is proper and not cached. -/
theorem execution_spec (principal : Principal) (indexVersion : String) (key : AnswerKey) :
    Prog.SpecE (Recorded t) ExecutionOp
      (pipeline.execute query traceId principal indexVersion key)
      (fun answer => answer.cached = false ∧ ProperAnswer answer) fun _ => True := by
  have hgrounded : Prog.SpecE (Recorded t) ExecutionOp
      (do
        let result ← pipeline.retrieve query principal indexVersion
        let generated ← pipeline.generate query traceId result
        match generated with
        | .error refusal => pure refusal
        | .ok grounded => do
            let answerTrace ← Prog.total .currentTraceId
            let answer := { grounded with traceId := answerTrace, indexVersion := indexVersion }
            pipeline.storeAnswer key query answer
            pure answer)
      (fun answer => answer.cached = false ∧ ProperAnswer answer) fun _ => True := by
    simp only [Prog.specE_bind]
    refine (retrieve_spec pipeline query principal indexVersion ?_).mono ?_ fun _ h => h
    · intro o ho
      cases o <;> trivial
    · intro result _
      refine (generate_cases pipeline query traceId t result).mono ?_ fun _ h => h
      rintro (refusal | grounded) h
      · exact h
      · simp only [Prog.specE_bind]
        refine ⟨trivial, fun answerTrace _ => ?_⟩
        have hstamped := h.stamp answerTrace indexVersion
        refine (storeAnswer_spec pipeline query t key _ hstamped).mono ?_ fun _ h => h
        intro _ _
        exact ⟨hstamped.1, hstamped.proper⟩
  unfold OnlinePipeline.execute
  cases hroute : routeQuery query with
  | refuse => exact pipeline.refuse_proper _ _
  | chitchat => exact ⟨rfl, rfl⟩
  | factual => exact hgrounded
  | procedural => exact hgrounded
  | complex => exact hgrounded

end Specs

section Lookups

variable [Runtime] {pipeline : OnlinePipeline} {query : String} {principal : Principal}

theorem answer_eq : pipeline.answer query principal = (do
    let traceId ← Prog.total .startTrace
    let indexVersion ← pipeline.activeIndexVersion
    let key := answerKey query principal indexVersion pipeline.promptVersion.value
      pipeline.settings.retrieval.cacheParams
    let cached ← pipeline.lookupCache key query
    match cached with
    | some hit => pure { hit with traceId := traceId, cached := true }
    | none => pipeline.execute query traceId principal indexVersion key) := rfl

/-- What is left of a call after the semantic lookup. -/
def AfterSemantic (traceId : String) (rest : List PipeEvent) (result : Except Exn Answer) :
    Except Exn (Option Answer) → Prop
  | .error exn => rest = [] ∧ result = .error exn
  | .ok (some hit) => rest = [] ∧ result = .ok { hit with traceId := traceId, cached := true }
  | .ok none => (∀ e ∈ rest, ExecutionOp e.op)
      ∧ ∀ answer, result = .ok answer → answer.cached = false ∧ ProperAnswer answer

/-- What is left of a call after the exact lookup. -/
def AfterExact (query : String) (key : AnswerKey) (traceId : String) (rest : List PipeEvent)
    (result : Except Exn Answer) : Except Exn (Option Answer) → Prop
  | .error exn => rest = [] ∧ result = .error exn
  | .ok (some hit) => rest = [] ∧ result = .ok { hit with traceId := traceId, cached := true }
  | .ok none => ∃ near rest', rest = ⟨.semanticGet query key.scope, near⟩ :: rest'
      ∧ AfterSemantic traceId rest' result near

omit [Runtime] in
/-- The exact cache is looked up once. -/
theorem AfterExact.no_lookup {key : AnswerKey} {traceId : String} {rest : List PipeEvent}
    {result : Except Exn Answer} {got : Except Exn (Option Answer)}
    (h : AfterExact query key traceId rest result got) :
    ∀ e ∈ rest, ∀ key', e.op ≠ .cacheGet key' := by
  intro e he key' hop
  rcases got with exn | _ | hit
  · rw [h.1] at he
    cases he
  · obtain ⟨near, rest', hrest, hnear⟩ := h
    rw [hrest] at he
    rcases List.mem_cons.mp he with rfl | hin
    · cases hop
    · rcases near with exn | _ | hit
      · rw [hnear.1] at hin
        cases hin
      · have hexecution := hnear.1 e hin
        rw [hop] at hexecution
        exact hexecution
      · rw [hnear.1] at hin
        cases hin
  · rw [h.1] at he
    cases he

/-- With both caches on, a call resolves the version, looks the exact cache up, and the
semantic cache after a miss. -/
theorem answer_trace {t : List PipeEvent} {result : Except Exn Answer}
    (hcache : pipeline.settings.cacheEnabled = true) (hsemantic : pipeline.semanticCache = true)
    (h : Prog.Runs (pipeline.answer query principal).run t result) :
    ∃ traceId resolved key got rest,
      t = ⟨.startTrace, traceId⟩ :: ⟨.resolveAlias pipeline.settings.collectionAlias, resolved⟩
        :: ⟨.cacheGet key, got⟩ :: rest
      ∧ AfterExact query key traceId rest result got := by
  rw [answer_eq] at h
  obtain ⟨traceId, u, htrace, hstarted⟩ := (Prog.runsE_total_bind_iff _ _ _ _).mp h
  obtain ⟨t₁, x, t₂, rfl, hversion, hkeyed⟩ := (Prog.runsE_bind_iff _ _ _ _).mp hstarted
  obtain ⟨resolved, u₁, rfl, hpure⟩ := (Prog.runsE_total_bind_iff _ _ _ _).mp hversion
  obtain ⟨rfl, rfl⟩ := (Prog.runsE_pure_iff _ _ _).mp hpure
  obtain ⟨t₃, looked, t₄, rfl, hlookup, hrest⟩ := (Prog.runsE_bind_iff _ _ _ _).mp hkeyed
  rw [OnlinePipeline.lookupCache, if_pos hcache] at hlookup
  obtain ⟨t₅, got, t₆, rfl, hexact, hnext⟩ := (Prog.runsE_bind_iff _ _ _ _).mp hlookup
  obtain ⟨got', u₅, rfl, hdone⟩ := (Prog.runs_call_iff _ _ _ _).mp hexact
  obtain ⟨rfl, rfl⟩ := (Prog.runs_ret_iff _ _ _).mp hdone
  refine ⟨traceId, resolved, _, got', t₆ ++ t₄, by rw [htrace]; rfl, ?_⟩
  rcases got' with exn | _ | hit
  · obtain ⟨rfl, rfl⟩ := hnext
    exact hrest
  · change Prog.Runs (if pipeline.semanticCache = true then _ else _ : Pipe _).run _ _ at hnext
    rw [if_pos hsemantic] at hnext
    obtain ⟨near, u₆, rfl, hdone⟩ := (Prog.runs_call_iff _ _ _ _).mp hnext
    obtain ⟨rfl, rfl⟩ := (Prog.runs_ret_iff _ _ _).mp hdone
    refine ⟨near, t₄, rfl, ?_⟩
    rcases near with exn | _ | hit
    · exact hrest
    · obtain ⟨hops, hresult⟩ := (execution_spec pipeline query traceId t₄ principal _ _).runs
        hrest fun _ he => he
      refine ⟨hops, ?_⟩
      rintro answer rfl
      exact hresult
    · exact (Prog.runsE_pure_iff _ _ _).mp hrest
  · obtain ⟨rfl, rfl⟩ := (Prog.runsE_pure_iff _ _ _).mp hnext
    exact (Prog.runsE_pure_iff _ _ _).mp hrest

end Lookups

end Rag
