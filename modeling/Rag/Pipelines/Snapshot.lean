import Rag.Pipelines.Outcome
import Rag.Cache.Lifetime

/-!
One call of the pipeline works on one index version.

The alias may be moved by anybody between any two steps of a call: its lookup is answered
arbitrarily. It is looked up once, and everything behind that lookup names the version it
gave.
-/

namespace Rag

open Py Interaction

/-- A search restricted to a version returns chunks of that version. -/
def Honours : PipeEvent → Prop
  | ⟨.search _ _ _ (some v), .ok hits⟩ => ∀ hit ∈ hits, hit.chunk.indexVersion = v
  | ⟨.lexicalSearch _ _ _ (some v), .ok hits⟩ => ∀ hit ∈ hits, hit.chunk.indexVersion = v
  | _ => True

/-- A context the reranker returned, made of chunks of the version that the searches of `rest`
returned. -/
structure VersionedEvidence (rest : List PipeEvent) (principal : Principal) (indexVersion : String)
    (scored : List (ScoredChunk ℚ)) : Prop extends Evidence rest principal scored where
  version : ∀ s ∈ scored, s.chunk.indexVersion = indexVersion

/-- What a call may ask once it has resolved `indexVersion`. -/
def SnapshotOp [Runtime] (pipeline : OnlinePipeline) (query : String) (principal : Principal)
    (indexVersion : String) (rest : List PipeEvent) : PipeOp → Prop
  | .startTrace => False
  | .resolveAlias _ => False
  | .cacheGet key => key = pipeline.keyOf query principal indexVersion
  | .semanticGet query' scope =>
      query' = query ∧ scope = (pipeline.keyOf query principal indexVersion).scope
  | .cacheSet key answer => key = pipeline.keyOf query principal indexVersion
      ∧ answer.indexVersion = indexVersion
  | .semanticSet query' answer scope => query' = query
      ∧ scope = (pipeline.keyOf query principal indexVersion).scope
      ∧ answer.indexVersion = indexVersion
  | .search _ _ caller version => caller = principal ∧ version = some indexVersion
  | .lexicalSearch _ _ caller version => caller = principal ∧ version = some indexVersion
  | .complete prompt => ∃ scored, VersionedEvidence rest principal indexVersion scored
      ∧ prompt = pipeline.promptOf query scored
  | _ => True

/-- Everything behind the alias lookup belongs to `indexVersion`. -/
structure Snapshot [Runtime] (pipeline : OnlinePipeline) (query : String) (principal : Principal)
    (indexVersion : String) (rest : List PipeEvent) (answer : Answer) : Prop where
  version : answer.indexVersion = indexVersion
  asked : ∀ e ∈ rest, SnapshotOp pipeline query principal indexVersion rest e.op
  citations : CitesFrom (VersionedEvidence rest principal indexVersion) answer.citations
  exact : pipeline.settings.cacheEnabled = true →
    Recorded rest (.cacheSet (pipeline.keyOf query principal indexVersion) answer) (.ok ())
  semantic : pipeline.settings.cacheEnabled = true → pipeline.semanticCache = true →
    Recorded rest
      (.semanticSet query answer (pipeline.keyOf query principal indexVersion).scope) (.ok ())

section Snapshot

variable [Runtime] {pipeline : OnlinePipeline} {query : String} {principal : Principal}

/-- The answers of `t`, which honour the version filter. -/
def HonouredIn (t : List PipeEvent) (o : PipeOp) (r : PipeResp o) : Prop :=
  Recorded t o r ∧ Honours ⟨o, r⟩

theorem LooksUp.snapshotOp {indexVersion : String} {o : PipeOp}
    (h : LooksUp query (pipeline.keyOf query principal indexVersion) o) (rest : List PipeEvent) :
    SnapshotOp pipeline query principal indexVersion rest o := by
  cases o with
  | cacheGet key => exact h
  | semanticGet query' scope => exact h
  | _ => cases h

/-- A chunk of the version that a search of `t` returned. -/
def FoundIn (t : List PipeEvent) (indexVersion : String) (chunk : Chunk) : Prop :=
  chunk ∈ retrieved t ∧ chunk.indexVersion = indexVersion

omit [Runtime] in
/-- The reranker answered with these chunks, all of them shown and of the version. -/
theorem ContextIn.versioned {t : List PipeEvent} {indexVersion : String}
    {scored : List (ScoredChunk ℚ)}
    (h : ContextIn principal (FoundIn t indexVersion) (fun scored => scored ∈ reranked t) scored) :
    VersionedEvidence t principal indexVersion scored where
  answered := h.answered
  shown := by
    intro s hs
    exact ⟨h.allowed s hs, (h.found s hs).1⟩
  version := by
    intro s hs
    exact (h.found s hs).2

omit [Runtime] in
/-- The recorded lookups left aside, what a context is made of stays recorded. -/
theorem VersionedEvidence.append_left {rest : List PipeEvent} {indexVersion : String}
    {scored : List (ScoredChunk ℚ)} (h : VersionedEvidence rest principal indexVersion scored)
    (lookups : List PipeEvent) :
    VersionedEvidence (lookups ++ rest) principal indexVersion scored where
  answered := by
    rw [reranked_append]
    exact List.mem_append_right _ h.answered
  shown := by
    intro s hs
    obtain ⟨hallowed, hfound⟩ := h.shown s hs
    refine ⟨hallowed, ?_⟩
    rw [retrieved, List.flatMap_append, List.map_append]
    exact List.mem_append_right _ hfound
  version := h.version

theorem SnapshotOp.append_left {rest : List PipeEvent} {indexVersion : String} {o : PipeOp}
    (h : SnapshotOp pipeline query principal indexVersion rest o) (lookups : List PipeEvent) :
    SnapshotOp pipeline query principal indexVersion (lookups ++ rest) o := by
  cases o with
  | complete prompt =>
      obtain ⟨scored, hscored, hprompt⟩ := h
      exact ⟨scored, hscored.append_left lookups, hprompt⟩
  | _ => exact h

theorem execute_snapshot (t : List PipeEvent) (traceId indexVersion : String) :
    Prog.SpecE (HonouredIn t) (SnapshotOp pipeline query principal indexVersion t)
      (pipeline.execute query traceId principal indexVersion
        (pipeline.keyOf query principal indexVersion))
      (Outcome pipeline query principal (HonouredIn t) (FoundIn t indexVersion)
        (fun scored => scored ∈ reranked t) indexVersion
        (pipeline.keyOf query principal indexVersion)) fun _ => True := by
  apply execute_returns
  · intro o ho
    cases o with
    | search vector topK caller version => exact ho
    | lexicalSearch query topK caller version => exact ho
    | currentTraceId => trivial
    | embed texts => trivial
    | rerank query candidates topK => trivial
    | _ => cases ho
  · intro v k hits hanswer hit hhit
    exact ⟨found_of_hit hanswer.1 hhit, hanswer.2 hit hhit⟩
  · intro q k hits hanswer hit hhit
    exact ⟨found_of_hit hanswer.1 hhit, hanswer.2 hit hhit⟩
  · intro q candidates k out hanswer
    exact answered_of_rerank hanswer.1 rfl
  · intro scored hcontext
    exact ⟨scored, hcontext.versioned, rfl⟩
  · intro answer hversion
    exact ⟨⟨rfl, hversion⟩, ⟨rfl, rfl, hversion⟩⟩

/-- A cited answer of generation is kept wherever caching is on. -/
theorem shouldCache_of_cited {scored : List (ScoredChunk ℚ)} {answer : Answer}
    {A : (o : PipeOp) → PipeResp o → Prop} (traceId indexVersion : String)
    (h : GroundedOn pipeline query A scored answer) (hcited : answer.citations ≠ [])
    (hcache : pipeline.settings.cacheEnabled = true) :
    pipeline.shouldCache { answer with traceId := traceId, indexVersion := indexVersion }
      = true := by
  obtain ⟨rawText, usage, usage', generationTrace, -, rfl⟩ := h
  have hcases := (groundAnswer_cases scored pipeline.settings.refusalScoreThreshold
    pipeline.settings.piiRedactionEnabled generationTrace rawText usage').2
  rw [OnlinePipeline.shouldCache, hcache, Bool.true_and, Bool.not_eq_true']
  rcases hcases with hreal | ⟨hrefused, hproper⟩
  · exact hreal.answered
  · rw [ProperAnswer, if_pos hrefused] at hproper
    exact absurd hproper.1 hcited

/-- However the alias moves during a call, an answer with citations that no cache served is
of the version resolved at entry: only that version is searched, what the prompt and the
citations are made of was found there, and the key and the scope it is stored under name it. -/
theorem answer_snapshot {t : List PipeEvent} {answer : Answer}
    (hrun : Prog.Runs (pipeline.answer query principal).run t (.ok answer))
    (hhonours : ∀ e ∈ t, Honours e) (hfresh : answer.cached = false)
    (hcited : answer.citations ≠ []) :
    ∃ traceId resolved rest,
      t = ⟨.startTrace, traceId⟩ :: ⟨.resolveAlias pipeline.settings.collectionAlias, resolved⟩
        :: rest
      ∧ Snapshot pipeline query principal (pipeline.versionOf resolved) rest answer := by
  obtain ⟨traceId, resolved, lookups, rest, rfl, hlookups, hexecute⟩ := fresh_runs hrun hfresh
  refine ⟨traceId, resolved, lookups ++ rest, rfl, ?_⟩
  have hhonoured : ∀ e ∈ rest, HonouredIn rest e.op e.resp := by
    intro e he
    refine ⟨he, hhonours e ?_⟩
    simp [he]
  obtain ⟨hasked, houtcome⟩ := (execute_snapshot rest traceId _).runs hexecute hhonoured
  change Outcome pipeline query principal _ _ _ _ _ answer at houtcome
  have hops : ∀ e ∈ lookups ++ rest,
      SnapshotOp pipeline query principal (pipeline.versionOf resolved) (lookups ++ rest)
        e.op := by
    intro e he
    rcases List.mem_append.mp he with he | he
    · exact (hlookups e he).snapshotOp _
    · exact (hasked e he).append_left lookups
  cases houtcome with
  | fixed hfixed => exact absurd hfixed.uncited hcited
  | @grounded scored generated answerTrace hcontext hgenerated hstored =>
      have hkept := shouldCache_of_cited answerTrace
        (pipeline.versionOf resolved) hgenerated hcited
      refine ⟨rfl, hops, ?_, ?_, ?_⟩
      · obtain ⟨rawText, usage, usage', generationTrace, -, rfl⟩ := hgenerated
        intro c hc
        obtain ⟨s, hs, rfl⟩ := mem_groundAnswer_citations hc
        exact ⟨scored, hcontext.versioned.append_left lookups, s, hs, rfl⟩
      · intro hcache
        exact List.mem_append_right _ (hstored (hkept hcache)).1.1
      · intro hcache hsemantic
        exact List.mem_append_right _ ((hstored (hkept hcache)).2 hsemantic).1

end Snapshot

/-- Backends that hold `onCallChunk` and honour the version filter. -/
def versionedAnswers : (o : PipeOp) → PipeResp o
  | .search _ _ _ indexVersion =>
      .ok (if indexVersion = some onCallChunk.indexVersion then [⟨onCallChunk, 1, 1, .dense⟩]
        else [])
  | o => onCallAnswers none none o

theorem versionedAnswers_honour (o : PipeOp) : Honours ⟨o, versionedAnswers o⟩ := by
  cases o with
  | search vector topK principal indexVersion =>
      cases indexVersion with
      | none => trivial
      | some v =>
          intro hit hhit
          split at hhit
          · rename_i hversion
            rw [List.mem_singleton.mp hhit]
            exact (Option.some.inj hversion).symm
          · cases hhit
  | lexicalSearch query topK principal indexVersion =>
      cases indexVersion with
      | none => trivial
      | some v =>
          intro hit hhit
          cases hhit
  | _ => trivial

def onCallProgram [Runtime] : Prog PipeOp PipeResp (Except Exn Answer) :=
  (answeringPipeline.answer "who is on call" ⟨"bob", ∅, "acme"⟩).run

theorem answer_snapshot_onCall : let _ := Runtime.ascii
    ∃ answer, onCallProgram.result (fun _ => versionedAnswers) = .ok answer
      ∧ ∃ traceId resolved rest,
        onCallProgram.trace (fun _ => versionedAnswers)
          = ⟨.startTrace, traceId⟩ :: ⟨.resolveAlias "docs_live", resolved⟩ :: rest
        ∧ Snapshot answeringPipeline "who is on call" ⟨"bob", ∅, "acme"⟩
          (answeringPipeline.versionOf resolved) rest answer := by
  intro _
  obtain ⟨answer, hresult, hshape⟩ :
      ∃ answer, onCallProgram.result (fun _ => versionedAnswers) = .ok answer
        ∧ (fun answer : Answer => (answer.cached, answer.citations.length)) answer = (false, 1) :=
    ok_of_toOption (by decide +kernel)
  obtain ⟨hfresh, hone⟩ := Prod.mk.inj hshape
  have hruns := Prog.runs_trace (fun _ => versionedAnswers) onCallProgram
  rw [hresult] at hruns
  refine ⟨answer, hresult, answer_snapshot hruns ?_ hfresh ?_⟩
  · intro e he
    rw [Prog.mem_trace he]
    exact versionedAnswers_honour e.op
  · intro hnone
    rw [hnone] at hone
    cases hone

end Rag
