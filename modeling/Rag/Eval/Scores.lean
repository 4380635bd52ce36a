import Rag.Eval.Replay

/-!
How a replayed example is scored.

What the evaluation reads of an answer is what the loop counted (`scored`), whether the last draft
cites what was retrieved, and otherwise how the pipeline fares when the runtime falls back on it.
-/

namespace Rag

open Py Interaction AgentRuntime

/-- The case of a turn that ended in this state. -/
def scored (budgetSteps : ℤ) (ex : GoldenExample) (s : LoopState) (success costUsd : ℚ)
    (fallbackUsed refused : Bool) : AgentEvalCaseResult where
  exampleId := ex.id
  success := success
  steps := s.tracker.steps
  stepEfficiency := stepEfficiency s.tracker.steps budgetSteps
  toolPrecision := toolSelectionPrecision (toolsUsed s.steps) ex.expectedTools
  selfCorrectionRate := selfCorrectionRate s.selfCorrections s.tracker.steps
  costUsd := costUsd
  costPerCorrect := costPerCorrect costUsd success
  fallbackUsed := fallbackUsed
  refused := refused
  trajectoryOk := trajectoryOk ex
    { text := "", toolCalls := s.tracker.toolCalls, selfCorrections := s.selfCorrections }

/-- What the score keeps of the pipeline's answer: whether it refused, and its cost. -/
def fallbackScore (outcome : Except Exn Answer) : Option (Bool × ℚ) :=
  outcome.toOption.map fun answer => (answer.refused, answer.usage.costUsd)

/-- The case of a turn that fell back on the pipeline. -/
def degraded (budgetSteps : ℤ) (ex : GoldenExample) (s : LoopState) (score : Option (Bool × ℚ)) :
    AgentEvalCaseResult :=
  match score with
  | some (refused, costUsd) => scored budgetSteps ex s 0 (s.usage.costUsd + costUsd) true refused
  | none => scored budgetSteps ex s 0 s.usage.costUsd false true

section Finalize

variable [Runtime] {pipeline : OnlinePipeline} {σ : Type}
  {backend : σ → (o : ServiceOp) → ServiceResp o × σ} {turn : Turn} {s : LoopState}
  {stop : StopReason} {budgetSteps : ℤ} {ex : GoldenExample} {b : Bench σ}

/-- The sources of a turn its principal may cite. -/
def evidence (turn : Turn) (s : LoopState) : List Source :=
  s.ledger.sources.filter (mayCite turn.principal)

/-- The pipeline's answer to a question, from a state of the backends. -/
def fallbackOutcome (pipeline : OnlinePipeline)
    (backend : σ → (o : ServiceOp) → ServiceResp o × σ) (question : String)
    (principal : Principal) (w : σ) : Except Exn Answer :=
  (Prog.against backend (Prog.interp onPipeline (pipeline.answer question principal).run) w).1

theorem buildAnswer_value (e : TurnEnd) (base : Answer) (version : Option String)
    (fallbackUsed : Bool) (reason : Option String) (b : Bench σ) :
    ∃ traceId indexVersion w, Prog.against (serveBench pipeline backend)
        (buildAnswer (evalRuntime pipeline) e base version fallbackUsed reason) b
      = ((evalRuntime pipeline).builtAnswer e base fallbackUsed reason traceId indexVersion,
        { b with backends := w }) := by
  obtain ⟨traceId, w₁, htrace⟩ : ∃ traceId w, Prog.against (serveBench pipeline backend)
      (traceIdOr base.traceId) b = (traceId, { b with backends := w }) := by
    rw [traceIdOr]
    split_ifs
    · exact ⟨_, _, @serveBench_backends _ pipeline _ backend .currentTraceId rfl b⟩
    · exact ⟨_, b.backends, rfl⟩
  obtain ⟨indexVersion, w, hversion⟩ : ∃ indexVersion w,
      Prog.against (serveBench pipeline backend) (versionOr version) { b with backends := w₁ }
        = (indexVersion, { b with backends := w }) := by
    cases version with
    | some version => exact ⟨version, w₁, rfl⟩
    | none => exact ⟨_, _, @serveBench_backends _ pipeline _ backend .activeIndexVersion rfl _⟩
  refine ⟨traceId, indexVersion, w, ?_⟩
  rw [buildAnswer, Prog.against_bind_of htrace, Prog.against_bind_of hversion]
  rfl

omit [Runtime] in
/-- The scripted runtime keeps its trace, so the tools it used are those of its steps. -/
theorem caseOf_builtAnswer (e : TurnEnd) (base : Answer) (fallbackUsed : Bool)
    (reason : Option String) (traceId indexVersion : String) (hsteps : e.steps = s.steps)
    (htracker : e.tracker = s.tracker) (hcorrections : e.selfCorrections = s.selfCorrections) :
    caseOf budgetSteps ex ((evalRuntime pipeline).builtAnswer e base fallbackUsed reason traceId
        indexVersion)
      = scored budgetSteps ex s (taskSuccess ((evalRuntime pipeline).builtAnswer e base fallbackUsed
          reason traceId indexVersion)) base.usage.costUsd fallbackUsed base.refused := by
  have htools : predictedTools ((evalRuntime pipeline).builtAnswer e base fallbackUsed reason
      traceId indexVersion) = toolsUsed s.steps := by
    rw [← hsteps, predictedTools]
    split_ifs <;> rfl
  unfold caseOf scored
  rw [htools, ← htracker, ← hcorrections]
  rfl

/-- A draft that cites the evidence is kept. -/
theorem finalize_cited (htext : strip (s.draft.getD "") ≠ "")
    (hcites : resolveSourceCitations (strip (s.draft.getD "")) (evidence turn s) true ≠ [])
    (hstop : stop ∈ answerableStops) (b : Bench σ) :
    ∃ answer w, Prog.against (serveBench pipeline backend)
        (finalize (evalRuntime pipeline) turn s stop) b = (answer, { b with backends := w })
      ∧ caseOf budgetSteps ex answer = scored budgetSteps ex s 1 s.usage.costUsd false false := by
  unfold finalize
  extract_lets authorised text citations e reason last
  have hcitations : citations = resolveSourceCitations text authorised true := if_neg htext
  have hkept : text ≠ "" ∧ citations ≠ [] ∧ stop ∈ answerableStops :=
    ⟨htext, by rw [hcitations]; exact hcites, hstop⟩
  rw [if_pos hkept]
  obtain ⟨traceId, indexVersion, w, hvalue⟩ := @buildAnswer_value _ pipeline _ backend e
    { text := if (evalRuntime pipeline).piiRedactionEnabled then redactPii text else text,
      citations := citations, usage := s.usage, traceId := turn.traceId } none false none b
  refine ⟨_, w, hvalue, ?_⟩
  have hsuccess : taskSuccess ((evalRuntime pipeline).builtAnswer e
      { text := if (evalRuntime pipeline).piiRedactionEnabled then redactPii text else text,
        citations := citations, usage := s.usage, traceId := turn.traceId } false none traceId
      indexVersion) = 1 :=
    (taskSuccess_eq_one_iff _).mpr ⟨rfl, rfl, hstop, hkept.2.1⟩
  rw [caseOf_builtAnswer e _ false none traceId indexVersion rfl rfl rfl, hsuccess]

theorem fallbackAnswer_scored (e : TurnEnd) (reason : String) (outcome : Except Exn Answer)
    (hsteps : e.steps = s.steps) (htracker : e.tracker = s.tracker)
    (hcorrections : e.selfCorrections = s.selfCorrections) (husage : e.usage = s.usage)
    (b : Bench σ) :
    ∃ answer w, Prog.against (serveBench pipeline backend)
        (fallbackAnswer (evalRuntime pipeline) e reason outcome) b
      = (answer, { b with backends := w })
      ∧ caseOf budgetSteps ex answer = degraded budgetSteps ex s (fallbackScore outcome) := by
  cases outcome with
  | error exn =>
      obtain ⟨traceId, indexVersion, w, hvalue⟩ := @buildAnswer_value _ pipeline _ backend e
        { text := "I don't know based on the available documents.", refused := true,
          refusalReason := some reason, usage := e.usage, traceId := e.traceId } none false
        (some reason) b
      refine ⟨_, w, hvalue, ?_⟩
      rw [caseOf_builtAnswer e _ false (some reason) traceId indexVersion hsteps htracker
        hcorrections, husage]
      rfl
  | ok fallback =>
      obtain ⟨traceId, indexVersion, w, hvalue⟩ := @buildAnswer_value _ pipeline _ backend
        { e with stop := .fallbackPipeline }
        { fallback with
          usage := e.usage + fallback.usage
          traceId := if fallback.traceId = "" then e.traceId else fallback.traceId }
        (some fallback.indexVersion) true (some reason) b
      refine ⟨_, w, hvalue, ?_⟩
      have hfailed : taskSuccess ((evalRuntime pipeline).builtAnswer
          { e with stop := .fallbackPipeline }
          { fallback with
            usage := e.usage + fallback.usage
            traceId := if fallback.traceId = "" then e.traceId else fallback.traceId } true
          (some reason) traceId indexVersion) = 0 := by
        rw [taskSuccess]
        split_ifs <;> first | rfl | simp_all [builtAnswer]
      have hstate := @caseOf_builtAnswer pipeline s budgetSteps ex
        { e with stop := .fallbackPipeline }
        { fallback with
          usage := e.usage + fallback.usage
          traceId := if fallback.traceId = "" then e.traceId else fallback.traceId } true
        (some reason) traceId indexVersion hsteps htracker hcorrections
      rw [hstate, hfailed, husage]
      rfl

/-- A draft without a citation is replaced by the pipeline's answer. -/
theorem finalize_uncited
    (hcites : resolveSourceCitations (strip (s.draft.getD "")) (evidence turn s) true = [])
    (b : Bench σ) :
    ∃ answer w, Prog.against (serveBench pipeline backend)
        (finalize (evalRuntime pipeline) turn s stop) b = (answer, { b with backends := w })
      ∧ caseOf budgetSteps ex answer = degraded budgetSteps ex s
        (fallbackScore (fallbackOutcome pipeline backend turn.question turn.principal b.backends)) := by
  unfold finalize
  extract_lets authorised text citations e reason last
  have hnone : citations = [] := by
    have hcitations : citations = if text = "" then []
      else resolveSourceCitations text authorised true := rfl
    rw [hcitations]
    split_ifs
    · rfl
    · exact hcites
  have hdropped : ¬ (text ≠ "" ∧ citations ≠ [] ∧ stop ∈ answerableStops) := fun h => h.2.1 hnone
  rw [if_neg hdropped]
  obtain ⟨answer, w, hanswer, hcase⟩ := @fallbackAnswer_scored _ pipeline _ backend s budgetSteps ex
    { e with stop := last } reason
    (fallbackOutcome pipeline backend turn.question turn.principal b.backends) rfl rfl rfl rfl
    { b with backends := (Prog.against backend
      (Prog.interp onPipeline (pipeline.answer turn.question turn.principal).run) b.backends).2 }
  refine ⟨answer, w, ?_, hcase⟩
  rw [fallbackOrRefuse, Prog.perform_bind, Prog.against_call]
  exact hanswer

end Finalize

end Rag
