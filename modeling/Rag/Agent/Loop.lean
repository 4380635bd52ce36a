import Rag.Agent.Runtime

/-!
What one pass of the agent loop can do, and how a whole turn decomposes.

`Pass` lists the ways a pass goes, each with the events it leaves in the trace and the
state it ends in. Every result about the loop is derived from `iteration_pass` and from
`run_cases`; no other proof unfolds `AgentRuntime.run`.
-/

namespace Rag

open Py Interaction AgentRuntime

section Pass

variable [Runtime] (rt : AgentRuntime) (turn : Turn)

/-- The message the critic is asked with. -/
def criticMessages (s : LoopState) (draft : String) : List Message :=
  [{ role := .user,
     content := agentCritiquePrompt rt.criticPromptVersion turn.question draft
      (renderSources s.ledger.sources rt.criticMaxEvidenceChars 500) }]

/-- What follows the planner's answer in state `s`, the step charged. -/
inductive Planned (s : LoopState) :
    Except Failure ChatCompletion → List AgentEvent → LoopState ⊕ LoopExit → Prop
  | deadline : Planned s (.error .deadline) [] (.inr (.deadline s))
  | fallbackLate (exn : Exn) (outcome : Except Exn Answer) :
      Planned s (.error (.raised exn))
        [⟨.answer turn.question turn.principal, outcome⟩, ⟨.deadline, true⟩]
        (.inr (.deadline s))
  | fallback (exn : Exn) (outcome : Except Exn Answer) (u : List AgentEvent)
      (answer : AgentAnswer)
      (h : Prog.Runs (fallbackAnswer rt (plannerFailedEnd rt turn s) "llm_unavailable" outcome)
        u answer) :
      Planned s (.error (.raised exn))
        (⟨.answer turn.question turn.principal, outcome⟩ :: ⟨.deadline, false⟩ :: u)
        (.inr (.returned answer))
  | toolsFailed (c : ChatCompletion) (u : List AgentEvent) (failure : Failure)
      (hcalls : c.toolCalls ≠ [])
      (h : Prog.Runs (runTools rt turn (allowedCalls (charged s c) c) (charged s c).tracker) u
        (.error failure)) :
      Planned s (.ok c) u (.inr (match failure with
        | .deadline => .deadline (charged s c)
        | .raised exn => .raised (charged s c) exn))
  | acted (c : ChatCompletion) (u : List AgentEvent) (results : List ToolResult)
      (hcalls : c.toolCalls ≠ [])
      (h : Prog.Runs (runTools rt turn (allowedCalls (charged s c) c) (charged s c).tracker) u
        (.ok results)) :
      Planned s (.ok c) u
        (.inl (AgentRuntime.acted turn (charged s c) c (allowedCalls (charged s c) c) results))
  | nudged (c : ChatCompletion) (hcalls : c.toolCalls = []) (hdraft : strip c.text = "") :
      Planned s (.ok c) [] (.inl (AgentRuntime.nudged (drafted (charged s c) c) c))
  | exhausted (c : ChatCompletion) (hcalls : c.toolCalls = []) (hdraft : strip c.text ≠ "")
      (hspent : (drafted (charged s c) c).tracker.canCritique = false) :
      Planned s (.ok c) [] (.inr (.stopped (drafted (charged s c) c) .criticExhausted))
  | criticFailed (c : ChatCompletion) (hcalls : c.toolCalls = []) (hdraft : strip c.text ≠ "")
      (hopen : (drafted (charged s c) c).tracker.canCritique = true) (failure : Failure) :
      Planned s (.ok c)
        [⟨.critique (criticMessages rt turn s (strip c.text)), .error failure⟩]
        (.inr (match failure with
          | .deadline => .deadline (critiqued (drafted (charged s c) c))
          | .raised exn => .raised (critiqued (drafted (charged s c) c)) exn))
  | unreadable (c : ChatCompletion) (hcalls : c.toolCalls = []) (hdraft : strip c.text ≠ "")
      (hopen : (drafted (charged s c) c).tracker.canCritique = true) (judgement : ChatCompletion)
      (exn : Exn) (hparse : parseVerdict judgement.text = .error exn) :
      Planned s (.ok c)
        [⟨.critique (criticMessages rt turn s (strip c.text)), .ok judgement⟩]
        (.inr (.raised (critiqued (drafted (charged s c) c)) exn))
  | approved (c : ChatCompletion) (hcalls : c.toolCalls = []) (hdraft : strip c.text ≠ "")
      (hopen : (drafted (charged s c) c).tracker.canCritique = true) (judgement : ChatCompletion)
      (verdict : Verdict) (hparse : parseVerdict judgement.text = .ok verdict)
      (hverdict : (verdict.sufficient && verdict.grounded) = true) :
      Planned s (.ok c)
        [⟨.critique (criticMessages rt turn s (strip c.text)), .ok judgement⟩]
        (.inr (.stopped (judged (critiqued (drafted (charged s c) c)) (strip c.text) verdict
          judgement.usage) .criticGrounded))
  | rejected (c : ChatCompletion) (hcalls : c.toolCalls = []) (hdraft : strip c.text ≠ "")
      (hopen : (drafted (charged s c) c).tracker.canCritique = true) (judgement : ChatCompletion)
      (verdict : Verdict) (hparse : parseVerdict judgement.text = .ok verdict)
      (hverdict : (verdict.sufficient && verdict.grounded) = false) :
      Planned s (.ok c)
        [⟨.critique (criticMessages rt turn s (strip c.text)), .ok judgement⟩]
        (.inl (AgentRuntime.rejected (judged (critiqued (drafted (charged s c) c)) (strip c.text)
          verdict judgement.usage) c verdict))

/-- One pass of the loop from state `s`. -/
inductive Pass (s : LoopState) : List AgentEvent → LoopState ⊕ LoopExit → Prop
  | spent (h : s.tracker.spent = true) : Pass s [] (.inr (.stopped s .budgetExhausted))
  | late (elapsed : ℚ) (hopen : s.tracker.spent = false)
      (h : s.tracker.budget.maxWallClockSeconds ≤ elapsed) :
      Pass s [⟨.elapsed, elapsed⟩] (.inr (.stopped s .budgetExhausted))
  | planned (elapsed : ℚ) (r : Except Failure ChatCompletion) (u : List AgentEvent)
      (x : LoopState ⊕ LoopExit) (hopen : s.tracker.spent = false)
      (htime : elapsed < s.tracker.budget.maxWallClockSeconds)
      (h : Planned rt turn (stepped s) r u x) :
      Pass s (⟨.elapsed, elapsed⟩ :: ⟨.chat s.messages (offered turn), r⟩ :: u) x

end Pass

section Inversion

variable [Runtime] {rt : AgentRuntime} {turn : Turn} {s : LoopState} {t : List AgentEvent}
  {x : LoopState ⊕ LoopExit}

theorem plannerFailed_planned (exn : Exn) (h : Prog.Runs (plannerFailed rt turn s) t x) :
    Planned rt turn s (.error (.raised exn)) t x := by
  obtain ⟨outcome, u, rfl, hu⟩ := (Prog.runs_perform_bind_iff _ _ _ _).mp h
  obtain ⟨late, v, rfl, hv⟩ := (Prog.runs_perform_bind_iff _ _ _ _).mp hu
  cases late with
  | true =>
      obtain ⟨rfl, rfl⟩ := (Prog.runs_ret_iff _ _ _).mp hv
      exact .fallbackLate exn outcome
  | false =>
      obtain ⟨w, answer, w', hw, hw', rfl⟩ := (Prog.runs_bind_iff _ _ _ _).mp hv
      obtain ⟨rfl, rfl⟩ := (Prog.runs_ret_iff _ _ _).mp hw'
      rw [List.append_nil]
      exact .fallback exn outcome w answer hw

theorem act_planned {c : ChatCompletion} (hcalls : c.toolCalls ≠ [])
    (hopen : 0 < (charged s c).tracker.remainingToolCalls)
    (h : Prog.Runs (act rt turn (charged s c) c) t x) : Planned rt turn s (.ok c) t x := by
  rw [act, if_neg (by omega)] at h
  obtain ⟨u, r, v, hu, hv, rfl⟩ := (Prog.runs_bind_iff _ _ _ _).mp h
  rcases r with (exn | _) | results
  · obtain ⟨rfl, rfl⟩ := (Prog.runs_ret_iff _ _ _).mp hv
    rw [List.append_nil]
    exact .toolsFailed c u (.raised exn) hcalls hu
  · obtain ⟨rfl, rfl⟩ := (Prog.runs_ret_iff _ _ _).mp hv
    rw [List.append_nil]
    exact .toolsFailed c u .deadline hcalls hu
  · obtain ⟨rfl, rfl⟩ := (Prog.runs_ret_iff _ _ _).mp hv
    rw [List.append_nil]
    exact .acted c u results hcalls hu

theorem plan_planned {c : ChatCompletion} (hcalls : c.toolCalls = [])
    (h : Prog.Runs (plan rt turn (charged s c) c) t x) : Planned rt turn s (.ok c) t x := by
  unfold plan at h
  dsimp only at h
  split_ifs at h with hdraft hcritic
  · obtain ⟨rfl, rfl⟩ := (Prog.runs_ret_iff _ _ _).mp h
    exact .nudged c hcalls hdraft
  · obtain ⟨u, r, v, hu, hv, rfl⟩ := (Prog.runs_bind_iff _ _ _ _).mp h
    obtain ⟨answer, w, rfl, hw⟩ := (Prog.runs_perform_bind_iff _ _ _ _).mp hu
    cases answer with
    | error failure =>
        obtain ⟨rfl, rfl⟩ := (Prog.runs_ret_iff _ _ _).mp hw
        cases failure <;> obtain ⟨rfl, rfl⟩ := (Prog.runs_ret_iff _ _ _).mp hv
        · exact .criticFailed c hcalls hdraft hcritic (.raised _)
        · exact .criticFailed c hcalls hdraft hcritic .deadline
    | ok judgement =>
        dsimp only at hw
        split at hw
        · rename_i exn hparse
          obtain ⟨rfl, rfl⟩ := (Prog.runs_ret_iff _ _ _).mp hw
          obtain ⟨rfl, rfl⟩ := (Prog.runs_ret_iff _ _ _).mp hv
          exact .unreadable c hcalls hdraft hcritic judgement exn hparse
        · rename_i verdict hparse
          obtain ⟨rfl, rfl⟩ := (Prog.runs_ret_iff _ _ _).mp hw
          dsimp only at hv
          split_ifs at hv with hverdict
          · obtain ⟨rfl, rfl⟩ := (Prog.runs_ret_iff _ _ _).mp hv
            exact .approved c hcalls hdraft hcritic judgement verdict hparse hverdict
          · obtain ⟨rfl, rfl⟩ := (Prog.runs_ret_iff _ _ _).mp hv
            exact .rejected c hcalls hdraft hcritic judgement verdict hparse (by simpa using hverdict)
  · obtain ⟨rfl, rfl⟩ := (Prog.runs_ret_iff _ _ _).mp h
    exact .exhausted c hcalls hdraft (by simpa using hcritic)

/-- Everything a pass of the loop can do. The check of the act branch for remaining tool
calls never fires, since a spent tool budget stops the pass before the planner runs. -/
theorem iteration_pass (h : Prog.Runs (iteration rt turn s) t x) : Pass rt turn s t x := by
  rw [iteration, BudgetTracker.terminalStop] at h
  split_ifs at h with hspent
  · obtain ⟨rfl, rfl⟩ := (Prog.runs_ret_iff _ _ _).mp h
    exact .spent hspent
  · have hopen : s.tracker.spent = false := by simpa using hspent
    rw [LawfulMonad.bind_assoc] at h
    obtain ⟨elapsed, u, rfl, hu⟩ := (Prog.runs_perform_bind_iff _ _ _ _).mp h
    simp only [pure_bind] at hu
    split_ifs at hu with hlate
    · obtain ⟨rfl, rfl⟩ := (Prog.runs_ret_iff _ _ _).mp hu
      exact .late elapsed hopen hlate
    · obtain ⟨r, v, rfl, hv⟩ := (Prog.runs_perform_bind_iff _ _ _ _).mp hu
      refine .planned elapsed r v x hopen (lt_of_not_ge hlate) ?_
      rcases r with (exn | _) | c
      · exact plannerFailed_planned exn hv
      · obtain ⟨rfl, rfl⟩ := (Prog.runs_ret_iff _ _ _).mp hv
        exact .deadline
      · dsimp only at hv
        split_ifs at hv with hcalls
        · have hbudget := (BudgetTracker.not_spent_iff _).mp hopen
          refine act_planned hcalls ?_ hv
          simp only [charged, stepped, BudgetTracker.remainingToolCalls,
            BudgetTracker.chargeUsage_budget, BudgetTracker.chargeUsage_toolCalls,
            BudgetTracker.chargeStep_budget, BudgetTracker.chargeStep_toolCalls]
          omega
        · exact plan_planned (by simpa using hcalls) hv

end Inversion

-- Each of the ways `Pass` lists is a run of the pass, for whatever the collaborators answered
-- along it.
section Adequacy

variable [Runtime] {rt : AgentRuntime} {turn : Turn} {s : LoopState} {t : List AgentEvent}
  {x : LoopState ⊕ LoopExit}

theorem act_runs {c : ChatCompletion} {r : Except Failure (List ToolResult)}
    (hopen : 0 < (charged s c).tracker.remainingToolCalls)
    (h : Prog.Runs (runTools rt turn (allowedCalls (charged s c) c) (charged s c).tracker) t r) :
    Prog.Runs (act rt turn (charged s c) c) t (match r with
      | .error .deadline => .inr (.deadline (charged s c))
      | .error (.raised exn) => .inr (.raised (charged s c) exn)
      | .ok results => .inl (acted turn (charged s c) c (allowedCalls (charged s c) c) results)) := by
  rw [act, if_neg (by omega)]
  refine (Prog.runs_bind_iff _ _ _ _).mpr ⟨t, r, [], h, ?_, by simp⟩
  rcases r with (exn | _) | results <;> exact .refl _

theorem evaluate_runs (rt : AgentRuntime) (turn : Turn) (s : LoopState) (draft : String) (r : Except Failure ChatCompletion) :
    Prog.Runs (evaluate rt turn draft s.ledger.sources)
      [⟨.critique (criticMessages rt turn s draft), r⟩]
      (match r with
      | .error failure => .error failure
      | .ok judgement =>
          match parseVerdict judgement.text with
          | .error exn => .error (.raised exn)
          | .ok verdict => .ok (verdict, judgement.usage)) := by
  refine (Prog.runs_perform_bind_iff _ _ _ _).mpr ⟨r, [], rfl, ?_⟩
  cases r with
  | error failure => exact .refl _
  | ok judgement =>
      dsimp only
      cases parseVerdict judgement.text <;> exact .refl _

theorem plan_runs {c : ChatCompletion}
    (hdraft : strip c.text ≠ "") (hopen : (drafted (charged s c) c).tracker.canCritique = true)
    (y : Except Failure (Verdict × Usage)) :
    Prog.Runs (evaluate rt turn (strip c.text) s.ledger.sources) t y →
    Prog.Runs (plan rt turn (charged s c) c) t
      (match y with
      | .error .deadline => .inr (.deadline (critiqued (drafted (charged s c) c)))
      | .error (.raised exn) => .inr (.raised (critiqued (drafted (charged s c) c)) exn)
      | .ok (verdict, usage) =>
          let s := judged (critiqued (drafted (charged s c) c)) (strip c.text) verdict usage
          if verdict.sufficient && verdict.grounded then .inr (.stopped s .criticGrounded)
          else .inl (rejected s c verdict)) := by
  intro h
  unfold plan
  dsimp only
  rw [if_neg hdraft, if_pos hopen]
  refine (Prog.runs_bind_iff _ _ _ _).mpr ⟨t, y, [], h, ?_, by simp⟩
  rcases y with (exn | _) | ⟨verdict, usage⟩
  · exact .refl _
  · exact .refl _
  · dsimp only
    split <;> exact .refl _

theorem planned_runs {r : Except Failure ChatCompletion}
    (hopen : 0 < s.tracker.remainingToolCalls) (h : Planned rt turn s r t x) :
    Prog.Runs (match r with
      | .error .deadline => (pure (.inr (.deadline s)) : AgentProg (LoopState ⊕ LoopExit))
      | .error (.raised _) => plannerFailed rt turn s
      | .ok c =>
          if c.toolCalls ≠ [] then act rt turn (charged s c) c
          else plan rt turn (charged s c) c) t x := by
  cases h with
  | deadline => exact .refl _
  | fallbackLate exn outcome =>
      refine (Prog.runs_perform_bind_iff _ _ _ _).mpr ⟨outcome, _, rfl, ?_⟩
      exact (Prog.runs_perform_bind_iff _ _ _ _).mpr ⟨true, [], rfl, .refl _⟩
  | fallback exn outcome u answer hu =>
      refine (Prog.runs_perform_bind_iff _ _ _ _).mpr ⟨outcome, _, rfl, ?_⟩
      refine (Prog.runs_perform_bind_iff _ _ _ _).mpr ⟨false, u, rfl, ?_⟩
      exact (Prog.runs_bind_iff _ _ _ _).mpr ⟨u, answer, [], hu, .refl _, by simp⟩
  | toolsFailed c u failure hcalls hu =>
      dsimp only
      rw [if_pos hcalls]
      cases failure <;> exact act_runs hopen hu
  | acted c u results hcalls hu =>
      dsimp only
      rw [if_pos hcalls]
      exact act_runs hopen hu
  | nudged c hcalls hdraft =>
      simp [hcalls, plan, hdraft]
  | exhausted c hcalls hdraft hspent =>
      simp [hcalls, plan, hdraft, hspent]
  | criticFailed c hcalls hdraft hopen failure =>
      dsimp only
      rw [if_neg (by simpa using hcalls)]
      have hr := plan_runs hdraft hopen _ (evaluate_runs rt turn s
        (strip c.text) (.error failure))
      cases failure <;> exact hr
  | unreadable c hcalls hdraft hopen judgement exn hparse =>
      dsimp only
      rw [if_neg (by simpa using hcalls)]
      have hr := plan_runs hdraft hopen _ (evaluate_runs rt turn s
        (strip c.text) (.ok judgement))
      simp only [hparse] at hr
      exact hr
  | approved c hcalls hdraft hopen judgement verdict hparse hverdict =>
      dsimp only
      rw [if_neg (by simpa using hcalls)]
      have hr := plan_runs hdraft hopen _ (evaluate_runs rt turn s
        (strip c.text) (.ok judgement))
      simpa only [hparse, hverdict, if_true] using hr
  | rejected c hcalls hdraft hopen judgement verdict hparse hverdict =>
      dsimp only
      rw [if_neg (by simpa using hcalls)]
      have hr := plan_runs hdraft hopen _ (evaluate_runs rt turn s
        (strip c.text) (.ok judgement))
      simpa only [hparse, hverdict, Bool.false_eq_true, if_false] using hr

theorem pass_runs (h : Pass rt turn s t x) : Prog.Runs (iteration rt turn s) t x := by
  rw [iteration, BudgetTracker.terminalStop]
  cases h with
  | spent hspent =>
      rw [if_pos hspent]
      exact .refl _
  | late elapsed hopen hlate =>
      rw [if_neg (by simp [hopen]), LawfulMonad.bind_assoc]
      refine (Prog.runs_perform_bind_iff _ _ _ _).mpr ⟨elapsed, [], rfl, ?_⟩
      simp [hlate]
  | planned elapsed r u x hopen htime hplanned =>
      rw [if_neg (by simp [hopen]), LawfulMonad.bind_assoc]
      refine (Prog.runs_perform_bind_iff _ _ _ _).mpr ⟨elapsed, _, rfl, ?_⟩
      rw [if_neg (not_le.mpr htime), pure_bind]
      have hbudget := (BudgetTracker.not_spent_iff _).mp hopen
      have hleft : 0 < (stepped s).tracker.remainingToolCalls := by
        simp only [stepped, BudgetTracker.remainingToolCalls, BudgetTracker.chargeStep_budget,
          BudgetTracker.chargeStep_toolCalls]
        omega
      have hrest := planned_runs hleft hplanned
      refine (Prog.runs_perform_bind_iff _ _ _ _).mpr ⟨r, u, rfl, ?_⟩
      rcases r with (exn | _) | c <;> exact hrest

end Adequacy

/-- The pipeline's answer, or a refusal if the pipeline raised. -/
def Degrades (outcome : Except Exn Answer) (answer : AgentAnswer) : Prop :=
  match outcome with
  | .error _ => answer.refused = true ∧ answer.citations = [] ∧ answer.fallbackUsed = false
  | .ok fallback => answer.text = fallback.text ∧ answer.citations = fallback.citations
      ∧ answer.refused = fallback.refused ∧ answer.fallbackUsed = true

def pipelineOutcome : AgentEvent → Option (Except Exn Answer)
  | ⟨.answer _ _, outcome⟩ => some outcome
  | _ => none

/-- How the pipeline's last answer to the turn came out, if it was asked. -/
def lastOutcome (t : List AgentEvent) : Option (Except Exn Answer) :=
  (t.filterMap pipelineOutcome).getLast?

theorem lastOutcome_append_answer (h : List AgentEvent) (question : String)
    (principal : Principal) (outcome : Except Exn Answer) {t : List AgentEvent}
    (ht : ∀ e ∈ t, pipelineOutcome e = none) :
    lastOutcome (h ++ ⟨.answer question principal, outcome⟩ :: t) = some outcome := by
  rw [lastOutcome, List.filterMap_append, List.filterMap_cons, List.filterMap_eq_nil_iff.mpr ht]
  simp [pipelineOutcome]

theorem lastOutcome_eq_none {t : List AgentEvent} (ht : ∀ e ∈ t, pipelineOutcome e = none) :
    lastOutcome t = none := by
  rw [lastOutcome, List.filterMap_eq_nil_iff.mpr ht]
  rfl

section Endings

variable {rt : AgentRuntime} {t : List AgentEvent} {answer : AgentAnswer}

theorem buildAnswer_runs {e : TurnEnd} {base : Answer} {indexVersion : Option String}
    {fallbackUsed : Bool} {degradedReason : Option String}
    (h : Prog.Runs (buildAnswer rt e base indexVersion fallbackUsed degradedReason) t answer) :
    ∃ traceId version,
      answer = rt.builtAnswer e base fallbackUsed degradedReason traceId version := by
  obtain ⟨u, traceId, v, -, hv, rfl⟩ := (Prog.runs_bind_iff _ _ _ _).mp h
  obtain ⟨w, version, w', -, hw', rfl⟩ := (Prog.runs_bind_iff _ _ _ _).mp hv
  obtain ⟨-, rfl⟩ := (Prog.runs_ret_iff _ _ _).mp hw'
  exact ⟨traceId, version, rfl⟩

theorem fallbackAnswer_runs {e : TurnEnd} {reason : String} {outcome : Except Exn Answer}
    (h : Prog.Runs (fallbackAnswer rt e reason outcome) t answer) :
    Degrades outcome answer ∧ answer.usage = (match outcome with
      | .error _ => e.usage
      | .ok fallback => e.usage + fallback.usage) := by
  cases outcome with
  | error exn =>
      obtain ⟨traceId, version, rfl⟩ := buildAnswer_runs h
      exact ⟨⟨rfl, rfl, rfl⟩, rfl⟩
  | ok fallback =>
      obtain ⟨traceId, version, rfl⟩ := buildAnswer_runs h
      exact ⟨⟨rfl, rfl, rfl, rfl⟩, rfl⟩

variable [Runtime] {turn : Turn} {s : LoopState} {stop : StopReason}

/-- The two ways `_finalize` ends: the draft with citations of authorised evidence, or
the fallback. -/
theorem finalize_runs (h : Prog.Runs (finalize rt turn s stop) t answer) :
    (answer.usage = s.usage ∧ answer.fallbackUsed = false ∧ stop ∈ answerableStops
      ∧ (∃ e base, Prog.Runs (buildAnswer rt e base none false none) t answer)
      ∧ answer.citations = resolveSourceCitations (strip (s.draft.getD ""))
        (s.ledger.sources.filter (mayCite turn.principal)) true)
    ∨ ∃ outcome u e reason, t = ⟨.answer turn.question turn.principal, outcome⟩ :: u
      ∧ e.usage = s.usage ∧ Prog.Runs (fallbackAnswer rt e reason outcome) u answer := by
  unfold finalize at h
  extract_lets authorised text citations e reason last at h
  split at h
  · rename_i hcited
    have hbuilt := h
    obtain ⟨traceId, version, rfl⟩ := buildAnswer_runs h
    refine Or.inl ⟨rfl, rfl, hcited.2.2, ⟨_, _, hbuilt⟩, ?_⟩
    exact if_neg hcited.1
  · obtain ⟨outcome, u, rfl, hu⟩ := (Prog.runs_perform_bind_iff _ _ _ _).mp h
    exact Or.inr ⟨outcome, u, _, reason, rfl, rfl, hu⟩

/-- Every way out of the loop that is not a `return` or an escaping exception goes
through `_finalize`. -/
theorem leave_runs {exit : LoopExit} {out : Except Exn AgentAnswer}
    (h : Prog.Runs (leave rt turn exit) t out) :
    match exit with
    | .returned answer => t = [] ∧ out = .ok answer
    | .stopped s stop => ∃ answer, out = .ok answer ∧ Prog.Runs (finalize rt turn s stop) t answer
    | .deadline s => ∃ answer, out = .ok answer
        ∧ Prog.Runs (finalize rt turn s .budgetExhausted) t answer
    | .raised s exn =>
        (exn.isTimeout = true ∧ ∃ answer, out = .ok answer
          ∧ Prog.Runs (finalize rt turn s .budgetExhausted) t answer)
        ∨ exn.isTimeout = false ∧ t = [] ∧ out = .error exn := by
  have hfinal : ∀ s stop, Prog.Runs (finalize rt turn s stop >>= fun answer =>
      pure (.ok answer : Except Exn AgentAnswer)) t out →
      ∃ answer, out = .ok answer ∧ Prog.Runs (finalize rt turn s stop) t answer := by
    intro s stop hs
    obtain ⟨answer, ha, rfl⟩ := (Prog.runs_map_iff _ _ _ _).mp hs
    exact ⟨answer, rfl, ha⟩
  cases exit with
  | stopped s stop => exact hfinal s stop h
  | deadline s => exact hfinal s _ h
  | returned answer =>
      obtain ⟨rfl, rfl⟩ := (Prog.runs_ret_iff _ _ _).mp h
      exact ⟨rfl, rfl⟩
  | raised s exn =>
      rw [leave] at h
      split at h
      · rename_i htimeout
        exact Or.inl ⟨htimeout, hfinal s _ h⟩
      · rename_i htimeout
        obtain ⟨rfl, rfl⟩ := (Prog.runs_ret_iff _ _ _).mp h
        exact Or.inr ⟨by simpa using htimeout, rfl, rfl⟩

end Endings

section Turns

variable [Runtime] {rt : AgentRuntime}

/-- The events before the loop: the trace, the version and the tools on offer. -/
structure Opening (rt : AgentRuntime) (question : String) (principal : Principal)
    (turn : Turn) (pre : List AgentEvent) : Prop where
  question_eq : turn.question = question
  principal_eq : turn.principal = principal
  events : ∃ u, Prog.Runs (specs rt.tools rt.allowEgress) u (.ok turn.toolSpecs)
    ∧ pre = ⟨.startTrace, turn.traceId⟩ :: ⟨.activeIndexVersion, turn.indexVersion⟩ :: u

/-- How a turn goes: the tools cannot be listed, the bound on the loop is reached, or the
loop is left and the turn ends. -/
inductive TurnCase (rt : AgentRuntime) (question : String) (principal : Principal)
    (budget : Option Budget) : List AgentEvent → Option (Except Exn AgentAnswer) → Prop
  | unlisted (traceId version : String) (u : List AgentEvent) (exn : Exn)
      (h : Prog.Runs (specs rt.tools rt.allowEgress) u (.error exn)) :
      TurnCase rt question principal budget
        (⟨.startTrace, traceId⟩ :: ⟨.activeIndexVersion, version⟩ :: u) (some (.error exn))
  | unfinished (turn : Turn) (pre loop : List AgentEvent)
      (hopen : Opening rt question principal turn pre)
      (hloop : Prog.Runs (Prog.iterate (iteration rt turn)
        (((budget.getD rt.budget).clamp rt.budget).maxSteps.toNat + 1)
        (start rt turn ((budget.getD rt.budget).clamp rt.budget))) loop none) :
      TurnCase rt question principal budget (pre ++ loop) none
  | finished (turn : Turn) (pre loop post : List AgentEvent) (exit : LoopExit)
      (out : Except Exn AgentAnswer)
      (hopen : Opening rt question principal turn pre)
      (hloop : Prog.Runs (Prog.iterate (iteration rt turn)
        (((budget.getD rt.budget).clamp rt.budget).maxSteps.toNat + 1)
        (start rt turn ((budget.getD rt.budget).clamp rt.budget))) loop (some exit))
      (hleave : Prog.Runs (leave rt turn exit) post out) :
      TurnCase rt question principal budget (pre ++ (loop ++ post)) (some out)

theorem run_cases {question : String} {principal : Principal} {budget : Option Budget}
    {t : List AgentEvent} {r : Option (Except Exn AgentAnswer)}
    (h : Prog.Runs (run rt question principal budget) t r) :
    TurnCase rt question principal budget t r := by
  obtain ⟨traceId, u, rfl, hu⟩ := (Prog.runs_perform_bind_iff _ _ _ _).mp h
  obtain ⟨version, v, rfl, hv⟩ := (Prog.runs_perform_bind_iff _ _ _ _).mp hu
  obtain ⟨w, listed, w', hw, hw', rfl⟩ := (Prog.runs_bind_iff _ _ _ _).mp hv
  cases listed with
  | error exn =>
      obtain ⟨rfl, rfl⟩ := (Prog.runs_ret_iff _ _ _).mp hw'
      rw [List.append_nil]
      exact .unlisted traceId version w exn hw
  | ok toolSpecs =>
      obtain ⟨loop, exit, post, hloop, hpost, rfl⟩ := (Prog.runs_bind_iff _ _ _ _).mp hw'
      have hopen : Opening rt question principal
          ⟨question, principal, traceId, version, toolSpecs⟩
          (⟨.startTrace, traceId⟩ :: ⟨.activeIndexVersion, version⟩ :: w) :=
        ⟨rfl, rfl, w, hw, rfl⟩
      cases exit with
      | none =>
          obtain ⟨rfl, rfl⟩ := (Prog.runs_ret_iff _ _ _).mp hpost
          rw [List.append_nil]
          exact .unfinished _ _ loop hopen hloop
      | some exit =>
          obtain ⟨out, hout, rfl⟩ := (Prog.runs_map_iff _ _ _ _).mp hpost
          exact .finished _ _ loop post exit out hopen hloop hout

/-- The events of a turn that leaves its loop, put together. -/
theorem run_runs {turn : Turn} {pre loop post : List AgentEvent} {exit : LoopExit}
    {out : Except Exn AgentAnswer} (budget : Option Budget)
    (hopen : Opening rt turn.question turn.principal turn pre)
    (hloop : Prog.Runs (Prog.iterate (iteration rt turn)
      (((budget.getD rt.budget).clamp rt.budget).maxSteps.toNat + 1)
      (start rt turn ((budget.getD rt.budget).clamp rt.budget))) loop (some exit))
    (hleave : Prog.Runs (leave rt turn exit) post out) :
    Prog.Runs (run rt turn.question turn.principal budget) (pre ++ (loop ++ post)) (some out) := by
  obtain ⟨u, hu, rfl⟩ := hopen.events
  refine (Prog.runs_perform_bind_iff _ _ _ _).mpr ⟨turn.traceId, _, rfl, ?_⟩
  refine (Prog.runs_perform_bind_iff _ _ _ _).mpr ⟨turn.indexVersion, _, rfl, ?_⟩
  refine (Prog.runs_bind_iff _ _ _ _).mpr ⟨u, _, loop ++ post, hu, ?_, rfl⟩
  refine (Prog.runs_bind_iff _ _ _ _).mpr ⟨loop, _, post, hloop, ?_, rfl⟩
  exact (Prog.runs_map_iff _ _ _ _).mpr ⟨out, hleave, rfl⟩

end Turns

def bareRuntime : AgentRuntime := { tools := ⟨[], List.nodup_nil, false⟩ }

def bareTurn : Turn := ⟨"q", ⟨"u", ∅, "a"⟩, "t", "v1", []⟩

theorem bare_opening : Opening bareRuntime bareTurn.question bareTurn.principal bareTurn
    [⟨.startTrace, "t"⟩, ⟨.activeIndexVersion, "v1"⟩] :=
  ⟨rfl, rfl, [], .refl _, rfl⟩

def bareStart : LoopState := start bareRuntime bareTurn (Budget.clamp {} {})

theorem bareStart_open : bareStart.tracker.spent = false := by
  decide +kernel

/-- A completion that calls no tool. -/
def completionOf (text : String) (tokens : ℤ) : ChatCompletion where
  message := { role := .assistant, content := text }
  usage := { totalTokens := tokens }

theorem refusal_runs (rt : AgentRuntime) (e : TurnEnd) (reason : String) (exn : Exn)
    (version : String) (htrace : e.traceId ≠ "") : ∃ answer,
      Prog.Runs (fallbackAnswer rt e reason (.error exn)) [⟨.activeIndexVersion, version⟩]
        answer := by
  refine ⟨_, (Prog.runs_bind_iff _ _ _ _).mpr ⟨[], e.traceId, _, ?_, .step version (.refl _), rfl⟩⟩
  rw [traceIdOr, if_neg htrace]
  exact .refl _

theorem raised_runs [Runtime] (rt : AgentRuntime) (turn : Turn) (s : LoopState) {exn : Exn}
    (hexn : exn.isTimeout = false) : Prog.Runs (leave rt turn (.raised s exn)) [] (.error exn) := by
  rw [leave, if_neg (by simp [hexn])]
  exact .refl _

/-- A turn whose draft costs `tokens` and whose critic raises. -/
theorem bare_critic_raises [Runtime] (tokens : ℤ) (exn : Exn) (hexn : exn.isTimeout = false) :
    ∃ messages tools asked, Prog.Runs (run bareRuntime bareTurn.question bareTurn.principal none)
      [⟨.startTrace, "t"⟩, ⟨.activeIndexVersion, "v1"⟩, ⟨.elapsed, (0 : ℚ)⟩,
        ⟨.chat messages tools, .ok (completionOf "draft" tokens)⟩,
        ⟨.critique asked, .error (.raised exn)⟩]
      (some (.error exn)) := by
  have hdraft : strip (completionOf "draft" tokens).text ≠ "" := by
    change strip "draft" ≠ ""
    decide
  have hopen : (drafted (charged (stepped bareStart) (completionOf "draft" tokens))
      (completionOf "draft" tokens)).tracker.canCritique = true := rfl
  have hpass : Pass bareRuntime bareTurn bareStart _ _ :=
    .planned 0 (.ok (completionOf "draft" tokens)) _ _ bareStart_open (by decide)
      (.criticFailed (completionOf "draft" tokens) rfl hdraft hopen (.raised exn))
  have hleave := raised_runs bareRuntime bareTurn
    (critiqued (drafted (charged (stepped bareStart) (completionOf "draft" tokens))
      (completionOf "draft" tokens))) hexn
  exact ⟨_, _, _, run_runs none bare_opening
    (Prog.iterate_exit (pass_runs hpass)) hleave⟩

end Rag
