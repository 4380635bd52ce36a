import Rag.Agent.Asks

/-!
When a turn succeeds.

`ExitedBy` takes a turn apart at the exit of its loop. Either `_finalize` kept the agent's
draft, which is then cited and not refused, or the agent stepped aside and the answer is
the pipeline's or a refusal.
-/

namespace Rag

open Py Interaction AgentRuntime

/-- `task_success`: 1 when the agent answered without falling back or refusing. -/
def taskSuccess (answer : AgentAnswer) (requireCitations : Bool := true) : ℚ :=
  if answer.refused then 0
  else if answer.fallbackUsed then 0
  else if answer.stopReason ∉ answerableStops then 0
  else if requireCitations && answer.citations = [] then 0
  else 1

section Turns

variable [Runtime]

/-- `_finalize` keeps the draft: there is one, it cites authorised evidence, and the loop
stopped with a draft to return. -/
def DraftKept (principal : Principal) (s : LoopState) (stop : StopReason) : Prop :=
  let text := strip (s.draft.getD "")
  text ≠ "" ∧ resolveSourceCitations text (s.ledger.sources.filter (mayCite principal)) true ≠ []
    ∧ stop ∈ answerableStops

/-- What `_finalize` is called with past the loop. -/
def LoopExit.finalized : LoopExit → Option (LoopState × StopReason)
  | .stopped s stop => some (s, stop)
  | .deadline s => some (s, .budgetExhausted)
  | .raised s exn => if exn.isTimeout then some (s, .budgetExhausted) else none
  | .returned _ => none

/-- Past this exit `_finalize` builds the answer from the agent's own draft. -/
def LoopExit.KeepsDraft (principal : Principal) (exit : LoopExit) : Prop :=
  ∃ s stop, exit.finalized = some (s, stop) ∧ DraftKept principal s stop

/-- The turn recorded in `t` left its loop by `exit` and ended with `out`. -/
def ExitedBy (rt : AgentRuntime) (question : String) (principal : Principal) (budget : Option Budget)
    (exit : LoopExit) (t : List AgentEvent) (out : Except Exn AgentAnswer) : Prop :=
  ∃ turn pre loop post, Opening rt question principal turn pre
    ∧ Prog.Runs (Prog.iterate (iteration rt turn)
      (((budget.getD rt.budget).clamp rt.budget).maxSteps.toNat + 1)
      (start rt turn ((budget.getD rt.budget).clamp rt.budget))) loop (some exit)
    ∧ Prog.Runs (leave rt turn exit) post out
    ∧ t = pre ++ (loop ++ post)

end Turns

/-- An answer the agent gave under its own power. -/
structure OwnAnswer (answer : AgentAnswer) : Prop where
  answered : answer.refused = false
  unexplained : answer.refusalReason = none
  cited : answer.citations ≠ []
  agent : answer.fallbackUsed = false
  answerable : answer.stopReason ∈ answerableStops

/-- The agent stepped aside: the answer is a refusal, or the pipeline's. -/
def SteppedAside (answer : AgentAnswer) : Except Exn Answer → Prop
  | .error _ => answer.refused = true ∧ answer.citations = [] ∧ answer.refusalReason ≠ none
      ∧ answer.cached = false ∧ answer.fallbackUsed = false
      ∧ answer.stopReason ≠ .fallbackPipeline
  | .ok fallback => answer.refused = fallback.refused ∧ answer.citations = fallback.citations
      ∧ answer.refusalReason = fallback.refusalReason ∧ answer.cached = fallback.cached
      ∧ answer.fallbackUsed = true ∧ answer.stopReason = .fallbackPipeline

theorem taskSuccess_eq_one_iff (answer : AgentAnswer) :
    taskSuccess answer = 1 ↔ answer.refused = false ∧ answer.fallbackUsed = false
      ∧ answer.stopReason ∈ answerableStops ∧ answer.citations ≠ [] := by
  unfold taskSuccess
  split_ifs with hrefused hfallback hstop hcitations
  · simp [hrefused]
  · simp [hfallback]
  · have hnone : answer.citations = [] := by simpa using hcitations
    simp [hnone]
  · have hsome : answer.citations ≠ [] := by simpa using hcitations
    simp only [true_iff]
    exact ⟨by simpa using hrefused, by simpa using hfallback, hstop, hsome⟩
  · simp [hstop]

theorem OwnAnswer.succeeds {answer : AgentAnswer} (h : OwnAnswer answer) :
    taskSuccess answer = 1 :=
  (taskSuccess_eq_one_iff answer).mpr ⟨h.answered, h.agent, h.answerable, h.cited⟩

theorem SteppedAside.fails {answer : AgentAnswer} {outcome : Except Exn Answer}
    (h : SteppedAside answer outcome) : answer.refused = true ∨ answer.fallbackUsed = true := by
  cases outcome with
  | error exn => exact Or.inl h.1
  | ok fallback => exact Or.inr h.2.2.2.2.1

section Endings

variable {rt : AgentRuntime} {t : List AgentEvent} {answer : AgentAnswer}

theorem fallbackAnswer_aside {e : TurnEnd} {reason : String} {outcome : Except Exn Answer}
    (hstop : e.stop ≠ .fallbackPipeline)
    (h : Prog.Runs (fallbackAnswer rt e reason outcome) t answer) :
    SteppedAside answer outcome := by
  cases outcome with
  | error exn =>
      obtain ⟨traceId, version, rfl⟩ := buildAnswer_runs h
      exact ⟨rfl, rfl, by simp [builtAnswer], rfl, rfl, hstop⟩
  | ok fallback =>
      obtain ⟨traceId, version, rfl⟩ := buildAnswer_runs h
      exact ⟨rfl, rfl, rfl, rfl, rfl, rfl⟩

variable [Runtime] {turn : Turn} {s : LoopState} {stop : StopReason}

/-- `_finalize` keeps the draft, or steps aside. -/
theorem finalize_cases (h : Prog.Runs (finalize rt turn s stop) t answer) :
    (DraftKept turn.principal s stop ∧ OwnAnswer answer ∧ answer.cached = false)
      ∨ (¬ DraftKept turn.principal s stop
        ∧ ∃ outcome, ⟨.answer turn.question turn.principal, outcome⟩ ∈ t
          ∧ SteppedAside answer outcome) := by
  unfold finalize at h
  extract_lets authorised text citations e reason last at h
  split at h
  · rename_i hkept
    have hcitations : citations
        = resolveSourceCitations text authorised true := if_neg hkept.1
    obtain ⟨traceId, version, rfl⟩ := buildAnswer_runs h
    have hcited := hkept.2.1
    rw [hcitations] at hcited
    exact Or.inl ⟨⟨hkept.1, hcited, hkept.2.2⟩,
      ⟨rfl, rfl, hkept.2.1, rfl, hkept.2.2⟩, rfl⟩
  · rename_i hdropped
    obtain ⟨outcome, u, rfl, hu⟩ := (Prog.runs_perform_bind_iff _ _ _ _).mp h
    refine Or.inr ⟨?_, outcome, List.mem_cons_self, fallbackAnswer_aside ?_ hu⟩
    · intro hkept
      have hcitations : citations
          = resolveSourceCitations text authorised true := if_neg hkept.1
      refine hdropped ⟨hkept.1, ?_, hkept.2.2⟩
      rw [hcitations]
      exact hkept.2.1
    · change last ≠ .fallbackPipeline
      simp only [last]
      split_ifs with hspent
      · rw [hspent]
        decide
      · decide

/-- A turn that answers past its loop has called `_finalize`, or the loop returned the
answer. -/
theorem leave_finalized {exit : LoopExit} (h : Prog.Runs (leave rt turn exit) t (.ok answer)) :
    (∃ s stop, exit.finalized = some (s, stop) ∧ Prog.Runs (finalize rt turn s stop) t answer)
      ∨ exit = .returned answer ∧ t = [] := by
  have hcases := leave_runs h
  cases exit with
  | stopped s stop =>
      obtain ⟨_, ⟨⟩, hr⟩ := hcases
      exact Or.inl ⟨s, stop, rfl, hr⟩
  | deadline s =>
      obtain ⟨_, ⟨⟩, hr⟩ := hcases
      exact Or.inl ⟨s, .budgetExhausted, rfl, hr⟩
  | raised s exn =>
      rcases hcases with ⟨htimeout, _, ⟨⟩, hr⟩ | ⟨-, -, ⟨⟩⟩
      exact Or.inl ⟨s, .budgetExhausted, if_pos htimeout, hr⟩
  | returned _ =>
      obtain ⟨rfl, ⟨⟩⟩ := hcases
      exact Or.inr ⟨rfl, rfl⟩

/-- A loop left by a `return` was left by the planner-error branch. -/
theorem loop_returned {n : Nat} (h : Prog.Runs (Prog.iterate (iteration rt turn) n s) t
    (some (.returned answer))) :
    ∃ outcome, ⟨.answer turn.question turn.principal, outcome⟩ ∈ t
      ∧ SteppedAside answer outcome := by
  obtain ⟨t₁, s', t₂, rfl, -, hexit⟩ :=
    Prog.runs_iterate (I := fun _ _ => True) (h := []) (fun _ _ _ _ _ _ => trivial) trivial h
  have hpass := iteration_pass hexit
  cases hpass with
  | planned elapsed r u _ hopen htime hplanned =>
      generalize hx : (Sum.inr (LoopExit.returned answer) : LoopState ⊕ LoopExit) = x at hplanned
      cases hplanned with
      | fallback exn outcome u _ hu =>
          cases hx
          have hstop : (plannerFailedEnd rt turn (stepped s')).stop ≠ .fallbackPipeline := by
            simp [plannerFailedEnd]
          exact ⟨outcome, by simp, fallbackAnswer_aside hstop hu⟩
      | toolsFailed c u failure hcalls hu => cases failure <;> cases hx
      | criticFailed c hcalls hdraft hopen failure => cases failure <;> cases hx
      | _ => cases hx

end Endings

section Turns

variable [Runtime] {rt : AgentRuntime} {question : String} {principal : Principal}
  {budget : Option Budget} {t : List AgentEvent} {answer : AgentAnswer} {exit : LoopExit}

/-- A turn that answers keeps its draft exactly when the answer is the agent's own. -/
theorem left_cases (h : ExitedBy rt question principal budget exit t (.ok answer)) :
    (exit.KeepsDraft principal ∧ OwnAnswer answer ∧ answer.cached = false)
      ∨ (¬ exit.KeepsDraft principal
        ∧ ∃ outcome, ⟨.answer question principal, outcome⟩ ∈ t ∧ SteppedAside answer outcome) := by
  obtain ⟨turn, pre, loop, post, hopen, hloop, hleave, rfl⟩ := h
  rcases leave_finalized hleave with ⟨s, stop, hexit, hr⟩ | ⟨rfl, rfl⟩
  · rw [← hopen.question_eq, ← hopen.principal_eq]
    rcases finalize_cases hr with ⟨hkept, hown⟩ | ⟨hdropped, outcome, hin, haside⟩
    · exact Or.inl ⟨⟨s, stop, hexit, hkept⟩, hown⟩
    · refine Or.inr ⟨?_, outcome, by simp [hin], haside⟩
      rintro ⟨s', stop', hexit', hkept⟩
      rw [hexit] at hexit'
      cases hexit'
      exact hdropped hkept
  · obtain ⟨outcome, hin, haside⟩ := loop_returned hloop
    rw [hopen.question_eq, hopen.principal_eq] at hin
    refine Or.inr ⟨?_, outcome, by simp [hin], haside⟩
    rintro ⟨s, stop, hexit, -⟩
    cases hexit

/-- Every turn that answers has left its loop. -/
theorem run_left (h : Prog.Runs (run rt question principal budget) t (some (.ok answer))) :
    ∃ exit, ExitedBy rt question principal budget exit t (.ok answer) := by
  cases run_cases h with
  | finished turn pre loop post exit out hopen hloop hleave =>
      exact ⟨exit, turn, pre, loop, post, hopen, hloop, hleave, rfl⟩

end Turns

end Rag
